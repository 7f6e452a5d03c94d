import Libael.Tcp.Integrity

/-!
# Libael.Tcp.Views

**Only non-empty views are sent.** A view gets into `pending_writes_` or `pending_out_` when
it is written, when `DoWrite` moves it, or as the suffix that a partial `send` leaves behind,
and in none of these cases is it empty. So `Slice` is called in range by `Out`, and the
exceptions of an empty or a negative view never leave the loop thread.
-/

namespace Libael

open Lts

/-- There are bytes to send, and a pointer to them. -/
def DataView.Sendable (d : DataView) : Prop := d.data ≠ none ∧ 0 < d.dataLength

theorem DataView.sendable_of_pos {d : DataView} (h : 0 < d.dataLength) : d.Sendable := by
  refine ⟨fun hnone => ?_, h⟩
  have hreadable := d.readable
  rw [hnone] at hreadable
  simp only [Option.getD_none, List.length_nil] at hreadable
  omega

/-- An exception that an empty or a negative view would have raised. -/
def Exception.ofView (ex : Exception) : Bool :=
  match ex with
  | .text msg => msg == "write return 0 (kernel bug?)"
  | .outOfRange _ | .badArrayNewLength => true
  | .systemError _ _ => false

namespace TCPStreamBufferFilter

/-- What `Out` throws on a non-empty view comes from `send`. -/
theorem out_throws {d : DataView} {ret : Except Errno Nat} {ex : Exception}
    (hpos : 0 < d.dataLength) (hret : SendContract d.dataLength ret) (h : out ret d = .error ex) :
    ∃ e, ex = .systemError e "write failed" := by
  cases ret with
  | error e =>
      unfold out at h
      dsimp only at h
      split at h
      · exact absurd h (by simp)
      all_goals first | exact ⟨_, (Except.error.inj h).symm⟩ | exact absurd h (by simp)
  | ok n =>
      rcases out_cases hpos hret with ⟨-, ho⟩ | ⟨e, hno, -⟩ | ⟨n', suffix, -, -, -, ho, -⟩ |
        ⟨n', -, -, ho⟩
      · exact absurd (ho.symm.trans h) (by simp)
      · exact absurd hno (by simp)
      · exact absurd (ho.symm.trans h) (by simp)
      · exact absurd (ho.symm.trans h) (by simp)

/-- The other methods of the filter do not throw on account of a view either. -/
theorem answer_throws {pendingConnect : Bool} {r : SysRet} {k k' : Socket} {i : Nat}
    {ex : Exception} (h : (tcpEnv pendingConnect).in i r k = some (.error ex, k') ∨
      (tcpEnv pendingConnect).shutdown i r k = some (.error ex, k') ∨
      (tcpEnv pendingConnect).connect i r k = some (.error ex, k') ∨
      (tcpEnv pendingConnect).accept i r k = some (.error ex, k')) : ex.ofView = false := by
  rcases h with h | h | h | h
  · cases r <;> simp only [tcpEnv, reduceCtorEq, Option.some.injEq, Prod.mk.injEq] at h
    rename_i ret
    have hin := h.1
    unfold «in» at hin
    split at hin
    · exact absurd hin (by simp)
    · split at hin <;> first | (rw [← Except.error.inj hin]; rfl) | exact absurd hin (by simp)
    · exact absurd hin (by simp)
  · cases r <;> simp [tcpEnv] at h
  · cases pendingConnect with
    | true => cases r <;> simp [tcpEnv] at h
    | false =>
        cases r <;> simp only [tcpEnv, reduceCtorEq] at h
        rename_i ret
        cases ret with
        | error e =>
            simp only [Option.some.injEq, Prod.mk.injEq, connect, Except.error.injEq] at h
            rw [← h.1]
            rfl
        | ok e =>
            dsimp only at h
            split at h
            · cases e <;> simp [connect] at h
            · exact absurd h (by simp)
  · cases r <;> simp only [tcpEnv, reduceCtorEq, Option.some.injEq, Prod.mk.injEq] at h
    have haccept := h.1
    unfold accept at haccept
    split at haccept
    · exact absurd haccept (by simp)
    · rw [← Except.error.inj haccept]
      decide

end TCPStreamBufferFilter

namespace BufferState

variable {pendingConnect : Bool} {l : BufferLabel SysRet} {s s' : BufferState Socket}
  {tr o : List (Obs SysRet)} {mode : StreamBufferMode} {addr : Nat} {k : Socket}

/-- `Connect` and `Accept` throw no exception of a view. -/
theorem connect_throws {b : StreamBuffer} {r : SysRet} {k k' : Socket}
    {n : Next SysRet StreamBuffer}
    {ex : Exception} (h : b.answerFrame (tcpEnv pendingConnect) r k .doConnect = some (n, k'))
    (hthrew : n.threw = some ex) : ex.ofView = false := by
  unfold StreamBuffer.answerFrame at h
  obtain ⟨⟨res, k₁⟩, hasked, heq⟩ := Option.map_eq_some_iff.mp h
  cases res with
  | ok res =>
      obtain ⟨rfl, -⟩ := Prod.mk.inj heq
      cases res <;> exact absurd hthrew (by simp [Next.after, StreamBuffer.afterConnect])
  | error e =>
      obtain ⟨rfl, rfl⟩ := Prod.mk.inj heq
      obtain rfl := Option.some.inj hthrew
      cases hmode : b.mode with
      | client =>
          rw [hmode] at hasked
          exact TCPStreamBufferFilter.answer_throws (.inr (.inr (.inl hasked)))
      | server =>
          rw [hmode] at hasked
          exact TCPStreamBufferFilter.answer_throws (.inr (.inr (.inr hasked)))

/-- An exception that leaves `HandleEvents` is not one of a view. Of the methods of the filter
only `Out` slices, and what it slices has bytes. -/
theorem crash_step (hi : StreamInv tr s) (h : step (tcpEnv pendingConnect) l s = some (s', o))
    {ex : Exception} (hcrash : s'.crashed = some ex) : ex.ofView = false := by
  obtain ⟨hc, hstep⟩ := step_inv h
  have hno : ∀ {s₁ : BufferState Socket}, s₁.crashed = s.crashed → s₁.crashed ≠ some ex := by
    intro s₁ heq
    rw [heq, hc]
    simp
  clear h
  cases hstep with
  | handleEvents hstack _ hn =>
      rw [resume_of_threw_none (StreamBuffer.handleEvents_cases hn).2.2.1] at hcrash
      exact absurd hcrash (hno rfl)
  | run hstack hrun =>
      rw [resume_of_threw_none (StreamBuffer.runFrame_threw hrun)] at hcrash
      exact absurd hcrash (hno rfl)
  | @answer fr rest r n k' hstack hans =>
      have hthrew : n.threw = some ex := by
        cases ht : n.threw with
        | none =>
            rw [resume_of_threw_none ht] at hcrash
            exact absurd hcrash (hno rfl)
        | some e =>
            rw [resume_of_threw ht] at hcrash
            exact hcrash
      have hout :
          ∀ {i again after}, s.buffer.callOut (tcpEnv pendingConnect) i r s.env again after =
          some (n, k') → ex.ofView = false := by
        intro i again after hcall
        obtain ⟨d, ds, res, hpo, hres, -, ⟨e, rfl, ht, -⟩ | ⟨_, _, _, _, _, ht, -⟩⟩ :=
          StreamBuffer.callOut_cases hcall
        · obtain rfl := Option.some.inj (ht.symm.trans hthrew)
          have hlt := StreamBuffer.lt_length_of_pendingOut (b := s.buffer) (by rw [hpo]; simp)
          rw [hi.length] at hlt
          obtain rfl : i = 0 := by omega
          have hpos := hi.pendingOut d (by rw [tcp, hpo]; exact List.mem_cons_self)
          cases r <;> simp only [tcpEnv, reduceCtorEq] at hres
          split at hres
          · rename_i hret
            obtain ⟨errno, rfl⟩ :=
              TCPStreamBufferFilter.out_throws hpos hret (Prod.mk.inj (Option.some.inj hres)).1
            rfl
          · exact absurd hres (by simp)
        · exact absurd (ht.symm.trans hthrew) (by simp)
      cases hfr : fr.sends with
      | true =>
          cases fr <;> simp only [Frame.sends, reduceCtorEq] at hfr
          · exact hout hans
          · exact hout hans
      | false =>
          rcases StreamBuffer.answerFrame_cases hans hfr with
            ⟨e, x, rfl, hx⟩ | ⟨i, res, -, -, rfl⟩ | ⟨i, res, -, -, rfl⟩ | ⟨res, -, -, rfl⟩
          · obtain rfl := Option.some.inj hthrew
            rcases hx with ⟨i, -, -, hin⟩ | ⟨i, -, -, hshut⟩ | ⟨rfl, -⟩
            · exact TCPStreamBufferFilter.answer_throws (.inl hin)
            · exact TCPStreamBufferFilter.answer_throws (.inr (.inl hshut))
            · exact connect_throws hans rfl
          · unfold StreamBuffer.afterIn at hthrew
            split at hthrew
            · exact absurd hthrew (by simp [Next.after])
            · split at hthrew <;> exact absurd hthrew (by simp [Next.after])
          · unfold StreamBuffer.afterShutdown at hthrew
            split at hthrew <;> exact absurd hthrew (by simp [Next.after])
          · cases res <;> exact absurd hthrew (by simp [Next.after, StreamBuffer.afterConnect])
  | @write a d _ =>
      unfold write at hcrash
      split at hcrash
      · exact absurd hcrash (hno rfl)
      · split at hcrash
        · exact absurd hcrash (hno rfl)
        · split at hcrash <;> exact absurd hcrash (hno rfl)
  | _ => exact absurd hcrash (hno rfl)

/-- What `Out` has been called on, and with what it can go on. -/
def Sliceable (i : Nat) (d : DataView) (r : SysRet) : Prop :=
  i = 0 ∧ d.Sendable ∧ ∃ ret, r = .send ret ∧ ∀ n : Nat, ret = .ok n → 0 < n ∧
    (n : Int) ≤ d.dataLength ∧
    ((n : Int) < d.dataLength → ∃ suffix saved, d.slice n = .ok suffix ∧ suffix.save = .ok saved ∧
      saved.Sendable)

/-- `Out` is called on a view that is not empty, and `send` takes no more than it was given. -/
theorem sliceable_step (hok : TcpOnly l s) (hi : StreamInv tr s)
    (h : step (tcpEnv pendingConnect) l s = some (s', o)) {i : Nat} {d : DataView} {r : SysRet}
    {res : Except Exception (OutResult × Option DataView)} (hmem : .out i d r res ∈ o) :
    Sliceable i d r := by
  cases dataStep hok h hi.length with
  | keep _ _ hobs => exact absurd (hobs _ hmem) (by simp [Obs.isData])
  | accept _ _ _ => exact absurd (List.mem_singleton.mp hmem) (by simp)
  | swap _ _ _ => exact absurd (List.mem_singleton.mp hmem) (by simp)
  | @send fr rest d' ds ret _ _ hpo hret _ _ =>
      obtain ⟨rfl, rfl, rfl, -⟩ := Obs.out.inj (List.mem_singleton.mp hmem)
      have hpos : 0 < d.dataLength := hi.pendingOut d (by rw [hpo]; exact List.mem_cons_self)
      refine ⟨rfl, DataView.sendable_of_pos hpos, ret, rfl, ?_⟩
      rintro n rfl
      refine ⟨by have := hret.2 hpos; omega, hret.1, fun hlt => ?_⟩
      obtain ⟨suffix, saved, hslice, hsave, -, hlen⟩ := DataView.slice_save hlt
      exact ⟨suffix, saved, hslice, hsave, DataView.sendable_of_pos (by omega)⟩

/-- A view of negative length is refused before anything is queued. -/
theorem write_negative {a : Agent} {d : DataView} (hneg : d.dataLength < 0)
    (h : step (tcpEnv pendingConnect) (.write a d) s = some (s', o)) :
    s' = s ∧ (s.buffer.shouldClose = false → o = [.threw .badArrayNewLength]) := by
  obtain ⟨-, hstep⟩ := step_inv h
  cases hstep with
  | write _ =>
      have hsaved : d.saved = false := by
        by_contra hyes
        have howned := d.owned (by simpa using hyes)
        omega
      have hsave : d.save = .error .badArrayNewLength := by
        unfold DataView.save
        rw [if_neg (by simp [hsaved]), dif_pos hneg]
      unfold write
      rw [if_neg (by omega)]
      split
      · rename_i hclose
        exact ⟨rfl, fun hopen => absurd (hclose.symm.trans hopen) (by simp)⟩
      · rw [hsave]
        exact ⟨rfl, fun _ => rfl⟩

/-- **Only non-empty views are sent.** In every reachable state the views to be written and
the views to be sent have bytes; what `Out` is called on can be sliced where `send` has
stopped, and the rest can be saved; and neither `Slice` nor `Save` nor a `send` of nothing
ends the loop thread. A view of negative length does not get that far. -/
theorem only_nonempty_views (h : TcpRun pendingConnect (init mode addr k) tr s) :
    (∀ d ∈ s.buffer.pendingWrites ++ s.tcp.pendingOut, d.Sendable) ∧
    (∀ i d r res, .out i d r res ∈ tr → Sliceable i d r) ∧
    (∀ ex, s.crashed = some ex → ex.ofView = false) ∧
    ∀ a d s' o, d.dataLength < 0 → step (tcpEnv pendingConnect) (.write a d) s = some (s', o) →
      s' = s ∧ (s.buffer.shouldClose = false → o = [.threw .badArrayNewLength]) := by
  refine ⟨fun d hd => ?_, fun i d r res hmem => ?_, fun ex hcrash => ?_, ?_⟩
  · have hi := streamInv_of_run h
    rcases List.mem_append.mp hd with hd | hd
    · exact DataView.sendable_of_pos (hi.pendingWrites d hd)
    · exact DataView.sendable_of_pos (hi.pendingOut d hd)
  · obtain ⟨tr₁, s₁, l, s₂, o, h₁, hok, hs, hmem', -⟩ := h.exists_step_of_mem hmem
    exact sliceable_step hok (streamInv_of_run h₁) hs hmem'
  · cases h with
    | refl => exact absurd hcrash (by simp [init])
    | step hrun _ hs => exact crash_step (streamInv_of_run hrun) hs hcrash
  · intro a d s' o hneg hs
    exact write_negative hneg hs

/-- A partial `send` of three bytes leaves two of them, with a pointer. -/
theorem only_nonempty_views_partialWrite :
    ((after partialWrite).1.buffer.pendingWrites ++ (after partialWrite).1.tcp.pendingOut).length =
      1 ∧
      ∀ d ∈ (after partialWrite).1.buffer.pendingWrites ++ (after partialWrite).1.tcp.pendingOut,
        d.Sendable :=
  ⟨by decide +kernel, (only_nonempty_views run_partialWrite).1⟩

end BufferState

end Libael
