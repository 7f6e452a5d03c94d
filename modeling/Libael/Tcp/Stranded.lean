import Libael.Tcp.Calls

/-!
# Libael.Tcp.Stranded

**Stranded output.** `DoWrite` enters the `Out` loop only when it has taken something out
of `pending_writes_`, so what an earlier partial write left in `pending_out_` is not
touched by a writable notification that comes without a further `Write`. A call of
`HandleEvents` on a connected buffer that stays open leaves `pending_out_` empty or
blocked exactly when it was empty at the start or `DoWrite` found a view to write.

* `CallInv` is the invariant of the call. Before `DoWrite` nothing has touched `pending_out_`;
  what `DoWrite` finds decides (`swap_step`) whether it stays untouched to the end or the
  `Out` loop runs, which is left with the list empty or `Out` blocked (`LastBlocked`).
* `reading_step`, `swap_step` and `returning_step` take the three parts of the call in order,
  and `callInv_step` puts them together.
-/

namespace Libael

open Lts

namespace BufferState

/-- During the call `Out` was attempted on the head of `pending_out_`, and did not
consume it. -/
def Attempted (c : List (Obs SysRet)) (s : BufferState Socket) : Prop :=
  ∃ d ret d', .out 0 d (.send ret) (.ok (⟨false⟩, some d')) ∈ c ∧
    (ret = .error .EAGAIN ∨ ∃ m : Nat, ret = .ok m ∧ (m : Int) < d.dataLength) ∧
    s.tcp.pendingOut.head? = some d'

/-- `DoWrite` has found `pending_writes_` not empty, and has moved what was in it to
`pending_out_`. -/
def TookWrites (c : List (Obs SysRet)) : Prop := ∃ ds, ds ≠ [] ∧ .swapped ds ∈ c

/-- `DoRead` and what it runs. -/
inductive Reading : List Frame → Prop
  /-- `DoRead` has returned -/
  | done : Reading []
  | doRead : Reading [.doRead]
  /-- the loop of `Read` -/
  | read : Reading [.read 0]
  | callback (d : DataView) : Reading [.callback (.handleData d), .read 0]

/-- The end of a call that closes nothing. -/
inductive Returning : List Frame → Prop
  | doFinalize : Returning [.doFinalize]
  | finalizeEOF : Returning [.finalizeEOF]
  | closeEvent : Returning [.closeEvent]
  | done : Returning []

/-- The call has left the case in question: it has thrown, or the buffer is closing. -/
def Escaped (s : BufferState Socket) : Prop :=
  s.crashed ≠ none ∨ s.buffer.shouldClose = true ∨ s.tcp.writeClosed = true

/-- Where a call is that began with `p` in `pending_out_`. -/
inductive CallInv (p : List DataView) (c : List (Obs SysRet)) (s : BufferState Socket) : Prop
  /-- an exception, or the buffer is closing -/
  | escaped : Escaped s → CallInv p c s
  /-- before `DoWrite`, or behind one that has found nothing -/
  | untouched : s.tcp.pendingOut = p → (∀ x ∈ c, x.isOut = false) → ¬ TookWrites c →
      ((∃ fs, Reading fs ∧ s.stack = fs ++ [.doWrite, .doFinalize]) ∨ Returning s.stack) →
      CallInv p c s
  /-- in the `Out` loop -/
  | writing : TookWrites c → s.stack = [.write 0, .doFinalize] → CallInv p c s
  /-- behind it -/
  | written : TookWrites c → (s.tcp.pendingOut = [] ∨ LastBlocked c s) → Returning s.stack →
      CallInv p c s

variable {pendingConnect alive : Bool} {l : BufferLabel SysRet} {s s' s₁ : BufferState Socket}
  {tr o c : List (Obs SysRet)} {p : List DataView} {mode : StreamBufferMode} {addr : Nat}
  {k : Socket}

theorem TookWrites.append (h : TookWrites c) : TookWrites (c ++ o) := by
  obtain ⟨ds, hne, hmem⟩ := h
  exact ⟨ds, hne, List.mem_append_left _ hmem⟩

theorem Escaped.step (he : Escaped s) (h : step (tcpEnv pendingConnect) l s = some (s', o)) :
    Escaped s' := by
  have hgrow := flagsGrow_step h
  rcases he with hc | hclose | hwc
  · exact absurd (step_inv h).1 hc
  · exact .inr (.inl (hgrow.shouldClose hclose))
  · exact .inr (.inr (hgrow.writeClosed 0 hwc))

/-- Everything after the writing ends the call or closes the buffer, and calls `Out` no more. -/
theorem returning_step (h : step (tcpEnv pendingConnect) l s = some (s', o))
    (hlen : s.buffer.streamFilters.length = 1) (hstack : Returning s.stack) (hbusy : s.stack ≠ []) :
    Escaped s' ∨ Returning s'.stack ∧ s'.tcp = s.tcp ∧ (∀ x ∈ o, x.isOut = false) ∧
      ¬ TookWrites o := by
  obtain ⟨-, hmove⟩ := move_of_step h
  cases hmove with
  | enter hnil => exact absurd hnil hbusy
  | aside ha =>
      refine .inr ⟨by rw [ha.stack]; exact hstack, ha.tcp, ha.isOut, ?_⟩
      rintro ⟨ds, -, hmem⟩
      exact absurd (ha.obs _ hmem) (by simp [Obs.aside])
  | ret hcb => rw [hcb] at hstack; cases hstack
  | added hcb =>
      obtain ⟨c, rest, hcb⟩ := hcb.resolve_left hbusy
      rw [hcb] at hstack
      cases hstack
  | answer hf hans => rw [hf] at hstack; cases hstack <;> simp [StreamBuffer.answerFrame] at hans
  | @run f rest n hf hrun =>
      rw [hf] at hstack
      cases hstack with
      | doFinalize =>
          obtain rfl := Option.some.inj hrun
          by_cases hd : s.buffer.shouldClose = false ∧ s.buffer.back.readClosed = true
          · exact .inl (.inr (.inl (by simp [StreamBuffer.doFinalize, hd])))
          · have hn : (s.buffer.doFinalize : Next SysRet StreamBuffer) =
                { buffer := s.buffer, frames := [.finalizeEOF] } := by
              unfold StreamBuffer.doFinalize
              rw [if_neg (by simpa using hd)]
            rw [hn]
            refine .inr ⟨by simpa [resume] using .finalizeEOF, rfl, by simp, ?_⟩
            rintro ⟨ds, -, hmem⟩
            exact absurd hmem (by simp)
      | finalizeEOF =>
          obtain rfl := Option.some.inj hrun
          by_cases hwc : s.tcp.writeClosed = true
          · exact .inl (Escaped.step (.inr (.inr hwc)) h)
          · have hopen : s.buffer.isWriteClosed = false := by
              rw [isWriteClosed_eq hlen]
              simpa using hwc
            have hn :
                (s.buffer.finalizeEOF : Next SysRet StreamBuffer) = { buffer := s.buffer } := by
              simp [StreamBuffer.finalizeEOF, hopen]
            rw [hn]
            refine .inr ⟨by simpa [resume] using .done, rfl, by simp, ?_⟩
            rintro ⟨ds, -, hmem⟩
            exact absurd hmem (by simp)
      | closeEvent =>
          obtain rfl := Option.some.inj hrun
          refine .inr ⟨by simpa [resume] using .done, rfl, by simp [Obs.isOut], ?_⟩
          rintro ⟨ds, -, hmem⟩
          exact absurd hmem (by simp)

/-- `DoRead` and the callbacks in it touch neither list, so `DoWrite` finds what the call began
with and what `Write` has added. -/
theorem reading_step {fs : List Frame} (h : step (tcpEnv pendingConnect) l s = some (s', o))
    (hlen : s.buffer.streamFilters.length = 1) (hlen' : s'.buffer.streamFilters.length = 1)
    (hstack : s.stack = fs ++ [.doWrite, .doFinalize]) (hfs : Reading fs) (hne : fs ≠ []) :
    s'.crashed ≠ none ∨ (∃ fs', Reading fs' ∧ s'.stack = fs' ++ [.doWrite, .doFinalize]) ∧
      s'.tcp.pendingOut = s.tcp.pendingOut ∧ (∀ x ∈ o, x.isOut = false) ∧ ¬ TookWrites o := by
  have hback : s.buffer.backIndex = 0 := by simp [StreamBuffer.backIndex, hlen]
  obtain ⟨-, hmove⟩ := move_of_step h
  cases hmove with
  | enter hnil => rw [hnil] at hstack; exact absurd hstack (by simp)
  | aside ha =>
      refine .inr ⟨⟨fs, hfs, by rw [ha.stack]; exact hstack⟩, by rw [ha.tcp], ha.isOut, ?_⟩
      rintro ⟨ds, -, hmem⟩
      exact absurd (ha.obs _ hmem) (by simp [Obs.aside])
  | added hcb hadd =>
      obtain ⟨-, ⟨hnil, -⟩ | ⟨-, rfl⟩⟩ := StreamBuffer.addStreamBufferFilter_cases hadd
      · simp [hnil] at hlen
      · simp [hlen] at hlen'
  | @ret cb rest hcb =>
      rw [hcb] at hstack
      cases hfs with
      | done => exact absurd rfl hne
      | doRead => simp at hstack
      | read => simp at hstack
      | callback d =>
          obtain ⟨-, rfl⟩ : cb = .handleData d ∧ rest = [.read 0, .doWrite, .doFinalize] := by
            simpa using hstack
          refine .inr ⟨⟨_, .read, rfl⟩, rfl, by simp, ?_⟩
          rintro ⟨ds, -, hmem⟩
          exact absurd hmem (by simp)
  | @run f rest n hf hrun =>
      rw [hf] at hstack
      cases hfs with
      | done => exact absurd rfl hne
      | read =>
          obtain ⟨rfl, rfl⟩ := by simpa using hstack
          simp [StreamBuffer.runFrame] at hrun
      | callback d =>
          obtain ⟨rfl, rfl⟩ := by simpa using hstack
          simp [StreamBuffer.runFrame] at hrun
      | doRead =>
          obtain ⟨rfl, rfl⟩ := by simpa using hstack
          obtain rfl := Option.some.inj hrun
          refine .inr ?_
          by_cases hrc : s.buffer.back.readClosed = true
          · have hn : (s.buffer.doRead : Next SysRet StreamBuffer) = { buffer := s.buffer } := by
              simp [StreamBuffer.doRead, hrc]
            rw [hn]
            exact ⟨⟨[], .done, rfl⟩, rfl, by simp, by rintro ⟨ds, -, hmem⟩; simp at hmem⟩
          · have hn : (s.buffer.doRead : Next SysRet StreamBuffer) =
                { buffer := s.buffer, frames := [.read 0] } := by
              simp [StreamBuffer.doRead, hrc, hback]
            rw [hn]
            exact ⟨⟨[.read 0], .read, rfl⟩, rfl, by simp, by rintro ⟨ds, -, hmem⟩; simp at hmem⟩
  | @answer f rest r n k hf hans =>
      rw [hf] at hstack
      cases hfs with
      | done => exact absurd rfl hne
      | doRead =>
          obtain ⟨rfl, rfl⟩ := by simpa using hstack
          simp [StreamBuffer.answerFrame] at hans
      | callback d =>
          obtain ⟨rfl, rfl⟩ := by simpa using hstack
          simp [StreamBuffer.answerFrame] at hans
      | read =>
          obtain ⟨rfl, rfl⟩ := by simpa using hstack
          have hkept := StreamBuffer.answerFrame_dataKept hans rfl
          have htcp : ({ s.resume [.doWrite, .doFinalize] n with env := k } :
              BufferState Socket).tcp.pendingOut = s.tcp.pendingOut := by
            simpa [tcp] using hkept.pendingOut 0
          have hout : ∀ x ∈ n.obs, x.isOut = false :=
            fun x hx => Obs.isOut_of_not_isData (hkept.obs x hx)
          rcases StreamBuffer.answerFrame_cases hans rfl with ⟨e, x, rfl, -⟩ |
            ⟨i, res, hi, -, rfl⟩ | ⟨i, res, hi, -⟩ | ⟨res, hi, -⟩
          · exact .inl (by simp [resume])
          · obtain rfl : 0 = i := by simpa using hi
            refine .inr ⟨?_, htcp, hout, ?_⟩
            · simp only [StreamBuffer.afterIn, Next.after]
              split_ifs
              · exact ⟨[], .done, rfl⟩
              · split
                · exact ⟨_, .callback _, rfl⟩
                · exact ⟨[], .done, rfl⟩
            · rintro ⟨ds, -, hmem⟩
              simp only [StreamBuffer.afterIn, Next.after] at hmem
              split_ifs at hmem
              · simp at hmem
              · split at hmem <;> simp at hmem
          · exact absurd hi (by simp)
          · exact absurd hi (by simp)

/-- `DoWrite` decides: it leaves `pending_out_` alone exactly when it finds nothing. -/
theorem swap_step (h : step (tcpEnv pendingConnect) l s = some (s', o))
    (hlen : s.buffer.streamFilters.length = 1) (hopen : s.tcp.writeClosed = false)
    (hstack : s.stack = [.doWrite, .doFinalize]) :
    Aside s s' o ∨ (TookWrites o ∧ s'.stack = [.write 0, .doFinalize]) ∨
      (¬ TookWrites o ∧ s'.stack = [.doFinalize] ∧ s'.tcp.pendingOut = s.tcp.pendingOut ∧
        ∀ x ∈ o, x.isOut = false) := by
  have hback : s.buffer.backIndex = 0 := by simp [StreamBuffer.backIndex, hlen]
  obtain ⟨-, hmove⟩ := move_of_step h
  cases hmove with
  | enter hnil => rw [hnil] at hstack; exact absurd hstack (by simp)
  | aside ha => exact .inl ha
  | ret hcb => rw [hcb] at hstack; simp at hstack
  | added hcb =>
      obtain ⟨c, hc⟩ := callback_of_added hcb hstack
      exact absurd hc (by simp)
  | answer hf hans =>
      rw [hf] at hstack
      obtain ⟨rfl, rfl⟩ := by simpa using hstack
      simp [StreamBuffer.answerFrame] at hans
  | @run f rest n hf hrun =>
      rw [hf] at hstack
      obtain ⟨rfl, rfl⟩ := by simpa using hstack
      rcases StreamBuffer.doWrite_cases s.buffer n (Option.some.inj hrun).symm with
        ⟨hwc, -⟩ | ⟨-, hobs, hthrew, hframes, hb⟩
      · rw [back_eq_tcp hlen, hopen] at hwc
        exact absurd hwc (by simp)
      · by_cases hemp : s.buffer.pendingWrites = []
        · refine .inr (.inr ⟨?_, by simp [resume_of_threw_none hthrew, hframes, hemp], ?_, ?_⟩)
          · rintro ⟨ds, hne, hmem⟩
            rw [hobs, hemp] at hmem
            simp_all
          · simp only [tcp, resume_buffer, hb]
            refine StreamBuffer.pendingOut_setFilter s.buffer _ 0 ?_
            simp [hemp, StreamBuffer.back]
          · simp [hobs, Obs.isOut]
        · refine .inr (.inl ⟨⟨_, hemp, by rw [hobs]; exact List.mem_singleton_self _⟩, ?_⟩)
          simp [resume_of_threw_none hthrew, hframes, hemp, hback]

theorem not_tookWrites_append (h : ¬ TookWrites c) (ho : ¬ TookWrites o) :
    ¬ TookWrites (c ++ o) := by
  rintro ⟨ds, hne, hmem⟩
  rcases List.mem_append.mp hmem with hmem | hmem
  · exact h ⟨ds, hne, hmem⟩
  · exact ho ⟨ds, hne, hmem⟩

/-- **One step of the call.** Until `DoWrite` the list `pending_out_` is what it was; whether the
`Out` loop is entered is decided there, by `pending_writes_` alone. -/
theorem callInv_step (hok : TcpOnly l s) (h : step (tcpEnv pendingConnect) l s = some (s', o))
    (hi : StreamInv tr s) (hbusy : s.stack ≠ []) (hc : CallInv p c s) : CallInv p (c ++ o) s' := by
  have hlen' := length_step hok h hi.length
  have hout_append : ∀ {c o : List (Obs SysRet)}, (∀ x ∈ c, x.isOut = false) →
      (∀ x ∈ o, x.isOut = false) → ∀ x ∈ c ++ o, x.isOut = false := fun hc ho x hx =>
    (List.mem_append.mp hx).elim (hc x) (ho x)
  cases hc with
  | escaped he => exact .escaped (he.step h)
  | untouched hp hout htook hwhere =>
      rcases hwhere with ⟨fs, hfs, hstack⟩ | hret
      · by_cases hne : fs = []
        · subst hne
          by_cases hwc : s.tcp.writeClosed = true
          · exact .escaped (Escaped.step (.inr (.inr hwc)) h)
          · rcases swap_step h hi.length (by simpa using hwc) hstack with
              ha | ⟨htook', hstack'⟩ | ⟨htook', hstack', hp', hout'⟩
            · refine .untouched (by rw [ha.tcp]; exact hp) (hout_append hout ha.isOut)
                (not_tookWrites_append htook ?_) (.inl ⟨[], .done, by rw [ha.stack]; exact hstack⟩)
              rintro ⟨ds, -, hmem⟩
              exact absurd (ha.obs _ hmem) (by simp [Obs.aside])
            · obtain ⟨ds, hne, hmem⟩ := htook'
              exact .writing ⟨ds, hne, List.mem_append_right _ hmem⟩ hstack'
            · refine .untouched (by rw [hp']; exact hp) (hout_append hout hout')
                (not_tookWrites_append htook htook') (.inr ?_)
              rw [hstack']
              exact .doFinalize
        · rcases reading_step h hi.length hlen' hstack hfs hne with
            hcr | ⟨hfs', hp', hout', htook'⟩
          · exact .escaped (.inl hcr)
          · exact .untouched (by rw [hp']; exact hp) (hout_append hout hout')
              (not_tookWrites_append htook htook') (.inl hfs')
      · rcases returning_step h hi.length hret hbusy with he | ⟨hret', htcp, hout', htook'⟩
        · exact .escaped he
        · exact .untouched (by rw [htcp]; exact hp) (hout_append hout hout')
            (not_tookWrites_append htook htook') (.inr hret')
  | writing htook hstack =>
      rcases outLoop_step (c := c) h hi hstack (.inl rfl) with ha | hcr | hstack' | ⟨hstack', hres⟩
      · exact .writing htook.append (by rw [ha.stack]; exact hstack)
      · exact .escaped (.inl hcr)
      · exact .writing htook.append hstack'
      · have hret : Returning s'.stack := by
          rw [hstack']
          exact .doFinalize
        rcases hres with hnil | hwc | hb
        · exact .written htook.append (.inl hnil) hret
        · exact .escaped (.inr (.inr hwc))
        · exact .written htook.append (.inr hb) hret
  | written htook hres hret =>
      rcases returning_step h hi.length hret hbusy with he | ⟨hret', htcp, hout', -⟩
      · exact .escaped he
      · refine .written htook.append ?_ hret'
        rcases hres with hnil | hb
        · exact .inl (by rw [htcp]; exact hnil)
        · exact .inr (hb.append hout' (by rw [htcp]))

/-- Where a call of `HandleEvents` on a connected buffer is at any moment. -/
theorem callInv_of_call (hrun : TcpRun pendingConnect (init mode addr k) tr s₁)
    (hcall : TcpCall pendingConnect alive s₁ c s) (hconn : s₁.buffer.isConnected = true) :
    CallInv s₁.tcp.pendingOut c s := by
  refine hcall.invariant ?_ ?_
  · intro s o hok hs
    obtain ⟨-, hstep⟩ := step_inv hs
    cases hstep with
    | handleEvents hstack hidle hn =>
        subst hn
        by_cases hclose : s₁.buffer.shouldClose = true
        · exact .escaped (Escaped.step (.inr (.inl hclose)) hs)
        · have hframes : (s₁.buffer.handleEvents alive : Next SysRet StreamBuffer) =
              { buffer := s₁.buffer,
                frames := if alive then [.doRead, .doWrite, .doFinalize] else [.closeEvent],
                obs := [.handleEvents alive] } := by
            cases alive <;> simp [StreamBuffer.handleEvents, hclose, hconn]
          rw [hframes]
          refine .untouched rfl (by simp [Obs.isOut]) ?_ ?_
          · rintro ⟨ds, -, hmem⟩
            exact absurd hmem (by simp)
          · cases alive with
            | true => exact .inl ⟨[.doRead], .doRead, rfl⟩
            | false => exact .inr .closeEvent
  · intro c s l s' o hseg hc hbusy hok hs
    have hi := streamInv_of_run (hrun.trans hseg.toRun)
    exact callInv_step hok hs hi hbusy hc

/-- **Output is stranded exactly when `DoWrite` finds nothing to take**: a call on a
connected buffer that stays open returns with `pending_out_` empty or attempted if and only
if `pending_out_` was empty when it began or `DoWrite` took a view out of
`pending_writes_`. -/
theorem not_stranded_iff (hrun : TcpRun pendingConnect (init mode addr k) tr s₁)
    (hcall : TcpCall pendingConnect alive s₁ c s) (hreturned : s.stack = [] ∧ s.crashed = none)
    (hconn : s₁.buffer.isConnected = true) (hopen : s.buffer.isWriteClosed = false)
    (hclose : s.buffer.shouldClose = false) :
    (s.tcp.pendingOut ≠ [] → Attempted c s) ↔ (s₁.tcp.pendingOut = [] ∨ TookWrites c) := by
  have hi := streamInv_of_run (hrun.trans hcall.toRun)
  rw [isWriteClosed_eq hi.length] at hopen
  cases callInv_of_call hrun hcall hconn with
  | escaped he =>
      rcases he with hcr | hcl | hwc
      · exact absurd hreturned.2 hcr
      · exact absurd hclose (by simp [hcl])
      · exact absurd hopen (by simp [hwc])
  | writing _ hstack => exact absurd hreturned.1 (by simp [hstack])
  | written htook hres _ =>
      refine ⟨fun _ => .inr htook, fun _ hne => ?_⟩
      rcases hres with hnil | ⟨o₁, d, ret, d', o₂, rfl, -, hret, hhead⟩
      · exact absurd hnil hne
      · exact ⟨d, ret, d', by simp, hret, hhead⟩
  | untouched hp hout htook _ =>
      rw [← hp]
      constructor
      · intro hprop
        by_contra hcond
        obtain ⟨d, ret, d', hmem, -⟩ := hprop fun hnil => hcond (.inl hnil)
        exact absurd (hout _ hmem) (by simp [Obs.isOut])
      · rintro (hnil | ht) hne
        · exact absurd hnil hne
        · exact absurd ht htook

theorem not_attempted (h : c.any Obs.isOut = false) : ¬ Attempted c s := by
  rintro ⟨d, ret, d', hmem, -⟩
  exact List.any_eq_false.mp h _ hmem rfl

/-- A notification on a writable socket with nothing to read and nothing new to write. -/
def writable : List (BufferLabel SysRet) :=
  [.run, .answer (.recv (.error .EAGAIN)), .run, .run, .run]

theorem not_stranded_iff_partialWrite :
    ∃ c s, TcpCall true true (after partialWrite).1 c s ∧
      ((s.tcp.pendingOut ≠ [] → Attempted c s) ↔
        ((after partialWrite).1.tcp.pendingOut = [] ∨ TookWrites c)) := by
  refine ⟨_, _, TcpCall.of_exec writable rfl rfl,
    not_stranded_iff run_partialWrite (TcpCall.of_exec writable rfl rfl) ⟨rfl, rfl⟩ rfl rfl rfl⟩

/-- Two bytes are left over by a partial write. The next writable notification finds
`pending_writes_` empty, and the call returns without having called `send`. -/
theorem stranded_after_partialWrite :
    ∃ c s, TcpRun true fresh (after partialWrite).2 (after partialWrite).1 ∧
      TcpCall true true (after partialWrite).1 c s ∧ s.stack = [] ∧ s.crashed = none ∧
      (after partialWrite).1.buffer.isConnected = true ∧ s.buffer.isWriteClosed = false ∧
      s.buffer.shouldClose = false ∧ viewBytes s.tcp.pendingOut = [2, 3] ∧ ¬ Attempted c s := by
  refine ⟨_, _, run_partialWrite, TcpCall.of_exec writable rfl rfl,
    rfl, rfl, rfl, rfl, rfl, rfl, ?_⟩
  exact not_attempted rfl

end BufferState

end Libael
