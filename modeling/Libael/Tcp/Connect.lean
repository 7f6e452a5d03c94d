import Libael.Handle
import Libael.StreamBuffer.Moves

/-!
# Libael.Tcp.Connect

**When is a client connected?** `DoConnect` asks `getsockopt(SO_ERROR)` and takes 0 for
success, but 0 is also what it says while the handshake is still going on, and when
`connect(2)` has reported the error itself. So a `HandleEvents` call that comes too early
(for one, because the user has called `Write`) connects a buffer whose socket is not
established, and a `Close` that comes too early sends on it.

The filters stacked on the TCP filter are code of the user and are left open: any of
their methods may use the connection.
-/

namespace Libael

open Lts

section Chain

variable {κ ρ α : Type}

/-- The answer of the `i`-th filter of a chain: of the bottom one, or of one above it. -/
def chained (i : Nat) (r : SysRet ⊕ ρ) (k : Socket × κ) (bottom : SysRet → Option (α × Socket))
    (above : ρ → Option (α × κ)) : Option (α × Socket × κ) :=
  match i, r with
  | 0, .inl r => (bottom r).map fun (a, k₁) => (a, k₁, k.2)
  | _ + 1, .inr r => (above r).map fun (a, u) => (a, k.1, u)
  | _, _ => none

/-- The TCP filter with its socket at the bottom of the chain, and filters of the user,
answered by `upper`, above it. -/
def chainEnv (pendingConnect : Bool) (upper : FilterEnv κ ρ) :
    FilterEnv (Socket × κ) (SysRet ⊕ ρ) where
  «in» i r k :=
    chained i r k (fun r => (tcpEnv pendingConnect).in i r k.1) (fun r => upper.in i r k.2)
  out i r k d :=
    chained i r k (fun r => (tcpEnv pendingConnect).out i r k.1 d) (fun r => upper.out i r k.2 d)
  connect i r k :=
    chained i r k (fun r => (tcpEnv pendingConnect).connect i r k.1)
      (fun r => upper.connect i r k.2)
  accept i r k :=
    chained i r k (fun r => (tcpEnv pendingConnect).accept i r k.1) (fun r => upper.accept i r k.2)
  shutdown i r k :=
    chained i r k (fun r => (tcpEnv pendingConnect).shutdown i r k.1)
      (fun r => upper.shutdown i r k.2)
  tick r k :=
    match r with
    | .inl r => ((tcpEnv pendingConnect).tick r k.1).map fun k₁ => (k₁, k.2)
    | .inr r => (upper.tick r k.2).map fun u => (k.1, u)

/-- What the bottom filter keeps of its socket, the chain keeps. -/
theorem chained_keeps {i : Nat} {r : SysRet ⊕ ρ} {k k' : Socket × κ}
    {bottom : SysRet → Option (α × Socket)} {above : ρ → Option (α × κ)} {a : α} {p : Socket → Prop}
    (hbottom : ∀ {r a k₁}, bottom r = some (a, k₁) → p k.1 → p k₁)
    (h : chained i r k bottom above = some (a, k')) (hk : p k.1) : p k'.1 := by
  unfold chained at h
  split at h
  · obtain ⟨⟨a₁, k₁⟩, h₁, heq⟩ := Option.map_eq_some_iff.mp h
    obtain ⟨rfl, rfl⟩ := Prod.mk.inj heq
    exact hbottom h₁ hk
  · obtain ⟨⟨a₁, u⟩, h₁, heq⟩ := Option.map_eq_some_iff.mp h
    obtain ⟨rfl, rfl⟩ := Prod.mk.inj heq
    exact hk
  · exact absurd h (by simp)

/-- What the kernel and the TCP filter keep, the chain keeps. -/
theorem keeps_chainEnv {pendingConnect : Bool} {upper : FilterEnv κ ρ} {p : Socket → Prop}
    (hp : BufferState.Keeps (tcpEnv pendingConnect) p) :
    BufferState.Keeps (chainEnv pendingConnect upper) fun k => p k.1 where
  «in» h hk := chained_keeps (fun h₁ => hp.in h₁) h hk
  out h hk := chained_keeps (fun h₁ => hp.out h₁) h hk
  connect h hk := chained_keeps (fun h₁ => hp.connect h₁) h hk
  accept h hk := chained_keeps (fun h₁ => hp.accept h₁) h hk
  shutdown h hk := chained_keeps (fun h₁ => hp.shutdown h₁) h hk
  tick := by
    intro r k k' h hk
    cases r with
    | inl r =>
        obtain ⟨k₁, h₁, rfl⟩ := Option.map_eq_some_iff.mp h
        exact hp.tick h₁ hk
    | inr r =>
        obtain ⟨u, -, rfl⟩ := Option.map_eq_some_iff.mp h
        exact hk

/-- A socket that was established stays one that was. -/
theorem keeps_established (pendingConnect : Bool) :
    BufferState.Keeps (tcpEnv pendingConnect) fun k => k.established = true where
  «in» := by
    intro i r k res k' h hk
    cases r <;> simp [tcpEnv] at h
    rw [← h.2]
    exact hk
  out := by
    intro i r k d res k' h hk
    cases r <;> simp [tcpEnv] at h
    rw [← h.2.2]
    exact hk
  connect := by
    intro i r k res k' h hk
    cases pendingConnect <;> cases r <;> simp [tcpEnv] at h
    · rename_i ret
      cases ret with
      | error e =>
          simp at h
          rw [← h.2]
          exact hk
      | ok e =>
          simp at h
          rw [← h.2.2]
          exact hk
    · rw [← h.2]
      exact hk
  accept := by
    intro i r k res k' h hk
    cases r <;> simp [tcpEnv] at h
    rw [← h.2]
    exact hk
  shutdown := by
    intro i r k res k' h hk
    cases r <;> simp [tcpEnv] at h
    rw [← h.2]
    exact hk
  tick := by
    intro r k k' h hk
    cases r <;> simp [tcpEnv] at h
    · rw [← h.2]
    · rw [← h.2]
      exact hk

end Chain

/-- The observations that need an established connection: `HandleConnected`, and every
call that can reach `recv` or `send`, of the TCP filter itself or of a filter above it. -/
def Obs.usesConnection {ρ : Type} : Obs ρ → Bool
  | .callback .handleConnected | .in _ _ _ | .out _ _ _ _ => true
  | .connect i _ | .shutdown i _ => i != 0
  | _ => false

theorem Obs.unused_of_aside {ρ : Type} {x : Obs ρ} (h : x.aside = true) :
    x.usesConnection = false := by
  cases x <;> simp_all [Obs.aside, Obs.usesConnection]

/-- The frames a call can consist of before the connection is used. -/
def Frame.early : Frame → Bool
  | .doWrite | .doClose | .doConnect | .doFinalize | .finalizeEOF | .closeEvent
  | .callback .handleEOF => true
  | .closeFrom k => k ≤ 1
  | .closeCheck i | .close i | .flushed i | .shutdown i => i = 0
  | _ => false

namespace BufferState

variable {κ ρ : Type} {upper : FilterEnv κ ρ} {pendingConnect : Bool}
  {l : BufferLabel (SysRet ⊕ ρ)} {s s' : BufferState (Socket × κ)}
  {tr o : List (Obs (SysRet ⊕ ρ))} {addr : Nat} {u : κ}

/-- A step that does not come too early: `getsockopt` does not answer 0 to `DoConnect`,
and `DoWrite` does not find anything to send, on a socket that was never established. -/
def NotTooEarly (l : BufferLabel (SysRet ⊕ ρ)) (s : BufferState (Socket × κ)) : Prop :=
  s.env.1.established = true ∨
    (s.stack.head? = some .doConnect → l ≠ .answer (.inl (.getsockopt (.ok none)))) ∧
    (s.stack.head? = some .doWrite → l = .run →
      s.buffer.pendingWrites = [] ∨ s.buffer.back.writeClosed = true)

/-! ### Before the connection is established -/

/-- A buffer whose connection has not been used. -/
structure EarlyBuffer (b : StreamBuffer) : Prop where
  length : b.streamFilters.length = 1
  connected : (b.filter 0).connected = false
  pendingOut : (b.filter 0).pendingOut = []
  addFilterAllowed : b.addFilterAllowed = false
  mode : b.mode = .client

/-- The state of a run on a socket that was never established. -/
structure EarlyInv (pendingConnect : Bool) (tr : List (Obs (SysRet ⊕ ρ)))
    (s : BufferState (Socket × κ)) : Prop where
  pending : pendingConnect = false
  buffer : EarlyBuffer s.buffer
  frames : ∀ fr ∈ s.stack, fr.early = true
  unused : ∀ x ∈ tr, x.usesConnection = false

/-- Closing the one filter does not use the connection. -/
theorem EarlyBuffer.setFilter {b : StreamBuffer} {f : Filter} (hb : EarlyBuffer b)
    (hc : f.connected = false) (hp : f.pendingOut = []) : EarlyBuffer (b.setFilter 0 f) := by
  have hlt : 0 < b.streamFilters.length := by
    rw [hb.length]
    exact Nat.zero_lt_one
  have hf : (b.setFilter 0 f).filter 0 = f := by
    rw [StreamBuffer.filter_setFilter, if_pos ⟨rfl, hlt⟩]
  exact ⟨by simpa using hb.length, by rw [hf]; exact hc, by rw [hf]; exact hp,
    hb.addFilterAllowed, hb.mode⟩

theorem EarlyBuffer.backIndex {b : StreamBuffer} (hb : EarlyBuffer b) : b.backIndex = 0 := by
  simp [StreamBuffer.backIndex, hb.length]

/-- A frame of an early call that asks no filter. It goes on in the call, and finds nothing to
read, write or flush. -/
theorem early_run {b : StreamBuffer} {fr : Frame} {n : Next (SysRet ⊕ ρ) StreamBuffer}
    (hb : EarlyBuffer b) (hfr : fr.early = true)
    (hnothing : fr = .doWrite → b.pendingWrites = [] ∨ b.back.writeClosed = true)
    (h : b.runFrame fr = some n) :
    EarlyBuffer n.buffer ∧ (∀ f ∈ n.frames, f.early = true) ∧
      ∀ x ∈ n.obs, x.usesConnection = false := by
  have hdone : StreamBuffer.flushDone (b.filter 0) = true := by
    simp [StreamBuffer.flushDone, hb.pendingOut]
  cases StreamBuffer.frameRun h with
  | writeClosed _ | closedAll | waits _ | noEof _ => exact ⟨hb, by simp, by simp⟩
  | writesNothing _ _ | closeEvent => exact ⟨hb, by simp, by simp [Obs.usesConnection]⟩
  | writes hopen hne =>
      rcases hnothing rfl with hnil | hclosed
      · exact absurd hnil hne
      · exact absurd (hopen.symm.trans hclosed) (by simp)
  | flushesAll _ | closesAll _ => exact ⟨hb, by simp [Frame.early, hb.length], by simp⟩
  | @skips k _ | @closes k _ =>
      obtain rfl : k = 0 := by simpa [Frame.early] using hfr
      exact ⟨hb, by simp [Frame.early], by simp⟩
  | @goesOn i _ | @shutsDown i _ | @flushed i _ =>
      obtain rfl : i = 0 := by simpa [Frame.early] using hfr
      exact ⟨hb, by simp [Frame.early], by simp⟩
  | @flushes i hundone | @notFlushed i hundone =>
      obtain rfl : i = 0 := by simpa [Frame.early] using hfr
      exact absurd (hdone.symm.trans hundone) (by simp)
  | finalizes _ => exact ⟨hb, by simp [Frame.early], by simp⟩
  | endOfFile _ _ | eof _ _ _ =>
      exact ⟨⟨hb.length, hb.connected, hb.pendingOut, hb.addFilterAllowed, hb.mode⟩,
        by simp [Frame.early], by simp [Obs.usesConnection]⟩
  | readClosed _ | reads _ | written _ | flushEnds _ | connected | modifyEvent =>
      simp [Frame.early] at hfr

/-- The answer to a frame of an early call, unless it connects: the filter is closed, or has to
wait. -/
theorem early_answer {b : StreamBuffer} {fr : Frame} {n : Next (SysRet ⊕ ρ) StreamBuffer}
    {r : SysRet ⊕ ρ} {k k' : Socket × κ} (hb : EarlyBuffer b) (hfr : fr.early = true)
    (hpending : pendingConnect = false)
    (hzero : fr = .doConnect → r ≠ .inl (.getsockopt (.ok none)))
    (h : b.answerFrame (chainEnv pendingConnect upper) r k fr = some (n, k')) :
    EarlyBuffer n.buffer ∧ (∀ f ∈ n.frames, f.early = true) ∧
      ∀ x ∈ n.obs, x.usesConnection = false := by
  have hsends : fr.sends = false := by
    cases fr <;> simp_all [Frame.early, Frame.sends]
  rcases StreamBuffer.answerFrame_cases h hsends with ⟨e, x, rfl, hx⟩ | ⟨i, res, rfl, -⟩ |
    ⟨i, res, rfl, -, rfl⟩ | ⟨res, rfl, hcon, rfl⟩
  · refine ⟨hb, by simp, ?_⟩
    rcases hx with ⟨i, rfl, -⟩ | ⟨i, rfl, rfl, -⟩ | ⟨rfl, rfl⟩
    · simp [Frame.early] at hfr
    · obtain rfl : i = 0 := by simpa [Frame.early] using hfr
      simp [Obs.usesConnection]
    · simp [Obs.usesConnection, hb.backIndex]
  · simp [Frame.early] at hfr
  · obtain rfl : i = 0 := by simpa [Frame.early] using hfr
    simp only [Next.after, StreamBuffer.afterShutdown]
    split_ifs
    · exact ⟨hb.setFilter hb.connected hb.pendingOut, by simp, by simp [Obs.usesConnection]⟩
    · exact ⟨hb, by simp, by simp [Obs.usesConnection]⟩
  · rw [hb.mode, hb.backIndex] at hcon
    subst hpending
    cases res with
    | failed =>
        simp only [Next.after, StreamBuffer.afterConnect, hb.backIndex]
        exact ⟨hb.setFilter hb.connected hb.pendingOut, by simp, by simp [Obs.usesConnection]⟩
    | pending =>
        simp only [Next.after, StreamBuffer.afterConnect, hb.backIndex]
        exact ⟨hb, by simp, by simp [Obs.usesConnection]⟩
    | success =>
        exfalso
        cases r with
        | inr r => simp [chainEnv, chained] at hcon
        | inl r =>
            cases r with
            | getsockopt ret =>
                cases ret with
                | error e => simp [chainEnv, chained, tcpEnv, TCPStreamBufferFilter.connect] at hcon
                | ok e =>
                    cases e with
                    | none => exact hzero rfl rfl
                    | some e =>
                        simp only [chainEnv, chained, tcpEnv, TCPStreamBufferFilter.connect] at hcon
                        split_ifs at hcon <;> simp at hcon
            | _ => simp [chainEnv, chained, tcpEnv] at hcon

/-- **One step on a socket that was never established.** If it does not come too early,
`DoConnect` gets an error or has to wait, and `DoWrite` finds nothing to send. -/
theorem earlyInv_step (hok : NotTooEarly l s)
    (h : step (chainEnv pendingConnect upper) l s = some (s', o))
    (hest : s.env.1.established = false) (hi : EarlyInv pendingConnect tr s) :
    EarlyInv pendingConnect (tr ++ o) s' := by
  obtain ⟨hzero, hnothing⟩ : _ ∧ _ := hok.resolve_left (by simp [hest])
  have hunused : (∀ x ∈ o, x.usesConnection = false) → ∀ x ∈ tr ++ o, x.usesConnection = false :=
    fun ho x hx => (List.mem_append.mp hx).elim (hi.unused x) (ho x)
  -- the frames of an outcome, on top of those below
  have hresume : ∀ {fr rest} {n : Next (SysRet ⊕ ρ) StreamBuffer}, s.stack = fr :: rest →
      (∀ f ∈ n.frames, f.early = true) → ∀ f ∈ (s.resume rest n).stack, f.early = true := by
    intro fr rest n hstack hframes f hmem
    cases hthrew : n.threw with
    | some e => simp [resume_of_threw hthrew] at hmem
    | none =>
        rw [resume_of_threw_none hthrew] at hmem
        rcases List.mem_append.mp hmem with hmem | hmem
        · exact hframes f hmem
        · exact hi.frames f (by rw [hstack]; exact List.mem_cons_of_mem _ hmem)
  obtain ⟨-, hmove⟩ := move_of_step h
  cases hmove with
  | aside ha =>
      refine ⟨hi.pending, ⟨?_, ?_, ?_, ?_, ?_⟩, by rw [ha.stack]; exact hi.frames,
        hunused fun x hx => Obs.unused_of_aside (ha.obs x hx)⟩
      · rw [ha.filters]
        exact hi.buffer.length
      · simp only [StreamBuffer.filter, ha.filters]
        exact hi.buffer.connected
      · simp only [StreamBuffer.filter, ha.filters]
        exact hi.buffer.pendingOut
      · rw [ha.addFilterAllowed]
        exact hi.buffer.addFilterAllowed
      · rw [ha.mode]
        exact hi.buffer.mode
  | ret hstack =>
      refine ⟨hi.pending, hi.buffer, fun f hmem => ?_, hunused (by simp)⟩
      exact hi.frames f (by rw [hstack]; exact List.mem_cons_of_mem _ hmem)
  | added hstack hadd =>
      have hallowed := (StreamBuffer.addStreamBufferFilter_cases hadd).1
      rw [hi.buffer.addFilterAllowed] at hallowed
      exact absurd hallowed (by simp)
  | enter hstack hn =>
      have hconn : s.buffer.isConnected = false := by
        rw [StreamBuffer.isConnected, StreamBuffer.back, hi.buffer.backIndex]
        exact hi.buffer.connected
      obtain ⟨hb, hobs, hthrew, hframes⟩ := StreamBuffer.handleEvents_cases hn
      rw [resume_of_threw_none hthrew]
      refine ⟨hi.pending,
        by rw [hb]; exact hi.buffer, ?_, hunused (by simp [hobs, Obs.usesConnection])⟩
      rcases hframes with ⟨-, hf⟩ | ⟨-, -, hf⟩ | ⟨-, -, -, hf⟩ | ⟨-, -, hc, -⟩
      · simp [hf, Frame.early]
      · simp [hf, Frame.early]
      · simp [hf, Frame.early]
      · exact absurd hc (by simp [hconn])
  | @run fr rest n hstack hrun =>
      have hfr := hi.frames fr (by rw [hstack]; exact List.mem_cons_self)
      obtain ⟨hb, hframes, hobs⟩ := early_run hi.buffer hfr (fun hw => by
        subst hw
        exact hnothing (by rw [hstack]; rfl) rfl) hrun
      exact ⟨hi.pending, by rw [resume_buffer]; exact hb, hresume hstack hframes, hunused hobs⟩
  | @answer fr rest r n k hstack hans =>
      have hfr := hi.frames fr (by rw [hstack]; exact List.mem_cons_self)
      obtain ⟨hb, hframes, hobs⟩ := early_answer hi.buffer hfr hi.pending (fun hc hr => by
        subst hc hr
        exact hzero (by rw [hstack]; rfl) rfl) hans
      refine ⟨hi.pending, ?_, hresume (n := n) hstack hframes, hunused hobs⟩
      change EarlyBuffer (s.resume rest n).buffer
      rw [resume_buffer]
      exact hb

/-- A step that comes too early connects the buffer, or makes `DoWrite` hand a view to
`Out`, on a socket that is not established. -/
theorem too_early_step (h : step (chainEnv pendingConnect upper) l s = some (s', o))
    (hi : EarlyInv pendingConnect tr s) (hearly : ¬ NotTooEarly l s) :
    s'.env.1.established = false ∧ (.callback .handleConnected ∈ o ∨
      s'.stack.head? = some (.write 0) ∧ (s'.buffer.filter 0).pendingOut ≠ []) := by
  have hpending := hi.pending
  subst hpending
  obtain ⟨hest, hcases⟩ := not_or.mp hearly
  rcases not_and_or.mp hcases with hzero | hwrite
  · obtain ⟨htop, hl⟩ := Classical.not_imp.mp hzero
    obtain rfl := Classical.not_not.mp hl
    obtain ⟨-, hstep⟩ := step_inv h
    cases hstep with
    | @answer fr rest r n k hstack hans =>
        obtain rfl : fr = .doConnect := by simpa [hstack] using htop
        simp only [StreamBuffer.answerFrame, hi.buffer.mode, hi.buffer.backIndex, chainEnv, chained,
          tcpEnv] at hans
        split_ifs at hans
        · simp only [TCPStreamBufferFilter.connect, Option.map_some] at hans
          obtain ⟨rfl, rfl⟩ := Prod.mk.inj (Option.some.inj hans)
          exact ⟨by simpa using hest, .inl (by simp [Next.after, StreamBuffer.afterConnect])⟩
        · simp at hans
  · obtain ⟨htop, hrest⟩ := Classical.not_imp.mp hwrite
    obtain ⟨rfl, hsome⟩ := Classical.not_imp.mp hrest
    obtain ⟨hemp, hopen⟩ := not_or.mp hsome
    obtain ⟨-, hstep⟩ := step_inv h
    cases hstep with
    | @run fr rest n hstack hrun =>
        obtain rfl : fr = .doWrite := by simpa [hstack] using htop
        rcases StreamBuffer.doWrite_cases s.buffer n (Option.some.inj hrun).symm with
          ⟨hwc, -⟩ | ⟨-, -, hthrew, hframes, hb⟩
        · exact absurd hwc hopen
        · have hlt : 0 < s.buffer.streamFilters.length := by
            rw [hi.buffer.length]
            exact Nat.zero_lt_one
          refine ⟨by simpa using hest, .inr ⟨?_, ?_⟩⟩
          · simp [resume_of_threw_none hthrew, hframes, hemp, hi.buffer.backIndex]
          · rw [resume_buffer, hb, hi.buffer.backIndex]
            change ((s.buffer.setFilter 0 _).filter 0).pendingOut ≠ []
            rw [StreamBuffer.filter_setFilter, if_pos ⟨rfl, hlt⟩]
            simp [hemp]

/-- As long as the socket is not established, the connection has not been used. -/
theorem early_of_run {calls : Handle.Calls} {isConnected : Bool}
    (hcreate : Handle.createStreamHandle calls = .ok isConnected)
    (hrun : GuardedRun (bufferSystem (chainEnv isConnected upper)) NotTooEarly
      (init .client addr (Handle.socketAfter calls.connect, u)) tr s) :
    s.env.1.established = true ∨ EarlyInv isConnected tr s := by
  refine hrun.invariant (I := fun tr s => s.env.1.established = true ∨
    EarlyInv isConnected tr s) ?_ ?_
  · cases isConnected with
    | true => exact .inl (Handle.createStreamHandle_connected hcreate)
    | false =>
        refine .inr ⟨rfl, ⟨?_, ?_, ?_, ?_, ?_⟩, by simp [init], by simp⟩ <;>
          simp [init, StreamBuffer.create_eq, StreamBuffer.filter, Filter.new]
  · intro tr s l s' o _ hi hok hs
    have hkeep : s.env.1.established = true → s'.env.1.established = true :=
      (keeps_chainEnv (keeps_established isConnected)).step hs
    by_cases hest : s.env.1.established = true
    · exact .inl (hkeep hest)
    · rcases hi with hest' | hearly
      · exact absurd hest' hest
      · exact .inr (earlyInv_step hok hs (by simpa using hest) hearly)

/-- **Connected means established, unless a step comes too early**: in a run none of whose
steps does, `connected_` is set, `HandleConnected` called and the connection used only once
the socket has been established; and the first step that does calls `HandleConnected`, or
enters the `Out` loop with a view to send, on a socket that never was. -/
theorem connected_means_established {calls : Handle.Calls} {isConnected : Bool}
    (hcreate : Handle.createStreamHandle calls = .ok isConnected)
    (hrun : GuardedRun (bufferSystem (chainEnv isConnected upper)) NotTooEarly
      (init .client addr (Handle.socketAfter calls.connect, u)) tr s) :
    ((s.buffer.filter 0).connected = true → s.env.1.established = true) ∧
    (∀ x ∈ tr, x.usesConnection = true → s.env.1.established = true) ∧
    ∀ l s' o, step (chainEnv isConnected upper) l s = some (s', o) → ¬ NotTooEarly l s →
      s'.env.1.established = false ∧ (.callback .handleConnected ∈ o ∨
        s'.stack.head? = some (.write 0) ∧ (s'.buffer.filter 0).pendingOut ≠ []) := by
  have hinv := early_of_run hcreate hrun
  refine ⟨fun hconn => ?_, fun x hx huse => ?_, fun l s' o hs hearly => ?_⟩
  · rcases hinv with hest | hi
    · exact hest
    · exact absurd hconn (by simp [hi.buffer.connected])
  · rcases hinv with hest | hi
    · exact hest
    · exact absurd huse (by simp [hi.unused x hx])
  · rcases hinv with hest | hi
    · exact absurd (.inl hest) hearly
    · exact too_early_step hs hi hearly

/-- A connection attempt to an IPv4 address that ends as `ret`. -/
def connectTo (ret : Except Errno Unit) : Handle.Calls :=
  ⟨fun d => d == .AF_INET, .ok (), ret⟩

/-- A chain without further filters. -/
def noUpper : FilterEnv Unit Unit :=
  ⟨fun _ _ _ => none, fun _ _ _ _ => none, fun _ _ _ => none, fun _ _ _ => none,
    fun _ _ _ => none, fun _ _ => none⟩

/-- A client whose `connect(2)` is in progress. -/
def inProgress : BufferState (Socket × Unit) :=
  init .client 0 (Handle.socketAfter (.error .EINPROGRESS), ())

/-- The handshake is over when the first notification arrives. -/
def notifiedInTime : List (BufferLabel (SysRet ⊕ Unit)) :=
  [.tick (.inl .handshake), .handleEvents true, .answer (.inl (.getsockopt (.ok none)))]

/-- The notification comes in time: the filter is connected, and so is the socket. -/
theorem connected_means_established_in_time :
    ∃ tr s, GuardedRun (bufferSystem (chainEnv false noUpper)) NotTooEarly inProgress tr s ∧
      (s.buffer.filter 0).connected = true ∧ s.env.1.established = true := by
  have hcheck : ∀ (l : BufferLabel (SysRet ⊕ Unit)) (s : BufferState (Socket × Unit)),
      (s.env.1.established || s.stack.isEmpty) = true → NotTooEarly l s := by
    intro l s hs
    rcases Bool.or_eq_true_iff.mp hs with hest | hemp
    · exact .inl hest
    · have hnil : s.stack = [] := by simpa using hemp
      exact .inr (by simp [hnil])
  have hcreate : Handle.createStreamHandle (connectTo (.error .EINPROGRESS)) = .ok false := rfl
  have hexec : exec (bufferSystem (chainEnv false noUpper))
      (fun _ s => s.env.1.established || s.stack.isEmpty) notifiedInTime inProgress =
        some (_, _) := rfl
  exact ⟨_, _, .of_exec hcheck hexec, rfl,
    (connected_means_established hcreate (.of_exec hcheck hexec)).1 rfl⟩

/-- The user writes while the handshake is going on. -/
def notifiedTooEarly : List (BufferLabel (SysRet ⊕ Unit)) :=
  [.write (.user 0) (.ofString [1]), .push (.user 0), .notify (.user 0), .handleEvents true,
    .answer (.inl (.getsockopt (.ok none))), .ret, .run, .run, .run, .run, .handleEvents true, .run,
    .answer (.inl (.recv (.error .EAGAIN)))]

/-- The notification of that `Write` connects the buffer, and the next one receives from the
socket, which is not established. -/
theorem connected_too_early :
    Handle.createStreamHandle (connectTo (.error .EINPROGRESS)) = .ok false ∧
      ∃ tr s, Run (bufferSystem (chainEnv false noUpper)) inProgress tr s ∧
        .callback .handleConnected ∈ tr ∧ (∃ r res, .in 0 r res ∈ tr) ∧
        (s.buffer.filter 0).connected = true ∧
        s.env.1.connecting = true ∧ s.env.1.established = false := by
  have hexec : exec (bufferSystem (chainEnv false noUpper)) (fun _ _ => true) notifiedTooEarly
      inProgress = some (_, _) := rfl
  refine ⟨rfl, _, _, .of_exec (fun _ _ _ => trivial) hexec, List.mem_of_getElem? (i := 4) rfl,
    ⟨_, _, List.mem_of_getElem? (i := 7) rfl⟩, rfl, rfl, rfl⟩

end BufferState

end Libael
