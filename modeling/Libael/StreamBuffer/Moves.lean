import Libael.StreamBuffer.Frames

/-!
# Libael.StreamBuffer.Moves

The steps of a stream buffer, as an invariant about a `HandleEvents` call sees them: the loop
thread makes a **move** on its stack, or somebody else does something **aside** that leaves the
stack and the filters alone.

* `Move` has a constructor for each way in which the call goes on: it begins, a frame runs,
  a filter answers, a callback adds a filter or returns.
* `Keeps` is for the surroundings of the filters, the socket in particular: what none of their
  answers changes holds in every state of a run.
-/

namespace Libael

open Lts

/-- The observations of a step aside: of `Write`, of `Close` and of a refused filter. -/
def Obs.aside {ρ : Type} : Obs ρ → Bool
  | .accepted _ | .shouldClose | .threw _ | .readyEvent _ => true
  | _ => false

namespace BufferState

variable {κ ρ : Type} {env : FilterEnv κ ρ} {l : BufferLabel ρ} {s s' : BufferState κ}
  {o tr : List (Obs ρ)}

/-- What a step of the user or of the surroundings leaves alone. -/
structure Aside (s s' : BufferState κ) (o : List (Obs ρ)) : Prop where
  stack : s'.stack = s.stack
  crashed : s'.crashed = s.crashed
  filters : s'.buffer.streamFilters = s.buffer.streamFilters
  mode : s'.buffer.mode = s.buffer.mode
  eofCalled : s'.buffer.eofCalled = s.buffer.eofCalled
  addFilterAllowed : s'.buffer.addFilterAllowed = s.buffer.addFilterAllowed
  shouldClose : (s'.buffer.shouldClose = s.buffer.shouldClose ∧ .shouldClose ∉ o) ∨
    (s'.buffer.shouldClose = true ∧ o = [.shouldClose])
  obs : ∀ x ∈ o, x.aside = true

/-- A step, by what it does to the stack. -/
inductive Move (env : FilterEnv κ ρ) (s : BufferState κ) :
    BufferLabel ρ → BufferState κ → List (Obs ρ) → Prop
  | enter {alive n} : s.stack = [] → n = s.buffer.handleEvents alive →
      Move env s (.handleEvents alive) (s.resume [] n) n.obs
  | run {f rest n} : s.stack = f :: rest → s.buffer.runFrame f = some n →
      Move env s .run (s.resume rest n) n.obs
  | answer {f rest r n k} : s.stack = f :: rest →
      s.buffer.answerFrame env r s.env f = some (n, k) →
      Move env s (.answer r) { s.resume rest n with env := k } n.obs
  | ret {c rest} : s.stack = .callback c :: rest → Move env s .ret { s with stack := rest } []
  | added {addr b} : (s.stack = [] ∨ ∃ c rest, s.stack = .callback c :: rest) →
      s.buffer.addStreamBufferFilter (.new addr) = .ok b →
      Move env s (.addFilter addr) { s with buffer := b } [.filterAdded addr]
  | aside {l₁ s₁ o₁} : Aside s s₁ o₁ → Move env s l₁ s₁ o₁

theorem aside_of_buffer (hb : s'.buffer = s.buffer) (hstack : s'.stack = s.stack)
    (hcrashed : s'.crashed = s.crashed) (hclose : .shouldClose ∉ o)
    (hobs : ∀ x ∈ o, x.aside = true) : Aside s s' o :=
  ⟨hstack, hcrashed, by rw [hb], by rw [hb], by rw [hb], by rw [hb],
    .inl ⟨by rw [hb], hclose⟩, hobs⟩

/-- Every step is a move or aside, and is taken before a crash. -/
theorem move_of_step (h : step env l s = some (s', o)) : s.crashed = none ∧ Move env s l s' o := by
  obtain ⟨hcrashed, hstep⟩ := step_inv h
  refine ⟨hcrashed, ?_⟩
  cases hstep with
  | handleEvents hstack hidle hn => exact .enter hstack hn
  | run hstack hrun => exact .run hstack hrun
  | answer hstack hans => exact .answer hstack hans
  | ret hstack hidle => exact .ret hstack
  | filterAdded hmay hfresh hadd => exact .added (stack_of_mayCall hmay) hadd
  | write =>
      refine .aside ?_
      unfold write
      split_ifs
      · exact aside_of_buffer rfl rfl rfl (by simp) (by simp)
      · exact aside_of_buffer rfl rfl rfl (by simp) (by simp)
      · split
        · exact aside_of_buffer rfl rfl rfl (by simp) (by simp [Obs.aside])
        · exact aside_of_buffer rfl rfl rfl (by simp) (by simp)
  | push hcall =>
      exact .aside ⟨rfl, rfl, rfl, rfl, rfl, rfl, .inl ⟨rfl, by simp [push]⟩,
        by simp [push, Obs.aside]⟩
  | close hmay =>
      exact .aside ⟨rfl, rfl, rfl, rfl, rfl, rfl, .inr ⟨rfl, rfl⟩, by simp [close, Obs.aside]⟩
  | notify hcall => exact .aside (aside_of_buffer rfl rfl rfl (by simp) (by simp [Obs.aside]))
  | filterRefused hmay hadd =>
      exact .aside (aside_of_buffer rfl rfl rfl (by simp) (by simp [Obs.aside]))
  | tick htick => exact .aside (aside_of_buffer rfl rfl rfl (by simp) (by simp))

/-- The frames that wait for somebody: for an answer, or for a callback to return. -/
def waits : Frame → Bool
  | .read _ | .write _ | .flush _ | .shutdown _ | .doConnect | .callback _ => true
  | _ => false

/-- Inside `HandleEvents` a filter is handed over by a callback. -/
theorem callback_of_added {fr : Frame} {rest : List Frame}
    (h : s.stack = [] ∨ ∃ c rest, s.stack = .callback c :: rest) (hstack : s.stack = fr :: rest) :
    ∃ c, fr = .callback c := by
  rcases h with hnil | ⟨c, rest', hcb⟩
  · rw [hnil] at hstack
    exact absurd hstack (by simp)
  · exact ⟨c, (List.cons.inj (hstack.symm.trans hcb)).1⟩

/-- With a frame on top that waits for nobody, the loop thread can only run it. -/
theorem run_of_step (h : step env l s = some (s', o)) {fr : Frame} {rest : List Frame}
    (hstack : s.stack = fr :: rest) (hfr : waits fr = false) :
    Aside s s' o ∨ ∃ n, s.buffer.runFrame fr = some n ∧
      s' = { s with buffer := n.buffer, stack := n.frames ++ rest } ∧ o = n.obs := by
  obtain ⟨-, hmove⟩ := move_of_step h
  cases hmove with
  | aside ha => exact .inl ha
  | enter hnil => rw [hnil] at hstack; exact absurd hstack (by simp)
  | ret hcb =>
      obtain ⟨rfl, -⟩ := List.cons.inj (hcb.symm.trans hstack)
      exact absurd hfr (by simp [waits])
  | added hcb =>
      obtain ⟨c, rfl⟩ := callback_of_added hcb hstack
      exact absurd hfr (by simp [waits])
  | run hf hrun =>
      obtain ⟨rfl, rfl⟩ := List.cons.inj (hf.symm.trans hstack)
      exact .inr ⟨_, hrun, resume_of_threw_none (StreamBuffer.runFrame_threw hrun), rfl⟩
  | @answer f rest' r n k hf hans =>
      obtain ⟨rfl, rfl⟩ := List.cons.inj (hf.symm.trans hstack)
      cases f <;> simp only [waits, Bool.true_eq_false] at hfr <;>
        simp [StreamBuffer.answerFrame] at hans

/-! ### The surroundings of the filters -/

/-- No method of a filter, and no move of its surroundings, leaves `p`. -/
structure Keeps (env : FilterEnv κ ρ) (p : κ → Prop) : Prop where
  «in» : ∀ {i r k res k'}, env.in i r k = some (res, k') → p k → p k'
  out : ∀ {i r k d res k'}, env.out i r k d = some (res, k') → p k → p k'
  connect : ∀ {i r k res k'}, env.connect i r k = some (res, k') → p k → p k'
  accept : ∀ {i r k res k'}, env.accept i r k = some (res, k') → p k → p k'
  shutdown : ∀ {i r k res k'}, env.shutdown i r k = some (res, k') → p k → p k'
  tick : ∀ {r k k'}, env.tick r k = some k' → p k → p k'

theorem Keeps.callOut {p : κ → Prop} (hp : Keeps env p) {b : StreamBuffer} {i : Nat} {r : ρ}
    {k k' : κ} {again after : List Frame} {n : Next ρ StreamBuffer}
    (h : b.callOut env i r k again after = some (n, k')) (hk : p k) : p k' := by
  obtain ⟨d, ds, res, -, hout, -⟩ := StreamBuffer.callOut_cases h
  exact hp.out hout hk

/-- An answer keeps what the surroundings keep. -/
theorem Keeps.answerFrame {p : κ → Prop} (hp : Keeps env p) {b : StreamBuffer} {r : ρ} {k k' : κ}
    {fr : Frame} {n : Next ρ StreamBuffer} (h : b.answerFrame env r k fr = some (n, k'))
    (hk : p k) : p k' := by
  cases fr with
  | write i => exact hp.callOut h hk
  | flush i => exact hp.callOut h hk
  | read i =>
      obtain ⟨⟨res, k₁⟩, hin, heq⟩ := Option.map_eq_some_iff.mp h
      have hk' : k' = k₁ := by cases res <;> exact (Prod.mk.inj heq).2.symm
      exact hk' ▸ hp.in hin hk
  | shutdown i =>
      obtain ⟨⟨res, k₁⟩, hsd, heq⟩ := Option.map_eq_some_iff.mp h
      have hk' : k' = k₁ := by cases res <;> exact (Prod.mk.inj heq).2.symm
      exact hk' ▸ hp.shutdown hsd hk
  | doConnect =>
      obtain ⟨⟨res, k₁⟩, hcon, heq⟩ := Option.map_eq_some_iff.mp h
      have hk' : k' = k₁ := by cases res <;> exact (Prod.mk.inj heq).2.symm
      cases hm : b.mode <;> rw [hm] at hcon
      · exact hk' ▸ hp.accept hcon hk
      · exact hk' ▸ hp.connect hcon hk
  | _ => simp [StreamBuffer.answerFrame] at h

/-- So does a whole step. -/
theorem Keeps.step {p : κ → Prop} (hp : Keeps env p) (h : step env l s = some (s', o))
    (hs : p s.env) : p s'.env := by
  obtain ⟨-, hstep⟩ := step_inv h
  cases hstep with
  | handleEvents => rw [resume_env]; exact hs
  | run => rw [resume_env]; exact hs
  | answer hstack hans => exact hp.answerFrame hans hs
  | tick htick => exact hp.tick htick hs
  | write =>
      unfold write
      split_ifs
      · exact hs
      · exact hs
      · split <;> exact hs
  | _ => exact hs

/-! ### What the trace says about the flags -/

end BufferState

namespace StreamBuffer

variable {κ ρ : Type} {b : StreamBuffer} {fr : Frame} {n : Next ρ StreamBuffer}

/-- `should_close_` is set by `DoFinalize` alone, on the peer's end of file. -/
theorem runFrame_close (h : b.runFrame fr = some n) :
    (n.buffer.shouldClose = b.shouldClose ∧ .shouldClose ∉ n.obs) ∨
      (fr = .doFinalize ∧ b.shouldClose = false ∧ b.back.readClosed = true ∧
        n.buffer = { b with shouldClose := true } ∧ n.frames = [.doClose, .finalizeEOF] ∧
        n.obs = [.shouldClose]) := by
  cases frameRun h with
  | endOfFile hclose hread => exact .inr ⟨rfl, hclose, hread, rfl, rfl, rfl⟩
  | _ => exact .inl ⟨rfl, by simp⟩

/-- `HandleEOF` is delivered by `DoFinalize` alone, once every filter is closed. -/
theorem runFrame_eof (h : b.runFrame fr = some n) :
    (n.buffer.eofCalled = b.eofCalled ∧ ∀ c, .callback c ∉ n.obs) ∨
      (fr = .finalizeEOF ∧ b.isReadClosed = true ∧ b.isWriteClosed = true ∧ b.eofCalled = false ∧
        n.buffer = { b with eofCalled := true } ∧
        n.frames = [.callback .handleEOF, .closeEvent] ∧ n.obs = [.callback .handleEOF]) := by
  cases frameRun h with
  | eof hread hwrite hcalled => exact .inr ⟨rfl, hread, hwrite, hcalled, rfl, rfl, rfl⟩
  | _ => exact .inl ⟨rfl, by simp⟩

/-- An answer changes no flag of the buffer itself. -/
theorem answerFrame_flags {env : FilterEnv κ ρ} {r : ρ} {k k' : κ}
    (h : b.answerFrame env r k fr = some (n, k')) :
    n.buffer.shouldClose = b.shouldClose ∧ n.buffer.eofCalled = b.eofCalled ∧
      .shouldClose ∉ n.obs ∧ .callback .handleEOF ∉ n.obs := by
  cases hfr : fr.sends with
  | true =>
      obtain ⟨i, again, after, -, hcall⟩ := callOut_of_sends h hfr
      obtain ⟨d, ds, res, -, -, hobs, ⟨e, -, -, -, hb⟩ | ⟨res', f', drain, -, -, -, hb, -⟩⟩ :=
        callOut_cases hcall
      · simp [hb, hobs, setFilter]
      · simp [hb, hobs, setFilter]
  | false =>
      rcases answerFrame_cases h hfr with ⟨e, x, rfl, hx⟩ | ⟨i, res, -, -, rfl⟩ |
        ⟨i, res, -, -, rfl⟩ | ⟨res, -, -, rfl⟩
      · rcases hx with ⟨i, -, rfl, -⟩ | ⟨i, -, rfl, -⟩ | ⟨-, rfl⟩ <;> simp
      · simp only [Next.after, afterIn]
        split_ifs
        · simp [setFilter]
        · split <;> simp
      · simp only [Next.after, afterShutdown]
        split_ifs <;> simp [setFilter]
      · cases res <;> simp [Next.after, afterConnect, setFilter]

end StreamBuffer

namespace BufferState

variable {κ ρ : Type} {env : FilterEnv κ ρ} {l : BufferLabel ρ} {s s' : BufferState κ}
  {o tr : List (Obs ρ)}

/-- `should_close_` is only ever set, and setting it is shown. -/
theorem shouldClose_step (h : step env l s = some (s', o)) :
    (s'.buffer.shouldClose = s.buffer.shouldClose ∧ .shouldClose ∉ o) ∨
      (s'.buffer.shouldClose = true ∧ o = [.shouldClose]) := by
  obtain ⟨-, hmove⟩ := move_of_step h
  cases hmove with
  | enter hstack hn =>
      subst hn
      rw [resume_buffer]
      unfold StreamBuffer.handleEvents
      split_ifs <;> simp
  | run hstack hrun =>
      rw [resume_buffer]
      rcases StreamBuffer.runFrame_close hrun with hsame | ⟨-, -, -, hb, -, hobs⟩
      · exact .inl hsame
      · exact .inr ⟨by rw [hb], hobs⟩
  | answer hstack hans =>
      obtain ⟨hclose, -, hobs, -⟩ := StreamBuffer.answerFrame_flags hans
      exact .inl ⟨by simpa using hclose, hobs⟩
  | ret => exact .inl ⟨rfl, by simp⟩
  | added hstack hadd =>
      obtain ⟨-, ⟨-, rfl⟩ | ⟨-, rfl⟩⟩ := StreamBuffer.addStreamBufferFilter_cases hadd
      · exact .inl ⟨rfl, by simp⟩
      · exact .inl ⟨rfl, by simp⟩
  | aside ha => exact ha.shouldClose

/-- `should_close_` is set exactly when the trace says so. -/
theorem shouldClose_iff {mode : StreamBufferMode} {addr : Nat} {k : κ}
    {ok : BufferLabel ρ → BufferState κ → Prop}
    (h : GuardedRun (bufferSystem env) ok (init mode addr k) tr s) :
    s.buffer.shouldClose = true ↔ .shouldClose ∈ tr := by
  refine h.invariant (I := fun tr s => s.buffer.shouldClose = true ↔ .shouldClose ∈ tr) ?_ ?_
  · simp [init, StreamBuffer.create_eq]
  · intro tr s l s' o _ ih _ hs
    rcases shouldClose_step hs with ⟨hsame, hobs⟩ | ⟨hset, rfl⟩
    · rw [hsame, ih]
      simp [hobs]
    · simp [hset]

/-- `eof_called_` is set in the frame that calls `HandleEOF`. -/
theorem eofCalled_step (h : step env l s = some (s', o)) :
    (s'.buffer.eofCalled = s.buffer.eofCalled ∧ .callback .handleEOF ∉ o) ∨
      (∃ rest, s.stack = .finalizeEOF :: rest ∧
        s.buffer.isReadClosed = true ∧ s.buffer.isWriteClosed = true ∧ s.buffer.eofCalled = false ∧
        s' = { s with
          buffer := { s.buffer with eofCalled := true }
          stack := .callback .handleEOF :: .closeEvent :: rest } ∧
        o = [.callback .handleEOF]) := by
  obtain ⟨-, hmove⟩ := move_of_step h
  cases hmove with
  | enter hstack hn =>
      subst hn
      rw [resume_buffer]
      unfold StreamBuffer.handleEvents
      split_ifs <;> simp
  | run hstack hrun =>
      rcases StreamBuffer.runFrame_eof hrun with
        ⟨hsame, hobs⟩ | ⟨rfl, hr, hw, he, hb, hframes, hobs⟩
      · exact .inl ⟨by rw [resume_buffer]; exact hsame, hobs _⟩
      · refine .inr ⟨_, hstack, hr, hw, he, ?_, hobs⟩
        rw [resume_of_threw_none (StreamBuffer.runFrame_threw hrun), hb, hframes]
        rfl
  | answer hstack hans =>
      obtain ⟨-, heof, -, hobs⟩ := StreamBuffer.answerFrame_flags hans
      exact .inl ⟨by simpa using heof, hobs⟩
  | ret => exact .inl ⟨rfl, by simp⟩
  | added hstack hadd =>
      obtain ⟨-, ⟨-, rfl⟩ | ⟨-, rfl⟩⟩ := StreamBuffer.addStreamBufferFilter_cases hadd
      · exact .inl ⟨rfl, by simp⟩
      · exact .inl ⟨rfl, by simp⟩
  | aside ha =>
      refine .inl ⟨ha.eofCalled, fun hmem => ?_⟩
      exact absurd (ha.obs _ hmem) (by simp [Obs.aside])

/-- `eof_called_` is set exactly when `HandleEOF` has been called. -/
theorem eofCalled_iff {mode : StreamBufferMode} {addr : Nat} {k : κ}
    {ok : BufferLabel ρ → BufferState κ → Prop}
    (h : GuardedRun (bufferSystem env) ok (init mode addr k) tr s) :
    s.buffer.eofCalled = true ↔ .callback .handleEOF ∈ tr := by
  refine h.invariant (I := fun tr s => s.buffer.eofCalled = true ↔ .callback .handleEOF ∈ tr) ?_ ?_
  · simp [init, StreamBuffer.create_eq]
  · intro tr s l s' o _ ih _ hs
    rcases eofCalled_step hs with ⟨hsame, hobs⟩ | ⟨rest, -, -, -, -, rfl, rfl⟩
    · rw [hsame, ih]
      simp [hobs]
    · simp

end BufferState

end Libael
