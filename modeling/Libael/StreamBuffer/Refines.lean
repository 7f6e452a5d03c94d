import Libael.StreamBuffer.Moves

/-!
# Libael.StreamBuffer.Refines

**Coarser surroundings.** The filters of a stream buffer may be answered by an
environment that keeps more, and whose answers say more, than a property of the
buffer needs. When forgetting the rest takes every answer of the one to an answer
of the other, it takes every run of the buffer over the one to a run over the
other (`run_of_refines`), and what is proved of the coarse runs holds of the fine
ones.
-/

namespace Libael

open Lts

variable {κ κ' ρ ρ' : Type}

/-! ### Forgetting -/

/-- The observation with the answer replaced. -/
def Obs.map (g : ρ → ρ') : Obs ρ → Obs ρ'
  | .handleEvents alive => .handleEvents alive
  | .accepted d => .accepted d
  | .shouldClose => .shouldClose
  | .swapped ds => .swapped ds
  | .in i r res => .in i (g r) res
  | .out i d r res => .out i d (g r) res
  | .connect i res => .connect i res
  | .shutdown i res => .shutdown i res
  | .callback c => .callback c
  | .filterAdded addr => .filterAdded addr
  | .threw e => .threw e
  | .readyEvent k => .readyEvent k
  | .modifyEvent => .modifyEvent
  | .closeEvent => .closeEvent

/-- The label with the answer replaced. -/
def BufferLabel.map (g : ρ → ρ') : BufferLabel ρ → BufferLabel ρ'
  | .handleEvents alive => .handleEvents alive
  | .run => .run
  | .answer r => .answer (g r)
  | .ret => .ret
  | .write a d => .write a d
  | .push a => .push a
  | .notify a => .notify a
  | .close a => .close a
  | .addFilter addr => .addFilter addr
  | .tick r => .tick (g r)

/-- The outcome of a frame with the answers replaced. -/
def Next.map {β : Type} (g : ρ → ρ') (n : Next ρ β) : Next ρ' β :=
  { buffer := n.buffer, frames := n.frames, obs := n.obs.map (Obs.map g), threw := n.threw }

/-- The same buffer over other surroundings. -/
def BufferState.mapEnv (f : κ → κ') (s : BufferState κ) : BufferState κ' :=
  { buffer := s.buffer, env := f s.env, calls := s.calls, stack := s.stack, crashed := s.crashed }

/-- What `env` answers, `env'` answers after forgetting. A move of the surroundings may be one
that is forgotten altogether. -/
structure FilterEnv.Refines (env : FilterEnv κ ρ) (env' : FilterEnv κ' ρ') (f : κ → κ')
    (g : ρ → ρ') : Prop where
  «in» : ∀ {i r k res k'}, env.in i r k = some (res, k') → env'.in i (g r) (f k) = some (res, f k')
  out : ∀ {i r k d res k'}, env.out i r k d = some (res, k') →
    env'.out i (g r) (f k) d = some (res, f k')
  connect : ∀ {i r k res k'}, env.connect i r k = some (res, k') →
    env'.connect i (g r) (f k) = some (res, f k')
  accept : ∀ {i r k res k'}, env.accept i r k = some (res, k') →
    env'.accept i (g r) (f k) = some (res, f k')
  shutdown : ∀ {i r k res k'}, env.shutdown i r k = some (res, k') →
    env'.shutdown i (g r) (f k) = some (res, f k')
  tick : ∀ {r k k'}, env.tick r k = some k' → env'.tick (g r) (f k) = some (f k') ∨ f k' = f k

/-! ### The code of the buffer does not look at the answers -/

namespace StreamBuffer

variable {b : StreamBuffer} {fr : Frame}

theorem handleEvents_map (g : ρ → ρ') (alive : Bool) :
    (b.handleEvents alive : Next ρ StreamBuffer).map g = b.handleEvents alive := by
  unfold handleEvents
  split_ifs <;> rfl

/-- A frame that asks no filter does the same over either surroundings. -/
theorem runFrame_map (g : ρ → ρ') (fr : Frame) :
    (b.runFrame fr : Option (Next ρ StreamBuffer)).map (Next.map g) = b.runFrame fr := by
  cases fr with
  | doRead =>
      simp only [runFrame, doRead]
      split_ifs <;> rfl
  | doWrite =>
      simp only [runFrame, doWrite]
      split_ifs <;> rfl
  | doClose =>
      simp only [runFrame, doClose]
      split_ifs <;> rfl
  | doFinalize =>
      simp only [runFrame, doFinalize]
      split_ifs <;> rfl
  | finalizeEOF =>
      simp only [runFrame, finalizeEOF]
      split_ifs <;> rfl
  | close i =>
      simp only [runFrame, close]
      split_ifs <;> rfl
  | closeFrom k =>
      cases k with
      | zero => rfl
      | succ k =>
          simp only [runFrame]
          split_ifs <;> rfl
  | closeCheck k | write i | flush i | flushed i =>
      simp only [runFrame]
      split_ifs <;> rfl
  | _ => rfl

theorem afterIn_map (g : ρ → ρ') (i : Nat) (res : InResult) :
    (b.afterIn i res : Next ρ StreamBuffer).map g = b.afterIn i res := by
  unfold afterIn
  split_ifs
  · rfl
  · split <;> rfl

theorem afterConnect_map (g : ρ → ρ') (i : Nat) (res : ConnectResult) :
    (b.afterConnect i res : Next ρ StreamBuffer).map g = b.afterConnect i res := by
  cases res <;> rfl

theorem afterShutdown_map (g : ρ → ρ') (i : Nat) (res : ShutdownResult) :
    (b.afterShutdown i res : Next ρ StreamBuffer).map g = b.afterShutdown i res := by
  unfold afterShutdown
  split_ifs <;> rfl

end StreamBuffer

theorem Next.map_after {β : Type} (g : ρ → ρ') (n : Next ρ β) (x : Obs ρ) :
    (n.after x).map g = (n.map g).after (x.map g) := rfl

namespace StreamBuffer

variable {b : StreamBuffer} {env : FilterEnv κ ρ} {env' : FilterEnv κ' ρ'} {f : κ → κ'} {g : ρ → ρ'}

/-- A call of `Out` is answered alike. -/
theorem callOut_refines (h : env.Refines env' f g) {i : Nat} {r : ρ} {k k' : κ}
    {again after : List Frame} {n : Next ρ StreamBuffer}
    (hcall : b.callOut env i r k again after = some (n, k')) :
    b.callOut env' i (g r) (f k) again after = some (n.map g, f k') := by
  unfold callOut at hcall ⊢
  cases hpending : (b.filter i).pendingOut with
  | nil => exact absurd hcall (by simp [hpending])
  | cons d rest =>
      simp only [hpending] at hcall ⊢
      obtain ⟨⟨res, k₁⟩, hout, heq⟩ := Option.map_eq_some_iff.mp hcall
      rw [h.out hout]
      cases res with
      | error e =>
          obtain ⟨rfl, rfl⟩ := Prod.mk.inj heq
          rfl
      | ok res =>
          obtain ⟨rfl, rfl⟩ := Prod.mk.inj heq
          rfl

/-- Every answer of the fine surroundings is one of the coarse ones, and the frame does the same
with it. -/
theorem answerFrame_refines (h : env.Refines env' f g) {fr : Frame} {r : ρ} {k k' : κ}
    {n : Next ρ StreamBuffer} (hanswer : b.answerFrame env r k fr = some (n, k')) :
    b.answerFrame env' (g r) (f k) fr = some (n.map g, f k') := by
  unfold answerFrame at hanswer ⊢
  cases fr with
  | read i =>
      obtain ⟨⟨res, k₁⟩, hin, heq⟩ := Option.map_eq_some_iff.mp hanswer
      simp only [h.in hin, Option.map_some]
      cases res with
      | error e =>
          obtain ⟨rfl, rfl⟩ := Prod.mk.inj heq
          rfl
      | ok res =>
          obtain ⟨rfl, rfl⟩ := Prod.mk.inj heq
          rw [Next.map_after, afterIn_map]
          rfl
  | write i => exact callOut_refines h hanswer
  | flush i => exact callOut_refines h hanswer
  | shutdown i =>
      obtain ⟨⟨res, k₁⟩, hshutdown, heq⟩ := Option.map_eq_some_iff.mp hanswer
      simp only [h.shutdown hshutdown, Option.map_some]
      cases res with
      | error e =>
          obtain ⟨rfl, rfl⟩ := Prod.mk.inj heq
          rfl
      | ok res =>
          obtain ⟨rfl, rfl⟩ := Prod.mk.inj heq
          rw [Next.map_after, afterShutdown_map]
          rfl
  | doConnect =>
      obtain ⟨⟨res, k₁⟩, hasked, heq⟩ := Option.map_eq_some_iff.mp hanswer
      refine (congrArg (Option.map _) (show _ = some (res, f k₁) from ?_)).trans ?_
      · -- a client asks `Connect`, a server `Accept`
        cases hmode : b.mode with
        | client =>
            rw [hmode] at hasked
            exact h.connect hasked
        | server =>
            rw [hmode] at hasked
            exact h.accept hasked
      cases res with
      | error e =>
          obtain ⟨rfl, rfl⟩ := Prod.mk.inj heq
          rfl
      | ok res =>
          obtain ⟨rfl, rfl⟩ := Prod.mk.inj heq
          rw [Next.map_after, afterConnect_map]
          rfl
  | _ => exact absurd hanswer (by simp)

end StreamBuffer

/-! ### Runs -/

namespace BufferState

variable {env : FilterEnv κ ρ} {env' : FilterEnv κ' ρ'} {f : κ → κ'} {g : ρ → ρ'}
  {s s' : BufferState κ} {l : BufferLabel ρ} {o : List (Obs ρ)}

/-- The stack that is left is the same. -/
theorem mapEnv_resume (f : κ → κ') (g : ρ → ρ') (s : BufferState κ) (rest : List Frame)
    (n : Next ρ StreamBuffer) :
    (s.resume rest n).mapEnv f = (s.mapEnv f).resume rest (n.map g) := by
  cases hthrew : n.threw with
  | none =>
      rw [resume_of_threw_none hthrew, resume_of_threw_none (n := n.map g) hthrew]
      rfl
  | some e =>
      rw [resume_of_threw hthrew, resume_of_threw (n := n.map g) hthrew]
      rfl

theorem mayCall_mapEnv (f : κ → κ') (s : BufferState κ) (a : Agent) :
    (s.mapEnv f).mayCall a = s.mayCall a := rfl

/-- `Write` does not look at the surroundings. -/
theorem write_map (f : κ → κ') (g : ρ → ρ') (s : BufferState κ) (a : Agent) (d : DataView) :
    (s.mapEnv f).write (ρ := ρ') a d =
      ((s.write (ρ := ρ) a d).1.mapEnv f, (s.write (ρ := ρ) a d).2.map (Obs.map g)) := by
  unfold write
  rw [show (s.mapEnv f).buffer = s.buffer from rfl]
  split_ifs with hempty hclose
  · rfl
  · rfl
  · split <;> rfl

/-- A step over the fine surroundings is a step over the coarse ones, or one of the surroundings
that is not seen there. -/
theorem step_of_refines (h : env.Refines env' f g) (hs : step env l s = some (s', o)) :
    step env' (l.map g) (s.mapEnv f) = some (s'.mapEnv f, o.map (Obs.map g)) ∨
      s'.mapEnv f = s.mapEnv f ∧ o = [] := by
  obtain ⟨hcr, hstep⟩ := step_inv hs
  have hup : (s.mapEnv f).crashed.isSome = false := by simp [mapEnv, hcr]
  have hcalls : ∀ a, (s.mapEnv f).calls a = s.calls a := fun _ => rfl
  have hbuffer : (s.mapEnv f).buffer = s.buffer := rfl
  cases hstep with
  | @handleEvents alive n hstack hidle hn =>
      have hstack' : (s.mapEnv f).stack = [] := hstack
      have hmap := StreamBuffer.handleEvents_map (b := s.buffer) g alive
      rw [← hn] at hmap
      refine .inl ?_
      simp only [step, BufferLabel.map, hup, hstack', hcalls, hidle, hbuffer, ← hmap]
      rw [mapEnv_resume f g]
      rfl
  | @run fr rest n hstack hrun =>
      have hstack' : (s.mapEnv f).stack = fr :: rest := hstack
      have hmap := StreamBuffer.runFrame_map (b := s.buffer) g fr
      rw [hrun] at hmap
      refine .inl ?_
      simp only [step, BufferLabel.map, hup, hstack', hbuffer, ← hmap]
      rw [mapEnv_resume f g]
      rfl
  | @answer fr rest r n k hstack hanswer =>
      have hstack' : (s.mapEnv f).stack = fr :: rest := hstack
      have hmap := StreamBuffer.answerFrame_refines h hanswer
      refine .inl ?_
      simp only [step, BufferLabel.map, hup, hstack']
      rw [show (s.mapEnv f).buffer.answerFrame env' (g r) (s.mapEnv f).env fr = _ from hmap]
      have hresume := mapEnv_resume f g s rest n
      show some ({ (s.mapEnv f).resume rest (n.map g) with env := f k }, (n.map g).obs) = _
      rw [← hresume]
      rfl
  | @ret c rest hstack hidle =>
      have hstack' : (s.mapEnv f).stack = .callback c :: rest := hstack
      refine .inl ?_
      simp only [step, BufferLabel.map, hup, hstack', hcalls, hidle]
      rfl
  | @write a d hmay =>
      refine .inl ?_
      simp only [step, BufferLabel.map, hup, mayCall_mapEnv, hmay, write_map f g]
      rfl
  | @push a d saved hcall =>
      refine .inl ?_
      simp only [step, BufferLabel.map, hup, hcalls, hcall]
      rfl
  | @notify a k hcall =>
      refine .inl ?_
      simp only [step, BufferLabel.map, hup, hcalls, hcall]
      rfl
  | @close a hmay =>
      refine .inl ?_
      simp only [step, BufferLabel.map, hup, mayCall_mapEnv, hmay]
      rfl
  | @filterRefused addr e hmay hadd =>
      have hfresh : s.buffer.streamFilters.all (·.addr != addr) = true := by
        by_contra hno
        simp [step, hcr, hno] at hs
      refine .inl ?_
      simp only [step, BufferLabel.map, hup, mayCall_mapEnv, hmay, hbuffer, hfresh, hadd]
      rfl
  | @filterAdded addr b hmay hfresh hadd =>
      refine .inl ?_
      simp only [step, BufferLabel.map, hup, mayCall_mapEnv, hmay, hbuffer, hfresh, hadd]
      rfl
  | @tick r k htick =>
      rcases h.tick htick with htick' | hsame
      · refine .inl ?_
        have hmap : env'.tick (g r) (s.mapEnv f).env = some (f k) := htick'
        simp only [step, BufferLabel.map, hup, hmap]
        rfl
      · refine .inr ⟨?_, rfl⟩
        show BufferState.mk _ (f k) _ _ _ = BufferState.mk _ (f s.env) _ _ _
        rw [hsame]

/-- **The runs over fine surroundings are runs over the coarse ones.** -/
theorem run_of_refines (h : env.Refines env' f g) {ok : BufferLabel ρ → BufferState κ → Prop}
    {ok' : BufferLabel ρ' → BufferState κ' → Prop}
    (hok : ∀ l s, ok l s → ok' (l.map g) (s.mapEnv f)) {tr : List (Obs ρ)} {s₀ : BufferState κ}
    (hrun : GuardedRun (bufferSystem env) ok s₀ tr s) :
    GuardedRun (bufferSystem env') ok' (s₀.mapEnv f) (tr.map (Obs.map g)) (s.mapEnv f) := by
  rw [List.map_eq_flatMap]
  refine hrun.simulates (BufferState.mapEnv f) _ ?_
  intro tr s l s' o _ hl hs
  rw [← List.map_eq_flatMap]
  rcases step_of_refines h hs with hstep | ⟨hsame, rfl⟩
  · exact .step .refl (hok l s hl) hstep
  · rw [hsame]
    exact .refl

end BufferState

end Libael
