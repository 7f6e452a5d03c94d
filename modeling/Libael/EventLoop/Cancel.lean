import Libael.EventLoop.Timers

/-!
# Libael.EventLoop.Cancel

`Cancel` of a timer, called on the thread of the loop. `TimerHandler::HandleEvents` tests
`canceled_` once, before it reads the timerfd: **the loop over the occurrences does not test it
again**, so a `func_` that cancels its own timer is still called for the occurrences that are
left. Where none is left, no `func_` of the timer begins after the `Cancel`.
-/

namespace Libael

open Lts

namespace LoopFrame

/-- The frame is one of `TimerHandler::HandleEvents` of `e`, past the test of `canceled_`. -/
def fires (e : EventId) : LoopFrame → Bool
  | .timerRead e' | .timerRun e' _ => e' == e
  | _ => false

end LoopFrame

namespace EventLoop

section

variable {cfg : Config} {l : LoopLabel} {s s' : EventLoop} {tr o : List LoopObs} {e : EventId}

/-! ### The frames of a timer -/

/-- Where a frame of a timer comes from. -/
inductive TimerFrame (cfg : Config) (s : EventLoop) (e : EventId) :
    LoopLabel → LoopFrame → Prop
  | stays {label f} : f ∈ s.stack → TimerFrame cfg s e label f
  | entered {i events rest} : s.stack = .handleEvents e events :: rest →
      (s.handlers e).canceled = false → TimerFrame cfg s e (.loop i) (.timerRead e)
  | expired {occurrences rest} : s.stack = .timerRead e :: rest →
      TimerFrame cfg s e (.loop (.read (.ok occurrences)))
        (.timerRun e (min occurrences cfg.intervalOccurrencesLimit))
  | occurrence {i k rest} : s.stack = .timerRun e (k + 1) :: rest →
      TimerFrame cfg s e (.loop i) (.timerRun e k)

/-- Every frame of a timer is one of `TimerFrame`. -/
theorem timerFrame_of_move (hmove : Move cfg s l s' o) {f : LoopFrame} (hf : f ∈ s'.stack)
    (hfires : f.fires e = true) : TimerFrame cfg s e l f := by
  have hnew (frames rest : List LoopFrame) (hmem : f ∈ frames ++ rest)
      (hframes : ∀ g ∈ frames, g.fires e = false) (hrest : ∀ g ∈ rest, g ∈ s.stack) :
      TimerFrame cfg s e l f := by
    rcases List.mem_append.mp hmem with hmem | hmem
    · rw [hframes f hmem] at hfires
      exact absurd hfires (by simp)
    · exact .stays (hrest f hmem)
  cases hmove with
  | call _ _ hquiet _ => exact .stays (by rwa [hquiet.stack] at hf)
  | pushed _ _ => exact .stays (by rwa [push_stack] at hf)
  | signalled _ => exact .stays (by rwa [complete_stack] at hf)
  | @light i g rest n hstack _ hlight hrun _ _ _ _ =>
      have hbelow : ∀ g ∈ rest, g ∈ s.stack := fun g hg => by rw [hstack]; exact .tail _ hg
      have hframes (hno : ∀ g ∈ n.frames, g.fires e = false) :=
        hnew n.frames rest hf hno hbelow
      rcases List.mem_append.mp (show f ∈ n.frames ++ rest from hf) with hmem | hmem
      · cases lightRun hlight hrun with
        | timer _ hcanceled _ =>
            obtain rfl := List.mem_singleton.mp hmem
            obtain rfl := beq_iff_eq.mp hfires
            exact .entered hstack hcanceled
        | expired _ _ =>
            obtain rfl := List.mem_singleton.mp hmem
            obtain rfl := beq_iff_eq.mp hfires
            exact .expired hstack
        | occurrence =>
            simp only [List.mem_cons, List.not_mem_nil, or_false] at hmem
            obtain rfl | rfl := hmem
            · exact absurd hfires (by simp [LoopFrame.fires])
            · obtain rfl := beq_iff_eq.mp hfires
              exact .occurrence hstack
        | _ => exact hframes (by simp [LoopFrame.fires])
      · exact .stays (hbelow f hmem)
  | wait hstack _ =>
      refine hnew [_] _ hf ?_ fun g hg => by rw [hstack]; exact .tail _ hg
      intro g hg
      rw [List.mem_singleton.mp hg]
      split <;> rfl
  | @notification n ns final rest hstack _ =>
      refine hnew (s.processNotification n ++ [.batch ns final]) rest
        (by simpa using hf) ?_ fun g hg => by rw [hstack]; exact .tail _ hg
      rcases processNotification_spec s n with ⟨-, heq⟩ | ⟨-, heq | ⟨fd, e', events, -, heq⟩⟩ <;>
        simp [heq, LoopFrame.fires]
  | drained hstack _ =>
      exact hnew [.handleElements .add, .handleElements .remove, .handleElements .ready] _
        hf (by simp [LoopFrame.fires]) fun g hg => by rw [hstack]; exact .tail _ hg
  | swapped hstack _ _ =>
      exact hnew [.finalize _, .dispose _] _ hf (by simp [LoopFrame.fires])
        fun g hg => by rw [hstack]; exact .tail _ hg
  | @finalized i element elements rest n hstack _ hrun _ =>
      refine hnew (n.frames ++ [.finalize elements]) rest (by simpa using hf) ?_
        fun g hg => by rw [hstack]; exact .tail _ hg
      obtain ⟨-, -, heq | ⟨events, heq⟩, -⟩ := finalizeElement_spec hrun <;>
        simp [heq, LoopFrame.fires]
  | _ => exact .stays hf

/-- Nothing takes a `Cancel` back. -/
theorem canceled_of_move (hmove : Move cfg s l s' o) (h : (s.handlers e).canceled = true) :
    (s'.handlers e).canceled = true := by
  have hset {e' : EventId} {hd : EventHandler}
      (hd' : (s.handlers e').canceled = true → hd.canceled = true) :
      ((s.setHandler e' hd).handlers e).canceled = true := by
    by_cases hee : e = e'
    · subst hee
      simpa [setHandler] using hd' h
    · simpa [setHandler, Function.update_of_ne hee] using h
  cases hmove with
  | call _ hreq _ _ =>
      cases requested hreq with
      | cancel _ _ => rw [handlers_closeEvent]; exact hset fun _ => rfl
      | closeEvent _ => rw [handlers_closeEvent]; exact h
      | destroyed _ _ _ =>
          unfold destroyHandler
          rw [handlers_closeEvent]
          exact hset id
      | _ => exact h
  | created _ _ _ => exact hset id
  | closeBegins _ _ => exact hset id
  | expire => exact hset id
  | @pushed a element _ _ =>
      rcases push_spec s a element with ⟨-, heq⟩ | ⟨-, heq⟩ <;> rw [heq]
      · exact h
      · rw [handlers_complete]
        split <;> exact h
  | signalled _ =>
      rw [handlers_complete]
      split <;> exact h
  | light _ _ hlight hrun _ _ _ _ =>
      cases lightRun hlight hrun with
      | closeEvent => dsimp only; rw [handlers_closeEvent]; exact h
      | dropped _ _ _ =>
          dsimp only
          unfold destroyHandler
          rw [handlers_closeEvent]
          exact hset id
      | oneShot _ => exact hset fun _ => rfl
      | _ => exact h
  | finalized _ _ hrun _ =>
      dsimp only
      rw [(finalizeElement_spec hrun).2.1]
      exact h
  | _ => exact h

/-- One loop over occurrences at a time. -/
theorem eq_of_fires (hcall : HandlerCall cfg (callFrames s.stack)) {k : Nat}
    (hrun : .timerRun e k ∈ s.stack) {e' : EventId} {f : LoopFrame} (hf : f ∈ s.stack)
    (hfires : f.fires e' = true) : f = .timerRun e k := by
  have hrun' := mem_callFrames.mpr ⟨hrun, rfl⟩
  have hlevel : f.level = 3 := by
    cases f <;> first | rfl | exact absurd hfires (by simp [LoopFrame.fires])
  have hf' := mem_callFrames.mpr ⟨hf, hlevel⟩
  generalize callFrames s.stack = frames at hcall hrun' hf'
  cases hcall with
  | run _ | occurrence _ =>
      simp only [List.mem_cons, LoopFrame.timerRun.injEq, reduceCtorEq, List.not_mem_nil, or_false,
        false_or] at hrun'
      obtain ⟨rfl, rfl⟩ := hrun'
      simp only [List.mem_cons, List.not_mem_nil, or_false] at hf'
      rcases hf' with rfl | rfl | rfl <;>
        first | rfl | exact absurd hfires (by simp [LoopFrame.fires])
  | _ => exact absurd hrun' (by simp)

/-- While code of the user runs on the thread of the loop, no timerfd is about to be read. -/
theorem timerRead_notMem (hcall : HandlerCall cfg (callFrames s.stack))
    (hmay : s.mayCall .loop = true) : .timerRead e ∉ s.stack := by
  intro hread
  have hread' := mem_callFrames.mpr ⟨hread, rfl⟩
  have htop : ∃ e' rest, s.stack = .callback e' :: rest := by
    unfold mayCall at hmay
    rw [Bool.and_eq_true] at hmay
    replace hmay := hmay.2
    split at hmay
    · exact ⟨_, _, ‹_›⟩
    · exact absurd hmay (by simp)
    · rename_i huser
      exact absurd huser (by simp)
  obtain ⟨e', rest, hstack⟩ := htop
  rw [hstack, callFrames_cons rfl] at hcall hread'
  generalize callFrames rest = frames at hcall hread'
  cases hcall with
  | user _ | invoke _ | occurrence _ => exact absurd hread' (by simp)

/-- A `func_` of a timer begins in the loop over the occurrences. -/
theorem func_of_step (htimer : cfg.timer e = true) (hs : step cfg l s = some (s', o))
    (hx : .func e ∈ o) : ∃ k rest, s.stack = .timerRun e (k + 1) :: rest ∧
      s' = { s with stack := .callback e :: .timerRun e k :: rest } ∧ o = [.func e] := by
  cases shown_of_step hs hx rfl with
  | execute _ _ hclass _ =>
      have hno := Config.not_executes_of_timer htimer
      rw [Config.executes_iff.mpr hclass] at hno
      exact absurd hno (by simp)
  | @timer i _ k rest hstack _ =>
      obtain ⟨-, -, n, hrun, rfl, rfl⟩ := step_loop hs hstack
      cases i <;> simp only [runFrame, reduceCtorEq] at hrun
      obtain rfl := Option.some.inj hrun
      exact ⟨k, rest, hstack, rfl, rfl⟩

/-! ### After a Cancel -/

/-- The timer is canceled, and no `func_` is about to be called for it. -/
structure Silenced (s : EventLoop) (e : EventId) : Prop where
  canceled : (s.handlers e).canceled = true
  read : .timerRead e ∉ s.stack
  occurrence : ∀ k, .timerRun e (k + 1) ∉ s.stack

/-- A canceled timer stays silenced: its `HandleEvents` tests `canceled_` first. -/
theorem Silenced.move (h : Silenced s e) (hmove : Move cfg s l s' o) : Silenced s' e where
  canceled := canceled_of_move hmove h.canceled
  read hread := by
    cases timerFrame_of_move hmove hread (e := e) (by simp [LoopFrame.fires]) with
    | stays hin => exact h.read hin
    | entered _ hcanceled => exact absurd h.canceled (by simp [hcanceled])
  occurrence k hrun := by
    have hframe := timerFrame_of_move hmove hrun (e := e) (by simp [LoopFrame.fires])
    generalize hf : LoopFrame.timerRun e (k + 1) = f at hframe
    cases hframe with
    | stays hin => exact h.occurrence k (hf ▸ hin)
    | entered => exact absurd hf (by simp)
    | expired hstack => exact h.read (by simp [hstack])
    | occurrence hstack =>
        obtain ⟨-, rfl⟩ := LoopFrame.timerRun.inj hf
        exact h.occurrence (k + 1) (by simp [hstack])

theorem Silenced.not_func (h : Silenced s e) (htimer : cfg.timer e = true)
    (hs : step cfg l s = some (s', o)) : .func e ∉ o := by
  intro hx
  obtain ⟨k, rest, hstack, -, -⟩ := func_of_step htimer hs hx
  exact h.occurrence k (by simp [hstack])

/-- The run lemma. -/
theorem Silenced.run {ok : LoopLabel → EventLoop → Prop} {s₀ : EventLoop} (h₀ : Silenced s₀ e)
    (htimer : cfg.timer e = true) (h : GuardedRun (loopSystem cfg) ok s₀ tr s) :
    .func e ∉ tr ∧ (s.crashed = none → Silenced s e) := by
  induction h with
  | refl => exact ⟨List.not_mem_nil, fun _ => h₀⟩
  | step _ _ hs ih =>
      obtain ⟨hno, hsilent⟩ := ih
      have hsilent := hsilent (not_crashed_of_step hs)
      refine ⟨fun hx => ?_, fun hc => hsilent.move (move_of_step hs hc)⟩
      rcases List.mem_append.mp hx with hx | hx
      · exact hno hx
      · exact hsilent.not_func htimer hs hx

/-- A `Cancel` on the thread of the loop silences the timer, if no occurrence is left. -/
theorem silenced_of_cancel {ok : LoopLabel → EventLoop → Prop}
    (h : GuardedRun (loopSystem cfg) ok init tr s) (hno : ∀ k, .timerRun e (k + 1) ∉ s.stack)
    (hs : step cfg (.call .loop (.cancel e)) s = some (s', o)) :
    cfg.timer e = true ∧ Silenced s' e := by
  have hcall := handlerCall_of_run h (not_crashed_of_step hs)
  unfold step at hs
  split at hs
  · exact absurd hs (by simp)
  · dsimp only at hs
    split at hs
    · rename_i hmay
      cases requested hs with
      | cancel hclass _ =>
          have hstack : (((s.setHandler e { s.handlers e with canceled := true }).closeEvent
              .loop e).stack) = s.stack := (Quiet.closeEvent _ _ _).stack
          refine ⟨by simp [Config.timer, hclass], ?_, ?_, ?_⟩
          · simp
          · rw [hstack]
            exact timerRead_notMem hcall hmay
          · rwa [hstack]
    · exact absurd hs (by simp)

/-! ### One-shot timers -/

/-- What `timerfd_settime` says of a timer without an interval: it expires once. -/
def ExpiresOnce (e : EventId) (l : LoopLabel) (s : EventLoop) : Prop :=
  ∀ occurrences rest, l = .loop (.read (.ok occurrences)) → s.stack = .timerRead e :: rest →
    occurrences ≤ 1

theorem countP_eq_zero (hx : .func e ∉ o) : o.countP (LoopObs.isFunc e) = 0 := by
  refine List.countP_eq_zero.mpr fun x hmem hfunc => ?_
  unfold LoopObs.isFunc at hfunc
  split at hfunc
  · obtain rfl := beq_iff_eq.mp hfunc
    exact hx hmem
  · exact absurd hfunc (by simp)

theorem countP_func (e : EventId) : [LoopObs.func e].countP (LoopObs.isFunc e) = 1 := by
  simp [LoopObs.isFunc]

/-- How far a one-shot timer is. -/
inductive OneShot (tr : List LoopObs) (s : EventLoop) (e : EventId) : Prop
  | armed : tr.countP (LoopObs.isFunc e) = 0 → (∀ k, .timerRun e k ∉ s.stack) → OneShot tr s e
  | firing {k} : .timerRun e k ∈ s.stack → tr.countP (LoopObs.isFunc e) + k ≤ 1 → OneShot tr s e
  | fired : Silenced s e → tr.countP (LoopObs.isFunc e) ≤ 1 → OneShot tr s e

theorem OneShot.count_le (h : OneShot tr s e) : tr.countP (LoopObs.isFunc e) ≤ 1 := by
  cases h with
  | armed hcount _ => omega
  | firing _ hcount => omega
  | fired _ hcount => exact hcount

/-- The loop over the occurrences ends with a `Cancel`. -/
theorem silenced_of_oneShot {fd k : Nat} {i : LoopInput} {rest : List LoopFrame}
    (hclass : cfg.handler e = .timerHandler true fd) (hcall : HandlerCall cfg (callFrames s.stack))
    (hstack : s.stack = .timerRun e k :: rest) (hs : step cfg (.loop i) s = some (s', o)) :
    (k = 0 ∧ Silenced s' e ∧ o = []) ∨
      ∃ k', k = k' + 1 ∧ .timerRun e k' ∈ s'.stack ∧ o = [.func e] := by
  obtain ⟨-, -, n, hrun, rfl, rfl⟩ := step_loop hs hstack
  cases i <;> simp only [runFrame, reduceCtorEq] at hrun
  obtain rfl := Option.some.inj hrun
  have hbelow : ∀ f ∈ rest, f.fires e = false := by
    intro f hf
    by_contra hfires
    rw [hstack, callFrames_cons rfl] at hcall
    have hlevel : f.level = 3 := by
      cases f <;> first | rfl | exact absurd rfl hfires
    have hf' := mem_callFrames.mpr ⟨hf, hlevel⟩
    generalize callFrames rest = frames at hcall hf'
    cases hcall with
    | run _ => exact hfires (by rw [List.mem_singleton.mp hf']; rfl)
  cases k with
  | succ k' => exact .inr ⟨k', rfl, by simp [timerRun, resume], rfl⟩
  | zero =>
      refine .inl ⟨rfl, ⟨?_, ?_, ?_⟩, by simp [timerRun, hclass]⟩
      · simp [timerRun, hclass, resume]
      · intro hmem
        have hmem : .timerRead e ∈ rest := by simpa [timerRun, hclass, resume] using hmem
        exact absurd (hbelow _ hmem) (by simp [LoopFrame.fires])
      · intro k' hmem
        have hmem : .timerRun e (k' + 1) ∈ rest := by simpa [timerRun, hclass, resume] using hmem
        exact absurd (hbelow _ hmem) (by simp [LoopFrame.fires])

/-- **One step of a one-shot timer.** The call of `HandleEvents` that has run its `func_` ends
with a `Cancel`. -/
theorem OneShot.step {fd : Nat} (h : OneShot tr s e)
    (hclass : cfg.handler e = .timerHandler true fd)
    (hcall : HandlerCall cfg (callFrames s.stack)) (hok : ExpiresOnce e l s)
    (hmove : Move cfg s l s' o) (hs : EventLoop.step cfg l s = some (s', o)) :
    OneShot (tr ++ o) s' e := by
  have htimer : cfg.timer e = true := by simp [Config.timer, hclass]
  have hquiet (hx : .func e ∉ o) :
      (tr ++ o).countP (LoopObs.isFunc e) = tr.countP (LoopObs.isFunc e) := by
    rw [List.countP_append, countP_eq_zero hx, Nat.add_zero]
  cases h with
  | fired hsilent hcount =>
      exact .fired (hsilent.move hmove) (by rwa [hquiet (hsilent.not_func htimer hs)])
  | armed hcount hno =>
      have hx : .func e ∉ o := fun hx => by
        obtain ⟨k, rest, hstack, -, -⟩ := func_of_step htimer hs hx
        exact hno (k + 1) (by simp [hstack])
      by_cases hrun : ∃ k, .timerRun e k ∈ s'.stack
      · obtain ⟨k, hk⟩ := hrun
        refine .firing hk ?_
        rw [hquiet hx, hcount, Nat.zero_add]
        have hframe := timerFrame_of_move hmove hk (e := e) (by simp [LoopFrame.fires])
        generalize hf : LoopFrame.timerRun e k = f at hframe
        cases hframe with
        | stays hin => exact absurd (hf ▸ hin) (hno k)
        | entered => exact absurd hf (by simp)
        | @expired occurrences rest hstack =>
            obtain ⟨-, rfl⟩ := LoopFrame.timerRun.inj hf
            exact Nat.le_trans (Nat.min_le_left _ _) (hok occurrences rest rfl hstack)
        | @occurrence _ k' _ hstack => exact absurd (by simp [hstack]) (hno (k' + 1))
      · exact .armed ((hquiet hx).trans hcount) fun k hk => hrun ⟨k, hk⟩
  | @firing k hk hcount =>
      rcases frame_stays hmove hk with hstays | ⟨i, rest, rfl, hstack, -⟩
      · by_cases hx : .func e ∈ o
        · -- the frame is the one at the top, and the top one does not stay
          obtain ⟨k', rest, hstack, hs', ho⟩ := func_of_step htimer hs hx
          have hfires : (LoopFrame.timerRun e (k' + 1)).fires e = true := by simp [LoopFrame.fires]
          have heq := eq_of_fires hcall hk (by simp [hstack]) hfires
          obtain ⟨-, rfl⟩ := LoopFrame.timerRun.inj heq
          refine .firing (k := k') (by simp [hs']) ?_
          rw [ho, List.countP_append, countP_func]
          omega
        · exact .firing hstays (by rwa [hquiet hx])
      · rcases silenced_of_oneShot hclass hcall hstack hs with
          ⟨rfl, hsilent, rfl⟩ | ⟨k', rfl, hk', rfl⟩
        · exact .fired hsilent (by simpa using hcount)
        · refine .firing hk' ?_
          rw [List.countP_append, countP_func]
          omega

/-- No `func_` begins in a transition that ends in an exception. -/
theorem func_notMem_of_crashed (htimer : cfg.timer e = true) (hs : step cfg l s = some (s', o))
    (hc : s'.crashed ≠ none) : .func e ∉ o := by
  intro hx
  obtain ⟨k, rest, -, heq, -⟩ := func_of_step htimer hs hx
  have hnone := not_crashed_of_step hs
  rw [heq] at hc
  exact hc hnone

/-- The run lemma. -/
theorem oneShot_of_run {fd : Nat} (hclass : cfg.handler e = .timerHandler true fd)
    (h : GuardedRun (loopSystem cfg) (ExpiresOnce e) init tr s) :
    tr.countP (LoopObs.isFunc e) ≤ 1 ∧ (s.crashed = none → OneShot tr s e) := by
  induction h with
  | refl => exact ⟨Nat.zero_le _, fun _ => .armed rfl (by simp [init])⟩
  | @step tr s l s' o hrun hok hs ih =>
      have hc := not_crashed_of_step hs
      have hone := ih.2 hc
      by_cases hc' : s'.crashed = none
      · have hone' := hone.step hclass (handlerCall_of_run hrun hc) hok (move_of_step hs hc') hs
        exact ⟨hone'.count_le, fun _ => hone'⟩
      · refine ⟨?_, fun hc'' => absurd hc'' hc'⟩
        have hx := func_notMem_of_crashed (e := e) (by simp [Config.timer, hclass]) hs hc'
        rw [List.countP_append, countP_eq_zero hx, Nat.add_zero]
        exact ih.1

end

/-! ### Cancel takes effect -/

/-- **A `Cancel` on the thread of the loop is effective at once** where it is not made from a
`func_` of the timer itself with occurrences left; and a one-shot timer calls `func_` once. -/
theorem cancel_at_once (cfg : Config) (e : EventId) :
    (∀ tr s s' o tr' s'', Run (loopSystem cfg) init tr s → (∀ k, .timerRun e (k + 1) ∉ s.stack) →
      step cfg (.call .loop (.cancel e)) s = some (s', o) → Run (loopSystem cfg) s' tr' s'' →
      .func e ∉ tr') ∧
    ∀ fd tr s, cfg.handler e = .timerHandler true fd →
      GuardedRun (loopSystem cfg) (ExpiresOnce e) init tr s → tr.countP (LoopObs.isFunc e) ≤ 1 := by
  refine ⟨fun tr s s' o tr' s'' h hno hs h' => ?_, fun fd tr s hclass h => ?_⟩
  · obtain ⟨htimer, hsilent⟩ := silenced_of_cancel h hno hs
    exact (hsilent.run htimer h').1
  · exact (oneShot_of_run hclass h).1

/-! ### Schedules of Cancel -/

/-- An interval timer is read with so many expirations; its `func_` runs for the first time. -/
def firstOccurrence (occurrences : Nat) : List LoopLabel :=
  timerRegistered 1 ++ [.edge 4, .loop (.wait fun _ _ => some EPollEvents.EPOLLIN), .loop .none,
    .loop .none, .loop (.read (.ok occurrences)), .loop .none]

/-- `Cancel` goes on, `func_` returns, and the loop over the occurrences goes on. -/
def afterCancel : List LoopLabel :=
  List.replicate 4 (.proceed .loop) ++ List.replicate 2 (.loop .none)

/-- The state in which `func_` has called `Cancel`. -/
def canceled (occurrences : Nat) : EventLoop :=
  ((step timers (.call .loop (.cancel 1)) (after timers (firstOccurrence occurrences)).1).getD
    (init, [])).1

/-- What is shown after that. -/
def shownAfterCancel (occurrences : Nat) : List LoopObs :=
  ((exec (loopSystem timers) (fun _ _ => true) afterCancel (canceled occurrences)).getD
    (init, [])).2

/-- The schedule with so many expirations, cut where `func_` calls `Cancel`. -/
theorem canceled_run (occurrences : Nat)
    (h : (exec (loopSystem timers) (fun _ _ => true) (firstOccurrence occurrences) init).isSome =
      true)
    (hstep : (step timers (.call .loop (.cancel 1))
      (after timers (firstOccurrence occurrences)).1).isSome = true)
    (h' : (exec (loopSystem timers) (fun _ _ => true) afterCancel (canceled occurrences)).isSome =
      true) : ∃ s o s'',
        Run (loopSystem timers) init (after timers (firstOccurrence occurrences)).2 s ∧
      s = (after timers (firstOccurrence occurrences)).1 ∧
      step timers (.call .loop (.cancel 1)) s = some (canceled occurrences, o) ∧
      Run (loopSystem timers) (canceled occurrences) (shownAfterCancel occurrences) s'' := by
  obtain ⟨⟨s', o⟩, hs'⟩ := Option.isSome_iff_exists.mp hstep
  obtain ⟨⟨s'', tr'⟩, hs''⟩ := Option.isSome_iff_exists.mp h'
  refine ⟨_, o, s'', run_after _ h, rfl, ?_, ?_⟩
  · simp only [canceled, hs', Option.getD_some]
  · simp only [shownAfterCancel, hs'', Option.getD_some]
    exact .of_exec (fun _ _ _ => trivial) hs''

/-- A `func_` cancels its timer with an occurrence left, and is called again. -/
theorem canceled_func_called : ∃ tr s s' o tr' s'', Run (loopSystem timers) init tr s ∧
    step timers (.call .loop (.cancel 1)) s = some (s', o) ∧ Run (loopSystem timers) s' tr' s'' ∧
    .func 1 ∈ tr' := by
  obtain ⟨s, o, s'', h, -, hs, h'⟩ := canceled_run 2 rfl rfl rfl
  refine ⟨_, s, _, o, _, s'', h, hs, h', ?_⟩
  exact func_mem_of_any rfl

/-- The timerfd has expired once at the most when it is read. -/
def readsOne (l : LoopLabel) (_ : EventLoop) : Bool :=
  match l with
  | .loop (.read (.ok n)) => decide (n ≤ 1)
  | _ => true

/-- A `func_` that cancels its interval timer in the last occurrence, and a one-shot timer. -/
theorem cancel_at_once_lastOccurrence : .func 1 ∉ shownAfterCancel 1 ∧
    (after timers timerFired).2.countP (LoopObs.isFunc 0) ≤ 1 := by
  obtain ⟨s, o, s'', h, hs', hs, h'⟩ := canceled_run 1 rfl rfl rfl
  refine ⟨(cancel_at_once timers 1).1 _ s _ o _ s'' h ?_ hs h', ?_⟩
  · subst hs'
    intro k hmem
    have hstack : (after timers (firstOccurrence 1)).1.stack =
        [.callback 1, .timerRun 1 0, .release 1, .batch [] false] := rfl
    rw [hstack] at hmem
    simp at hmem
  · have hexec : exec (loopSystem timers) readsOne timerFired init =
        some (after timers timerFired) := rfl
    refine (cancel_at_once timers 0).2 3 _ _ rfl
      (.of_exec (fun l s hcheck occurrences rest hl hstack => ?_) hexec)
    subst hl
    exact of_decide_eq_true hcheck

end EventLoop

end Libael
