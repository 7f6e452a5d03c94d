import Libael.EventLoop.Objects

/-!
# Libael.EventLoop.Drain

The handling of the eventfd in `Process`: the add queue, the remove queue and the ready queue
are drained one after the other, each swapped out under `lock_` first. `Stages` says which
frames of this there can be on the stack at once.

* `Draining` keeps the frames in such a stage and every element in the queue of its kind. The
  stage is a function of the frames alone, so steps of other threads and of handlers keep it
  for free.
* `Fifo` follows from it: what has been queued is what has been finalized, what is being
  drained and what is still in the queue, in this order. A swap moves the whole queue behind
  what has been finalized, which needs that nothing was being drained (`draining_of_swap`).
-/

namespace Libael

open Lts

/-- The queues drained after `q`. -/
def Queue.following : Queue → List LoopFrame
  | .add => [.handleElements .remove, .handleElements .ready]
  | .remove => [.handleElements .ready]
  | .ready => []

/-- How far the handling of the eventfd has got. -/
inductive Stages : List LoopFrame → Prop
  | idle : Stages []
  | reading : Stages [.eventfdRead]
  | swapping (q : Queue) : Stages (.handleElements q :: q.following)
  | finalizing (q : Queue) (elements all : List Element) :
      (∀ element ∈ all, element.queue = q) → elements <:+ all →
      Stages (.finalize elements :: .dispose all :: q.following)
  | disposing (q : Queue) (all : List Element) : (∀ element ∈ all, element.queue = q) →
      Stages (.dispose all :: q.following)

theorem Stages.following (q : Queue) : Stages q.following := by
  cases q with
  | add => exact .swapping .remove
  | remove => exact .swapping .ready
  | ready => exact .idle

/-- What is left after the innermost frame of a stage. -/
theorem Stages.rest_of_done {f : LoopFrame} {rest : List LoopFrame} (h : Stages (f :: rest))
    (hdone : f = .finalize [] ∨ ∃ all, f = .dispose all) : Stages rest := by
  cases h with
  | reading => simp at hdone
  | swapping q => simp at hdone
  | finalizing q elements all hall hsuffix => exact .disposing q all hall
  | disposing q all hall => exact .following q

/-- There is nothing left of the handling of the eventfd after its first frame. -/
theorem Stages.eq_nil_of_reading {rest : List LoopFrame} (h : Stages (.eventfdRead :: rest)) :
    rest = [] := by
  cases h with
  | reading => rfl

theorem Stages.eq_following {q : Queue} {rest : List LoopFrame}
    (h : Stages (.handleElements q :: rest)) : rest = q.following := by
  cases h with
  | swapping q => rfl

/-- The elements that are being finalized are of one queue, and below them are their
container and the queues that come after. -/
theorem Stages.of_finalize {elements : List Element} {rest : List LoopFrame}
    (h : Stages (.finalize elements :: rest)) :
    ∃ q all, (∀ element ∈ all, element.queue = q) ∧ elements <:+ all ∧
      rest = .dispose all :: q.following := by
  cases h with
  | finalizing q elements all hall hsuffix => exact ⟨q, all, hall, hsuffix, rfl⟩

namespace EventLoop

/-- The frames of the handling of the eventfd. -/
def drainFrames (stack : List LoopFrame) : List LoopFrame := stack.filter LoopFrame.inDrain

theorem drainFrames_append (frames rest : List LoopFrame) :
    drainFrames (frames ++ rest) = drainFrames frames ++ drainFrames rest := List.filter_append ..

theorem drainFrames_cons_of_true {f : LoopFrame} (h : f.inDrain = true) (rest : List LoopFrame) :
    drainFrames (f :: rest) = f :: drainFrames rest := List.filter_cons_of_pos h

theorem drainFrames_cons_of_false {f : LoopFrame} (h : f.inDrain = false) (rest : List LoopFrame) :
    drainFrames (f :: rest) = drainFrames rest := List.filter_cons_of_neg (by simp [h])

theorem drainFrames_nil {frames : List LoopFrame} (h : ∀ g ∈ frames, g.inDrain = false) :
    drainFrames frames = [] := List.filter_eq_nil_iff.mpr fun g hg => by simp [h g hg]

theorem LightFrames.drainFrames {n : LoopNext} (h : LightFrames n) : drainFrames n.frames = [] := by
  refine drainFrames_nil fun g hg => ?_
  rcases h with hlight | ⟨final, hframes, -⟩
  · exact (hlight g hg).2
  · rw [hframes] at hg
    rw [List.mem_singleton.mp hg]
    rfl

/-- Every element is in its own queue, and the queues are drained in their order. -/
structure Draining (s : EventLoop) : Prop where
  sorted : ∀ q, ∀ element ∈ s.epoll.eventsPending q, element.queue = q
  stages : Stages (drainFrames s.stack)

theorem draining_init : Draining init where
  sorted q element h := absurd h (by simp [init, EPoll.new])
  stages := .idle

/-- Neither the queues nor the handling of the eventfd have changed. -/
theorem Draining.of_same {s s' : EventLoop} (h : Draining s)
    (hpending : s'.epoll.eventsPending = s.epoll.eventsPending)
    (hstack : drainFrames s'.stack = drainFrames s.stack) : Draining s' where
  sorted := by rw [hpending]; exact h.sorted
  stages := by rw [hstack]; exact h.stages

/-- A finalize function starts handlers, never another drain. -/
theorem drainFrames_finalizes {cfg : Config} {s : EventLoop} {element : Element} {n : LoopNext}
    (h : Finalizes cfg s element n) : drainFrames n.frames = [] := by
  refine drainFrames_nil fun g hg => ?_
  have hpair : ∀ e events, g ∈ [LoopFrame.handleEvents e events, .release e] →
      g.inDrain = false := by
    intro e events hg'
    simp only [List.mem_cons, List.not_mem_nil, or_false] at hg'
    obtain rfl | rfl := hg' <;> rfl
  cases h with
  | addNoHandle _ | ready _ =>
      dsimp only at hg
      split at hg
      · exact hpair _ _ hg
      · exact absurd hg List.not_mem_nil
  | _ => exact absurd hg List.not_mem_nil

/-- **One step keeps the drain in a stage.** Reading the eventfd starts it, a swap puts the
elements on top of the queues that follow, and the last element of one queue leads to the next.
-/
theorem draining_step {cfg : Config} {l : LoopLabel} {s s' : EventLoop} {o : List LoopObs}
    (h : Draining s) (hlayered : Layered s.stack) (hmove : Move cfg s l s' o) : Draining s' := by
  cases hmove with
  | call _ _ hquiet _ => exact h.of_same (by rw [hquiet.epoll]) (by rw [hquiet.stack])
  | @pushed a element hp hlock =>
      refine ⟨fun q element' hel => ?_, by rw [push_stack]; exact h.stages⟩
      rw [push_eventsPending] at hel
      by_cases hq : q = element.queue
      · rw [hq, Function.update_self] at hel
        rcases List.mem_append.mp hel with hel | hel
        · rw [hq]; exact h.sorted _ element' hel
        · rw [List.mem_singleton.mp hel, hq]
      · rw [Function.update_of_ne hq] at hel
        exact h.sorted q element' hel
  | signalled hp =>
      refine h.of_same ?_ (by rw [complete_stack])
      rw [complete_epoll]
      exact EPoll.wakeup_eventsPending s.epoll
  | woken hp => exact h.of_same (EPoll.wakeup_eventsPending s.epoll) rfl
  | @light i f rest n hstack hidle hlight hrun hquiet hobs hframes hnested =>
      refine ⟨by dsimp only; rw [hquiet.epoll]; exact h.sorted, ?_⟩
      have hstages := h.stages
      rw [hstack] at hstages
      dsimp only
      rw [drainFrames_append, hframes.drainFrames, List.nil_append]
      cases hdrain : f.inDrain with
      | false =>
          rw [drainFrames_cons_of_false hdrain] at hstages
          exact hstages
      | true =>
          rw [drainFrames_cons_of_true hdrain] at hstages
          refine hstages.rest_of_done ?_
          cases f with
          | finalize elements =>
              cases elements with
              | nil => exact .inl rfl
              | cons element elements => exact absurd hlight (by simp [LoopFrame.light])
          | dispose all => exact .inr ⟨all, rfl⟩
          | eventfdRead => exact absurd hlight (by simp [LoopFrame.light])
          | handleElements q => exact absurd hlight (by simp [LoopFrame.light])
          | _ => exact absurd hdrain (by simp [LoopFrame.inDrain])
  | @wait poll final rest hstack hidle =>
      refine h.of_same rfl ?_
      rw [hstack]
      dsimp only
      split <;> rfl
  | @notification n ns final rest hstack hidle =>
      -- `Process` is outermost, so the handling of the eventfd can only begin here
      rw [hstack] at hlayered
      obtain rfl : rest = [] := hlayered.eq_nil rfl
      refine ⟨h.sorted, ?_⟩
      dsimp only
      rw [drainFrames_append]
      rcases processNotification_spec s n with ⟨-, heq⟩ | ⟨-, heq | ⟨fd, e, events, -, heq⟩⟩
      · rw [heq]; exact .reading
      · rw [heq]; exact .idle
      · rw [heq]; exact .idle
  | drain hstack hidle => exact h.of_same rfl rfl
  | @drained rest hstack hidle =>
      have hstages := h.stages
      rw [hstack, drainFrames_cons_of_true rfl] at hstages
      refine ⟨h.sorted, ?_⟩
      change Stages (.handleElements .add :: .handleElements .remove :: .handleElements .ready ::
        drainFrames rest)
      rw [hstages.eq_nil_of_reading]
      exact .swapping .add
  | @swapped q rest hstack hidle hlock =>
      have hstages := h.stages
      rw [hstack, drainFrames_cons_of_true rfl] at hstages
      refine ⟨fun q' element hel => ?_, ?_⟩
      · by_cases hq : q' = q
        · simp [EPoll.swapElements, hq] at hel
        · simp only [EPoll.swapElements, Function.update_of_ne hq] at hel
          exact h.sorted q' element hel
      · change Stages (.finalize (s.epoll.eventsPending q) :: .dispose (s.epoll.eventsPending q) ::
          drainFrames rest)
        rw [hstages.eq_following]
        exact .finalizing q _ _ (h.sorted q) (List.suffix_refl _)
  | @finalized i element elements rest n hstack hidle hrun hthrew =>
      have hstages := h.stages
      rw [hstack, drainFrames_cons_of_true rfl] at hstages
      obtain ⟨q, all, hall, hsuffix, hrest⟩ := hstages.of_finalize
      refine ⟨?_, ?_⟩
      · dsimp only
        rw [(finalizeElement_spec hrun).1.eventsPending]
        exact h.sorted
      · dsimp only
        rw [drainFrames_append, drainFrames_finalizes (finalizes hrun hthrew), List.nil_append,
          drainFrames_cons_of_true rfl, hrest]
        exact .finalizing q elements all hall ((List.suffix_cons element elements).trans hsuffix)
  | edge he => exact h.of_same (EPoll.queueItem_eventsPending ..) rfl
  | destroyed he hun hepoll =>
      refine h.of_same ?_ rfl
      rcases hepoll with ⟨-, rfl, -⟩ | ⟨-, rfl, -⟩ <;> rfl
  | _ => exact h.of_same rfl rfl

/-- The queues are drained in their order, in every state reached without a crash. -/
theorem draining_of_run {cfg : Config} {ok : LoopLabel → EventLoop → Prop} {tr : List LoopObs}
    {s : EventLoop} (h : GuardedRun (loopSystem cfg) ok init tr s) (hc : s.crashed = none) :
    Draining s :=
  invariant_of_run (I := fun _ s => Draining s) draining_init
    (fun hrun _ ih _ hmove => draining_step ih (layered_of_run hrun) hmove) h hc

/-- Nothing is being drained when a queue is about to be swapped. -/
theorem draining_of_swap {s : EventLoop} (hlayered : Layered s.stack) {q : Queue}
    {rest : List LoopFrame} (hstack : s.stack = .handleElements q :: rest) :
    draining s.stack = [] := by
  refine draining_of_level fun g hg => ?_
  rw [hstack] at hg hlayered
  rcases List.mem_cons.mp hg with rfl | hg
  · exact Nat.le_refl _
  · exact hlayered.level_le hg

/-! ### The order of a queue -/

end EventLoop

/-- The elements that go through `q`. -/
def onQueue (q : Queue) (elements : List Element) : List Element :=
  elements.filter fun element => element.queue = q

@[simp] theorem onQueue_append (q : Queue) (elements elements' : List Element) :
    onQueue q (elements ++ elements') = onQueue q elements ++ onQueue q elements' :=
  List.filter_append ..

theorem onQueue_eq_self {q : Queue} {elements : List Element}
    (h : ∀ element ∈ elements, element.queue = q) : onQueue q elements = elements :=
  List.filter_eq_self.mpr fun element hel => by simp [h element hel]

theorem onQueue_eq_nil {q q' : Queue} (hq : q' ≠ q) {elements : List Element}
    (h : ∀ element ∈ elements, element.queue = q') : onQueue q elements = [] :=
  List.filter_eq_nil_iff.mpr fun element hel => by simp [h element hel, hq]

/-- The elements that have been queued, in this order. -/
def queuedElements (tr : List LoopObs) : List Element :=
  tr.filterMap fun x => match x with | .queued element => some element | _ => none

@[simp] theorem queuedElements_append (tr o : List LoopObs) :
    queuedElements (tr ++ o) = queuedElements tr ++ queuedElements o := List.filterMap_append

theorem queuedElements_minor {o : List LoopObs} (h : ∀ x ∈ o, x.minor = true) :
    queuedElements o = [] := by
  refine List.filterMap_eq_nil_iff.mpr fun x hx => ?_
  have hminor := h x hx
  cases x <;> first | rfl | exact absurd hminor (by simp [LoopObs.minor])

namespace EventLoop

/-- What has been queued on `q`: finalized, being drained, or still in the queue. -/
def Fifo (tr : List LoopObs) (s : EventLoop) (q : Queue) : Prop :=
  onQueue q (queuedElements tr) =
    onQueue q (finalized tr) ++ onQueue q (draining s.stack) ++ s.epoll.eventsPending q

theorem Fifo.of_same {tr o : List LoopObs} {s s' : EventLoop} {q : Queue} (h : Fifo tr s q)
    (hpending : s'.epoll.eventsPending = s.epoll.eventsPending)
    (hdraining : draining s'.stack = draining s.stack) (hqueued : queuedElements o = [])
    (ho : finalized o = []) : Fifo (tr ++ o) s' q := by
  unfold Fifo
  rw [hpending, hdraining, queuedElements_append, finalized_append, hqueued, ho, List.append_nil,
    List.append_nil]
  exact h

/-- **First in, first out.** A push puts its element at the end of the queue, a swap moves the
whole queue to the stack, and a finalize loop takes the first element from there to the trace.
Nothing else touches any of the three. -/
theorem fifo_step {cfg : Config} {l : LoopLabel} {s s' : EventLoop} {tr o : List LoopObs}
    {q : Queue} (h : Fifo tr s q) (hdraining : Draining s) (hlayered : Layered s.stack)
    (hmove : Move cfg s l s' o) : Fifo (tr ++ o) s' q := by
  cases hmove with
  | call _ _ hquiet hobs =>
      exact h.of_same (by rw [hquiet.epoll]) (by rw [hquiet.stack]) (queuedElements_minor hobs)
        (finalized_minor hobs)
  | @pushed a element _ _ =>
      show onQueue q (queuedElements (tr ++ [.queued element])) = _
      rw [queuedElements_append, onQueue_append, h, push_stack, push_eventsPending,
        finalized_append]
      have hnil : finalized [LoopObs.queued element] = [] := rfl
      rw [hnil, List.append_nil]
      show _ ++ onQueue q [element] = _
      have hsorted : ∀ el ∈ [element], el.queue = element.queue := fun el hel => by
        rw [List.mem_singleton.mp hel]
      by_cases hq : element.queue = q
      · subst hq
        have hself := onQueue_eq_self hsorted
        rw [hself, Function.update_self, List.append_assoc]
      · have hother := onQueue_eq_nil hq hsorted
        rw [hother, Function.update_of_ne (Ne.symm hq), List.append_nil]
  | signalled _ =>
      refine h.of_same ?_ ?_ rfl rfl
      · rw [complete_epoll]; exact EPoll.wakeup_eventsPending s.epoll
      · rw [complete_stack]
  | woken _ => exact h.of_same (EPoll.wakeup_eventsPending s.epoll) rfl rfl rfl
  | @light i f rest n hstack _ hlight _ hquiet hobs hframes _ =>
      refine h.of_same (by rw [hquiet.epoll]) ?_ (queuedElements_minor hobs) (finalized_minor hobs)
      rw [hstack]
      simp [hframes.draining, elements_of_light hlight]
  | @wait poll final rest hstack _ =>
      refine h.of_same rfl ?_ rfl rfl
      rw [hstack]
      dsimp only
      split <;> rfl
  | @notification n ns final rest hstack _ =>
      refine h.of_same rfl ?_ rfl rfl
      rw [hstack]
      simp [draining_processNotification, LoopFrame.elements]
  | drained hstack _ =>
      refine h.of_same rfl ?_ rfl rfl
      rw [hstack]
      rfl
  | @swapped q' rest hstack _ _ =>
      -- the elements of the queue have moved to the stack, where there were none
      have hnone := draining_of_swap hlayered hstack
      unfold Fifo at h
      rw [hnone] at h
      rw [hstack] at hnone
      simp only [draining_cons, LoopFrame.elements, List.nil_append] at hnone
      show onQueue q (queuedElements (tr ++ [])) = _
      rw [List.append_nil, h]
      simp only [draining_cons, LoopFrame.elements, hnone, List.append_nil, EPoll.swapElements]
      by_cases hq : q' = q
      · subst hq
        rw [Function.update_self, onQueue_eq_self (hdraining.sorted q')]
        simp [onQueue]
      · rw [Function.update_of_ne (Ne.symm hq), onQueue_eq_nil hq (hdraining.sorted q')]
        simp [onQueue]
  | @finalized i element elements rest n hstack _ hrun _ =>
      -- the element has moved to the trace
      obtain ⟨hsame, -, hframes, o, hobs, ho⟩ := finalizeElement_spec hrun
      have hnil : draining n.frames = [] := by
        rcases hframes with heq | ⟨events, heq⟩ <;> rw [heq] <;> rfl
      have hfin : finalized (.finalize element :: o) = [element] := by
        show element :: finalized o = [element]
        rw [finalized_minor ho]
      have hqueued : queuedElements (.finalize element :: o) = [] := by
        show queuedElements o = []
        exact queuedElements_minor ho
      unfold Fifo at h
      rw [hstack] at h
      unfold Fifo
      rw [hobs, queuedElements_append, hqueued, List.append_nil, h, hsame.eventsPending]
      show onQueue q (finalized tr) ++
          onQueue q (draining (.finalize (element :: elements) :: rest)) ++ _ =
        onQueue q (finalized (tr ++ .finalize element :: o)) ++
          onQueue q (draining (n.frames ++ .finalize elements :: rest)) ++ _
      rw [finalized_append, hfin, draining_append, hnil, List.nil_append, draining_cons,
        draining_cons]
      show onQueue q (finalized tr) ++ onQueue q ([element] ++ elements ++ draining rest) ++ _ =
        onQueue q (finalized tr ++ [element]) ++ onQueue q (elements ++ draining rest) ++ _
      simp only [onQueue_append, List.append_assoc]
  | edge _ => exact h.of_same (EPoll.queueItem_eventsPending ..) rfl rfl rfl
  | destroyed _ _ hepoll =>
      rcases hepoll with ⟨-, rfl, rfl⟩ | ⟨-, rfl, rfl⟩ <;> exact h.of_same rfl rfl rfl rfl
  | _ => exact h.of_same rfl rfl rfl rfl

theorem fifo_of_run {cfg : Config} {ok : LoopLabel → EventLoop → Prop} {tr : List LoopObs}
    {s : EventLoop} (h : GuardedRun (loopSystem cfg) ok init tr s) (hc : s.crashed = none)
    (q : Queue) : Fifo tr s q :=
  invariant_of_run (I := fun tr s => Fifo tr s q) (by cases q <;> rfl)
    (fun hrun hc₁ ih _ hmove =>
      fifo_step ih (draining_of_run hrun hc₁) (layered_of_run hrun) hmove) h hc

end EventLoop

end Libael
