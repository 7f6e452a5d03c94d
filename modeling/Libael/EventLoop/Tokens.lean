import Libael.EventLoop.Changes

/-!
# Libael.EventLoop.Tokens

A ledger for the elements of the pending queues: every element that has been pushed is
in exactly one place, a queue, the container a drain has swapped out, or the trace of
what has been finalized. `tokens` counts all three; a step adds one token when a thread
pushes, and moves tokens about otherwise.
-/

namespace Libael

/-- The elements a frame has still to finalize. -/
def LoopFrame.elements : LoopFrame → List Element
  | .finalize elements => elements
  | _ => []

/-- The elements finalized so far. -/
def finalized (tr : List LoopObs) : List Element :=
  tr.filterMap fun x => match x with | .finalize element => some element | _ => none

@[simp] theorem finalized_append (tr o : List LoopObs) :
    finalized (tr ++ o) = finalized tr ++ finalized o := List.filterMap_append

theorem finalized_minor {o : List LoopObs} (h : ∀ x ∈ o, x.minor = true) : finalized o = [] := by
  refine List.filterMap_eq_nil_iff.mpr fun x hx => ?_
  have hminor := h x hx
  cases x <;> first | rfl | exact absurd hminor (by simp [LoopObs.minor])

/-- What has been finalized is seen in the trace. -/
theorem mem_finalized {tr : List LoopObs} {element : Element} :
    element ∈ finalized tr ↔ .finalize element ∈ tr := by
  constructor
  · intro h
    obtain ⟨x, hx, heq⟩ := List.mem_filterMap.mp h
    cases x with
    | finalize element' =>
        obtain rfl := Option.some.inj heq
        exact hx
    | _ => exact absurd heq (by simp)
  · intro h
    exact List.mem_filterMap.mpr ⟨_, h, rfl⟩

namespace EventLoop

/-- The elements a drain has swapped out and not finalized yet. -/
def draining (stack : List LoopFrame) : List Element := stack.flatMap LoopFrame.elements

/-- How often `element` is in the queues. -/
def queuedCount (pending : Queue → List Element) (element : Element) : Nat :=
  (pending .add).count element + (pending .remove).count element + (pending .ready).count element

/-- How often `element` is anywhere. -/
def tokens (tr : List LoopObs) (s : EventLoop) (element : Element) : Nat :=
  queuedCount s.epoll.eventsPending element + (draining s.stack).count element +
    (finalized tr).count element

@[simp] theorem draining_cons (f : LoopFrame) (rest : List LoopFrame) :
    draining (f :: rest) = f.elements ++ draining rest := rfl

@[simp] theorem draining_append (frames rest : List LoopFrame) :
    draining (frames ++ rest) = draining frames ++ draining rest := List.flatMap_append

theorem draining_light {frames : List LoopFrame} (h : ∀ g ∈ frames, g.elements = []) :
    draining frames = [] := List.flatMap_eq_nil_iff.mpr h

theorem elements_of_light {f : LoopFrame} (h : f.light = true) : f.elements = [] := by
  cases f with
  | finalize elements =>
      cases elements with
      | nil => rfl
      | cons element elements => exact absurd h (by simp [LoopFrame.light])
  | _ => rfl

theorem LightFrames.draining {n : LoopNext} (h : LightFrames n) : draining n.frames = [] := by
  refine draining_light fun g hg => ?_
  rcases h with hlight | ⟨final, hframes, -⟩
  · exact elements_of_light (hlight g hg).1
  · rw [hframes] at hg
    rw [List.mem_singleton.mp hg]
    rfl

theorem draining_processNotification (s : EventLoop) (n : Notification) :
    draining (s.processNotification n) = [] := by
  rcases processNotification_spec s n with ⟨-, heq⟩ | ⟨-, heq | ⟨fd, e, events, -, heq⟩⟩
  all_goals rw [heq]; rfl

/-- Nothing is being drained where no frame is above the swaps. -/
theorem draining_of_level {stack : List LoopFrame} (h : ∀ g ∈ stack, g.level ≤ 1) :
    draining stack = [] := by
  refine draining_light fun g hg => ?_
  have hlevel := h g hg
  cases g <;> first | rfl | exact absurd hlevel (by simp [LoopFrame.level])

theorem queuedCount_update (pending : Queue → List Element) (q : Queue) (elements : List Element)
    (element : Element) : queuedCount (Function.update pending q elements) element +
      (pending q).count element = queuedCount pending element + elements.count element := by
  cases q <;> simp [queuedCount, Function.update] <;> omega

/-- A push adds one token. -/
theorem queuedCount_push (s : EventLoop) (a : Agent) (element element' : Element) :
    queuedCount (s.push a element).epoll.eventsPending element' =
      queuedCount s.epoll.eventsPending element' + if element' = element then 1 else 0 := by
  have hcount : [element].count element' = if element' = element then 1 else 0 := by
    by_cases h : element' = element
    · simp [h]
    · simp [h, Ne.symm h]
  have hupdate := queuedCount_update s.epoll.eventsPending element.queue
    (s.epoll.eventsPending element.queue ++ [element]) element'
  rw [List.count_append, hcount] at hupdate
  rw [push_eventsPending]
  omega

/-- The token a transition adds. -/
def pushes (s : EventLoop) : LoopLabel → Option Element
  | .proceed a =>
    match s.calls.lookup a with
    | some (.pushing element) => some element
    | _ => none
  | _ => none

/-- A step that neither pushes nor finalizes. -/
theorem tokens_congr {l : LoopLabel} {tr o : List LoopObs} {s s' : EventLoop}
    (hpushes : s.pushes l = none) (hpending : s'.epoll.eventsPending = s.epoll.eventsPending)
    (hdraining : draining s'.stack = draining s.stack) (ho : finalized o = []) (element : Element) :
    tokens (tr ++ o) s' element =
      tokens tr s element + if s.pushes l = some element then 1 else 0 := by
  rw [hpushes, if_neg (by simp), Nat.add_zero]
  unfold tokens
  rw [hpending, hdraining, finalized_append, ho, List.append_nil]

/-- A swap moves the elements of the queue to the stack. -/
theorem tokens_swap {tr : List LoopObs} {s : EventLoop} {q : Queue} {rest : List LoopFrame}
    (hstack : s.stack = .handleElements q :: rest) (element : Element) :
    tokens tr { s with
        epoll := (s.epoll.swapElements q).2
        stack := .finalize (s.epoll.eventsPending q) ::
          .dispose (s.epoll.eventsPending q) :: rest } element = tokens tr s element := by
  have hupdate := queuedCount_update s.epoll.eventsPending q [] element
  unfold tokens
  rw [hstack]
  simp only [draining_cons, LoopFrame.elements, List.nil_append,
    List.count_append, EPoll.swapElements]
  simp only [List.count_nil] at hupdate
  omega

/-- A finalize function moves its element from the stack to the trace. -/
theorem tokens_finalize {cfg : Config} {i : LoopInput} {tr : List LoopObs} {s : EventLoop}
    {element : Element} {elements : List Element} {rest : List LoopFrame} {n : LoopNext}
    (hstack : s.stack = .finalize (element :: elements) :: rest)
    (hrun : s.finalizeElement cfg i element = some n) (element' : Element) :
    tokens (tr ++ n.obs) { n.loop with stack := n.frames ++ .finalize elements :: rest } element' =
      tokens tr s element' := by
  obtain ⟨hsame, -, hframes, o, hobs, ho⟩ := finalizeElement_spec hrun
  have hdraining : draining n.frames = [] := by
    rcases hframes with heq | ⟨events, heq⟩ <;> rw [heq] <;> rfl
  have hfin : finalized (.finalize element :: o) = [element] := by
    change element :: finalized o = [element]
    rw [finalized_minor ho]
  unfold tokens
  rw [hstack, hobs]
  dsimp only
  rw [hsame.eventsPending]
  simp only [draining_append, hdraining, List.nil_append, draining_cons, LoopFrame.elements,
    List.count_append, finalized_append, hfin, List.count_cons, List.count_nil]
  omega

/-- **The ledger.** A transition adds the token of the element it pushes, and no other. A swap
moves the tokens of a queue to the stack, a finalize function one from there to the trace. -/
theorem tokens_step {cfg : Config} {l : LoopLabel} {s s' : EventLoop} {tr o : List LoopObs}
    (hmove : Move cfg s l s' o) (element : Element) :
    tokens (tr ++ o) s' element =
      tokens tr s element + if s.pushes l = some element then 1 else 0 := by
  cases hmove with
  | call hmay hreq hquiet hobs =>
      exact tokens_congr rfl (by rw [hquiet.epoll]) (by rw [hquiet.stack]) (finalized_minor hobs) _
  | attachRefused hp _ | closeReturns hp _ | created hp _ _ | closeBegins hp _ | erased hp _ =>
      refine tokens_congr ?_ ?_ ?_ ?_ element
      · simp [pushes, hp]
      all_goals rfl
  | @pushed a element' hp hlock =>
      have hpushes : (s.pushes (.proceed a) = some element) ↔ element = element' := by
        simp only [pushes, hp, Option.some.injEq]
        exact eq_comm
      simp only [hpushes]
      unfold tokens
      rw [queuedCount_push, push_stack, finalized_append]
      have hnil : finalized [LoopObs.queued element'] = [] := rfl
      rw [hnil, List.append_nil]
      omega
  | signalled hp =>
      refine tokens_congr ?_ ?_ ?_ ?_ element
      · simp [pushes, hp]
      · rw [complete_epoll]
        exact EPoll.wakeup_eventsPending s.epoll
      · rw [complete_stack]
      · rfl
  | woken hp =>
      refine tokens_congr ?_ (EPoll.wakeup_eventsPending s.epoll) ?_ ?_ element
      · simp [pushes, hp]
      all_goals rfl
  | light hstack hidle hlight hrun hquiet hobs hframes hnested =>
      refine tokens_congr rfl (by rw [hquiet.epoll]) ?_ (finalized_minor hobs) _
      rw [hstack]
      simp [hframes.draining, elements_of_light hlight]
  | wait hstack hidle =>
      refine tokens_congr ?_ ?_ ?_ ?_ element
      · rfl
      · rfl
      · rw [hstack]
        dsimp only
        split <;> rfl
      · rfl
  | notification hstack hidle =>
      refine tokens_congr ?_ ?_ ?_ ?_ element
      · rfl
      · rfl
      · rw [hstack]
        simp [draining_processNotification, LoopFrame.elements]
      · rfl
  | drain hstack hidle => refine tokens_congr ?_ ?_ ?_ ?_ element <;> rfl
  | drained hstack hidle =>
      refine tokens_congr ?_ ?_ ?_ ?_ element
      · rfl
      · rfl
      · rw [hstack]
        rfl
      · rfl
  | swapped hstack hidle hlock =>
      rw [List.append_nil]
      exact tokens_swap hstack element
  | finalized hstack hidle hrun hthrew => exact tokens_finalize hstack hrun element
  | edge he => refine tokens_congr ?_ (EPoll.queueItem_eventsPending ..) ?_ ?_ element <;> rfl
  | expire => refine tokens_congr ?_ ?_ ?_ ?_ element <;> rfl
  | destroyed he hun hepoll =>
      rcases hepoll with ⟨-, rfl, rfl⟩ | ⟨-, rfl, rfl⟩
      all_goals refine tokens_congr ?_ ?_ ?_ ?_ element <;> rfl

theorem tokens_init (element : Element) : tokens [] init element = 0 := by
  simp [tokens, queuedCount, init, EPoll.new, draining, LoopFrame.elements, Libael.finalized]

end EventLoop

end Libael
