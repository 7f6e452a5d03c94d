import Libael.EventLoop.Registration

/-!
# Libael.EventLoop.Removal

The order of registration and removal. The two requests of an event travel in queues of
their own, swapped at two instants, and `RemoveFinalize` throws where it comes first. It
never does **in a run in which no swap of the remove queue takes the removal of an event
whose registration is still on its way**.
-/

namespace Libael

open Lts

namespace EventLoop

/-! ### The exceptions of the loop thread -/

/-- The exceptions a frame throws. -/
inductive Throws (cfg : Config) (s : EventLoop) : LoopFrame → Exception → Prop
  | system {f errno what} : Throws cfg s f (.systemError errno what)
  | notFound {e elements} : cfg.valid e = true → s.epoll.events (cfg.handle e) = none →
      Throws cfg s (.finalize (.remove e :: elements)) (.text "event not found")
  | notInternal {e} : e ∉ s.internalEventHandlers →
      Throws cfg s (.removeInternal e) (.text "event handler found")

theorem Throws.notFound_inv {cfg : Config} {s : EventLoop} {f : LoopFrame} {ex : Exception}
    (h : Throws cfg s f ex) (hex : ex = .text "event not found") :
    ∃ e elements, f = .finalize (.remove e :: elements) ∧ cfg.valid e = true ∧
      s.epoll.events (cfg.handle e) = none := by
  cases h with
  | system => exact absurd hex (by simp)
  | notFound hvalid hnone => exact ⟨_, _, rfl, hvalid, hnone⟩
  | notInternal _ => exact absurd hex (by simp)

/-- The exceptions of the finalize functions. -/
theorem throws_of_finalizeElement {cfg : Config} {s : EventLoop} {i : LoopInput} {element : Element}
    {n : LoopNext} {ex : Exception} (h : s.finalizeElement cfg i element = some n)
    (hthrew : n.threw = some ex) (elements : List Element) :
    Throws cfg s (.finalize (element :: elements)) ex := by
  cases finalizeRun h with
  | ctlAdd _ _ | ctlDel _ _ _ =>
      obtain ⟨errno, -, rfl⟩ := Option.map_eq_some_iff.mp hthrew
      exact .system
  | notFound hvalid hnone =>
      obtain rfl := Option.some.inj hthrew
      exact .notFound hvalid hnone
  | added _ | removed _ | ignored _ | ready _ => exact absurd hthrew (by simp)

/-- Where the loop throws, and what. -/
theorem throws_of_runFrame {cfg : Config} {s : EventLoop} {rest : List LoopFrame} {i : LoopInput}
    {f : LoopFrame} {n : LoopNext} {ex : Exception} (h : s.runFrame cfg rest i f = some n)
    (hthrew : n.threw = some ex) : Throws cfg s f ex := by
  cases frameRun h with
  | light _ hrun =>
      cases hrun with
      | notInternal he =>
          obtain rfl := Option.some.inj hthrew
          exact .notInternal he
      | readFails _ =>
          obtain rfl := Option.some.inj hthrew
          exact .system
      | _ => exact absurd hthrew (by simp)
  | waitFails =>
      obtain rfl := Option.some.inj hthrew
      exact .system
  | finalize hn' => exact throws_of_finalizeElement hn' hthrew _
  | _ => exact absurd hthrew (by simp)

/-- A frame finalizes the element at its head, or none. -/
theorem finalized_of_runFrame {cfg : Config} {s : EventLoop} {rest : List LoopFrame} {i : LoopInput}
    {f : LoopFrame} {n : LoopNext} (h : s.runFrame cfg rest i f = some n) :
    finalized n.obs = [] ∨
      ∃ element elements, f = .finalize (element :: elements) ∧ finalized n.obs = [element] := by
  cases frameRun h with
  | light hlight _ => exact .inl (finalized_minor (runFrame_light hlight h).1)
  | @finalize element elements _ _ hn' =>
      obtain ⟨-, -, -, o, hobs, ho⟩ := finalizeElement_spec hn'
      refine .inr ⟨element, elements, rfl, ?_⟩
      dsimp only
      rw [hobs]
      change element :: finalized o = [element]
      rw [finalized_minor ho]
  | _ => exact .inl rfl

/-- A step finalizes the element at the head of the innermost frame, or none. -/
theorem finalized_of_step {cfg : Config} {l : LoopLabel} {s s' : EventLoop} {o : List LoopObs}
    (h : step cfg l s = some (s', o)) : finalized o = [] ∨
      ∃ element elements rest, s.stack = .finalize (element :: elements) :: rest ∧
        finalized o = [element] := by
  cases hc : s'.crashed with
  | none =>
      cases tableMove_of_move (move_of_step h hc) with
      | same _ _ ho => exact .inl ho
      | closed _ _ _ _ _ _ ho => exact .inl ho
      | finalized element elements rest n hstack hfin _ ho =>
          exact .inr ⟨element, elements, rest, hstack, by rw [ho, finalized_obs hfin]⟩
  | some ex =>
      obtain ⟨-, hcrash⟩ := crash_of_step h hc
      cases hcrash with
      | modify ho => exact .inl (finalized_minor ho)
      | erase _ _ => exact .inl rfl
      | @loop i f rest n _ hstack hrun _ =>
          rcases finalized_of_runFrame hrun with ho | ⟨element, elements, rfl, ho⟩
          · exact .inl ho
          · exact .inr ⟨element, elements, rest, hstack, ho⟩

/-! ### Registration precedes removal -/

/-- No swap of the remove queue takes the removal of an event with a descriptor while the
event is still in the add queue, or on its way there. -/
def InOrder (cfg : Config) (l : LoopLabel) (s : EventLoop) : Prop :=
  ∀ rest, l = .loop .none → s.stack = .handleElements .remove :: rest →
    ∀ e, cfg.valid e = true → .remove e ∈ s.epoll.eventsPending .remove →
      .add e ∉ s.epoll.eventsPending .add ∧ s.Nobody (.pushing (.add e))

/-- The test of `InOrder`. -/
def inOrder (cfg : Config) (l : LoopLabel) (s : EventLoop) : Bool :=
  match l, s.stack with
  | .loop .none, .handleElements .remove :: _ =>
    (s.epoll.eventsPending .remove).all fun element =>
      !cfg.valid element.event || (!(s.epoll.eventsPending .add).contains (.add element.event) &&
        s.calls.entries.all fun c => c.2 != .pushing (.add element.event))
  | _, _ => true

/-- The test is enough for the condition. -/
theorem inOrder_spec {cfg : Config} (l : LoopLabel) (s : EventLoop) (h : inOrder cfg l s = true) :
    InOrder cfg l s := by
  rintro rest rfl hstack e hvalid hmem
  unfold inOrder at h
  rw [hstack] at h
  have helement := List.all_eq_true.mp h _ hmem
  simp only [Element.event, hvalid, Bool.not_true, Bool.false_or, Bool.and_eq_true,
    Bool.not_eq_true', List.contains_eq_mem, decide_eq_false_iff_not] at helement
  refine ⟨helement.1, fun a ha => ?_⟩
  have hcall := List.all_eq_true.mp helement.2 ⟨a, _⟩ (AList.mem_lookup_iff.mp ha)
  exact absurd hcall (by simp)

/-- The removals that are being drained are those of events that have been registered. -/
def RemovesAdded (cfg : Config) (tr : List LoopObs) (s : EventLoop) : Prop :=
  ∀ e, cfg.valid e = true → .remove e ∈ draining s.stack → Added tr e

/-- What is drained after a step was drained before it, or has just been swapped out. -/
theorem draining_of_move {cfg : Config} {l : LoopLabel} {s s' : EventLoop} {o : List LoopObs}
    (hmove : Move cfg s l s' o) {element : Element} (h : element ∈ draining s'.stack) :
    element ∈ draining s.stack ∨ ∃ q rest, l = .loop .none ∧ s.stack = .handleElements q :: rest ∧
      element ∈ s.epoll.eventsPending q := by
  cases hmove with
  | call _ _ hquiet _ => rw [hquiet.stack] at h; exact .inl h
  | pushed _ _ => rw [push_stack] at h; exact .inl h
  | signalled _ => rw [complete_stack] at h; exact .inl h
  | light hstack _ _ _ _ _ hframes _ =>
      dsimp only at h
      rw [draining_append, hframes.draining, List.nil_append] at h
      rw [hstack, draining_cons]
      exact .inl (List.mem_append_right _ h)
  | wait hstack _ =>
      rw [hstack]
      dsimp only at h
      split at h <;> exact .inl h
  | notification hstack _ =>
      rw [hstack]
      dsimp only at h
      rw [draining_append, draining_processNotification] at h
      exact .inl h
  | drained hstack _ =>
      rw [hstack]
      exact .inl h
  | @swapped q rest hstack _ _ =>
      simp only [draining_cons, LoopFrame.elements, List.nil_append, List.mem_append] at h
      rcases h with h | h
      · exact .inr ⟨q, rest, rfl, hstack, h⟩
      · exact .inl (by rw [hstack]; exact h)
  | @finalized i element' elements rest n hstack _ hrun hthrew =>
      rw [hstack]
      dsimp only at h
      have hnil : draining n.frames = [] := by
        obtain ⟨-, -, heq | ⟨events, heq⟩, -⟩ := finalizeElement_spec hrun <;> rw [heq] <;> rfl
      rw [draining_append, hnil, List.nil_append] at h
      simp only [draining_cons, LoopFrame.elements, List.mem_append, List.mem_cons] at h ⊢
      exact .inl (h.imp_left .inr)
  | _ => exact .inl h

/-- Where nothing is being drained, an element whose request has been made is in its queue
or has been finalized. -/
theorem finalized_of_idle {tr : List LoopObs} {s : EventLoop} (hdraining : Draining s)
    (hnil : draining s.stack = []) {element : Element} (ht : tokens tr s element = 1)
    (hno : element ∉ s.epoll.eventsPending element.queue) : element ∈ finalized tr := by
  have hcount : ∀ q', (s.epoll.eventsPending q').count element = 0 := fun q' => by
    refine List.count_eq_zero.mpr fun hmem => ?_
    rw [hdraining.sorted q' element hmem] at hno
    exact hno hmem
  unfold tokens queuedCount at ht
  rw [hnil, hcount, hcount, hcount] at ht
  refine List.count_pos_iff.mp ?_
  simp only [List.count_nil] at ht
  omega

/-- When a queue is about to be swapped, an element whose request has been made is in a
queue or has been finalized. -/
theorem finalized_of_swap {tr : List LoopObs} {s : EventLoop} (hlayered : Layered s.stack)
    (hdraining : Draining s) {q : Queue} {rest : List LoopFrame}
    (hstack : s.stack = .handleElements q :: rest) {element : Element}
    (ht : tokens tr s element = 1) (hno : element ∉ s.epoll.eventsPending element.queue) :
    element ∈ finalized tr :=
  finalized_of_idle hdraining (draining_of_swap hlayered hstack) ht hno

/-- The drained removals are those of registered events, in every state that a run in order
reaches without a crash. -/
theorem removesAdded_of_run {cfg : Config} {tr : List LoopObs} {s : EventLoop}
    (h : GuardedRun (loopSystem cfg) (InOrder cfg) init tr s) (hc : s.crashed = none) :
    RemovesAdded cfg tr s := by
  refine invariant_of_run (I := fun tr s => RemovesAdded cfg tr s) ?_ ?_ h hc
  · intro e _ hmem
    exact absurd hmem (by simp [init, draining, LoopFrame.elements])
  · intro tr s l s' o hrun hc ih hok hmove e hvalid hmem
    rcases draining_of_move hmove hmem with hmem | ⟨q, rest, hl, hstack, hmem⟩
    · exact (ih e hvalid hmem).append o
    · have hdraining := draining_of_run hrun hc
      have hlife := life_of_run hrun hc
      obtain rfl : Queue.remove = q := hdraining.sorted q _ hmem
      obtain ⟨hadd, hnobody⟩ := hok rest hl hstack e hvalid hmem
      -- the removal is asked for, so the registration has been, and it is not in the queue
      have htoken : 0 < tokens tr s (.remove e) := by
        have hpos := List.count_pos_iff.mpr hmem
        unfold tokens queuedCount
        omega
      have hatt := (hlife.closed_of_tokens htoken).1
      have hone := hlife.added_of_attached hatt hnobody
      have hadded : Added tr e :=
        finalized_of_swap (layered_of_run hrun) hdraining hstack hone hadd
      exact hadded.append o

/-- `RemoveFinalize` finds the event it is called for. -/
theorem registered_of_removing {cfg : Config} {tr : List LoopObs} {s : EventLoop}
    (h : GuardedRun (loopSystem cfg) (InOrder cfg) init tr s) (hc : s.crashed = none) {e : EventId}
    (hvalid : cfg.valid e = true) {elements : List Element} {rest : List LoopFrame}
    (hstack : s.stack = .finalize (.remove e :: elements) :: rest) :
    Added tr e ∧ s.epoll.events (cfg.handle e) = some e := by
  have hadded : Added tr e := removesAdded_of_run h hc e hvalid (by
    rw [hstack]
    exact List.mem_append_left _ List.mem_cons_self)
  have hnew : ¬Removed tr e := notMem_finalized (life_of_run h hc).tokens_remove_le hstack
  exact ⟨hadded, (registered_of_run h hc).registered e hvalid hadded hnew⟩

/-- The process is not ended by an event that is not found. -/
theorem not_crashed_notFound {cfg : Config} {tr : List LoopObs} {s : EventLoop}
    (h : GuardedRun (loopSystem cfg) (InOrder cfg) init tr s) :
    s.crashed ≠ some (.text "event not found") := by
  intro hcrash
  cases h with
  | refl => exact absurd hcrash (by simp [init])
  | @step tr s l _ o hrun hok hs =>
      have hc := not_crashed_of_step hs
      cases (crash_of_step hs hcrash).2 with
      | erase hp hnot => exact hnot ((life_of_run hrun hc).mem_of_erasing hp)
      | loop hstack hf hthrew =>
          obtain ⟨e, elements, rfl, hvalid, hnone⟩ :=
            (throws_of_runFrame hf hthrew).notFound_inv rfl
          have hin := (registered_of_removing hrun hc hvalid hstack).2
          rw [hnone] at hin
          exact absurd hin (by simp)

/-- A step finalizes the registration of an event before its removal. -/
theorem added_of_step {cfg : Config} {tr : List LoopObs} {s s' : EventLoop} {l : LoopLabel}
    {o : List LoopObs} (h : GuardedRun (loopSystem cfg) (InOrder cfg) init tr s)
    (hs : step cfg l s = some (s', o)) {e : EventId} (hvalid : cfg.valid e = true)
    (hmem : .finalize (.remove e) ∈ o) : Added tr e := by
  rcases finalized_of_step hs with hnil | ⟨element, elements, rest, hstack, hone⟩
  · exact absurd (mem_finalized.mpr hmem) (by simp [hnil])
  · have heq := mem_finalized.mpr hmem
    rw [hone, List.mem_singleton] at heq
    subst heq
    exact (registered_of_removing h (not_crashed_of_step hs) hvalid hstack).1

/-- A step does not finalize the registration of an event that has been removed, nor of one
that it removes. -/
theorem not_added_of_step {cfg : Config} {ok : LoopLabel → EventLoop → Prop} {tr : List LoopObs}
    {s s' : EventLoop} {l : LoopLabel} {o : List LoopObs}
    (h : GuardedRun (loopSystem cfg) ok init tr s) (hs : step cfg l s = some (s', o)) {e : EventId}
    (hvalid : cfg.valid e = true) (hmem : .finalize (.add e) ∈ o) :
    ¬Removed tr e ∧ .finalize (.remove e) ∉ o := by
  have hc := not_crashed_of_step hs
  have hadd := mem_finalized.mpr hmem
  rcases finalized_of_step hs with hnil | ⟨element, elements, rest, hstack, hone⟩
  · exact absurd hadd (by simp [hnil])
  · rw [hone, List.mem_singleton] at hadd
    subst hadd
    refine ⟨fun hrem => ?_, fun hrem => ?_⟩
    · have hadded := (registered_of_run h hc).order e hvalid hrem
      exact notMem_finalized (life_of_run h hc).tokens_add_le hstack hadded
    · have hrem := mem_finalized.mpr hrem
      rw [hone] at hrem
      exact absurd hrem (by simp)

/-- **Registration precedes removal.** In a run in which no swap of the remove queue takes
the removal of an event that is still to be registered, `RemoveFinalize` is called on an
event with a descriptor after `AddFinalize`, which is not called on it again, and
`event not found` is not thrown. -/
theorem registration_precedes_removal (cfg : Config) {tr : List LoopObs} {s : EventLoop}
    (h : GuardedRun (loopSystem cfg) (InOrder cfg) init tr s) :
    s.crashed ≠ some (.text "event not found") ∧
      ∀ e, cfg.valid e = true → ∀ before later, tr = before ++ .finalize (.remove e) :: later →
        .finalize (.add e) ∈ before ∧ .finalize (.add e) ∉ later := by
  refine ⟨not_crashed_notFound h, fun e hvalid before later heq => ⟨?_, fun hmem => ?_⟩⟩
  · refine h.precedes ?_ before later heq
    intro tr s l s' o hrun _ hs before' later' ho
    refine List.mem_append_left _ (mem_finalized.mp (added_of_step hrun hs hvalid ?_))
    rw [ho]
    simp
  · have horder : tr.Pairwise fun x y => x = .finalize (.remove e) → y ≠ .finalize (.add e) := by
      refine h.pairwise ?_
      intro tr s l s' o hrun _ hs
      refine ⟨List.pairwise_of_forall_mem_list fun x hx y hy => ?_, fun x hx y hy => ?_⟩
      · rintro rfl rfl
        exact (not_added_of_step hrun hs hvalid hy).2 hx
      · rintro rfl rfl
        exact (not_added_of_step hrun hs hvalid hy).1 (mem_finalized.mpr hx)
    rw [heq, List.pairwise_append, List.pairwise_cons] at horder
    exact horder.2.1.1 _ hmem rfl rfl

/-- A handler is attached, and its event closed once it is registered. -/
def closedRegistered : List LoopLabel :=
  [.call (.user 0) (.attach 0), .proceed (.user 0), .proceed (.user 0), .proceed (.user 0),
    .loop .none, .loop (.wait fun _ _ => none), .loop .none, .loop .none, .loop .none,
    .loop .none, .loop (.ctl 0 none), .loop .none, .loop .none,
    .call (.user 0) (.closeEvent 0), .proceed (.user 0), .proceed (.user 0), .proceed (.user 0),
    .proceed (.user 0), .loop .none, .loop (.ctl 0 none)]

theorem registration_precedes_removal_closedRegistered :
    .finalize (.add 0) ∈ (after userHandlers closedRegistered).2.take 6 := by
  have hexec : exec (loopSystem userHandlers) (inOrder userHandlers) closedRegistered init =
      some (after userHandlers closedRegistered) := rfl
  have hrun := GuardedRun.of_exec inOrder_spec hexec
  exact ((registration_precedes_removal userHandlers hrun).2 0 rfl _
    ((after userHandlers closedRegistered).2.drop 7) rfl).1

/-- Another handler has woken the loop up. Between the swap of the add queue and the swap
of the remove queue a thread attaches a handler and closes its event. -/
def closedBetweenSwaps : List LoopLabel :=
  [.call (.user 0) (.attach 1), .proceed (.user 0), .proceed (.user 0), .proceed (.user 0),
    .loop .none, .loop (.wait fun _ _ => none), .loop .none, .loop .none, .loop .none,
    .loop .none, .loop (.ctl 0 none), .loop .none, .loop .none,
    .call (.user 0) (.attach 0), .proceed (.user 0), .proceed (.user 0), .proceed (.user 0),
    .call (.user 0) (.closeEvent 0), .proceed (.user 0), .proceed (.user 0), .proceed (.user 0),
    .proceed (.user 0), .loop .none, .loop .none]

theorem removed_before_added :
    ∃ tr s, Run (loopSystem userHandlers) init tr s ∧ userHandlers.valid 0 = true ∧
      s.crashed = some (.text "event not found") ∧
      .finalize (.remove 0) ∈ tr ∧ .finalize (.add 0) ∉ tr := by
  refine ⟨_, _, run_after closedBetweenSwaps rfl, rfl, rfl, ?_, ?_⟩
  · exact mem_finalized.mp (List.mem_of_getElem? (i := 1) rfl)
  · exact fun h => absurd (mem_finalized.mpr h) (by decide)

end EventLoop

end Libael
