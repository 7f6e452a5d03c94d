import Libael.EventLoop.Removal

/-!
# Libael.EventLoop.Readiness

The order of registration and ready notifications. `ReadyFinalize` ignores an event that
is not registered; after `Attach` has returned that happens only where a swap of the ready
queue takes a notification while the registration is still in the add queue. **In a run
without such a swap every notification of an open event reaches its handler.**
-/

namespace Libael

open Lts

namespace EventLoop

/-- No swap of the ready queue takes a notification made after `Attach` had returned, for
an open event with a descriptor and a living handler, while the event is still in the add
queue. -/
def ReadyInOrder (cfg : Config) (l : LoopLabel) (s : EventLoop) : Prop :=
  ∀ rest, l = .loop .none → s.stack = .handleElements .ready :: rest →
    ∀ e events, cfg.valid e = true → .ready e events true ∈ s.epoll.eventsPending .ready →
      e ∈ s.events → (s.handlers e).alive = true → .add e ∉ s.epoll.eventsPending .add

/-- The test of `ReadyInOrder`. -/
def readyInOrder (cfg : Config) (l : LoopLabel) (s : EventLoop) : Bool :=
  match l, s.stack with
  | .loop .none, .handleElements .ready :: _ =>
    (s.epoll.eventsPending .ready).all fun element =>
      !cfg.valid element.event || !s.events.contains element.event ||
        !(s.epoll.eventsPending .add).contains (.add element.event)
  | _, _ => true

theorem readyInOrder_spec {cfg : Config} (l : LoopLabel) (s : EventLoop)
    (h : readyInOrder cfg l s = true) : ReadyInOrder cfg l s := by
  rintro rest rfl hstack e events hvalid hmem hev _
  unfold readyInOrder at h
  rw [hstack] at h
  have helement := List.all_eq_true.mp h _ hmem
  simpa [Element.event, hvalid, hev] using helement

/-- A request that has been made stays made. -/
theorem tokens_add_of_move {cfg : Config} {l : LoopLabel} {s s' : EventLoop} {tr o : List LoopObs}
    (hlife : Life tr s) (hmove : Move cfg s l s' o) {e : EventId} (h : tokens tr s (.add e) = 1) :
    tokens (tr ++ o) s' (.add e) = 1 := by
  have hle := (life_step hlife hmove).tokens_add_le (e := e)
  have hstep : tokens (tr ++ o) s' (.add e) = _ := tokens_step hmove (.add e)
  omega

/-- A ready element made after `Attach` had returned is for an event whose registration is
in the queue or past it. -/
structure ReadyAdded (tr : List LoopObs) (s : EventLoop) : Prop where
  calls : ∀ a e events, s.calls.lookup a = some (.pushing (.ready e events true)) →
    tokens tr s (.add e) = 1
  pending : ∀ q e events, .ready e events true ∈ s.epoll.eventsPending q →
    tokens tr s (.add e) = 1

theorem readyAdded_init : ReadyAdded [] init where
  calls a e events h := absurd h (by simp [init])
  pending q e events h := absurd h (by simp [init, EPoll.new])

/-- `Attach` has returned, so the registration is in the queue or past it. -/
theorem tokens_add_of_attachReturned {tr : List LoopObs} {s : EventLoop} (hlife : Life tr s)
    {e : EventId} (h : s.attachReturned e = true) : tokens tr s (.add e) = 1 := by
  unfold attachReturned at h
  rw [Bool.and_eq_true, List.all_eq_true] at h
  refine hlife.added_of_attached h.1 fun a ha => ?_
  have hcall := h.2 ⟨a, _⟩ (AList.mem_lookup_iff.mp ha)
  exact absurd hcall (by simp [Progress.adds])

/-- **One step keeps the registration ahead of the notification.** -/
theorem readyAdded_step {cfg : Config} {l : LoopLabel} {s s' : EventLoop} {tr o : List LoopObs}
    (h : ReadyAdded tr s) (hlife : Life tr s) (hmove : Move cfg s l s' o) :
    ReadyAdded (tr ++ o) s' where
  calls a e events ha := by
    refine tokens_add_of_move hlife hmove ?_
    rcases call_of_move hmove ha with ha | hnew
    · exact h.calls a e events ha
    · cases hnew with
      | starts _ hp =>
          generalize hready : Progress.pushing (.ready e events true) = p at hp
          cases hp with
          | ready hatt =>
              simp only [Progress.pushing.injEq, Element.ready.injEq] at hready
              obtain ⟨rfl, -, hret⟩ := hready
              exact tokens_add_of_attachReturned hlife hret.symm
          | _ => exact absurd hready (by simp)
  pending q e events hmem := by
    refine tokens_add_of_move hlife hmove ?_
    rcases pending_of_move hmove hmem with hmem | ⟨a, ha⟩
    · exact h.pending q e events hmem
    · exact h.calls a e events ha

theorem readyAdded_of_run {cfg : Config} {ok : LoopLabel → EventLoop → Prop} {tr : List LoopObs}
    {s : EventLoop} (h : GuardedRun (loopSystem cfg) ok init tr s) (hc : s.crashed = none) :
    ReadyAdded tr s :=
  invariant_of_run (I := fun tr s => ReadyAdded tr s) readyAdded_init
    (fun hrun hc ih _ hmove => readyAdded_step ih (life_of_run hrun hc) hmove) h hc

/-! ### While the ready queue is drained -/

/-- Everything that is being drained is a notification. -/
def DrainsReady (s : EventLoop) : Prop := ∀ element ∈ draining s.stack, element.queue = .ready

/-- There is something left of the drain. -/
def Busy (s : EventLoop) : Prop := draining s.stack ≠ []

theorem not_busy_of_swap {s : EventLoop} (hlayered : Layered s.stack) {q : Queue}
    {rest : List LoopFrame} (hstack : s.stack = .handleElements q :: rest) : ¬Busy s :=
  fun hbusy => hbusy (draining_of_swap hlayered hstack)

/-- As long as something of such a drain is left, only notifications are drained, and no removal
is finalized. -/
theorem drainsReady_step {cfg : Config} {l : LoopLabel} {s s' : EventLoop} {o : List LoopObs}
    (h : DrainsReady s) (hlayered : Layered s.stack) (hbusy : Busy s)
    (hs : step cfg l s = some (s', o)) : DrainsReady s' ∧ ∀ e, .remove e ∉ finalized o := by
  constructor
  · intro element hmem
    cases hc : s'.crashed with
    | some ex =>
        rw [(crash_of_step hs hc).1] at hmem
        exact absurd hmem List.not_mem_nil
    | none =>
        rcases draining_of_move (move_of_step hs hc) hmem with hmem | ⟨q, rest, -, hstack, -⟩
        · exact h element hmem
        · exact absurd hbusy (not_busy_of_swap hlayered hstack)
  · intro e hmem
    rcases finalized_of_step hs with hnil | ⟨element, elements, rest, hstack, hone⟩
    · rw [hnil] at hmem
      exact absurd hmem List.not_mem_nil
    · rw [hone, List.mem_singleton] at hmem
      have hqueue := h element (by rw [hstack]; exact List.mem_append_left _ List.mem_cons_self)
      rw [← hmem] at hqueue
      exact absurd hqueue (by simp [Element.queue])

/-- From the swap of the ready queue until its elements are finalized, an event that was
open and registered at the swap stays registered. -/
theorem registered_of_segment {cfg : Config} {tr₁ tr₂ : List LoopObs} {s₁ s : EventLoop}
    (h : GuardedRun (loopSystem cfg) (ReadyInOrder cfg) init tr₁ s₁) {rest : List LoopFrame}
    (hswap : s₁.stack = .handleElements .ready :: rest)
    (hseg : Segment (loopSystem cfg) (ReadyInOrder cfg) Busy (.loop .none) s₁ tr₂ s) {e : EventId}
    (hadded : Added tr₁ e) (hopen : e ∈ s₁.events) :
    DrainsReady s ∧ Added (tr₁ ++ tr₂) e ∧ ¬Removed (tr₁ ++ tr₂) e := by
  have hkeep : ∀ {tr o : List LoopObs}, Added tr e ∧ ¬Removed tr e →
      (∀ e, .remove e ∉ finalized o) →
      Added (tr ++ o) e ∧ ¬Removed (tr ++ o) e := by
    intro tr o ⟨hadd, hrem⟩ ho
    refine ⟨hadd.append o, fun hrem' => ?_⟩
    unfold Removed at hrem'
    rw [finalized_append, List.mem_append] at hrem'
    exact hrem'.elim hrem (ho e)
  refine hseg.invariant (I := fun tr s => DrainsReady s ∧ Added (tr₁ ++ tr) e ∧
    ¬Removed (tr₁ ++ tr) e)
    ?_ ?_
  · intro s o hok hs
    have hs : step cfg (.loop .none) s₁ = some (s, o) := hs
    have hc := not_crashed_of_step hs
    have hdraining := draining_of_run h hc
    have hnil := draining_of_swap (layered_of_run h) hswap
    have hdrains : DrainsReady s := by
      intro element hmem
      cases hc' : s.crashed with
      | some ex =>
          rw [(crash_of_step hs hc').1] at hmem
          exact absurd hmem List.not_mem_nil
      | none =>
          rcases draining_of_move (move_of_step hs hc') hmem with hmem | ⟨q, rest', -, hstack, hmem⟩
          · rw [hnil] at hmem
            exact absurd hmem List.not_mem_nil
          · rw [hswap] at hstack
            obtain ⟨hq, -⟩ := List.cons.inj hstack
            obtain rfl := LoopFrame.handleElements.inj hq
            exact hdraining.sorted _ element hmem
    have ho : ∀ e, .remove e ∉ finalized o := by
      intro e hmem
      rcases finalized_of_step hs with hfin | ⟨element, elements, rest', hstack, -⟩
      · rw [hfin] at hmem
        exact absurd hmem List.not_mem_nil
      · rw [hswap] at hstack
        exact absurd hstack (by simp)
    exact ⟨hdrains, hkeep ⟨hadded, not_removed_of_mem (life_of_run h hc) hopen⟩ ho⟩
  · intro tr s l s' o hseg' ih hbusy hok hs
    have hlayered := layered_of_run (h.trans hseg'.toRun)
    obtain ⟨hdrains, ho⟩ := drainsReady_step ih.1 hlayered hbusy hs
    rw [← List.append_assoc]
    exact ⟨hdrains, hkeep ih.2 ho⟩

/-- `ReadyFinalize` of a registered event calls its handler. -/
theorem step_readyFinalize {cfg : Config} {s s' : EventLoop} {e : EventId} {events : Events}
    {attached : Bool} {elements : List Element} {rest : List LoopFrame} {i : LoopInput}
    {o : List LoopObs}
    (hstack : s.stack = .finalize (.ready e events attached :: elements) :: rest)
    (hin : s.epoll.events (cfg.handle e) = some e) (hs : step cfg (.loop i) s = some (s', o)) :
    o = [.finalize (.ready e events attached)] ∧
      ((s.handlers e).alive = true →
        s'.stack = .handleEvents e events :: .release e :: .finalize elements :: rest) := by
  have hc := not_crashed_of_step hs
  unfold step at hs
  rw [if_neg (by simp [hc])] at hs
  dsimp only at hs
  rw [hstack] at hs
  split at hs
  · rename_i f rest' hframe hidle
    obtain ⟨rfl, rfl⟩ := List.cons.inj hframe
    simp only [runFrame, finalizeElement] at hs
    cases i with
    | none =>
        simp only [readyFinalize, hin] at hs
        obtain ⟨rfl, rfl⟩ := by simpa [resume] using hs
        exact ⟨rfl, fun halive => by simp [halive]⟩
    | _ => exact absurd hs (by simp [readyFinalize])
  · exact absurd hs (by simp)

/-- **Ready notifications are not dropped.** In a run in which no swap of the ready queue
takes a notification of an event that is still to be registered, let a notification made
after `Attach` had returned be swapped out while its event is open. `ReadyFinalize` does
not ignore it, and calls the handler if that is alive. -/
theorem ready_not_dropped (cfg : Config) {tr₁ tr₂ : List LoopObs} {s₁ s : EventLoop}
    (h : GuardedRun (loopSystem cfg) (ReadyInOrder cfg) init tr₁ s₁) {rest₁ : List LoopFrame}
    (hswap : s₁.stack = .handleElements .ready :: rest₁)
    (hseg : Segment (loopSystem cfg) (ReadyInOrder cfg) Busy (.loop .none) s₁ tr₂ s) {e : EventId}
    {events : Events} (hvalid : cfg.valid e = true)
    (hqueued : .ready e events true ∈ s₁.epoll.eventsPending .ready) (hopen : e ∈ s₁.events)
    (halive : (s₁.handlers e).alive = true) {elements : List Element} {rest : List LoopFrame}
    (hstack : s.stack = .finalize (.ready e events true :: elements) :: rest) {i : LoopInput}
    {s' : EventLoop} {o : List LoopObs} (hs : (loopSystem cfg).step (.loop i) s = some (s', o)) :
    .ignored e ∉ o ∧ ((s.handlers e).alive = true →
      s'.stack = .handleEvents e events :: .release e :: .finalize elements :: rest) := by
  have hs : step cfg (.loop i) s = some (s', o) := hs
  have hrun := h.trans hseg.toRun
  have hc := not_crashed_of_step hs
  have hfirst : ReadyInOrder cfg (.loop .none) s₁ ∧ s₁.crashed = none := by
    refine hseg.invariant (I := fun _ _ => ReadyInOrder cfg (.loop .none) s₁ ∧ s₁.crashed = none)
      ?_ (fun _ ih _ _ _ => ih)
    intro s o hok hs
    have hs : step cfg (.loop .none) s₁ = some (s, o) := hs
    exact ⟨hok, not_crashed_of_step hs⟩
  have hno := hfirst.1 rest₁ rfl hswap e events hvalid hqueued hopen halive
  have hone := (readyAdded_of_run h hfirst.2).pending .ready e events hqueued
  have hadded : Added tr₁ e :=
    finalized_of_swap (layered_of_run h) (draining_of_run h hfirst.2) hswap hone hno
  obtain ⟨-, hadd, hrem⟩ := registered_of_segment h hswap hseg hadded hopen
  have hin := (registered_of_run hrun hc).registered e hvalid hadd hrem
  obtain ⟨ho, hdispatch⟩ := step_readyFinalize hstack hin hs
  exact ⟨by simp [ho], hdispatch⟩

/-- A handler is attached and registered, and then made ready. The loop is about to swap
the ready queue. -/
def notifiedRegistered : List LoopLabel :=
  [.call (.user 0) (.attach 0), .proceed (.user 0), .proceed (.user 0), .proceed (.user 0),
    .loop .none, .loop (.wait fun _ _ => none), .loop .none, .loop .none, .loop .none,
    .loop .none, .loop (.ctl 0 none), .loop .none, .loop .none,
    .call (.user 0) (.readyEvent 0 Events.Write), .proceed (.user 0), .proceed (.user 0),
    .loop .none, .loop .none, .loop .none]

/-- The notification follows the registration, and reaches its handler. -/
theorem ready_not_dropped_notifiedRegistered :
    (after userHandlers (notifiedRegistered ++ [.loop .none, .loop .none])).1.stack.head? =
      some (.handleEvents 0 Events.Write) := by
  have hexec : exec (loopSystem userHandlers) (readyInOrder userHandlers) notifiedRegistered init =
      some (after userHandlers notifiedRegistered) := rfl
  have hrun := GuardedRun.of_exec readyInOrder_spec hexec
  have hfirst := readyInOrder_spec (.loop .none) (after userHandlers notifiedRegistered).1
    (show readyInOrder userHandlers _ _ = true from rfl)
  have hseg : Segment (loopSystem userHandlers) (ReadyInOrder userHandlers) Busy (.loop .none)
      (after userHandlers notifiedRegistered).1 []
      (after userHandlers (notifiedRegistered ++ [.loop .none])).1 := .start hfirst rfl
  have hs : (loopSystem userHandlers).step (.loop .none)
      (after userHandlers (notifiedRegistered ++ [.loop .none])).1 =
      some ((after userHandlers (notifiedRegistered ++ [.loop .none, .loop .none])).1,
        [.finalize (.ready 0 Events.Write true)]) := rfl
  have hlast := ready_not_dropped userHandlers hrun rfl hseg (e := 0) rfl List.mem_cons_self
    List.mem_cons_self rfl rfl hs
  rw [hlast.2 rfl]
  rfl

/-- Another handler has woken the loop up. Between the swap of the add queue and the swap
of the ready queue a thread attaches a handler and closes it as a stream. -/
def notifiedBetweenSwaps : List LoopLabel :=
  [.call (.user 0) (.attach 1), .proceed (.user 0), .proceed (.user 0), .proceed (.user 0),
    .loop .none, .loop (.wait fun _ _ => none), .loop .none, .loop .none, .loop .none,
    .loop .none, .loop (.ctl 0 none), .loop .none, .loop .none,
    .call (.user 0) (.attach 0), .proceed (.user 0), .proceed (.user 0), .proceed (.user 0),
    .call (.user 0) (.readyEvent 0 Events.Close), .proceed (.user 0), .proceed (.user 0),
    .loop .none, .loop .none, .loop .none, .loop .none, .loop .none]

theorem ready_dropped_notifiedBetweenSwaps :
    ∃ tr s, Run (loopSystem userHandlers) init tr s ∧ userHandlers.valid 0 = true ∧
      .finalize (.ready 0 Events.Close true) ∈ tr ∧ .ignored 0 ∈ tr ∧
      0 ∈ s.events ∧ (s.handlers 0).alive = true := by
  refine ⟨_, _, run_after notifiedBetweenSwaps rfl, rfl, ?_, ?_, List.mem_cons_self, rfl⟩
  · exact List.mem_of_getElem? (i := 7) rfl
  · exact List.mem_of_getElem? (i := 8) rfl

end EventLoop

end Libael
