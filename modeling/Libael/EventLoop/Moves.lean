import Libael.Lts.Run
import Libael.EventLoop.Frames

/-!
# Libael.EventLoop.Moves

The event loop as a transition system, and what its transitions can do: one inversion lemma for
each of the three big functions of the step (`request`, `proceed`, `runFrame`), which the
invariants of the later modules are derived from.

* `Move` is the result: a constructor for each kind of transition that does not end the process,
  with its guards. `Crash` is the same for those that do.
* Code of the user, and the many frames that only go on in the code of the loop, are `Quiet` and
  share one constructor each. What such a frame leaves to run is told in `LightFrames`.
* `Layered` is the first invariant: the frames of the stack are nested as the calls of the
  source are. It holds in crashed states as well, whose stack is empty.
-/

namespace Libael

open Lts

/-- The event loop over the handlers of `cfg`. -/
def loopSystem (cfg : Config) : System EventLoop LoopLabel LoopObs := ⟨EventLoop.step cfg⟩

/-- What is shown besides the life of an event. -/
def LoopObs.minor : LoopObs → Bool
  | .created _ | .closed _ | .queued _ | .finalize _ => false
  | _ => true

namespace EventLoop

/-! ### Bookkeeping -/

@[simp] theorem lookup_setCall (s : EventLoop) (a b : Agent) (p : Progress) :
    (s.setCall a p).calls.lookup b = if b = a then some p else s.calls.lookup b := by
  by_cases h : b = a
  · rw [if_pos h, h]; exact AList.lookup_insert _
  · rw [if_neg h]; exact AList.lookup_insert_ne h

@[simp] theorem lookup_endCall (s : EventLoop) (a b : Agent) :
    (s.endCall a).calls.lookup b = if b = a then none else s.calls.lookup b := by
  by_cases h : b = a
  · rw [if_pos h, h]; exact AList.lookup_erase _ _
  · rw [if_neg h]; exact AList.lookup_erase_ne h

@[simp] theorem lookup_complete (s : EventLoop) (a b : Agent) (element : Element) :
    (s.complete a element).calls.lookup b = if b = a then none else s.calls.lookup b := by
  cases element <;> exact lookup_endCall s a b

@[simp] theorem complete_epoll (s : EventLoop) (a : Agent) (element : Element) :
    (s.complete a element).epoll = s.epoll := by cases element <;> rfl

@[simp] theorem complete_stack (s : EventLoop) (a : Agent) (element : Element) :
    (s.complete a element).stack = s.stack := by cases element <;> rfl

@[simp] theorem complete_crashed (s : EventLoop) (a : Agent) (element : Element) :
    (s.complete a element).crashed = s.crashed := by cases element <;> rfl

@[simp] theorem complete_stop (s : EventLoop) (a : Agent) (element : Element) :
    (s.complete a element).stop = s.stop := by cases element <;> rfl

@[simp] theorem complete_events (s : EventLoop) (a : Agent) (element : Element) :
    (s.complete a element).events = s.events := by cases element <;> rfl

@[simp] theorem complete_objects (s : EventLoop) (a : Agent) (element : Element) :
    (s.complete a element).objects = s.objects := by cases element <;> rfl

@[simp] theorem handlers_setHandler (s : EventLoop) (e e' : EventId) (h : EventHandler) :
    (s.setHandler e h).handlers e' = if e' = e then h else s.handlers e' := by
  by_cases heq : e' = e
  · rw [if_pos heq, heq]; exact Function.update_self ..
  · rw [if_neg heq]; exact Function.update_of_ne heq ..

/-- The end of `AddElement` ends the `call_once` of `Event::Close`. -/
theorem handlers_complete (s : EventLoop) (a : Agent) (element : Element) (e : EventId) :
    (s.complete a element).handlers e = if element = .remove e then
      { s.handlers e with closeFlag := .done } else s.handlers e := by
  cases element with
  | remove e' =>
      unfold complete
      simp only [handlers_setHandler, Element.remove.injEq]
      by_cases h : e = e'
      · rw [if_pos h, if_pos h.symm, h]; rfl
      · rw [if_neg h, if_neg (Ne.symm h)]; rfl
  | add e' => rw [if_neg (by simp)]; rfl
  | ready e' events attached => rw [if_neg (by simp)]; rfl

@[simp] theorem attached_complete (s : EventLoop) (a : Agent) (element : Element) (e : EventId) :
    ((s.complete a element).handlers e).attached = (s.handlers e).attached := by
  rw [handlers_complete]
  split <;> rfl

/-- `AddElement`, inside the lock. -/
theorem push_spec (s : EventLoop) (a : Agent) (element : Element) :
    (s.epoll.eventsPending element.queue = [] ∧
      s.push a element = { s with epoll := { s.epoll with
        eventsPending := Function.update s.epoll.eventsPending element.queue [element]
        lock := some a } }.setCall a (.signalling element)) ∨
    (s.epoll.eventsPending element.queue ≠ [] ∧
      s.push a element = { s with epoll := { s.epoll with
        eventsPending := Function.update s.epoll.eventsPending element.queue
          (s.epoll.eventsPending element.queue ++ [element])
        lock := none } }.complete a element) := by
  unfold push EPoll.addElement
  by_cases hempty : s.epoll.eventsPending element.queue = []
  · exact .inl ⟨hempty, by simp [hempty]⟩
  · refine .inr ⟨hempty, ?_⟩
    have hlength : ¬(s.epoll.eventsPending element.queue ++ [element]).length = 1 := by
      simpa using hempty
    simp [hempty]

@[simp] theorem push_stack (s : EventLoop) (a : Agent) (element : Element) :
    (s.push a element).stack = s.stack := by
  rcases push_spec s a element with ⟨-, heq⟩ | ⟨-, heq⟩
  · rw [heq]; rfl
  · rw [heq, complete_stack]

@[simp] theorem push_eventsPending (s : EventLoop) (a : Agent) (element : Element) :
    (s.push a element).epoll.eventsPending = Function.update s.epoll.eventsPending element.queue
      (s.epoll.eventsPending element.queue ++ [element]) := by
  rcases push_spec s a element with ⟨hempty, heq⟩ | ⟨-, heq⟩
  · rw [heq, hempty]; rfl
  · rw [heq, complete_epoll]

@[simp] theorem push_events (s : EventLoop) (a : Agent) (element : Element) :
    (s.push a element).events = s.events := by
  rcases push_spec s a element with ⟨-, heq⟩ | ⟨-, heq⟩
  · rw [heq]; rfl
  · rw [heq, complete_events]

@[simp] theorem attached_push (s : EventLoop) (a : Agent) (element : Element) (e : EventId) :
    ((s.push a element).handlers e).attached = (s.handlers e).attached := by
  rcases push_spec s a element with ⟨-, heq⟩ | ⟨-, heq⟩
  · rw [heq]; rfl
  · rw [heq, attached_complete]

/-- `AddElement` returning from `Close` ends the `call_once` of that event, and touches no other
flag. -/
theorem closeFlag_push (s : EventLoop) (a : Agent) (element : Element) (e : EventId) :
    ((s.push a element).handlers e).closeFlag = (s.handlers e).closeFlag ∨
      element = .remove e ∧ ((s.push a element).handlers e).closeFlag = .done := by
  rcases push_spec s a element with ⟨-, heq⟩ | ⟨-, heq⟩
  · exact .inl (by rw [heq]; rfl)
  · rw [heq, handlers_complete]
    split
    · rename_i h; exact .inr ⟨h, rfl⟩
    · exact .inl rfl

/-- After its push a call is over, or goes on to write to the eventfd. -/
theorem lookup_push (s : EventLoop) (a b : Agent) (element : Element) :
    (b ≠ a → (s.push a element).calls.lookup b = s.calls.lookup b) ∧
      ((s.push a element).calls.lookup a = none ∨
        (s.push a element).calls.lookup a = some (.signalling element)) := by
  rcases push_spec s a element with ⟨-, heq⟩ | ⟨-, heq⟩
  · rw [heq]
    exact ⟨fun hb => by rw [lookup_setCall, if_neg hb], .inr (by rw [lookup_setCall, if_pos rfl])⟩
  · rw [heq]
    exact ⟨fun hb => by rw [lookup_complete, if_neg hb], .inl (by rw [lookup_complete, if_pos rfl])⟩

@[simp] theorem push_crashed (s : EventLoop) (a : Agent) (element : Element) :
    (s.push a element).crashed = s.crashed := by
  rcases push_spec s a element with ⟨-, heq⟩ | ⟨-, heq⟩
  · rw [heq]; rfl
  · rw [heq, complete_crashed]

theorem idle_of_mayCall {s : EventLoop} {a : Agent} (h : s.mayCall a = true) :
    s.calls.lookup a = none := by
  simp only [mayCall, Bool.and_eq_true, Option.isNone_iff_eq_none] at h
  exact h.1

/-! ### Calls that begin -/

/-- What a call may have to do next when it begins. -/
inductive Starts (s : EventLoop) : Progress → Prop
  | attaching {e} : Starts s (.attaching e)
  | ready {e events} : (s.handlers e).attached = true →
      Starts s (.pushing (.ready e events (s.attachReturned e)))
  | closing {e} : (s.handlers e).attached = true → Starts s (.closing e)
  | waking : Starts s .waking

/-- Code of the user or of a handler has run on `a`: at most it has begun a call, touched
what is known of handlers, or set `stop_`. -/
structure Quiet (s : EventLoop) (a : Agent) (s' : EventLoop) : Prop where
  epoll : s'.epoll = s.epoll
  events : s'.events = s.events
  eventsToClose : ∀ e ∈ s'.eventsToClose, e ∈ s.eventsToClose ∨ e ∈ s.events
  objects : s'.objects = s.objects
  stack : s'.stack = s.stack
  crashed : s'.crashed = s.crashed
  attached : ∀ e, (s'.handlers e).attached = (s.handlers e).attached
  closeFlag : ∀ e, (s'.handlers e).closeFlag = (s.handlers e).closeFlag
  alive : ∀ e, (s'.handlers e).alive = true → (s.handlers e).alive = true
  calls : s'.calls = s.calls ∨ ∃ p, Starts s p ∧ s'.calls = s.calls.insert a p
  stop : s'.stop = s.stop ∨ s'.calls.lookup a = some .waking

namespace Quiet

theorem refl (s : EventLoop) (a : Agent) : Quiet s a s :=
  ⟨rfl, rfl, fun _ => .inl, rfl, rfl, rfl, fun _ => rfl, fun _ => rfl, fun _ => id, .inl rfl,
    .inl rfl⟩

/-- Only the call of `a` has moved. -/
theorem lookup_of_ne {s s' : EventLoop} {a b : Agent} (h : Quiet s a s') (hb : b ≠ a) :
    s'.calls.lookup b = s.calls.lookup b := by
  rcases h.calls with heq | ⟨p, -, heq⟩
  · rw [heq]
  · rw [heq]; exact AList.lookup_insert_ne hb

theorem setCall {s : EventLoop} (a : Agent) {p : Progress} (hp : Starts s p) :
    Quiet s a (s.setCall a p) :=
  { refl s a with calls := .inr ⟨p, hp, rfl⟩, stop := .inl rfl }

theorem closeEvent (s : EventLoop) (a : Agent) (e : EventId) : Quiet s a (s.closeEvent a e) := by
  unfold EventLoop.closeEvent
  split
  · rename_i h; exact setCall a (.closing h)
  · exact refl s a

/-- A change of what only the handler itself looks at. -/
theorem setHandler {s : EventLoop} (a : Agent) {e : EventId} {h : EventHandler}
    (hattached : h.attached = (s.handlers e).attached)
    (hflag : h.closeFlag = (s.handlers e).closeFlag)
    (halive : h.alive = true → (s.handlers e).alive = true) : Quiet s a (s.setHandler e h) := by
  refine { refl s a with attached := ?_, closeFlag := ?_, alive := ?_ }
  all_goals
    intro e'
    rw [handlers_setHandler]
    split
    · rename_i heq; subst heq; assumption
    · first | rfl | exact id

/-- The same, followed by `CloseEvent`. -/
theorem setHandler_closeEvent {s : EventLoop} (a : Agent) {e : EventId} {h : EventHandler}
    (hattached : h.attached = (s.handlers e).attached)
    (hflag : h.closeFlag = (s.handlers e).closeFlag)
    (halive : h.alive = true → (s.handlers e).alive = true) :
    Quiet s a ((s.setHandler e h).closeEvent a e) := by
  have hset : Quiet s a (s.setHandler e h) := setHandler a hattached hflag halive
  unfold EventLoop.closeEvent
  split
  · rename_i hatt
    have hatt' : (s.handlers e).attached = true := (hset.attached e).symm.trans hatt
    exact { hset with calls := .inr ⟨.closing e, .closing hatt', rfl⟩, stop := .inl rfl }
  · exact hset

theorem destroyHandler (s : EventLoop) (a : Agent) (e : EventId) :
    Quiet s a (s.destroyHandler a e) :=
  setHandler_closeEvent a rfl rfl (fun h => absurd h (by simp))

end Quiet

/-- The first piece of a call is quiet, unless an error of `epoll_ctl` in `Modify` ends the
process. -/
theorem request_spec {cfg : Config} {s s' : EventLoop} {a : Agent} {r : Request}
    {o : List LoopObs} (h : s.request cfg a r = some (s', o)) :
    (∀ x ∈ o, x.minor = true) ∧ (Quiet s a s' ∨ s'.stack = [] ∧ ∃ errno,
      s'.crashed = some (.systemError errno "epoll_ctl - EPOLL_CTL_MOD - failed")) := by
  cases requested h with
  | attach _ _ => exact ⟨by simp, .inl (.setCall a .attaching)⟩
  | attachInternal _ _ _ _ =>
      exact ⟨by simp, .inl { Quiet.refl s a with
        calls := .inr ⟨_, .attaching, rfl⟩, stop := .inl rfl }⟩
  | closeEvent _ => exact ⟨by simp, .inl (.closeEvent s a _)⟩
  | cancel _ _ => exact ⟨by simp, .inl (.setHandler_closeEvent a rfl rfl id)⟩
  | ready _ hatt => exact ⟨by simp, .inl (.setCall a (.ready hatt))⟩
  | readyIgnored _ _ | modifyIgnored _ _ => exact ⟨by simp, .inl (.refl s a)⟩
  | modifyOutside _ _ _ | modify _ _ _ _ | modifyThrows _ _ _ =>
      exact ⟨by simp [LoopObs.minor], .inl (.refl s a)⟩
  | modifyFails _ _ _ => exact ⟨by simp [LoopObs.minor], .inr ⟨rfl, _, rfl⟩⟩
  | stop _ =>
      have hwaking : ({ s with stop := true }.setCall a .waking).calls.lookup a = some .waking := by
        simp
      exact ⟨by simp, .inl { Quiet.refl s a with
        calls := .inr ⟨_, .waking, rfl⟩, stop := .inr hwaking }⟩
  | destroyed _ _ _ =>
      refine ⟨fun x hx => ?_, .inl (.destroyHandler s a _)⟩
      split at hx
      · rw [List.mem_singleton.mp hx]
        rfl
      · exact absurd hx List.not_mem_nil

/-! ### The thread of the loop -/

end EventLoop

namespace LoopFrame

/-- The frame belongs to the handling of the eventfd in `Process`. -/
def inDrain : LoopFrame → Bool
  | .eventfdRead | .handleElements _ | .finalize _ | .dispose _ => true
  | _ => false

/-- How deep a frame is nested: `Run` and `Process`, the handling of the eventfd, the loop
over the elements of a queue, a handler. -/
def level : LoopFrame → Nat
  | .whileNotStop | .copyEvents | .closing _ | .wakeup | .process _ | .batch _ _ => 0
  | .eventfdRead | .handleElements _ => 1
  | .finalize _ | .dispose _ => 2
  | _ => 3

/-- The frame is at `epoll_wait`, which calls nothing. -/
def isProcess : LoopFrame → Bool
  | .process _ => true
  | _ => false

/-- `f` may lie above `g` on the stack; `Run` and `Process` have one frame between them. -/
def Above (f g : LoopFrame) : Prop :=
  g.isProcess = false ∧ (g.level < f.level ∨ (g.level = f.level ∧ g.level ≠ 0))

/-- A frame may be replaced by `frames`. -/
structure Nested (f : LoopFrame) (frames : List LoopFrame) : Prop where
  level : ∀ g ∈ frames, f.level ≤ g.level
  pairwise : frames.Pairwise Above

theorem Nested.nil (f : LoopFrame) : Nested f [] := ⟨by simp, .nil⟩

theorem Nested.single {f g : LoopFrame} (h : f.level ≤ g.level) : Nested f [g] :=
  ⟨by simpa using h, List.pairwise_singleton ..⟩

theorem Nested.pair {f g₁ g₂ : LoopFrame} (h₁ : f.level ≤ g₁.level) (h₂ : f.level ≤ g₂.level)
    (h : Above g₁ g₂) : Nested f [g₁, g₂] :=
  ⟨by simpa using ⟨h₁, h₂⟩, by simpa using h⟩

theorem light_of_level {g : LoopFrame} (h : g.level = 3) :
    g.light = true ∧ g.inDrain = false := by
  cases g <;> first | exact ⟨rfl, rfl⟩ | exact absurd h (by simp [level])

/-- A handler has frames of handlers above it only. -/
theorem Nested.handler {f : LoopFrame} {frames : List LoopFrame} (hf : f.level = 3)
    (h : ∀ g ∈ frames, g.level = 3) : Nested f frames := by
  refine ⟨fun g hg => by rw [hf, h g hg], ?_⟩
  refine List.pairwise_of_forall_mem_list fun g hg k hk => ⟨?_, .inr ?_⟩
  · have hk := h k hk
    cases k <;> first | rfl | exact absurd hk (by simp [LoopFrame.level])
  · rw [h g hg, h k hk]
    exact ⟨rfl, by decide⟩

end LoopFrame

/-- The stack is nested as the calls of the source are. -/
def Layered (stack : List LoopFrame) : Prop := stack.Pairwise LoopFrame.Above

/-- The innermost frame may be replaced by frames that are nested in its place. -/
theorem Layered.replace {f : LoopFrame} {frames rest : List LoopFrame}
    (h : Layered (f :: rest)) (hnested : f.Nested frames) : Layered (frames ++ rest) := by
  obtain ⟨hf, hrest⟩ := List.pairwise_cons.mp h
  refine List.pairwise_append.mpr ⟨hnested.pairwise, hrest, fun g hg k hk => ?_⟩
  have hle := hnested.level g hg
  obtain ⟨hprocess, hlt | ⟨heq, hne⟩⟩ := hf k hk
  · exact ⟨hprocess, .inl (Nat.lt_of_lt_of_le hlt hle)⟩
  · rcases Nat.lt_or_eq_of_le hle with hlt | hfg
    · exact ⟨hprocess, .inl (heq ▸ hlt)⟩
    · exact ⟨hprocess, .inr ⟨heq.trans hfg, hne⟩⟩

/-- Below a frame there are only frames of its level or a lower one. -/
theorem Layered.level_le {f g : LoopFrame} {rest : List LoopFrame} (h : Layered (f :: rest))
    (hg : g ∈ rest) : g.level ≤ f.level := by
  rcases ((List.pairwise_cons.mp h).1 g hg).2 with hlt | ⟨heq, -⟩
  · exact Nat.le_of_lt hlt
  · exact Nat.le_of_eq heq

/-- `epoll_wait` is innermost wherever it is. -/
theorem Layered.process_notMem {f : LoopFrame} {rest : List LoopFrame} (h : Layered (f :: rest))
    (final : Bool) : LoopFrame.process final ∉ rest := fun hg =>
  absurd ((List.pairwise_cons.mp h).1 _ hg).1 (by simp [LoopFrame.isProcess])

/-- There is nothing below `Run` and `Process`. -/
theorem Layered.eq_nil {f : LoopFrame} {rest : List LoopFrame} (h : Layered (f :: rest))
    (hf : f.level = 0) : rest = [] := by
  refine List.eq_nil_iff_forall_not_mem.mpr fun g hg => ?_
  rcases ((List.pairwise_cons.mp h).1 g hg).2 with hlt | ⟨heq, hne⟩
  · rw [hf] at hlt
    exact absurd hlt (Nat.not_lt_zero _)
  · exact hne (heq.trans hf)

namespace EventLoop

/-- What a light frame leaves to run: light frames, or an `epoll_wait`, and that only if
`stop_` is not set or the eventfd is about to be written. -/
def LightFrames (n : LoopNext) : Prop :=
  (∀ g ∈ n.frames, g.light = true ∧ g.inDrain = false) ∨
    ∃ final, n.frames = [.process final] ∧
      (n.loop.stop = false ∨ n.loop.calls.lookup .loop = some .waking)

/-- Nothing is left to run. -/
theorem LightFrames.nil {n : LoopNext} (h : n.frames = []) : LightFrames n :=
  .inl (by simp [h])

/-- A light frame is quiet. -/
theorem runFrame_light {cfg : Config} {s : EventLoop} {rest : List LoopFrame} {i : LoopInput}
    {f : LoopFrame} {n : LoopNext} (hf : f.light = true) (h : s.runFrame cfg rest i f = some n) :
    (∀ x ∈ n.obs, x.minor = true) ∧ Quiet s .loop n.loop ∧ LightFrames n ∧ f.Nested n.frames := by
  -- a handler leaves frames of handlers
  have hhandler : f.level = 3 → (∀ x ∈ n.obs, x.minor = true) → Quiet s .loop n.loop →
      (∀ g ∈ n.frames, g.level = 3) →
      (∀ x ∈ n.obs, x.minor = true) ∧ Quiet s .loop n.loop ∧ LightFrames n ∧ f.Nested n.frames :=
    fun hlevel hobs hquiet hframes => ⟨hobs, hquiet,
      .inl fun g hg => LoopFrame.light_of_level (hframes g hg), .handler hlevel hframes⟩
  cases lightRun hf h with
  | observed hstop =>
      exact ⟨by simp, .refl s _, .inl (by simp [LoopFrame.light, LoopFrame.inDrain]),
        .single (Nat.le_refl _)⟩
  | goesOn hstop =>
      exact ⟨by simp, .refl s _, .inr ⟨false, rfl, .inl hstop⟩, .single (Nat.le_refl _)⟩
  | copied =>
      exact ⟨by simp, { Quiet.refl s .loop with eventsToClose := fun _ => .inr },
        .inl (by simp [LoopFrame.light, LoopFrame.inDrain]), .single (Nat.le_refl _)⟩
  | closes hin =>
      exact ⟨by simp, .refl s _, .inl (by simp [LoopFrame.light, LoopFrame.inDrain]),
        .pair (Nat.zero_le _) (Nat.le_refl _) ⟨rfl, .inl (Nat.zero_lt_succ _)⟩⟩
  | allClosed | passed =>
      exact ⟨by simp, .refl s _, .inl (by simp [LoopFrame.light, LoopFrame.inDrain]),
        .single (Nat.le_refl _)⟩
  | wakes =>
      exact ⟨by simp, .setCall .loop .waking, .inr ⟨true, rfl, .inr (by simp)⟩,
        .single (Nat.le_refl _)⟩
  | returned =>
      exact ⟨by simp, { Quiet.refl s .loop with eventsToClose := by simp }, .nil rfl, .nil _⟩
  | finalized | disposed | kept => exact ⟨by simp, .refl s _, .nil rfl, .nil _⟩
  | user _ | execute _ _ | executeDead _ _ | timer _ _ _ | timerIgnored _ | occurrence =>
      exact hhandler rfl (by simp [LoopObs.minor]) (.refl s _) (by simp [LoopFrame.level])
  | expired _ _ | expiredDead _ _ | callback | notExpired | readFails _ | interval =>
      exact hhandler rfl (by simp) (.refl s _) (by simp [LoopFrame.level])
  | oneShot _ =>
      exact hhandler rfl (by simp) (.setHandler .loop rfl rfl id) (by simp [LoopFrame.level])
  | dropped _ _ _ => exact hhandler rfl (by simp) (.destroyHandler s .loop _) (by simp)
  | closeEvent => exact hhandler rfl (by simp) (.closeEvent s .loop _) (by simp)
  | removed _ =>
      exact hhandler rfl (by simp) { Quiet.refl s .loop with calls := .inl rfl } (by simp)
  | notInternal _ => exact hhandler rfl (by simp) (.refl s _) (by simp)

/-- A finalize function touches the registrations only, and calls at most the handler of
its event. -/
theorem finalizeElement_spec {cfg : Config} {s : EventLoop} {i : LoopInput} {element : Element}
    {n : LoopNext} (h : s.finalizeElement cfg i element = some n) :
    EPoll.SameQueues s.epoll n.loop.epoll ∧ n.loop = { s with epoll := n.loop.epoll } ∧
      (n.frames = [] ∨ ∃ events, n.frames =
        [.handleEvents element.event events, .release element.event]) ∧
      ∃ o, n.obs = .finalize element :: o ∧ ∀ x ∈ o, x.minor = true := by
  cases finalizeRun h with
  | added _ =>
      refine ⟨.refl _, rfl, ?_, [], rfl, by simp⟩
      dsimp only
      split
      · exact .inr ⟨0, rfl⟩
      · exact .inl rfl
  | ctlAdd _ hctl =>
      obtain ⟨hsame, -⟩ := EPoll.ctlAdd_spec hctl
      exact ⟨⟨hsame.1, hsame.2, hsame.3, hsame.4⟩, rfl, .inl rfl, _, rfl, by simp [LoopObs.minor]⟩
  | removed _ | notFound _ _ => exact ⟨.refl _, rfl, .inl rfl, [], rfl, by simp⟩
  | ctlDel _ _ hctl =>
      obtain ⟨hsame, -⟩ := EPoll.ctlDel_spec hctl
      exact ⟨⟨hsame.1, hsame.2, hsame.3, hsame.4⟩, rfl, .inl rfl, _, rfl, by simp [LoopObs.minor]⟩
  | ignored _ => exact ⟨.refl _, rfl, .inl rfl, _, rfl, by simp [LoopObs.minor]⟩
  | @ready e events attached _ =>
      refine ⟨.refl _, rfl, ?_, [], rfl, by simp⟩
      dsimp only
      split
      · exact .inr ⟨events, rfl⟩
      · exact .inl rfl

/-- The body of the loop of `Process` drains the eventfd, or calls at most one handler. -/
theorem processNotification_spec (s : EventLoop) (n : Notification) :
    (n.item = .pendingFd ∧ s.processNotification n = [.eventfdRead]) ∨
      (n.item ≠ .pendingFd ∧ (s.processNotification n = [] ∨
        ∃ fd e events, s.epoll.events fd = some e ∧
          s.processNotification n = [.handleEvents e events, .release e])) := by
  unfold processNotification
  cases hitem : n.item with
  | pendingFd => exact .inl ⟨rfl, rfl⟩
  | descriptor fd e₀ =>
      refine .inr ⟨by simp, ?_⟩
      cases he : s.epoll.events fd with
      | none => exact .inl (by simp [he])
      | some e =>
          simp only [he]
          split
          · exact .inr ⟨fd, e, _, he, rfl⟩
          · exact .inl rfl

/-! ### All transitions -/

/-- Everything a transition can do that does not end the process. -/
inductive Move (cfg : Config) (s : EventLoop) : LoopLabel → EventLoop → List LoopObs → Prop
  /-- a call of the public interface begins -/
  | call {a r s' o} : s.mayCall a = true → s.request cfg a r = some (s', o) → Quiet s a s' →
      (∀ x ∈ o, x.minor = true) → Move cfg s (.call a r) s' o
  /-- a call in progress goes on, up to `erased` -/
  | attachRefused {a e} : s.calls.lookup a = some (.attaching e) →
      (s.handlers e).attached = true → Move cfg s (.proceed a) (s.endCall a)
        [.threw a (.text "event handler already attached")]
  | created {a e} : s.calls.lookup a = some (.attaching e) → (s.handlers e).attached = false →
      s.freshHandle cfg e = true → Move cfg s (.proceed a)
        (({ s with objects := e :: s.objects, events := e :: s.events }.setHandler e
          { s.handlers e with attached := true }).setCall a (.pushing (.add e))) [.created e]
  | pushed {a element} : s.calls.lookup a = some (.pushing element) → s.epoll.lock = none →
      Move cfg s (.proceed a) (s.push a element) [.queued element]
  | signalled {a element} : s.calls.lookup a = some (.signalling element) → Move cfg s (.proceed a)
      ({ s with epoll := { s.epoll.wakeup with lock := none } }.complete a element) []
  | woken {a} : s.calls.lookup a = some .waking →
      Move cfg s (.proceed a) ({ s with epoll := s.epoll.wakeup }.endCall a) []
  | closeBegins {a e} : s.calls.lookup a = some (.closing e) → (s.handlers e).closeFlag = .clear →
      Move cfg s (.proceed a)
        ((s.setHandler e { s.handlers e with closeFlag := .active }).setCall a (.erasing e)) []
  | closeReturns {a e} : s.calls.lookup a = some (.closing e) → (s.handlers e).closeFlag = .done →
      Move cfg s (.proceed a) (s.endCall a) []
  | erased {a e} : s.calls.lookup a = some (.erasing e) → e ∈ s.events → Move cfg s (.proceed a)
      ({ s with events := s.events.erase e }.setCall a (.pushing (.remove e))) [.closed e]
  /-- the thread of the loop goes on, up to `finalized` -/
  | light {i f rest n} : s.stack = f :: rest → s.calls.lookup .loop = none → f.light = true →
      s.runFrame cfg rest i f = some n → Quiet s .loop n.loop → (∀ x ∈ n.obs, x.minor = true) →
      LightFrames n → f.Nested n.frames →
      Move cfg s (.loop i) { n.loop with stack := n.frames ++ rest } n.obs
  | wait {poll final rest} : s.stack = .process final :: rest → s.calls.lookup .loop = none →
      Move cfg s (.loop (.wait poll)) { s with
        epoll := (s.epoll.epollWait poll).2
        stack := (if (s.epoll.epollWait poll).1.isEmpty then .process final
          else .batch (s.epoll.epollWait poll).1 final) :: rest } []
  | notification {n ns final rest} : s.stack = .batch (n :: ns) final :: rest →
      s.calls.lookup .loop = none →
      Move cfg s (.loop .none) { s with
        stack := s.processNotification n ++ .batch ns final :: rest } []
  | drain {rest} : s.stack = .eventfdRead :: rest → s.calls.lookup .loop = none →
      Move cfg s (.loop .none) { s with epoll := { s.epoll with counter := 0 } } []
  | drained {rest} : s.stack = .eventfdRead :: rest → s.calls.lookup .loop = none →
      Move cfg s (.loop .none) { s with
        stack :=
          .handleElements .add :: .handleElements .remove :: .handleElements .ready :: rest } []
  | swapped {q rest} : s.stack = .handleElements q :: rest → s.calls.lookup .loop = none →
      s.epoll.lock = none →
      Move cfg s (.loop .none) { s with
        epoll := (s.epoll.swapElements q).2
        stack :=
          .finalize (s.epoll.eventsPending q) :: .dispose (s.epoll.eventsPending q) :: rest } []
  | finalized {i element elements rest n} : s.stack = .finalize (element :: elements) :: rest →
      s.calls.lookup .loop = none → s.finalizeElement cfg i element = some n → n.threw = none →
      Move cfg s (.loop i) { n.loop with stack := n.frames ++ .finalize elements :: rest } n.obs
  /-- a watched descriptor becomes ready -/
  | edge {fd e} : s.epoll.interest fd = some e →
      Move cfg s (.edge fd) { s with epoll := s.epoll.queueItem (.descriptor fd e) } []
  /-- a target instance is destroyed -/
  | expire {e} : Move cfg s (.expire e)
      (s.setHandler e { s.handlers e with instanceAlive := false }) []
  /-- the last reference to an event goes away -/
  | destroyed {e epoll o} : e ∈ s.objects → s.unreferenced cfg e = true →
      (cfg.valid e = false ∧ epoll = s.epoll ∧ o = [] ∨
        cfg.valid e = true ∧ epoll = s.epoll.unregister (cfg.handle e) ∧ o = [.closeHandle e]) →
      Move cfg s (.destroyEvent e) { s with objects := s.objects.erase e, epoll } o

/-- Without an exception the thread goes on with the frames left to run. -/
theorem resume_of_crashed_none {rest : List LoopFrame} {n : LoopNext}
    (h : (resume rest n).crashed = none) :
    n.threw = none ∧ resume rest n = { n.loop with stack := n.frames ++ rest } := by
  unfold resume at h ⊢
  cases hthrew : n.threw with
  | some ex => rw [hthrew] at h; exact absurd h (by simp)
  | none => exact ⟨rfl, rfl⟩

/-- A call that goes on is a move. -/
theorem move_of_proceed {cfg : Config} {s s' : EventLoop} {a : Agent} {p : Progress}
    {o : List LoopObs} (hp : s.calls.lookup a = some p) (h : s.proceed cfg a p = some (s', o))
    (hc : s'.crashed = none) : Move cfg s (.proceed a) s' o := by
  cases proceeded h with
  | attachRefused hatt => exact .attachRefused hp hatt
  | created hatt hfresh => exact .created hp hatt hfresh
  | pushed hlock => exact .pushed hp hlock
  | signalled => exact .signalled hp
  | woken => exact .woken hp
  | closeBegins hflag => exact .closeBegins hp hflag
  | closeReturns hflag => exact .closeReturns hp hflag
  | erased he => exact .erased hp he
  | notFound _ => exact absurd hc (by simp)

/-- A frame that runs is a move. -/
theorem move_of_loop {cfg : Config} {s : EventLoop} {i : LoopInput} {f : LoopFrame}
    {rest : List LoopFrame} {n : LoopNext} (hstack : s.stack = f :: rest)
    (hidle : s.calls.lookup .loop = none) (h : s.runFrame cfg rest i f = some n)
    (hc : (resume rest n).crashed = none) : Move cfg s (.loop i) (resume rest n) n.obs := by
  obtain ⟨hthrew, heq⟩ := resume_of_crashed_none hc
  rw [heq]
  cases frameRun h with
  | light hlight _ =>
      obtain ⟨hobs, hquiet, hframes, hnested⟩ := runFrame_light hlight h
      exact .light hstack hidle hlight h hquiet hobs hframes hnested
  | @wait final poll =>
      have hmove : Move cfg s (.loop (.wait poll)) _ _ := .wait hstack hidle
      dsimp only
      split
      · rename_i hempty
        rw [if_pos hempty] at hmove
        exact hmove
      · rename_i hempty
        rw [if_neg hempty] at hmove
        exact hmove
  | waitFails => exact absurd hthrew (by simp)
  | notification => simpa using Move.notification hstack hidle
  | drain _ =>
      have hmove : Move cfg s (.loop .none) _ _ := .drain hstack hidle
      rw [hstack] at hmove
      exact hmove
  | drained _ => exact .drained hstack hidle
  | swapped hlock => exact .swapped hstack hidle hlock
  | finalize hn' => simpa using Move.finalized hstack hidle hn' hthrew

/-- **Inversion of the step.** A transition that does not end the process is one of the moves. -/
theorem move_of_step {cfg : Config} {l : LoopLabel} {s s' : EventLoop} {o : List LoopObs}
    (h : step cfg l s = some (s', o)) (hc : s'.crashed = none) : Move cfg s l s' o := by
  unfold step at h
  split at h
  · exact absurd h (by simp)
  · cases l with
    | call a r =>
        dsimp only at h
        split at h
        · rename_i hmay
          obtain ⟨hobs, hquiet | ⟨-, errno, hcrash⟩⟩ := request_spec h
          · exact .call hmay h hquiet hobs
          · rw [hcrash] at hc
            exact absurd hc (by simp)
        · exact absurd h (by simp)
    | proceed a =>
        dsimp only at h
        split at h
        · rename_i p hp
          exact move_of_proceed hp h hc
        · exact absurd h (by simp)
    | loop i =>
        dsimp only at h
        split at h
        · rename_i f rest hstack hidle
          obtain ⟨n, hn, heq⟩ := Option.map_eq_some_iff.mp h
          obtain ⟨rfl, rfl⟩ := Prod.mk.inj heq
          exact move_of_loop hstack hidle hn hc
        · exact absurd h (by simp)
    | edge fd =>
        obtain ⟨e, he, heq⟩ := Option.map_eq_some_iff.mp h
        obtain ⟨rfl, rfl⟩ := Prod.mk.inj heq
        exact .edge he
    | expire e =>
        obtain ⟨rfl, rfl⟩ := by simpa using h
        exact .expire
    | destroyEvent e =>
        dsimp only at h
        split at h
        · rename_i hcond
          simp only [Bool.and_eq_true, List.contains_iff_mem] at hcond
          split at h
          · rename_i hvalid
            obtain ⟨rfl, rfl⟩ := by simpa using h
            exact .destroyed hcond.1 hcond.2 (.inr ⟨hvalid, rfl, rfl⟩)
          · rename_i hvalid
            obtain ⟨rfl, rfl⟩ := by simpa using h
            exact .destroyed hcond.1 hcond.2 (.inl ⟨by simpa using hvalid, rfl, rfl⟩)
        · exact absurd h (by simp)

/-- A crashed state has no successor. -/
theorem not_crashed_of_step {cfg : Config} {l : LoopLabel} {s s' : EventLoop} {o : List LoopObs}
    (h : step cfg l s = some (s', o)) : s.crashed = none := by
  unfold step at h
  split at h
  · exact absurd h (by simp)
  · rename_i hc
    simpa using hc

/-- How a transition can end the process, and the exception that does it. -/
inductive Crash (cfg : Config) (s : EventLoop) : LoopLabel → Exception → List LoopObs → Prop
  /-- the caller of `ModifyEvent` does not catch its exception -/
  | modify {a r errno o} : (∀ x ∈ o, x.minor = true) → Crash cfg s (.call a r)
      (.systemError errno "epoll_ctl - EPOLL_CTL_MOD - failed") o
  /-- `EventLoop::Remove` throws, in a call of `Close` -/
  | erase {a e} : s.calls.lookup a = some (.erasing e) → e ∉ s.events →
      Crash cfg s (.proceed a) (.text "event not found") []
  /-- a frame throws on the thread of the loop -/
  | loop {i f rest n ex} : s.stack = f :: rest → s.runFrame cfg rest i f = some n →
      n.threw = some ex → Crash cfg s (.loop i) ex n.obs

/-- A call that ends the process, and how. -/
theorem proceed_crash {cfg : Config} {s s' : EventLoop} {a : Agent} {p : Progress}
    {o : List LoopObs} {ex : Exception} (hp : s.calls.lookup a = some p) (hc : s.crashed = none)
    (h : s.proceed cfg a p = some (s', o)) (hcrash : s'.crashed = some ex) :
    s'.stack = [] ∧ Crash cfg s (.proceed a) ex o := by
  have hstill : s'.crashed = s.crashed → False := fun heq => by
    rw [heq, hc] at hcrash
    exact absurd hcrash (by simp)
  cases proceeded h with
  | notFound he =>
      obtain rfl := Option.some.inj hcrash
      exact ⟨rfl, .erase hp he⟩
  | pushed _ => exact absurd (push_crashed ..) hstill
  | signalled => exact absurd (complete_crashed ..) hstill
  | attachRefused _ | created _ _ | woken | closeBegins _ | closeReturns _ | erased _ =>
      exact absurd rfl hstill

/-- What a frame leaves behind has not crashed by itself. -/
theorem runFrame_crashed {cfg : Config} {s : EventLoop} {rest : List LoopFrame} {i : LoopInput}
    {f : LoopFrame} {n : LoopNext} (h : s.runFrame cfg rest i f = some n) :
    n.loop.crashed = s.crashed := by
  cases frameRun h with
  | light hlight _ => exact (runFrame_light hlight h).2.1.crashed
  | finalize hn' =>
      dsimp only
      rw [(finalizeElement_spec hn').2.1]
  | wait | waitFails | notification | drain _ | drained _ | swapped _ => rfl

/-- **Inversion of a step that crashes**, by where the exception came from. -/
theorem crash_of_step {cfg : Config} {l : LoopLabel} {s s' : EventLoop} {o : List LoopObs}
    {ex : Exception} (h : step cfg l s = some (s', o)) (hcrash : s'.crashed = some ex) :
    s'.stack = [] ∧ Crash cfg s l ex o := by
  have hc := not_crashed_of_step h
  have hstill : s'.crashed = s.crashed → False := fun heq => by
    rw [heq, hc] at hcrash
    exact absurd hcrash (by simp)
  unfold step at h
  rw [if_neg (by simp [hc])] at h
  cases l with
  | call a r =>
      dsimp only at h
      split at h
      · obtain ⟨hobs, hquiet | ⟨hstack, errno, heq⟩⟩ := request_spec h
        · exact absurd hquiet.crashed hstill
        · obtain rfl := Option.some.inj (heq.symm.trans hcrash)
          exact ⟨hstack, .modify hobs⟩
      · exact absurd h (by simp)
  | proceed a =>
      dsimp only at h
      split at h
      · rename_i p hp
        exact proceed_crash hp hc h hcrash
      · exact absurd h (by simp)
  | loop i =>
      dsimp only at h
      split at h
      · rename_i f rest hstack hidle
        obtain ⟨n, hn, heq⟩ := Option.map_eq_some_iff.mp h
        obtain ⟨rfl, rfl⟩ := Prod.mk.inj heq
        cases hthrew : n.threw with
        | some ex' =>
            unfold resume at hcrash ⊢
            rw [hthrew] at hcrash ⊢
            obtain rfl := Option.some.inj hcrash
            exact ⟨rfl, .loop hstack hn hthrew⟩
        | none =>
            refine absurd ?_ hstill
            unfold resume
            rw [hthrew]
            exact runFrame_crashed hn
      · exact absurd h (by simp)
  | edge fd =>
      obtain ⟨e, -, heq⟩ := Option.map_eq_some_iff.mp h
      obtain ⟨rfl, rfl⟩ := Prod.mk.inj heq
      exact absurd rfl hstill
  | expire e =>
      obtain ⟨rfl, rfl⟩ := by simpa using h
      exact absurd rfl hstill
  | destroyEvent e =>
      dsimp only at h
      split at h
      · split at h
        · obtain ⟨rfl, rfl⟩ := by simpa using h
          exact absurd rfl hstill
        · obtain ⟨rfl, rfl⟩ := by simpa using h
          exact absurd rfl hstill
      · exact absurd h (by simp)

/-- **The invariant rule for states without a crash.** -/
theorem invariant_of_run {cfg : Config} {ok : LoopLabel → EventLoop → Prop}
    {I : List LoopObs → EventLoop → Prop} (hinit : I [] init)
    (hstep : ∀ {tr s l s' o}, GuardedRun (loopSystem cfg) ok init tr s → s.crashed = none →
      I tr s → ok l s → Move cfg s l s' o → I (tr ++ o) s')
    {tr : List LoopObs} {s : EventLoop} (h : GuardedRun (loopSystem cfg) ok init tr s)
    (hc : s.crashed = none) : I tr s := by
  refine h.invariant (I := fun tr s => s.crashed = none → I tr s) (fun _ => hinit) ?_ hc
  intro tr s l s' o hrun ih hok hs hc'
  have hc := not_crashed_of_step hs
  exact hstep hrun hc (ih hc) hok (move_of_step hs hc')

/-! ### The stack -/

/-- **One step keeps the stack nested.** A frame is replaced by frames of the calls it makes,
which are nested deeper. -/
theorem layered_step {cfg : Config} {l : LoopLabel} {s s' : EventLoop} {o : List LoopObs}
    (h : Layered s.stack) (hmove : Move cfg s l s' o) : Layered s'.stack := by
  cases hmove with
  | call _ _ hquiet _ => rw [hquiet.stack]; exact h
  | pushed _ _ => rw [push_stack]; exact h
  | signalled _ => rw [complete_stack]; exact h
  | light hstack _ _ _ _ _ _ hnested =>
      rw [hstack] at h
      exact h.replace hnested
  | @wait poll final rest hstack _ =>
      rw [hstack] at h
      change Layered ([if (s.epoll.epollWait poll).1.isEmpty then LoopFrame.process final
        else .batch (s.epoll.epollWait poll).1 final] ++ rest)
      refine h.replace (.single ?_)
      split <;> exact Nat.le_refl _
  | @notification n ns final rest hstack _ =>
      rw [hstack] at h
      have hnested : LoopFrame.Nested (.batch (n :: ns) final)
          (s.processNotification n ++ [.batch ns final]) := by
        rcases processNotification_spec s n with ⟨-, heq⟩ | ⟨-, heq | ⟨fd, e, events, -, heq⟩⟩
        all_goals
          rw [heq]
          refine ⟨by simp [LoopFrame.level], ?_⟩
          simp [LoopFrame.Above, LoopFrame.level, LoopFrame.isProcess]
      simpa using h.replace hnested
  | drain _ _ => exact h
  | drained hstack _ =>
      rw [hstack] at h
      refine @Layered.replace _ [_, _, _] _ h ⟨by simp [LoopFrame.level], ?_⟩
      simp [LoopFrame.Above, LoopFrame.level, LoopFrame.isProcess]
  | swapped hstack _ _ =>
      rw [hstack] at h
      refine @Layered.replace _ [_, _] _ h ⟨by simp [LoopFrame.level], ?_⟩
      simp [LoopFrame.Above, LoopFrame.level, LoopFrame.isProcess]
  | @finalized i element elements rest n hstack _ hrun _ =>
      rw [hstack] at h
      obtain ⟨-, -, hframes, -⟩ := finalizeElement_spec hrun
      have hnested : LoopFrame.Nested (.finalize (element :: elements))
          (n.frames ++ [.finalize elements]) := by
        rcases hframes with heq | ⟨events, heq⟩
        all_goals
          rw [heq]
          refine ⟨by simp [LoopFrame.level], ?_⟩
          simp [LoopFrame.Above, LoopFrame.level, LoopFrame.isProcess]
      simpa using h.replace hnested
  | _ => exact h

/-- A crash leaves nothing to run. -/
theorem stack_of_crashed {cfg : Config} {ok : LoopLabel → EventLoop → Prop} {tr : List LoopObs}
    {s : EventLoop} (h : GuardedRun (loopSystem cfg) ok init tr s) {ex : Exception}
    (hc : s.crashed = some ex) : s.stack = [] := by
  cases h with
  | refl => exact absurd hc (by simp [init])
  | step _ _ hs => exact (crash_of_step hs hc).1

/-- The stack is nested in every reachable state. -/
theorem layered_of_run {cfg : Config} {ok : LoopLabel → EventLoop → Prop} {tr : List LoopObs}
    {s : EventLoop} (h : GuardedRun (loopSystem cfg) ok init tr s) : Layered s.stack := by
  cases hc : s.crashed with
  | some ex =>
      rw [stack_of_crashed h hc]
      exact .nil
  | none =>
      exact invariant_of_run (I := fun _ s => Layered s.stack) (by simp [Layered, init])
        (fun _ _ ih _ hmove => layered_step ih hmove) h hc

/-! ### Schedules -/

/-- The state and the trace a schedule leads to. -/
def after (cfg : Config) (ls : List LoopLabel) : EventLoop × List LoopObs :=
  (exec (loopSystem cfg) (fun _ _ => true) ls init).getD (init, [])

theorem run_after {cfg : Config} (ls : List LoopLabel)
    (h : (exec (loopSystem cfg) (fun _ _ => true) ls init).isSome = true) :
    Run (loopSystem cfg) init (after cfg ls).2 (after cfg ls).1 := by
  obtain ⟨r, hr⟩ := Option.isSome_iff_exists.mp h
  have hafter : after cfg ls = r := by simp [after, hr]
  rw [hafter]
  exact GuardedRun.of_exec (fun _ _ _ => trivial) hr

end EventLoop

/-- Handlers of the user only, each with a descriptor of its own. -/
def userHandlers : Config := { handler := fun e => .user (e + 3), intervalOccurrencesLimit := 10 }

end Libael
