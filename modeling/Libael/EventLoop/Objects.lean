import Libael.EventLoop.Lifecycle

/-!
# Libael.EventLoop.Objects

Which `Event` objects exist. Whatever refers to an event refers to one that exists, and the
events that exist own pairwise distinct descriptors: the kernel may hand a number out again,
but only after the event that owned it has been destroyed.

* `Owned` is the invariant. It goes through every place that holds a reference: the attached
  handlers, `events_`, `events_to_close_`, `events_` of the notification system, its pending
  queues, the interest list and the ready items of the kernel, the frames of the loop and the
  calls under way. The kernel has no `weak_ptr`, so its two clauses are the delicate ones.
* `Finalizes` inverts the three finalize functions once. It leaves out the turns that throw,
  since a run in which one of them has thrown is over for the loop.
* A step either leaves the references alone (`owned_of_quiet`, `Owned.withFrames` and the
  lemmas beside them), or is one of four: an event is created, registered, removed or
  destroyed. `owned_step` splits on which.
-/

namespace Libael

open Lts

namespace EPoll

/-- `EPOLL_CTL_ADD` that fails changes nothing; one that succeeds found the descriptor free. -/
theorem ctlAdd_interest {p p' : EPoll} {fd : Fd} {e : EventId} {ret : Option Errno}
    (h : p.ctlAdd fd e ret = some p') : p'.readyItems = p.readyItems ∧
      ((ret ≠ none ∧ p'.interest = p.interest) ∨
        (ret = none ∧ p.interest fd = none ∧
          p'.interest = Function.update p.interest fd (some e))) := by
  cases ret with
  | some errno =>
      obtain rfl : p = p' := by simpa [ctlAdd] using h
      exact ⟨rfl, .inl ⟨by simp, rfl⟩⟩
  | none =>
      simp only [ctlAdd] at h
      split at h
      · rename_i hfree
        obtain rfl := Option.some.inj h
        exact ⟨rfl, .inr ⟨rfl, hfree, rfl⟩⟩
      · exact absurd h (by simp)

@[simp] theorem queueItem_interest (p : EPoll) (i : Item) :
    (p.queueItem i).interest = p.interest := by unfold queueItem; split <;> rfl

@[simp] theorem wakeup_interest (p : EPoll) : p.wakeup.interest = p.interest := by simp [wakeup]

theorem mem_wakeup {p : EPoll} {i : Item} :
    i ∈ p.wakeup.readyItems ↔ i ∈ p.readyItems ∨ i = .pendingFd := mem_queueItem

theorem mem_unregister {p : EPoll} {fd fd' : Fd} {e : EventId} :
    .descriptor fd' e ∈ (p.unregister fd).readyItems ↔
      .descriptor fd' e ∈ p.readyItems ∧ fd' ≠ fd := by
  simp [unregister]

/-- `epoll_wait` reports, and leaves queued, only what was queued. Items that report nothing are
dropped on the way, as the kernel drops one whose poll comes back empty. -/
theorem harvest_subset {report : Item → Option EPollEvents} : ∀ {room : Nat} {items : List Item},
    (∀ n ∈ (harvest report room items).1, n.item ∈ items) ∧
      ∀ i ∈ (harvest report room items).2, i ∈ items
  | 0, items => by simp [harvest]
  | _ + 1, [] => by simp [harvest]
  | room + 1, i :: items => by
      cases hi : report i with
      | none =>
          simp only [harvest, hi]
          obtain ⟨h₁, h₂⟩ := @harvest_subset report (room + 1) items
          exact ⟨fun n hn => List.mem_cons_of_mem _ (h₁ n hn),
            fun j hj => List.mem_cons_of_mem _ (h₂ j hj)⟩
      | some events =>
          simp only [harvest, hi]
          obtain ⟨h₁, h₂⟩ := @harvest_subset report room items
          refine ⟨fun n hn => ?_, fun j hj => List.mem_cons_of_mem _ (h₂ j hj)⟩
          rcases List.mem_cons.mp hn with rfl | hn
          · exact List.mem_cons_self
          · exact List.mem_cons_of_mem _ (h₁ n hn)

end EPoll

namespace EventLoop

/-- What a finalize function does when it does not throw. `FinalizeAdd` and `FinalizeRemove` of
an event with a descriptor change both the table and the interest list of the kernel, those of
one without a descriptor neither; `FinalizeReady` changes nothing. -/
inductive Finalizes (cfg : Config) (s : EventLoop) : Element → LoopNext → Prop
  | addNoHandle {e} : cfg.valid e = false → Finalizes cfg s (.add e) {
      loop := s
      frames := if (s.handlers e).alive then [.handleEvents e 0, .release e] else []
      obs := [.finalize (.add e)] }
  | add {e asked} : cfg.valid e = true → s.epoll.interest (cfg.handle e) = none →
      Finalizes cfg s (.add e) {
        loop := { s with epoll := { s.epoll with
          events := Function.update s.epoll.events (cfg.handle e) (some e)
          interest := Function.update s.epoll.interest (cfg.handle e) (some e) } }
        obs := [.finalize (.add e), .ctlAdd e
          (EPollEvents.EPOLLET ||| getEPollEventsFromEvents (s.getEvents cfg e asked))] }
  | removeNoHandle {e} : cfg.valid e = false → Finalizes cfg s (.remove e) {
      loop := s
      obs := [.finalize (.remove e)] }
  | remove {e} : cfg.valid e = true → s.epoll.events (cfg.handle e) ≠ none →
      Finalizes cfg s (.remove e) {
        loop := { s with epoll := { s.epoll with
          events := Function.update s.epoll.events (cfg.handle e) none }.unregister (cfg.handle e) }
        obs := [.finalize (.remove e), .ctlDel e] }
  | ignored {e events attached} : s.epoll.events (cfg.handle e) ≠ some e →
      Finalizes cfg s (.ready e events attached) {
        loop := s
        obs := [.finalize (.ready e events attached), .ignored e] }
  | ready {e events attached} : s.epoll.events (cfg.handle e) = some e →
      Finalizes cfg s (.ready e events attached) {
        loop := s
        frames := if (s.handlers e).alive then [.handleEvents e events, .release e] else []
        obs := [.finalize (.ready e events attached)] }

/-- `Finalizes` covers every turn of a finalize loop that does not throw. -/
theorem finalizes {cfg : Config} {s : EventLoop} {i : LoopInput} {element : Element} {n : LoopNext}
    (h : s.finalizeElement cfg i element = some n) (hthrew : n.threw = none) :
    Finalizes cfg s element n := by
  cases element with
  | add e =>
      cases i <;> simp only [finalizeElement, addFinalize, reduceCtorEq] at h
      case none =>
        split at h
        · exact absurd h (by simp)
        · rename_i hvalid
          obtain rfl := Option.some.inj h
          exact .addNoHandle (by simpa using hvalid)
      case ctl asked ret =>
        split at h
        · rename_i hvalid
          obtain ⟨epoll, hctl, rfl⟩ := Option.map_eq_some_iff.mp h
          cases ret with
          | some errno => exact absurd hthrew (by simp)
          | none =>
              simp only [EPoll.ctlAdd] at hctl
              split at hctl
              · rename_i hfree
                obtain rfl := Option.some.inj hctl
                exact .add hvalid hfree
              · exact absurd hctl (by simp)
        · exact absurd h (by simp)
  | remove e =>
      cases i <;> simp only [finalizeElement, removeFinalize, reduceCtorEq] at h
      case none =>
        split at h
        · rename_i hvalid
          obtain rfl := Option.some.inj h
          exact .removeNoHandle (by simpa using hvalid)
        · split at h
          · obtain rfl := Option.some.inj h
            exact absurd hthrew (by simp)
          · exact absurd h (by simp)
      case ctl asked ret =>
        split at h
        · rename_i hcond
          rw [Bool.and_eq_true] at hcond
          obtain ⟨epoll, hctl, rfl⟩ := Option.map_eq_some_iff.mp h
          cases ret with
          | some errno => exact absurd hthrew (by simp)
          | none =>
              simp only [EPoll.ctlDel] at hctl
              split at hctl
              · exact absurd hctl (by simp)
              · obtain rfl := Option.some.inj hctl
                exact .remove hcond.1 (Option.isSome_iff_ne_none.mp hcond.2)
        · exact absurd h (by simp)
  | ready e events attached =>
      cases i <;> simp only [finalizeElement, readyFinalize, reduceCtorEq] at h
      split at h
      · rename_i hother
        obtain rfl := Option.some.inj h
        exact .ignored (by simpa using hother)
      · rename_i hsame
        obtain rfl := Option.some.inj h
        exact .ready (by simpa using hsame)

/-- Every reference is to an event that exists. The table and the interest list moreover key an
event by its own descriptor; `readyItems` says that the kernel reports no descriptor that it does
not watch, and `distinct` that no two events share one. -/
structure Owned (cfg : Config) (s : EventLoop) : Prop where
  /-- A living handler that has been attached holds its event. -/
  handlers : ∀ e, (s.handlers e).alive = true → (s.handlers e).attached = true → e ∈ s.objects
  /-- `EventLoop::events_` -/
  events : ∀ e ∈ s.events, e ∈ s.objects
  /-- `events_to_close_`, while the loop is being stopped. -/
  eventsToClose : ∀ e ∈ s.eventsToClose, e ∈ s.objects
  /-- `events_` of the notification system, under the descriptor of the event. -/
  table : ∀ fd e, s.epoll.events fd = some e →
    e ∈ s.objects ∧ cfg.handle e = fd ∧ cfg.valid e = true
  /-- The elements that wait in the three queues of `AddElement`. -/
  pending : ∀ q, ∀ element ∈ s.epoll.eventsPending q, element.event ∈ s.objects
  /-- What the thread of the loop has still to run. -/
  frames : ∀ f ∈ s.stack, ∀ e, f.mentions e = true → e ∈ s.objects
  /-- The calls under way, on any thread. -/
  calls : ∀ a p, s.calls.lookup a = some p → ∀ e, p.mentions e = true → e ∈ s.objects
  /-- The interest list of the kernel, which holds a bare pointer. -/
  interest : ∀ fd e, s.epoll.interest fd = some e →
    e ∈ s.objects ∧ cfg.handle e = fd ∧ cfg.valid e = true
  /-- An item is ready for a registration that is still there. -/
  readyItems : ∀ fd e, .descriptor fd e ∈ s.epoll.readyItems → s.epoll.interest fd = some e
  /-- Two events with the same descriptor are one. -/
  distinct : ∀ e ∈ s.objects, ∀ e' ∈ s.objects, cfg.valid e = true →
    cfg.handle e = cfg.handle e' → e = e'
  /-- An event is created by `Attach`, and once. -/
  attached : ∀ e ∈ s.objects, (s.handlers e).attached = true
  nodup : s.objects.Nodup

theorem owned_init (cfg : Config) : Owned cfg init where
  handlers e _ h := absurd h (by simp [init])
  events e he := absurd he List.not_mem_nil
  eventsToClose e he := absurd he List.not_mem_nil
  table fd e h := absurd h (by simp [init, EPoll.new])
  pending q element h := absurd h (by simp [init, EPoll.new])
  frames f hf e h := by
    rw [List.mem_singleton.mp hf] at h
    exact absurd h (by simp [LoopFrame.mentions])
  calls a p h := absurd h (by simp [init])
  interest fd e h := absurd h (by simp [init, EPoll.new])
  readyItems fd e h := absurd h (by simp [init, EPoll.new])
  distinct e he := absurd he List.not_mem_nil
  attached e he := absurd he List.not_mem_nil
  nodup := List.nodup_nil

/-- What the destructor of an event may rely on. -/
theorem unreferenced_spec {cfg : Config} {s : EventLoop} {e : EventId}
    (h : s.unreferenced cfg e = true) :
    (s.handlers e).alive = false ∧ e ∉ s.events ∧ e ∉ s.eventsToClose ∧
      s.epoll.events (cfg.handle e) ≠ some e ∧
      (∀ q, ∀ element ∈ s.epoll.eventsPending q, element.event ≠ e) ∧
      (∀ f ∈ s.stack, f.mentions e = false) ∧
      ∀ a p, s.calls.lookup a = some p → p.mentions e = false := by
  unfold unreferenced at h
  rw [Bool.and_eq_true, Bool.and_eq_true, Bool.and_eq_true, Bool.and_eq_true, Bool.and_eq_true,
    Bool.and_eq_true] at h
  obtain ⟨⟨⟨⟨⟨⟨halive, hev⟩, hclose⟩, htable⟩, hpending⟩, hframes⟩, hcalls⟩ := h
  refine ⟨by simpa using halive, by simpa using hev, by simpa using hclose, by simpa using htable,
    fun q element hel => ?_, fun f hf => ?_, fun a p hp => ?_⟩
  · have hq : q ∈ [Queue.add, .remove, .ready] := by cases q <;> decide
    simpa using List.all_eq_true.mp (List.all_eq_true.mp hpending q hq) element hel
  · simpa using List.all_eq_true.mp hframes f hf
  · simpa using List.all_eq_true.mp hcalls ⟨a, p⟩ (AList.mem_lookup_iff.mp hp)

/-! ### New references -/

/-- The call `Close` begins, if it begins one, is for the event it was made on. -/
theorem mem_closeEvent_calls {s : EventLoop} {a : Agent} {e e' : EventId} {p : Progress}
    (hidle : s.calls.lookup a = none) (hp : (s.closeEvent a e).calls.lookup a = some p)
    (hm : p.mentions e' = true) : e' = e ∧ (s.handlers e).attached = true := by
  unfold closeEvent at hp
  split at hp
  · rename_i hatt
    rw [lookup_setCall, if_pos rfl] at hp
    obtain rfl := Option.some.inj hp
    have he : e = e' := by simpa [Progress.mentions] using hm
    exact ⟨he.symm, hatt⟩
  · rw [hidle] at hp
    exact absurd hp (by simp)

/-- A call of the public interface takes its event from a handler that exists. -/
theorem request_mentions {cfg : Config} {s s' : EventLoop} {a : Agent} {r : Request}
    {o : List LoopObs} (h : s.request cfg a r = some (s', o)) (hidle : s.calls.lookup a = none)
    {p : Progress} (hp : s'.calls.lookup a = some p) {e' : EventId} (hm : p.mentions e' = true) :
    (s.handlers e').alive = true ∧ (s.handlers e').attached = true := by
  cases requested h with
  | attach _ _ | attachInternal _ _ _ _ | stop _ =>
      rw [lookup_setCall, if_pos rfl] at hp
      obtain rfl := Option.some.inj hp
      exact absurd hm (by simp [Progress.mentions])
  | closeEvent halive =>
      obtain ⟨rfl, hatt⟩ := mem_closeEvent_calls hidle hp hm
      exact ⟨halive, hatt⟩
  | @cancel e _ _ _ halive =>
      have hidle' : (s.setHandler e { s.handlers e with canceled := true }).calls.lookup a = none :=
        hidle
      obtain ⟨rfl, hatt⟩ := mem_closeEvent_calls hidle' hp hm
      rw [handlers_setHandler, if_pos rfl] at hatt
      exact ⟨halive, hatt⟩
  | @ready e _ halive hatt =>
      rw [lookup_setCall, if_pos rfl] at hp
      obtain rfl := Option.some.inj hp
      obtain rfl : e = e' := by simpa [Progress.mentions, Element.event] using hm
      exact ⟨halive, hatt⟩
  | @destroyed e halive _ _ =>
      have hidle' : (s.setHandler e { s.handlers e with alive := false }).calls.lookup a = none :=
        hidle
      obtain ⟨rfl, hatt⟩ := mem_closeEvent_calls hidle' hp hm
      rw [handlers_setHandler, if_pos rfl] at hatt
      exact ⟨halive, hatt⟩
  | readyIgnored _ _ | modifyOutside _ _ _ | modify _ _ _ _ | modifyThrows _ _ _
  | modifyFails _ _ _ | modifyIgnored _ _ =>
      exact absurd (hidle.symm.trans hp) (by simp)

/-- What a light frame leaves to run refers to the event of the frame, or to one of the
table. -/
theorem runFrame_mentions {cfg : Config} {s : EventLoop} {rest : List LoopFrame} {i : LoopInput}
    {f : LoopFrame} {n : LoopNext} (hf : f.light = true) (h : s.runFrame cfg rest i f = some n)
    {e : EventId} {g : LoopFrame} (hg : g ∈ n.frames) (hm : g.mentions e = true) :
    f.mentions e = true ∨ e ∈ s.events := by
  cases lightRun hf h with
  | copied =>
      rw [List.mem_singleton.mp hg] at hm
      exact .inr (by simpa [LoopFrame.mentions] using hm)
  | @closes events e' he' =>
      rcases List.mem_cons.mp hg with rfl | hg
      · obtain rfl : e' = e := by simpa [LoopFrame.mentions] using hm
        exact .inl (by simpa [LoopFrame.mentions] using he')
      · rw [List.mem_singleton.mp hg] at hm
        refine .inl ?_
        simp only [LoopFrame.mentions, List.contains_iff_mem] at hm ⊢
        exact List.mem_of_mem_erase hm
  | observed _ | goesOn _ | allClosed | wakes | passed =>
      rw [List.mem_singleton.mp hg] at hm
      exact absurd hm (by simp [LoopFrame.mentions])
  | user _ | timer _ _ _ | expired _ _ | expiredDead _ _ | oneShot _ =>
      rw [List.mem_singleton.mp hg] at hm
      exact .inl hm
  | execute _ _ =>
      simp only [List.mem_cons, List.not_mem_nil, or_false] at hg
      obtain rfl | rfl | rfl := hg <;> exact .inl hm
  | executeDead _ _ | occurrence =>
      simp only [List.mem_cons, List.not_mem_nil, or_false] at hg
      obtain rfl | rfl := hg <;> exact .inl hm
  | _ => exact absurd hg List.not_mem_nil

/-- A call begun by a light frame is for the event of the frame. -/
theorem runFrame_calls {cfg : Config} {s : EventLoop} {rest : List LoopFrame} {i : LoopInput}
    {f : LoopFrame} {n : LoopNext} (hf : f.light = true) (h : s.runFrame cfg rest i f = some n)
    (hidle : s.calls.lookup .loop = none) {p : Progress} (hp : n.loop.calls.lookup .loop = some p)
    {e : EventId} (hm : p.mentions e = true) : f.mentions e = true := by
  cases lightRun hf h with
  | @closeEvent e' =>
      obtain ⟨rfl, -⟩ := mem_closeEvent_calls hidle hp hm
      simp [LoopFrame.mentions]
  | @dropped e' _ _ _ =>
      have hidle' : (s.setHandler e' { s.handlers e' with alive := false }).calls.lookup .loop =
          none := hidle
      obtain ⟨rfl, -⟩ := mem_closeEvent_calls hidle' hp hm
      simp [LoopFrame.mentions]
  | wakes =>
      rw [lookup_setCall, if_pos rfl] at hp
      obtain rfl := Option.some.inj hp
      exact absurd hm (by simp [Progress.mentions])
  | _ => exact absurd (hidle.symm.trans hp) (by simp)

/-! ### One step -/

/-- Code of the user, or a light frame, has run. It has neither created nor destroyed an event,
nor touched the notification system. -/
theorem owned_of_quiet {cfg : Config} {s s' : EventLoop} {a : Agent} (h : Owned cfg s)
    (hquiet : Quiet s a s')
    (hcalls : ∀ p, s'.calls.lookup a = some p → ∀ e, p.mentions e = true → e ∈ s.objects) :
    Owned cfg s' where
  handlers e halive hatt := by
    rw [hquiet.objects]
    exact h.handlers e (hquiet.alive e halive) ((hquiet.attached e).symm.trans hatt)
  events e he := by
    rw [hquiet.events] at he
    rw [hquiet.objects]
    exact h.events e he
  eventsToClose e he := by
    rw [hquiet.objects]
    rcases hquiet.eventsToClose e he with he | he
    · exact h.eventsToClose e he
    · exact h.events e he
  table fd e he := by
    rw [hquiet.epoll] at he
    rw [hquiet.objects]
    exact h.table fd e he
  pending q element hel := by
    rw [hquiet.epoll] at hel
    rw [hquiet.objects]
    exact h.pending q element hel
  frames f hf e hm := by
    rw [hquiet.stack] at hf
    rw [hquiet.objects]
    exact h.frames f hf e hm
  calls b p hp e hm := by
    rw [hquiet.objects]
    by_cases hb : b = a
    · rw [hb] at hp
      exact hcalls p hp e hm
    · rw [hquiet.lookup_of_ne hb] at hp
      exact h.calls b p hp e hm
  interest fd e he := by
    rw [hquiet.epoll] at he
    rw [hquiet.objects]
    exact h.interest fd e he
  readyItems fd e he := by
    rw [hquiet.epoll] at he ⊢
    exact h.readyItems fd e he
  distinct e he e' he' := by
    rw [hquiet.objects] at he he'
    exact h.distinct e he e' he'
  attached e he := by
    rw [hquiet.objects] at he
    rw [hquiet.attached]
    exact h.attached e he
  nodup := by
    rw [hquiet.objects]
    exact h.nodup

/-- The frames of the stack have changed. -/
theorem Owned.withStack {cfg : Config} {s : EventLoop} (h : Owned cfg s) {stack : List LoopFrame}
    (hframes : ∀ f ∈ stack, ∀ e, f.mentions e = true → e ∈ s.objects) :
    Owned cfg { s with stack } :=
  { h with frames := hframes }

/-- The frames that stand for the innermost one mention events that exist. -/
theorem Owned.withFrames {cfg : Config} {s s' : EventLoop} {f : LoopFrame} {rest : List LoopFrame}
    (frames : List LoopFrame) (h : Owned cfg s') (hold : Owned cfg s)
    (hobjects : s'.objects = s.objects) (hstack : s.stack = f :: rest)
    (hframes : ∀ g ∈ frames, ∀ e, g.mentions e = true → e ∈ s.objects) :
    Owned cfg { s' with stack := frames ++ rest } := by
  refine h.withStack fun g hg e hm => ?_
  rw [hobjects]
  rcases List.mem_append.mp hg with hg | hg
  · exact hframes g hg e hm
  · exact hold.frames g (by simp [hstack, hg]) e hm

/-- The call of `a` has moved on. -/
theorem Owned.setCall {cfg : Config} {s : EventLoop} (h : Owned cfg s) (a : Agent) {p : Progress}
    (hp : ∀ e, p.mentions e = true → e ∈ s.objects) : Owned cfg (s.setCall a p) :=
  { h with
    calls := fun b q hq e hm => by
      rw [lookup_setCall] at hq
      split at hq
      · obtain rfl := Option.some.inj hq
        exact hp e hm
      · exact h.calls b q hq e hm }

theorem Owned.endCall {cfg : Config} {s : EventLoop} (h : Owned cfg s) (a : Agent) :
    Owned cfg (s.endCall a) :=
  { h with
    calls := fun b q hq e hm => by
      rw [lookup_endCall] at hq
      split at hq
      · exact absurd hq (by simp)
      · exact h.calls b q hq e hm }

/-- Only what a handler keeps for itself has changed. -/
theorem Owned.setHandler {cfg : Config} {s : EventLoop} (h : Owned cfg s) {e : EventId}
    {handler : EventHandler} (hattached : handler.attached = (s.handlers e).attached)
    (halive : handler.alive = true → (s.handlers e).alive = true) :
    Owned cfg (s.setHandler e handler) :=
  { h with
    handlers := fun e' halive' hatt' => by
      rw [handlers_setHandler] at halive' hatt'
      split at halive'
      · rename_i heq
        rw [if_pos heq] at hatt'
        rw [heq]
        exact h.handlers e (halive halive') (hattached.symm.trans hatt')
      · rename_i hne
        rw [if_neg hne] at hatt'
        exact h.handlers e' halive' hatt'
    attached := fun e' he' => by
      rw [handlers_setHandler]
      split
      · rename_i heq
        rw [heq] at he'
        exact hattached.trans (h.attached e he')
      · exact h.attached e' he' }

/-- The call of `AddElement` returns. -/
theorem Owned.complete {cfg : Config} {s : EventLoop} (h : Owned cfg s) (a : Agent)
    (element : Element) : Owned cfg (s.complete a element) := by
  cases element with
  | remove e => exact (h.endCall a).setHandler rfl id
  | add e => exact h.endCall a
  | ready e events attached => exact h.endCall a

/-- Nothing has been registered. The table and the interest list are as they were; items may have
left the queue of the kernel, and elements of events that exist may have come. -/
theorem Owned.withEpoll {cfg : Config} {s : EventLoop} (h : Owned cfg s) {epoll : EPoll}
    (hevents : epoll.events = s.epoll.events) (hinterest : epoll.interest = s.epoll.interest)
    (hitems : ∀ fd e, .descriptor fd e ∈ epoll.readyItems → s.epoll.interest fd = some e)
    (hpending : ∀ q, ∀ element ∈ epoll.eventsPending q, element.event ∈ s.objects) :
    Owned cfg { s with epoll } :=
  { h with
    table := fun fd e he => h.table fd e (by rw [← hevents]; exact he)
    pending := hpending
    interest := fun fd e he => h.interest fd e (by rw [← hinterest]; exact he)
    readyItems := fun fd e he => by
      dsimp only
      rw [hinterest]
      exact hitems fd e he }

/-- `Wakeup` queues the eventfd, which refers to no event. -/
theorem Owned.wakeup {cfg : Config} {s : EventLoop} (h : Owned cfg s) (lock : Option Agent) :
    Owned cfg { s with epoll := { s.epoll.wakeup with lock } } := by
  refine h.withEpoll (EPoll.wakeup_events _) (EPoll.wakeup_interest _) (fun fd e he => ?_) ?_
  · rcases EPoll.mem_wakeup.mp he with he | he
    · exact h.readyItems fd e he
    · exact absurd he (by simp)
  · intro q element hel
    dsimp only at hel
    rw [EPoll.wakeup_eventsPending] at hel
    exact h.pending q element hel

/-- `AddElement` pushes an element of an event that its caller still holds. -/
theorem Owned.push {cfg : Config} {s : EventLoop} (h : Owned cfg s) {a : Agent} {element : Element}
    (hp : s.calls.lookup a = some (.pushing element)) : Owned cfg (s.push a element) := by
  have hel : element.event ∈ s.objects :=
    h.calls a _ hp _ (by simp [Progress.mentions])
  have hpending : ∀ q, ∀ element' ∈ Function.update s.epoll.eventsPending element.queue
      (s.epoll.eventsPending element.queue ++ [element]) q, element'.event ∈ s.objects := by
    intro q element' hel'
    by_cases hq : q = element.queue
    · rw [hq, Function.update_self] at hel'
      rcases List.mem_append.mp hel' with hel' | hel'
      · exact h.pending _ element' hel'
      · rw [List.mem_singleton.mp hel']
        exact hel
    · rw [Function.update_of_ne hq] at hel'
      exact h.pending q element' hel'
  rcases push_spec s a element with ⟨hempty, heq⟩ | ⟨-, heq⟩
  · rw [heq]
    rw [hempty, List.nil_append] at hpending
    refine Owned.setCall ?_ a ?_
    · exact h.withEpoll rfl rfl h.readyItems hpending
    · intro e hm
      obtain rfl : element.event = e := by simpa [Progress.mentions] using hm
      exact hel
  · rw [heq]
    refine Owned.complete ?_ a element
    exact h.withEpoll rfl rfl h.readyItems hpending

/-- The frames above a finalize loop refer to its event. -/
theorem finalizes_mentions {cfg : Config} {s : EventLoop} {element : Element} {n : LoopNext}
    (h : Finalizes cfg s element n) {f : LoopFrame} (hf : f ∈ n.frames) {e : EventId}
    (hm : f.mentions e = true) : element.event = e := by
  have hpair : ∀ e' events, f ∈ [LoopFrame.handleEvents e' events, .release e'] → e' = e := by
    intro e' events hf'
    rcases List.mem_cons.mp hf' with rfl | hf'
    · simpa [LoopFrame.mentions] using hm
    · rw [List.mem_singleton.mp hf'] at hm
      simpa [LoopFrame.mentions] using hm
  cases h with
  | @addNoHandle e' _ =>
      dsimp only at hf
      split at hf
      · exact hpair _ _ hf
      · exact absurd hf List.not_mem_nil
  | @ready e' events attached _ =>
      dsimp only at hf
      split at hf
      · exact hpair _ _ hf
      · exact absurd hf List.not_mem_nil
  | _ => exact absurd hf List.not_mem_nil

/-- A finalize function has been called on an element of an event that exists. `AddFinalize`
registers that event under its own descriptor, which nobody else has; the others make no new
reference, and what the kernel keeps ready is only cut. -/
theorem owned_of_finalizes {cfg : Config} {s : EventLoop} (h : Owned cfg s) {element : Element}
    (hel : element.event ∈ s.objects) {n : LoopNext} (hfin : Finalizes cfg s element n) :
    Owned cfg n.loop := by
  cases hfin with
  | @add e asked hvalid hfree =>
      refine { h with
        table := fun fd e' he' => ?_
        interest := fun fd e' he' => ?_
        readyItems := fun fd e' he' => ?_ }
      · by_cases hfd : fd = cfg.handle e
        · dsimp only at he'
          rw [hfd, Function.update_self] at he'
          obtain rfl := Option.some.inj he'
          exact ⟨hel, hfd.symm, hvalid⟩
        · dsimp only at he'
          rw [Function.update_of_ne hfd] at he'
          exact h.table fd e' he'
      · by_cases hfd : fd = cfg.handle e
        · dsimp only at he'
          rw [hfd, Function.update_self] at he'
          obtain rfl := Option.some.inj he'
          exact ⟨hel, hfd.symm, hvalid⟩
        · dsimp only at he'
          rw [Function.update_of_ne hfd] at he'
          exact h.interest fd e' he'
      · have hi := h.readyItems fd e' he'
        by_cases hfd : fd = cfg.handle e
        · rw [hfd, hfree] at hi
          exact absurd hi (by simp)
        · dsimp only
          rw [Function.update_of_ne hfd]
          exact hi
  | @remove e hvalid hsome =>
      refine { h with
        table := fun fd e' he' => ?_
        interest := fun fd e' he' => ?_
        readyItems := fun fd e' he' => ?_ }
      · by_cases hfd : fd = cfg.handle e
        · simp [EPoll.unregister, hfd] at he'
        · simp only [EPoll.unregister, Function.update_of_ne hfd] at he'
          exact h.table fd e' he'
      · by_cases hfd : fd = cfg.handle e
        · simp [EPoll.unregister, hfd] at he'
        · simp only [EPoll.unregister, Function.update_of_ne hfd] at he'
          exact h.interest fd e' he'
      · obtain ⟨hmem, hne⟩ := EPoll.mem_unregister.mp he'
        change Function.update s.epoll.interest (cfg.handle e) none fd = some e'
        rw [Function.update_of_ne hne]
        exact h.readyItems fd e' hmem
  | _ => exact h

/-- The destructor of an event leaves no reference behind. It runs when nobody holds the event,
so the only reference it has to drop is the registration of the kernel, which `close` drops with
the descriptor. -/
theorem owned_destroyed {cfg : Config} {s : EventLoop} (h : Owned cfg s) {e : EventId}
    (hun : s.unreferenced cfg e = true) {epoll : EPoll}
    (hepoll : cfg.valid e = false ∧ epoll = s.epoll ∨
      cfg.valid e = true ∧ epoll = s.epoll.unregister (cfg.handle e)) :
    Owned cfg { s with objects := s.objects.erase e, epoll } := by
  obtain ⟨halive, hev, hclose, htable, hpending, hframes, hcalls⟩ := unreferenced_spec hun
  have hkeep : ∀ e', e' ∈ s.objects → e' ≠ e → e' ∈ s.objects.erase e := fun e' he' hne =>
    (List.mem_erase_of_ne hne).mpr he'
  have hevents : epoll.events = s.epoll.events := by rcases hepoll with ⟨-, rfl⟩ | ⟨-, rfl⟩ <;> rfl
  have hqueues : epoll.eventsPending = s.epoll.eventsPending := by
    rcases hepoll with ⟨-, rfl⟩ | ⟨-, rfl⟩ <;> rfl
  -- with the descriptor its registration goes
  have hinterest : ∀ fd e', epoll.interest fd = some e' → s.epoll.interest fd = some e' ∧
      e' ≠ e := by
    intro fd e' he'
    rcases hepoll with ⟨hvalid, rfl⟩ | ⟨hvalid, rfl⟩
    · refine ⟨he', fun heq => ?_⟩
      have hvalid' := (h.interest fd e' he').2.2
      rw [heq, hvalid] at hvalid'
      exact absurd hvalid' (by simp)
    · by_cases hfd : fd = cfg.handle e
      · simp [EPoll.unregister, hfd] at he'
      · simp only [EPoll.unregister, Function.update_of_ne hfd] at he'
        refine ⟨he', fun heq => hfd ?_⟩
        rw [← (h.interest fd e' he').2.1, heq]
  exact {
    handlers := fun e' halive' hatt' => by
      refine hkeep e' (h.handlers e' halive' hatt') fun heq => ?_
      rw [heq, halive] at halive'
      exact absurd halive' (by simp)
    events := fun e' he' => hkeep e' (h.events e' he') fun heq => hev (heq ▸ he')
    eventsToClose := fun e' he' => hkeep e' (h.eventsToClose e' he') fun heq => hclose (heq ▸ he')
    table := fun fd e' he' => by
      dsimp only at he'
      rw [hevents] at he'
      obtain ⟨hmem, hfd, hvalid⟩ := h.table fd e' he'
      refine ⟨hkeep e' hmem fun heq => htable ?_, hfd, hvalid⟩
      rw [← heq, hfd]
      exact he'
    pending := fun q element hel => by
      dsimp only at hel
      rw [hqueues] at hel
      exact hkeep _ (h.pending q element hel) (hpending q element hel)
    frames := fun f hf e' hm => hkeep e' (h.frames f hf e' hm) fun heq => by
      rw [heq, hframes f hf] at hm
      exact absurd hm (by simp)
    calls := fun a p hp e' hm => hkeep e' (h.calls a p hp e' hm) fun heq => by
      rw [heq, hcalls a p hp] at hm
      exact absurd hm (by simp)
    interest := fun fd e' he' => by
      obtain ⟨hi, hne⟩ := hinterest fd e' he'
      obtain ⟨hmem, hfd, hvalid⟩ := h.interest fd e' hi
      exact ⟨hkeep e' hmem hne, hfd, hvalid⟩
    readyItems := fun fd e' he' => by
      dsimp only at he' ⊢
      rcases hepoll with ⟨-, rfl⟩ | ⟨-, rfl⟩
      · exact h.readyItems fd e' he'
      · obtain ⟨hmem, hne⟩ := EPoll.mem_unregister.mp he'
        simp only [EPoll.unregister, Function.update_of_ne hne]
        exact h.readyItems fd e' hmem
    distinct := fun e₁ h₁ e₂ h₂ =>
      h.distinct e₁ (List.mem_of_mem_erase h₁) e₂ (List.mem_of_mem_erase h₂)
    attached := fun e' he' => h.attached e' (List.mem_of_mem_erase he')
    nodup := h.nodup.erase _ }

/-- `CreateEvent`: the kernel has handed out a descriptor that nobody owns, so the new event is
distinct from those that exist. -/
theorem owned_created {cfg : Config} {s : EventLoop} (h : Owned cfg s) (a : Agent) {e : EventId}
    (hatt : (s.handlers e).attached = false) (hfresh : s.freshHandle cfg e = true) :
    Owned cfg (({ s with objects := e :: s.objects, events := e :: s.events }.setHandler e
      { s.handlers e with attached := true }).setCall a (.pushing (.add e))) := by
  have hnew : e ∉ s.objects := fun he => by
    rw [h.attached e he] at hatt
    exact absurd hatt (by simp)
  have hother : ∀ e' ∈ s.objects, cfg.valid e = true → cfg.handle e' ≠ cfg.handle e := by
    intro e' he' hvalid
    unfold freshHandle at hfresh
    rw [hvalid, Bool.not_true, Bool.false_or] at hfresh
    simpa using List.all_eq_true.mp hfresh e' he'
  have hgrow : ∀ {e'}, e' ∈ s.objects → e' ∈ e :: s.objects := List.mem_cons_of_mem _
  refine Owned.setCall ?_ a ?_
  · exact {
      handlers := fun e' halive' hatt' => by
        rw [handlers_setHandler] at halive' hatt'
        split at halive'
        · rename_i heq
          exact heq ▸ List.mem_cons_self
        · rename_i hne
          rw [if_neg hne] at hatt'
          exact hgrow (h.handlers e' halive' hatt')
      events := fun e' he' => by
        rcases List.mem_cons.mp he' with rfl | he'
        · exact List.mem_cons_self
        · exact hgrow (h.events e' he')
      eventsToClose := fun e' he' => hgrow (h.eventsToClose e' he')
      table := fun fd e' he' => ⟨hgrow (h.table fd e' he').1, (h.table fd e' he').2⟩
      pending := fun q element hel => hgrow (h.pending q element hel)
      frames := fun f hf e' hm => hgrow (h.frames f hf e' hm)
      calls := fun b p hp e' hm => hgrow (h.calls b p hp e' hm)
      interest := fun fd e' he' => ⟨hgrow (h.interest fd e' he').1, (h.interest fd e' he').2⟩
      readyItems := h.readyItems
      distinct := fun e₁ h₁ e₂ h₂ hvalid heq => by
        rcases List.mem_cons.mp h₁ with h₁ | h₁
        · rcases List.mem_cons.mp h₂ with h₂ | h₂
          · rw [h₁, h₂]
          · rw [h₁] at hvalid heq
            exact absurd heq.symm (hother e₂ h₂ hvalid)
        · rcases List.mem_cons.mp h₂ with h₂ | h₂
          · have hvalid' : cfg.valid e = true := by
              unfold Config.valid at hvalid ⊢
              rw [← h₂, ← heq]
              exact hvalid
            rw [h₂] at heq
            exact absurd heq (hother e₁ h₁ hvalid')
          · exact h.distinct e₁ h₁ e₂ h₂ hvalid heq
      attached := fun e' he' => by
        rw [handlers_setHandler]
        split
        · rfl
        · rename_i hne
          exact h.attached e' ((List.mem_cons.mp he').resolve_left hne)
      nodup := List.nodup_cons.mpr ⟨hnew, h.nodup⟩ }
  · intro e' hm
    obtain rfl : e = e' := by simpa [Progress.mentions, Element.event] using hm
    exact List.mem_cons_self

/-- What has been polled is what was queued. -/
theorem owned_wait {cfg : Config} {s : EventLoop} (h : Owned cfg s)
    (poll : Fd → EventId → Option EPollEvents) :
    Owned cfg { s with epoll := (s.epoll.epollWait poll).2 } := by
  refine h.withEpoll rfl rfl (fun fd e he => ?_) h.pending
  exact h.readyItems fd e (EPoll.harvest_subset.2 _ he)

/-- The frames for a notification mention the event of the table. -/
theorem mentioned_of_notification {cfg : Config} {s : EventLoop} {n : Notification} {g : LoopFrame}
    {e : EventId} (h : Owned cfg s) (hg : g ∈ s.processNotification n)
    (hm : g.mentions e = true) : e ∈ s.objects := by
  rcases processNotification_spec s n with ⟨-, heq⟩ | ⟨-, heq | ⟨fd, e', events, he', heq⟩⟩ <;>
    rw [heq] at hg
  · rw [List.mem_singleton.mp hg] at hm
    exact absurd hm (by simp [LoopFrame.mentions])
  · exact absurd hg List.not_mem_nil
  · obtain rfl : e' = e := by
      rcases List.mem_pair.mp hg with rfl | rfl <;> simpa [LoopFrame.mentions] using hm
    exact (h.table fd e' he').1

/-- **One step keeps the references right.** Code of the user and light frames only pass on
references they hold; the turns of the loop that wait, swap and finalize move them from one place
of `Owned` to another. -/
theorem owned_step {cfg : Config} {l : LoopLabel} {s s' : EventLoop} {o : List LoopObs}
    (h : Owned cfg s) (hmove : Move cfg s l s' o) : Owned cfg s' := by
  cases hmove with
  | @call a r _ _ hmay hreq hquiet hobs =>
      refine owned_of_quiet h hquiet fun p hp e hm => ?_
      obtain ⟨halive, hatt⟩ := request_mentions hreq (idle_of_mayCall hmay) hp hm
      exact h.handlers e halive hatt
  | attachRefused _ _ | closeReturns _ _ => exact h.endCall _
  | created _ hatt hfresh => exact owned_created h _ hatt hfresh
  | pushed hp _ => exact h.push hp
  | @signalled a element hp => exact (h.wakeup none).complete a element
  | @woken a hp => exact Owned.endCall (h.wakeup s.epoll.wakeup.lock) a
  | @closeBegins a e hp _ =>
      have hset : Owned cfg (s.setHandler e { s.handlers e with closeFlag := .active }) :=
        h.setHandler rfl id
      refine hset.setCall a fun e' hm => ?_
      exact h.calls a _ hp e' hm
  | @erased a e hp he =>
      have herase : Owned cfg { s with events := s.events.erase e } :=
        { h with events := fun e' he' => h.events e' (List.mem_of_mem_erase he') }
      refine herase.setCall a fun e' hm => ?_
      exact h.calls a _ hp e' hm
  | @light i f rest n hstack hidle hlight hrun hquiet hobs hframes hnested =>
      have hf : ∀ e, f.mentions e = true → e ∈ s.objects := h.frames f (by simp [hstack])
      have hloop : Owned cfg n.loop := owned_of_quiet h hquiet fun p hp e hm =>
        hf e (runFrame_calls hlight hrun hidle hp hm)
      exact hloop.withFrames _ h hquiet.objects hstack fun g hg e hm =>
        (runFrame_mentions hlight hrun hg hm).elim (hf e) (h.events e)
  | @wait poll final rest hstack hidle =>
      refine (owned_wait h poll).withFrames [_] h rfl hstack fun g hg e hm => ?_
      rw [List.mem_singleton.mp hg] at hm
      split at hm <;> exact absurd hm (by simp [LoopFrame.mentions])
  | @notification n ns final rest hstack hidle =>
      have hmoved := h.withFrames (s.processNotification n ++ [.batch ns final]) h rfl
        hstack fun g hg e hm => (List.mem_append.mp hg).elim (mentioned_of_notification h · hm)
          fun hlast => absurd hm (by simp [List.mem_singleton.mp hlast, LoopFrame.mentions])
      simpa using hmoved
  | drain _ _ => exact h.withEpoll rfl rfl h.readyItems h.pending
  | @drained rest hstack hidle =>
      refine h.withFrames [.handleElements .add, .handleElements .remove,
        .handleElements .ready] h rfl hstack fun g hg e hm => ?_
      simp only [List.mem_cons, List.not_mem_nil, or_false] at hg
      obtain rfl | rfl | rfl := hg <;> exact absurd hm (by simp [LoopFrame.mentions])
  | @swapped q rest hstack hidle hlock =>
      have hswap : Owned cfg { s with epoll := (s.epoll.swapElements q).2 } := by
        refine h.withEpoll rfl rfl h.readyItems fun q' element hel => ?_
        by_cases hq : q' = q
        · simp [EPoll.swapElements, hq] at hel
        · simp only [EPoll.swapElements, Function.update_of_ne hq] at hel
          exact h.pending q' element hel
      have hany : ∀ e, (s.epoll.eventsPending q).any (·.event == e) = true → e ∈ s.objects := by
        intro e hany
        obtain ⟨element, hel, heq⟩ := List.any_eq_true.mp hany
        obtain rfl : element.event = e := by simpa using heq
        exact h.pending q element hel
      refine hswap.withFrames [.finalize (s.epoll.eventsPending q),
        .dispose (s.epoll.eventsPending q)] h rfl hstack fun g hg e hm => ?_
      rcases List.mem_pair.mp hg with rfl | rfl <;> exact hany e hm
  | @finalized i element elements rest n hstack hidle hrun hthrew =>
      have hfin := finalizes hrun hthrew
      have hframe : ∀ e, (LoopFrame.finalize (element :: elements)).mentions e = true →
          e ∈ s.objects := h.frames _ (by simp [hstack])
      have hel : element.event ∈ s.objects := hframe _ (by simp [LoopFrame.mentions])
      have hobjects : n.loop.objects = s.objects := by rw [(finalizeElement_spec hrun).2.1]
      have hmoved := (owned_of_finalizes h hel hfin).withFrames
        (n.frames ++ [.finalize elements]) h hobjects hstack fun g hg e hm => by
          rcases List.mem_append.mp hg with hg | hg
          · rw [← finalizes_mentions hfin hg hm]
            exact hel
          · rw [List.mem_singleton.mp hg] at hm
            refine hframe e ?_
            simp only [LoopFrame.mentions, List.any_cons, Bool.or_eq_true]
            exact .inr hm
      simpa using hmoved
  | @edge fd e he =>
      refine h.withEpoll (EPoll.queueItem_events ..) (EPoll.queueItem_interest ..) ?_ ?_
      · intro fd' e' he'
        rcases EPoll.mem_queueItem.mp he' with he' | heq
        · exact h.readyItems fd' e' he'
        · obtain ⟨rfl, rfl⟩ := Item.descriptor.inj heq
          exact he
      · intro q element hel
        rw [EPoll.queueItem_eventsPending] at hel
        exact h.pending q element hel
  | expire => exact h.setHandler rfl id
  | destroyed _ hun hepoll =>
      refine owned_destroyed h hun ?_
      rcases hepoll with ⟨hvalid, heq, -⟩ | ⟨hvalid, heq, -⟩
      · exact .inl ⟨hvalid, heq⟩
      · exact .inr ⟨hvalid, heq⟩

/-- Every reference is to an event that exists, in every state reached without a crash. -/
theorem owned_of_run {cfg : Config} {ok : LoopLabel → EventLoop → Prop} {tr : List LoopObs}
    {s : EventLoop} (h : GuardedRun (loopSystem cfg) ok init tr s) (hc : s.crashed = none) :
    Owned cfg s :=
  invariant_of_run (I := fun _ s => Owned cfg s) (owned_init cfg)
    (fun _ _ ih _ hmove => owned_step ih hmove) h hc

end EventLoop

end Libael
