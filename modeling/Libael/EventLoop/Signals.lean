import Libael.EventLoop.Stop

/-!
# Libael.EventLoop.Signals

**A signal on its way to a handler**: a ready element between the call of `ReadyEvent` and
the call of `HandleEvents`, or an edge between the ready queue of the kernel and that call.
While the event is registered and its handler alive, no step loses one: a ready element is
dispatched, and an edge is handed out for as long as polling the descriptor reports
something.
-/

namespace Libael

open Lts

namespace EventLoop

section

variable {cfg : Config} {l : LoopLabel} {s s' : EventLoop} {o : List LoopObs}
  {q p : Events → Prop} {e : EventId}

/-- A ready element of `e` with events of which `q` holds is on its way, or `HandleEvents` is
about to be called with events of which `p` holds. -/
inductive Signalled (q p : Events → Prop) (e : EventId) (s : EventLoop) : Prop
  | pushing (a : Agent) (events : Events) (attached : Bool) : q events →
      s.calls.lookup a = some (.pushing (.ready e events attached)) → Signalled q p e s
  | queued (events : Events) (attached : Bool) : q events →
      .ready e events attached ∈ s.epoll.eventsPending .ready → Signalled q p e s
  | draining (events : Events) (attached : Bool) : q events →
      .ready e events attached ∈ draining s.stack → Signalled q p e s
  | dispatched (events : Events) : p events → .handleEvents e events ∈ s.stack → Signalled q p e s

/-- `HandleEvents` is called by the frame that is there for it. -/
theorem calling_of_step (hs : step cfg l s = some (s', o)) {events : Events}
    (hmem : .handleEvents e events ∈ o) :
    ∃ i rest, l = .loop i ∧ s.stack = .handleEvents e events :: rest := by
  cases shown_of_step hs hmem rfl with
  | @handleEvents i _ _ rest hstack _ => exact ⟨i, rest, rfl, hstack⟩

/-! ### Ready elements -/

/-- A queued element stays queued until it is swapped out. -/
theorem queued_stays (hmove : Move cfg s l s' o) {q : Queue} {element : Element}
    (h : element ∈ s.epoll.eventsPending q) :
    element ∈ s'.epoll.eventsPending q ∨ element ∈ draining s'.stack := by
  cases hmove with
  | call _ _ hquiet _ => exact .inl (by rw [hquiet.epoll]; exact h)
  | @pushed a element' _ _ =>
      rw [push_eventsPending]
      by_cases hq : q = element'.queue
      · subst hq
        rw [Function.update_self]
        exact .inl (List.mem_append_left _ h)
      · rw [Function.update_of_ne hq]
        exact .inl h
  | signalled _ => exact .inl (by rw [complete_epoll]; simpa using h)
  | woken _ => exact .inl (by simpa [endCall] using h)
  | light _ _ _ _ hquiet _ _ _ => exact .inl (by dsimp only; rw [hquiet.epoll]; exact h)
  | @swapped q' rest _ _ _ =>
      by_cases hq : q = q'
      · subst hq
        refine .inr ?_
        rw [draining_cons]
        exact List.mem_append_left _ h
      · refine .inl ?_
        simp only [EPoll.swapElements, Function.update_of_ne hq]
        exact h
  | finalized _ _ hrun _ =>
      refine .inl ?_
      dsimp only
      rw [(finalizeElement_spec hrun).1.eventsPending]
      exact h
  | edge _ => exact .inl (by simpa using h)
  | destroyed _ _ hepoll =>
      rcases hepoll with ⟨-, rfl, -⟩ | ⟨-, rfl, -⟩ <;> exact .inl h
  | _ => exact .inl h

/-- A call that is about to push its element pushes it. -/
theorem pushing_stays (hmove : Move cfg s l s' o) {a : Agent} {element : Element}
    (h : s.calls.lookup a = some (.pushing element)) :
    s'.calls.lookup a = some (.pushing element) ∨
      element ∈ s'.epoll.eventsPending element.queue := by
  rcases call_stays hmove h with hstays | rfl
  · exact .inl hstays
  · cases hmove with
    | pushed hp _ =>
        obtain rfl := Progress.pushing.inj (Option.some.inj (hp.symm.trans h))
        refine .inr ?_
        rw [push_eventsPending, Function.update_self]
        exact List.mem_append_right _ (List.mem_singleton_self _)
    | attachRefused hp _ | created hp _ _ | closeBegins hp _ | closeReturns hp _ | signalled hp
    | woken hp | erased hp _ => exact absurd (hp.symm.trans h) (by simp)

/-- A call of `HandleEvents` that is due is made. -/
theorem dispatched_stays (hmove : Move cfg s l s' o) {events : Events}
    (h : .handleEvents e events ∈ s.stack) :
    .handleEvents e events ∈ s'.stack ∨ .handleEvents e events ∈ o := by
  rcases frame_stays hmove h with hstays | ⟨i, rest, rfl, hstack, -⟩
  · exact .inl hstays
  · refine .inr ?_
    cases hmove with
    | @light i f rest' n hstack' _ hlight hrun _ _ _ _ =>
        obtain ⟨rfl, rfl⟩ := List.cons.inj (hstack'.symm.trans hstack)
        cases lightRun hlight hrun with
        | user _ | execute _ _ | executeDead _ _ | timer _ _ _ | timerIgnored _ =>
            exact List.mem_cons_self
    | wait hstack' _ | notification hstack' _ | drain hstack' _ | drained hstack' _
    | swapped hstack' _ _ | finalized hstack' _ _ _ =>
        exact absurd (hstack'.symm.trans hstack) (by simp)

/-- `ReadyFinalize` dispatches an element of a registered event with a living handler. -/
theorem draining_dispatches (hmove : Move cfg s l s' o)
    (hreg : s.epoll.events (cfg.handle e) = some e)
    (halive : (s.handlers e).alive = true) {events : Events} {attached : Bool}
    (h : .ready e events attached ∈ draining s.stack) :
    .ready e events attached ∈ draining s'.stack ∨ .handleEvents e events ∈ s'.stack := by
  rcases draining_stays hmove h with hstays | hfin
  · exact .inl hstays
  · refine .inr ?_
    cases hmove with
    | @finalized i element elements rest n _ _ hrun hthrew =>
        have hfinalizes := finalizes hrun hthrew
        rw [finalized_obs hfinalizes] at hfin
        obtain rfl := List.mem_singleton.mp hfin
        cases hfinalizes with
        | ready _ =>
            rw [if_pos halive]
            exact List.mem_cons_self
        | ignored hno => exact absurd hreg hno
    | call _ _ _ hminor | light _ _ _ _ _ hminor _ _ =>
        exact absurd hfin (by rw [finalized_minor hminor]; exact List.not_mem_nil)
    | destroyed _ _ hepoll =>
        rcases hepoll with ⟨-, -, rfl⟩ | ⟨-, -, rfl⟩ <;> exact absurd hfin (by simp [finalized])
    | _ => exact absurd hfin (by simp [finalized])

/-- **A signal is not lost**: it stays on its way until `HandleEvents` is called with it. -/
theorem signalled_step (hmove : Move cfg s l s' o) (hqp : ∀ events, q events → p events)
    (hreg : s.epoll.events (cfg.handle e) = some e) (halive : (s.handlers e).alive = true)
    (h : Signalled q p e s) :
    Signalled q p e s' ∨ ∃ events, p events ∧ .handleEvents e events ∈ o := by
  cases h with
  | pushing a events attached hp ha =>
      rcases pushing_stays hmove ha with hstays | hqueued
      · exact .inl (.pushing a events attached hp hstays)
      · exact .inl (.queued events attached hp hqueued)
  | queued events attached hp hqueued =>
      rcases queued_stays hmove hqueued with hstays | hdraining
      · exact .inl (.queued events attached hp hstays)
      · exact .inl (.draining events attached hp hdraining)
  | draining events attached hp hdraining =>
      rcases draining_dispatches hmove hreg halive hdraining with hstays | hdispatched
      · exact .inl (.draining events attached hp hstays)
      · exact .inl (.dispatched events (hqp _ hp) hdispatched)
  | dispatched events hp hdispatched =>
      exact (dispatched_stays hmove hdispatched).imp (.dispatched events hp) fun ho =>
        ⟨events, hp, ho⟩

/-! ### Edges -/

/-- A signal of `e` is on its way: a ready element, or an edge of its descriptor that the
kernel has queued or `epoll_wait` has returned. -/
inductive Notified (cfg : Config) (q p : Events → Prop) (e : EventId) (s : EventLoop) : Prop
  | signalled : Signalled q p e s → Notified cfg q p e s
  | queued : .descriptor (cfg.handle e) e ∈ s.epoll.readyItems → Notified cfg q p e s
  | batched (ns : List Notification) (final : Bool) (n : Notification) :
      .batch ns final ∈ s.stack → n ∈ ns → n.item = .descriptor (cfg.handle e) e →
      p (getEventsFromEpollEvents n.events) → Notified cfg q p e s

/-- The notifications of a batch are dispatched in order. -/
theorem batch_dispatches (hmove : Move cfg s l s' o) (hreg : s.epoll.events (cfg.handle e) = some e)
    (halive : (s.handlers e).alive = true) {ns : List Notification} {final : Bool}
    {n : Notification} (hbatch : .batch ns final ∈ s.stack) (hn : n ∈ ns)
    (hitem : n.item = .descriptor (cfg.handle e) e) :
    (∃ ns', .batch ns' final ∈ s'.stack ∧ n ∈ ns') ∨
      .handleEvents e (getEventsFromEpollEvents n.events) ∈ s'.stack := by
  rcases frame_stays hmove hbatch with hstays | ⟨i, rest, rfl, hstack, -⟩
  · exact .inl ⟨ns, hstays, hn⟩
  · cases hmove with
    | @notification n' ns' final' rest' hstack' _ =>
        obtain ⟨hframe, rfl⟩ := List.cons.inj (hstack'.symm.trans hstack)
        obtain ⟨rfl, rfl⟩ := LoopFrame.batch.inj hframe
        rcases List.mem_cons.mp hn with rfl | hn
        · refine .inr (List.mem_append_left _ ?_)
          simp only [processNotification, hitem, hreg, halive, if_true]
          exact List.mem_cons_self
        · exact .inl ⟨ns', List.mem_append_right _ List.mem_cons_self, hn⟩
    | @light i f rest' _ hstack' _ hlight _ _ _ _ _ =>
        obtain ⟨rfl, -⟩ := List.cons.inj (hstack'.symm.trans hstack)
        cases ns with
        | nil => exact absurd hn List.not_mem_nil
        | cons => simp [LoopFrame.light] at hlight
    | wait hstack' _ | drain hstack' _ | drained hstack' _ | swapped hstack' _ _
    | finalized hstack' _ _ _ => exact absurd (hstack'.symm.trans hstack) (by simp)

/-- An item stays queued until `epoll_wait` polls it or its descriptor is unregistered. -/
theorem item_stays (hmove : Move cfg s l s' o) (howned : Owned cfg s)
    (hreg : s.epoll.events (cfg.handle e) = some e)
    (hreg' : s'.epoll.events (cfg.handle e) = some e)
    (h : .descriptor (cfg.handle e) e ∈ s.epoll.readyItems) :
    .descriptor (cfg.handle e) e ∈ s'.epoll.readyItems ∨
      ∃ poll final rest, l = .loop (.wait poll) ∧ s.stack = .process final :: rest := by
  cases hmove with
  | call _ _ hquiet _ => exact .inl (by rw [hquiet.epoll]; exact h)
  | @pushed a element _ _ =>
      rcases push_spec s a element with ⟨-, heq⟩ | ⟨-, heq⟩ <;> rw [heq]
      · exact .inl h
      · rw [complete_epoll]
        exact .inl h
  | signalled _ =>
      rw [complete_epoll]
      exact .inl (EPoll.mem_wakeup.mpr (.inl h))
  | woken _ => exact .inl (EPoll.mem_wakeup.mpr (.inl h))
  | light _ _ _ _ hquiet _ _ _ => exact .inl (by dsimp only; rw [hquiet.epoll]; exact h)
  | @wait poll final rest hstack _ => exact .inr ⟨poll, final, rest, rfl, hstack⟩
  | @finalized i element elements rest n _ _ hrun hthrew =>
      refine .inl ?_
      cases finalizes hrun hthrew with
      | @remove e' _ _ =>
          refine EPoll.mem_unregister.mpr ⟨h, fun heq => ?_⟩
          -- the removal of the event would leave its descriptor without one
          dsimp only [EPoll.unregister] at hreg'
          rw [heq, Function.update_self] at hreg'
          exact absurd hreg' (by simp)
      | _ => exact h
  | edge _ => exact .inl (EPoll.mem_queueItem.mpr (.inl h))
  | @destroyed e' epoll o hobj hun hepoll =>
      rcases hepoll with ⟨-, rfl, -⟩ | ⟨hvalid, rfl, -⟩
      · exact .inl h
      · refine .inl (EPoll.mem_unregister.mpr ⟨h, fun heq => ?_⟩)
        have hne := (unreferenced_spec hun).2.2.2.1
        have he := howned.table _ e hreg
        obtain rfl := howned.distinct e' hobj e he.1 hvalid heq.symm
        exact hne hreg
  | _ => exact .inl h

/-- **A signal stays on its way** until `HandleEvents` is called with it. An edge needs the
kernel for that: when `epoll_wait` polls the descriptor, it has to report something. -/
theorem notified_step (hmove : Move cfg s l s' o) (howned : Owned cfg s)
    (hqp : ∀ events, q events → p events)
    (hreg : s.epoll.events (cfg.handle e) = some e)
    (hreg' : s'.epoll.events (cfg.handle e) = some e) (halive : (s.handlers e).alive = true)
    (hpoll : ∀ poll, l = .loop (.wait poll) →
      ∃ events, poll (cfg.handle e) e = some events ∧ p (getEventsFromEpollEvents events))
    (h : Notified cfg q p e s) :
    Notified cfg q p e s' ∨ ∃ events, p events ∧ .handleEvents e events ∈ o := by
  cases h with
  | signalled hsignalled =>
      exact (signalled_step hmove hqp hreg halive hsignalled).imp_left .signalled
  | queued hitem =>
      rcases item_stays hmove howned hreg hreg' hitem with hstays | ⟨poll, final, rest, rfl, hstack⟩
      · exact .inl (.queued hstays)
      · obtain ⟨events, hevents, hp⟩ := hpoll poll rfl
        have hreport : EPoll.pollItem s.epoll.counter poll (.descriptor (cfg.handle e) e) =
            some events := hevents
        cases hmove with
        | @wait poll final' rest' hstack' _ =>
            rcases EPoll.mem_harvest hreport hitem with hmem | hmem
            · have hne : (s.epoll.epollWait poll).1 ≠ [] := List.ne_nil_of_mem hmem
              refine .inl (.batched _ final' _ ?_ hmem rfl hp)
              dsimp only
              rw [if_neg (by simpa [List.isEmpty_iff] using hne)]
              exact List.mem_cons_self
            · exact .inl (.queued hmem)
        | light hstack' _ hlight _ _ _ _ _ =>
            rw [hstack'] at hstack
            obtain ⟨rfl, -⟩ := List.cons.inj hstack
            simp [LoopFrame.light] at hlight
        | finalized hstack' _ _ _ => exact absurd (hstack'.symm.trans hstack) (by simp)
  | batched ns final n hbatch hn hitem hp =>
      rcases batch_dispatches hmove hreg halive hbatch hn hitem with
        ⟨ns', hbatch', hn'⟩ | hdispatched
      · exact .inl (.batched ns' final n hbatch' hn' hitem hp)
      · exact .inl (.signalled (.dispatched _ hp hdispatched))

/-! ### Nothing sleeps on a queued element

Whichever thread pushes the first element of a queue holds `lock_` until it has written to
the eventfd. So there is an edge for every queue with elements in it, unless its only
element is still being pushed or the loop is about to swap it. -/

/-- The edge of the eventfd stays, or it has been reported, and the swap of every queue is to
come. -/
theorem edge_stays (hmove : Move cfg s l s' o) (h : s.epoll.Edge) :
    s'.epoll.Edge ∨ ∀ queue, ∃ f ∈ s'.stack, f.drains queue := by
  cases l with
  | loop i =>
      cases hmove with
      | light _ _ _ _ hquiet _ _ _ => exact .inl (by dsimp only; rw [hquiet.epoll]; exact h)
      | @wait poll final rest _ _ =>
          rcases h.epollWait poll with hn | hedge
          · refine .inr fun queue => ⟨_, List.mem_cons_self, ?_⟩
            rw [if_neg (by simpa using h.epollWait_ne_nil poll)]
            exact hn
          · exact .inl hedge
      | drain hstack _ =>
          refine .inr fun queue => ⟨.eventfdRead, ?_, trivial⟩
          dsimp only
          rw [hstack]
          exact List.mem_cons_self
      | finalized _ _ hrun _ => exact .inl (h.of_same (finalizeElement_spec hrun).1)
      | notification _ _ | drained _ _ | swapped _ _ _ => exact .inl h
  | _ => exact .inl (edge_of_other hmove (by simp) h)

/-- A frame that is going to swap a queue is still there, or the queue has been swapped. -/
theorem drains_stays (hmove : Move cfg s l s' o) {queue : Queue}
    (h : ∃ f ∈ s.stack, f.drains queue) :
    s'.epoll.eventsPending queue = [] ∨ ∃ f ∈ s'.stack, f.drains queue := by
  obtain ⟨f, hf, hdrains⟩ := h
  rcases frame_stays hmove hf with hstays | ⟨i, rest, rfl, hstack, -⟩
  · exact .inr ⟨f, hstays, hdrains⟩
  · cases hmove with
    | @light i f' rest' n hstack' _ hlight _ _ _ _ _ =>
        obtain ⟨rfl, -⟩ := List.cons.inj (hstack'.symm.trans hstack)
        exact absurd hdrains (LoopFrame.not_drains_of_light hlight)
    | wait hstack' _ | finalized hstack' _ _ _ =>
        obtain ⟨rfl, -⟩ := List.cons.inj (hstack'.symm.trans hstack)
        exact absurd hdrains id
    | @notification n ns final rest' hstack' _ =>
        obtain ⟨rfl, -⟩ := List.cons.inj (hstack'.symm.trans hstack)
        obtain ⟨m, hm, hitem⟩ := hdrains
        refine .inr ?_
        rcases List.mem_cons.mp hm with rfl | hm
        · rcases processNotification_spec s m with ⟨-, heq⟩ | ⟨hne, -⟩
          · exact ⟨.eventfdRead, by simp [heq], trivial⟩
          · exact absurd hitem hne
        · exact ⟨.batch ns final, by simp, m, hm, hitem⟩
    | drain hstack' _ =>
        refine .inr ⟨.eventfdRead, ?_, trivial⟩
        dsimp only
        rw [hstack']
        exact List.mem_cons_self
    | drained hstack' _ => exact .inr ⟨.handleElements queue, by cases queue <;> simp, rfl⟩
    | swapped hstack' _ _ =>
        obtain ⟨rfl, -⟩ := List.cons.inj (hstack'.symm.trans hstack)
        obtain rfl : _ = queue := hdrains
        exact .inl (by simp [EPoll.swapElements])

/-- Where the eventfd stands with a queue that has elements. -/
structure Covered (s : EventLoop) : Prop where
  lock : ∀ a element, s.calls.lookup a = some (.signalling element) → s.epoll.lock = some a
  covered : ∀ queue, s.epoll.eventsPending queue ≠ [] → s.epoll.Edge ∨
    (∃ a element, s.calls.lookup a = some (.signalling element) ∧
      s.epoll.eventsPending queue = [element]) ∨ ∃ f ∈ s.stack, f.drains queue

theorem covered_init : Covered init where
  lock a element h := absurd h (by simp [init])
  covered queue h := absurd rfl h

/-- With `lock_` taken no other thread gets at the queues, and only its holder lets it go. -/
theorem locked_step (hmove : Move cfg s l s' o) {a : Agent} (h : s.epoll.lock = some a) :
    s'.epoll.eventsPending = s.epoll.eventsPending ∧
      (s'.epoll.lock = some a ∨
        ∃ b element, l = .proceed b ∧ s.calls.lookup b = some (.signalling element)) := by
  have hno : s.epoll.lock ≠ none := by simp [h]
  cases hmove with
  | call _ _ hquiet _ => rw [hquiet.epoll]; exact ⟨rfl, .inl h⟩
  | pushed _ hlock | swapped _ _ hlock => exact absurd hlock hno
  | @signalled b element hp =>
      rw [complete_epoll]
      exact ⟨EPoll.wakeup_eventsPending .., .inr ⟨b, element, rfl, hp⟩⟩
  | woken _ => exact ⟨EPoll.wakeup_eventsPending .., .inl ((EPoll.wakeup_lock _).trans h)⟩
  | light _ _ _ _ hquiet _ _ _ => dsimp only; rw [hquiet.epoll]; exact ⟨rfl, .inl h⟩
  | finalized _ _ hrun _ =>
      have hsame := (finalizeElement_spec hrun).1
      exact ⟨hsame.eventsPending, .inl (hsame.lock.trans h)⟩
  | edge _ => exact ⟨EPoll.queueItem_eventsPending .., .inl ((EPoll.queueItem_lock ..).trans h)⟩
  | destroyed _ _ hepoll =>
      rcases hepoll with ⟨-, rfl, -⟩ | ⟨-, rfl, -⟩ <;> exact ⟨rfl, .inl h⟩
  | _ => exact ⟨rfl, .inl h⟩

/-- A queue gets its first element from a thread that then holds `lock_`. -/
theorem first_pushed (hmove : Move cfg s l s' o) {queue : Queue}
    (h : s.epoll.eventsPending queue = []) (h' : s'.epoll.eventsPending queue ≠ []) :
    ∃ a element, s'.calls.lookup a = some (.signalling element) ∧
      s'.epoll.eventsPending queue = [element] := by
  obtain ⟨element, hmem⟩ := List.exists_mem_of_ne_nil _ h'
  rcases pending_of_move hmove hmem with hin | ⟨a, ha⟩
  · rw [h] at hin
    exact absurd hin List.not_mem_nil
  · cases hmove with
    | @pushed b element' _ _ =>
        rw [push_eventsPending] at hmem ⊢
        by_cases hq : queue = element'.queue
        · subst hq
          rcases push_spec s b element' with ⟨-, heq⟩ | ⟨hne, -⟩
          · exact ⟨b, element', by rw [heq, lookup_setCall, if_pos rfl], by simp [h]⟩
          · exact absurd h hne
        · rw [Function.update_of_ne hq, h] at hmem
          exact absurd hmem List.not_mem_nil
    | call _ _ hquiet _ =>
        rw [hquiet.epoll, h] at hmem
        exact absurd hmem List.not_mem_nil
    | light _ _ _ _ hquiet _ _ _ =>
        dsimp only at hmem
        rw [hquiet.epoll, h] at hmem
        exact absurd hmem List.not_mem_nil
    | signalled _ =>
        rw [complete_epoll] at hmem
        simp [h] at hmem
    | @swapped q' _ _ _ _ =>
        by_cases hq : queue = q'
        · simp [EPoll.swapElements, hq] at hmem
        · simp [EPoll.swapElements, Function.update_of_ne hq, h] at hmem
    | finalized _ _ hrun _ =>
        dsimp only at hmem
        rw [(finalizeElement_spec hrun).1.eventsPending, h] at hmem
        exact absurd hmem List.not_mem_nil
    | destroyed _ _ hepoll =>
        rcases hepoll with ⟨-, rfl, -⟩ | ⟨-, rfl, -⟩ <;> simp [EPoll.unregister, h] at hmem
    | _ => simp [h, endCall, setCall, EPoll.epollWait, setHandler] at hmem

/-- **One step keeps the eventfd ahead of the queues.** A push into an empty queue is followed by
the write, which nobody else can overtake since `lock_` is held. -/
theorem covered_step (h : Covered s) (hmove : Move cfg s l s' o) : Covered s' where
  lock a element ha := by
    rcases call_of_move hmove ha with hbefore | hnew
    · rcases (locked_step hmove (h.lock a element hbefore)).2 with hlock | ⟨b, element', rfl, hb⟩
      · exact hlock
      · -- the holder of the lock has written and returned
        obtain rfl : b = a := Option.some.inj ((h.lock b _ hb).symm.trans (h.lock a _ hbefore))
        cases hmove with
        | signalled hp => simp at ha
        | pushed hp _ | attachRefused hp _ | created hp _ _ | closeBegins hp _ | closeReturns hp _
        | woken hp | erased hp _ => exact absurd (hp.symm.trans hb) (by simp)
    · cases hnew with
      | signalling hp =>
          rcases call_stays hmove hp with hstays | rfl
          · exact absurd (hstays.symm.trans ha) (by simp)
          · cases hmove with
            | @pushed _ element' _ _ =>
                rcases push_spec s a element' with ⟨-, heq⟩ | ⟨-, heq⟩
                · rw [heq]; rfl
                · rw [heq, lookup_complete, if_pos rfl] at ha
                  exact absurd ha (by simp)
            | signalled hp' | attachRefused hp' _ | created hp' _ _ | closeBegins hp' _
            | closeReturns hp' _ | woken hp' | erased hp' _ =>
                exact absurd (hp'.symm.trans hp) (by simp)
      | starts _ hstarts => cases hstarts
  covered queue hq := by
    by_cases hempty : s.epoll.eventsPending queue = []
    · obtain ⟨a, element, ha, hone⟩ := first_pushed hmove hempty hq
      exact .inr (.inl ⟨a, element, ha, hone⟩)
    · rcases h.covered queue hempty with hedge | ⟨a, element, ha, hone⟩ | hdrains
      · exact (edge_stays hmove hedge).imp_right fun hall => .inr (hall queue)
      · rcases call_stays hmove ha with hstays | rfl
        · refine .inr (.inl ⟨a, element, hstays, ?_⟩)
          rw [(locked_step hmove (h.lock a element ha)).1]
          exact hone
        · cases hmove with
          | signalled hp =>
              refine .inl ?_
              rw [complete_epoll]
              exact EPoll.edge_wakeup s.epoll
          | pushed hp _ | attachRefused hp _ | created hp _ _ | closeBegins hp _ | closeReturns hp _
          | woken hp | erased hp _ => exact absurd (hp.symm.trans ha) (by simp)
      · exact (drains_stays hmove hdrains).elim (fun hnil => absurd hnil hq) fun h => .inr (.inr h)

theorem covered_of_run {cfg : Config} {ok : LoopLabel → EventLoop → Prop} {tr : List LoopObs}
    {s : EventLoop} (h : GuardedRun (loopSystem cfg) ok init tr s) (hc : s.crashed = none) :
    Covered s :=
  invariant_of_run (I := fun _ s => Covered s) covered_init
    (fun _ _ ih _ hmove => covered_step ih hmove) h hc

end

end EventLoop

end Libael
