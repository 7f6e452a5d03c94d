import Libael.EventLoop.Wakeup
import Libael.EventLoop.Execute

/-!
# Libael.EventLoop.Stop

The end of `Run`. It closes every event and calls `Process` **once** more, for the removals
that this has queued. They are finalized if that one `epoll_wait` reports the eventfd, which
it does not when 32 descriptors are ready before it (`EPoll.inReach`).

* `Stopping` follows `Run` from the test that observes `stop_` to its return, and says for one
  event how far its removal has got: to be closed, out of the table, queued with the eventfd
  signalled, in a batch that will still swap the remove queue, finalized.
* `Drained` is a condition on two kinds of steps, the last `epoll_wait` and the last swap. The
  other steps keep `Stopping` without it, so a run whose steps all meet it ends with the event
  removed (`stopping_of_run`).
* The schedules at the end fill the last batch with 32 other descriptors.
-/

namespace Libael

open Lts

namespace EPoll

/-- Fewer than 32 of the items that report something are queued before the eventfd. -/
def inReach (p : EPoll) (poll : Fd → EventId → Option EPollEvents) : Bool :=
  ((p.readyItems.takeWhile (· != .pendingFd)).countP
    fun i => (pollItem p.counter poll i).isSome) < maxEvents

/-- With fewer than 32 items before it, the eventfd is in the batch. -/
theorem harvest_of_reach {report : Item → Option EPollEvents} {events : EPollEvents}
    (hreport : report .pendingFd = some events) : ∀ {room : Nat} {items : List Item},
    .pendingFd ∈ items →
    (items.takeWhile (· != .pendingFd)).countP (fun i => (report i).isSome) < room →
    ∃ n ∈ (harvest report room items).1, n.item = .pendingFd
  | 0, _, _, h => absurd h (Nat.not_lt_zero _)
  | _ + 1, [], h, _ => absurd h List.not_mem_nil
  | room + 1, i :: items, hmem, h => by
      by_cases hi : i = .pendingFd
      · subst hi
        simp only [harvest, hreport]
        exact ⟨_, List.mem_cons_self, rfl⟩
      · have hmem : .pendingFd ∈ items := (List.mem_cons.mp hmem).resolve_left (Ne.symm hi)
        rw [List.takeWhile_cons_of_pos (by simpa using hi)] at h
        cases hr : report i with
        | none =>
            rw [List.countP_cons_of_neg (by simp [hr])] at h
            simp only [harvest, hr]
            exact harvest_of_reach hreport hmem h
        | some events' =>
            rw [List.countP_cons_of_pos (by simp [hr])] at h
            obtain ⟨n, hn, heq⟩ := harvest_of_reach hreport hmem (Nat.lt_of_succ_lt_succ h)
            simp only [harvest, hr]
            exact ⟨n, List.mem_cons_of_mem _ hn, heq⟩

/-- With the eventfd in reach, `epoll_wait` reports it. -/
theorem Edge.reported {p : EPoll} (h : p.Edge) {poll : Fd → EventId → Option EPollEvents}
    (hreach : p.inReach poll = true) : ∃ n ∈ (p.epollWait poll).1, n.item = .pendingFd := by
  have hreport : pollItem p.counter poll .pendingFd = some EPollEvents.EPOLLIN := by
    simp only [pollItem]
    exact if_neg (Nat.pos_iff_ne_zero.mp h.2)
  exact harvest_of_reach hreport h.1 (by simpa [inReach] using hreach)

end EPoll

namespace EventLoop

section

variable {cfg : Config} {l : LoopLabel} {s s' : EventLoop} {tr o : List LoopObs}

/-! ### Steps of the other threads -/

theorem stack_of_other (hmove : Move cfg s l s' o) (hl : ∀ i, l ≠ .loop i) :
    s'.stack = s.stack := by
  cases hmove with
  | call _ _ hquiet _ => exact hquiet.stack
  | pushed _ _ => exact push_stack ..
  | signalled _ => exact complete_stack ..
  | light | wait | notification | drain | drained | swapped | finalized => exact absurd rfl (hl _)
  | _ => rfl

/-- Only the loop reads the eventfd. -/
theorem edge_of_other (hmove : Move cfg s l s' o) (hl : ∀ i, l ≠ .loop i) (h : s.epoll.Edge) :
    s'.epoll.Edge := by
  cases hmove with
  | call _ _ hquiet _ => rw [hquiet.epoll]; exact h
  | @pushed a element _ _ =>
      rcases push_spec s a element with ⟨-, heq⟩ | ⟨-, heq⟩ <;> rw [heq]
      · exact h
      · rw [complete_epoll]
        exact h
  | signalled _ =>
      rw [complete_epoll]
      exact EPoll.edge_wakeup s.epoll
  | woken _ => exact EPoll.edge_wakeup s.epoll
  | edge _ => exact h.of_same (EPoll.queueItem_sameQueues ..)
  | light | wait | notification | drain | drained | swapped | finalized => exact absurd rfl (hl _)
  | destroyed _ _ hepoll =>
      rcases hepoll with ⟨-, rfl, -⟩ | ⟨-, rfl, -⟩
      · exact h
      · exact h.of_same (EPoll.unregister_sameQueues ..)
  | _ => exact h

theorem stop_closeEvent (s : EventLoop) (a : Agent) (e : EventId) :
    (s.closeEvent a e).stop = s.stop := by
  unfold closeEvent
  split <;> rfl

/-- `stop_` is never taken back. -/
theorem stop_of_request {a : Agent} {r : Request} (h : s.request cfg a r = some (s', o))
    (hstop : s.stop = true) : s'.stop = true := by
  cases requested h with
  | closeEvent _ | cancel _ _ => rw [stop_closeEvent]; exact hstop
  | destroyed _ _ _ => rw [destroyHandler, stop_closeEvent]; exact hstop
  | stop _ => rfl
  | _ => exact hstop

/-- Nobody else clears `stop_`. -/
theorem stop_of_other (hmove : Move cfg s l s' o) (hl : ∀ i, l ≠ .loop i) (h : s.stop = true) :
    s'.stop = true := by
  cases hmove with
  | call _ hreq _ _ => exact stop_of_request hreq h
  | @pushed a element _ _ =>
      rcases push_spec s a element with ⟨-, heq⟩ | ⟨-, heq⟩ <;> rw [heq]
      · exact h
      · rw [complete_stop]
        exact h
  | signalled _ => rw [complete_stop]; exact h
  | light | wait | notification | drain | drained | swapped | finalized => exact absurd rfl (hl _)
  | _ => exact h

/-! ### The removal of an event -/

/-- The removal of a closed event, unless a thread is still about to push it. -/
theorem tokens_of_closed (hlife : Life tr s) {e : EventId}
    (hatt : (s.handlers e).attached = true) (hev : e ∉ s.events)
    (hno : s.Nobody (.pushing (.remove e))) : tokens tr s (.remove e) = 1 := by
  cases hlife.closing e with
  | «open» _ hiff => exact absurd (hiff.mpr hatt) hev
  | erasing _ _ _ hin => exact absurd hin hev
  | pushing a _ _ _ _ hone => exact absurd ((hone a).mpr rfl) (hno a)
  | queued _ _ _ _ _ htokens => exact htokens

/-- An element that is being drained stays so until it is finalized. -/
theorem draining_stays (hmove : Move cfg s l s' o) {element : Element}
    (h : element ∈ draining s.stack) :
    element ∈ draining s'.stack ∨ element ∈ finalized o := by
  cases hmove with
  | call _ _ hquiet _ => exact .inl (hquiet.stack ▸ h)
  | pushed _ _ => exact .inl (by rw [push_stack]; exact h)
  | signalled _ => exact .inl (by rw [complete_stack]; exact h)
  | @light i f rest n hstack _ hlight _ _ _ hframes _ =>
      rw [hstack, draining_cons, elements_of_light hlight, List.nil_append] at h
      refine .inl ?_
      rw [draining_append]
      exact List.mem_append_right _ h
  | @wait poll final rest hstack _ =>
      rw [hstack] at h
      refine .inl ?_
      dsimp only
      split <;> exact h
  | @notification n ns final rest hstack _ =>
      rw [hstack] at h
      refine .inl ?_
      rw [draining_append]
      exact List.mem_append_right _ h
  | drained hstack _ | swapped hstack _ _ =>
      rw [hstack] at h
      refine .inl ?_
      first | exact h | exact List.mem_append_right _ h
  | @finalized i element' elements rest n hstack _ hrun hthrew =>
      rw [hstack, draining_cons] at h
      rw [finalized_obs (finalizes hrun hthrew)]
      rcases List.mem_append.mp h with hel | hrest
      · rcases List.mem_cons.mp hel with rfl | hel
        · exact .inr (List.mem_singleton_self _)
        · refine .inl ?_
          rw [draining_append, draining_cons]
          exact List.mem_append_right _ (List.mem_append_left _ hel)
      · refine .inl ?_
        rw [draining_append, draining_cons]
        exact List.mem_append_right _ (List.mem_append_right _ hrest)
  | _ => exact .inl h

/-! ### The end of `Run` -/

/-- The condition under which the end of `Run` finalizes the removal of `e`. -/
structure Drained (e : EventId) (l : LoopLabel) (s : EventLoop) : Prop where
  /-- the last `epoll_wait` reports the eventfd if the removal is not finalized yet -/
  reach : ∀ poll, l = .loop (.wait poll) → s.stack = [.process true] →
    s.epoll.inReach poll = true ∨
      .remove e ∉ s.epoll.eventsPending .remove ∧ s.Nobody (.pushing (.remove e))
  /-- no other thread is still about to queue the removal at the last swap -/
  pushed : ∀ ns rest, l = .loop .none → s.stack = .handleElements .remove :: rest →
    .batch ns true ∈ rest → s.Nobody (.pushing (.remove e))

/-- The test of `Drained`. -/
def drained (e : EventId) (l : LoopLabel) (s : EventLoop) : Bool :=
  match l, s.stack with
  | .loop (.wait poll), [.process true] =>
    s.epoll.inReach poll || (!(s.epoll.eventsPending .remove).contains (.remove e) &&
      s.calls.entries.all fun c => c.2 != .pushing (.remove e))
  | .loop .none, .handleElements .remove :: _ =>
    s.calls.entries.all fun c => c.2 != .pushing (.remove e)
  | _, _ => true

theorem nobody_of_all {p : Progress} (h : (s.calls.entries.all fun c => c.2 != p) = true) :
    s.Nobody p := by
  intro a ha
  have hcall := List.all_eq_true.mp h ⟨a, _⟩ (AList.mem_lookup_iff.mp ha)
  exact absurd hcall (by simp)

/-- The test is enough for the condition. -/
theorem drained_spec {e : EventId} (l : LoopLabel) (s : EventLoop) (h : drained e l s = true) :
    Drained e l s := by
  unfold drained at h
  refine ⟨?_, ?_⟩
  · rintro poll rfl hstack
    rw [hstack] at h
    rcases Bool.or_eq_true _ _ ▸ h with hreach | hdone
    · exact .inl hreach
    · simp only [Bool.and_eq_true, Bool.not_eq_true', List.contains_eq_mem,
        decide_eq_false_iff_not] at hdone
      exact .inr ⟨hdone.1, nobody_of_all hdone.2⟩
  · rintro ns rest rfl hstack -
    rw [hstack] at h
    exact nobody_of_all h

/-- Where `Run` is after it has observed `stop_`, and what this means for the event `e`. -/
inductive Stopping (e : EventId) (tr : List LoopObs) (s : EventLoop) : Prop
  | observed : s.stack = [.whileNotStop] → s.stop = true → Stopping e tr s
  | copying : s.stack = [.copyEvents] → Stopping e tr s
  /-- the closing pass still has the event before it, or has begun to close it -/
  | closing (events : List EventId) : .closing events ∈ s.stack → e ∈ events ∨ Ends s e →
      Stopping e tr s
  | waking : s.stack = [.wakeup] → e ∉ s.events → Stopping e tr s
  /-- the last `epoll_wait` is to come, and the eventfd has been written or is about to be -/
  | waiting : s.stack = [.process true] → e ∉ s.events →
      s.calls.lookup .loop = some .waking ∨ s.epoll.Edge → Stopping e tr s
  /-- the last batch has finalized the removal, is about to, or has its swap before it -/
  | finalizing (ns : List Notification) : .batch ns true ∈ s.stack → e ∉ s.events →
      Removed tr e ∨ .remove e ∈ draining s.stack ∨ (∃ f ∈ s.stack, f.drains .remove) →
      Stopping e tr s
  | returned : s.stack = [] → e ∉ s.events → Removed tr e → Stopping e tr s

theorem events_stays (hmove : Move cfg s l s' o) {e : EventId}
    (hatt : (s.handlers e).attached = true) (hev : e ∉ s.events) : e ∉ s'.events := by
  intro hin
  rcases events_of_move hmove hin with hin | hno
  · exact hev hin
  · rw [hatt] at hno
    exact absurd hno (by simp)

/-- The other threads do not move `Run`. -/
theorem stopping_of_other {e : EventId} (h : Stopping e tr s) (hl : ∀ i, l ≠ .loop i)
    (hatt : (s.handlers e).attached = true) (hlife : Life tr s) (herased : Erased s)
    (hs : step cfg l s = some (s', o)) (hc : s'.crashed = none) : Stopping e (tr ++ o) s' := by
  have hmove := move_of_step hs hc
  have hstack := stack_of_other hmove hl
  cases h with
  | observed hobserved hstop =>
      exact .observed (hstack.trans hobserved) (stop_of_other hmove hl hstop)
  | copying hcopying => exact .copying (hstack.trans hcopying)
  | closing events hclosing hends =>
      refine .closing events (hstack ▸ hclosing) ?_
      exact hends.imp_right fun hends => ends_step hends hatt hlife herased hs hc
  | waking hwaking hev => exact .waking (hstack.trans hwaking) (events_stays hmove hatt hev)
  | waiting hwaiting hev hedge =>
      refine .waiting (hstack.trans hwaiting) (events_stays hmove hatt hev) ?_
      rcases hedge with hcall | hedge
      · rcases call_stays hmove hcall with hcall | rfl
        · exact .inl hcall
        · cases hmove with
          | woken _ => exact .inr (EPoll.edge_wakeup s.epoll)
          | attachRefused hp _ | created hp _ _ | pushed hp _ | signalled hp | closeBegins hp _
          | closeReturns hp _ | erased hp _ => exact absurd (hp.symm.trans hcall) (by simp)
      · exact .inr (edge_of_other hmove hl hedge)
  | finalizing ns hbatch hev hremoved =>
      refine .finalizing ns (hstack ▸ hbatch) (events_stays hmove hatt hev) ?_
      rw [hstack]
      exact hremoved.imp_left fun h => h.append o
  | returned hreturned hev hremoved =>
      exact .returned (hstack.trans hreturned) (events_stays hmove hatt hev) (hremoved.append o)

/-- The closing pass closes the events of its copy one after the other. -/
theorem stopping_of_closing {i : LoopInput} {e : EventId} {events : List EventId}
    (hclosing : .closing events ∈ s.stack) (hends : e ∈ events ∨ Ends s e)
    (hatt : (s.handlers e).attached = true) (hlayered : Layered s.stack) (hlife : Life tr s)
    (herased : Erased s) (hs : step cfg (.loop i) s = some (s', o)) (hc : s'.crashed = none) :
    Stopping e (tr ++ o) s' := by
  have hmove := move_of_step hs hc
  rcases frame_stays hmove hclosing with hstays | ⟨i', rest, hi, hstack, hidle⟩
  · exact .closing events hstays (hends.imp_right fun h => ends_step h hatt hlife herased hs hc)
  · obtain rfl : rest = [] := (hstack ▸ hlayered).eq_nil rfl
    obtain ⟨-, -, n, hrun, rfl, rfl⟩ := step_loop hs hstack
    cases i <;> simp only [runFrame, reduceCtorEq] at hrun
    case close e' =>
      split at hrun
      · rename_i hmem
        obtain rfl := Option.some.inj hrun
        refine .closing (events.erase e') (by simp [resume]) ?_
        by_cases he : e = e'
        · exact .inr (.inl (by simp [resume, he]))
        · rcases hends with hin | hends
          · exact .inl ((List.mem_erase_of_ne he).mpr hin)
          · exact .inr (ends_step hends hatt hlife herased hs hc)
      · exact absurd hrun (by simp)
    case none =>
      split at hrun
      · rename_i hempty
        obtain rfl := Option.some.inj hrun
        obtain rfl : events = [] := List.isEmpty_iff.mp hempty
        -- nothing is left to close, and no call of `Event::Close` is under way
        refine .waking (by simp [resume]) ?_
        rcases hends with hin | hframe | hcall | hcall | hev
        · exact absurd hin List.not_mem_nil
        · rw [hstack] at hframe
          simp at hframe
        · rw [hidle] at hcall
          exact absurd hcall (by simp)
        · rw [hidle] at hcall
          exact absurd hcall (by simp)
        · exact hev
      · exact absurd hrun (by simp)

/-- The last `Process` finalizes what has been queued before its swap of the remove queue. The
notification of the eventfd leads to the swap, the swap takes the removal, and the finalize loop
gets to it. -/
theorem stopping_of_finalizing {i : LoopInput} {e : EventId} {ns : List Notification}
    (hbatch : .batch ns true ∈ s.stack) (hev : e ∉ s.events)
    (hremoved : Removed tr e ∨ .remove e ∈ draining s.stack ∨ ∃ f ∈ s.stack, f.drains .remove)
    (hok : Drained e (.loop i) s) (hatt : (s.handlers e).attached = true)
    (hlayered : Layered s.stack) (hdraining : Draining s) (hlife : Life tr s)
    (hs : step cfg (.loop i) s = some (s', o)) (hc : s'.crashed = none) :
    Stopping e (tr ++ o) s' := by
  have hmove := move_of_step hs hc
  have hev' := events_stays hmove hatt hev
  have hkept : Removed (tr ++ o) e ∨ .remove e ∈ draining s'.stack ∨
      ∃ f ∈ s'.stack, f.drains .remove := by
    rcases hremoved with hremoved | hdrain | ⟨f, hf, hdrains⟩
    · exact .inl (hremoved.append o)
    · rcases draining_stays hmove hdrain with hdrain | hfin
      · exact .inr (.inl hdrain)
      · refine .inl ?_
        show _ ∈ finalized (tr ++ o)
        rw [finalized_append]
        exact List.mem_append_right _ hfin
    · rcases frame_stays hmove hf with hf | ⟨i', rest, hi, hstack, -⟩
      · exact .inr (.inr ⟨f, hf, hdrains⟩)
      · obtain ⟨-, -, n, hrun, rfl, rfl⟩ := step_loop hs hstack
        cases f with
        | batch notifications final =>
            obtain ⟨m, hm, hitem⟩ := hdrains
            cases notifications with
            | nil => exact absurd hm List.not_mem_nil
            | cons n' ns' =>
                cases i <;> simp only [runFrame, reduceCtorEq] at hrun
                obtain rfl := Option.some.inj hrun
                refine .inr (.inr ?_)
                rcases List.mem_cons.mp hm with rfl | hm
                · exact ⟨.eventfdRead, by simp [resume, processNotification, hitem], trivial⟩
                · exact ⟨.batch ns' final, by simp [resume], m, hm, hitem⟩
        | eventfdRead =>
            cases i <;> simp only [runFrame, reduceCtorEq] at hrun
            refine .inr (.inr ?_)
            split at hrun
            · obtain rfl := Option.some.inj hrun
              exact ⟨.eventfdRead, by simp [resume], trivial⟩
            · obtain rfl := Option.some.inj hrun
              exact ⟨.handleElements .remove, by simp [resume], rfl⟩
        | handleElements q =>
            obtain rfl : q = .remove := hdrains
            cases i <;> simp only [runFrame, reduceCtorEq] at hrun
            have hrest : .batch ns true ∈ rest := by
              rw [hstack] at hbatch
              exact (List.mem_cons.mp hbatch).resolve_left (by simp)
            have htokens := tokens_of_closed hlife hatt hev (hok.pushed ns rest rfl hstack hrest)
            split at hrun
            · obtain rfl := Option.some.inj hrun
              by_cases hpending : .remove e ∈ s.epoll.eventsPending .remove
              · refine .inr (.inl ?_)
                show _ ∈ draining (.finalize (s.epoll.eventsPending .remove) :: _)
                rw [draining_cons]
                exact List.mem_append_left _ hpending
              · exact .inl (Removed.append
                  (finalized_of_swap hlayered hdraining hstack htokens hpending) _)
            · exact absurd hrun (by simp)
        | _ => exact absurd hdrains id
  rcases frame_stays hmove hbatch with hstays | ⟨i', rest, hi, hstack, -⟩
  · exact .finalizing ns hstays hev' hkept
  · obtain rfl : rest = [] := (hstack ▸ hlayered).eq_nil rfl
    obtain ⟨-, -, n, hrun, rfl, rfl⟩ := step_loop hs hstack
    cases ns with
    | nil =>
        cases i <;> simp only [runFrame, reduceCtorEq] at hrun
        obtain rfl := Option.some.inj hrun
        refine .returned (by simp [resume]) hev' ?_
        rcases hkept with hremoved | hdrain | ⟨f, hf, -⟩
        · exact hremoved
        · exact absurd hdrain (by simp [resume, draining])
        · exact absurd hf (by simp [resume])
    | cons n' ns' =>
        cases i <;> simp only [runFrame, reduceCtorEq] at hrun
        obtain rfl := Option.some.inj hrun
        exact .finalizing ns' (by simp [resume]) hev' hkept

/-- **One step keeps `Stopping`**, if it meets the condition. The loop goes on to the next stage,
in which the removal is one place further. -/
theorem stopping_step {e : EventId} (h : Stopping e tr s) (hok : Drained e l s)
    (hatt : (s.handlers e).attached = true) (hlayered : Layered s.stack) (hdraining : Draining s)
    (hlife : Life tr s) (herased : Erased s) (hs : step cfg l s = some (s', o))
    (hc : s'.crashed = none) : Stopping e (tr ++ o) s' := by
  by_cases hl : ∀ i, l ≠ .loop i
  · exact stopping_of_other h hl hatt hlife herased hs hc
  obtain ⟨i, rfl⟩ : ∃ i, l = .loop i := by simpa using hl
  have hmove := move_of_step hs hc
  cases h with
  | observed hstack hstop =>
      obtain ⟨-, -, n, hrun, rfl, rfl⟩ := step_loop hs hstack
      cases i <;> simp only [runFrame, reduceCtorEq] at hrun
      obtain rfl := Option.some.inj hrun
      exact .copying (by simp [resume, hstop])
  | copying hstack =>
      obtain ⟨-, -, n, hrun, rfl, rfl⟩ := step_loop hs hstack
      cases i <;> simp only [runFrame, reduceCtorEq] at hrun
      obtain rfl := Option.some.inj hrun
      refine .closing s.events (by simp [resume]) ?_
      by_cases he : e ∈ s.events
      · exact .inl he
      · exact .inr (.inr (.inr (.inr he)))
  | closing events hclosing hends =>
      exact stopping_of_closing hclosing hends hatt hlayered hlife herased hs hc
  | waking hstack hev =>
      obtain ⟨-, -, n, hrun, rfl, rfl⟩ := step_loop hs hstack
      cases i <;> simp only [runFrame, reduceCtorEq] at hrun
      obtain rfl := Option.some.inj hrun
      exact .waiting (by simp [resume]) hev (.inl (by simp [resume]))
  | waiting hstack hev hedge =>
      obtain ⟨-, hidle, n, hrun, rfl, rfl⟩ := step_loop hs hstack
      have hedge : s.epoll.Edge := hedge.resolve_left (by simp [hidle])
      cases i <;> simp only [runFrame, reduceCtorEq] at hrun
      case waitFails => exact absurd hc (by rw [← Option.some.inj hrun]; simp [resume])
      case wait poll =>
        obtain rfl := Option.some.inj hrun
        have hne := hedge.epollWait_ne_nil poll
        refine .finalizing (s.epoll.epollWait poll).1 (by simp [resume, hne]) hev ?_
        rcases hok.reach poll rfl hstack with hreach | ⟨hpending, hno⟩
        · refine .inr (.inr ⟨.batch (s.epoll.epollWait poll).1 true, by simp [resume, hne], ?_⟩)
          exact hedge.reported hreach
        · -- the removal has been finalized before
          have htokens := tokens_of_closed hlife hatt hev hno
          have hnil : draining s.stack = [] := by rw [hstack]; rfl
          exact .inl (Removed.append (finalized_of_idle hdraining hnil htokens hpending) _)
  | finalizing ns hbatch hev hremoved =>
      exact stopping_of_finalizing hbatch hev hremoved hok hatt hlayered hdraining hlife hs hc
  | returned hstack _ _ =>
      obtain ⟨f, rest, hcons⟩ : ∃ f rest, s.stack = f :: rest := by
        cases hmove with
        | light hstack | wait hstack | notification hstack | drain hstack | drained hstack
        | swapped hstack | finalized hstack => exact ⟨_, _, hstack⟩
      rw [hstack] at hcons
      exact absurd hcons (by simp)

end

theorem attached_of_attachReturned {s : EventLoop} {e : EventId} (h : s.attachReturned e = true) :
    (s.handlers e).attached = true := by
  simp only [attachReturned, Bool.and_eq_true] at h
  exact h.1

/-- From the test that observes `stop_` on, every state of the run is in a stage. -/
theorem stopping_of_run {cfg : Config} {tr₀ tr : List LoopObs} {s₀ s : EventLoop}
    (h₀ : Run (loopSystem cfg) init tr₀ s₀) {e : EventId} (hstop : Stopping e tr₀ s₀)
    (hatt : (s₀.handlers e).attached = true) (h : GuardedRun (loopSystem cfg) (Drained e) s₀ tr s)
    (hc : s.crashed = none) : Stopping e (tr₀ ++ tr) s ∧ (s.handlers e).attached = true := by
  refine (h.invariant (I := fun tr s => s.crashed = none →
    Stopping e (tr₀ ++ tr) s ∧ (s.handlers e).attached = true) ?_ ?_) hc
  · intro _
    rw [List.append_nil]
    exact ⟨hstop, hatt⟩
  · intro tr s l s' o hrun ih hok hs hc'
    have hs : step cfg l s = some (s', o) := hs
    have hc₁ := not_crashed_of_step hs
    have hall := h₀.trans hrun.toRun
    obtain ⟨hstopping, hatt⟩ := ih hc₁
    refine ⟨?_, attached_mono (move_of_step hs hc') hatt⟩
    rw [← List.append_assoc]
    exact stopping_step hstopping hok hatt (layered_of_run hall) (draining_of_run hall hc₁)
      (life_of_run hall hc₁) (erased_of_run hall hc₁) hs hc'

/-- **`Stop` drains the loop** where `Drained` holds: for every event whose `Attach` has
returned when `Run` observes `stop_`, the removal has been finalized when `Run` returns. -/
theorem stop_drains (cfg : Config) {tr₀ tr : List LoopObs} {s₀ s : EventLoop}
    (h₀ : Run (loopSystem cfg) init tr₀ s₀) (hobserves : s₀.stack = [.whileNotStop])
    (hstop : s₀.stop = true) {e : EventId} (hattached : s₀.attachReturned e = true)
    (h : GuardedRun (loopSystem cfg) (Drained e) s₀ tr s) (hreturned : s.stack = [])
    (hc : s.crashed = none) :
    e ∉ s.events ∧ (∀ fd, s.epoll.events fd ≠ some e) ∧ .remove e ∉ s.epoll.eventsPending .remove ∧
      Removed (tr₀ ++ tr) e := by
  have hall := h₀.trans h.toRun
  obtain ⟨hstopping, -⟩ := stopping_of_run h₀ (.observed hobserves hstop)
    (attached_of_attachReturned hattached) h hc
  have hend : e ∉ s.events ∧ Removed (tr₀ ++ tr) e := by
    cases hstopping with
    | returned _ hev hremoved => exact ⟨hev, hremoved⟩
    | observed hstack _ | copying hstack | waking hstack _ | waiting hstack _ _ =>
        rw [hreturned] at hstack
        exact absurd hstack (by simp)
    | closing _ hframe _ | finalizing _ hframe _ _ =>
        rw [hreturned] at hframe
        exact absurd hframe List.not_mem_nil
  refine ⟨hend.1, fun fd hin => ((registered_of_run hall hc).table fd e hin).2 hend.2, ?_, hend.2⟩
  intro hpending
  have hle := (life_of_run hall hc).tokens_remove_le (e := e)
  have hcount := List.count_pos_iff.mpr hpending
  have hcount' := List.count_pos_iff.mpr hend.2
  unfold tokens queuedCount at hle
  omega

/-! ### Schedules of `Stop` -/

/-- The first `n` handlers are attached and registered, and `Run` is back at its test. Every
descriptor becomes ready, and then `Stop` is called. -/
def readyThenStop (n : Nat) : List LoopLabel :=
  ((List.range n).flatMap fun e => [.call (.user e) (.attach e), .proceed (.user e),
      .proceed (.user e)] ++ if e = 0 then [.proceed (.user e)] else []) ++
    [.loop .none, .loop (.wait fun _ _ => none), .loop .none, .loop .none, .loop .none,
      .loop .none] ++
    List.replicate n (.loop (.ctl Events.Read none)) ++ List.replicate 9 (.loop .none) ++
    ((List.range n).map fun e => .edge (e + 3)) ++ [.call (.user 0) .stop, .proceed (.user 0)]

/-- The closing pass, and the last `epoll_wait`, which finds every descriptor ready. -/
def closeAll (n : Nat) : List LoopLabel :=
  [.loop .none, .loop .none] ++
    ((List.range n).flatMap fun e => [.loop (.close e), .loop .none, .proceed .loop, .proceed .loop,
      .proceed .loop] ++ if e = 0 then [.proceed .loop] else []) ++
    [.loop .none, .loop .none, .proceed .loop, .loop (.wait fun _ _ => some EPollEvents.EPOLLIN)]

/-- `HandleEvents` for the first `n` notifications. -/
def handleMany (n : Nat) : List LoopLabel :=
  (List.replicate n [.loop .none, .loop .none, .loop .none, .loop (.release false)]).flatten

/-- The eventfd is handled, with one event to remove. -/
def removeOne : List LoopLabel :=
  List.replicate 7 (.loop .none) ++ [.loop (.ctl 0 none)] ++ List.replicate 6 (.loop .none)

/-- Two schedules one after the other, the second one under a guard, and a test of the
states they lead to. -/
def runsTo (cfg : Config) (guard : LoopLabel → EventLoop → Bool)
    (check : EventLoop → EventLoop → Bool) (ls ls' : List LoopLabel) : Bool :=
  match exec (loopSystem cfg) (fun _ _ => true) ls init with
  | none => false
  | some (s₀, _) =>
    match exec (loopSystem cfg) guard ls' s₀ with
    | none => false
    | some (s, _) => check s₀ s

/-- What the test says about the two schedules. -/
theorem run_of_runsTo {cfg : Config} {guard : LoopLabel → EventLoop → Bool}
    {ok : LoopLabel → EventLoop → Prop} {check : EventLoop → EventLoop → Bool}
    {ls ls' : List LoopLabel} (hguard : ∀ l s, guard l s = true → ok l s)
    (h : runsTo cfg guard check ls ls' = true) :
    ∃ tr₀ s₀ tr s, Run (loopSystem cfg) init tr₀ s₀ ∧ GuardedRun (loopSystem cfg) ok s₀ tr s ∧
      check s₀ s = true := by
  unfold runsTo at h
  split at h
  · exact absurd h (by simp)
  · rename_i s₀ tr₀ h₀
    split at h
    · exact absurd h (by simp)
    · rename_i s tr hs
      exact ⟨tr₀, s₀, tr, s, GuardedRun.of_exec (fun _ _ _ => trivial) h₀,
        GuardedRun.of_exec hguard hs, h⟩

/-- `Run` is at its test and observes `stop_`. -/
def observesStop (s : EventLoop) : Bool :=
  match s.stack with
  | [.whileNotStop] => s.stop
  | _ => false

theorem observesStop_spec {s : EventLoop} (h : s.observesStop = true) :
    s.stack = [.whileNotStop] ∧ s.stop = true := by
  unfold observesStop at h
  split at h
  · rename_i hstack
    exact ⟨hstack, h⟩
  · exact absurd h (by simp)

/-- With one descriptor, its removal is finalized. -/
theorem stop_drains_one :
    ∃ tr₀ s₀ tr s, Run (loopSystem userHandlers) init tr₀ s₀ ∧ s₀.attachReturned 0 = true ∧
      GuardedRun (loopSystem userHandlers) (Drained 0) s₀ tr s ∧ s.stack = [] ∧
      Removed (tr₀ ++ tr) 0 := by
  have hruns : runsTo userHandlers (drained 0) (fun s₀ s => s₀.observesStop &&
      s₀.attachReturned 0 && s.stack.isEmpty && s.crashed.isNone) (readyThenStop 1)
      (closeAll 1 ++ handleMany 1 ++ removeOne) = true := by decide +kernel
  obtain ⟨tr₀, s₀, tr, s, h₀, h, hcheck⟩ := run_of_runsTo drained_spec hruns
  simp only [Bool.and_eq_true, List.isEmpty_iff, Option.isNone_iff_eq_none] at hcheck
  obtain ⟨⟨⟨hobserves, hattached⟩, hreturned⟩, hc⟩ := hcheck
  exact ⟨tr₀, s₀, tr, s, h₀, hattached, h, hreturned,
    (stop_drains userHandlers h₀ (observesStop_spec hobserves).1 (observesStop_spec hobserves).2
      hattached h hreturned hc).2.2.2⟩

/-- With 32 descriptors ready before the eventfd nothing is removed: `Run` returns, and the
events are left in the table of `EPoll` and their removals in the queue. -/
theorem stop_leaves_crowd :
    ∃ tr₀ s₀ tr s, Run (loopSystem userHandlers) init tr₀ s₀ ∧ s₀.stack = [.whileNotStop] ∧
      s₀.stop = true ∧ s₀.attachReturned 0 = true ∧ Run (loopSystem userHandlers) s₀ tr s ∧
      s.stack = [] ∧ s.crashed = none ∧ s.epoll.events 3 = some 0 ∧
      .remove 0 ∈ s.epoll.eventsPending .remove := by
  have hruns : runsTo userHandlers (fun _ _ => true) (fun s₀ s => s₀.observesStop &&
      s₀.attachReturned 0 && s.stack.isEmpty && s.crashed.isNone && s.epoll.events 3 == some 0 &&
      (s.epoll.eventsPending .remove).contains (.remove 0)) (readyThenStop 32)
      (closeAll 32 ++ handleMany 32 ++ [.loop .none]) = true := by decide +kernel
  obtain ⟨tr₀, s₀, tr, s, h₀, h, hcheck⟩ := run_of_runsTo (fun _ _ _ => trivial) hruns
  simp only [Bool.and_eq_true, List.isEmpty_iff, Option.isNone_iff_eq_none, beq_iff_eq,
    List.contains_eq_mem, decide_eq_true_eq] at hcheck
  obtain ⟨⟨⟨⟨⟨hobserves, hattached⟩, hreturned⟩, hc⟩, htable⟩, hpending⟩ := hcheck
  exact ⟨tr₀, s₀, tr, s, h₀, (observesStop_spec hobserves).1, (observesStop_spec hobserves).2,
    hattached, h, hreturned, hc, htable, hpending⟩

end EventLoop

end Libael
