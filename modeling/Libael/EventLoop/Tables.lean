import Libael.EventLoop.Dispatch
import Libael.EventLoop.Wakeup

/-!
# Libael.EventLoop.Tables

The two event tables. `EventLoop::events_` is updated by the threads that attach and close,
`EPoll::events_` later by the loop thread. **Whenever nothing is in flight they agree**: no
element in a queue, no thread inside `Attach` or `Close`, the loop at `epoll_wait`.

* The table of the loop has the attached events that have not been closed (`mem_events_iff`);
  the table of `EPoll` has those of them that own a descriptor (`epoll_events_iff`). Both are
  read off the lives of the events, in which a quiescent state leaves two stages only.
* That `Close` has not run is what `close_flag_` says. It is set once, by the first of the calls
  of `Close` (`flagStep`), and every call that has returned has found it set or has set it
  (`Closes.step`).
-/

namespace Libael

open Lts

namespace Progress

/-- The call is inside `Attach` or `Event::Close`. -/
def attachOrClose : Progress → Bool
  | .attaching _ | .closing _ | .erasing _ => true
  | .pushing element | .signalling element => element.queue != .ready
  | .waking => false

end Progress

namespace EventLoop

/-- Nothing is in flight between the two tables. -/
structure Quiescent (s : EventLoop) : Prop where
  queues : ∀ q, s.epoll.eventsPending q = []
  calls : ∀ a p, s.calls.lookup a = some p → p.attachOrClose = false
  wait : s.AtWait

theorem Quiescent.nobody {s : EventLoop} (h : Quiescent s) {p : Progress}
    (hp : p.attachOrClose = true) : s.Nobody p := fun a ha => by
  rw [h.calls a p ha] at hp
  exact absurd hp (by simp)

/-- With nothing in flight, a request has been carried out. -/
theorem Quiescent.mem_finalized {s : EventLoop} (h : Quiescent s) (hlayered : Layered s.stack)
    {tr : List LoopObs} {element : Element} (ht : tokens tr s element = 1) :
    element ∈ finalized tr := by
  obtain ⟨final, hstack⟩ := h.wait.stack_eq hlayered
  unfold tokens queuedCount at ht
  rw [h.queues, h.queues, h.queues, hstack] at ht
  have hnil : draining [LoopFrame.process final] = [] := rfl
  rw [hnil] at ht
  simp only [List.count_nil] at ht
  exact List.count_pos_iff.mp (by omega)

section Agree

variable {cfg : Config} {tr : List LoopObs} {s : EventLoop}

/-- The table of the loop has the attached events that have not been closed. -/
theorem mem_events_iff (hlife : Life tr s) (hq : Quiescent s) (e : EventId) :
    e ∈ s.events ↔ (s.handlers e).attached = true ∧ (s.handlers e).closeFlag = .clear := by
  cases hlife.closing e with
  | «open» hflag hev _ _ _ _ => exact ⟨fun he => ⟨hev.mp he, hflag⟩, fun h => hev.mpr h.1⟩
  | erasing a _ _ _ hone _ _ => exact absurd ((hone a).mpr rfl) (hq.nobody rfl a)
  | pushing a _ _ _ _ hone _ => exact absurd ((hone a).mpr rfl) (hq.nobody rfl a)
  | queued hflag _ hev _ _ _ => exact ⟨fun he => absurd he hev, fun h => absurd h.2 hflag⟩

/-- The table of `EPoll` has the events of the loop that have a descriptor. -/
theorem epoll_events_iff (hlife : Life tr s) (howned : Owned cfg s) (hreg : Registered cfg tr s)
    (hlayered : Layered s.stack) (hq : Quiescent s) (fd : Fd) (e : EventId) :
    s.epoll.events fd = some e ↔ e ∈ s.events ∧ cfg.valid e = true ∧ cfg.handle e = fd := by
  constructor
  · intro hin
    obtain ⟨-, hfd, hvalid⟩ := howned.table fd e hin
    obtain ⟨hadded, hnew⟩ := hreg.table fd e hin
    have htoken : 0 < tokens tr s (.add e) := by
      have hpos := List.count_pos_iff.mpr hadded
      unfold tokens
      omega
    have hatt := hlife.attached_of_tokens htoken
    refine ⟨?_, hvalid, hfd⟩
    cases hlife.closing e with
    | «open» _ hev _ _ _ _ => exact hev.mpr hatt
    | erasing _ _ _ hev _ _ _ => exact hev
    | pushing a _ _ _ _ hone _ => exact absurd ((hone a).mpr rfl) (hq.nobody rfl a)
    | queued _ _ _ _ _ ht => exact absurd (hq.mem_finalized hlayered ht) hnew
  · rintro ⟨hev, hvalid, rfl⟩
    have hone := hlife.added_of_attached (hlife.attached_of_mem hev) (hq.nobody rfl)
    exact hreg.registered e hvalid (hq.mem_finalized hlayered hone) (not_removed_of_mem hlife hev)

end Agree

/-- `EventLoop::Remove` finds its event, so no call ends the process. -/
theorem proceed_not_crashed {cfg : Config} {tr : List LoopObs} {s s' : EventLoop} {a : Agent}
    {o : List LoopObs} (h : Run (loopSystem cfg) init tr s)
    (hs : step cfg (.proceed a) s = some (s', o)) : s'.crashed = none := by
  have hc := not_crashed_of_step hs
  cases hcrash : s'.crashed with
  | none => rfl
  | some ex =>
      cases (crash_of_step hs hcrash).2 with
      | erase hp hnot => exact absurd ((life_of_run h hc).mem_of_erasing hp) hnot

/-- What `EPOLL_CTL_MOD` finds: a registered descriptor. If it fails, the error is thrown to the
caller, and unless that ends the process nothing has changed. -/
theorem registered_of_ctlMod {cfg : Config} {tr : List LoopObs} {s s' : EventLoop}
    (h : Run (loopSystem cfg) init tr s) {l : LoopLabel} {o : List LoopObs} {e : EventId}
    {interest : EPollEvents} {ret : Option Errno} (hs : step cfg l s = some (s', o))
    (hmem : .ctlMod e interest ret ∈ o) : s.epoll.events (cfg.handle e) = some e ∨
      ∃ errno, .threw .loop (.systemError errno "epoll_ctl - EPOLL_CTL_MOD - failed") ∈ o ∧
        (s'.crashed = none → s' = s) := by
  have hc := not_crashed_of_step hs
  have howned := owned_of_run h hc
  cases shown_of_step hs hmem rfl with
  | @ctlMod _ asked ret caught _ hmay halive hatt hret =>
      cases ret with
      | some errno =>
          refine .inr ⟨errno, ?_⟩
          unfold step at hs
          rw [if_neg (by simp [hc])] at hs
          dsimp only at hs
          rw [if_pos hmay] at hs
          cases requested hs with
          | modifyThrows _ _ _ => exact ⟨by simp, fun _ => rfl⟩
          | modifyFails _ _ _ => exact ⟨by simp, fun hc' => absurd hc' (by simp)⟩
          | modifyOutside _ _ hne => exact absurd rfl hne
          | modifyIgnored _ hno => exact absurd (hatt.symm.trans hno) (by simp)
      | none =>
          -- the kernel has found a registration, and there is one event for the descriptor
          have hsome := hret rfl
          rw [(registered_of_run h hc).interest] at hsome
          obtain ⟨e', he'⟩ := Option.ne_none_iff_exists'.mp hsome
          obtain ⟨hmem', hfd, hvalid⟩ := howned.table _ _ he'
          rw [he', howned.distinct e' hmem' e (howned.handlers e halive hatt) hvalid hfd]
          exact .inl rfl

/-! ### The calls of `Close` -/

section Close

variable {cfg : Config} {l : LoopLabel} {s s' : EventLoop} {tr o : List LoopObs} {a : Agent}
  {e : EventId}

/-- What a step does to `close_flag_`: the first call begins, or its call of `Remove` returns. -/
inductive FlagStep (s s' : EventLoop) (e : EventId) : Prop
  | same : (s'.handlers e).closeFlag = (s.handlers e).closeFlag → FlagStep s s' e
  | begins (a : Agent) : s.calls.lookup a = some (.closing e) →
      (s.handlers e).closeFlag = .clear → (s'.handlers e).closeFlag = .active → FlagStep s s' e
  | ends (a : Agent) : s.calls.lookup a = some (.pushing (.remove e)) ∨
      s.calls.lookup a = some (.signalling (.remove e)) → (s'.handlers e).closeFlag = .done →
      FlagStep s s' e

/-- What a transition does to `close_flag_`. -/
theorem flagStep (hmove : Move cfg s l s' o) (e : EventId) : FlagStep s s' e := by
  cases hmove with
  | call _ _ hquiet _ | light _ _ _ _ hquiet _ _ _ => exact .same (hquiet.closeFlag e)
  | @created a e₀ _ _ _ =>
      refine .same ?_
      show ((EventLoop.setHandler _ e₀ _).handlers e).closeFlag = _
      rw [handlers_setHandler]
      split
      · rename_i he
        rw [he]
      · rfl
  | @pushed a element hp _ =>
      rcases closeFlag_push s a element e with hsame | ⟨rfl, hdone⟩
      · exact .same hsame
      · exact .ends a (.inl hp) hdone
  | @signalled a element hp =>
      by_cases he : element = .remove e
      · subst he
        exact .ends a (.inr hp) (by rw [handlers_complete, if_pos rfl])
      · exact .same (by rw [handlers_complete, if_neg he])
  | @closeBegins a e₀ hp hflag =>
      by_cases he : e = e₀
      · subst he
        exact .begins a hp hflag (by simp [setCall, setHandler])
      · refine .same ?_
        show ((EventLoop.setHandler _ e₀ _).handlers e).closeFlag = _
        rw [handlers_setHandler, if_neg he]
  | @expire e₀ =>
      refine .same ?_
      rw [handlers_setHandler]
      split
      · rename_i he
        rw [he]
      · rfl
  | finalized _ _ hrun _ =>
      refine .same ?_
      dsimp only
      rw [(finalizeElement_spec hrun).2.1]
  | _ => exact .same rfl

/-- What a step does to the table of the loop. -/
inductive EventsStep (s s' : EventLoop) (o : List LoopObs) : Prop
  | same : s'.events = s.events → (∀ e, .closed e ∉ o) → EventsStep s s' o
  | created (e : EventId) : s'.events = e :: s.events → o = [.created e] → EventsStep s s' o
  | closed (a : Agent) (e : EventId) : s.calls.lookup a = some (.erasing e) →
      s'.events = s.events.erase e → o = [.closed e] → EventsStep s s' o

/-- What a transition does to the table of the loop. -/
theorem eventsStep (hmove : Move cfg s l s' o) : EventsStep s s' o := by
  have hminor : (∀ x ∈ o, x.minor = true) → ∀ e, .closed e ∉ o := fun hminor e hmem =>
    absurd (hminor _ hmem) (by simp [LoopObs.minor])
  cases hmove with
  | call _ _ hquiet ho | light _ _ _ _ hquiet ho _ _ => exact .same hquiet.events (hminor ho)
  | created _ _ _ => exact .created _ rfl rfl
  | @pushed a element _ _ => exact .same (push_events s a element) (by simp)
  | @signalled a element _ => exact .same (complete_events ..) (by simp)
  | erased hp _ => exact .closed _ _ hp rfl rfl
  | finalized _ _ hrun _ =>
      obtain ⟨-, hloop, -, o, ho, hrest⟩ := finalizeElement_spec hrun
      refine .same (by dsimp only; rw [hloop]) fun e hmem => ?_
      rw [ho] at hmem
      rcases List.mem_cons.mp hmem with heq | hmem
      · exact absurd heq (by simp)
      · exact absurd (hrest _ hmem) (by simp [LoopObs.minor])
  | destroyed _ _ hepoll =>
      rcases hepoll with ⟨-, -, rfl⟩ | ⟨-, -, rfl⟩ <;> exact .same rfl (by simp)
  | _ => exact .same rfl (by simp)

/-- A call that removes the event has set its flag. -/
theorem Life.flag_of_removes (h : Life tr s) {p : Progress} (hp : s.calls.lookup a = some p)
    (hremoves : p.removes e = true) : (s.handlers e).closeFlag ≠ .clear := by
  cases h.closing e with
  | «open» _ _ herasing hpushing hsignalling _ =>
      cases p with
      | erasing e' =>
          obtain rfl : e' = e := by simpa [Progress.removes] using hremoves
          exact absurd hp (herasing a)
      | pushing element =>
          obtain rfl : element = .remove e := by simpa [Progress.removes] using hremoves
          exact absurd hp (hpushing a)
      | signalling element =>
          obtain rfl : element = .remove e := by simpa [Progress.removes] using hremoves
          exact absurd hp (hsignalling a)
      | attaching _ | waking | closing _ => exact absurd hremoves (by simp [Progress.removes])
  | erasing _ hflag _ _ _ _ _ | pushing _ hflag _ _ _ _ _ | queued hflag _ _ _ _ _ => exact hflag

/-- `close_flag_` against what `Remove` has done. -/
structure Shut (tr : List LoopObs) (s : EventLoop) : Prop where
  closed : ∀ e, .closed e ∈ tr → (s.handlers e).closeFlag ≠ .clear
  erased : ∀ e, (s.handlers e).closeFlag ≠ .clear → e ∉ s.events → .closed e ∈ tr

theorem shut_init : Shut [] init where
  closed _ h := absurd h List.not_mem_nil
  erased _ h := absurd rfl h

/-- **One step keeps the closed events out of the table.** -/
theorem Shut.step (h : Shut tr s) (hlife : Life tr s) (hmove : Move cfg s l s' o) :
    Shut (tr ++ o) s' where
  closed e hmem := by
    have hbefore : (s.handlers e).closeFlag ≠ .clear := by
      rcases List.mem_append.mp hmem with hold | hnew
      · exact h.closed e hold
      · cases eventsStep hmove with
        | same _ hno => exact absurd hnew (hno e)
        | created _ _ ho =>
            rw [ho] at hnew
            exact absurd (List.mem_singleton.mp hnew) (by simp)
        | closed a e₀ hp _ ho =>
            rw [ho] at hnew
            obtain rfl := LoopObs.closed.inj (List.mem_singleton.mp hnew)
            exact hlife.flag_of_removes hp (by simp [Progress.removes])
    cases flagStep hmove e with
    | same hsame => exact fun hclear => hbefore (hsame.symm.trans hclear)
    | begins _ _ hclear _ => exact absurd hclear hbefore
    | ends _ _ hdone => exact fun hclear => absurd (hdone.symm.trans hclear) (by simp)
  erased e hflag hev := by
    by_cases hin : e ∈ s.events
    · -- `Remove` has just taken it out
      cases eventsStep hmove with
      | same heq _ => exact absurd (heq ▸ hin) hev
      | created e₀ heq _ => exact absurd (heq ▸ List.mem_cons_of_mem e₀ hin) hev
      | closed _ e₀ _ heq ho =>
          by_cases he : e = e₀
          · subst he
            rw [ho]
            exact List.mem_append_right _ (List.mem_singleton_self _)
          · rw [heq] at hev
            exact absurd ((List.mem_erase_of_ne he).mpr hin) hev
    · refine List.mem_append_left _ (h.erased e ?_ hin)
      cases flagStep hmove e with
      | same hsame => exact fun hclear => hflag (hsame.trans hclear)
      | begins a hp hclear _ =>
          -- the event of a call that begins is in the table
          cases hlife.closing e with
          | «open» _ hopen _ _ _ _ => exact absurd (hopen.mpr (hlife.attached a e hp)) hin
          | erasing _ hset _ _ _ _ _ | pushing _ hset _ _ _ _ _ | queued hset _ _ _ _ _ =>
              exact absurd hclear hset
      | ends a hp _ =>
          rcases hp with hp | hp
          · exact hlife.flag_of_removes hp (by simp [Progress.removes])
          · exact hlife.flag_of_removes hp (by simp [Progress.removes])

theorem shut_of_run {ok : LoopLabel → EventLoop → Prop}
    (h : GuardedRun (loopSystem cfg) ok init tr s) (hc : s.crashed = none) : Shut tr s :=
  invariant_of_run (I := Shut) shut_init
    (fun hrun hc ih _ hmove => ih.step (life_of_run hrun hc) hmove) h hc

/-- With nothing in flight, `close_flag_` is clear as long as `Close` has not run. -/
theorem clear_iff (hlife : Life tr s) (hshut : Shut tr s) (hq : Quiescent s) (e : EventId) :
    (s.handlers e).closeFlag = .clear ↔ .closed e ∉ tr := by
  refine ⟨fun hclear hmem => hshut.closed e hmem hclear, fun hno => ?_⟩
  cases hlife.closing e with
  | «open» hflag _ _ _ _ _ => exact hflag
  | erasing a _ _ _ hone _ _ => exact absurd ((hone a).mpr rfl) (hq.nobody rfl a)
  | pushing a _ _ _ _ hone _ => exact absurd ((hone a).mpr rfl) (hq.nobody rfl a)
  | queued hflag _ hev _ _ _ => exact absurd (hshut.erased e hflag hev) hno

/-- Where a call of `Close` is: under way, or at its end with the flag set. -/
inductive Closes (s : EventLoop) (a : Agent) (e : EventId) : Prop
  | closing : s.calls.lookup a = some (.closing e) → Closes s a e
  | erasing : s.calls.lookup a = some (.erasing e) → Closes s a e
  | pushing : s.calls.lookup a = some (.pushing (.remove e)) → Closes s a e
  | signalling : s.calls.lookup a = some (.signalling (.remove e)) → Closes s a e
  | done : (s.handlers e).closeFlag = .done → Closes s a e

/-- **One step of a call of `Close`.** It goes on, or it has returned and the flag is set. -/
theorem Closes.step (h : Closes s a e) (hmove : Move cfg s l s' o) : Closes s' a e := by
  have hdone : (s.handlers e).closeFlag = .done → Closes s' a e := by
    intro hdone
    cases flagStep hmove e with
    | same hsame => exact .done (hsame.trans hdone)
    | begins _ _ hclear _ => exact absurd (hclear.symm.trans hdone) (by simp)
    | ends _ _ hdone' => exact .done hdone'
  cases h with
  | done h => exact hdone h
  | closing hp =>
      rcases call_stays hmove hp with hstays | rfl
      · exact .closing hstays
      · cases hmove with
        | closeBegins hp' _ =>
            obtain rfl := Progress.closing.inj (Option.some.inj (hp'.symm.trans hp))
            exact .erasing (by simp)
        | closeReturns hp' hflag =>
            obtain rfl := Progress.closing.inj (Option.some.inj (hp'.symm.trans hp))
            exact .done hflag
        | attachRefused hp' _ | created hp' _ _ | pushed hp' _ | signalled hp' | woken hp'
        | erased hp' _ => exact absurd (hp'.symm.trans hp) (by simp)
  | erasing hp =>
      rcases call_stays hmove hp with hstays | rfl
      · exact .erasing hstays
      · cases hmove with
        | erased hp' _ =>
            obtain rfl := Progress.erasing.inj (Option.some.inj (hp'.symm.trans hp))
            exact .pushing (by simp)
        | attachRefused hp' _ | created hp' _ _ | pushed hp' _ | signalled hp' | woken hp'
        | closeBegins hp' _ | closeReturns hp' _ => exact absurd (hp'.symm.trans hp) (by simp)
  | pushing hp =>
      rcases call_stays hmove hp with hstays | rfl
      · exact .pushing hstays
      · cases hmove with
        | pushed hp' _ =>
            obtain rfl := Progress.pushing.inj (Option.some.inj (hp'.symm.trans hp))
            rcases push_spec s a (.remove e) with ⟨-, heq⟩ | ⟨-, heq⟩
            · exact .signalling (by rw [heq, lookup_setCall, if_pos rfl])
            · exact .done (by rw [heq, handlers_complete, if_pos rfl])
        | attachRefused hp' _ | created hp' _ _ | signalled hp' | woken hp' | closeBegins hp' _
        | closeReturns hp' _ | erased hp' _ => exact absurd (hp'.symm.trans hp) (by simp)
  | signalling hp =>
      rcases call_stays hmove hp with hstays | rfl
      · exact .signalling hstays
      · cases hmove with
        | signalled hp' =>
            obtain rfl := Progress.signalling.inj (Option.some.inj (hp'.symm.trans hp))
            exact .done (by rw [handlers_complete, if_pos rfl])
        | attachRefused hp' _ | created hp' _ _ | pushed hp' _ | woken hp' | closeBegins hp' _
        | closeReturns hp' _ | erased hp' _ => exact absurd (hp'.symm.trans hp) (by simp)

/-- A call of `Close` that has returned leaves the flag set. -/
theorem done_of_returned {tr₂ : List LoopObs} {s₁ : EventLoop}
    (hp : s₁.calls.lookup a = some (.closing e)) (h : Run (loopSystem cfg) s₁ tr₂ s)
    (hc : s.crashed = none) (hidle : s.calls.lookup a = none) :
    (s.handlers e).closeFlag = .done := by
  have hcloses : Closes s a e := by
    refine (h.invariant (I := fun _ s => s.crashed = none → Closes s a e)
      (fun _ => .closing hp) ?_) hc
    intro tr s l s' o _ ih _ hs hc'
    exact (ih (not_crashed_of_step hs)).step (move_of_step hs hc')
  cases hcloses with
  | done hdone => exact hdone
  | closing hp' | erasing hp' | pushing hp' | signalling hp' =>
      exact absurd (hidle.symm.trans hp') (by simp)

end Close

/-- **The two event tables agree.** In a run that no exception has ended: with nothing in
flight, `EPoll::events_` maps exactly the descriptors of the events in `EventLoop::events_`
to them, and these are exactly the attached events whose `Close` has not run, by their
`close_flag_` and by what has been shown. A call of `Close` that has returned has left the flag
set. No call of `Remove` ends the process, whatever closes the event and however often.
`EPOLL_CTL_MOD` targets a registered descriptor, or else throws to its caller and changes
nothing, and a handler that runs has a registered descriptor. -/
theorem tables_agree (cfg : Config) {tr : List LoopObs} {s : EventLoop}
    (h : Run (loopSystem cfg) init tr s) (hc : s.crashed = none) :
    (Quiescent s →
      (∀ fd e, s.epoll.events fd = some e ↔
        e ∈ s.events ∧ cfg.valid e = true ∧ cfg.handle e = fd) ∧
      (∀ e, e ∈ s.events ↔ (s.handlers e).attached = true ∧ (s.handlers e).closeFlag = .clear) ∧
      ∀ e, (s.handlers e).closeFlag = .clear ↔ .closed e ∉ tr) ∧
    (∀ a e s₁ tr₂, s₁.calls.lookup a = some (.closing e) → Run (loopSystem cfg) s₁ tr₂ s →
      s.calls.lookup a = none → (s.handlers e).closeFlag = .done) ∧
    (∀ a s' o, (loopSystem cfg).step (.proceed a) s = some (s', o) → s'.crashed = none) ∧
    (∀ l s' o e interest ret, (loopSystem cfg).step l s = some (s', o) →
      .ctlMod e interest ret ∈ o → s.epoll.events (cfg.handle e) = some e ∨
      ∃ errno, .threw .loop (.systemError errno "epoll_ctl - EPOLL_CTL_MOD - failed") ∈ o ∧
        (s'.crashed = none → s' = s)) ∧
    ∀ e rest, s.stack = .callback e :: rest → cfg.valid e = true →
      s.epoll.events (cfg.handle e) = some e := by
  have hlife := life_of_run h hc
  refine ⟨fun hq => ⟨?_, ?_, ?_⟩, ?_, ?_, ?_, ?_⟩
  · exact epoll_events_iff hlife (owned_of_run h hc) (registered_of_run h hc) (layered_of_run h) hq
  · exact mem_events_iff hlife hq
  · exact clear_iff hlife (shut_of_run h hc) hq
  · intro a e s₁ tr₂ hp h₂ hidle
    exact done_of_returned hp h₂ hc hidle
  · intro a s' o hs
    exact proceed_not_crashed h hs
  · intro l s' o e interest ret hs hmem
    exact registered_of_ctlMod h hs hmem
  · intro e rest hstack hvalid
    exact running_of_run h hc (.callback e) (by rw [hstack]; exact List.mem_cons_self) e
      (by simp [LoopFrame.runs]) hvalid

/-- A handler is attached, and the loop goes back to `epoll_wait`. -/
def attachedAndBack : List LoopLabel :=
  [.call (.user 0) (.attach 0), .proceed (.user 0), .proceed (.user 0), .proceed (.user 0),
    .loop .none, .loop (.wait fun _ _ => none), .loop .none, .loop .none, .loop .none,
    .loop .none, .loop (.ctl Events.Read none), .loop .none, .loop .none, .loop .none, .loop .none,
    .loop .none, .loop .none, .loop .none, .loop .none, .loop .none, .loop .none]

/-- With the loop back at `epoll_wait`, the event is in both tables. -/
theorem tables_agree_attachedAndBack :
    (after userHandlers attachedAndBack).1.epoll.events 3 = some 0 := by
  have hq : Quiescent (after userHandlers attachedAndBack).1 := by
    refine ⟨fun q => by cases q <;> rfl, fun a p hp => ?_, ⟨false, [], rfl⟩⟩
    have hnone : (after userHandlers attachedAndBack).1.calls = ∅ := rfl
    rw [hnone, AList.lookup_empty] at hp
    exact absurd hp (by simp)
  exact (((tables_agree userHandlers (run_after attachedAndBack rfl) rfl).1 hq).1 3 0).mpr
    ⟨List.mem_cons_self, rfl, rfl⟩

end EventLoop

end Libael
