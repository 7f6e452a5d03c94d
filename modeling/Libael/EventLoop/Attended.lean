import Libael.EventLoop.Hosted

/-!
# Libael.EventLoop.Attended

**A handler with something to do is attended to.** The rule behind edge triggering, for the code
of any handler: if whatever makes the handler wanted is news of the kernel, is reported by
`EPOLL_CTL_ADD` and `EPOLL_CTL_MOD`, or is put into a `ReadyEvent`, and if `HandleEvents` does
not return while it is still wanted, then at any moment the handler is not wanted, or busy, or a
signal is on its way. So while the loop thread sleeps, it is not wanted.

* `Attentive` states these demands on one step of the handler. They speak of its own state and
  answers only, so a class can be shown to meet them without its loop.
* `attended` is the rule: the alternatives hold at any moment of a run of both. It goes by who
  takes the step, and each case either leaves the alternatives alone or puts a signal on its
  way. What the loop does with a signal is in `Libael.EventLoop.Signals`.
* `signalled_of_due` is the same argument for a promise of the handler to itself.
* The last section is about the sleeping loop: no signal is on its way in such a state.
-/

namespace Libael

open Lts

namespace Hosted

section

variable {σ ℓ ο : Type} {cfg : Config} {code : HandlerCode σ ℓ ο} {e : EventId}
  {s s' : Hosted σ} {q p : Events → Prop}

/-! ### What a report leaves alone -/

namespace Noted

variable {loop loop' : EventLoop}

theorem stack (h : Noted cfg e loop loop') : loop'.stack = loop.stack := by cases h <;> rfl

theorem handlers (h : Noted cfg e loop loop') : loop'.handlers = loop.handlers := by cases h <;> rfl

theorem calls (h : Noted cfg e loop loop') : loop'.calls = loop.calls := by cases h <;> rfl

theorem crashed (h : Noted cfg e loop loop') : loop'.crashed = loop.crashed := by cases h <;> rfl

theorem events (h : Noted cfg e loop loop') : loop'.epoll.events = loop.epoll.events := by
  cases h with
  | same => rfl
  | queued _ _ => exact EPoll.queueItem_events ..

theorem interest (h : Noted cfg e loop loop') : loop'.epoll.interest = loop.epoll.interest := by
  cases h with
  | same => rfl
  | queued _ _ => exact EPoll.queueItem_interest ..

/-- A report does not touch the ready elements on their way. -/
theorem signalled (h : Noted cfg e loop loop') (hsignalled : EventLoop.Signalled q p e loop) :
    EventLoop.Signalled q p e loop' := by
  cases h with
  | same => exact hsignalled
  | queued _ _ =>
      cases hsignalled with
      | pushing a events attached hq ha => exact .pushing a events attached hq ha
      | queued events attached hq hmem => exact .queued events attached hq (by simpa using hmem)
      | draining events attached hq hmem => exact .draining events attached hq hmem
      | dispatched events hp hmem => exact .dispatched events hp hmem

/-- Nor does it take back an edge. -/
theorem notified (h : Noted cfg e loop loop') (hn : EventLoop.Notified cfg q p e loop) :
    EventLoop.Notified cfg q p e loop' := by
  cases hn with
  | signalled hsignalled => exact .signalled (h.signalled hsignalled)
  | queued hitem =>
      cases h with
      | same => exact .queued hitem
      | queued _ _ => exact .queued (EPoll.mem_queueItem.mpr (.inl hitem))
  | batched ns final n hbatch hn hitem hp =>
      refine .batched ns final n ?_ hn hitem hp
      rw [h.stack]
      exact hbatch

end Noted

end

/-! ### Registration -/

section

open EventLoop

variable {cfg : Config} {e : EventId} {loop loop' : EventLoop} {l : LoopLabel} {o : List LoopObs}

/-- The registration of `e`: `AddFinalize`, with what `GetEvents` has answered. -/
structure Registers (cfg : Config) (e : EventId) (loop : EventLoop) (l : LoopLabel)
    (loop' : EventLoop) (o : List LoopObs) (asked : Events) : Prop where
  label : l = .loop (.ctl asked none)
  stack : ∃ elements rest, loop.stack = .finalize (.add e :: elements) :: rest
  unregistered : loop.epoll.interest (cfg.handle e) = none
  obs : o.findSome? (installed e) =
    some (EPollEvents.EPOLLET ||| getEPollEventsFromEvents (loop.getEvents cfg e asked))
  events : loop'.epoll.events (cfg.handle e) = some e
  interest : loop'.epoll.interest (cfg.handle e) = some e

/-- An interest in the descriptor of `e` is installed by `AddFinalize` and by `ModifyEvent`. -/
theorem installed_of_move (hmove : Move cfg loop l loop' o) :
    o.findSome? (installed e) = none ∨
      (∃ asked ret caught, l = .call .loop (.modifyEvent e asked ret caught)) ∨
      ∃ asked, Registers cfg e loop l loop' o asked := by
  cases hmove with
  | @call a r _ _ hmay hreq _ _ =>
      cases requested hreq with
      | @modify e' asked _ _ _ ha _ =>
          subst ha
          by_cases he : e' = e
          · subst he
            exact .inr (.inl ⟨_, _, _, rfl⟩)
          · exact .inl (by simp [installed, he])
      | destroyed _ _ _ => exact .inl (by split <;> rfl)
      | _ => exact .inl rfl
  | light _ _ hlight hrun _ _ _ _ => exact .inl (by cases lightRun hlight hrun <;> rfl)
  | @finalized i element elements rest n hstack _ hrun hthrew =>
      cases element with
      | add e' =>
          cases i with
          | ctl asked ret =>
              simp only [finalizeElement, addFinalize] at hrun
              split at hrun
              · rename_i hvalid
                obtain ⟨epoll, hepoll, rfl⟩ := Option.map_eq_some_iff.mp hrun
                have hret : ret = none := by simpa using hthrew
                subst hret
                have hadd := EPoll.ctlAdd_interest hepoll
                have hevents := (EPoll.ctlAdd_spec hepoll).2
                by_cases he : e' = e
                · subst he
                  simp only [ne_eq, not_true_eq_false, false_and, true_and, false_or] at hadd
                  refine .inr (.inr ⟨asked, rfl, ⟨elements, rest, hstack⟩, hadd.2.1, ?_, ?_, ?_⟩)
                  · simp only [List.findSome?, installed, if_true]
                  · dsimp only
                    rw [hevents]
                    exact Function.update_self ..
                  · dsimp only
                    rw [hadd.2.2]
                    exact Function.update_self ..
                · exact .inl (by simp [installed, he])
              · exact absurd hrun (by simp)
          | none =>
              cases finalizes hrun hthrew with
              | addNoHandle _ => exact .inl rfl
              | add hvalid _ =>
                  simp only [finalizeElement, addFinalize, hvalid, if_true] at hrun
                  exact absurd hrun (by simp)
          | _ => simp [finalizeElement, addFinalize] at hrun
      | remove _ =>
          cases finalizes hrun hthrew <;> exact .inl rfl
      | ready _ _ _ =>
          cases finalizes hrun hthrew <;> exact .inl rfl
  | destroyed _ _ hepoll => rcases hepoll with ⟨-, -, rfl⟩ | ⟨-, -, rfl⟩ <;> exact .inl rfl
  | _ => exact .inl rfl

/-- `e` has been registered before the step, or is by it. -/
theorem registered_before (hmove : Move cfg loop l loop' o)
    (h : loop'.epoll.events (cfg.handle e) = some e) :
    loop.epoll.events (cfg.handle e) = some e ∨ ∃ asked, Registers cfg e loop l loop' o asked := by
  have htable := tableMove_of_move hmove
  cases htable with
  | same hevents _ _ => exact .inl (by rw [← hevents]; exact h)
  | closed _ _ _ _ hevents _ _ => exact .inl (by rw [← hevents]; exact h)
  | finalized element elements rest n _ hfin hepoll ho =>
      rw [hepoll] at h
      cases hfin with
      | @add e' asked hvalid hin =>
          by_cases he : e' = e
          · subst he
            rcases installed_of_move (e := e') hmove with hnone | ⟨_, _, _, rfl⟩ | hreg
            · rw [ho] at hnone
              simp [installed] at hnone
            · -- a call does not finalize
              cases hmove with
              | call _ _ _ hminor => rw [ho] at hminor; simp [LoopObs.minor] at hminor
            · exact .inr hreg
          · refine .inl ?_
            by_cases hfd : cfg.handle e = cfg.handle e'
            · dsimp only at h
              rw [hfd, Function.update_self] at h
              exact absurd (Option.some.inj h) he
            · simpa [Function.update_of_ne hfd] using h
      | @remove e' hvalid hne =>
          refine .inl ?_
          by_cases hfd : cfg.handle e = cfg.handle e'
          · simp [EPoll.unregister, hfd] at h
          · simpa [EPoll.unregister, Function.update_of_ne hfd] using h
      | _ => exact .inl h

end

/-! ### The invariants of a hosted run -/

section

open EventLoop

variable {σ ℓ ο : Type} {cfg : Config} {code : HandlerCode σ ℓ ο} {e : EventId} {fd : Fd}
  {handler : σ} {ok : HostedLabel ℓ → Hosted σ → Prop} {tr : List (LoopObs ⊕ ο)}
  {s s' : Hosted σ} {l : HostedLabel ℓ} {o : List (LoopObs ⊕ ο)} {q p : Events → Prop}

/-- `HandleEvents` only starts to run by being called. -/
def Starts (code : HandlerCode σ ℓ ο) : Prop :=
  ∀ l handler handler' o, code.step l handler = some (handler', o) →
    code.running handler' = true → code.running handler = true ∨
      ∃ events, code.actor l = .entry events

/-- A step of a call on behalf of the handler is a move of the loop. -/
theorem move_of_asks {a : Agent} {r : Request} {loop : EventLoop} {o : List LoopObs}
    (hs : s.loop.step cfg (.call a r) = some (loop, o)) (hc : loop.crashed = none) :
    Move cfg s.loop (.call a r) loop o ∧ loop.stack = s.loop.stack := by
  have hmove := move_of_step hs hc
  exact ⟨hmove, stack_of_other hmove (by simp)⟩

/-- While `HandleEvents` runs, the loop thread is in the call of it. It got there by calling it,
and the loop does not move on before the call has returned. -/
theorem stack_of_running (hclass : cfg.handler e = .user fd) (hstarts : Starts code)
    (hinit : code.running handler = false)
    (h : GuardedRun (hostedSystem cfg code e) ok (init handler) tr s) (hc : s.loop.crashed = none)
    (hrunning : code.running s.handler = true) : ∃ rest, s.loop.stack = .callback e :: rest := by
  refine h.invariant (I := fun _ s => s.loop.crashed = none → code.running s.handler = true →
    ∃ rest, s.loop.stack = .callback e :: rest) ?_ ?_ hc hrunning
  · intro _ hrunning
    rw [show (init handler).handler = handler from rfl, hinit] at hrunning
    exact absurd hrunning (by simp)
  · intro tr s l s' o _ ih _ hs hc hrunning
    obtain ⟨-, hcs, hstep⟩ := step_inv hs
    clear hs
    cases hstep with
    | @loop l loop o hallows hs =>
        have hnoted := noted_install cfg code e { s with loop } o
        rw [install_handler] at hrunning
        rw [hnoted.crashed] at hc
        rw [hnoted.stack]
        have hmove := move_of_step hs hc
        rcases Classical.em (∃ i, l = .loop i) with ⟨i, rfl⟩ | hother
        · -- the loop does not move while the call has not returned
          simp only [allows, Bool.and_eq_true, Bool.not_eq_true'] at hallows
          exact absurd (hallows.1.1.2.symm.trans hrunning) (by simp)
        · obtain ⟨rest, hstack⟩ := ih hcs hrunning
          exact ⟨rest, (stack_of_other hmove fun i hi => hother ⟨i, hi⟩).trans hstack⟩
    | @enter l wanted events rest loop o handler o' _ hstack _ hs _ =>
        cases move_of_step hs hc with
        | @light i f rest' n hstack' _ hlight hrun _ _ _ _ =>
            obtain ⟨rfl, rfl⟩ := List.cons.inj (hstack'.symm.trans hstack)
            cases lightRun hlight hrun with
            | user _ => exact ⟨rest', rfl⟩
            | execute hexec _ | executeDead hexec _ =>
                exact absurd (hexec.symm.trans hclass) (by simp)
            | timer htimer _ _ | timerIgnored htimer =>
                exact absurd (htimer.symm.trans hclass) (by simp)
        | notification hstack' _ | drain hstack' _ | drained hstack' _ | swapped hstack' _ _
        | finalized hstack' _ _ _ =>
            exact absurd (hstack'.symm.trans hstack) (by simp)
    | @silent l ret a handler o hacts hs _ =>
        rcases hstarts _ _ _ _ hs hrunning with hbefore | ⟨events, hentry⟩
        · exact ih hcs hbefore
        · rw [hentry] at hacts
          cases hacts
    | @asks l ret a call handler o loop o' hacts hs _ hcall =>
        have hnoted := noted_install cfg code e { s with loop, handler } o'
        rw [install_handler] at hrunning
        rw [hnoted.crashed] at hc
        rw [hnoted.stack]
        rcases hstarts _ _ _ _ hs hrunning with hbefore | ⟨events, hentry⟩
        · obtain ⟨rest, hstack⟩ := ih hcs hbefore
          exact ⟨rest, (move_of_asks hcall hc).2.trans hstack⟩
        · rw [hentry] at hacts
          cases hacts
    | @surroundings l ret news handler o hactor hs =>
        have hbefore : code.running s.handler = true := by
          have hrunning' : code.running handler = true := by
            split at hrunning
            · rwa [report_handler] at hrunning
            · exact hrunning
          rcases hstarts _ _ _ _ hs hrunning' with hbefore | ⟨events, hentry⟩
          · exact hbefore
          · rw [hactor] at hentry
            exact absurd hentry (by simp)
        obtain ⟨rest, hstack⟩ := ih hcs hbefore
        refine ⟨rest, ?_⟩
        split
        · rw [(noted_report cfg code e { s with handler }).stack]
          exact hstack
        · exact hstack

/-- The event of a registered handler exists, and knows its handler. -/
theorem attached_of_registered
    (h : GuardedRun (hostedSystem cfg code e) ok (init handler) tr s) (hc : s.loop.crashed = none)
    (hreg : s.loop.epoll.events (cfg.handle e) = some e) : (s.loop.handlers e).attached = true := by
  have howned := owned_of_run (loopRun h) hc
  exact howned.attached e (howned.table _ e hreg).1

theorem watched_of_registered
    (h : GuardedRun (hostedSystem cfg code e) ok (init handler) tr s) (hc : s.loop.crashed = none)
    (hreg : s.loop.epoll.events (cfg.handle e) = some e) :
    s.loop.epoll.interest (cfg.handle e) = some e := by
  rw [(registered_of_run (loopRun h) hc).interest]
  exact hreg

/-- What a step of both is for the loop: a move with a report behind it, a report alone, or
nothing. -/
theorem loop_of_step (hstep : Step cfg code e s l s' o) (hc : s'.loop.crashed = none) :
    (Noted cfg e s.loop s'.loop ∧ loopTrace o = []) ∨
      ∃ l' loop, Move cfg s.loop l' loop (loopTrace o) ∧
      Noted cfg e loop s'.loop := by
  cases hstep with
  | @loop l loop o _ hs =>
      have hnoted := noted_install cfg code e { s with loop } o
      refine .inr ⟨l, loop, ?_, hnoted⟩
      rw [loopTrace_inl]
      exact move_of_step hs (by rw [hnoted.crashed] at hc; exact hc)
  | @enter l wanted events rest loop o handler o' _ _ _ hs _ =>
      exact .inr ⟨.loop .none, loop, by simpa using move_of_step hs hc, .same⟩
  | silent _ _ _ => exact .inl ⟨.same, loopTrace_inr _⟩
  | @asks l ret a call handler o loop o' _ _ _ hs =>
      have hnoted := noted_install cfg code e { s with loop, handler } o'
      refine .inr ⟨.call a (call.request e (code.getEvents handler) ret), loop, ?_, hnoted⟩
      rw [loopTrace_append, loopTrace_inr, loopTrace_inl, List.nil_append]
      exact move_of_step hs (by rw [hnoted.crashed] at hc; exact hc)
  | @surroundings l ret news handler o _ _ =>
      refine .inl ⟨?_, loopTrace_inr _⟩
      split
      · exact noted_report cfg code e { s with handler }
      · exact .same

theorem alive_before (hstep : Step cfg code e s l s' o) (hc : s'.loop.crashed = none) {e' : EventId}
    (h : (s'.loop.handlers e').alive = true) : (s.loop.handlers e').alive = true := by
  rcases loop_of_step hstep hc with ⟨hnoted, -⟩ | ⟨l', loop, hmove, hnoted⟩
  · rw [hnoted.handlers] at h
    exact h
  · rw [hnoted.handlers] at h
    exact alive_of_move hmove h

end

/-! ### The rule -/

section

open EventLoop

variable {σ ℓ ο : Type} {cfg : Config} {code : HandlerCode σ ℓ ο} {e : EventId} {fd : Fd}
  {handler : σ} {ok : HostedLabel ℓ → Hosted σ → Prop} {tr : List (LoopObs ⊕ ο)}
  {s s' : Hosted σ} {l : HostedLabel ℓ} {o : List (LoopObs ⊕ ο)} {q p : Events → Prop}
  {mask : EPollEvents}

/-- What a step of the loop on its own installs for a handler that has been registered
before: nothing. -/
theorem installed_of_allows {l : LoopLabel} {loop : EventLoop} {o : List LoopObs}
    (hallows : s.allows cfg code e l = true) (hmove : Move cfg s.loop l loop o)
    (hreg : s.loop.epoll.interest (cfg.handle e) = some e) : o.findSome? (installed e) = none := by
  rcases installed_of_move (e := e) hmove with
    hnone | ⟨asked, ret, caught, rfl⟩ | ⟨asked, hregisters⟩
  · exact hnone
  · simp [allows] at hallows
  · rw [hregisters.unregistered] at hreg
    exact absurd hreg (by simp)

/-- What the registration of a living handler installs: what it asks for. -/
theorem installed_of_registers {l : LoopLabel} {loop : EventLoop} {o : List LoopObs}
    {asked : Events}
    (hclass : cfg.handler e = .user fd) (hallows : s.allows cfg code e l = true)
    (halive : (s.loop.handlers e).alive = true)
    (hregisters : Registers cfg e s.loop l loop o asked) : o.findSome? (installed e) =
      some (EPollEvents.EPOLLET ||| getEPollEventsFromEvents (code.getEvents s.handler)) := by
  obtain ⟨elements, rest, hstack⟩ := hregisters.stack
  have hasked : asked = code.getEvents s.handler := by
    rw [hregisters.label] at hallows
    simp only [allows, hstack, Bool.and_eq_true, bne_self_eq_false, Bool.false_or,
      beq_iff_eq] at hallows
    exact hallows.1.2
  rw [hregisters.obs]
  simp only [getEvents, halive, hclass, if_true, hasked]

/-- `ModifyEvent` of a registered handler installs what it asks for. -/
theorem installed_of_modify {a : Agent} {events : Events} {ret : Option Errno} {loop : EventLoop}
    {o : List LoopObs} (hclass : cfg.handler e = .user fd)
    (hs : s.loop.step cfg (.call a (.modifyEvent e events ret false)) = some (loop, o))
    (hc : loop.crashed = none) (hloop : a = .loop) (hatt : (s.loop.handlers e).attached = true) :
    loop = s.loop ∧
      o = [.ctlMod e (getEPollEventsFromEvents events ||| EPollEvents.EPOLLET) none] := by
  cases move_of_step hs hc with
  | call _ hreq _ _ =>
      cases requested hreq with
      | modify halive _ _ _ => exact ⟨rfl, by simp only [getEvents, halive, hclass, if_true]⟩
      | modifyOutside _ _ hne => exact absurd hloop hne
      | modifyFails _ _ _ => exact absurd hc (by simp)
      | modifyIgnored _ hno => exact absurd (hatt.symm.trans hno) (by simp)

/-- The interest of a registered handler, if it always asks for the same. It is installed when
the handler is registered, and again whenever it calls `ModifyEvent`. -/
theorem interest_of_registered (hclass : cfg.handler e = .user fd)
    (hmask : ∀ handler, getEPollEventsFromEvents (code.getEvents handler) = mask)
    (h : GuardedRun (hostedSystem cfg code e) ok (init handler) tr s) :
    s.loop.crashed = none → s.loop.epoll.events (cfg.handle e) = some e →
      (s.loop.handlers e).alive = true → s.interest = EPollEvents.EPOLLET ||| mask := by
  refine h.invariant (I := fun _ s => s.loop.crashed = none →
    s.loop.epoll.events (cfg.handle e) = some e → (s.loop.handlers e).alive = true →
    s.interest = EPollEvents.EPOLLET ||| mask) ?_ ?_
  · intro _ hreg
    exact absurd hreg (by simp [init, EventLoop.init, EPoll.new])
  · intro tr s l s' o hrun ih _ hs hc hreg halive
    obtain ⟨-, hcs, hstep⟩ := step_inv hs
    have halive' := alive_before hstep hc halive
    clear hs
    cases hstep with
    | @loop l loop o hallows hs =>
        have hnoted := noted_install cfg code e { s with loop } o
        rw [hnoted.crashed] at hc
        rw [hnoted.events] at hreg
        have hmove := move_of_step hs hc
        rcases registered_before hmove hreg with hbefore | ⟨asked, hregisters⟩
        · have hnone := installed_of_allows hallows hmove (watched_of_registered hrun hcs hbefore)
          rcases install_cases cfg code e { s with loop } o with
            ⟨-, heq⟩ | ⟨interest, hsome, -⟩
          · rw [heq]
            exact ih hcs hbefore halive'
          · exact absurd (hnone.symm.trans hsome) (by simp)
        · have hinstalled := installed_of_registers hclass hallows halive' hregisters
          rcases install_cases cfg code e { s with loop } o with
            ⟨hnone, -⟩ | ⟨interest, hsome, heq⟩
          · exact absurd (hnone.symm.trans hinstalled) (by simp)
          · rw [heq, report_interest]
            rw [hsome, hmask] at hinstalled
            exact Option.some.inj hinstalled
    | @enter l wanted events rest loop o handler o' _ hstack _ hs _ =>
        have hmove := move_of_step hs hc
        rcases registered_before hmove hreg with hbefore | ⟨asked, hregisters⟩
        · exact ih hcs hbefore halive'
        · exact absurd hregisters.label (by simp)
    | silent _ _ _ => exact ih hcs hreg halive'
    | @asks l ret a call handler o loop o' hacts _ _ hs =>
        have hnoted := noted_install cfg code e { s with loop, handler } o'
        rw [hnoted.crashed] at hc
        rw [hnoted.events] at hreg
        have hmove := move_of_step hs hc
        have hbefore : s.loop.epoll.events (cfg.handle e) = some e := by
          rcases registered_before hmove hreg with hbefore | ⟨asked, hregisters⟩
          · exact hbefore
          · exact absurd hregisters.label (by simp)
        rcases install_cases cfg code e { s with loop, handler } o' with
          ⟨-, heq⟩ | ⟨interest, hsome, heq⟩
        · rw [heq]
          exact ih hcs hbefore halive'
        · rw [heq, report_interest]
          dsimp only
          rcases installed_of_move (e := e) hmove with
            hnone | ⟨asked, ret', caught, hl⟩ | ⟨asked, hregisters⟩
          · exact absurd (hnone.symm.trans hsome) (by simp)
          · obtain ⟨rfl, hcall⟩ := LoopLabel.call.inj hl
            cases call with
            | modifyEvent =>
                obtain ⟨-, rfl⟩ := installed_of_modify hclass hs hc rfl
                  (attached_of_registered hrun hcs hbefore)
                simp only [List.findSome?, installed, if_true, Option.some.injEq] at hsome
                rw [← hsome, hmask, UInt32.or_comm]
            | readyEvent _ | closeEvent => exact absurd hcall (by simp [EventCall.request])
          · exact absurd hregisters.label (by simp)
    | @surroundings l ret news handler o _ _ =>
        split at hc
        · rename_i hnews
          rw [if_pos hnews] at hreg halive ⊢
          have hnoted := noted_report cfg code e { s with handler }
          rw [hnoted.events] at hreg
          rw [report_interest]
          exact ih hcs hreg halive'
        · rename_i hnews
          rw [if_neg hnews] at hreg ⊢
          exact ih hcs hreg halive'

/-- The demands of the rule on the code of a handler: `wanted` is what it has to be called
for, `busy` holds while it is at it. -/
structure Attentive (code : HandlerCode σ ℓ ο) (mask : EPollEvents) (q p : Events → Prop)
    (wanted busy : σ → Prop) (l : ℓ) (handler handler' : σ) (o : List ο) : Prop where
  /-- `HandleEvents` gets busy with it -/
  entry : ∀ events, code.actor l = .entry events → wanted handler' → busy handler' ∨
    (wanted handler ∧ ¬busy handler ∧ ∃ ignored, events = some ignored ∧ ¬p ignored)
  /-- what nobody has been busy with is told to the kernel or to the loop -/
  step : (∀ events, code.actor l ≠ .entry events) → code.actor l ≠ .surroundings true →
    wanted handler' → busy handler' ∨ (wanted handler ∧ ¬busy handler) ∨
      o.filterMap code.asks = [.modifyEvent] ∧ code.actor l = .body ∨
      (∀ news, code.actor l ≠ .surroundings news) ∧
        ∃ events, q events ∧ o.filterMap code.asks = [.readyEvent events]

/-- What the handler is wanted for is seen by `epoll_wait`, and is called about. -/
structure Reported (code : HandlerCode σ ℓ ο) (mask : EPollEvents) (p : Events → Prop)
    (handler : σ) : Prop where
  pollable : code.reports handler &&& (EPollEvents.EPOLLET ||| mask) ≠ 0
  told : ∀ events, events &&& (code.reports handler &&& (EPollEvents.EPOLLET ||| mask)) =
    code.reports handler &&& (EPollEvents.EPOLLET ||| mask) → p (getEventsFromEpollEvents events)

/-- A report on a registered handler is queued. -/
theorem Reported.notified (hreported : Reported code mask p s.handler)
    (hinterest : s.interest = EPollEvents.EPOLLET ||| mask) (hc : s.loop.crashed = none)
    (hreg : s.loop.epoll.interest (cfg.handle e) = some e) :
    Notified cfg q p e (s.report cfg code e).loop := by
  refine .queued (report_of_watched hc hreg ?_)
  rw [Hosted.pollable, hinterest]
  exact hreported.pollable

/-- `EPOLL_CTL_ADD` and `EPOLL_CTL_MOD` report at once on what is there already. -/
theorem Reported.notified_install {o : List LoopObs} (hreported : Reported code mask p s.handler)
    (hinstalled : o.findSome? (installed e) = some (EPollEvents.EPOLLET ||| mask))
    (hc : s.loop.crashed = none) (hreg : s.loop.epoll.interest (cfg.handle e) = some e) :
    Notified cfg q p e (s.install cfg code e o).loop := by
  rcases install_cases cfg code e s o with ⟨hnone, -⟩ | ⟨interest, hsome, heq⟩
  · exact absurd (hnone.symm.trans hinstalled) (by simp)
  · rw [heq]
    have hinterest := Option.some.inj (hsome.symm.trans hinstalled)
    have hreported' : Reported code mask p { s with interest }.handler := hreported
    exact hreported'.notified hinterest hc hreg

/-- `epoll_wait` does not keep silent about it. -/
theorem Reported.polls {poll : Fd → EventId → Option EPollEvents}
    (hreported : Reported code mask p s.handler)
    (hinterest : s.interest = EPollEvents.EPOLLET ||| mask) (hc : s.loop.crashed = none)
    (hreg : s.loop.epoll.interest (cfg.handle e) = some e)
    (hallows : s.allows cfg code e (.loop (.wait poll)) = true) :
    ∃ events, poll (cfg.handle e) e = some events ∧ p (getEventsFromEpollEvents events) := by
  simp only [allows, Bool.and_eq_true] at hallows
  have hright := hallows.2
  simp only [pollsRight, watched, hc, hreg, Hosted.pollable, hinterest, Option.isNone_none,
    beq_self_eq_true, Bool.and_self, Bool.not_true, Bool.false_or, Bool.or_eq_true,
    beq_iff_eq, hreported.pollable, false_or] at hright
  split at hright
  · rename_i events hevents
    exact ⟨events, hevents, hreported.told events (by simpa using hright)⟩
  · exact absurd hright (by simp)

/-- A signal that is on its way survives a step of the loop on its own: `HandleEvents` of this
handler is not such a step. -/
theorem notified_of_allows {l : LoopLabel} {loop : EventLoop} {o : List LoopObs}
    (hallows : s.allows cfg code e l = true) (hs : s.loop.step cfg l = some (loop, o))
    (hc : loop.crashed = none) (howned : Owned cfg s.loop) (hqp : ∀ events, q events → p events)
    (hreg : s.loop.epoll.events (cfg.handle e) = some e)
    (hreg' : loop.epoll.events (cfg.handle e) = some e) (halive : (s.loop.handlers e).alive = true)
    (hpoll : ∀ poll, l = .loop (.wait poll) →
      ∃ events, poll (cfg.handle e) e = some events ∧ p (getEventsFromEpollEvents events))
    (h : Notified cfg q p e s.loop) : Notified cfg q p e loop := by
  rcases notified_step (move_of_step hs hc) howned hqp hreg hreg' halive hpoll h with
    hstill | ⟨events, -, hmem⟩
  · exact hstill
  · obtain ⟨i, rest, rfl, hstack⟩ := calling_of_step hs hmem
    simp [allows, hstack] at hallows

/-- It survives the call of `HandleEvents` with events that are not the ones it announces. -/
theorem notified_of_ignored {events : Events} {rest : List LoopFrame} {loop : EventLoop}
    {o : List LoopObs} (hstack : s.loop.stack = .handleEvents e events :: rest) (hp : ¬p events)
    (hs : s.loop.step cfg (.loop .none) = some (loop, o)) (hc : loop.crashed = none)
    (howned : Owned cfg s.loop) (hqp : ∀ events, q events → p events)
    (hreg : s.loop.epoll.events (cfg.handle e) = some e)
    (hreg' : loop.epoll.events (cfg.handle e) = some e) (halive : (s.loop.handlers e).alive = true)
    (h : Notified cfg q p e s.loop) : Notified cfg q p e loop := by
  rcases notified_step (move_of_step hs hc) howned hqp hreg hreg' halive (by simp) h with
    hstill | ⟨events', hp', hmem⟩
  · exact hstill
  · obtain ⟨i, rest', -, hstack'⟩ := calling_of_step hs hmem
    obtain ⟨hframe, -⟩ := List.cons.inj (hstack'.symm.trans hstack)
    obtain ⟨-, rfl⟩ := LoopFrame.handleEvents.inj hframe
    exact absurd hp' hp

/-- It survives a call into the library. -/
theorem notified_of_call {a : Agent} {r : Request} {loop : EventLoop} {o : List LoopObs}
    (hs : s.loop.step cfg (.call a r) = some (loop, o)) (hc : loop.crashed = none)
    (howned : Owned cfg s.loop) (hqp : ∀ events, q events → p events)
    (hreg : s.loop.epoll.events (cfg.handle e) = some e)
    (hreg' : loop.epoll.events (cfg.handle e) = some e) (halive : (s.loop.handlers e).alive = true)
    (h : Notified cfg q p e s.loop) : Notified cfg q p e loop := by
  rcases notified_step (move_of_step hs hc) howned hqp hreg hreg' halive (by simp) h with
    hstill | ⟨events, -, hmem⟩
  · exact hstill
  · obtain ⟨i, rest, hl, -⟩ := calling_of_step hs hmem
    exact absurd hl (by simp)

/-- A step that does not register the handler finds it registered. -/
theorem registered_of_label {l : LoopLabel} {loop : EventLoop} {o : List LoopObs}
    (hs : s.loop.step cfg l = some (loop, o)) (hc : loop.crashed = none)
    (hl : ∀ asked ret, l ≠ .loop (.ctl asked ret))
    (hreg : loop.epoll.events (cfg.handle e) = some e) :
    s.loop.epoll.events (cfg.handle e) = some e := by
  rcases registered_before (move_of_step hs hc) hreg with hbefore | ⟨asked, hregisters⟩
  · exact hbefore
  · exact absurd hregisters.label (hl asked none)

/-- A `ReadyEvent` of a registered handler is on its way from its first step. -/
theorem signalled_of_ready {a : Agent} {asked events : Events} {ret : Option Errno}
    {loop : EventLoop} {o : List LoopObs}
    (hs : s.loop.step cfg (.call a (EventCall.request e asked ret (.readyEvent events))) =
      some (loop, o)) (hc : loop.crashed = none) (hatt : (s.loop.handlers e).attached = true)
    (hq : q events) : Signalled q p e loop := by
  cases move_of_step hs hc with
  | call _ hreq _ _ =>
      cases requested hreq with
      | ready _ _ => exact .pushing a events (s.loop.attachReturned e) hq (by simp)
      | readyIgnored _ hno => exact absurd (hatt.symm.trans hno) (by simp)

/-- **A handler with something to do is attended to.** By cases on who takes the step: the loop,
the call of `HandleEvents`, the code of the handler with or without a call into the library, and
the surroundings. In each the demands say what the step does to the wish, and the lemmas above
what the loop does to the signal. -/
theorem attended (wanted busy : σ → Prop) (hclass : cfg.handler e = .user fd)
    (hmask : ∀ handler, getEPollEventsFromEvents (code.getEvents handler) = mask)
    (hqp : ∀ events, q events → p events)
    (hreports : ∀ handler, wanted handler → Reported code mask p handler)
    (hcode : ∀ {tr s l l' handler' o},
      GuardedRun (hostedSystem cfg code e) ok (init handler) tr s → Takes l l' → ok l s →
      code.step l' s.handler = some (handler', o) → code.crashed handler' = false →
      Attentive code mask q p wanted busy l' s.handler handler' o)
    (h : GuardedRun (hostedSystem cfg code e) ok (init handler) tr s) :
    code.crashed s.handler = false → s.loop.crashed = none →
      s.loop.epoll.events (cfg.handle e) = some e → (s.loop.handlers e).alive = true →
      wanted s.handler → busy s.handler ∨ Notified cfg q p e s.loop := by
  refine h.invariant (I := fun _ s => code.crashed s.handler = false → s.loop.crashed = none →
    s.loop.epoll.events (cfg.handle e) = some e → (s.loop.handlers e).alive = true →
    wanted s.handler → busy s.handler ∨ Notified cfg q p e s.loop) ?_ ?_
  · intro _ _ hreg
    exact absurd hreg (by simp [init, EventLoop.init, EPoll.new])
  · intro tr s l s' o hrun ih hl hs hcr' hc hreg halive hwanted
    have hinterest' := interest_of_registered hclass hmask (hrun.step hl hs) hc hreg halive
    have hwatched' := watched_of_registered (hrun.step hl hs) hc hreg
    obtain ⟨hcr, hcs, hstep⟩ := step_inv hs
    have halive' := alive_before hstep hc halive
    have howned := owned_of_run (loopRun hrun) hcs
    clear hs
    cases hstep with
    | @loop l loop o hallows hs =>
        have hnoted := noted_install cfg code e { s with loop } o
        rw [install_handler] at hcr' hwanted ⊢
        rw [hnoted.crashed] at hc
        rw [hnoted.events] at hreg
        rw [hnoted.interest] at hwatched'
        have hreported : Reported code mask p s.handler := hreports _ hwanted
        rcases registered_before (move_of_step hs hc) hreg with hbefore | ⟨asked, hregisters⟩
        · refine (ih hcr hcs hbefore halive' hwanted).imp_right fun hnotified => hnoted.notified ?_
          refine notified_of_allows hallows hs hc howned hqp hbefore hreg halive' ?_ hnotified
          rintro poll rfl
          exact hreported.polls (interest_of_registered hclass hmask hrun hcs hbefore halive') hcs
            (watched_of_registered hrun hcs hbefore) hallows
        · -- the registration reports on what is there
          have hinstalled := installed_of_registers hclass hallows halive' hregisters
          rw [hmask] at hinstalled
          have hreported' : Reported code mask p { s with loop }.handler := hreported
          exact .inr (hreported'.notified_install hinstalled hc hwatched')
    | @enter l wanted' events rest loop o handler' o' hactor hstack hwanted' hs hcode' =>
        rcases (hcode hrun (.enter l) hl hcode' hcr').entry wanted' hactor hwanted with
          hbusy | ⟨hbefore, hnot, ignored, hignored, hp⟩
        · exact .inl hbusy
        · have hreg₁ := registered_of_label hs hc (by simp) hreg
          rw [hwanted' ignored hignored] at hp
          exact .inr (notified_of_ignored hstack hp hs hc howned hqp hreg₁ hreg halive'
            ((ih hcr hcs hreg₁ halive' hbefore).resolve_left hnot))
    | @silent l ret a handler' o hacts hcode' hnone =>
        have hnews : code.actor l ≠ .surroundings true :=
          fun heq => by rw [heq] at hacts; cases hacts
        have hentry : ∀ events, code.actor l ≠ .entry events :=
          fun events heq => by rw [heq] at hacts; cases hacts
        rcases (hcode hrun (.handler l ret) hl hcode' hcr').step hentry hnews hwanted with
          hbusy | ⟨hbefore, hnot⟩ | ⟨hasks, -⟩ | ⟨-, events, -, hasks⟩
        · exact .inl hbusy
        · exact .inr ((ih hcr hcs hreg halive' hbefore).resolve_left hnot)
        · exact absurd (hnone.symm.trans hasks) (by simp)
        · exact absurd (hnone.symm.trans hasks) (by simp)
    | @asks l ret a call handler' o loop o' hacts hcode' hone hs =>
        have hnoted := noted_install cfg code e { s with loop, handler := handler' } o'
        rw [install_handler] at hcr' hwanted ⊢
        rw [hnoted.crashed] at hc
        rw [hnoted.events] at hreg
        rw [hnoted.interest] at hwatched'
        have hbefore := registered_of_label hs hc (by simp) hreg
        have hatt := attached_of_registered hrun hcs hbefore
        have hnews : code.actor l ≠ .surroundings true :=
          fun heq => by rw [heq] at hacts; cases hacts
        have hentry : ∀ events, code.actor l ≠ .entry events :=
          fun events heq => by rw [heq] at hacts; cases hacts
        rcases (hcode hrun (.handler l ret) hl hcode' hcr').step hentry hnews hwanted with
          hbusy | ⟨hwanted', hnot⟩ | ⟨hasks, hbody⟩ | ⟨-, events, hq, hasks⟩
        · exact .inl hbusy
        · exact .inr (hnoted.notified (notified_of_call hs hc howned hqp hbefore hreg halive'
            ((ih hcr hcs hbefore halive' hwanted').resolve_left hnot)))
        · -- `EPOLL_CTL_MOD` reports again
          obtain rfl := List.singleton_inj.mp (hone.symm.trans hasks)
          rw [hbody] at hacts
          cases hacts with
          | body _ _ =>
              obtain ⟨rfl, rfl⟩ := installed_of_modify hclass hs hc rfl hatt
              have hreported : Reported code mask p
                  { s with loop := s.loop, handler := handler' }.handler := hreports _ hwanted
              refine .inr (hreported.notified_install ?_ hc hwatched')
              simp only [List.findSome?, installed, if_true]
              rw [hmask, UInt32.or_comm]
        · -- the loop is told
          obtain rfl := List.singleton_inj.mp (hone.symm.trans hasks)
          exact .inr (hnoted.notified (.signalled (signalled_of_ready hs hc hatt hq)))
    | @surroundings l ret news handler' o hactor hcode' =>
        cases news with
        | true =>
            simp only [if_true] at hc hreg hwatched' hinterest' hwanted ⊢
            have hnoted := noted_report cfg code e { s with handler := handler' }
            rw [hnoted.interest] at hwatched'
            rw [report_interest] at hinterest'
            rw [report_handler] at hwanted
            have hreported : Reported code mask p { s with handler := handler' }.handler :=
              hreports _ hwanted
            exact .inr (hreported.notified hinterest' hcs hwatched')
        | false =>
            simp only [Bool.false_eq_true, if_false] at hcr' hreg hwanted ⊢
            rcases (hcode hrun (.handler l ret) hl hcode' hcr').step (by simp [hactor])
              (by simp [hactor]) hwanted with hbusy | ⟨hwanted', hnot⟩ | ⟨-, hbody⟩ | ⟨hno, -⟩
            · exact .inl hbusy
            · exact .inr ((ih hcr hcs hreg halive' hwanted').resolve_left hnot)
            · exact absurd (hactor.symm.trans hbody) (by simp)
            · exact absurd hactor (hno false)

end

/-! ### A promise of another call -/

section

open EventLoop

variable {σ ℓ ο : Type} {cfg : Config} {code : HandlerCode σ ℓ ο} {e : EventId} {fd : Fd}
  {handler : σ} {ok : HostedLabel ℓ → Hosted σ → Prop} {tr : List (LoopObs ⊕ ο)}
  {s s' : Hosted σ} {l : HostedLabel ℓ} {o : List (LoopObs ⊕ ο)} {q p : Events → Prop}

/-- The loop calls `HandleEvents` by letting the handler in. -/
theorem enters_of_called (hstep : Step cfg code e s l s' o) {events : Events}
    (hmem : .handleEvents e events ∈ loopTrace o) :
    ∃ l' wanted, l = .enter l' ∧ code.actor l' = .entry wanted ∧ ∀ w, wanted = some w →
      w = events := by
  cases hstep with
  | loop hallows hs =>
      rw [loopTrace_inl] at hmem
      obtain ⟨i, rest, rfl, hstack⟩ := calling_of_step hs hmem
      simp [allows, hstack] at hallows
  | @enter l wanted events' _ _ _ _ _ hactor hstack hwanted hs _ =>
      rw [loopTrace_append, loopTrace_inl, loopTrace_inr, List.append_nil] at hmem
      obtain ⟨i, rest, -, hstack'⟩ := calling_of_step hs hmem
      obtain ⟨hframe, -⟩ := List.cons.inj (hstack'.symm.trans hstack)
      obtain ⟨-, rfl⟩ := LoopFrame.handleEvents.inj hframe
      exact ⟨l, wanted, rfl, hactor, hwanted⟩
  | silent _ _ _ | surroundings _ _ =>
      rw [loopTrace_inr] at hmem
      exact absurd hmem List.not_mem_nil
  | asks _ _ _ hs =>
      rw [loopTrace_append, loopTrace_inl, loopTrace_inr, List.nil_append] at hmem
      obtain ⟨i, rest, hl, -⟩ := calling_of_step hs hmem
      exact absurd hl (by simp)

/-- A registered event has been registered before the step, or is by it. -/
theorem registered_or_registers (hstep : Step cfg code e s l s' o) (hc : s'.loop.crashed = none)
    (hreg : s'.loop.epoll.events (cfg.handle e) = some e) :
    s.loop.epoll.events (cfg.handle e) = some e ∨
      ∃ l' loop asked, Registers cfg e s.loop l' loop (loopTrace o) asked := by
  rcases loop_of_step hstep hc with ⟨hnoted, -⟩ | ⟨l', loop, hmove, hnoted⟩
  · rw [hnoted.events] at hreg
    exact .inl hreg
  · rw [hnoted.events] at hreg
    exact (registered_before hmove hreg).imp_right fun ⟨asked, h⟩ => ⟨l', loop, asked, h⟩

/-- An event is registered once. -/
theorem not_added_of_registers
    (h : GuardedRun (hostedSystem cfg code e) ok (init handler) tr s) (hc : s.loop.crashed = none)
    {l : LoopLabel} {loop : EventLoop} {o : List LoopObs} {asked : Events}
    (hregisters : Registers cfg e s.loop l loop o asked) : ¬Added (loopTrace tr) e := by
  obtain ⟨elements, rest, hstack⟩ := hregisters.stack
  exact notMem_finalized (life_of_run (loopRun h) hc).tokens_add_le hstack

/-- In a step of both, too, a signal is only lost to a call of `HandleEvents`. -/
theorem signalled_or_called (hstep : Step cfg code e s l s' o) (hc : s'.loop.crashed = none)
    (hqp : ∀ events, q events → p events) (hreg : s.loop.epoll.events (cfg.handle e) = some e)
    (halive : (s.loop.handlers e).alive = true) (h : Signalled q p e s.loop) :
    Signalled q p e s'.loop ∨ ∃ events, p events ∧ .handleEvents e events ∈ loopTrace o := by
  rcases loop_of_step hstep hc with ⟨hnoted, -⟩ | ⟨l', loop, hmove, hnoted⟩
  · exact .inl (hnoted.signalled h)
  · exact (signalled_step hmove hqp hreg halive h).imp_left hnoted.signalled

/-- While `HandleEvents` of a handler with a descriptor runs, its event is registered. -/
theorem registered_of_running (hclass : cfg.handler e = .user fd) (hstarts : Starts code)
    (hinit : code.running handler = false) (hvalid : cfg.valid e = true)
    (h : GuardedRun (hostedSystem cfg code e) ok (init handler) tr s) (hc : s.loop.crashed = none)
    (hrunning : code.running s.handler = true) : s.loop.epoll.events (cfg.handle e) = some e := by
  obtain ⟨rest, hstack⟩ := stack_of_running hclass hstarts hinit h hc hrunning
  refine running_of_run (loopRun h) hc (.callback e) ?_ e (by simp [LoopFrame.runs]) hvalid
  rw [hstack]
  exact List.mem_cons_self

/-- **A promise is kept.** From the moment `HandleEvents` has asked for another call with
`ReadyEvent`, that call is on its way or has been made. The promise is made inside of a call, so
the handler is registered then, and an event is registered only once. -/
theorem signalled_of_due (due : List ο → Prop) (hclass : cfg.handler e = .user fd)
    (hstarts : Starts code) (hinit : code.running handler = false) (hvalid : cfg.valid e = true)
    (hqp : ∀ events, q events → p events) (hnil : ¬due [])
    (hdue : ∀ {tr s l l' handler' o},
      GuardedRun (hostedSystem cfg code e) ok (init handler) tr s → Takes l l' → ok l s →
      code.step l' s.handler = some (handler', o) → due (handlerTrace tr ++ o) →
      (due (handlerTrace tr) ∧
        ∀ events, code.actor l' = .entry events → ∃ ignored, events = some ignored ∧ ¬p ignored) ∨
      code.actor l' = .body ∧ ∃ events, q events ∧ o.filterMap code.asks = [.readyEvent events])
    (h : GuardedRun (hostedSystem cfg code e) ok (init handler) tr s) :
    s.loop.crashed = none → due (handlerTrace tr) → Added (loopTrace tr) e ∧
      (s.loop.epoll.events (cfg.handle e) = some e → (s.loop.handlers e).alive = true →
        Signalled q p e s.loop) := by
  refine h.invariant (I := fun tr s => s.loop.crashed = none → due (handlerTrace tr) →
    Added (loopTrace tr) e ∧ (s.loop.epoll.events (cfg.handle e) = some e →
      (s.loop.handlers e).alive = true → Signalled q p e s.loop)) ?_ ?_
  · intro _ hno
    exact absurd hno hnil
  · intro tr s l s' o hrun ih hl hs hc hnow
    obtain ⟨-, hcs, hstep⟩ := step_inv hs
    rw [handlerTrace_append] at hnow
    rw [loopTrace_append]
    -- a promise made before this step, which does not keep it
    have hold : due (handlerTrace tr) →
        (∀ l', l = .enter l' → ∀ events, code.actor l' = .entry events →
          ∃ ignored, events = some ignored ∧ ¬p ignored) →
        Added (loopTrace tr ++ loopTrace o) e ∧ (s'.loop.epoll.events (cfg.handle e) = some e →
          (s'.loop.handlers e).alive = true → Signalled q p e s'.loop) := by
      intro hbefore hentry
      obtain ⟨hadded, hsignalled⟩ := ih hcs hbefore
      refine ⟨hadded.append _, fun hreg halive => ?_⟩
      rcases registered_or_registers hstep hc hreg with hregBefore | ⟨l', loop, asked, hregisters⟩
      · have haliveBefore := alive_before hstep hc halive
        rcases signalled_or_called hstep hc hqp hregBefore haliveBefore
          (hsignalled hregBefore haliveBefore) with hstill | ⟨events, hp, hmem⟩
        · exact hstill
        · obtain ⟨l', wanted, rfl, hactor, hwanted⟩ := enters_of_called hstep hmem
          obtain ⟨ignored, hignored, hnot⟩ := hentry l' rfl wanted hactor
          rw [hwanted ignored hignored] at hnot
          exact absurd hp hnot
      · exact absurd hadded (not_added_of_registers hrun hcs hregisters)
    clear hs
    cases hstep with
    | loop _ _ =>
        rw [handlerTrace_inl, List.append_nil] at hnow
        exact hold hnow (by simp)
    | @enter l wanted events rest loop o handler' o' hactor _ _ _ hcode =>
        rw [handlerTrace_append, handlerTrace_inl, handlerTrace_inr, List.nil_append] at hnow
        rcases hdue hrun (.enter l) hl hcode hnow with ⟨hbefore, hentry⟩ | ⟨hbody, -⟩
        · refine hold hbefore fun l' hl' => ?_
          obtain rfl := HostedLabel.enter.inj hl'
          exact hentry
        · exact absurd (hactor.symm.trans hbody) (by simp)
    | @silent l ret a handler' o hacts hcode hnone =>
        rw [handlerTrace_inr] at hnow
        rcases hdue hrun (.handler l ret) hl hcode hnow with ⟨hbefore, -⟩ | ⟨-, events, -, hasks⟩
        · exact hold hbefore (by simp)
        · exact absurd (hnone.symm.trans hasks) (by simp)
    | @asks l ret a call handler' o loop o' hacts hcode hone hs =>
        rw [handlerTrace_append, handlerTrace_inl, handlerTrace_inr, List.append_nil] at hnow
        rcases hdue hrun (.handler l ret) hl hcode hnow with
          ⟨hbefore, -⟩ | ⟨hbody, events, hq, hasks⟩
        · exact hold hbefore (by simp)
        · -- the promise is made
          obtain rfl := List.singleton_inj.mp (hone.symm.trans hasks)
          rw [hbody] at hacts
          cases hacts with
          | body hrunning _ =>
              have hreg := registered_of_running hclass hstarts hinit hvalid hrun hcs hrunning
              have hnoted := noted_install cfg code e { s with loop, handler := handler' } o'
              rw [hnoted.crashed] at hc
              refine ⟨((registered_of_run (loopRun hrun) hcs).table _ e hreg).1.append _,
                fun _ _ => hnoted.signalled ?_⟩
              cases move_of_step hs hc with
              | call _ hreq _ _ =>
                  cases requested hreq with
                  | ready _ _ => exact .pushing .loop events (s.loop.attachReturned e) hq (by simp)
                  | readyIgnored _ hno =>
                      exact absurd ((attached_of_registered hrun hcs hreg).symm.trans hno) (by simp)
    | @surroundings l ret news handler' o hactor hcode =>
        rw [handlerTrace_inr] at hnow
        rcases hdue hrun (.handler l ret) hl hcode hnow with ⟨hbefore, -⟩ | ⟨hbody, -⟩
        · exact hold hbefore (by simp)
        · exact absurd (hactor.symm.trans hbody) (by simp)

end

/-! ### A sleeping loop -/

section

open EventLoop

variable {cfg : Config} {e : EventId} {loop loop' : EventLoop} {l : LoopLabel} {o : List LoopObs}

/-- `CloseEvent` does not begin with a push. -/
theorem lookup_closeEvent {s : EventLoop} {a b : Agent} {e' : EventId} {element : Element}
    (h : (s.closeEvent a e').calls.lookup b = some (.pushing element))
    (hcalls : s.calls = loop.calls) :
    loop.calls.lookup b = some (.pushing element) := by
  unfold closeEvent at h
  split at h
  · rw [lookup_setCall] at h
    split at h
    · exact absurd h (by simp)
    · rw [← hcalls]
      exact h
  · rw [← hcalls]
    exact h

/-- A call of `ReadyEvent` begins as a request of its thread, and nothing else is about to push a
ready element. -/
theorem ready_of_move (hmove : Move cfg loop l loop' o) {a : Agent} {events : Events}
    {attached : Bool} (h : loop'.calls.lookup a = some (.pushing (.ready e events attached))) :
    loop.calls.lookup a = some (.pushing (.ready e events attached)) ∨
      l = .call a (.readyEvent e events) := by
  rcases call_of_move hmove h with hbefore | hnew
  · exact .inl hbefore
  · cases hnew with
    | starts hidle _ =>
        cases hmove with
        | @call b r _ _ hmay hreq _ _ =>
            cases requested hreq with
            | @ready e' events' _ _ =>
                rw [lookup_setCall] at h
                split at h
                · rename_i heq
                  obtain ⟨rfl, rfl, -⟩ : e' = e ∧ events' = events ∧ _ := by simpa using h
                  exact .inr (by rw [heq])
                · exact .inl h
            | closeEvent _ | cancel _ _ | destroyed _ _ _ => exact .inl (lookup_closeEvent h rfl)
            | attach _ _ | attachInternal _ _ _ _ | stop _ =>
                rw [lookup_setCall] at h
                split at h
                · exact absurd h (by simp)
                · exact .inl h
            | _ => exact .inl h
        | light _ _ hlight hrun _ _ _ _ =>
            cases lightRun hlight hrun with
            | wakes =>
                dsimp only at h
                rw [lookup_setCall] at h
                split at h
                · exact absurd h (by simp)
                · exact .inl h
            | dropped _ _ _ | closeEvent => exact .inl (lookup_closeEvent h rfl)
            | _ => exact .inl h
        | finalized _ _ hrun _ =>
            refine .inl ?_
            dsimp only at h
            rw [(finalizeElement_spec hrun).2.1] at h
            exact h
        | @pushed b element hp _ =>
            have hne : a ≠ b := fun heq => by rw [heq, hp] at hidle; exact absurd hidle (by simp)
            rw [(lookup_push loop b a element).1 hne] at h
            exact .inl h
        | @signalled b element hp =>
            rw [lookup_complete] at h
            split at h
            · exact absurd h (by simp)
            · exact .inl h
        | attachRefused _ _ | woken _ | closeReturns _ _ =>
            rw [lookup_endCall] at h
            split at h
            · exact absurd h (by simp)
            · exact .inl h
        | created _ _ _ | closeBegins _ _ | erased _ _ =>
            rw [lookup_setCall] at h
            split at h
            · exact absurd h (by simp)
            · exact .inl h
        | _ => exact .inl h

end

section

open EventLoop

variable {σ ℓ ο : Type} {cfg : Config} {code : HandlerCode σ ℓ ο} {e : EventId} {fd : Fd}
  {handler : σ} {ok : HostedLabel ℓ → Hosted σ → Prop} {tr : List (LoopObs ⊕ ο)}
  {s s' : Hosted σ} {l : HostedLabel ℓ} {o : List (LoopObs ⊕ ο)} {q p : Events → Prop}
  {mask : EPollEvents}

/-- The methods of the class do not call `ReadyEvent`: `HandleEvents` may. -/
def ReadyInBody (code : HandlerCode σ ℓ ο) : Prop :=
  ∀ l handler handler' o a events, code.step l handler = some (handler', o) →
    code.actor l = .method a → .readyEvent events ∉ o.filterMap code.asks

/-- Then it is the loop thread that pushes the ready elements of the event. -/
theorem pusher_of_run (hbody : ReadyInBody code)
    (h : GuardedRun (hostedSystem cfg code e) ok (init handler) tr s) :
    s.loop.crashed = none → ∀ a events attached,
      s.loop.calls.lookup a = some (.pushing (.ready e events attached)) ∨
        s.loop.calls.lookup a = some (.signalling (.ready e events attached)) → a = .loop := by
  refine h.invariant (I := fun _ s => s.loop.crashed = none → ∀ a events attached,
    s.loop.calls.lookup a = some (.pushing (.ready e events attached)) ∨
      s.loop.calls.lookup a = some (.signalling (.ready e events attached)) → a = .loop) ?_ ?_
  · intro _ a events attached hcall
    simp [init, EventLoop.init] at hcall
  · intro tr s l s' o hrun ih _ hs hc a events attached hcall
    obtain ⟨-, hcs, hstep⟩ := step_inv hs
    clear hs
    have hmoved : ∀ {l' : LoopLabel} {loop : EventLoop} {o : List LoopObs},
        Move cfg s.loop l' loop o → loop.calls = s'.loop.calls →
        (∀ b events, l' = .call b (.readyEvent e events) → b = .loop) → a = .loop := by
      intro l' loop o hmove hcalls hlabel
      rw [← hcalls] at hcall
      rcases hcall with hpushing | hsignalling
      · rcases ready_of_move hmove hpushing with hbefore | hl
        · exact ih hcs a events attached (.inl hbefore)
        · exact hlabel a events hl
      · rcases call_of_move hmove hsignalling with hbefore | hnew
        · exact ih hcs a events attached (.inr hbefore)
        · cases hnew with
          | starts _ hstarts => cases hstarts
          | signalling hp => exact ih hcs a events attached (.inl hp)
    cases hstep with
    | @loop l loop o hallows hs =>
        have hnoted := noted_install cfg code e { s with loop } o
        rw [hnoted.crashed] at hc
        refine hmoved (move_of_step hs hc) hnoted.calls.symm ?_
        rintro b events rfl
        simp [allows] at hallows
    | enter _ _ _ hs _ => exact hmoved (move_of_step hs hc) rfl (by simp)
    | silent _ _ _ => exact ih hcs a events attached hcall
    | @asks l ret b call handler o loop o' hacts hcode hone hs =>
        have hnoted := noted_install cfg code e { s with loop, handler } o'
        rw [hnoted.crashed] at hc
        refine hmoved (move_of_step hs hc) hnoted.calls.symm ?_
        intro b' events' hl
        obtain ⟨rfl, hcall'⟩ := LoopLabel.call.inj hl
        cases call with
        | readyEvent _ =>
            generalize hactor : code.actor l = actor at hacts
            cases hacts with
            | body _ _ => rfl
            | method _ _ =>
                exact absurd (hone ▸ List.mem_singleton_self _) (hbody _ _ _ _ _ _ hcode hactor)
        | modifyEvent | closeEvent => exact absurd hcall' (by simp [EventCall.request])
    | @surroundings l ret news handler o _ _ =>
        refine ih hcs a events attached ?_
        split at hcall
        · rw [(noted_report cfg code e { s with handler }).calls] at hcall
          exact hcall
        · exact hcall

/-- The loop thread is asleep in `epoll_wait`: the kernel keeps its word and has nothing to
deliver. -/
structure Asleep (cfg : Config) (code : HandlerCode σ ℓ ο) (e : EventId) (s : Hosted σ) : Prop where
  wait : s.loop.AtWait
  idle : s.loop.calls.lookup .loop = none
  nothing : ∃ poll, s.pollsRight cfg code e poll = true ∧ (s.loop.epoll.epollWait poll).1 = []

/-- The loop thread is asleep with this to be reported. -/
def sleepsOn (cfg : Config) (code : HandlerCode σ ℓ ο) (e : EventId)
    (poll : Fd → EventId → Option EPollEvents) (s : Hosted σ) : Bool :=
  match s.loop.stack with
  | .process _ :: _ =>
    (s.loop.calls.lookup .loop).isNone && s.pollsRight cfg code e poll &&
      (s.loop.epoll.epollWait poll).1.isEmpty
  | _ => false

/-- The loop thread is asleep, and polling reports nothing at all. -/
def sleeps (cfg : Config) (code : HandlerCode σ ℓ ο) (e : EventId) (s : Hosted σ) : Bool :=
  s.sleepsOn cfg code e fun _ _ => none

theorem asleep_of_sleepsOn {poll : Fd → EventId → Option EPollEvents}
    (h : s.sleepsOn cfg code e poll = true) : Asleep cfg code e s := by
  unfold sleepsOn at h
  split at h
  · rename_i final rest hstack
    simp only [Bool.and_eq_true, Option.isNone_iff_eq_none, List.isEmpty_iff] at h
    exact ⟨⟨final, rest, hstack⟩, h.1.1, _, h.1.2, h.2⟩
  · exact absurd h (by simp)

theorem asleep_of_sleeps (h : s.sleeps cfg code e = true) : Asleep cfg code e s :=
  asleep_of_sleepsOn h

/-- No ready element is on its way while the loop thread sleeps. -/
theorem not_signalled_of_asleep
    (h : GuardedRun (hostedSystem cfg code e) ok (init handler) tr s) (hc : s.loop.crashed = none)
    (hpusher : ∀ a events attached, q events →
      s.loop.calls.lookup a = some (.pushing (.ready e events attached)) ∨
        s.loop.calls.lookup a = some (.signalling (.ready e events attached)) → a = .loop)
    (hasleep : Asleep cfg code e s) : ¬Signalled q p e s.loop := by
  obtain ⟨final, hstack⟩ := hasleep.wait.stack_eq (layered_of_run (loopRun h))
  obtain ⟨poll, -, hnothing⟩ := hasleep.nothing
  rintro (⟨a, events, attached, hq, ha⟩ | ⟨events, attached, hq, hmem⟩ |
    ⟨events, attached, -, hmem⟩ | ⟨events, -, hmem⟩)
  · obtain rfl := hpusher a events attached hq (.inl ha)
    exact absurd (hasleep.idle.symm.trans ha) (by simp)
  · -- a queued element has an edge, or the thread that pushed it is about to write one
    rcases (covered_of_run (loopRun h) hc).covered .ready (List.ne_nil_of_mem hmem) with
      hedge | ⟨a, element, ha, hone⟩ | ⟨f, hf, hdrains⟩
    · exact hedge.epollWait_ne_nil poll hnothing
    · rw [hone] at hmem
      obtain rfl := List.mem_singleton.mp hmem
      obtain rfl := hpusher a events attached hq (.inr ha)
      exact absurd (hasleep.idle.symm.trans ha) (by simp)
    · rw [hstack] at hf
      rw [List.mem_singleton.mp hf] at hdrains
      exact hdrains
  · rw [hstack] at hmem
    exact absurd hmem List.not_mem_nil
  · rw [hstack] at hmem
    exact absurd (List.mem_singleton.mp hmem) (by simp)

/-- No signal is on its way while the loop thread sleeps. -/
theorem not_notified_of_asleep
    (h : GuardedRun (hostedSystem cfg code e) ok (init handler) tr s) (hc : s.loop.crashed = none)
    (hreg : s.loop.epoll.events (cfg.handle e) = some e) (hpollable : s.pollable code ≠ 0)
    (hpusher : ∀ a events attached, q events →
      s.loop.calls.lookup a = some (.pushing (.ready e events attached)) ∨
        s.loop.calls.lookup a = some (.signalling (.ready e events attached)) → a = .loop)
    (hasleep : Asleep cfg code e s) : ¬Notified cfg q p e s.loop := by
  obtain ⟨final, hstack⟩ := hasleep.wait.stack_eq (layered_of_run (loopRun h))
  obtain ⟨poll, hright, hnothing⟩ := hasleep.nothing
  rintro (hsignalled | hitem | ⟨ns, final', n, hbatch, -, -, -⟩)
  · exact not_signalled_of_asleep h hc hpusher hasleep hsignalled
  · -- polling the descriptor reports something
    simp only [pollsRight, watched, hc, watched_of_registered h hc hreg, Option.isNone_none,
      beq_self_eq_true, Bool.and_self, Bool.not_true, Bool.false_or, Bool.or_eq_true, beq_iff_eq,
      hpollable, false_or] at hright
    split at hright
    · rename_i events hevents
      have hreport : EPoll.pollItem s.loop.epoll.counter poll (.descriptor (cfg.handle e) e) =
          some events := hevents
      exact EPoll.harvest_ne_nil hreport hitem hnothing
    · exact absurd hright (by simp)
  · rw [hstack] at hbatch
    exact absurd (List.mem_singleton.mp hbatch) (by simp)

end

end Hosted

end Libael
