import Libael.EventLoop.Attended

/-!
# Libael.EventLoop.Armed

**An armed descriptor**: since the last `EPOLL_CTL_ADD` or `EPOLL_CTL_MOD` with the bit in its
interest, `HandleEvents` has not been called, so the edge that the kernel owes for it has not
been used up. A handler that hands its work off, to a ready element or to the kernel, always has
one of the two on its way.
-/

namespace Libael

open Lts

namespace Hosted

/-- What an observation makes of the descriptor of `e`: installing an interest arms it for the
bits of the interest, and calling `HandleEvents` uses that up. -/
def rearm (e : EventId) (bit : EPollEvents) (armed : Bool) : LoopObs → Bool
  | .ctlAdd e' interest | .ctlMod e' interest none =>
    if e' = e then Events.has interest bit else armed
  | .handleEvents e' _ => if e' = e then false else armed
  | _ => armed

/-- The descriptor of `e` is armed for `bit`. -/
def armed (e : EventId) (bit : EPollEvents) (tr : List LoopObs) : Bool :=
  tr.foldl (rearm e bit) false

section

open EventLoop

variable {cfg : Config} {e : EventId} {bit interest : EPollEvents} {b : Bool} {x : LoopObs}
  {loop loop' : EventLoop} {l : LoopLabel} {tr o : List LoopObs}

theorem armed_append : armed e bit (tr ++ o) = o.foldl (rearm e bit) (armed e bit tr) :=
  List.foldl_append

/-- The last installed interest decides whether the descriptor is armed. -/
theorem rearm_of_installed (h : installed e x = some interest) :
    rearm e bit b x = Events.has interest bit := by
  unfold installed at h
  split at h
  · split at h
    · rename_i he
      rw [← Option.some.inj h]
      exact if_pos he
    · exact absurd h (by simp)
  · split at h
    · rename_i he
      rw [← Option.some.inj h]
      exact if_pos he
    · exact absurd h (by simp)
  · exact absurd h (by simp)

theorem rearm_of_other (h : installed e x = none) (hx : ∀ events, x ≠ .handleEvents e events) :
    rearm e bit b x = b := by
  unfold rearm
  split
  · exact if_neg (by rintro rfl; simp [installed] at h)
  · exact if_neg (by rintro rfl; simp [installed] at h)
  · exact if_neg (by rintro rfl; exact absurd rfl (hx _))
  · rfl

/-- What does not call `HandleEvents` and installs the bit whenever it installs an interest
leaves the descriptor armed. -/
theorem foldl_rearm (hbit : ∀ x ∈ o, ∀ interest, installed e x = some interest →
      Events.has interest bit = true)
    (hcalls : ∀ events, .handleEvents e events ∉ o)
    (h : b = true ∨ ∃ x ∈ o, ∃ interest, installed e x = some interest) :
    o.foldl (rearm e bit) b = true := by
  induction o generalizing b with
  | nil => simpa using h
  | cons x o ih =>
      refine ih (fun y hy => hbit y (List.mem_cons_of_mem x hy))
        (fun events hmem => hcalls events (List.mem_cons_of_mem x hmem)) ?_
      cases hx : installed e x with
      | some interest =>
          refine .inl ?_
          rw [rearm_of_installed hx]
          exact hbit x List.mem_cons_self interest hx
      | none =>
          have hother : ∀ events, x ≠ .handleEvents e events := by
            rintro events rfl
            exact hcalls events List.mem_cons_self
          rw [rearm_of_other hx hother]
          refine h.imp_right ?_
          rintro ⟨y, hy, interest, hi⟩
          rcases List.mem_cons.mp hy with rfl | hy
          · exact absurd (hx.symm.trans hi) (by simp)
          · exact ⟨y, hy, interest, hi⟩

/-- A step installs one interest at most. -/
theorem installed_of_mem (hmove : Move cfg loop l loop' o) (hx : x ∈ o)
    (hi : installed e x = some interest) : o.findSome? (installed e) = some interest := by
  have hone : ∀ {y : LoopObs}, x ∈ [y] → [y].findSome? (installed e) = some interest := by
    intro y hy
    rw [← List.mem_singleton.mp hy, List.findSome?_singleton]
    exact hi
  cases hmove with
  | call _ hreq _ _ =>
      cases requested hreq with
      | modify _ _ _ _ | modifyOutside _ _ _ => exact hone hx
      | modifyThrows _ _ _ | modifyFails _ _ _ =>
          simp only [List.mem_cons, List.not_mem_nil, or_false] at hx
          obtain rfl | rfl := hx <;> simp [installed] at hi
      | destroyed _ _ _ =>
          split at hx
          · rw [List.mem_singleton.mp hx] at hi
            simp [installed] at hi
          · exact absurd hx List.not_mem_nil
      | _ => exact absurd hx List.not_mem_nil
  | light _ _ hlight hrun _ _ _ _ =>
      cases lightRun hlight hrun <;>
        simp only [List.mem_cons, List.not_mem_nil, or_false] at hx <;>
        first
        | exact absurd hx id
        | obtain rfl | rfl := hx <;> simp [installed] at hi
  | finalized _ _ hrun hthrew =>
      cases finalizes hrun hthrew with
      | add _ _ =>
          simp only [List.mem_cons, List.not_mem_nil, or_false] at hx
          obtain rfl | rfl := hx
          · simp [installed] at hi
          · -- what is shown before its `EPOLL_CTL_ADD` installs nothing
            rw [List.findSome?_cons_of_isNone rfl, List.findSome?_singleton]
            exact hi
      | _ =>
          simp only [List.mem_cons, List.not_mem_nil, or_false] at hx
          obtain rfl | rfl := hx <;> simp [installed] at hi
  | destroyed _ _ hepoll =>
      rcases hepoll with ⟨-, -, rfl⟩ | ⟨-, -, rfl⟩
      · exact absurd hx List.not_mem_nil
      · exact hone hx
  | attachRefused _ _ | created _ _ _ | pushed _ _ | erased _ _ => exact hone hx
  | _ => exact absurd hx List.not_mem_nil

end

/-! ### The rule -/

section

open EventLoop

variable {σ ℓ ο : Type} {cfg : Config} {code : HandlerCode σ ℓ ο} {e : EventId} {fd : Fd}
  {handler : σ} {ok : HostedLabel ℓ → Hosted σ → Prop} {tr : List (LoopObs ⊕ ο)}
  {s s' : Hosted σ} {l : HostedLabel ℓ} {o : List (LoopObs ⊕ ο)} {q p : Events → Prop}
  {mask bit interest : EPollEvents}

/-- Whatever is installed for a living handler is the interest it asks for, at the site that
registers it and at the one that modifies it. -/
theorem installed_of_step (hclass : cfg.handler e = .user fd)
    (hmask : ∀ handler, getEPollEventsFromEvents (code.getEvents handler) = mask)
    (hrun : GuardedRun (hostedSystem cfg code e) ok (init handler) tr s)
    (hcs : s.loop.crashed = none) (hstep : Step cfg code e s l s' o) (hc : s'.loop.crashed = none)
    (hreg : s'.loop.epoll.events (cfg.handle e) = some e)
    (halive : (s.loop.handlers e).alive = true) {x : LoopObs} (hx : x ∈ loopTrace o)
    (hi : installed e x = some interest) : interest = EPollEvents.EPOLLET ||| mask := by
  cases hstep with
  | @loop l loop o hallows hs =>
      have hnoted := noted_install cfg code e { s with loop } o
      rw [hnoted.crashed] at hc
      rw [hnoted.events] at hreg
      rw [loopTrace_inl] at hx
      have hmove := move_of_step hs hc
      have hsome := installed_of_mem hmove hx hi
      rcases registered_before hmove hreg with hbefore | ⟨asked, hregisters⟩
      · have hnone := installed_of_allows hallows hmove (watched_of_registered hrun hcs hbefore)
        exact absurd (hnone.symm.trans hsome) (by simp)
      · have hinstalled := installed_of_registers hclass hallows halive hregisters
        rw [hsome, hmask] at hinstalled
        exact Option.some.inj hinstalled
  | enter _ _ _ hs _ =>
      rw [loopTrace_append, loopTrace_inl, loopTrace_inr, List.append_nil] at hx
      have hmove := move_of_step hs hc
      rcases installed_of_move (e := e) hmove with
        hnone | ⟨asked, ret, caught, hl⟩ | ⟨asked, hregisters⟩
      · exact absurd (hnone.symm.trans (installed_of_mem hmove hx hi)) (by simp)
      · exact absurd hl (by simp)
      · exact absurd hregisters.label (by simp)
  | silent _ _ _ | surroundings _ _ =>
      rw [loopTrace_inr] at hx
      exact absurd hx List.not_mem_nil
  | @asks l ret a call handler o loop o' _ _ _ hs =>
      have hnoted := noted_install cfg code e { s with loop, handler } o'
      rw [hnoted.crashed] at hc
      rw [hnoted.events] at hreg
      rw [loopTrace_append, loopTrace_inl, loopTrace_inr, List.nil_append] at hx
      have hmove := move_of_step hs hc
      have hbefore := registered_of_label hs hc (by simp) hreg
      rcases installed_of_move (e := e) hmove with
        hnone | ⟨asked, ret', caught, hl⟩ | ⟨asked, hregisters⟩
      · exact absurd (hnone.symm.trans (installed_of_mem hmove hx hi)) (by simp)
      · obtain ⟨rfl, hcall⟩ := LoopLabel.call.inj hl
        cases call with
        | modifyEvent =>
            obtain ⟨-, rfl⟩ := installed_of_modify hclass hs hc rfl
              (attached_of_registered hrun hcs hbefore)
            rw [List.mem_singleton.mp hx] at hi
            simp only [installed, if_true, Option.some.injEq] at hi
            rw [← hi, hmask, UInt32.or_comm]
        | readyEvent _ | closeEvent => exact absurd hcall (by simp [EventCall.request])
      · exact absurd hregisters.label (by simp)

/-- How a step of a handler that is left with work hands it off: `before` tells that there has
been work before, which nobody was at. -/
inductive HandsOff (code : HandlerCode σ ℓ ο) (q : Events → Prop) (before busy : Prop) (l : ℓ)
    (o : List ο) : Prop
  /-- to a call that is at it -/
  | busy : busy → HandsOff code q before busy l o
  /-- as before -/
  | waits : (∀ events, code.actor l ≠ .entry events) → before → HandsOff code q before busy l o
  /-- to the kernel -/
  | rearms : code.actor l = .body → o.filterMap code.asks = [.modifyEvent] →
      HandsOff code q before busy l o
  /-- to the loop -/
  | signals (events : Events) : (∀ events, code.actor l ≠ .entry events) →
      (∀ news, code.actor l ≠ .surroundings news) → q events →
      o.filterMap code.asks = [.readyEvent events] → HandsOff code q before busy l o

/-- A step other than the call of `HandleEvents` leaves a signal on its way and a descriptor
armed; one that registers the handler arms its descriptor. -/
theorem handed_off_stays (tr : List (LoopObs ⊕ ο))
    (hinstalls : ∀ x ∈ loopTrace o, ∀ interest, installed e x = some interest →
      Events.has interest bit = true)
    (hqp : ∀ events, q events → p events) (hstep : Step cfg code e s l s' o)
    (hc : s'.loop.crashed = none) (hreg : s'.loop.epoll.events (cfg.handle e) = some e)
    (halive : (s.loop.handlers e).alive = true) (hentry : ∀ l', l ≠ .enter l')
    (h : s.loop.epoll.events (cfg.handle e) = some e →
      Signalled q p e s.loop ∨ armed e bit (loopTrace tr) = true) :
    Signalled q p e s'.loop ∨ armed e bit (loopTrace (tr ++ o)) = true := by
  rw [loopTrace_append, armed_append]
  have hcalls : ∀ events, .handleEvents e events ∉ loopTrace o := by
    intro events hmem
    obtain ⟨l', -, hl', -⟩ := enters_of_called hstep hmem
    exact hentry l' hl'
  rcases registered_or_registers hstep hc hreg with hbefore | ⟨l', loop, asked, hregisters⟩
  · rcases h hbefore with hsignalled | harmed
    · rcases signalled_or_called hstep hc hqp hbefore halive hsignalled with hstill |
        ⟨events, -, hmem⟩
      · exact .inl hstill
      · exact absurd hmem (hcalls events)
    · exact .inr (foldl_rearm hinstalls hcalls (.inl harmed))
  · obtain ⟨x, hx, hi⟩ := List.exists_of_findSome?_eq_some hregisters.obs
    exact .inr (foldl_rearm hinstalls hcalls (.inr ⟨x, hx, _, hi⟩))

/-- `EPOLL_CTL_MOD` arms the descriptor again. -/
theorem armed_of_modify (hbit : Events.has interest bit = true) :
    armed e bit (loopTrace (tr ++ (o ++ [.inl (.ctlMod e interest none)]))) = true := by
  rw [loopTrace_append, loopTrace_append, armed_append, List.foldl_append]
  exact (if_pos rfl).trans hbit

/-- The surroundings leave the handler in the state of its own step. -/
theorem handler_of_surroundings (news : Bool) (handler' : σ) :
    (if news then { s with handler := handler' }.report cfg code e
      else { s with handler := handler' }).handler = handler' := by
  split
  · exact report_handler _
  · rfl

/-- **Work is handed off.** What is left to do for a registered handler is being done, or a ready
element is on its way, or its descriptor is armed. The first two are kept by the loop as any
signal is; the third ends with the call of `HandleEvents` that takes the edge, and that call does
the work. -/
theorem handed_off (wanted : List ο → σ → Prop) (busy : σ → Prop)
    (hclass : cfg.handler e = .user fd)
    (hmask : ∀ handler, getEPollEventsFromEvents (code.getEvents handler) = mask)
    (hbit : Events.has (EPollEvents.EPOLLET ||| mask) bit = true)
    (hqp : ∀ events, q events → p events)
    (hcode : ∀ {tr s l l' handler' o},
      GuardedRun (hostedSystem cfg code e) ok (init handler) tr s → Takes l l' → ok l s →
      code.step l' s.handler = some (handler', o) → code.crashed handler' = false →
      wanted (handlerTrace tr ++ o) handler' →
      HandsOff code q (wanted (handlerTrace tr) s.handler ∧ ¬busy s.handler) (busy handler') l' o)
    (h : GuardedRun (hostedSystem cfg code e) ok (init handler) tr s) :
    code.crashed s.handler = false → s.loop.crashed = none →
      s.loop.epoll.events (cfg.handle e) = some e → (s.loop.handlers e).alive = true →
      wanted (handlerTrace tr) s.handler →
      busy s.handler ∨ Signalled q p e s.loop ∨ armed e bit (loopTrace tr) = true := by
  refine h.invariant (I := fun tr s => code.crashed s.handler = false → s.loop.crashed = none →
    s.loop.epoll.events (cfg.handle e) = some e → (s.loop.handlers e).alive = true →
    wanted (handlerTrace tr) s.handler →
    busy s.handler ∨ Signalled q p e s.loop ∨ armed e bit (loopTrace tr) = true) ?_ ?_
  · intro _ _ hreg
    exact absurd hreg (by simp [init, EventLoop.init, EPoll.new])
  · intro tr s l s' o hrun ih hl hs hcr' hc hreg halive hwanted
    obtain ⟨hcr, hcs, hstep⟩ := hostedSystem_inv hs
    have halive' := alive_before hstep hc halive
    rw [handlerTrace_append] at hwanted
    have hinstalls : ∀ x ∈ loopTrace o, ∀ interest, installed e x = some interest →
        Events.has interest bit = true := by
      intro x hx interest hi
      rw [installed_of_step hclass hmask hrun hcs hstep hc hreg halive' hx hi]
      exact hbit
    have hstays := handed_off_stays tr hinstalls hqp hstep hc hreg halive'
    clear hs
    cases hstep with
    | loop _ _ =>
        rw [handlerTrace_inl, List.append_nil, install_handler] at hwanted
        rw [install_handler]
        by_cases hbusy : busy s.handler
        · exact .inl hbusy
        · exact .inr (hstays (by simp) fun hbefore =>
            (ih hcr hcs hbefore halive' hwanted).resolve_left hbusy)
    | @enter l wanted' events rest loop o handler' o' hactor _ _ _ hcode' =>
        rw [handlerTrace_append, handlerTrace_inl, handlerTrace_inr, List.nil_append] at hwanted
        cases hcode hrun (.enter l) hl hcode' hcr' hwanted with
        | busy hbusy => exact .inl hbusy
        | waits hentry _ | signals _ hentry _ _ _ => exact absurd hactor (hentry _)
        | rearms hbody _ => exact absurd (hactor.symm.trans hbody) (by simp)
    | @silent l ret a handler' o hacts hcode' hnone =>
        rw [handlerTrace_inr] at hwanted
        cases hcode hrun (.handler l ret) hl hcode' hcr' hwanted with
        | busy hbusy => exact .inl hbusy
        | waits _ hbefore =>
            exact .inr (hstays (by simp) fun hreg =>
              (ih hcr hcs hreg halive' hbefore.1).resolve_left hbefore.2)
        | rearms _ hasks | signals _ _ _ _ hasks => exact absurd (hnone.symm.trans hasks) (by simp)
    | @asks l ret a call handler' o loop o' hacts hcode' hone hs =>
        have hnoted := noted_install cfg code e { s with loop, handler := handler' } o'
        rw [install_handler] at hcr' hwanted ⊢
        rw [handlerTrace_append, handlerTrace_inl, handlerTrace_inr, List.append_nil] at hwanted
        rw [hnoted.crashed] at hc
        rw [hnoted.events] at hreg
        have hatt := attached_of_registered hrun hcs (registered_of_label hs hc (by simp) hreg)
        cases hcode hrun (.handler l ret) hl hcode' hcr' hwanted with
        | busy hbusy => exact .inl hbusy
        | waits _ hold =>
            exact .inr (hstays (by simp) fun hreg =>
              (ih hcr hcs hreg halive' hold.1).resolve_left hold.2)
        | rearms hbody hasks =>
            obtain rfl := List.singleton_inj.mp (hone.symm.trans hasks)
            rw [hbody] at hacts
            cases hacts with
            | body _ _ =>
                obtain ⟨rfl, rfl⟩ := installed_of_modify hclass hs hc rfl hatt
                rw [hmask, UInt32.or_comm]
                exact .inr (.inr (armed_of_modify hbit))
        | signals events _ _ hq hasks =>
            obtain rfl := List.singleton_inj.mp (hone.symm.trans hasks)
            exact .inr (.inl (hnoted.signalled (signalled_of_ready hs hc hatt hq)))
    | @surroundings l ret news handler' o hactor hcode' =>
        rw [handlerTrace_inr] at hwanted
        rw [handler_of_surroundings] at hcr' hwanted ⊢
        cases hcode hrun (.handler l ret) hl hcode' hcr' hwanted with
        | busy hbusy => exact .inl hbusy
        | waits _ hold =>
            exact .inr (hstays (by simp) fun hreg =>
              (ih hcr hcs hreg halive' hold.1).resolve_left hold.2)
        | rearms hbody _ => exact absurd (hactor.symm.trans hbody) (by simp)
        | signals _ _ hnews _ _ => exact absurd hactor (hnews news)

end

end Hosted

end Libael
