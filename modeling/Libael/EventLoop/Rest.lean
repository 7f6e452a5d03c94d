import Libael.EventLoop.Work
import Libael.EventLoop.References
import Libael.EventLoop.Stop
import Libael.EventLoop.Tables

/-!
# Libael.EventLoop.Rest

**The event loop comes to rest, and at rest everything has been done.** Left alone, with no new
call, no edge and nothing else from outside, the threads and the loop take a bounded number of
transitions, and while any of them has something left to do, one of them can go on: whoever
waits for a lock or for a `call_once` waits for a thread that is not waiting. Where none can,
every call has returned, and the loop sleeps in `epoll_wait` with empty queues and tables that
agree, or its thread has returned from `Run`.

* The bound is the potential of `Libael.EventLoop.Work`.
* That nothing is stuck needs two invariants. `Promised` names the thread behind each lock and
  each flag that is taken; `Looping` says that the loop of `Run` goes on until `stop_` is set.
* The rest is read off a state in which nothing can go on, in this order: nobody holds `lock_`,
  no call is left, the loop is at `epoll_wait` or gone, and then the invariants of the other
  modules say what the queues, the tables and the objects look like (`Settled`).
-/

namespace Libael

open Lts

namespace LoopFrame

/-- The frame belongs to the loop of `Run`: `stop_` has not been observed. -/
def looping : LoopFrame → Bool
  | .whileNotStop | .process false | .batch _ false => true
  | _ => false

end LoopFrame

namespace EventLoop

/-! ### Whoever is waited for -/

/-- The loop of `Run` goes on until `stop_` is observed, and nothing is copied before that. -/
structure Looping (s : EventLoop) : Prop where
  stop : s.stop = true ∨ ∃ f ∈ s.stack, f.looping = true
  eventsToClose : (∃ f ∈ s.stack, f.looping = true) → s.eventsToClose = []

/-- Whatever keeps a thread waiting, there is a thread to end it. -/
structure Promised (s : EventLoop) : Prop where
  lock : ∀ a, s.epoll.lock = some a → ∃ element, s.calls.lookup a = some (.signalling element)
  active : ∀ e, (s.handlers e).closeFlag = .active →
    ∃ a p, s.calls.lookup a = some p ∧ p.removes e = true
  /-- a handler closes its event when it is destroyed -/
  dead : ∀ e, (s.handlers e).attached = true → (s.handlers e).alive = false →
    (s.handlers e).closeFlag ≠ .clear ∨ ∃ a, s.calls.lookup a = some (.closing e)
  looping : Looping s

theorem promised_init : Promised init where
  lock a h := absurd h (by simp [init, EPoll.new])
  active e h := absurd h (by simp [init])
  dead e h := absurd h (by simp [init])
  looping := ⟨.inr ⟨.whileNotStop, List.mem_cons_self, rfl⟩, fun _ => rfl⟩

variable {cfg : Config} {l : LoopLabel} {s s' : EventLoop} {tr o : List LoopObs} {e : EventId}

/-- `lock_` is kept by a thread that is about to write to the eventfd. -/
theorem lock_of_move (hmove : Move cfg s l s' o) {a : Agent} (h : s'.epoll.lock = some a) :
    s.epoll.lock = some a ∨ ∃ element, s'.calls.lookup a = some (.signalling element) := by
  cases hmove with
  | call _ _ hquiet _ => exact .inl (hquiet.epoll ▸ h)
  | light _ _ _ _ hquiet _ _ _ => exact .inl (hquiet.epoll ▸ h)
  | @pushed b element _ _ =>
      rcases push_spec s b element with ⟨-, heq⟩ | ⟨-, heq⟩
      · rw [heq] at h
        obtain rfl : b = a := Option.some.inj h
        rw [heq]
        exact .inr ⟨element, by simp⟩
      · rw [heq, complete_epoll] at h
        exact absurd h (by simp)
  | signalled _ =>
      rw [complete_epoll] at h
      exact absurd h (by simp)
  | woken _ => exact .inl (EPoll.wakeup_lock s.epoll ▸ h)
  | finalized _ _ hrun _ => exact .inl ((finalizeElement_spec hrun).1.lock ▸ h)
  | edge _ => exact .inl (EPoll.queueItem_lock .. ▸ h)
  | destroyed _ _ hepoll =>
      rcases hepoll with ⟨-, rfl, -⟩ | ⟨-, rfl, -⟩
      · exact .inl h
      · exact .inl h
  | _ => exact .inl h

/-- `call_once` begins with `Remove`. -/
theorem active_of_move (hmove : Move cfg s l s' o)
    (h : (s'.handlers e).closeFlag = .active) : (s.handlers e).closeFlag = .active ∨
      ∃ a, s'.calls.lookup a = some (.erasing e) := by
  have hset : ∀ e' (handler : EventHandler), s'.handlers = Function.update s.handlers e' handler →
      handler.closeFlag = (s.handlers e').closeFlag → (s.handlers e).closeFlag = .active := by
    intro e' handler heq hflag
    rw [heq, Function.update_apply] at h
    split at h
    · rename_i he
      rw [he, ← hflag]
      exact h
    · exact h
  cases hmove with
  | call _ _ hquiet _ => exact .inl (hquiet.closeFlag e ▸ h)
  | light _ _ _ _ hquiet _ _ _ => exact .inl (hquiet.closeFlag e ▸ h)
  | created _ _ _ => exact .inl (hset _ _ rfl rfl)
  | expire => exact .inl (hset _ _ rfl rfl)
  | @closeBegins a e' hp _ =>
      by_cases he : e = e'
      · subst he
        exact .inr ⟨a, by simp⟩
      · refine .inl ?_
        change ((s.setHandler e' _).handlers e).closeFlag = .active at h
        rw [handlers_setHandler, if_neg he] at h
        exact h
  | @pushed a element _ _ =>
      rcases closeFlag_push s a element e with hsame | ⟨-, hdone⟩
      · exact .inl (hsame ▸ h)
      · rw [hdone] at h
        exact absurd h (by simp)
  | @signalled a element _ =>
      rw [handlers_complete] at h
      split at h
      · exact absurd h (by simp)
      · exact .inl h
  | finalized _ _ hrun _ =>
      dsimp only at h
      rw [(finalizeElement_spec hrun).2.1] at h
      exact .inl h
  | _ => exact .inl h

/-- A removal goes on until `call_once` returns. -/
theorem removes_stays (hmove : Move cfg s l s' o) {a : Agent} {p : Progress}
    (hp : s.calls.lookup a = some p) (hremoves : p.removes e = true) :
    (∃ p', s'.calls.lookup a = some p' ∧ p'.removes e = true) ∨
      (s'.handlers e).closeFlag = .done := by
  rcases call_stays hmove hp with hstays | rfl
  · exact .inl ⟨p, hstays, hremoves⟩
  · have hcall : ∀ {p'}, s.calls.lookup a = some p' → p'.removes e = true := fun hp' =>
      (Option.some.inj (hp.symm.trans hp')) ▸ hremoves
    cases hmove with
    | @pushed _ element hp' _ =>
        obtain rfl : element = .remove e := by simpa [Progress.removes] using hcall hp'
        rcases push_spec s a (.remove e) with ⟨-, heq⟩ | ⟨-, heq⟩ <;> rw [heq]
        · exact .inl ⟨.signalling (.remove e), by simp, by simp [Progress.removes]⟩
        · exact .inr (by simp [handlers_complete])
    | @signalled _ element hp' =>
        obtain rfl : element = .remove e := by simpa [Progress.removes] using hcall hp'
        exact .inr (by simp [handlers_complete])
    | @erased _ e' hp' _ =>
        obtain rfl : e' = e := by simpa [Progress.removes] using hcall hp'
        exact .inl ⟨.pushing (.remove e'), by simp, by simp [Progress.removes]⟩
    | attachRefused hp' _ | created hp' _ _ | woken hp' | closeBegins hp' _ | closeReturns hp' _ =>
        exact absurd (hcall hp') (by simp [Progress.removes])

/-- A flag that has been taken is not given back. -/
theorem closeFlag_stays (hmove : Move cfg s l s' o) (h : (s.handlers e).closeFlag ≠ .clear) :
    (s'.handlers e).closeFlag ≠ .clear := by
  have hset : ∀ e' (handler : EventHandler), s'.handlers = Function.update s.handlers e' handler →
      (handler.closeFlag = (s.handlers e').closeFlag ∨ handler.closeFlag = .active) →
      (s'.handlers e).closeFlag ≠ .clear := by
    intro e' handler heq hflag
    rw [heq, Function.update_apply]
    split
    · rename_i he
      subst he
      rcases hflag with hflag | hflag
      · rw [hflag]
        exact h
      · rw [hflag]
        exact OnceFlag.noConfusion
    · exact h
  cases hmove with
  | call _ _ hquiet _ => rw [hquiet.closeFlag e]; exact h
  | light _ _ _ _ hquiet _ _ _ => rw [hquiet.closeFlag e]; exact h
  | created _ _ _ => exact hset _ _ rfl (.inl rfl)
  | expire => exact hset _ _ rfl (.inl rfl)
  | closeBegins _ _ => exact hset _ _ rfl (.inr rfl)
  | @pushed a element _ _ =>
      rcases closeFlag_push s a element e with hsame | ⟨-, hdone⟩
      · rw [hsame]; exact h
      · rw [hdone]; exact OnceFlag.noConfusion
  | signalled _ =>
      rw [handlers_complete]
      split
      · exact OnceFlag.noConfusion
      · exact h
  | finalized _ _ hrun _ =>
      dsimp only
      rw [(finalizeElement_spec hrun).2.1]
      exact h
  | _ => exact h

/-- A handler that is destroyed has closed its event, or closes it now: its destructor calls
`Close`. -/
theorem dead_of_move (hmove : Move cfg s l s' o) (hpromised : Promised s) (href : Referenced s)
    (hatt : (s'.handlers e).attached = true) (hdead : (s'.handlers e).alive = false) :
    (s'.handlers e).closeFlag ≠ .clear ∨ ∃ a, s'.calls.lookup a = some (.closing e) := by
  cases halive : (s.handlers e).alive with
  | true =>
      rcases alive_or_dies hmove halive with halive' | hdies
      · rw [hdead] at halive'
        exact absurd halive' (by simp)
      · cases hdies with
        | @dropped a _ _ =>
            refine .inr ⟨a, ?_⟩
            unfold destroyHandler closeEvent at hatt ⊢
            split at hatt
            · rename_i hbefore
              rw [if_pos hbefore]
              simp
            · rename_i hbefore
              exact absurd hatt hbefore
        | @released rest _ _ _ =>
            refine .inr ⟨.loop, ?_⟩
            unfold destroyHandler closeEvent at hatt ⊢
            dsimp only at hatt ⊢
            split at hatt
            · rename_i hbefore
              rw [if_pos hbefore]
              simp
            · rename_i hbefore
              exact absurd hatt hbefore
  | false =>
      have hatt₀ : (s.handlers e).attached = true := by
        by_contra hno
        obtain ⟨a, hp, -⟩ := (attached_of_move hmove hatt).resolve_left hno
        have halive₀ := href.calls a _ hp e (by simp [Progress.usesHandler])
        rw [halive] at halive₀
        exact absurd halive₀ (by simp)
      rcases hpromised.dead e hatt₀ halive with hflag | ⟨a, hclosing⟩
      · exact .inl (closeFlag_stays hmove hflag)
      · rcases call_stays hmove hclosing with hstays | rfl
        · exact .inr ⟨a, hstays⟩
        · cases hmove with
          | closeBegins hp _ =>
              obtain rfl := Progress.closing.inj (Option.some.inj (hp.symm.trans hclosing))
              refine .inl ?_
              show ((s.setHandler _ _).handlers _).closeFlag ≠ .clear
              rw [handlers_setHandler, if_pos rfl]
              exact OnceFlag.noConfusion
          | closeReturns hp hdone =>
              obtain rfl := Progress.closing.inj (Option.some.inj (hp.symm.trans hclosing))
              exact .inl (hdone.symm ▸ OnceFlag.noConfusion)
          | attachRefused hp _ | created hp _ _ | pushed hp _ | signalled hp | woken hp
          | erased hp _ => exact absurd (hp.symm.trans hclosing) (by simp)

/-! ### The loop of `Run` -/

theorem eventsToClose_closeEvent (s : EventLoop) (a : Agent) (e : EventId) :
    (s.closeEvent a e).eventsToClose = s.eventsToClose := by
  unfold closeEvent
  split <;> rfl

theorem eventsToClose_complete (s : EventLoop) (a : Agent) (element : Element) :
    (s.complete a element).eventsToClose = s.eventsToClose := by cases element <;> rfl

/-- A light frame leaves `stop_` alone. -/
theorem stop_of_lightRun {rest : List LoopFrame} {f : LoopFrame} {i : LoopInput} {n : LoopNext}
    (h : LightRun cfg s rest f i n) : n.loop.stop = s.stop := by
  cases h with
  | dropped _ _ _ => exact stop_closeEvent ..
  | closeEvent => exact stop_closeEvent ..
  | _ => rfl

/-- What a light frame leaves in the loop of `Run` was there before, and until the closing pass
nothing has been copied. -/
theorem looping_of_lightRun {rest : List LoopFrame} {f : LoopFrame} {i : LoopInput} {n : LoopNext}
    (h : LightRun cfg s rest f i n) :
    (f.looping = true → s.stop = true ∨ ∃ g ∈ n.frames, g.looping = true) ∧
    (∀ g ∈ n.frames, g.looping = true → f.looping = true) ∧
    (n.loop.eventsToClose = s.eventsToClose ∨ f.level = 0 ∧ f.looping = false ∧
      ∀ g ∈ n.frames, g.looping = false) := by
  cases h with
  | observed hstop =>
      exact ⟨fun _ => .inl hstop, fun _ _ _ => rfl, .inl rfl⟩
  | goesOn _ | passed =>
      exact ⟨fun _ => .inr ⟨_, List.mem_cons_self, rfl⟩, fun _ _ _ => rfl, .inl rfl⟩
  | copied | returned =>
      exact ⟨fun h => absurd h (by simp [LoopFrame.looping]), by simp [LoopFrame.looping],
        .inr ⟨rfl, rfl, by simp [LoopFrame.looping]⟩⟩
  | dropped _ _ _ =>
      exact ⟨fun h => absurd h (by simp [LoopFrame.looping]), by simp,
        .inl (eventsToClose_closeEvent ..)⟩
  | closeEvent =>
      exact ⟨fun h => absurd h (by simp [LoopFrame.looping]), by simp,
        .inl (eventsToClose_closeEvent ..)⟩
  | _ =>
      exact ⟨fun h => absurd h (by simp [LoopFrame.looping]), by simp [LoopFrame.looping], .inl rfl⟩

theorem Looping.same (h : Looping s) (hstack : s'.stack = s.stack)
    (hstop : s.stop = true → s'.stop = true) (hclose : s'.eventsToClose = s.eventsToClose) :
    Looping s' := by
  refine ⟨?_, ?_⟩
  · rw [hstack]
    exact h.stop.imp_left hstop
  · rw [hstack, hclose]
    exact h.eventsToClose

/-- The innermost frame is replaced; the frames below it stay. -/
theorem Looping.replaced (h : Looping s) {f : LoopFrame} (frames : List LoopFrame)
    {rest : List LoopFrame} (hstack : s.stack = f :: rest) (hstack' : s'.stack = frames ++ rest)
    (hstop : s'.stop = s.stop)
    (hclose : s'.eventsToClose = s.eventsToClose)
    (hstays : f.looping = true → s.stop = true ∨ ∃ g ∈ frames, g.looping = true)
    (hback : ∀ g ∈ frames, g.looping = true → f.looping = true) : Looping s' := by
  refine ⟨?_, fun hloop => ?_⟩
  · rw [hstop, hstack']
    rcases h.stop with hobserved | ⟨g, hg, hlooping⟩
    · exact .inl hobserved
    · rw [hstack] at hg
      rcases List.mem_cons.mp hg with rfl | hg
      · rcases hstays hlooping with hobserved | ⟨k, hk, hlooping'⟩
        · exact .inl hobserved
        · exact .inr ⟨k, List.mem_append_left _ hk, hlooping'⟩
      · exact .inr ⟨g, List.mem_append_right _ hg, hlooping⟩
  · rw [hclose]
    refine h.eventsToClose ?_
    obtain ⟨g, hg, hlooping⟩ := hloop
    rw [hstack] at *
    rw [hstack'] at hg
    rcases List.mem_append.mp hg with hg | hg
    · exact ⟨f, List.mem_cons_self, hback g hg hlooping⟩
    · exact ⟨g, List.mem_cons_of_mem _ hg, hlooping⟩

/-- The only frame, which does not belong to the loop of `Run`, is replaced by such frames. -/
theorem Looping.ended (h : Looping s) {f : LoopFrame} (hstack : s.stack = [f])
    (hf : f.looping = false) (hstop : s'.stop = s.stop)
    (hnone : ∀ g ∈ s'.stack, g.looping = false) : Looping s' := by
  have hno : ∀ {stack : List LoopFrame}, (∀ g ∈ stack, g.looping = false) →
      ¬∃ g ∈ stack, g.looping = true := by
    intro stack hall hloop
    obtain ⟨g, hg, hlooping⟩ := hloop
    rw [hall g hg] at hlooping
    exact absurd hlooping (by simp)
  have hbefore : ∀ g ∈ s.stack, g.looping = false := by
    intro g hg
    rw [hstack] at hg
    rw [List.mem_singleton.mp hg]
    exact hf
  exact ⟨.inl (hstop.trans (h.stop.resolve_right (hno hbefore))),
    fun hloop => absurd hloop (hno hnone)⟩

/-- **One step keeps `Looping`.** The loop of `Run` is left where `stop_` is observed, and
`events_to_close_` is filled behind that. -/
theorem looping_step (hmove : Move cfg s l s' o) (h : Looping s) (hlayered : Layered s.stack) :
    Looping s' := by
  cases hmove with
  | call _ hreq hquiet _ =>
      refine h.same hquiet.stack (stop_of_request hreq) ?_
      cases requested hreq with
      | closeEvent _ | cancel _ _ | destroyed _ _ _ => exact eventsToClose_closeEvent ..
      | _ => rfl
  | @pushed a element _ _ =>
      rcases push_spec s a element with ⟨-, heq⟩ | ⟨-, heq⟩ <;> rw [heq]
      · exact h.same rfl id rfl
      · exact h.same (complete_stack ..) (fun hstop => by rw [complete_stop]; exact hstop)
          (eventsToClose_complete ..)
  | signalled _ =>
      exact h.same (complete_stack ..) (fun hstop => by rw [complete_stop]; exact hstop)
        (eventsToClose_complete ..)
  | @light i f rest n hstack _ hlight hrun _ _ _ _ =>
      have hrun' := lightRun hlight hrun
      obtain ⟨hstays, hback, hclose⟩ := looping_of_lightRun hrun'
      have hstop := stop_of_lightRun hrun'
      rcases hclose with hclose | ⟨hlevel, hno, hnone⟩
      · exact h.replaced n.frames hstack rfl hstop hclose hstays hback
      · -- the closing pass begins or ends: there is no frame below it
        have hrest : rest = [] := (hstack ▸ hlayered : Layered (f :: rest)).eq_nil hlevel
        subst hrest
        refine h.ended hstack hno hstop fun g hg => hnone g ?_
        simpa using hg
  | @wait poll final rest hstack _ =>
      refine h.replaced [_] hstack rfl rfl rfl (fun hf => .inr ?_) (fun g hg hlooping => ?_)
      · refine ⟨_, List.mem_cons_self, ?_⟩
        cases final with
        | true => exact absurd hf (by simp [LoopFrame.looping])
        | false => split <;> rfl
      · obtain rfl := List.mem_singleton.mp hg
        cases final with
        | true => split at hlooping <;> exact absurd hlooping (by simp [LoopFrame.looping])
        | false => rfl
  | @notification n ns final rest hstack _ =>
      have hcalled : ∀ g ∈ s.processNotification n, g.looping = false := by
        intro g hg
        rcases processNotification_spec s n with ⟨-, heq⟩ | ⟨-, heq | ⟨fd, e, events, -, heq⟩⟩ <;>
          rw [heq] at hg
        · rw [List.mem_singleton.mp hg]
          rfl
        · exact absurd hg List.not_mem_nil
        · rcases List.mem_cons.mp hg with rfl | hg
          · rfl
          · rw [List.mem_singleton.mp hg]
            rfl
      refine h.replaced (s.processNotification n ++ [.batch ns final]) hstack (by simp) rfl
        rfl (fun hf => .inr ⟨_, List.mem_append_right _ List.mem_cons_self, ?_⟩)
        (fun g hg hlooping => ?_)
      · cases final with
        | true => exact absurd hf (by simp [LoopFrame.looping])
        | false => rfl
      · rcases List.mem_append.mp hg with hg | hg
        · rw [hcalled g hg] at hlooping
          exact absurd hlooping (by simp)
        · obtain rfl := List.mem_singleton.mp hg
          cases final with
          | true => exact absurd hlooping (by simp [LoopFrame.looping])
          | false => rfl
  | drained hstack _ =>
      exact h.replaced [_, _, _] hstack rfl rfl rfl
        (fun hf => absurd hf (by simp [LoopFrame.looping])) (by simp [LoopFrame.looping])
  | swapped hstack _ _ =>
      exact h.replaced [_, _] hstack rfl rfl rfl
        (fun hf => absurd hf (by simp [LoopFrame.looping])) (by simp [LoopFrame.looping])
  | @finalized i element elements rest n hstack _ hrun _ =>
      obtain ⟨-, hloop, hframes, -⟩ := finalizeElement_spec hrun
      refine h.replaced (n.frames ++ [.finalize elements]) hstack (by simp)
        (by rw [hloop]) (by rw [hloop]) (fun hf => absurd hf (by simp [LoopFrame.looping])) ?_
      rcases hframes with heq | ⟨events, heq⟩
      · simp [heq, LoopFrame.looping]
      · simp [heq, LoopFrame.looping]
  | _ => exact h.same rfl id rfl

/-- **One step keeps `Promised`.** A lock or a flag is taken by the thread that will give it
back, and that thread gives it back in the step that ends its need of it. -/
theorem promised_step (h : Promised s) (hlayered : Layered s.stack) (href : Referenced s)
    (hmove : Move cfg s l s' o) : Promised s' where
  lock a hlock := by
    rcases lock_of_move hmove hlock with hbefore | hnow
    · obtain ⟨element, hp⟩ := h.lock a hbefore
      rcases call_stays hmove hp with hstays | rfl
      · exact ⟨element, hstays⟩
      · cases hmove with
        | signalled _ =>
            rw [complete_epoll] at hlock
            exact absurd hlock (by simp)
        | attachRefused hp' _ | created hp' _ _ | pushed hp' _ | woken hp' | closeBegins hp' _
        | closeReturns hp' _ | erased hp' _ => exact absurd (hp'.symm.trans hp) (by simp)
    · exact hnow
  active e hactive := by
    rcases active_of_move hmove hactive with hbefore | ⟨a, hp⟩
    · obtain ⟨a, p, hp, hremoves⟩ := h.active e hbefore
      rcases removes_stays hmove hp hremoves with ⟨p', hp', hremoves'⟩ | hdone
      · exact ⟨a, p', hp', hremoves'⟩
      · rw [hactive] at hdone
        exact absurd hdone (by simp)
    · exact ⟨a, _, hp, by simp [Progress.removes]⟩
  dead e hatt hdead := dead_of_move hmove h href hatt hdead
  looping := looping_step hmove h.looping hlayered

theorem promised_of_run {ok : LoopLabel → EventLoop → Prop}
    (h : GuardedRun (loopSystem cfg) ok init tr s) (hc : s.crashed = none) : Promised s :=
  invariant_of_run (I := fun _ s => Promised s) promised_init
    (fun hrun hc₁ ih _ hmove =>
      promised_step ih (layered_of_run hrun) (referenced_of_run hrun hc₁) hmove) h hc

/-! ### What can go on -/

/-- The transitions that need nothing from outside: the calls in progress, the thread of the
loop, for as long as `epoll_wait` has an item to look at and does not fail, and the end of
events. -/
def internal (l : LoopLabel) (s : EventLoop) : Bool :=
  match l with
  | .proceed _ | .destroyEvent _ => true
  | .loop (.waitFails _) => false
  | .loop (.wait _) => !s.epoll.readyItems.isEmpty
  | .loop _ => true
  | .call _ _ | .edge _ | .expire _ => false

theorem wakes_of_internal (h : internal l s = true) : wakes l s = true := by
  cases l with
  | loop i => cases i <;> first | exact h | rfl
  | _ => rfl

theorem credit_of_internal (h : internal l s = true) : credit cfg l = 0 := by
  cases l with
  | call a r | edge fd | expire e => exact absurd h (by simp [internal])
  | _ => rfl

theorem pays_internal (cfg : Config) : Pays (loopSystem cfg) internal
    (fun s => ∃ tr, Run (loopSystem cfg) init tr s) (fun _ => 0) (work cfg) where
  keeps hrun hinternal hs := (pays cfg).keeps hrun (wakes_of_internal hinternal) hs
  pays hrun hinternal hs := by
    have hpay := (pays cfg).pays hrun (wakes_of_internal hinternal) hs
    rw [credit_of_internal hinternal] at hpay
    exact hpay

/-- A call in progress goes on, unless it waits for a lock or a `call_once`, or attaches a
handler whose descriptor another event still has. -/
theorem waits_of_proceed {a : Agent} {p : Progress} (h : s.proceed cfg a p = none) :
    (∃ element, p = .pushing element ∧ s.epoll.lock ≠ none) ∨
    (∃ e, p = .closing e ∧ (s.handlers e).closeFlag = .active) ∨
    ∃ e, p = .attaching e ∧ (s.handlers e).attached = false ∧ s.freshHandle cfg e = false := by
  cases p with
  | attaching e =>
      simp only [proceed, createEvent] at h
      split at h
      · exact absurd h (by simp)
      · rename_i hatt
        split at h
        · exact absurd h (by simp)
        · rename_i hfresh
          exact .inr (.inr ⟨e, rfl, eq_false_of_ne_true hatt, eq_false_of_ne_true hfresh⟩)
  | pushing element =>
      simp only [proceed] at h
      split at h
      · exact absurd h (by simp)
      · rename_i hlock
        exact .inl ⟨element, rfl, by simpa using hlock⟩
  | closing e =>
      simp only [proceed] at h
      split at h
      · exact absurd h (by simp)
      · rename_i hflag
        exact .inr (.inl ⟨e, rfl, hflag⟩)
      · exact absurd h (by simp)
  | erasing e =>
      simp only [proceed] at h
      split at h <;> exact absurd h (by simp)
  | signalling element => exact absurd h (by simp [proceed])
  | waking => exact absurd h (by simp [proceed])

/-- The kernel answers every `epoll_ctl` somehow. -/
theorem finalizeElement_isSome (cfg : Config) (s : EventLoop) (element : Element) :
    ∃ i, internal (.loop i) s = true ∧ (s.finalizeElement cfg i element).isSome = true := by
  cases element with
  | add e =>
      cases hvalid : cfg.valid e with
      | true =>
          refine ⟨.ctl 0 (some .ENOMEM), rfl, ?_⟩
          simp [finalizeElement, addFinalize, hvalid, EPoll.ctlAdd]
      | false => exact ⟨.none, rfl, by simp [finalizeElement, addFinalize, hvalid]⟩
  | remove e =>
      cases hvalid : cfg.valid e with
      | false => exact ⟨.none, rfl, by simp [finalizeElement, removeFinalize, hvalid]⟩
      | true =>
          cases htable : s.epoll.events (cfg.handle e) with
          | none => exact ⟨.none, rfl, by simp [finalizeElement, removeFinalize, hvalid, htable]⟩
          | some e' => exact ⟨.ctl 0 (some .ENOMEM), rfl,
              by simp [finalizeElement, removeFinalize, hvalid, htable, EPoll.ctlDel]⟩
  | ready e events attached =>
      refine ⟨.none, rfl, ?_⟩
      simp only [finalizeElement, readyFinalize]
      split <;> rfl

/-- The thread of the loop goes on, unless it waits for a lock or sleeps in `epoll_wait`. -/
theorem frame_goes_on (cfg : Config) (s : EventLoop) (rest : List LoopFrame) (f : LoopFrame)
    (hlock : s.epoll.lock = none) :
    (∃ i, internal (.loop i) s = true ∧ (s.runFrame cfg rest i f).isSome = true) ∨
      ∃ final, f = .process final ∧ s.epoll.readyItems = [] := by
  cases f with
  | process final =>
      cases hitems : s.epoll.readyItems with
      | nil => exact .inr ⟨final, rfl, rfl⟩
      | cons i items => exact .inl ⟨.wait fun _ _ => none, by simp [internal, hitems], rfl⟩
  | closing events =>
      cases events with
      | nil => exact .inl ⟨.none, rfl, rfl⟩
      | cons e events => exact .inl ⟨.close e, rfl, by simp [runFrame]⟩
  | batch notifications final =>
      refine .inl ⟨.none, rfl, ?_⟩
      cases notifications with
      | nil => cases final <;> rfl
      | cons n ns => rfl
  | eventfdRead =>
      refine .inl ⟨.none, rfl, ?_⟩
      simp only [runFrame]
      split <;> rfl
  | handleElements q => exact .inl ⟨.none, rfl, by simp [runFrame, hlock]⟩
  | finalize elements =>
      cases elements with
      | nil => exact .inl ⟨.none, rfl, rfl⟩
      | cons element elements =>
          obtain ⟨i, hi, hsome⟩ := finalizeElement_isSome cfg s element
          exact .inl ⟨i, hi, by simpa [runFrame] using hsome⟩
  | release e => exact .inl ⟨.release false, rfl, rfl⟩
  | timerRead e => exact .inl ⟨.read (.error .EAGAIN), rfl, rfl⟩
  | _ => exact .inl ⟨.none, rfl, rfl⟩

/-! ### At rest -/

/-- The kernel has handed out the descriptors of the handlers that are being attached. -/
def FreshHandles (cfg : Config) (s : EventLoop) : Prop :=
  ∀ a e, s.calls.lookup a = some (.attaching e) →
    (s.handlers e).attached = true ∨ s.freshHandle cfg e = true

theorem proceed_of_atRest (h : AtRest (loopSystem cfg) internal s) (hc : s.crashed = none)
    {a : Agent} {p : Progress} (hp : s.calls.lookup a = some p) : s.proceed cfg a p = none := by
  have hs := h (.proceed a) rfl
  show _ = none
  simpa [loopSystem, step, hc, hp] using hs

/-- Nobody holds `lock_`: the holder could write to the eventfd. -/
theorem unlocked_of_atRest (h : AtRest (loopSystem cfg) internal s) (hc : s.crashed = none)
    (hpromised : Promised s) : s.epoll.lock = none := by
  by_contra hlock
  obtain ⟨b, hlock⟩ := Option.ne_none_iff_exists'.mp hlock
  obtain ⟨element, hp⟩ := hpromised.lock b hlock
  exact absurd (proceed_of_atRest h hc hp) (by simp [proceed])

/-- No call is left, since nobody waits for a thread that waits. -/
theorem calls_of_atRest (h : AtRest (loopSystem cfg) internal s) (hc : s.crashed = none)
    (hpromised : Promised s) (hfresh : FreshHandles cfg s) (a : Agent) :
    s.calls.lookup a = none := by
  have hlock := unlocked_of_atRest h hc hpromised
  by_contra hcall
  obtain ⟨p, hp⟩ := Option.ne_none_iff_exists'.mp hcall
  rcases waits_of_proceed (proceed_of_atRest h hc hp) with
    ⟨element, -, hheld⟩ | ⟨e, -, hactive⟩ | ⟨e, rfl, hatt, hno⟩
  · exact hheld hlock
  · -- the thread that runs `Remove` under the `call_once` can go on
    obtain ⟨b, p', hp', hremoves⟩ := hpromised.active e hactive
    rcases waits_of_proceed (proceed_of_atRest h hc hp') with
      ⟨element, -, hheld⟩ | ⟨e', rfl, -⟩ | ⟨e', rfl, -⟩
    · exact hheld hlock
    · exact absurd hremoves (by simp [Progress.removes])
    · exact absurd hremoves (by simp [Progress.removes])
  · rcases hfresh a e hp with hatt' | hyes
    · rw [hatt] at hatt'
      exact absurd hatt' (by simp)
    · rw [hno] at hyes
      exact absurd hyes (by simp)

/-- Where nothing can go on, the loop has returned or is at `epoll_wait` with nothing to look at.
-/
theorem stack_of_atRest (h : AtRest (loopSystem cfg) internal s) (hc : s.crashed = none)
    (hlayered : Layered s.stack) (hpromised : Promised s)
    (hcalls : ∀ a, s.calls.lookup a = none) :
    s.stack = [] ∨ ∃ final, s.stack = [.process final] ∧ s.epoll.readyItems = [] := by
  have hlock := unlocked_of_atRest h hc hpromised
  cases hstack : s.stack with
  | nil => exact .inl rfl
  | cons f rest =>
      rcases frame_goes_on cfg s rest f hlock with ⟨i, hi, hsome⟩ | ⟨final, rfl, hitems⟩
      · have hs := h (.loop i) hi
        simp only [loopSystem, step, hc, hstack, hcalls, Option.isSome_none, Bool.false_eq_true,
          if_false, Option.map_eq_none_iff] at hs
        rw [hs] at hsome
        exact absurd hsome (by simp)
      · rw [hstack] at hlayered
        exact .inr ⟨final, by rw [hlayered.eq_nil rfl], hitems⟩

/-- Everything has been done. -/
structure Settled (cfg : Config) (tr : List LoopObs) (s : EventLoop) : Prop where
  /-- every call has returned -/
  calls : ∀ a, s.calls.lookup a = none
  /-- the thread of the loop has returned from `Run`, or sleeps -/
  loop : s.stop = true ∧ s.stack = [] ∨ s.stop = false ∧ s.stack = [.process false]
  queues : s.stop = false → ∀ q, s.epoll.eventsPending q = []
  /-- whatever has been queued has been finalized -/
  finalized : s.stop = false → ∀ q, onQueue q (finalized tr) = onQueue q (queuedElements tr)
  table : s.stop = false → ∀ fd e, s.epoll.events fd = some e ↔
    e ∈ s.events ∧ cfg.valid e = true ∧ cfg.handle e = fd
  events : s.stop = false → ∀ e, e ∈ s.events ↔
    (s.handlers e).attached = true ∧ (s.handlers e).closeFlag = .clear
  /-- an event has gone with its handler -/
  objects : s.stop = false → ∀ e, e ∈ s.objects ↔
    (s.handlers e).attached = true ∧ (s.handlers e).alive = true

/-- The loop sleeps only if `stop_` is not set, and then all queues are empty. -/
theorem asleep_of_atRest (h : AtRest (loopSystem cfg) internal s) (hc : s.crashed = none)
    (hlayered : Layered s.stack) (hpromised : Promised s) (hawake : Awake s)
    (hcalls : ∀ a, s.calls.lookup a = none) :
    s.stop = true ∧ s.stack = [] ∨
      s.stop = false ∧ s.stack = [.process false] ∧ ∀ q, s.epoll.eventsPending q = [] := by
  rcases stack_of_atRest h hc hlayered hpromised hcalls with hnil | ⟨final, hstack, hitems⟩
  · refine .inl ⟨hpromised.looping.stop.resolve_right fun hloop => ?_, hnil⟩
    obtain ⟨f, hf, -⟩ := hloop
    rw [hnil] at hf
    exact absurd hf List.not_mem_nil
  · have hedge : ¬s.epoll.Edge := fun hedge => by
      have hmem := hedge.1
      rw [hitems] at hmem
      exact absurd hmem List.not_mem_nil
    have howed : ¬s.WriteOwed := fun howed => by
      obtain ⟨a, p, hp, -⟩ := howed
      exact absurd (hp.symm.trans (hcalls a)) (by simp)
    have hstop : s.stop = false := by
      refine eq_false_of_ne_true fun hstop => ?_
      exact (hawake.stop hstop ⟨final, [], hstack⟩).elim hedge howed
    have hfinal : final = false := by
      rcases hpromised.looping.stop with hyes | ⟨f, hf, hlooping⟩
      · rw [hstop] at hyes
        exact absurd hyes (by simp)
      · rw [hstack] at hf
        obtain rfl := List.mem_singleton.mp hf
        cases final with
        | true => exact absurd hlooping (by simp [LoopFrame.looping])
        | false => rfl
    subst hfinal
    refine .inr ⟨hstop, hstack, fun q => ?_⟩
    by_contra hne
    rcases hawake.covered q hne with h | h | ⟨f, hf, hdrains⟩
    · exact hedge h
    · exact howed h
    · rw [hstack] at hf
      rw [List.mem_singleton.mp hf] at hdrains
      exact hdrains

/-- What nothing refers to any more has been destroyed. -/
theorem alive_of_atRest (h : AtRest (loopSystem cfg) internal s) (hc : s.crashed = none)
    (hpromised : Promised s) (howned : Owned cfg s) (hcalls : ∀ a, s.calls.lookup a = none)
    (hstack : s.stack = [.process false]) (hqueues : ∀ q, s.epoll.eventsPending q = [])
    (htable : ∀ fd e, s.epoll.events fd = some e → e ∈ s.events)
    (hevents : ∀ e, e ∈ s.events → (s.handlers e).closeFlag = .clear) (he : e ∈ s.objects) :
    (s.handlers e).alive = true := by
  by_contra hdead
  have hdead := eq_false_of_ne_true hdead
  -- its handler has closed it
  have hclosed : e ∉ s.events := fun hmem => by
    rcases hpromised.dead e (howned.attached e he) hdead with hflag | ⟨a, hclosing⟩
    · exact hflag (hevents e hmem)
    · exact absurd (hclosing.symm.trans (hcalls a)) (by simp)
  have hcopied : s.eventsToClose = [] :=
    hpromised.looping.eventsToClose ⟨.process false, by simp [hstack], rfl⟩
  have hun : s.unreferenced cfg e = true := by
    refine unreferenced_of hdead hclosed (by simp [hcopied])
      (fun h => hclosed (htable _ _ h)) hqueues
      (fun f hf => ?_) (fun a p hp => absurd (hp.symm.trans (hcalls a)) (by simp))
    rw [hstack] at hf
    rw [List.mem_singleton.mp hf]
    rfl
  have hs := h (.destroyEvent e) rfl
  simp only [loopSystem, step, hc, Option.isSome_none, Bool.false_eq_true, if_false, hun,
    List.contains_iff_mem.mpr he, Bool.and_self, if_true] at hs
  split at hs <;> exact absurd hs (by simp)

/-- Where nothing can go on, everything has been done. -/
theorem settled_of_atRest (hrun : Run (loopSystem cfg) init tr s) (hc : s.crashed = none)
    (h : AtRest (loopSystem cfg) internal s) (hfresh : FreshHandles cfg s) : Settled cfg tr s := by
  have hlayered := layered_of_run hrun
  have hpromised := promised_of_run hrun hc
  have hcalls := calls_of_atRest h hc hpromised hfresh
  have hasleep := asleep_of_atRest h hc hlayered hpromised (awake_of_run hrun hc) hcalls
  have hsleeping : s.stop = false → s.stack = [.process false] ∧ Quiescent s := fun hstop => by
    rcases hasleep with ⟨hyes, -⟩ | ⟨-, hstack, hqueues⟩
    · rw [hstop] at hyes
      exact absurd hyes (by simp)
    · exact ⟨hstack, hqueues, fun a p hp => absurd (hp.symm.trans (hcalls a)) (by simp),
        false, [], hstack⟩
  have htable := fun hstop => epoll_events_iff (life_of_run hrun hc) (owned_of_run hrun hc)
    (registered_of_run hrun hc) hlayered (hsleeping hstop).2
  have hevents := fun hstop => mem_events_iff (life_of_run hrun hc) (hsleeping hstop).2
  refine {
    calls := hcalls
    loop := hasleep.imp_right fun h => ⟨h.1, h.2.1⟩
    queues := fun hstop => (hsleeping hstop).2.queues
    finalized := fun hstop q => ?_
    table := htable
    events := hevents
    objects := fun hstop e => ⟨fun he => ?_, fun he => ?_⟩ }
  · have hfifo : Fifo tr s q := fifo_of_run hrun hc q
    unfold Fifo at hfifo
    rw [(hsleeping hstop).1, (hsleeping hstop).2.queues, List.append_nil] at hfifo
    exact (hfifo.trans (List.append_nil _)).symm
  · have howned := owned_of_run hrun hc
    obtain ⟨hstack, hquiescent⟩ := hsleeping hstop
    exact ⟨howned.attached e he, alive_of_atRest h hc hpromised howned hcalls hstack
      hquiescent.queues (fun fd e h => ((htable hstop fd e).mp h).1)
      (fun e h => ((hevents hstop e).mp h).2) he⟩
  · exact (owned_of_run hrun hc).handlers e he.2 he.1

/-- **Everything gets done.** Left alone, the threads and the loop take a bounded number of
transitions from any state that a run can reach, and can always go on to a state of rest.
Wherever they rest, unless an exception has ended the process, everything has been done. -/
theorem comes_to_rest (cfg : Config) {tr : List LoopObs} {s : EventLoop}
    (h : Run (loopSystem cfg) init tr s) :
    (∀ ls s' tr', exec (loopSystem cfg) internal ls s = some (s', tr') →
      ls.length ≤ s.work cfg ∧
      (AtRest (loopSystem cfg) internal s' → s'.crashed = none → FreshHandles cfg s' →
        Settled cfg (tr ++ tr') s')) ∧
    ∃ ls s' tr', exec (loopSystem cfg) internal ls s = some (s', tr') ∧
      AtRest (loopSystem cfg) internal s' := by
  refine ⟨fun ls s' tr' hexec => ⟨?_, fun hrest hc hfresh => ?_⟩,
    (pays_internal cfg).exists_atRest ⟨tr, h⟩⟩
  · have hle := (pays_internal cfg).length_le ⟨tr, h⟩ hexec
    rw [weight_const, Nat.zero_mul] at hle
    omega
  · have hrun : Run (loopSystem cfg) init (tr ++ tr') s' :=
      h.trans (GuardedRun.of_exec (fun _ _ _ => trivial) hexec)
    exact settled_of_atRest hrun hc hrest hfresh

/-! ### A loop that goes to sleep -/

/-- The loop sleeps, nothing is in progress and no event is left over. -/
def asleep (cfg : Config) (s : EventLoop) : Bool :=
  (match s.stack with
    | [.process false] => true
    | _ => false) &&
  s.calls.entries.isEmpty && s.epoll.readyItems.isEmpty && s.objects.all fun e =>
    !s.unreferenced cfg e

/-- The test is enough for a state of rest. -/
theorem atRest_of_asleep (h : s.asleep cfg = true) : AtRest (loopSystem cfg) internal s := by
  simp only [asleep, Bool.and_eq_true, List.isEmpty_iff] at h
  obtain ⟨⟨⟨hstack, hcalls⟩, hitems⟩, hobjects⟩ := h
  split at hstack
  case h_2 => exact absurd hstack (by simp)
  case h_1 hprocess =>
    have hcalls : s.calls = ∅ := AList.ext hcalls
    intro l hl
    show s.step cfg l = none
    unfold step
    split
    · rfl
    · cases l with
      | proceed a => simp [hcalls]
      | loop i =>
          rw [hprocess, hcalls]
          cases i with
          | wait poll => exact absurd hl (by simp [internal, hitems])
          | waitFails e => exact absurd hl (by simp [internal])
          | _ => rfl
      | destroyEvent e =>
          dsimp only
          rw [if_neg]
          intro hdue
          simp only [Bool.and_eq_true, List.contains_iff_mem] at hdue
          have hkept := List.all_eq_true.mp hobjects e hdue.1
          rw [hdue.2] at hkept
          exact absurd hkept (by simp)
      | call a r | edge fd | expire e => exact absurd hl (by simp [internal])

/-- What is left to do after an `Attach`: the loop registers the event and goes back to sleep. -/
def registers : List LoopLabel :=
  [.loop (.wait fun _ _ => none), .loop .none, .loop .none, .loop .none, .loop .none,
    .loop (.ctl Events.Read none)] ++ List.replicate 10 (.loop .none)

/-- After an `Attach` the loop registers the event and is at rest, within the bound. -/
theorem comes_to_rest_registers : ∃ s tr,
    exec (loopSystem userHandlers) internal registers (after userHandlers attachFirst).1 =
      some (s, tr) ∧
    registers.length ≤ (after userHandlers attachFirst).1.work userHandlers ∧
    Settled userHandlers ((after userHandlers attachFirst).2 ++ tr) s := by
  have hsome : ((exec (loopSystem userHandlers) internal registers
      (after userHandlers attachFirst).1).any fun r => r.1.asleep userHandlers &&
        r.1.crashed.isNone && r.1.calls.entries.isEmpty) = true := by decide +kernel
  obtain ⟨r, hr, htest⟩ := Option.any_eq_true .. |>.mp hsome
  obtain ⟨s, tr⟩ := r
  simp only [Bool.and_eq_true, Option.isNone_iff_eq_none, List.isEmpty_iff] at htest
  obtain ⟨⟨hasleep, hc⟩, hentries⟩ := htest
  have hcalls : s.calls = ∅ := AList.ext hentries
  obtain ⟨hlength, hsettled⟩ := (comes_to_rest userHandlers (run_after attachFirst (by decide))).1
    registers s tr hr
  exact ⟨s, tr, hr, hlength, hsettled (atRest_of_asleep hasleep) hc fun a e ha =>
    absurd ha (by simp [hcalls])⟩

end EventLoop

end Libael
