import Libael.EventLoop.Moves

/-!
# Libael.EventLoop.Changes

What a transition can change, one part of the state at a time: the calls in progress, the
pending queues, what is known of the handlers.

* A call changes only by its own thread, and `NewCall` lists what that thread can newly be
  about to do (`call_of_move`); what it was about to do before stays until it goes on
  (`call_stays`).
* An element reaches a queue from the call that pushes it (`pending_of_move`).
* `Shown` tells the observations with an effect apart by where they come from: the frame of
  the loop that calls a handler or a function, the call that modifies an interest, the
  destructor of a handler or of an event.

Each is a case analysis of `Move`, done here once. The invariants of the other modules ask only
for the part of the state they are about.
-/

namespace Libael

namespace EventLoop

variable {cfg : Config} {l : LoopLabel} {s s' : EventLoop} {o : List LoopObs}

/-! ### Calls -/

/-- What the call of a thread can newly be about to do. -/
inductive NewCall (s : EventLoop) (a : Agent) : Progress → Prop
  | starts {p} : s.calls.lookup a = none → Starts s p → NewCall s a p
  | created {e} : s.calls.lookup a = some (.attaching e) → NewCall s a (.pushing (.add e))
  | signalling {element} : s.calls.lookup a = some (.pushing element) →
      NewCall s a (.signalling element)
  | erasing {e} : s.calls.lookup a = some (.closing e) → NewCall s a (.erasing e)
  | removing {e} : s.calls.lookup a = some (.erasing e) → NewCall s a (.pushing (.remove e))

/-- A quiet transition begins at most the call of its own thread. -/
theorem call_of_quiet {a b : Agent} {p : Progress} (hquiet : Quiet s a s')
    (hidle : s.calls.lookup a = none) (h : s'.calls.lookup b = some p) :
    s.calls.lookup b = some p ∨ NewCall s b p := by
  rcases hquiet.calls with heq | ⟨p', hp', heq⟩
  · rw [heq] at h
    exact .inl h
  · by_cases hb : b = a
    · rw [heq, hb, AList.lookup_insert] at h
      obtain rfl := Option.some.inj h
      rw [hb]
      exact .inr (.starts hidle hp')
    · rw [heq, AList.lookup_insert_ne hb] at h
      exact .inl h

/-- Every call goes on where it was, or has just got there: a thread is only moved by its own
transition. -/
theorem call_of_move (hmove : Move cfg s l s' o) {b : Agent} {p : Progress}
    (h : s'.calls.lookup b = some p) : s.calls.lookup b = some p ∨ NewCall s b p := by
  cases hmove with
  | call hmay _ hquiet _ => exact call_of_quiet hquiet (idle_of_mayCall hmay) h
  | light _ hidle _ _ hquiet _ _ _ => exact call_of_quiet hquiet hidle h
  | attachRefused _ _ | woken _ | closeReturns _ _ =>
      rw [lookup_endCall] at h
      split at h
      · exact absurd h (by simp)
      · exact .inl h
  | created hp _ _ =>
      rw [lookup_setCall] at h
      split at h
      · rename_i hb
        obtain rfl := Option.some.inj h
        exact .inr (.created (hb ▸ hp))
      · exact .inl h
  | closeBegins hp _ =>
      rw [lookup_setCall] at h
      split at h
      · rename_i hb
        obtain rfl := Option.some.inj h
        exact .inr (.erasing (hb ▸ hp))
      · exact .inl h
  | erased hp _ =>
      rw [lookup_setCall] at h
      split at h
      · rename_i hb
        obtain rfl := Option.some.inj h
        exact .inr (.removing (hb ▸ hp))
      · exact .inl h
  | @pushed a element hp _ =>
      by_cases hb : b = a
      · rw [hb] at h ⊢
        rcases (lookup_push s a a element).2 with h' | h'
        · rw [h'] at h
          exact absurd h (by simp)
        · rw [h'] at h
          obtain rfl := Option.some.inj h
          exact .inr (.signalling hp)
      · rw [(lookup_push s a b element).1 hb] at h
        exact .inl h
  | signalled _ =>
      rw [lookup_complete] at h
      split at h
      · exact absurd h (by simp)
      · exact .inl h
  | finalized _ _ hrun _ =>
      dsimp only at h
      rw [(finalizeElement_spec hrun).2.1] at h
      exact .inl h
  | _ => exact .inl h

/-- A call goes on only by its own thread. -/
theorem call_stays (hmove : Move cfg s l s' o) {a : Agent} {p : Progress}
    (h : s.calls.lookup a = some p) : s'.calls.lookup a = some p ∨ l = .proceed a := by
  have hother : ∀ {b : Agent}, s.calls.lookup b = none → a ≠ b := by
    intro b hb heq
    rw [heq, hb] at h
    exact absurd h (by simp)
  cases hmove with
  | call hmay _ hquiet _ =>
      exact .inl (by rw [hquiet.lookup_of_ne (hother (idle_of_mayCall hmay))]; exact h)
  | light _ hidle _ _ hquiet _ _ _ =>
      refine .inl ?_
      dsimp only
      rw [hquiet.lookup_of_ne (hother hidle)]
      exact h
  | @attachRefused b _ _ _ | @woken b _ | @closeReturns b _ _ _ =>
      by_cases hb : a = b
      · exact .inr (by rw [hb])
      · exact .inl (by rw [lookup_endCall, if_neg hb]; exact h)
  | @created b _ _ _ _ | @closeBegins b _ _ _ | @erased b _ _ _ =>
      by_cases hb : a = b
      · exact .inr (by rw [hb])
      · exact .inl (by rw [lookup_setCall, if_neg hb]; exact h)
  | @pushed b element _ _ =>
      by_cases hb : a = b
      · exact .inr (by rw [hb])
      · exact .inl (by rw [(lookup_push s b a element).1 hb]; exact h)
  | @signalled b _ _ =>
      by_cases hb : a = b
      · exact .inr (by rw [hb])
      · exact .inl (by rw [lookup_complete, if_neg hb]; exact h)
  | finalized _ _ hrun _ =>
      refine .inl ?_
      dsimp only
      rw [(finalizeElement_spec hrun).2.1]
      exact h
  | _ => exact .inl h

/-! ### Frames -/

/-- Only the innermost frame is run. -/
theorem frame_stays (hmove : Move cfg s l s' o) {f : LoopFrame} (hf : f ∈ s.stack) :
    f ∈ s'.stack ∨ ∃ i rest, l = .loop i ∧ s.stack = f :: rest ∧ s.calls.lookup .loop = none := by
  have hrest : ∀ (i : LoopInput) (frames : List LoopFrame) {g : LoopFrame} {rest : List LoopFrame},
      s.stack = g :: rest → s.calls.lookup .loop = none →
      f ∈ frames ++ rest ∨ ∃ i' rest', LoopLabel.loop i = .loop i' ∧ s.stack = f :: rest' ∧
        s.calls.lookup .loop = none := by
    intro i frames g rest hstack hidle
    rw [hstack] at hf
    rcases List.mem_cons.mp hf with rfl | hf
    · exact .inr ⟨i, rest, rfl, hstack, hidle⟩
    · exact .inl (List.mem_append_right _ hf)
  cases hmove with
  | call _ _ hquiet _ => exact .inl (hquiet.stack ▸ hf)
  | pushed _ _ => exact .inl (by rw [push_stack]; exact hf)
  | signalled _ => exact .inl (by rw [complete_stack]; exact hf)
  | light hstack hidle _ _ _ _ _ _ => exact hrest _ _ hstack hidle
  | wait hstack hidle => exact hrest _ [_] hstack hidle
  | @notification n ns final rest hstack hidle =>
      rcases hrest .none (s.processNotification n ++ [.batch ns final]) hstack hidle
        with h | h
      · exact .inl (by simpa using h)
      · exact .inr h
  | drained hstack hidle => exact hrest _ [_, _, _] hstack hidle
  | swapped hstack hidle _ => exact hrest _ [_, _] hstack hidle
  | @finalized i _ elements rest n hstack hidle _ _ =>
      rcases hrest i (n.frames ++ [.finalize elements]) hstack hidle with h | h
      · exact .inl (by simpa using h)
      · exact .inr h
  | _ => exact .inl hf

/-! ### Queues -/

/-- Every element in a queue was there, or has been pushed by a thread that was about to. -/
theorem pending_of_move (hmove : Move cfg s l s' o) {q : Queue} {element : Element}
    (h : element ∈ s'.epoll.eventsPending q) :
    element ∈ s.epoll.eventsPending q ∨ ∃ a, s.calls.lookup a = some (.pushing element) := by
  cases hmove with
  | call _ _ hquiet _ => rw [hquiet.epoll] at h; exact .inl h
  | @pushed a element' hp _ =>
      rw [push_eventsPending] at h
      by_cases hq : q = element'.queue
      · rw [hq, Function.update_self] at h
        rcases List.mem_append.mp h with h | h
        · rw [hq]
          exact .inl h
        · rw [List.mem_singleton.mp h]
          exact .inr ⟨a, hp⟩
      · rw [Function.update_of_ne hq] at h
        exact .inl h
  | signalled _ =>
      rw [complete_epoll] at h
      exact .inl (by rw [← EPoll.wakeup_eventsPending s.epoll]; exact h)
  | woken _ => exact .inl (by rw [← EPoll.wakeup_eventsPending s.epoll]; exact h)
  | light _ _ _ _ hquiet _ _ _ =>
      dsimp only at h
      rw [hquiet.epoll] at h
      exact .inl h
  | @swapped q' rest _ _ _ =>
      by_cases hq : q = q'
      · simp [EPoll.swapElements, hq] at h
      · simp only [EPoll.swapElements, Function.update_of_ne hq] at h
        exact .inl h
  | finalized _ _ hrun _ =>
      dsimp only at h
      rw [(finalizeElement_spec hrun).1.eventsPending] at h
      exact .inl h
  | edge _ => exact .inl (by rw [← EPoll.queueItem_eventsPending]; exact h)
  | destroyed _ _ hepoll => rcases hepoll with ⟨-, rfl, -⟩ | ⟨-, rfl, -⟩ <;> exact .inl h
  | _ => exact .inl h

/-! ### Events -/

/-- An event that is in the table was there, or its handler has just been attached. -/
theorem events_of_move (hmove : Move cfg s l s' o) {e : EventId} (h : e ∈ s'.events) :
    e ∈ s.events ∨ (s.handlers e).attached = false := by
  cases hmove with
  | call _ _ hquiet _ => rw [hquiet.events] at h; exact .inl h
  | created _ hatt _ =>
      rcases List.mem_cons.mp h with rfl | h
      · exact .inr hatt
      · exact .inl h
  | pushed _ _ => rw [push_events] at h; exact .inl h
  | signalled _ => rw [complete_events] at h; exact .inl h
  | erased _ _ => exact .inl (List.mem_of_mem_erase h)
  | light _ _ _ _ hquiet _ _ _ =>
      dsimp only at h
      rw [hquiet.events] at h
      exact .inl h
  | finalized _ _ hrun _ =>
      dsimp only at h
      rw [(finalizeElement_spec hrun).2.1] at h
      exact .inl h
  | _ => exact .inl h

/-! ### Handlers -/

/-- A destroyed handler stays destroyed. -/
theorem alive_of_move (hmove : Move cfg s l s' o) {e : EventId}
    (h : (s'.handlers e).alive = true) : (s.handlers e).alive = true := by
  have hset : ∀ e' (handler : EventHandler), s'.handlers = Function.update s.handlers e' handler →
      handler.alive = (s.handlers e').alive → (s.handlers e).alive = true := by
    intro e' handler heq hsame
    rw [heq, Function.update_apply] at h
    split at h
    · rename_i he
      rw [he, ← hsame]
      exact h
    · exact h
  cases hmove with
  | call _ _ hquiet _ => exact hquiet.alive e h
  | light _ _ _ _ hquiet _ _ _ => exact hquiet.alive e h
  | created _ _ _ => exact hset _ _ rfl rfl
  | closeBegins _ _ => exact hset _ _ rfl rfl
  | expire => exact hset _ _ rfl rfl
  | @pushed a element _ _ =>
      rcases push_spec s a element with ⟨-, heq⟩ | ⟨-, heq⟩
      · rw [heq] at h
        exact h
      · rw [heq, handlers_complete] at h
        split at h <;> exact h
  | @signalled a element _ =>
      rw [handlers_complete] at h
      split at h <;> exact h
  | finalized _ _ hrun _ =>
      dsimp only at h
      rw [(finalizeElement_spec hrun).2.1] at h
      exact h
  | _ => exact h

/-! ### Observations -/

/-- What is shown where code of a handler is called, or the kernel is asked to modify a
registration or close a descriptor. -/
def effect : LoopObs → Bool
  | .handleEvents _ _ | .func _ | .ctlMod _ _ _ | .closeHandle _ => true
  | _ => false

/-- Where an effect comes from. -/
inductive Shown (cfg : Config) (s : EventLoop) : LoopLabel → LoopObs → Prop
  | handleEvents {i e events rest} : s.stack = .handleEvents e events :: rest →
      s.calls.lookup .loop = none → Shown cfg s (.loop i) (.handleEvents e events)
  | execute {i e events rest} : s.stack = .handleEvents e events :: rest →
      s.calls.lookup .loop = none → cfg.handler e = .executeHandler →
      (s.handlers e).instanceAlive = true → Shown cfg s (.loop i) (.func e)
  | timer {i e k rest} : s.stack = .timerRun e (k + 1) :: rest → s.calls.lookup .loop = none →
      Shown cfg s (.loop i) (.func e)
  | ctlMod {e asked ret caught interest} : s.mayCall .loop = true →
      (s.handlers e).alive = true → (s.handlers e).attached = true →
      (ret = none → s.epoll.interest (cfg.handle e) ≠ none) →
      Shown cfg s (.call .loop (.modifyEvent e asked ret caught)) (.ctlMod e interest ret)
  | handler {a e} : (s.handlers e).alive = true → (s.handlers e).attached = false →
      cfg.valid e = true → Shown cfg s (.call a (.destroyHandler e)) (.closeHandle e)
  | event {e} : e ∈ s.objects → s.unreferenced cfg e = true → cfg.valid e = true →
      Shown cfg s (.destroyEvent e) (.closeHandle e)

/-- The effects of a call. -/
theorem shown_of_request {a : Agent} {r : Request} (hmay : s.mayCall a = true)
    (h : s.request cfg a r = some (s', o)) {x : LoopObs} (hx : x ∈ o) (heffect : effect x = true) :
    Shown cfg s (.call a r) x := by
  cases requested h with
  | modifyOutside _ _ _ =>
      rw [List.mem_singleton.mp hx] at heffect
      exact absurd heffect (by simp [effect])
  | modify halive hatt ha hin =>
      subst ha
      rw [List.mem_singleton.mp hx]
      exact .ctlMod hmay halive hatt fun _ => hin
  | modifyThrows halive hatt ha | modifyFails halive hatt ha =>
      subst ha
      rcases List.mem_cons.mp hx with rfl | hx
      · exact .ctlMod hmay halive hatt fun hnone => absurd hnone (by simp)
      · rw [List.mem_singleton.mp hx] at heffect
        exact absurd heffect (by simp [effect])
  | destroyed halive _ _ =>
      split at hx
      · rename_i hown
        rw [Bool.and_eq_true, Bool.not_eq_true'] at hown
        rw [List.mem_singleton.mp hx]
        exact .handler halive hown.1 hown.2
      · exact absurd hx List.not_mem_nil
  | _ => exact absurd hx List.not_mem_nil

/-- A call that goes on has no effects. -/
theorem effect_of_proceed {a : Agent} {p : Progress} (h : s.proceed cfg a p = some (s', o))
    {x : LoopObs} (hx : x ∈ o) : effect x = false := by
  cases proceeded h with
  | attachRefused _ | created _ _ | pushed _ | erased _ =>
      rw [List.mem_singleton.mp hx]
      rfl
  | signalled | woken | closeBegins _ | closeReturns _ | notFound _ =>
      exact absurd hx List.not_mem_nil

/-- The finalize functions have no effects of their own. -/
theorem effect_of_finalizeElement {i : LoopInput} {element : Element} {n : LoopNext}
    (h : s.finalizeElement cfg i element = some n) {x : LoopObs} (hx : x ∈ n.obs) :
    effect x = false := by
  cases finalizeRun h with
  | added _ | removed _ | notFound _ _ | ready _ =>
      rw [List.mem_singleton.mp hx]
      rfl
  | ctlAdd _ _ | ctlDel _ _ _ | ignored _ =>
      rcases List.mem_cons.mp hx with rfl | hx
      · rfl
      · rw [List.mem_singleton.mp hx]
        rfl

/-- The effects of the loop thread. -/
theorem shown_of_runFrame {f : LoopFrame} {rest : List LoopFrame} {i : LoopInput} {n : LoopNext}
    (hstack : s.stack = f :: rest) (hidle : s.calls.lookup .loop = none)
    (h : s.runFrame cfg rest i f = some n) {x : LoopObs} (hx : x ∈ n.obs)
    (heffect : effect x = true) : Shown cfg s (.loop i) x := by
  cases frameRun h with
  | light _ hrun =>
      cases hrun with
      | user _ | executeDead _ _ | timer _ _ _ | timerIgnored _ =>
          rw [List.mem_singleton.mp hx]
          exact .handleEvents hstack hidle
      | execute hclass hinstance =>
          rcases List.mem_cons.mp hx with rfl | hx
          · exact .handleEvents hstack hidle
          · rw [List.mem_singleton.mp hx]
            exact .execute hstack hidle hclass hinstance
      | occurrence =>
          rw [List.mem_singleton.mp hx]
          exact .timer hstack hidle
      | _ => exact absurd hx List.not_mem_nil
  | finalize hn' =>
      rw [effect_of_finalizeElement hn' hx] at heffect
      exact absurd heffect (by simp)
  | _ => exact absurd hx List.not_mem_nil

/-- **Inversion of an effect**: which call, or which frame of the loop, has shown it. -/
theorem shown_of_step (h : step cfg l s = some (s', o)) {x : LoopObs} (hx : x ∈ o)
    (heffect : effect x = true) : Shown cfg s l x := by
  unfold step at h
  split at h
  · exact absurd h (by simp)
  · cases l with
    | call a r =>
        dsimp only at h
        split at h
        · rename_i hmay
          exact shown_of_request hmay h hx heffect
        · exact absurd h (by simp)
    | proceed a =>
        dsimp only at h
        split at h
        · rw [effect_of_proceed h hx] at heffect
          exact absurd heffect (by simp)
        · exact absurd h (by simp)
    | loop i =>
        dsimp only at h
        split at h
        · rename_i f rest hstack hidle
          obtain ⟨n, hn, heq⟩ := Option.map_eq_some_iff.mp h
          obtain ⟨-, rfl⟩ := Prod.mk.inj heq
          exact shown_of_runFrame hstack hidle hn hx heffect
        · exact absurd h (by simp)
    | edge fd =>
        obtain ⟨e, -, heq⟩ := Option.map_eq_some_iff.mp h
        obtain ⟨-, rfl⟩ := Prod.mk.inj heq
        exact absurd hx List.not_mem_nil
    | expire e =>
        obtain ⟨-, rfl⟩ := Prod.mk.inj (Option.some.inj h)
        exact absurd hx List.not_mem_nil
    | destroyEvent e =>
        dsimp only at h
        split at h
        · rename_i hcond
          rw [Bool.and_eq_true, List.contains_iff_mem] at hcond
          split at h
          · rename_i hvalid
            obtain ⟨-, rfl⟩ := Prod.mk.inj (Option.some.inj h)
            rw [List.mem_singleton.mp hx]
            exact .event hcond.1 hcond.2 hvalid
          · obtain ⟨-, rfl⟩ := Prod.mk.inj (Option.some.inj h)
            exact absurd hx List.not_mem_nil
        · exact absurd h (by simp)

end EventLoop

end Libael
