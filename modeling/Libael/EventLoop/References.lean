import Libael.EventLoop.Internal

/-!
# Libael.EventLoop.References

**Nothing is used after its destructor has run.** The reference counts of the source keep two
kinds of objects alive. A handler lives for as long as its `HandleEvents` is on the stack, and
for as long as one of its methods is under way on some thread, whatever the callbacks of the
user let go of in between. An `Event` lives for as long as anything refers to it.

* `Referenced` is the invariant for handlers. Who is called holds a reference, which the frame
  `release` at the bottom of the call stands for.
* For events the invariant is `Owned`: `unreferenced` is the test of their reference count, and
  whatever refers to an event keeps it from being destroyed.
-/

namespace Libael

/-- What is left to run is code of the handler of `e`, or will let the handler go. -/
def LoopFrame.needs (e : EventId) : LoopFrame → Bool
  | .handleEvents e' _ | .release e' | .callback e' | .removeInternal e' | .timerRead e'
  | .timerRun e' _ => e' == e
  | _ => false

/-- The handler that a request is made on. -/
def Request.handler : Request → Option EventId
  | .attach e | .attachInternal e | .closeEvent e | .cancel e | .readyEvent e _
  | .modifyEvent e _ _ _ | .destroyHandler e => some e
  | .stop => none

namespace EventLoop

open Lts

variable {cfg : Config} {l : LoopLabel} {s s' : EventLoop} {o : List LoopObs} {e : EventId}

/-! ### The end of a handler -/

theorem unused_spec {stack : List LoopFrame} (h : s.unused stack e = true) :
    .release e ∉ stack ∧ ∀ a p, s.calls.lookup a = some p → p.usesHandler e = false := by
  unfold unused at h
  rw [Bool.and_eq_true] at h
  refine ⟨fun hmem => ?_, fun a p hp => ?_⟩
  · have hne := List.all_eq_true.mp h.1 _ hmem
    simp at hne
  · simpa using List.all_eq_true.mp h.2 ⟨a, p⟩ (AList.mem_lookup_iff.mp hp)

/-- Nothing refers to the event, place by place. -/
theorem unreferenced_of (halive : (s.handlers e).alive = false) (hevents : e ∉ s.events)
    (hclose : e ∉ s.eventsToClose) (htable : s.epoll.events (cfg.handle e) ≠ some e)
    (hpending : ∀ q, s.epoll.eventsPending q = [])
    (hframes : ∀ f ∈ s.stack, f.mentions e = false)
    (hcalls : ∀ a p, s.calls.lookup a = some p → p.mentions e = false) :
    s.unreferenced cfg e = true := by
  unfold unreferenced
  rw [Bool.and_eq_true, Bool.and_eq_true, Bool.and_eq_true, Bool.and_eq_true, Bool.and_eq_true,
    Bool.and_eq_true]
  refine ⟨⟨⟨⟨⟨⟨by simpa using halive, by simpa using hevents⟩, by simpa using hclose⟩,
    by simpa using htable⟩, ?_⟩, List.all_eq_true.mpr fun f hf => ?_⟩,
    List.all_eq_true.mpr fun x hx => ?_⟩
  · simp [hpending]
  · simp [hframes f hf]
  · simp [hcalls x.1 x.2 (AList.mem_lookup_iff.mpr hx)]

/-- The two ways in which a handler is destroyed: a thread drops the last reference to it, or
the caller of its `HandleEvents` does. -/
inductive Dies (cfg : Config) (s : EventLoop) (e : EventId) :
    LoopLabel → EventLoop → List LoopObs → Prop
  | dropped {a} : e ∉ s.internalEventHandlers → s.unused s.stack e = true →
      Dies cfg s e (.call a (.destroyHandler e)) (s.destroyHandler a e)
        (if !(s.handlers e).attached && cfg.valid e then [.closeHandle e] else [])
  | released {rest} : s.stack = .release e :: rest → e ∉ s.internalEventHandlers →
      s.unused rest e = true →
      Dies cfg s e (.loop (.release true)) { s.destroyHandler .loop e with stack := rest } []

theorem alive_setHandler {e' : EventId} {h : EventHandler} (hsame : h.alive = (s.handlers e').alive)
    (halive : (s.handlers e).alive = true) : ((s.setHandler e' h).handlers e).alive = true := by
  rw [handlers_setHandler]
  split
  · rename_i he
    rw [hsame, ← he]
    exact halive
  · exact halive

theorem alive_destroyHandler {a : Agent} {e' : EventId} (hne : e ≠ e')
    (halive : (s.handlers e).alive = true) : ((s.destroyHandler a e').handlers e).alive = true := by
  rw [destroyHandler, handlers_closeEvent, handlers_setHandler, if_neg hne]
  exact halive

/-- A step destroys a handler in one of the two ways, or not at all. -/
theorem alive_or_dies (hmove : Move cfg s l s' o) (halive : (s.handlers e).alive = true) :
    (s'.handlers e).alive = true ∨ Dies cfg s e l s' o := by
  cases hmove with
  | call _ hreq _ _ =>
      cases requested hreq with
      | closeEvent _ => exact .inl (by rw [handlers_closeEvent]; exact halive)
      | cancel _ _ => exact .inl (by rw [handlers_closeEvent]; exact alive_setHandler rfl halive)
      | @destroyed e' _ hno hunused =>
          by_cases he : e = e'
          · subst he
            exact .inr (.dropped hno hunused)
          · exact .inl (alive_destroyHandler he halive)
      | _ => exact .inl halive
  | light hstack _ hlight hrun _ _ _ _ =>
      cases lightRun hlight hrun with
      | closeEvent => exact .inl (by rw [handlers_closeEvent]; exact halive)
      | @dropped e' _ hno hunused =>
          by_cases he : e = e'
          · subst he
            exact .inr (.released hstack hno hunused)
          · exact .inl (alive_destroyHandler he halive)
      | oneShot _ => exact .inl (alive_setHandler rfl halive)
      | _ => exact .inl halive
  | created _ _ _ | closeBegins _ _ | expire => exact .inl (alive_setHandler rfl halive)
  | @pushed a element _ _ =>
      rcases push_spec s a element with ⟨-, heq⟩ | ⟨-, heq⟩ <;> rw [heq]
      · exact .inl halive
      · rw [handlers_complete]
        split <;> exact .inl halive
  | signalled _ =>
      rw [handlers_complete]
      split <;> exact .inl halive
  | finalized _ _ hrun _ =>
      obtain ⟨-, hloop, -, -⟩ := finalizeElement_spec hrun
      dsimp only
      rw [hloop]
      exact .inl halive
  | _ => exact .inl halive

/-! ### References to handlers -/

/-- Whoever still needs a handler finds it alive: the callers of `HandleEvents`, and the
threads that are in one of its methods. -/
structure Referenced (s : EventLoop) : Prop where
  frames : ∀ e, .release e ∈ s.stack → (s.handlers e).alive = true
  calls : ∀ a p, s.calls.lookup a = some p → ∀ e, p.usesHandler e = true →
    (s.handlers e).alive = true

theorem referenced_init : Referenced init where
  frames e h := absurd h (by simp [init])
  calls a p h := absurd h (by simp [init])

/-- `HandleEvents` is called on a handler that could be locked. -/
theorem release_of_move (hmove : Move cfg s l s' o) (h : .release e ∈ s'.stack) :
    .release e ∈ s.stack ∨ (s.handlers e).alive = true := by
  cases hmove with
  | call _ _ hquiet _ => exact .inl (hquiet.stack ▸ h)
  | pushed _ _ => exact .inl (by rw [push_stack] at h; exact h)
  | signalled _ => exact .inl (by rw [complete_stack] at h; exact h)
  | @light i f rest n hstack _ hlight hrun _ _ _ _ =>
      dsimp only at h
      rcases List.mem_append.mp h with h | h
      · cases lightRun hlight hrun <;> simp at h
      · exact .inl (by rw [hstack]; exact List.mem_cons_of_mem _ h)
  | @wait poll final rest hstack _ =>
      rcases List.mem_cons.mp h with h | h
      · split at h <;> exact absurd h (by simp)
      · exact .inl (by rw [hstack]; exact List.mem_cons_of_mem _ h)
  | @notification n ns final rest hstack _ =>
      rcases List.mem_append.mp h with h | h
      · refine .inr ?_
        unfold processNotification at h
        split at h
        · exact absurd h (by simp)
        · split at h
          · exact absurd h (by simp)
          · split at h
            · rename_i e' _ halive
              obtain rfl : e = e' := by simpa using h
              exact halive
            · exact absurd h (by simp)
      · rcases List.mem_cons.mp h with h | h
        · exact absurd h (by simp)
        · exact .inl (by rw [hstack]; exact List.mem_cons_of_mem _ h)
  | drain _ _ => exact .inl h
  | @drained rest hstack _ | @swapped q rest hstack _ _ =>
      simp only [List.mem_cons, reduceCtorEq, false_or] at h
      exact .inl (by rw [hstack]; exact List.mem_cons_of_mem _ h)
  | @finalized i element elements rest n hstack _ hrun hthrew =>
      dsimp only at h
      rcases List.mem_append.mp h with h | h
      · refine .inr ?_
        cases finalizes hrun hthrew with
        | @addNoHandle e' _ | @ready e' _ _ _ =>
            dsimp only at h
            split at h
            · rename_i halive
              obtain rfl : e = e' := by simpa using h
              exact halive
            · exact absurd h (by simp)
        | _ => exact absurd h (by simp)
      · rcases List.mem_cons.mp h with h | h
        · exact absurd h (by simp)
        · exact .inl (by rw [hstack]; exact List.mem_cons_of_mem _ h)
  | _ => exact .inl h

theorem lookup_of_setCall {t : EventLoop} {a b : Agent} {p q : Progress}
    (hcalls : t.calls = s.calls)
    (h : (t.setCall b q).calls.lookup a = some p) : s.calls.lookup a = some p ∨ q = p := by
  rw [lookup_setCall, hcalls] at h
  split at h
  · exact .inr (Option.some.inj h)
  · exact .inl h

/-- `Event::Close` needs no handler: the last reference to it may be gone. -/
theorem lookup_of_closeEvent {t : EventLoop} {a b : Agent} {e' : EventId} {p : Progress}
    (hcalls : t.calls = s.calls) (h : (t.closeEvent b e').calls.lookup a = some p)
    (huse : p.usesHandler e = true) : s.calls.lookup a = some p := by
  unfold closeEvent at h
  split at h
  · rcases lookup_of_setCall hcalls h with h | rfl
    · exact h
    · exact absurd huse (by simp [Progress.usesHandler])
  · exact hcalls ▸ h

/-- A method of a handler is called on one that is alive. -/
theorem uses_of_request {a b : Agent} {r : Request} (h : s.request cfg a r = some (s', o))
    {p : Progress} (hp : s'.calls.lookup b = some p) (huse : p.usesHandler e = true) :
    s.calls.lookup b = some p ∨ r.handler = some e ∧ (s.handlers e).alive = true := by
  cases requested h with
  | attach halive _ | ready halive _ =>
      rcases lookup_of_setCall (by rfl) hp with hp | rfl
      · exact .inl hp
      · obtain rfl : _ = e := by
          simpa [Progress.usesHandler, Element.queue, Element.event] using huse
        exact .inr ⟨rfl, halive⟩
  | attachInternal halive _ _ _ =>
      rcases lookup_of_setCall (by rfl) hp with hp | rfl
      · exact .inl hp
      · obtain rfl : _ = e := by simpa [Progress.usesHandler] using huse
        exact .inr ⟨rfl, halive⟩
  | stop _ =>
      rcases lookup_of_setCall (by rfl) hp with hp | rfl
      · exact .inl hp
      · exact absurd huse (by simp [Progress.usesHandler])
  | closeEvent _ | destroyed _ _ _ | cancel _ _ =>
      exact .inl (lookup_of_closeEvent (by rfl) hp huse)
  | _ => exact .inl hp

/-- The thread of the loop itself only ever calls `Close` and `Wakeup`. -/
theorem uses_of_light {i : LoopInput} {f : LoopFrame} {rest : List LoopFrame} {n : LoopNext}
    (hlight : f.light = true) (h : s.runFrame cfg rest i f = some n) {a : Agent} {p : Progress}
    (hp : n.loop.calls.lookup a = some p) (huse : p.usesHandler e = true) :
    s.calls.lookup a = some p := by
  cases lightRun hlight h with
  | wakes =>
      rw [lookup_setCall] at hp
      split at hp
      · obtain rfl := Option.some.inj hp
        exact absurd huse (by simp [Progress.usesHandler])
      · exact hp
  | closeEvent | dropped _ _ _ => exact lookup_of_closeEvent (by rfl) hp huse
  | _ => exact hp

/-- A thread that is in a method of a handler was in one before, or has just called it. -/
theorem uses_of_move (hmove : Move cfg s l s' o) {a : Agent} {p : Progress}
    (hp : s'.calls.lookup a = some p) (huse : p.usesHandler e = true) :
    (∃ p₀, s.calls.lookup a = some p₀ ∧ p₀.usesHandler e = true) ∨
      ∃ r, l = .call a r ∧ r.handler = some e ∧ (s.handlers e).alive = true := by
  have hstill : s.calls.lookup a = some p → (∃ p₀, s.calls.lookup a = some p₀ ∧
      p₀.usesHandler e = true) ∨ ∃ r, l = .call a r ∧ r.handler = some e ∧
      (s.handlers e).alive = true := fun h => .inl ⟨p, h, huse⟩
  have hset : ∀ {t : EventLoop} {b : Agent} {q : Progress}, t.calls = s.calls →
      (t.setCall b q).calls.lookup a = some p → q.usesHandler e = false →
      s.calls.lookup a = some p := by
    intro t b q hcalls ht hq
    rcases lookup_of_setCall hcalls ht with ht | rfl
    · exact ht
    · exact absurd huse (by simp [hq])
  cases hmove with
  | @call b r _ _ hmay hreq hquiet _ =>
      rcases uses_of_request hreq hp huse with hp₀ | ⟨hr, halive⟩
      · exact hstill hp₀
      · by_cases hab : a = b
        · exact .inr ⟨r, by rw [hab], hr, halive⟩
        · rw [hquiet.lookup_of_ne hab] at hp
          exact hstill hp
  | light _ _ hlight hrun _ _ _ _ => exact hstill (uses_of_light hlight hrun hp huse)
  | created hattaching _ _ =>
      rw [lookup_setCall] at hp
      split at hp
      · rename_i hab
        obtain rfl := Option.some.inj hp
        obtain rfl : _ = e := by
          simpa [Progress.usesHandler, Element.queue, Element.event] using huse
        exact .inl ⟨_, hab ▸ hattaching, by simp [Progress.usesHandler]⟩
      · exact hstill hp
  | closeBegins _ _ => exact hstill (hset (by rfl) hp rfl)
  | erased _ _ => exact hstill (hset (by rfl) hp (by simp [Progress.usesHandler, Element.queue]))
  | @pushed b element hpushing _ =>
      by_cases hab : a = b
      · subst hab
        -- `AddElement` goes on holding the element it was called with
        rcases (lookup_push s a a element).2 with heq | heq <;> rw [heq] at hp
        · exact absurd hp (by simp)
        · obtain rfl := Option.some.inj hp
          exact .inl ⟨_, hpushing, huse⟩
      · rw [(lookup_push s b a element).1 hab] at hp
        exact hstill hp
  | attachRefused _ _ | closeReturns _ _ | woken _ =>
      rw [lookup_endCall] at hp
      split at hp
      · exact absurd hp (by simp)
      · exact hstill hp
  | signalled _ =>
      rw [lookup_complete] at hp
      split at hp
      · exact absurd hp (by simp)
      · exact hstill hp
  | finalized _ _ hrun _ =>
      dsimp only at hp
      rw [(finalizeElement_spec hrun).2.1] at hp
      exact hstill hp
  | _ => exact hstill hp

/-! ### The invariant -/

/-- **One step keeps the handlers in use alive.** A call takes a reference where it begins, and
the last frame of the call drops it. -/
theorem referenced_step (h : Referenced s) (hmove : Move cfg s l s' o) : Referenced s' where
  frames e hmem := by
    have halive : (s.handlers e).alive = true :=
      (release_of_move hmove hmem).elim (h.frames e) id
    rcases alive_or_dies hmove halive with halive' | hdies
    · exact halive'
    · cases hdies with
      | dropped _ hunused =>
          rw [(Quiet.destroyHandler s _ e).stack] at hmem
          exact absurd hmem (unused_spec hunused).1
      | released hstack _ hunused => exact absurd hmem (unused_spec hunused).1
  calls a p hp e huse := by
    have halive : (s.handlers e).alive = true := by
      rcases uses_of_move hmove hp huse with ⟨p₀, hp₀, huse₀⟩ | ⟨_, _, _, halive⟩
      · exact h.calls a p₀ hp₀ e huse₀
      · exact halive
    rcases alive_or_dies hmove halive with halive' | hdies
    · exact halive'
    · -- nobody is in a method of a handler that is let go
      have hno : ∀ {stack : List LoopFrame}, s.unused stack e = true →
          s.calls.lookup a = some p → (s'.handlers e).alive = true := fun hunused hp₀ =>
        absurd huse (by simp [(unused_spec hunused).2 a p hp₀])
      cases hdies with
      | dropped _ hunused => exact hno hunused (lookup_of_closeEvent (by rfl) hp huse)
      | released _ _ hunused => exact hno hunused (lookup_of_closeEvent (by rfl) hp huse)

theorem referenced_of_run {ok : LoopLabel → EventLoop → Prop} {tr : List LoopObs}
    (h : GuardedRun (loopSystem cfg) ok init tr s) (hc : s.crashed = none) : Referenced s :=
  invariant_of_run (I := fun _ s => Referenced s) referenced_init
    (fun _ _ ih _ hmove => referenced_step ih hmove) h hc

/-! ### Nothing dangles -/

/-- Code of a handler runs under a caller that holds a reference to it. -/
theorem release_of_needs {stack : List LoopFrame} (h : HandlerCall cfg (callFrames stack))
    {f : LoopFrame} (hf : f ∈ stack) (hneeds : f.needs e = true) : .release e ∈ stack := by
  have hlevel : f.level = 3 := by
    cases f <;> first | rfl | exact absurd hneeds (by simp [LoopFrame.needs])
  have hin : f ∈ callFrames stack := mem_callFrames.mpr ⟨hf, hlevel⟩
  suffices hrelease : .release e ∈ callFrames stack from (mem_callFrames.mp hrelease).1
  generalize callFrames stack = frames at h hin ⊢
  cases h <;> simp only [List.mem_cons, List.not_mem_nil, or_false] at hin ⊢ <;>
    rcases hin with rfl | rfl | rfl | rfl <;> simp_all [LoopFrame.needs]

/-- Something other than its handler refers to the `Event`. -/
inductive Refers (cfg : Config) (s : EventLoop) (e : EventId) : Prop
  | events : e ∈ s.events → Refers cfg s e
  | eventsToClose : e ∈ s.eventsToClose → Refers cfg s e
  | table {fd} : s.epoll.events fd = some e → Refers cfg s e
  | interest {fd} : s.epoll.interest fd = some e → Refers cfg s e
  | pending {q element} : element ∈ s.epoll.eventsPending q → element.event = e → Refers cfg s e
  | frame {f} : f ∈ s.stack → f.mentions e = true → Refers cfg s e
  | call {a p} : s.calls.lookup a = some p → p.mentions e = true → Refers cfg s e

/-- What is referred to exists. -/
theorem Owned.mem_of_refers (h : Owned cfg s) (hrefers : Refers cfg s e) : e ∈ s.objects := by
  cases hrefers with
  | events he => exact h.events e he
  | eventsToClose he => exact h.eventsToClose e he
  | table he => exact (h.table _ e he).1
  | interest he => exact (h.interest _ e he).1
  | pending hel he => exact he ▸ h.pending _ _ hel
  | frame hf hm => exact h.frames _ hf e hm
  | call hp hm => exact h.calls _ _ hp e hm

/-- In every state that a run reaches, the handler whose code is on the stack of the loop's
thread exists, so does every handler that a thread is in a method of, and every `Event` that
anything refers to. -/
theorem no_use_after_free (cfg : Config) {tr : List LoopObs} {s : EventLoop}
    (h : Run (loopSystem cfg) init tr s) (hc : s.crashed = none) :
    (∀ f ∈ s.stack, ∀ e, f.needs e = true → (s.handlers e).alive = true) ∧
    (∀ a p, s.calls.lookup a = some p → ∀ e, p.usesHandler e = true →
      (s.handlers e).alive = true) ∧
    ∀ e, Refers cfg s e ∨ (s.handlers e).alive = true ∧ (s.handlers e).attached = true →
      e ∈ s.objects := by
  have href : Referenced s := referenced_of_run h hc
  have howned : Owned cfg s := owned_of_run h hc
  refine ⟨fun f hf e hneeds => ?_, href.calls, fun e he => ?_⟩
  · exact href.frames e (release_of_needs (handlerCall_of_run h hc) hf hneeds)
  · rcases he with hrefers | ⟨halive, hatt⟩
    · exact howned.mem_of_refers hrefers
    · exact howned.handlers e halive hatt

/-- Only handlers that run a function once. -/
def onlyExecutes : Config := { handler := fun _ => .executeHandler, intervalOccurrencesLimit := 10 }

/-- A function has run, and its handler has closed its event and taken itself out of
`internal_event_handlers_`: what is left of it is on the stack. -/
def removesItself : List LoopLabel :=
  [.call (.user 0) (.attachInternal 0), .proceed (.user 0), .proceed (.user 0), .proceed (.user 0),
    .loop .none, .loop (.wait fun _ _ => none), .loop .none, .loop .none, .loop .none,
    .loop .none, .loop .none, .loop .none, .loop .none, .loop .none, .proceed .loop,
    .proceed .loop, .proceed .loop, .proceed .loop, .loop .none]

theorem no_use_after_free_removesItself :
    (after onlyExecutes removesItself).1.internalEventHandlers = [] ∧
      ((after onlyExecutes removesItself).1.handlers 0).alive = true := by
  refine ⟨rfl, ?_⟩
  have hrun : Run (loopSystem onlyExecutes) init _ _ := run_after removesItself rfl
  exact (no_use_after_free onlyExecutes hrun rfl).1 (.release 0) List.mem_cons_self 0 rfl

end EventLoop

end Libael
