import Libael.EventLoop.Stop

/-!
# Libael.EventLoop.Timers

What keeps the private handlers: `AttachInternal` puts a handler into the set, and only
**`ExecuteHandler::HandleEvents` takes it out again**. A `TimerHandler` closes its event when
it has fired, is cancelled or has lost its instance, but stays in the set, and the event and
the timerfd with it. The set is right as long as no timer ends (`NoTimerEnds`).

* A handler of the set is `Calm` if its event is in the table and no `Close` of it is under
  way. `ClosedBy` lists every way in which a `Close` begins; those of a timer are exactly what
  `NoTimerEnds` excludes, so a timer stays calm (`TimersKept`).
* An `ExecuteHandler` that has not been called stays calm too, except that the closing pass of
  `Run` may close it. Its event is then removed by the last swap of the remove queue at the
  earliest, which is why the phases before and after that swap are told apart
  (`BeforeLastSwap`, `AfterLastSwap`).
* While the add queue is being drained the swap of the remove queue is still to come
  (`swap_of_adding`), so after the last swap no `ExecuteHandler` is dequeued and not called.
-/

namespace Libael

open Lts

/-- The handler is a `TimerHandler`. -/
def Config.timer (cfg : Config) (e : EventId) : Bool :=
  match cfg.handler e with
  | .timerHandler _ _ => true
  | _ => false

/-- A private handler is an `ExecuteHandler` or a `TimerHandler`. -/
theorem Config.executes_or_timer {cfg : Config} {e : EventId}
    (h : (cfg.handler e).internal = true) : cfg.executes e = true ∨ cfg.timer e = true := by
  unfold executes timer
  cases hclass : cfg.handler e with
  | executeHandler => exact .inl (by simp)
  | timerHandler runOnce fd => exact .inr rfl
  | user fd =>
      rw [hclass] at h
      exact absurd h (by simp [HandlerClass.internal])

theorem Config.not_executes_of_timer {cfg : Config} {e : EventId} (h : cfg.timer e = true) :
    cfg.executes e = false := by
  unfold timer at h
  unfold executes
  split at h
  · rename_i hclass
    simp [hclass]
  · exact absurd h (by simp)

theorem Config.internal_of_timer {cfg : Config} {e : EventId} (h : cfg.timer e = true) :
    (cfg.handler e).internal = true := by
  unfold timer at h
  split at h
  · rename_i hclass
    rw [hclass]
    rfl
  · exact absurd h (by simp)

/-- `func_` is called for `e`. -/
def LoopObs.isFunc (e : EventId) : LoopObs → Bool
  | .func e' => e' == e
  | _ => false

namespace EventLoop

section

variable {cfg : Config} {l : LoopLabel} {s s' : EventLoop} {tr o : List LoopObs}

/-! ### How a Close begins -/

/-- `Event::Close` of `e` is under way, up to the point where the event leaves the table. -/
def ClosePending (s : EventLoop) (e : EventId) : Prop :=
  .closeEvent e ∈ s.stack ∨
    ∃ a, s.calls.lookup a = some (.closing e) ∨ s.calls.lookup a = some (.erasing e)

/-- The transition begins a `Close` of the event. -/
inductive ClosedBy (cfg : Config) (s : EventLoop) (e : EventId) : LoopLabel → Prop
  | called {i events rest} : s.stack = .handleEvents e events :: rest → cfg.executes e = true →
      ClosedBy cfg s e (.loop i)
  | expired {n rest} : s.stack = .timerRead e :: rest → (s.handlers e).instanceAlive = false →
      ClosedBy cfg s e (.loop (.read (.ok n)))
  | oneShot {i fd rest} : s.stack = .timerRun e 0 :: rest → cfg.handler e = .timerHandler true fd →
      ClosedBy cfg s e (.loop i)
  | pass {events rest} : s.stack = .closing events :: rest → e ∈ events →
      ClosedBy cfg s e (.loop (.close e))
  | request {a} : ClosedBy cfg s e (.call a (.closeEvent e))
  | cancel {a} : ClosedBy cfg s e (.call a (.cancel e))
  | destroyed {label} : e ∉ s.internalEventHandlers → ClosedBy cfg s e label

/-- `Close` is begun for the event it is called on. -/
theorem closing_closeEvent {t : EventLoop} {a b : Agent} {e e' : EventId}
    (h : (t.closeEvent a e').calls.lookup b = some (.closing e)) (hcalls : t.calls = s.calls) :
    s.calls.lookup b = some (.closing e) ∨ e = e' := by
  rw [← hcalls]
  unfold closeEvent at h
  split at h
  · rw [lookup_setCall] at h
    split at h
    · exact .inr (by simpa [eq_comm] using h)
    · exact .inl h
  · exact .inl h

/-- A call that goes into `Close` is one of `CloseEvent` or `Cancel`, or the destructor of a
handler. -/
theorem closing_of_request {a b : Agent} {r : Request} {e : EventId}
    (h : s.request cfg a r = some (s', o)) (hclosing : s'.calls.lookup b = some (.closing e)) :
    s.calls.lookup b = some (.closing e) ∨ ClosedBy cfg s e (.call a r) := by
  cases requested h with
  | attach _ _ | attachInternal _ _ _ _ | ready _ _ | stop _ =>
      rw [lookup_setCall] at hclosing
      split at hclosing
      · exact absurd hclosing (by simp)
      · exact .inl hclosing
  | closeEvent _ =>
      rcases closing_closeEvent hclosing rfl with hb | rfl
      · exact .inl hb
      · exact .inr .request
  | cancel _ _ =>
      rcases closing_closeEvent hclosing rfl with hb | rfl
      · exact .inl hb
      · exact .inr .cancel
  | destroyed _ hno _ =>
      rcases closing_closeEvent hclosing rfl with hb | rfl
      · exact .inl hb
      · exact .inr (.destroyed hno)
  | _ => exact .inl hclosing

/-- The light frames that go on to close an event. -/
theorem closeEvent_of_runFrame {rest : List LoopFrame} {i : LoopInput} {f : LoopFrame}
    {n : LoopNext} (hstack : s.stack = f :: rest) (hlight : f.light = true)
    (h : s.runFrame cfg rest i f = some n) {e : EventId} (hf : .closeEvent e ∈ n.frames) :
    ClosedBy cfg s e (.loop i) := by
  cases lightRun hlight h with
  | closes hmem =>
      have he := hf
      simp only [List.mem_cons, LoopFrame.closeEvent.injEq, reduceCtorEq, List.not_mem_nil,
        or_false] at he
      subst he
      exact .pass hstack hmem
  | execute hclass _ | executeDead hclass _ =>
      have he := hf
      simp only [List.mem_cons, LoopFrame.closeEvent.injEq, reduceCtorEq, List.not_mem_nil,
        or_false, false_or] at he
      subst he
      exact .called hstack (Config.executes_iff.mpr hclass)
  | expiredDead _ hdead =>
      have he := List.mem_singleton.mp hf
      obtain rfl := LoopFrame.closeEvent.inj he
      exact .expired hstack hdead
  | oneShot hclass =>
      have he := List.mem_singleton.mp hf
      obtain rfl := LoopFrame.closeEvent.inj he
      exact .oneShot hstack hclass
  | _ => simp at hf

/-- On the thread of the loop `Close` is entered by its own frame, or from the destructor of a
handler that is not in the set. -/
theorem closing_of_runFrame {rest : List LoopFrame} {i : LoopInput} {f : LoopFrame}
    {n : LoopNext} (hlight : f.light = true) (h : s.runFrame cfg rest i f = some n) {b : Agent}
    {e : EventId} (hclosing : n.loop.calls.lookup b = some (.closing e)) :
    s.calls.lookup b = some (.closing e) ∨ f = .closeEvent e ∨ e ∉ s.internalEventHandlers := by
  cases lightRun hlight h with
  | closeEvent =>
      rcases closing_closeEvent hclosing rfl with hb | rfl
      · exact .inl hb
      · exact .inr (.inl rfl)
  | dropped _ hno _ =>
      rcases closing_closeEvent hclosing rfl with hb | rfl
      · exact .inl hb
      · exact .inr (.inr hno)
  | wakes =>
      rw [lookup_setCall] at hclosing
      split at hclosing
      · exact absurd hclosing (by simp)
      · exact .inl hclosing
  | _ => exact .inl hclosing

/-- A `Close` begins in one of these ways: by a frame of the loop, by a call, or from the
destructor of the handler. -/
theorem closePending_of_move (hmove : Move cfg s l s' o) {e : EventId} (h : ClosePending s' e) :
    ClosePending s e ∨ ClosedBy cfg s e l := by
  rcases h with hframe | ⟨b, hclosing | herasing⟩
  · have hold : .closeEvent e ∈ s.stack → ClosePending s e ∨ ClosedBy cfg s e l :=
      fun hin => .inl (.inl hin)
    cases hmove with
    | call _ _ hquiet _ => exact hold (hquiet.stack ▸ hframe)
    | pushed _ _ => exact hold (by rwa [push_stack] at hframe)
    | signalled _ => exact hold (by rwa [complete_stack] at hframe)
    | light hstack _ hlight hrun _ _ _ _ =>
        rcases List.mem_append.mp hframe with hf | hf
        · exact .inr (closeEvent_of_runFrame hstack hlight hrun hf)
        · exact hold (by rw [hstack]; exact List.mem_cons_of_mem _ hf)
    | @wait poll final rest hstack _ =>
        refine hold ?_
        rw [hstack]
        dsimp only at hframe
        split at hframe <;> simpa using hframe
    | @notification n ns final rest hstack _ =>
        refine hold ?_
        rw [hstack]
        dsimp only at hframe
        rcases processNotification_spec s n with ⟨-, heq⟩ | ⟨-, heq | ⟨fd, e', events, -, heq⟩⟩ <;>
          rw [heq] at hframe <;> simpa using hframe
    | drained hstack _ | swapped hstack _ _ =>
        refine hold ?_
        rw [hstack]
        simpa using hframe
    | finalized hstack _ hrun _ =>
        refine hold ?_
        rw [hstack]
        obtain ⟨-, -, heq | ⟨events, heq⟩, -⟩ := finalizeElement_spec hrun <;>
          rw [heq] at hframe <;> simpa using hframe
    | _ => exact hold hframe
  · have hold : s.calls.lookup b = some (.closing e) → ClosePending s e ∨ ClosedBy cfg s e l :=
      fun hb => .inl (.inr ⟨b, .inl hb⟩)
    cases hmove with
    | call _ hreq _ _ =>
        rcases closing_of_request hreq hclosing with hb | hclosed
        · exact hold hb
        · exact .inr hclosed
    | light hstack _ hlight hrun _ _ _ _ =>
        rcases closing_of_runFrame hlight hrun hclosing with hb | rfl | hno
        · exact hold hb
        · exact .inl (.inl (by rw [hstack]; exact List.mem_cons_self))
        · exact .inr (.destroyed hno)
    | attachRefused _ _ | woken _ | closeReturns _ _ =>
        rw [lookup_endCall] at hclosing
        split at hclosing
        · exact absurd hclosing (by simp)
        · exact hold hclosing
    | created _ _ _ | closeBegins _ _ | erased _ _ =>
        rw [lookup_setCall] at hclosing
        split at hclosing
        · exact absurd hclosing (by simp)
        · exact hold hclosing
    | @pushed a element _ _ =>
        by_cases hb : b = a
        · subst hb
          rcases (lookup_push s b b element).2 with heq | heq <;>
            exact absurd (heq.symm.trans hclosing) (by simp)
        · exact hold (by rwa [(lookup_push s a b element).1 hb] at hclosing)
    | signalled _ =>
        rw [lookup_complete] at hclosing
        split at hclosing
        · exact absurd hclosing (by simp)
        · exact hold hclosing
    | finalized _ _ hrun _ =>
        dsimp only at hclosing
        rw [(finalizeElement_spec hrun).2.1] at hclosing
        exact hold hclosing
    | _ => exact hold hclosing
  · rcases call_of_move hmove herasing with hb | hnew
    · exact .inl (.inr ⟨b, .inr hb⟩)
    · cases hnew with
      | starts _ hstarts => cases hstarts
      | erasing hb => exact .inl (.inr ⟨b, .inl hb⟩)

/-- The event is in the table, and no `Close` of it is under way. -/
structure Calm (s : EventLoop) (e : EventId) : Prop where
  mem : e ∈ s.events
  quiet : ¬ClosePending s e

/-- An event stays calm until a `Close` of it begins. -/
theorem calm_step {e : EventId} (h : Calm s e) (hmove : Move cfg s l s' o)
    (hno : ¬ClosedBy cfg s e l) : Calm s' e where
  quiet hpending := (closePending_of_move hmove hpending).elim h.quiet hno
  mem := by
    cases hmove with
    | call _ _ hquiet _ => rw [hquiet.events]; exact h.mem
    | created _ _ _ => exact List.mem_cons_of_mem _ h.mem
    | pushed _ _ => rw [push_events]; exact h.mem
    | signalled _ => rw [complete_events]; exact h.mem
    | @erased a e' hp _ =>
        have hne : e ≠ e' := fun heq => h.quiet (.inr ⟨a, .inr (heq ▸ hp)⟩)
        exact (List.mem_erase_of_ne hne).mpr h.mem
    | light _ _ _ _ hquiet _ _ _ =>
        dsimp only
        rw [hquiet.events]
        exact h.mem
    | finalized _ _ hrun _ =>
        dsimp only
        rw [(finalizeElement_spec hrun).2.1]
        exact h.mem
    | _ => exact h.mem

/-- A handler that becomes attached has an event to which nothing else refers. -/
theorem calm_of_created {e : EventId} (howned : Owned cfg s) (hmove : Move cfg s l s' o)
    (hbefore : (s.handlers e).attached = false) (hafter : (s'.handlers e).attached = true) :
    Calm s' e := by
  have hobj : e ∉ s.objects := fun hin => by
    rw [howned.attached e hin] at hbefore
    exact absurd hbefore (by simp)
  have hpending : ¬ClosePending s e := by
    rintro (hframe | ⟨a, hclosing | herasing⟩)
    · exact hobj (howned.frames _ hframe e (by simp [LoopFrame.mentions]))
    · exact hobj (howned.calls a _ hclosing e (by simp [Progress.mentions]))
    · exact hobj (howned.calls a _ herasing e (by simp [Progress.mentions]))
  rcases attached_of_move hmove hafter with hatt | ⟨b, hb, hb'⟩
  · rw [hbefore] at hatt
    exact absurd hatt (by simp)
  · have hstays := call_stays hmove hb
    rw [hb'] at hstays
    obtain rfl := hstays.resolve_left (by simp)
    cases hmove with
    | @created a e' hp _ _ =>
        obtain rfl := Progress.attaching.inj (Option.some.inj (hp.symm.trans hb))
        refine ⟨List.mem_cons_self, ?_⟩
        rintro (hframe | ⟨a, ha⟩)
        · exact hpending (.inl hframe)
        · rw [lookup_setCall] at ha
          split at ha
          · simp at ha
          · exact hpending (.inr ⟨a, ha⟩)
    | attachRefused hp hatt =>
        obtain rfl := Progress.attaching.inj (Option.some.inj (hp.symm.trans hb))
        rw [hbefore] at hatt
        exact absurd hatt (by simp)
    | closeBegins hp _ | closeReturns hp _ | pushed hp _ | signalled hp | woken hp | erased hp _ =>
        exact absurd (hp.symm.trans hb) (by simp)

/-! ### Timers -/

/-- No timer ends in this transition. -/
structure NoTimerEnds (cfg : Config) (l : LoopLabel) (s : EventLoop) : Prop where
  /-- `CloseEvent` is protected: code of the user calls it for its own handlers -/
  protected_ : ∀ a e, l = .call a (.closeEvent e) → (cfg.handler e).internal = false
  /-- `Cancel` is not called -/
  cancel : ∀ a e, l ≠ .call a (.cancel e)
  /-- no one-shot timer has run its function -/
  oneShot : ∀ i e fd rest, l = .loop i → s.stack = .timerRun e 0 :: rest →
    cfg.handler e ≠ .timerHandler true fd
  /-- no timer expires with its instance destroyed -/
  expired : ∀ occurrences e rest, l = .loop (.read (.ok occurrences)) →
    s.stack = .timerRead e :: rest → (s.handlers e).instanceAlive = true
  /-- the closing pass of `Run` finds no timer -/
  pass : ∀ e, l = .loop (.close e) → cfg.timer e = false

/-- The test of `NoTimerEnds`. -/
def noTimerEnds (cfg : Config) (l : LoopLabel) (s : EventLoop) : Bool :=
  match l with
  | .call _ (.closeEvent e) => !(cfg.handler e).internal
  | .call _ (.cancel _) => false
  | .loop i =>
    (match i with
      | .close e => !cfg.timer e
      | _ => true) &&
    match s.stack with
    | .timerRun e 0 :: _ =>
      match cfg.handler e with
      | .timerHandler true _ => false
      | _ => true
    | .timerRead e :: _ =>
      match i with
      | .read (.ok _) => (s.handlers e).instanceAlive
      | _ => true
    | _ => true
  | _ => true

/-- The test is enough for the condition. -/
theorem noTimerEnds_spec (l : LoopLabel) (s : EventLoop) (h : noTimerEnds cfg l s = true) :
    NoTimerEnds cfg l s where
  protected_ := by
    rintro a e rfl
    simpa [noTimerEnds] using h
  cancel := by
    rintro a e rfl
    simp [noTimerEnds] at h
  oneShot := by
    rintro i e fd rest rfl hstack hclass
    simp [noTimerEnds, hstack, hclass] at h
  expired := by
    rintro occurrences e rest rfl hstack
    simpa [noTimerEnds, hstack] using h
  pass := by
    rintro e rfl
    simp only [noTimerEnds, Bool.and_eq_true, Bool.not_eq_true'] at h
    exact h.1

/-- A timer that has been attached is in the set, and its event in the table. -/
def TimersKept (cfg : Config) (s : EventLoop) : Prop :=
  ∀ e, cfg.timer e = true → (s.handlers e).attached = true →
    e ∈ s.internalEventHandlers ∧ Calm s e

/-- **One step keeps the timers.** Each way in which a `Close` of a timer may begin is one that
`NoTimerEnds` excludes, or needs the handler to be out of the set. -/
theorem timersKept_step (h : TimersKept cfg s) (hok : NoTimerEnds cfg l s) (hkept : Kept cfg s)
    (howned : Owned cfg s) (hcall : HandlerCall cfg (callFrames s.stack))
    (hmove : Move cfg s l s' o) (hc : s'.crashed = none) : TimersKept cfg s' := by
  intro e htimer hatt
  have hbefore : e ∈ s.internalEventHandlers := by
    rcases attached_of_move hmove hatt with hatt | ⟨b, hb, -⟩
    · exact (h e htimer hatt).1
    · exact (hkept.attaching b e hb (Config.internal_of_timer htimer)).1
  refine ⟨?_, ?_⟩
  · cases internalMove_of_move hmove hc with
    | same hint _ => exact hint ▸ hbefore
    | attached _ _ _ _ _ heq => rw [heq]; exact List.mem_cons_of_mem _ hbefore
    | @removed e₀ rest hstack _ heq =>
        -- only an `ExecuteHandler` takes itself out
        have hex : cfg.executes e₀ = true := by
          rw [hstack, callFrames_cons rfl] at hcall
          generalize callFrames rest = below at hcall
          cases hcall with
          | remove hclass => exact Config.executes_iff.mpr hclass
        have hne : e ≠ e₀ := fun heq => by
          rw [← heq, Config.not_executes_of_timer htimer] at hex
          exact absurd hex (by simp)
        rw [heq]
        exact (List.mem_erase_of_ne hne).mpr hbefore
  · cases hold : (s.handlers e).attached with
    | false => exact calm_of_created howned hmove hold hatt
    | true =>
        refine calm_step (h e htimer hold).2 hmove fun hclosed => ?_
        cases hclosed with
        | called _ hex =>
            rw [Config.not_executes_of_timer htimer] at hex
            exact absurd hex (by simp)
        | expired hstack hdead =>
            rw [hok.expired _ e _ rfl hstack] at hdead
            exact absurd hdead (by simp)
        | oneShot hstack hclass => exact hok.oneShot _ e _ _ rfl hstack hclass
        | pass _ _ =>
            rw [hok.pass e rfl] at htimer
            exact absurd htimer (by simp)
        | request =>
            have hno := hok.protected_ _ e rfl
            rw [Config.internal_of_timer htimer] at hno
            exact absurd hno (by simp)
        | cancel => exact hok.cancel _ e rfl
        | destroyed hno => exact hno hbefore

/-! ### Functions that wait while the loop stops -/

/-- Run the innermost frame, if it is a light one. -/
theorem lightRun_of_move {i : LoopInput} {f : LoopFrame} {rest : List LoopFrame}
    (hmove : Move cfg s (.loop i) s' o) (hstack : s.stack = f :: rest) (hlight : f.light = true) :
    ∃ n, LightRun cfg s rest f i n ∧ s' = { n.loop with stack := n.frames ++ rest } := by
  cases hmove with
  | @light _ f' rest' n hstack' _ hlight' hrun _ _ _ _ =>
      obtain ⟨rfl, rfl⟩ := List.cons.inj (hstack.symm.trans hstack')
      exact ⟨n, lightRun hlight' hrun, rfl⟩
  | wait hstack' | notification hstack' | drain hstack' | drained hstack' | swapped hstack'
  | finalized hstack' =>
      obtain ⟨rfl, rfl⟩ := List.cons.inj (hstack.symm.trans hstack')
      exact absurd hlight (by simp [LoopFrame.light])

/-- `Run` is past its loop, and the last swap of the remove queue is still to come. -/
inductive BeforeLastSwap (s : EventLoop) : Prop
  | closing {events} : s.stack = [.closing events] → BeforeLastSwap s
  | closeEvent {e events} : s.stack = [.closeEvent e, .closing events] → BeforeLastSwap s
  | wakeup : s.stack = [.wakeup] → BeforeLastSwap s
  | process : s.stack = [.process true] → BeforeLastSwap s
  | batch {ns f} : .batch ns true ∈ s.stack → f ∈ s.stack → f.drains .remove → BeforeLastSwap s

/-- There is no swap of the remove queue any more. -/
structure AfterLastSwap (s : EventLoop) : Prop where
  batch : s.stack = [] ∨ ∃ ns, .batch ns true ∈ s.stack
  drained : ∀ f ∈ s.stack, ¬f.drains .remove

/-- The transition swaps the remove queue. -/
def SwapsRemove (l : LoopLabel) (s : EventLoop) : Prop :=
  l = .loop .none ∧ ∃ rest, s.stack = .handleElements .remove :: rest

/-- Only the notification of the eventfd leads to a swap. -/
theorem drains_processNotification {n : Notification} {q : Queue} {f : LoopFrame}
    (hn : n.item ≠ .pendingFd) (hf : f ∈ s.processNotification n) : ¬f.drains q := by
  rcases processNotification_spec s n with ⟨hitem, -⟩ | ⟨-, heq | ⟨fd, e, events, -, heq⟩⟩
  · exact absurd hitem hn
  · rw [heq] at hf
    exact absurd hf List.not_mem_nil
  · rw [heq] at hf
    simp only [List.mem_cons, List.not_mem_nil, or_false] at hf
    rcases hf with rfl | rfl <;> exact id

/-- From the closing pass on, the last swap of the remove queue is to come until it is made, or
the batch ends without the eventfd in it. By the frame that runs: each stage leads to the next.
-/
theorem beforeLastSwap_step (h : BeforeLastSwap s) (hlayered : Layered s.stack)
    (hmove : Move cfg s l s' o) (hno : ¬SwapsRemove l s) :
    BeforeLastSwap s' ∨ AfterLastSwap s' := by
  by_cases hl : ∀ i, l ≠ .loop i
  · have hstack := stack_of_other hmove hl
    cases h with
    | closing hclosing => exact .inl (.closing (hstack.trans hclosing))
    | closeEvent hclose => exact .inl (.closeEvent (hstack.trans hclose))
    | wakeup hwakeup => exact .inl (.wakeup (hstack.trans hwakeup))
    | process hprocess => exact .inl (.process (hstack.trans hprocess))
    | batch hbatch hf hdrains => exact .inl (.batch (hstack ▸ hbatch) (hstack ▸ hf) hdrains)
  obtain ⟨i, rfl⟩ : ∃ i, l = .loop i := by simpa using hl
  cases h with
  | closing hstack =>
      obtain ⟨n, hrun, rfl⟩ := lightRun_of_move hmove hstack rfl
      cases hrun with
      | closes _ => exact .inl (.closeEvent rfl)
      | allClosed => exact .inl (.wakeup rfl)
  | closeEvent hstack =>
      obtain ⟨n, hrun, rfl⟩ := lightRun_of_move hmove hstack rfl
      cases hrun with
      | closeEvent => exact .inl (.closing rfl)
  | wakeup hstack =>
      obtain ⟨n, hrun, rfl⟩ := lightRun_of_move hmove hstack rfl
      cases hrun with
      | wakes => exact .inl (.process rfl)
  | process hstack =>
      cases hmove with
      | @wait poll final rest hstack' _ =>
          obtain ⟨heq, rfl⟩ := List.cons.inj (hstack.symm.trans hstack')
          obtain rfl := LoopFrame.process.inj heq
          split
          · exact .inl (.process rfl)
          · by_cases hpending : ∃ n ∈ (s.epoll.epollWait poll).1, n.item = .pendingFd
            · exact .inl (.batch List.mem_cons_self List.mem_cons_self hpending)
            · refine .inr ⟨.inr ⟨_, List.mem_cons_self⟩, fun f hf => ?_⟩
              rw [List.mem_singleton.mp hf]
              exact hpending
      | light hstack' _ hlight =>
          obtain ⟨rfl, -⟩ := List.cons.inj (hstack.symm.trans hstack')
          exact absurd hlight (by simp [LoopFrame.light])
      | notification hstack' | drain hstack' | drained hstack' | swapped hstack'
          | finalized hstack' =>
          exact absurd (hstack.symm.trans hstack') (by simp)
  | @batch ns f hbatch hf hdrains =>
      -- a frame below the innermost one stays
      have hstays : ∀ (frames : List LoopFrame) {g : LoopFrame} {rest : List LoopFrame},
          s.stack = g :: rest → g ≠ .batch ns true → g ≠ f → s'.stack = frames ++ rest →
            BeforeLastSwap s' := by
        intro frames g rest hstack hg hgf hstack'
        rw [hstack] at hbatch hf
        have hbatch := (List.mem_cons.mp hbatch).resolve_left (Ne.symm hg)
        have hf := (List.mem_cons.mp hf).resolve_left (Ne.symm hgf)
        exact .batch (hstack' ▸ List.mem_append_right frames hbatch)
          (hstack' ▸ List.mem_append_right frames hf) hdrains
      cases hmove with
      | @light i g rest n hstack _ hlight hrun _ _ _ _ =>
          have hgf : g ≠ f := fun heq => LoopFrame.not_drains_of_light hlight (heq ▸ hdrains)
          refine .inl (hstays n.frames hstack ?_ hgf rfl)
          rintro rfl
          -- nothing is left of this `Process`, so the frame that drains is not there either
          obtain rfl : rest = [] := (hstack ▸ hlayered).eq_nil rfl
          rw [hstack] at hf
          exact hgf (List.mem_singleton.mp hf).symm
      | @wait poll final rest hstack _ =>
          obtain rfl : rest = [] := (hstack ▸ hlayered).eq_nil rfl
          rw [hstack] at hbatch
          simp at hbatch
      | @notification n ns' final rest hstack _ =>
          obtain rfl : rest = [] := (hstack ▸ hlayered).eq_nil rfl
          rw [hstack] at hbatch hf
          obtain ⟨rfl, rfl⟩ := LoopFrame.batch.inj (List.mem_singleton.mp hbatch)
          obtain rfl := List.mem_singleton.mp hf
          obtain ⟨m, hm, hitem⟩ := hdrains
          have hleft : .batch ns' true ∈ s.processNotification n ++ [.batch ns' true] := by simp
          refine .inl ?_
          rcases List.mem_cons.mp hm with rfl | hm
          · exact .batch (f := .eventfdRead) hleft (by simp [processNotification, hitem]) trivial
          · exact .batch hleft hleft ⟨m, hm, hitem⟩
      | drain _ _ => exact .inl (.batch hbatch hf hdrains)
      | @drained rest hstack _ =>
          rw [hstack] at hbatch
          have hbatch := (List.mem_cons.mp hbatch).resolve_left (by simp)
          exact .inl (.batch (f := .handleElements .remove) (List.mem_append_right [_, _, _] hbatch)
            (by simp) rfl)
      | @swapped q rest hstack _ _ =>
          refine .inl (hstays [_, _] hstack (by simp) ?_ rfl)
          rintro rfl
          obtain rfl : q = .remove := hdrains
          exact hno ⟨rfl, rest, hstack⟩
      | @finalized _ element elements rest n hstack _ _ _ =>
          refine .inl (hstays (n.frames ++ [.finalize elements]) hstack (by simp) ?_ (by simp))
          rintro rfl
          exact hdrains

/-- The swap of the last batch is the last one: the eventfd is reported once in it. -/
theorem afterLastSwap_of_swap (h : BeforeLastSwap s) (hdraining : Draining s)
    (hbatched : Batched cfg s) (hmove : Move cfg s l s' o) (hswap : SwapsRemove l s) :
    AfterLastSwap s' := by
  obtain ⟨rfl, rest, hstack⟩ := hswap
  have hstages := hdraining.stages
  rw [hstack, drainFrames_cons_of_true rfl] at hstages
  have hrest := hstages.eq_following
  cases h with
  | closing hstack' | closeEvent hstack' | wakeup hstack' | process hstack' =>
      exact absurd (hstack.symm.trans hstack') (by simp)
  | @batch ns f hbatch _ _ =>
      cases hmove with
      | @swapped q rest' hstack' _ _ =>
          obtain ⟨heq, rfl⟩ := List.cons.inj (hstack.symm.trans hstack')
          obtain rfl := LoopFrame.handleElements.inj heq
          refine ⟨.inr ⟨ns, ?_⟩, fun g hg hdrains => ?_⟩
          · rw [hstack] at hbatch
            simpa using hbatch
          · have hg : g ∈ rest := by
              simp only [List.mem_cons] at hg
              rcases hg with rfl | rfl | hg
              · exact absurd hdrains id
              · exact absurd hdrains id
              · exact hg
            cases g with
            | batch ns' final =>
                -- the eventfd of a batch is handled once
                obtain ⟨n, hn, hitem⟩ := hdrains
                refine hbatched.drained ns' final (by rw [hstack]; exact List.mem_cons_of_mem _ hg)
                  ?_ n hn hitem
                exact drainFrames_ne_nil.mpr ⟨_, by rw [hstack]; exact List.mem_cons_self, rfl⟩
            | eventfdRead =>
                have hin : LoopFrame.eventfdRead ∈ drainFrames rest := List.mem_filter.mpr ⟨hg, rfl⟩
                rw [hrest] at hin
                simp [Queue.following] at hin
            | handleElements q =>
                obtain rfl : q = .remove := hdrains
                have hin : LoopFrame.handleElements .remove ∈ drainFrames rest :=
                  List.mem_filter.mpr ⟨hg, rfl⟩
                rw [hrest] at hin
                simp [Queue.following] at hin
            | _ => exact absurd hdrains id
      | light hstack' _ hlight =>
          obtain ⟨rfl, -⟩ := List.cons.inj (hstack.symm.trans hstack')
          exact absurd hlight (by simp [LoopFrame.light])
      | notification hstack' | drain hstack' | drained hstack' | finalized hstack' =>
          exact absurd (hstack.symm.trans hstack') (by simp)

/-- After the last swap there is none. The batch that is left goes on to its end, and `Run`
returns. -/
theorem afterLastSwap_step (h : AfterLastSwap s) (hlayered : Layered s.stack)
    (hmove : Move cfg s l s' o) : AfterLastSwap s' := by
  by_cases hl : ∀ i, l ≠ .loop i
  · have hstack := stack_of_other hmove hl
    exact ⟨hstack ▸ h.batch, hstack ▸ h.drained⟩
  obtain ⟨i, rfl⟩ : ∃ i, l = .loop i := by simpa using hl
  have hreplaced : ∀ (frames : List LoopFrame) {g : LoopFrame} {rest : List LoopFrame},
      s.stack = g :: rest → (∀ ns, g ≠ .batch ns true) → s'.stack = frames ++ rest →
      (∀ f ∈ frames, ¬f.drains .remove) → AfterLastSwap s' := by
    intro frames g rest hstack hg hstack' hframes
    refine ⟨.inr ?_, fun f hf => ?_⟩
    · rcases h.batch with hnil | ⟨ns, hbatch⟩
      · rw [hstack] at hnil
        exact absurd hnil (by simp)
      · rw [hstack] at hbatch
        refine ⟨ns, ?_⟩
        rw [hstack']
        exact List.mem_append_right _ ((List.mem_cons.mp hbatch).resolve_left (Ne.symm (hg ns)))
    · rw [hstack'] at hf
      rcases List.mem_append.mp hf with hf | hf
      · exact hframes f hf
      · exact h.drained f (by rw [hstack]; exact List.mem_cons_of_mem _ hf)
  cases hmove with
  | @light _ g rest n hstack _ hlight hrun _ _ hframes _ =>
      by_cases hg : ∃ ns, g = .batch ns true
      · obtain ⟨ns, rfl⟩ := hg
        obtain rfl : rest = [] := (hstack ▸ hlayered).eq_nil rfl
        cases lightRun hlight hrun with
        | returned => exact ⟨.inl rfl, fun f hf => absurd hf List.not_mem_nil⟩
      · refine hreplaced n.frames hstack (fun ns heq => hg ⟨ns, heq⟩) rfl fun f hf => ?_
        rcases hframes with hlights | ⟨final, hprocess, -⟩
        · exact LoopFrame.not_drains_of_light (hlights f hf).1
        · rw [hprocess] at hf
          rw [List.mem_singleton.mp hf]
          exact id
  | @wait poll final rest hstack _ =>
      obtain rfl : rest = [] := (hstack ▸ hlayered).eq_nil rfl
      rcases h.batch with hnil | ⟨ns, hbatch⟩
      · rw [hstack] at hnil
        exact absurd hnil (by simp)
      · rw [hstack] at hbatch
        simp at hbatch
  | @notification n ns' final rest hstack _ =>
      obtain rfl : rest = [] := (hstack ▸ hlayered).eq_nil rfl
      have hbatch : final = true := by
        rcases h.batch with hnil | ⟨ns, hbatch⟩
        · rw [hstack] at hnil
          exact absurd hnil (by simp)
        · rw [hstack] at hbatch
          exact (LoopFrame.batch.inj (List.mem_singleton.mp hbatch)).2.symm
      subst hbatch
      have hnone := h.drained (.batch (n :: ns') true) (by rw [hstack]; exact List.mem_cons_self)
      refine ⟨.inr ⟨ns', by simp⟩, fun f hf => ?_⟩
      rcases List.mem_append.mp hf with hf | hf
      · exact drains_processNotification (fun hitem => hnone ⟨n, List.mem_cons_self, hitem⟩) hf
      · rw [List.mem_singleton.mp hf]
        rintro ⟨m, hm, hitem⟩
        exact hnone ⟨m, List.mem_cons_of_mem _ hm, hitem⟩
  | drain _ _ => exact ⟨h.batch, h.drained⟩
  | drained hstack _ =>
      exact absurd trivial (h.drained .eventfdRead (by rw [hstack]; exact List.mem_cons_self))
  | @swapped q rest hstack _ _ =>
      refine hreplaced [_, _] hstack (by simp) rfl fun f hf => ?_
      simp only [List.mem_cons, List.not_mem_nil, or_false] at hf
      rcases hf with rfl | rfl <;> exact id
  | @finalized _ element elements rest n hstack _ hrun _ =>
      refine hreplaced (n.frames ++ [.finalize elements]) hstack (by simp) (by simp) fun f hf => ?_
      obtain ⟨-, -, heq | ⟨events, heq⟩, -⟩ := finalizeElement_spec hrun <;> rw [heq] at hf <;>
        simp only [List.nil_append, List.cons_append, List.mem_cons, List.not_mem_nil,
          or_false] at hf
      · rw [hf]
        exact id
      · rcases hf with rfl | rfl | rfl <;> exact id

/-- An `ExecuteHandler` that has not been called is in the table, or the loop is stopping: its
event is removed by the last swap at the earliest. -/
def Settling (tr : List LoopObs) (s : EventLoop) (e : EventId) : Prop :=
  Calm s e ∨ (BeforeLastSwap s ∧ ¬Removed tr e ∧ .remove e ∉ draining s.stack) ∨ AfterLastSwap s

/-- **One step keeps a function settling.** A calm event loses that only to the closing pass,
since the function has not been called and the handler is in the set; from there on the phase of
`Run` goes one way. -/
theorem settling_step {e : EventId} (h : Settling tr s e) (hex : cfg.executes e = true)
    (hno : e ∉ called cfg (tr ++ o)) (hin : e ∈ s.internalEventHandlers)
    (hok : NoTimerEnds cfg l s) (hlife : Life tr s) (hdraining : Draining s)
    (hlayered : Layered s.stack) (hbatched : Batched cfg s)
    (hcall : HandlerCall cfg (callFrames s.stack)) (hs : step cfg l s = some (s', o))
    (hc : s'.crashed = none) : Settling (tr ++ o) s' e := by
  have hmove := move_of_step hs hc
  rcases h with hcalm | ⟨hbefore, hremoved, hdrain⟩ | hafter
  · by_cases hclosed : ClosedBy cfg s e l
    · cases hclosed with
      | @called i events rest hstack hex =>
          have hshown := (handleEvents_of_executes hex hstack hs).2.2.2.1
          refine absurd ?_ hno
          rw [called_append]
          exact List.mem_append_right _ (mem_called.mpr ⟨hex, events, hshown⟩)
      | expired hstack _ =>
          rw [hstack, callFrames_cons rfl] at hcall
          generalize callFrames _ = below at hcall
          cases hcall with
          | read hclass =>
              rw [Config.executes_iff.mp hex] at hclass
              exact absurd hclass (by simp)
      | oneShot _ hclass =>
          rw [Config.executes_iff.mp hex] at hclass
          exact absurd hclass (by simp)
      | @pass events rest hstack _ =>
          obtain rfl : rest = [] := (hstack ▸ hlayered).eq_nil rfl
          have hfin : finalized o = [] := by
            rcases finalized_of_step hs with hnil | ⟨element, elements, rest, hstack', -⟩
            · exact hnil
            · exact absurd (hstack.symm.trans hstack') (by simp)
          obtain ⟨n, hrun, rfl⟩ := lightRun_of_move hmove hstack rfl
          cases hrun with
          | closes _ =>
              refine .inr (.inl ⟨.closeEvent rfl, ?_, by simp [draining, LoopFrame.elements]⟩)
              have hold := not_removed_of_mem hlife hcalm.mem
              unfold Removed at hold ⊢
              rw [finalized_append, hfin, List.append_nil]
              exact hold
      | request =>
          have hinternal := hok.protected_ _ e rfl
          rw [Config.internal_of_executes hex] at hinternal
          exact absurd hinternal (by simp)
      | cancel => exact absurd rfl (hok.cancel _ e)
      | destroyed hgone => exact absurd hin hgone
    · exact .inl (calm_step hcalm hmove hclosed)
  · by_cases hswap : SwapsRemove l s
    · exact .inr (.inr (afterLastSwap_of_swap hbefore hdraining hbatched hmove hswap))
    · rcases beforeLastSwap_step hbefore hlayered hmove hswap with hbefore | hafter
      · refine .inr (.inl ⟨hbefore, ?_, fun hin => ?_⟩)
        · unfold Removed at hremoved ⊢
          rw [finalized_append]
          refine fun hmem => (List.mem_append.mp hmem).elim hremoved fun hmem => ?_
          rcases finalized_of_step hs with hnil | ⟨element, elements, rest, hstack, hone⟩
          · rw [hnil] at hmem
            exact List.not_mem_nil hmem
          · rw [hone, List.mem_singleton] at hmem
            subst hmem
            exact hdrain (by rw [hstack, draining_cons]; simp [LoopFrame.elements])
        · rcases draining_of_move hmove hin with hold | ⟨q, rest, hl, hstack, hpending⟩
          · exact hdrain hold
          · obtain rfl : .remove = q := hdraining.sorted q _ hpending
            exact hswap ⟨hl, rest, hstack⟩
      · exact .inr (.inr hafter)
  · exact .inr (.inr (afterLastSwap_step hafter hlayered hmove))

/-! ### The set in quiescent states -/

/-- Every handler in the set is attached, or is being attached. -/
def InSet (s : EventLoop) : Prop :=
  ∀ e ∈ s.internalEventHandlers, (s.handlers e).attached = true ∨
    ∃ a, s.calls.lookup a = some (.attaching e)

/-- A handler enters the set with its attach call, and is attached when that call is over. -/
theorem inSet_step (h : InSet s) (hmove : Move cfg s l s' o) (hc : s'.crashed = none) :
    InSet s' := by
  have hold : ∀ e, ((s.handlers e).attached = true ∨ ∃ a, s.calls.lookup a = some (.attaching e)) →
      (s'.handlers e).attached = true ∨ ∃ a, s'.calls.lookup a = some (.attaching e) := by
    rintro e (hatt | ⟨a, ha⟩)
    · exact .inl (attached_mono hmove hatt)
    · rcases call_stays hmove ha with ha | rfl
      · exact .inr ⟨a, ha⟩
      · refine .inl ?_
        cases hmove with
        | attachRefused hp hatt =>
            obtain rfl := Progress.attaching.inj (Option.some.inj (hp.symm.trans ha))
            exact hatt
        | created hp _ _ =>
            obtain rfl := Progress.attaching.inj (Option.some.inj (hp.symm.trans ha))
            show ((s.setHandler _ _).handlers _).attached = true
            simp
        | closeBegins hp _ | closeReturns hp _ | pushed hp _ | signalled hp | woken hp
            | erased hp _ =>
            exact absurd (hp.symm.trans ha) (by simp)
  intro e he
  cases internalMove_of_move hmove hc with
  | same hint _ => exact hold e (h e (hint ▸ he))
  | @attached a e₀ _ _ _ _ _ heq =>
      rw [heq] at he
      rcases List.mem_cons.mp he with rfl | he
      · exact .inr ⟨a, by rw [heq]; simp⟩
      · exact hold e (h e he)
  | removed _ _ heq =>
      rw [heq] at he
      exact hold e (h e (List.mem_of_mem_erase he))

/-- `HandleEvents` of some handler is under way. -/
def HandlerRuns (s : EventLoop) : Prop :=
  ∃ f ∈ s.stack, ∃ e, f.runs e = true ∨ f = .removeInternal e

/-- While the add queue is being drained, the swap of the remove queue is to come. -/
theorem swap_of_adding (hdraining : Draining s) {e : EventId} (h : .add e ∈ draining s.stack) :
    .handleElements .remove ∈ s.stack := by
  obtain ⟨elements, hframe, hel⟩ := mem_draining.mp h
  have hin : LoopFrame.finalize elements ∈ drainFrames s.stack := List.mem_filter.mpr ⟨hframe, rfl⟩
  have hsub : ∀ f, f ∈ drainFrames s.stack → f ∈ s.stack := fun f hf => (List.mem_filter.mp hf).1
  refine hsub _ ?_
  have hstages := hdraining.stages
  generalize drainFrames s.stack = frames at hin hstages
  cases hstages with
  | idle => exact absurd hin List.not_mem_nil
  | reading => exact absurd hin (by simp)
  | swapping q => cases q <;> exact absurd hin (by simp [Queue.following])
  | disposing q all _ => cases q <;> exact absurd hin (by simp [Queue.following])
  | finalizing q elements' all hall hsuffix =>
      have heq : elements = elements' := by
        cases q <;> simpa [Queue.following] using hin
      subst heq
      obtain rfl : Queue.add = q := hall _ (hsuffix.subset hel)
      simp [Queue.following]

/-- The handlers that the set has to keep. -/
structure SetKept (cfg : Config) (tr : List LoopObs) (s : EventLoop) : Prop where
  inSet : InSet s
  timers : TimersKept cfg s
  functions : ∀ e, cfg.executes e = true → (s.handlers e).attached = true → e ∉ called cfg tr →
    Settling tr s e

/-- The set is right in every state that a run without an ended timer reaches. -/
theorem setKept_of_run (h : GuardedRun (loopSystem cfg) (NoTimerEnds cfg) init tr s)
    (hc : s.crashed = none) : SetKept cfg tr s := by
  refine (h.invariant (I := fun tr s => s.crashed = none → SetKept cfg tr s) (fun _ => ?_) ?_) hc
  · exact ⟨fun e he => absurd he List.not_mem_nil, fun e _ hatt => absurd hatt (by simp [init]),
      fun e _ hatt => absurd hatt (by simp [init])⟩
  · intro tr s l s' o hrun ih hok hs hc'
    have hs : step cfg l s = some (s', o) := hs
    have hc₁ := not_crashed_of_step hs
    have hmove := move_of_step hs hc'
    have howned := owned_of_run hrun hc₁
    have hcall := handlerCall_of_run hrun hc₁
    obtain ⟨hset, htimers, hfunctions⟩ := ih hc₁
    refine ⟨inSet_step hset hmove hc',
      timersKept_step htimers hok (kept_of_run hrun hc₁) howned hcall
      hmove hc', fun e hex hatt hno => ?_⟩
    have hno' : e ∉ called cfg tr := fun he => hno (by rw [called_append]; simp [he])
    cases hold : (s.handlers e).attached with
    | false => exact .inl (calm_of_created howned hmove hold hatt)
    | true =>
        exact settling_step (hfunctions e hex hold hno') hex hno
          ((execution_of_run hrun hc₁).2.waiting e hex hold hno') hok (life_of_run hrun hc₁)
          (draining_of_run hrun hc₁) (layered_of_run hrun) (batched_of_run hrun hc₁) hcall hs hc'

end

/-- **Private handlers are released**, as long as no timer ends: in a state with empty queues
and no `HandleEvents` under way, every handler in `internal_event_handlers_` that no thread
is in the middle of attaching or closing has its event in `EventLoop::events_`. -/
theorem internal_released (cfg : Config) {tr : List LoopObs} {s : EventLoop}
    (h : GuardedRun (loopSystem cfg) (NoTimerEnds cfg) init tr s) (hc : s.crashed = none)
    (hqueues : ∀ q, s.epoll.eventsPending q = []) (hidle : ¬HandlerRuns s) {e : EventId}
    (hin : e ∈ s.internalEventHandlers) (hattaching : s.Nobody (.attaching e))
    (hadding : s.Nobody (.pushing (.add e))) (hremoving : s.Nobody (.pushing (.remove e))) :
    e ∈ s.events := by
  have hkept := setKept_of_run h hc
  have hlife := life_of_run h hc
  have hatt : (s.handlers e).attached = true :=
    (hkept.inSet e hin).resolve_right fun ⟨a, ha⟩ => hattaching a ha
  rcases Config.executes_or_timer ((kept_of_run h hc).internal e hin) with hex | htimer
  · obtain ⟨hcalled, hexec⟩ := execution_of_run h hc
    have hno : e ∉ called cfg tr := fun he => by
      rcases hexec.removed e he with hframe | ⟨hgone, -⟩
      · exact hidle ⟨_, hframe, e, .inr rfl⟩
      · exact hgone hin
    by_contra hev
    -- its add element has been dequeued, but not finalized
    have hdrain : .add e ∈ draining s.stack := by
      have hadd := hlife.added_of_attached hatt hadding
      have hfin : .add e ∉ finalized tr := fun hfin => by
        have hmem : e ∈ submissions cfg (finalized tr) := mem_submissions.mpr ⟨hfin, hex⟩
        rw [hcalled.called] at hmem
        rcases List.mem_append.mp hmem with hmem | hmem
        · exact hno hmem
        · obtain ⟨-, events, hframe⟩ := mem_calling.mp hmem
          exact hidle ⟨_, hframe, e, .inl (by simp [LoopFrame.runs])⟩
      unfold tokens queuedCount at hadd
      rw [hqueues, hqueues, hqueues, List.count_eq_zero.mpr hfin] at hadd
      simp only [List.count_nil] at hadd
      exact List.count_pos_iff.mp (by omega)
    rcases hkept.functions e hex hatt hno with hcalm | ⟨-, hremoved, hundrained⟩ | hafter
    · exact hev hcalm.mem
    · have hremove := tokens_of_closed hlife hatt hev hremoving
      unfold tokens queuedCount at hremove
      rw [hqueues, hqueues, hqueues, List.count_eq_zero.mpr hremoved,
        List.count_eq_zero.mpr hundrained] at hremove
      simp at hremove
    · exact hafter.drained _ (swap_of_adding (draining_of_run h hc) hdrain) rfl
  · exact (hkept.timers e htimer hatt).2.mem

/-! ### Schedules of timers -/

/-- Timers, the first of them one-shot. -/
def timers : Config :=
  { handler := fun e => .timerHandler (e == 0) (e + 3), intervalOccurrencesLimit := 10 }

/-- A timer call, up to where the loop is back at `epoll_wait` with the timerfd registered. -/
def timerRegistered (e : EventId) : List LoopLabel :=
  [.call (.user 0) (.attachInternal e), .proceed (.user 0), .proceed (.user 0), .proceed (.user 0),
    .loop .none, .loop (.wait fun _ _ => none), .loop .none, .loop .none, .loop .none,
    .loop .none, .loop (.ctl 0 none)] ++ List.replicate 10 (.loop .none)

/-- Nothing is queued, nothing runs and no call is in progress. -/
def atRest (s : EventLoop) : Bool :=
  ([Queue.add, .remove, .ready].all fun q => (s.epoll.eventsPending q).isEmpty) &&
    s.calls.entries.isEmpty && s.crashed.isNone &&
    match s.stack with
    | [.process false] => true
    | _ => false

/-- What the test `atRest` says. -/
theorem atRest_spec {s : EventLoop} (h : s.atRest = true) :
    (∀ q, s.epoll.eventsPending q = []) ∧ ¬HandlerRuns s ∧ (∀ p, s.Nobody p) ∧
      s.crashed = none := by
  simp only [atRest, Bool.and_eq_true, List.all_cons, List.all_nil, Bool.and_true,
    List.isEmpty_iff, Option.isNone_iff_eq_none] at h
  obtain ⟨⟨⟨⟨hadd, hremove, hready⟩, hcalls⟩, hc⟩, hstack⟩ := h
  refine ⟨fun q => by cases q <;> assumption, ?_, fun p a ha => ?_, hc⟩
  · split at hstack
    · rename_i heq
      rintro ⟨f, hf, e, hruns⟩
      rw [heq, List.mem_singleton] at hf
      subst hf
      simp [LoopFrame.runs] at hruns
    · exact absurd hstack (by simp)
  · have hmem := AList.mem_lookup_iff.mp ha
    rw [hcalls] at hmem
    exact absurd hmem List.not_mem_nil

theorem func_mem_of_any {tr : List LoopObs} {e : EventId} (h : tr.any (LoopObs.isFunc e) = true) :
    .func e ∈ tr := by
  obtain ⟨x, hx, hfunc⟩ := List.any_eq_true.mp h
  unfold LoopObs.isFunc at hfunc
  split at hfunc
  · obtain rfl := beq_iff_eq.mp hfunc
    exact hx
  · exact absurd hfunc (by simp)

/-- An interval timer that has just been registered is kept. -/
theorem internal_released_registered : 1 ∈ (after timers (timerRegistered 1)).1.events := by
  have hexec : exec (loopSystem timers) (noTimerEnds timers) (timerRegistered 1) init =
      some (after timers (timerRegistered 1)) := rfl
  have hrest := atRest_spec (s := (after timers (timerRegistered 1)).1) rfl
  exact internal_released timers (GuardedRun.of_exec noTimerEnds_spec hexec) hrest.2.2.2 hrest.1
    hrest.2.1 List.mem_cons_self (hrest.2.2.1 _) (hrest.2.2.1 _) (hrest.2.2.1 _)

/-- A one-shot timer expires, calls its function and closes its event; the loop removes the
event and is back at `epoll_wait`. -/
def timerFired : List LoopLabel :=
  timerRegistered 0 ++ [.edge 3, .loop (.wait fun _ _ => some EPollEvents.EPOLLIN), .loop .none,
    .loop .none, .loop (.read (.ok 1)), .loop .none, .loop .none, .loop .none, .loop .none,
    .proceed .loop, .proceed .loop, .proceed .loop, .proceed .loop, .loop (.release false),
    .loop .none, .loop .none, .loop (.wait fun _ _ => none)] ++ List.replicate 7 (.loop .none) ++
    [.loop (.ctl 0 none)] ++ List.replicate 7 (.loop .none)

/-- The timer that has fired is still in the set, and its event and timerfd still exist. -/
theorem fired_timer_kept :
    ∃ tr s, Run (loopSystem timers) init tr s ∧ s.crashed = none ∧
      (∀ q, s.epoll.eventsPending q = []) ∧ ¬HandlerRuns s ∧ (∀ p, s.Nobody p) ∧ .func 0 ∈ tr ∧
      0 ∈ s.internalEventHandlers ∧ 0 ∉ s.events ∧ 0 ∈ s.objects := by
  have hrest := atRest_spec (s := (after timers timerFired).1) rfl
  have hfunc : .func 0 ∈ (after timers timerFired).2 := func_mem_of_any rfl
  exact ⟨_, _, run_after timerFired rfl, hrest.2.2.2, hrest.1, hrest.2.1, hrest.2.2.1, hfunc,
    List.mem_cons_self, by rw [show (after timers timerFired).1.events = [] from rfl]; simp,
    List.mem_cons_self⟩

end EventLoop

end Libael
