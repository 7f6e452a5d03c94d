import Libael.EventLoop.Dispatch

/-!
# Libael.EventLoop.Internal

The private handlers of the loop, those of `ExecuteOnce`, `ExecuteOnceIn`, `ExecuteOnceAt`
and `ExecuteInterval`.

* **One call of a handler at a time** is under way on the thread of the loop, and what is
  left of it has one of a few shapes (`HandlerCall`). Each shape is a suffix of the body of a
  `HandleEvents` in the source, which is why one step leads from a shape to a shape.
* The set `internal_event_handlers_` changes in two places only (`InternalMove`): the call
  that makes a private handler inserts it, `RemoveInternal` in `ExecuteHandler::HandleEvents`
  erases it. A `TimerHandler` stays in the set.
* `Kept` is what the set is for: a handler in it is alive, since the set holds a `shared_ptr`.
-/

namespace Libael

open Lts

namespace LoopFrame

/-- The frame belongs to a call of a handler. -/
def inCall (f : LoopFrame) : Bool := f.level == 3

theorem inCall_eq_false {f : LoopFrame} (h : f.level < 3) : f.inCall = false := by
  simp only [inCall, beq_eq_false_iff_ne]
  omega

end LoopFrame

namespace EventLoop

/-! ### The call of a handler -/

/-- What is left of a call of a handler: the frames of level 3, innermost first. -/
inductive HandlerCall (cfg : Config) : List LoopFrame → Prop
  | idle : HandlerCall cfg []
  /-- the closing pass of `Run` closes an event -/
  | close {e} : HandlerCall cfg [.closeEvent e]
  | handle {e events} : HandlerCall cfg [.handleEvents e events, .release e]
  /-- `HandleEvents` of a class of the user -/
  | user {e fd} : cfg.handler e = .user fd → HandlerCall cfg [.callback e, .release e]
  /-- `ExecuteHandler::HandleEvents`, in `func_` -/
  | invoke {e} : cfg.handler e = .executeHandler →
      HandlerCall cfg [.callback e, .closeEvent e, .removeInternal e, .release e]
  | finish {e} : cfg.handler e = .executeHandler →
      HandlerCall cfg [.closeEvent e, .removeInternal e, .release e]
  | remove {e} : cfg.handler e = .executeHandler →
      HandlerCall cfg [.removeInternal e, .release e]
  /-- `TimerHandler::HandleEvents`, at `read` -/
  | read {e runOnce fd} : cfg.handler e = .timerHandler runOnce fd →
      HandlerCall cfg [.timerRead e, .release e]
  /-- its loop over the occurrences -/
  | run {e runOnce fd k} : cfg.handler e = .timerHandler runOnce fd →
      HandlerCall cfg [.timerRun e k, .release e]
  | occurrence {e runOnce fd k} : cfg.handler e = .timerHandler runOnce fd →
      HandlerCall cfg [.callback e, .timerRun e k, .release e]
  | cancel {e runOnce fd} : cfg.handler e = .timerHandler runOnce fd →
      HandlerCall cfg [.closeEvent e, .release e]
  | release {e} : HandlerCall cfg [.release e]

/-- The frames of a stack that belong to a call of a handler. -/
def callFrames (stack : List LoopFrame) : List LoopFrame := stack.filter LoopFrame.inCall

theorem callFrames_append (frames rest : List LoopFrame) :
    callFrames (frames ++ rest) = callFrames frames ++ callFrames rest := List.filter_append ..

theorem callFrames_cons {f : LoopFrame} (h : f.level = 3) (rest : List LoopFrame) :
    callFrames (f :: rest) = f :: callFrames rest :=
  List.filter_cons_of_pos (by simp [LoopFrame.inCall, h])

theorem callFrames_cons_of_lt {f : LoopFrame} (h : f.level < 3) (rest : List LoopFrame) :
    callFrames (f :: rest) = callFrames rest :=
  List.filter_cons_of_neg (by simp [LoopFrame.inCall_eq_false h])

theorem mem_callFrames {stack : List LoopFrame} {f : LoopFrame} :
    f ∈ callFrames stack ↔ f ∈ stack ∧ f.level = 3 := by
  simp [callFrames, LoopFrame.inCall]

/-- No call is under way below a frame of the loop itself. -/
theorem callFrames_eq_nil {f : LoopFrame} {rest : List LoopFrame}
    (hlayered : Layered (f :: rest)) (h : f.level < 3) : callFrames (f :: rest) = [] := by
  refine List.filter_eq_nil_iff.mpr fun g hg => ?_
  have hle : g.level ≤ f.level := by
    rcases List.mem_cons.mp hg with rfl | hg
    · exact Nat.le_refl _
    · exact hlayered.level_le hg
  simp [LoopFrame.inCall_eq_false (Nat.lt_of_le_of_lt hle h)]

theorem callFrames_rest {f : LoopFrame} {rest : List LoopFrame}
    (hlayered : Layered (f :: rest)) (h : f.level < 3) : callFrames rest = [] := by
  have hnil := callFrames_eq_nil hlayered h
  rwa [callFrames_cons_of_lt h] at hnil

/-- A frame of a call goes on with that call. -/
theorem handlerCall_of_inCall {cfg : Config} {s : EventLoop} {rest : List LoopFrame}
    {i : LoopInput} {f : LoopFrame} {n : LoopNext} (hf : f.level = 3)
    (h : s.runFrame cfg rest i f = some n) (hcall : HandlerCall cfg (callFrames (f :: rest))) :
    HandlerCall cfg (callFrames (n.frames ++ rest)) := by
  rw [callFrames_cons hf] at hcall
  rw [callFrames_append]
  generalize callFrames rest = below at hcall ⊢
  cases lightRun (LoopFrame.light_of_level hf).1 h with
  | user hclass => cases hcall with | handle => exact .user hclass
  | execute hclass _ => cases hcall with | handle => exact .invoke hclass
  | executeDead hclass _ => cases hcall with | handle => exact .finish hclass
  | timer hclass _ _ => cases hcall with | handle => exact .read hclass
  | timerIgnored _ => cases hcall with | handle => exact .release
  | callback =>
      cases hcall with
      | user _ => exact .release
      | invoke hclass => exact .finish hclass
      | occurrence hclass => exact .run hclass
  | closeEvent =>
      cases hcall with
      | close => exact .idle
      | finish hclass => exact .remove hclass
      | cancel _ => exact .release
  | removed _ | notInternal _ => cases hcall with | remove _ => exact .release
  | notExpired | readFails _ => cases hcall with | read _ => exact .release
  | expired _ _ => cases hcall with | read hclass => exact .run hclass
  | expiredDead _ _ => cases hcall with | read hclass => exact .cancel hclass
  | occurrence => cases hcall with | run hclass => exact .occurrence hclass
  | oneShot _ => cases hcall with | run hclass => exact .cancel hclass
  | interval => cases hcall with | run _ => exact .release
  | kept | dropped _ _ _ => cases hcall with | release => exact .idle
  | _ => exact absurd hf (by simp [LoopFrame.level])

/-- A frame of the loop itself starts no call but that of an event to close. -/
theorem handlerCall_of_light {cfg : Config} {s : EventLoop} {rest : List LoopFrame}
    {i : LoopInput} {f : LoopFrame} {n : LoopNext} (hlight : f.light = true) (hf : f.level < 3)
    (h : s.runFrame cfg rest i f = some n) : HandlerCall cfg (callFrames n.frames) := by
  cases lightRun hlight h with
  | closes _ => exact .close
  | observed _ | goesOn _ | copied | allClosed | wakes | passed | returned | finalized | disposed =>
      exact .idle
  | _ => exact absurd hf (by simp [LoopFrame.level])

/-- **One call at a time.** A frame of level 3 goes on with its own call, and a frame of the loop
can start one only when none is under way. -/
theorem handlerCall_step {cfg : Config} {l : LoopLabel} {s s' : EventLoop} {o : List LoopObs}
    (h : HandlerCall cfg (callFrames s.stack)) (hlayered : Layered s.stack)
    (hmove : Move cfg s l s' o) : HandlerCall cfg (callFrames s'.stack) := by
  cases hmove with
  | call _ _ hquiet _ => rw [hquiet.stack]; exact h
  | pushed _ _ => rw [push_stack]; exact h
  | signalled _ => rw [complete_stack]; exact h
  | @light i f rest n hstack _ hlight hrun _ _ _ _ =>
      rw [hstack] at h hlayered
      by_cases hf : f.level = 3
      · exact handlerCall_of_inCall hf hrun h
      · have hlt : f.level < 3 := by
          have hle : f.level ≤ 3 := by cases f <;> simp [LoopFrame.level]
          omega
        change HandlerCall cfg (callFrames (n.frames ++ rest))
        rw [callFrames_append, callFrames_rest hlayered hlt, List.append_nil]
        exact handlerCall_of_light hlight hlt hrun
  | @wait poll final rest hstack _ =>
      rw [hstack] at hlayered
      have hrest := callFrames_rest hlayered (by simp [LoopFrame.level])
      dsimp only
      split <;> rw [callFrames_cons_of_lt (by simp [LoopFrame.level]), hrest] <;> exact .idle
  | @notification n ns final rest hstack _ =>
      rw [hstack] at hlayered
      have hrest := callFrames_rest hlayered (by simp [LoopFrame.level])
      change HandlerCall cfg (callFrames (s.processNotification n ++ .batch ns final :: rest))
      rw [callFrames_append, callFrames_cons_of_lt (by simp [LoopFrame.level]), hrest,
        List.append_nil]
      rcases processNotification_spec s n with ⟨-, heq⟩ | ⟨-, heq | ⟨fd, e, events, -, heq⟩⟩ <;>
        rw [heq]
      · exact .idle
      · exact .idle
      · exact .handle
  | drained hstack _ =>
      rw [hstack] at hlayered
      have hrest := callFrames_rest hlayered (by simp [LoopFrame.level])
      dsimp only
      rw [callFrames_cons_of_lt (by simp [LoopFrame.level]),
        callFrames_cons_of_lt (by simp [LoopFrame.level]),
        callFrames_cons_of_lt (by simp [LoopFrame.level]), hrest]
      exact .idle
  | swapped hstack _ _ =>
      rw [hstack] at hlayered
      have hrest := callFrames_rest hlayered (by simp [LoopFrame.level])
      dsimp only
      rw [callFrames_cons_of_lt (by simp [LoopFrame.level]),
        callFrames_cons_of_lt (by simp [LoopFrame.level]), hrest]
      exact .idle
  | @finalized i element elements rest n hstack _ hrun _ =>
      rw [hstack] at hlayered
      have hrest := callFrames_rest hlayered (by simp [LoopFrame.level])
      change HandlerCall cfg (callFrames (n.frames ++ .finalize elements :: rest))
      rw [callFrames_append, callFrames_cons_of_lt (by simp [LoopFrame.level]), hrest,
        List.append_nil]
      obtain ⟨-, -, heq | ⟨events, heq⟩, -⟩ := finalizeElement_spec hrun <;> rw [heq]
      · exact .idle
      · exact .handle
  | _ => exact h

theorem handlerCall_of_run {cfg : Config} {ok : LoopLabel → EventLoop → Prop} {tr : List LoopObs}
    {s : EventLoop} (h : GuardedRun (loopSystem cfg) ok init tr s) (hc : s.crashed = none) :
    HandlerCall cfg (callFrames s.stack) :=
  invariant_of_run (I := fun _ s => HandlerCall cfg (callFrames s.stack)) .idle
    (fun hrun _ ih _ hmove => handlerCall_step ih (layered_of_run hrun) hmove) h hc

/-! ### The set of private handlers -/

/-- What a transition does to `internal_event_handlers_`. -/
inductive InternalMove (cfg : Config) (s s' : EventLoop) : LoopLabel → Prop
  /-- the set is left alone, and no private handler begins to be attached -/
  | same {l} : s'.internalEventHandlers = s.internalEventHandlers →
      (∀ a e, s'.calls.lookup a = some (.attaching e) → (cfg.handler e).internal = true →
        s.calls.lookup a = some (.attaching e)) → InternalMove cfg s s' l
  /-- the call inserts the handler and goes on to attach it -/
  | attached {a e} : (s.handlers e).alive = true → (cfg.handler e).internal = true →
      (s.handlers e).attached = false → e ∉ s.internalEventHandlers → s.calls.lookup a = none →
      s' = { s with internalEventHandlers := e :: s.internalEventHandlers }.setCall a
        (.attaching e) →
      InternalMove cfg s s' (.call a (.attachInternal e))
  /-- `RemoveInternal`, at the end of `ExecuteHandler::HandleEvents` -/
  | removed {e rest} : s.stack = .removeInternal e :: rest → s.calls.lookup .loop = none →
      s' = { s with internalEventHandlers := s.internalEventHandlers.erase e, stack := rest } →
      InternalMove cfg s s' (.loop .none)

@[simp] theorem internal_closeEvent (s : EventLoop) (a : Agent) (e : EventId) :
    (s.closeEvent a e).internalEventHandlers = s.internalEventHandlers := by
  unfold closeEvent
  split <;> rfl

@[simp] theorem internal_complete (s : EventLoop) (a : Agent) (element : Element) :
    (s.complete a element).internalEventHandlers = s.internalEventHandlers := by
  cases element <;> rfl

theorem internal_push (s : EventLoop) (a : Agent) (element : Element) :
    (s.push a element).internalEventHandlers = s.internalEventHandlers := by
  rcases push_spec s a element with ⟨-, heq⟩ | ⟨-, heq⟩ <;> rw [heq]
  · rfl
  · rw [internal_complete]

/-- `Close` begins no attach call. -/
theorem attaching_closeEvent {s t : EventLoop} {a b : Agent} {e e' : EventId}
    (h : (t.closeEvent a e).calls.lookup b = some (.attaching e')) (hcalls : t.calls = s.calls) :
    s.calls.lookup b = some (.attaching e') := by
  rw [← hcalls]
  unfold closeEvent at h
  split at h
  · rw [lookup_setCall] at h
    split at h
    · exact absurd h (by simp)
    · exact h
  · exact h

theorem attaching_complete {s t : EventLoop} {a b : Agent} {element : Element} {e : EventId}
    (h : (t.complete a element).calls.lookup b = some (.attaching e)) (hcalls : t.calls = s.calls) :
    s.calls.lookup b = some (.attaching e) := by
  rw [← hcalls]
  rw [lookup_complete] at h
  split at h
  · exact absurd h (by simp)
  · exact h

/-- Of the public calls only those that make a private handler touch the set. -/
theorem internalMove_of_request {cfg : Config} {s s' : EventLoop} {a : Agent} {r : Request}
    {o : List LoopObs} (hmay : s.mayCall a = true) (h : s.request cfg a r = some (s', o)) :
    InternalMove cfg s s' (.call a r) := by
  have hidle := idle_of_mayCall hmay
  cases requested h with
  | attach _ hclass =>
      refine .same rfl fun b e' hb hclass' => ?_
      rw [lookup_setCall] at hb
      split at hb
      · obtain rfl := Progress.attaching.inj (Option.some.inj hb)
        rw [hclass] at hclass'
        exact absurd hclass' (by simp)
      · exact hb
  | attachInternal halive hclass hatt hnew => exact .attached halive hclass hatt hnew hidle rfl
  | closeEvent _ | cancel _ _ | destroyed _ _ _ =>
      exact .same (internal_closeEvent ..) fun b e' hb _ => attaching_closeEvent hb rfl
  | ready _ _ | stop _ =>
      refine .same rfl fun b e' hb _ => ?_
      rw [lookup_setCall] at hb
      split at hb
      · exact absurd hb (by simp)
      · exact hb
  | _ => exact .same rfl fun _ _ hb _ => hb

/-- A light frame leaves the set alone, unless it is `RemoveInternal`. -/
theorem internal_of_runFrame {cfg : Config} {s : EventLoop} {rest : List LoopFrame}
    {i : LoopInput} {f : LoopFrame} {n : LoopNext} (hlight : f.light = true)
    (h : s.runFrame cfg rest i f = some n) :
    (n.loop.internalEventHandlers = s.internalEventHandlers ∧
      ∀ b e, n.loop.calls.lookup b = some (.attaching e) → s.calls.lookup b = some (.attaching e)) ∨
    ∃ e, f = .removeInternal e ∧ i = .none ∧ n = s.removeInternal e := by
  cases lightRun hlight h with
  | removed hin => exact .inr ⟨_, rfl, rfl, by simp [removeInternal, hin]⟩
  | notInternal hno => exact .inr ⟨_, rfl, rfl, by simp [removeInternal, hno]⟩
  | closeEvent | dropped _ _ _ =>
      exact .inl ⟨internal_closeEvent .., fun b e hb => attaching_closeEvent hb rfl⟩
  | wakes =>
      refine .inl ⟨rfl, fun b e hb => ?_⟩
      rw [lookup_setCall] at hb
      split at hb
      · exact absurd hb (by simp)
      · exact hb
  | _ => exact .inl ⟨rfl, fun _ _ hb => hb⟩

/-- Every transition is one of the three of `InternalMove`. -/
theorem internalMove_of_move {cfg : Config} {l : LoopLabel} {s s' : EventLoop} {o : List LoopObs}
    (hmove : Move cfg s l s' o) (hc : s'.crashed = none) : InternalMove cfg s s' l := by
  have hendCall : ∀ {s : EventLoop} {a b : Agent} {e : EventId},
      (s.endCall a).calls.lookup b = some (.attaching e) →
        s.calls.lookup b = some (.attaching e) := by
    intro s a b e hb
    rw [lookup_endCall] at hb
    split at hb
    · exact absurd hb (by simp)
    · exact hb
  have hsetCall : ∀ {s : EventLoop} {a b : Agent} {p : Progress} {e : EventId},
      (∀ e, p ≠ .attaching e) → (s.setCall a p).calls.lookup b = some (.attaching e) →
        s.calls.lookup b = some (.attaching e) := by
    intro s a b p e hp hb
    rw [lookup_setCall] at hb
    split at hb
    · exact absurd (Option.some.inj hb) (hp e)
    · exact hb
  cases hmove with
  | call hmay hreq _ _ => exact internalMove_of_request hmay hreq
  | attachRefused _ _ => exact .same rfl fun _ _ hb _ => hendCall hb
  | created _ _ _ => exact .same rfl fun _ _ hb _ => hsetCall (by simp) hb
  | @pushed a element _ _ =>
      refine .same (internal_push ..) fun b e hb _ => ?_
      rcases push_spec s a element with ⟨-, heq⟩ | ⟨-, heq⟩ <;> rw [heq] at hb
      · exact hsetCall (by simp) hb
      · exact attaching_complete hb rfl
  | signalled _ => exact .same (internal_complete ..) fun _ _ hb _ => attaching_complete hb rfl
  | woken _ => exact .same rfl fun _ _ hb _ => hendCall hb
  | closeBegins _ _ => exact .same rfl fun _ _ hb _ => hsetCall (by simp) hb
  | closeReturns _ _ => exact .same rfl fun _ _ hb _ => hendCall hb
  | erased _ _ => exact .same rfl fun _ _ hb _ => hsetCall (by simp) hb
  | @light i f rest n hstack hidle hlight hrun _ _ _ _ =>
      rcases internal_of_runFrame hlight hrun with ⟨hint, hcalls⟩ | ⟨e, rfl, rfl, rfl⟩
      · exact .same hint fun b e hb _ => hcalls b e hb
      · by_cases hin : e ∈ s.internalEventHandlers
        · refine .removed hstack hidle ?_
          simp [removeInternal, hin]
        · exact .same (by simp [removeInternal, hin]) fun b e' hb _ => by
            simpa [removeInternal, hin] using hb
  | @finalized i element elements rest n _ _ hrun _ =>
      obtain ⟨-, hloop, -, -⟩ := finalizeElement_spec hrun
      refine .same ?_ fun b e hb _ => ?_
      · change n.loop.internalEventHandlers = _
        rw [hloop]
      · change n.loop.calls.lookup b = _ at hb
        rw [hloop] at hb
        exact hb
  | _ => exact .same rfl fun _ _ hb _ => hb

/-! ### What keeps a private handler alive -/

@[simp] theorem handlers_closeEvent (s : EventLoop) (a : Agent) (e : EventId) :
    (s.closeEvent a e).handlers = s.handlers := by
  unfold closeEvent
  split <;> rfl

/-- A handler is destroyed by dropping the last reference to it. -/
theorem alive_of_request {cfg : Config} {s s' : EventLoop} {a : Agent} {r : Request}
    {o : List LoopObs} (h : s.request cfg a r = some (s', o)) {e : EventId}
    (hin : e ∈ s.internalEventHandlers) (halive : (s.handlers e).alive = true) :
    (s'.handlers e).alive = true := by
  cases requested h with
  | closeEvent _ =>
      rw [handlers_closeEvent]
      exact halive
  | cancel _ halive' =>
      rw [handlers_closeEvent, handlers_setHandler]
      split
      · exact halive'
      · exact halive
  | @destroyed e' _ hno _ =>
      have hne : e ≠ e' := fun heq => hno (heq ▸ hin)
      rw [destroyHandler, handlers_closeEvent, handlers_setHandler, if_neg hne]
      exact halive
  | _ => exact halive

/-- No light frame destroys a handler of the set; the one that ends a call of `HandleEvents`
drops a reference, but the set still holds another. -/
theorem alive_of_runFrame {cfg : Config} {s : EventLoop} {rest : List LoopFrame}
    {i : LoopInput} {f : LoopFrame} {n : LoopNext} (hlight : f.light = true)
    (h : s.runFrame cfg rest i f = some n) {e : EventId}
    (hin : e ∈ s.internalEventHandlers) (halive : (s.handlers e).alive = true) :
    (n.loop.handlers e).alive = true := by
  cases lightRun hlight h with
  | closeEvent =>
      rw [handlers_closeEvent]
      exact halive
  | @dropped e' _ hno _ =>
      have hne : e ≠ e' := fun heq => hno (heq ▸ hin)
      rw [destroyHandler, handlers_closeEvent, handlers_setHandler, if_neg hne]
      exact halive
  | @oneShot e' _ _ =>
      rw [handlers_setHandler]
      split
      · rename_i heq
        rw [← heq]
        exact halive
      · exact halive
  | _ => exact halive

/-- A private handler in the set is not destroyed. -/
theorem alive_of_internal {cfg : Config} {l : LoopLabel} {s s' : EventLoop} {o : List LoopObs}
    (hmove : Move cfg s l s' o) {e : EventId} (hin : e ∈ s.internalEventHandlers)
    (halive : (s.handlers e).alive = true) : (s'.handlers e).alive = true := by
  cases hmove with
  | call _ hreq _ _ => exact alive_of_request hreq hin halive
  | light _ _ hlight hrun _ _ _ _ => exact alive_of_runFrame hlight hrun hin halive
  | created _ _ _ =>
      change ((s.setHandler _ _).handlers e).alive = true
      rw [handlers_setHandler]
      split
      · rename_i heq
        rw [← heq]
        exact halive
      · exact halive
  | @pushed a element _ _ =>
      rcases push_spec s a element with ⟨-, heq⟩ | ⟨-, heq⟩ <;> rw [heq]
      · exact halive
      · rw [handlers_complete]
        split <;> exact halive
  | signalled _ =>
      rw [handlers_complete]
      split <;> exact halive
  | closeBegins _ _ =>
      change ((s.setHandler _ _).handlers e).alive = true
      rw [handlers_setHandler]
      split
      · rename_i heq
        rw [← heq]
        exact halive
      · exact halive
  | finalized _ _ hrun _ =>
      obtain ⟨-, hloop, -, -⟩ := finalizeElement_spec hrun
      dsimp only
      rw [hloop]
      exact halive
  | expire =>
      rw [handlers_setHandler]
      split
      · rename_i heq
        rw [← heq]
        exact halive
      · exact halive
  | _ => exact halive

/-- The private handlers are alive, and those that are being attached are not attached. -/
structure Kept (cfg : Config) (s : EventLoop) : Prop where
  nodup : s.internalEventHandlers.Nodup
  alive : ∀ e ∈ s.internalEventHandlers, (s.handlers e).alive = true
  /-- only the handlers of the loop itself get in -/
  internal : ∀ e ∈ s.internalEventHandlers, (cfg.handler e).internal = true
  /-- who attaches one is alone with it, and has it in the set -/
  attaching : ∀ a e, s.calls.lookup a = some (.attaching e) → (cfg.handler e).internal = true →
    e ∈ s.internalEventHandlers ∧ (s.handlers e).attached = false ∧
      ∀ b, s.calls.lookup b = some (.attaching e) → b = a

/-- A handler becomes attached by the call that attaches it, which goes on to its push. -/
theorem attached_of_move {cfg : Config} {l : LoopLabel} {s s' : EventLoop} {o : List LoopObs}
    (hmove : Move cfg s l s' o) {e : EventId} (h : (s'.handlers e).attached = true) :
    (s.handlers e).attached = true ∨ ∃ b, s.calls.lookup b = some (.attaching e) ∧
      s'.calls.lookup b = some (.pushing (.add e)) := by
  cases hmove with
  | call _ _ hquiet _ => exact .inl (hquiet.attached e ▸ h)
  | @created a e' ha _ _ =>
      by_cases he : e = e'
      · subst he
        exact .inr ⟨a, ha, by simp⟩
      · change ((s.setHandler _ _).handlers e).attached = true at h
        rw [handlers_setHandler, if_neg he] at h
        exact .inl h
  | pushed _ _ => exact .inl (by simpa using h)
  | signalled _ =>
      rw [attached_complete] at h
      exact .inl h
  | @closeBegins a e' _ _ =>
      change ((s.setHandler _ _).handlers e).attached = true at h
      rw [handlers_setHandler] at h
      split at h
      · rename_i he
        exact .inl (he ▸ h)
      · exact .inl h
  | light _ _ _ _ hquiet _ _ _ => exact .inl (hquiet.attached e ▸ h)
  | finalized _ _ hrun _ =>
      obtain ⟨-, hloop, -, -⟩ := finalizeElement_spec hrun
      change (LoopNext.loop _ |>.handlers e).attached = true at h
      rw [hloop] at h
      exact .inl h
  | @expire e' =>
      rw [handlers_setHandler] at h
      split at h
      · rename_i he
        exact .inl (he ▸ h)
      · exact .inl h
  | _ => exact .inl h

theorem kept_init (cfg : Config) : Kept cfg init where
  nodup := List.nodup_nil
  alive e h := absurd h List.not_mem_nil
  internal e h := absurd h List.not_mem_nil
  attaching a e h := absurd h (by simp [init])

/-- **One step keeps the set right.** A handler enters it alive, and leaves it before it can be
destroyed. -/
theorem kept_step {cfg : Config} {l : LoopLabel} {s s' : EventLoop} {o : List LoopObs}
    (h : Kept cfg s) (howned : Owned cfg s) (hmove : Move cfg s l s' o)
    (hc : s'.crashed = none) : Kept cfg s' := by
  cases internalMove_of_move hmove hc with
  | same hint hcalls =>
      refine ⟨by rw [hint]; exact h.nodup, fun e he => ?_, fun e he => ?_, fun a e ha hclass => ?_⟩
      · rw [hint] at he
        exact alive_of_internal hmove he (h.alive e he)
      · rw [hint] at he
        exact h.internal e he
      · obtain ⟨hin, hatt, hone⟩ := h.attaching a e (hcalls a e ha hclass) hclass
        refine ⟨by rw [hint]; exact hin, ?_, fun b hb => hone b (hcalls b e hb hclass)⟩
        refine eq_false_of_ne_true fun hattached => ?_
        -- the one call that could have attached it is the one that is still going to
        rcases attached_of_move hmove hattached with hbefore | ⟨b, hb, hb'⟩
        · exact absurd hbefore (by simp [hatt])
        · rw [hone b hb, ha] at hb'
          exact absurd hb' (by simp)
  | @attached a e halive hclass hatt hnew hidle heq =>
      subst heq
      refine ⟨List.nodup_cons.mpr ⟨hnew, h.nodup⟩, fun e' he' => ?_, fun e' he' => ?_,
        fun b e' hb hclass' => ?_⟩
      · rcases List.mem_cons.mp he' with rfl | he'
        · exact halive
        · exact h.alive e' he'
      · rcases List.mem_cons.mp he' with rfl | he'
        · exact hclass
        · exact h.internal e' he'
      · have hbefore : ∀ b e', b ≠ a → s.calls.lookup b = some (.attaching e') →
            (cfg.handler e').internal = true → e' ≠ e := fun b e' _ hb hclass' heq =>
          hnew (heq ▸ (h.attaching b e' hb hclass').1)
        rw [lookup_setCall] at hb
        split at hb
        · rename_i hba
          obtain rfl : e = e' := by simpa using hb
          refine ⟨List.mem_cons_self, hatt, fun b' hb' => ?_⟩
          rw [lookup_setCall] at hb'
          split at hb'
          · rename_i hba'
            rw [hba', hba]
          · rename_i hba'
            exact absurd rfl (hbefore b' e hba' hb' hclass)
        · rename_i hba
          obtain ⟨hin, hatt', hone⟩ := h.attaching b e' hb hclass'
          refine ⟨List.mem_cons_of_mem _ hin, hatt', fun b' hb' => ?_⟩
          rw [lookup_setCall] at hb'
          split at hb'
          · obtain rfl : e = e' := by simpa using hb'
            exact absurd rfl (hbefore b e hba hb hclass)
          · exact hone b' hb'
  | @removed e rest hstack hidle heq =>
      subst heq
      refine ⟨h.nodup.erase e, fun e' he' => h.alive e' (List.mem_of_mem_erase he'),
        fun e' he' => h.internal e' (List.mem_of_mem_erase he'), fun b e' hb hclass' => ?_⟩
      obtain ⟨hin, hatt, hone⟩ := h.attaching b e' hb hclass'
      refine ⟨?_, hatt, hone⟩
      -- a handler that removes itself is attached
      have hobj : e ∈ s.objects :=
        howned.frames _ (by rw [hstack]; exact List.mem_cons_self) e (by simp [LoopFrame.mentions])
      have hne : e' ≠ e := fun heq => by
        rw [heq, howned.attached e hobj] at hatt
        exact absurd hatt (by simp)
      exact (List.mem_erase_of_ne hne).mpr hin

theorem kept_of_run {cfg : Config} {ok : LoopLabel → EventLoop → Prop} {tr : List LoopObs}
    {s : EventLoop} (h : GuardedRun (loopSystem cfg) ok init tr s) (hc : s.crashed = none) :
    Kept cfg s := by
  refine (invariant_of_run (I := fun _ s => s.crashed = none → Kept cfg s) (fun _ => kept_init cfg)
    (fun hrun hc₁ ih _ hmove hc' => ?_) h hc) hc
  exact kept_step (ih hc₁) (owned_of_run hrun hc₁) hmove hc'

end EventLoop

end Libael
