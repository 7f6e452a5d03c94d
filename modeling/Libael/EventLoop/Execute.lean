import Libael.EventLoop.Internal

/-!
# Libael.EventLoop.Execute

**`ExecuteOnce` runs once and in order.** A function is carried by an `ExecuteHandler`, which
has no descriptor: `AddFinalize` calls its `HandleEvents` right away. So the functions are
called in the order in which the add queue was filled, each one while its handler is in
`internal_event_handlers_`, and `HandleEvents` itself takes it out again.

* Four lists of the trace are compared: the calls of `ExecuteOnce` that were queued
  (`submitted`), those handed to `AddFinalize`, the handlers `called`, and the functions
  `invoked`. `Called` links the last three; the first is linked by `Fifo` of the add queue.
* That a dequeued function is called at all rests on its handler being alive (`Waiting`), and
  this on the set. So `called_step` and `execution_step` prove `Called` and `Execution` in one
  induction, each using the other in the state before the step.
* Crashed states are reached by a run without a crash and one more transition, which queues
  nothing and calls no function (`silent_of_crash`).
-/

namespace Libael

open Lts

namespace Config

/-- The event is that of an `ExecuteHandler`: it stands for one call of `ExecuteOnce`. -/
def executes (cfg : Config) (e : EventId) : Bool := cfg.handler e = .executeHandler

theorem executes_iff {cfg : Config} {e : EventId} :
    cfg.executes e = true ↔ cfg.handler e = .executeHandler := by simp [executes]

theorem not_valid_of_executes {cfg : Config} {e : EventId} (h : cfg.executes e = true) :
    cfg.valid e = false := by
  simp [valid, handle, executes_iff.mp h, HandlerClass.handle, Fd.valid]

theorem internal_of_executes {cfg : Config} {e : EventId} (h : cfg.executes e = true) :
    (cfg.handler e).internal = true := by
  rw [executes_iff.mp h]
  rfl

end Config

/-! ### What a run shows of the calls of `ExecuteOnce` -/

/-- The calls of `ExecuteOnce` whose add elements these are. -/
def submissions (cfg : Config) (elements : List Element) : List EventId :=
  elements.filterMap fun element =>
    match element with
    | .add e => if cfg.executes e then some e else none
    | _ => none

/-- The calls of `ExecuteOnce`, in the order in which they were queued. -/
def submitted (cfg : Config) (tr : List LoopObs) : List EventId :=
  submissions cfg (queuedElements tr)

/-- The `ExecuteHandler`s whose `HandleEvents` has been called. -/
def called (cfg : Config) (tr : List LoopObs) : List EventId :=
  tr.filterMap fun x =>
    match x with
    | .handleEvents e _ => if cfg.executes e then some e else none
    | _ => none

/-- The functions of `ExecuteOnce` that have been called. -/
def invoked (cfg : Config) (tr : List LoopObs) : List EventId :=
  tr.filterMap fun x =>
    match x with
    | .func e => if cfg.executes e then some e else none
    | _ => none

/-- The `ExecuteHandler`s whose `HandleEvents` is the next to run. -/
def calling (cfg : Config) (stack : List LoopFrame) : List EventId :=
  stack.filterMap fun f =>
    match f with
    | .handleEvents e _ => if cfg.executes e then some e else none
    | _ => none

@[simp] theorem submissions_append (cfg : Config) (elements elements' : List Element) :
    submissions cfg (elements ++ elements') =
      submissions cfg elements ++ submissions cfg elements' := List.filterMap_append

@[simp] theorem called_append (cfg : Config) (tr o : List LoopObs) :
    called cfg (tr ++ o) = called cfg tr ++ called cfg o := List.filterMap_append

@[simp] theorem invoked_append (cfg : Config) (tr o : List LoopObs) :
    invoked cfg (tr ++ o) = invoked cfg tr ++ invoked cfg o := List.filterMap_append

@[simp] theorem calling_append (cfg : Config) (frames rest : List LoopFrame) :
    calling cfg (frames ++ rest) = calling cfg frames ++ calling cfg rest := List.filterMap_append

theorem mem_submissions {cfg : Config} {elements : List Element} {e : EventId} :
    e ∈ submissions cfg elements ↔ .add e ∈ elements ∧ cfg.executes e = true := by
  unfold submissions
  rw [List.mem_filterMap]
  constructor
  · rintro ⟨element, hel, heq⟩
    cases element with
    | add e' =>
        by_cases hex : cfg.executes e' = true
        · obtain rfl : e' = e := by simpa [hex] using heq
          exact ⟨hel, hex⟩
        · exact absurd heq (by simp [hex])
    | remove | ready => exact absurd heq (by simp)
  · rintro ⟨hel, hex⟩
    exact ⟨.add e, hel, by simp [hex]⟩

theorem mem_called {cfg : Config} {tr : List LoopObs} {e : EventId} :
    e ∈ called cfg tr ↔ cfg.executes e = true ∧ ∃ events, .handleEvents e events ∈ tr := by
  unfold called
  rw [List.mem_filterMap]
  constructor
  · rintro ⟨x, hx, heq⟩
    cases x with
    | handleEvents e' events =>
        by_cases hex : cfg.executes e' = true
        · obtain rfl : e' = e := by simpa [hex] using heq
          exact ⟨hex, events, hx⟩
        · exact absurd heq (by simp [hex])
    | _ => exact absurd heq (by simp)
  · rintro ⟨hex, events, hx⟩
    exact ⟨.handleEvents e events, hx, by simp [hex]⟩

theorem mem_calling {cfg : Config} {stack : List LoopFrame} {e : EventId} :
    e ∈ calling cfg stack ↔ cfg.executes e = true ∧ ∃ events, .handleEvents e events ∈ stack := by
  unfold calling
  rw [List.mem_filterMap]
  constructor
  · rintro ⟨f, hf, heq⟩
    cases f with
    | handleEvents e' events =>
        by_cases hex : cfg.executes e' = true
        · obtain rfl : e' = e := by simpa [hex] using heq
          exact ⟨hex, events, hf⟩
        · exact absurd heq (by simp [hex])
    | _ => exact absurd heq (by simp)
  · rintro ⟨hex, events, hf⟩
    exact ⟨.handleEvents e events, hf, by simp [hex]⟩

/-- Only elements of the add queue carry a call of `ExecuteOnce`. -/
theorem submissions_onQueue (cfg : Config) (elements : List Element) :
    submissions cfg (onQueue .add elements) = submissions cfg elements := by
  unfold submissions onQueue
  rw [List.filterMap_filter]
  congr 1
  funext element
  cases element <;> simp [Element.queue]

/-- A call of `ExecuteOnce` is submitted as often as its add element is queued, at most. -/
theorem count_submissions_le (cfg : Config) (elements : List Element) (e : EventId) :
    (submissions cfg elements).count e ≤ elements.count (.add e) := by
  induction elements with
  | nil => exact Nat.le_refl _
  | cons element elements ih =>
      have hcons : submissions cfg (element :: elements) =
          submissions cfg [element] ++ submissions cfg elements :=
        submissions_append cfg [element] elements
      have hone : (submissions cfg [element]).count e ≤ [element].count (.add e) := by
        cases element with
        | add e' =>
            by_cases hex : cfg.executes e' = true
            · simp only [submissions, List.filterMap_cons, hex, if_true, List.filterMap_nil,
                List.count_singleton]
              by_cases he : e' = e
              · simp [he]
              · simp [he]
            · simp [submissions, hex]
        | remove | ready => simp [submissions]
      have hcount : (element :: elements).count (.add e) =
          [element].count (.add e) + elements.count (.add e) := by
        rw [← List.count_append, List.singleton_append]
      rw [hcons, List.count_append, hcount]
      omega

namespace EventLoop

section

variable {cfg : Config} {l : LoopLabel} {s s' : EventLoop} {tr o : List LoopObs}

/-! ### Calls of `HandleEvents` -/

theorem calling_eq_nil {stack : List LoopFrame} (h : callFrames stack = []) :
    calling cfg stack = [] := by
  refine List.eq_nil_iff_forall_not_mem.mpr fun e he => ?_
  obtain ⟨-, events, hf⟩ := mem_calling.mp he
  have hmem : LoopFrame.handleEvents e events ∈ callFrames stack := mem_callFrames.mpr ⟨hf, rfl⟩
  rw [h] at hmem
  exact absurd hmem List.not_mem_nil

/-- What the innermost frame shows, and whether it calls a handler. -/
theorem called_of_runFrame {rest : List LoopFrame} {i : LoopInput} {f : LoopFrame} {n : LoopNext}
    (hlight : f.light = true) (h : s.runFrame cfg rest i f = some n) :
    called cfg n.obs = calling cfg [f] ∧ calling cfg n.frames = [] ∧
      ((∀ e k, f = .timerRun e k → cfg.executes e = false) →
        (invoked cfg n.obs).Sublist (calling cfg [f])) := by
  cases lightRun hlight h with
  | execute hclass _ | executeDead hclass _ =>
      simp [called, calling, invoked, Config.executes_iff.mpr hclass]
  | occurrence =>
      refine ⟨rfl, rfl, fun hno => ?_⟩
      simp [invoked, hno _ _ rfl]
  | _ => exact ⟨rfl, rfl, fun _ => List.nil_sublist _⟩

/-- Handlers are called on the thread of the loop. -/
theorem called_of_step (h : step cfg l s = some (s', o)) (hl : ∀ i, l ≠ .loop i) :
    called cfg o = [] ∧ invoked cfg o = [] := by
  constructor
  · refine List.eq_nil_iff_forall_not_mem.mpr fun e he => ?_
    obtain ⟨-, events, hx⟩ := mem_called.mp he
    cases shown_of_step h hx rfl with
    | handleEvents _ _ => exact hl _ rfl
  · refine List.filterMap_eq_nil_iff.mpr fun x hx => ?_
    cases x with
    | func e =>
        cases shown_of_step h hx rfl with
        | execute _ _ _ _ => exact absurd rfl (hl _)
        | timer _ _ => exact absurd rfl (hl _)
    | _ => rfl

/-! ### In order -/

/-- The `ExecuteHandler`s that are attached, and not called yet, are still kept. -/
def Waiting (cfg : Config) (tr : List LoopObs) (s : EventLoop) : Prop :=
  ∀ e, cfg.executes e = true → (s.handlers e).attached = true → e ∉ called cfg tr →
    e ∈ s.internalEventHandlers

/-- Every call of `ExecuteOnce` that has been dequeued is a call of `HandleEvents`. -/
structure Called (cfg : Config) (tr : List LoopObs) (s : EventLoop) : Prop where
  called : submissions cfg (finalized tr) = called cfg tr ++ calling cfg s.stack
  invoked : (invoked cfg tr).Sublist (Libael.called cfg tr)

/-- `Called` survives a step that finalizes nothing and calls nobody. -/
theorem Called.of_same (h : Called cfg tr s) (hcalling : calling cfg s'.stack = calling cfg s.stack)
    (ho : finalized o = []) (hcalled : Libael.called cfg o = [] ∧ Libael.invoked cfg o = []) :
    Called cfg (tr ++ o) s' where
  called := by
    rw [hcalling, finalized_append, ho, called_append, hcalled.1, List.append_nil, List.append_nil]
    exact h.called
  invoked := by
    rw [invoked_append, called_append, hcalled.1, hcalled.2, List.append_nil, List.append_nil]
    exact h.invoked

/-- A handler is called from a notification only if it has a descriptor. -/
theorem calling_processNotification (howned : Owned cfg s) (n : Notification) :
    calling cfg (s.processNotification n) = [] := by
  rcases processNotification_spec s n with ⟨-, heq⟩ | ⟨-, heq | ⟨fd, e, events, hin, heq⟩⟩
  · rw [heq]; rfl
  · rw [heq]; rfl
  · rw [heq]
    have hno : cfg.executes e = false := eq_false_of_ne_true fun hex => by
      have hvalid := (howned.table fd e hin).2.2
      rw [Config.not_valid_of_executes hex] at hvalid
      exact absurd hvalid (by simp)
    simp [calling, hno]

/-- `AddFinalize` of an `ExecuteHandler` that is alive starts its `HandleEvents`; no other
finalize function starts that of an `ExecuteHandler`. -/
theorem finalizes_called {element : Element} {n : LoopNext} (howned : Owned cfg s)
    (hfin : Finalizes cfg s element n)
    (halive : ∀ e, element = .add e → cfg.executes e = true → (s.handlers e).alive = true) :
    submissions cfg [element] = calling cfg n.frames := by
  cases hfin with
  | @addNoHandle e hvalid =>
      by_cases hex : cfg.executes e = true
      · rw [if_pos (halive e rfl hex)]
        simp [submissions, calling, hex]
      · split <;> simp [submissions, calling, hex]
  | @add e asked hvalid _ =>
      have hno : cfg.executes e = false := eq_false_of_ne_true fun hex => by
        rw [Config.not_valid_of_executes hex] at hvalid
        exact absurd hvalid (by simp)
      simp [submissions, calling, hno]
  | removeNoHandle _ => rfl
  | remove _ _ => rfl
  | ignored _ => rfl
  | @ready e events attached hin =>
      have hno : cfg.executes e = false := eq_false_of_ne_true fun hex => by
        have hvalid := (howned.table _ e hin).2.2
        rw [Config.not_valid_of_executes hex] at hvalid
        exact absurd hvalid (by simp)
      split <;> simp [submissions, calling, hno]

/-- **One step keeps `Called`.** A turn of a finalize loop adds to both sides of the first
clause; the frame that is entered moves from `calling` to `called`. -/
theorem called_step {tr : List LoopObs} (h : Called cfg tr s) (howned : Owned cfg s)
    (hlayered : Layered s.stack) (hcall : HandlerCall cfg (callFrames s.stack))
    (halive : ∀ e, cfg.executes e = true → .add e ∈ draining s.stack → (s.handlers e).alive = true)
    (hs : step cfg l s = some (s', o)) (hc : s'.crashed = none) : Called cfg (tr ++ o) s' := by
  have hmove := move_of_step hs hc
  cases hmove with
  | call _ _ hquiet hobs =>
      refine h.of_same (by rw [hquiet.stack]) (finalized_minor hobs) (called_of_step hs ?_)
      intro i hi
      exact absurd hi (by simp)
  | pushed _ _ => exact h.of_same (by rw [push_stack]) rfl ⟨rfl, rfl⟩
  | signalled _ => exact h.of_same (by rw [complete_stack]) rfl ⟨rfl, rfl⟩
  | @light i f rest n hstack _ hlight hrun _ hobs _ _ =>
      obtain ⟨hcalled, hframes, hinvoked⟩ := called_of_runFrame hlight hrun
      have hcons : calling cfg s.stack = calling cfg [f] ++ calling cfg rest := by
        rw [hstack]
        exact calling_append cfg [f] rest
      refine ⟨?_, ?_⟩
      · show _ = _ ++ calling cfg (n.frames ++ rest)
        rw [finalized_append, finalized_minor hobs, List.append_nil, h.called, hcons, called_append,
          hcalled, calling_append, hframes, List.nil_append, List.append_assoc]
      · rw [invoked_append, called_append, hcalled]
        refine h.invoked.append (hinvoked fun e k hf => ?_)
        -- a timer is no `ExecuteHandler`
        subst hf
        rw [hstack, callFrames_cons rfl] at hcall
        generalize callFrames rest = below at hcall
        cases hcall with
        | run hclass => simp [Config.executes, hclass]
  | @wait poll final rest hstack _ =>
      refine h.of_same ?_ rfl ⟨rfl, rfl⟩
      rw [hstack]
      dsimp only
      split <;> rfl
  | @notification n ns final rest hstack _ =>
      refine h.of_same ?_ rfl ⟨rfl, rfl⟩
      rw [hstack]
      show calling cfg (s.processNotification n ++ .batch ns final :: rest) = _
      rw [calling_append, calling_processNotification howned, List.nil_append]
      rfl
  | drained hstack _ =>
      refine h.of_same ?_ rfl ⟨rfl, rfl⟩
      rw [hstack]
      rfl
  | swapped hstack _ _ =>
      refine h.of_same ?_ rfl ⟨rfl, rfl⟩
      rw [hstack]
      rfl
  | @finalized i element elements rest n hstack _ hrun hthrew =>
      have hfin := finalizes hrun hthrew
      have hnone : calling cfg s.stack = [] := by
        rw [hstack] at hlayered ⊢
        exact calling_eq_nil (callFrames_eq_nil hlayered (by simp [LoopFrame.level]))
      have hrest : calling cfg rest = [] := by
        rw [hstack] at hnone
        exact hnone
      have hframes := finalizes_called howned hfin fun e hel hex =>
        halive e hex (by rw [hstack, hel]; simp [LoopFrame.elements])
      obtain ⟨-, -, -, obs, hobs, hminor⟩ := finalizeElement_spec hrun
      have hfinalized : Libael.finalized n.obs = [element] := by
        rw [hobs]
        show element :: Libael.finalized obs = [element]
        rw [finalized_minor hminor]
      have hshown : ∀ x ∈ n.obs, effect x = false := fun x hx => effect_of_finalizeElement hrun hx
      have hcalled : Libael.called cfg n.obs = [] := by
        refine List.eq_nil_iff_forall_not_mem.mpr fun e he => ?_
        obtain ⟨-, events, hx⟩ := mem_called.mp he
        exact absurd (hshown _ hx) (by simp [effect])
      have hinvoked : Libael.invoked cfg n.obs = [] := by
        refine List.filterMap_eq_nil_iff.mpr fun x hx => ?_
        have hno := hshown x hx
        cases x <;> first | rfl | exact absurd hno (by simp [effect])
      refine ⟨?_, ?_⟩
      · show _ = _ ++ calling cfg (n.frames ++ .finalize elements :: rest)
        have hcons : calling cfg (.finalize elements :: rest) = calling cfg rest := rfl
        rw [finalized_append, submissions_append, h.called, hnone, List.append_nil, hfinalized,
          hframes, called_append, hcalled, List.append_nil, calling_append, hcons, hrest,
          List.append_nil]
      · rw [invoked_append, called_append, hcalled, hinvoked, List.append_nil, List.append_nil]
        exact h.invoked
  | destroyed _ _ hepoll =>
      rcases hepoll with ⟨-, rfl, rfl⟩ | ⟨-, rfl, rfl⟩ <;> exact h.of_same rfl rfl ⟨rfl, rfl⟩
  | _ => exact h.of_same rfl rfl ⟨rfl, rfl⟩

/-! ### Once -/

theorem submitted_eq (hfifo : Fifo tr s .add) :
    submitted cfg tr = submissions cfg (finalized tr) ++ submissions cfg (draining s.stack) ++
      submissions cfg (s.epoll.eventsPending .add) := by
  unfold submitted
  rw [← submissions_onQueue, hfifo, submissions_append, submissions_append, submissions_onQueue,
    submissions_onQueue]

/-- No call of `ExecuteOnce` is queued twice. -/
theorem submitted_nodup (cfg : Config) (hfifo : Fifo tr s .add) (hlife : Life tr s) :
    (submitted cfg tr).Nodup := by
  refine List.nodup_iff_count_le_one.mpr fun e => ?_
  have htokens := hlife.tokens_add_le (e := e)
  unfold tokens queuedCount at htokens
  rw [submitted_eq hfifo, List.count_append, List.count_append]
  have hfinalized := count_submissions_le cfg (finalized tr) e
  have hdraining := count_submissions_le cfg (draining s.stack) e
  have hpending := count_submissions_le cfg (s.epoll.eventsPending .add) e
  omega

/-- A handler that has been called was attached, since its add element was queued. -/
theorem attached_of_called (h : Called cfg tr s) (hlife : Life tr s) {e : EventId}
    (he : e ∈ called cfg tr ∨ e ∈ calling cfg s.stack) : (s.handlers e).attached = true := by
  have hmem : e ∈ submissions cfg (finalized tr) := by
    rw [h.called]
    exact List.mem_append.mpr he
  refine hlife.attached_of_tokens ?_
  have hcount := List.count_pos_iff.mpr (mem_submissions.mp hmem).1
  unfold tokens
  omega

/-- A handler is called but once. -/
theorem not_called_of_calling (h : Called cfg tr s) (hfifo : Fifo tr s .add) (hlife : Life tr s)
    {e : EventId} (he : e ∈ calling cfg s.stack) : e ∉ called cfg tr := by
  have hnodup : (called cfg tr ++ calling cfg s.stack).Nodup := by
    rw [← h.called]
    have hall := submitted_nodup cfg hfifo hlife
    rw [submitted_eq hfifo, List.append_assoc] at hall
    exact (List.nodup_append.mp hall).1
  intro hmem
  exact (List.nodup_append.mp hnodup).2.2 e hmem e he rfl

/-! ### Closed events -/

theorem attached_of_closeFlag (hlife : Life tr s) {e : EventId}
    (h : (s.handlers e).closeFlag ≠ .clear) : (s.handlers e).attached = true := by
  cases hlife.closing e with
  | «open» hclear => exact absurd hclear h
  | erasing _ _ hatt | pushing _ _ hatt | queued _ hatt => exact hatt

theorem closed_of_pushing (hlife : Life tr s) {a : Agent} {e : EventId}
    (h : s.calls.lookup a = some (.pushing (.remove e))) :
    (s.handlers e).attached = true ∧ e ∉ s.events := by
  cases hlife.closing e with
  | pushing _ _ hatt hev => exact ⟨hatt, hev⟩
  | «open» _ _ _ hno | erasing _ _ _ _ _ hno | queued _ _ _ _ hno => exact absurd h (hno a)

theorem attached_of_signalling (hlife : Life tr s) {a : Agent} {e : EventId}
    (h : s.calls.lookup a = some (.signalling (.remove e))) : (s.handlers e).attached = true := by
  cases hlife.closing e with
  | «open» _ _ _ _ hno => exact absurd h (hno a)
  | erasing _ _ hatt | pushing _ _ hatt | queued _ hatt => exact hatt

/-- Once `Event::Close` has run, the event is out of the table. -/
structure Erased (s : EventLoop) : Prop where
  done : ∀ e, (s.handlers e).closeFlag = .done → e ∉ s.events
  signalling : ∀ a e, s.calls.lookup a = some (.signalling (.remove e)) → e ∉ s.events

/-- `Close` is done when its last step, the push of the remove element or the signal after it,
is. -/
theorem closeFlag_of_move (hmove : Move cfg s l s' o) {e : EventId}
    (h : (s'.handlers e).closeFlag = .done) : (s.handlers e).closeFlag = .done ∨
      ∃ a, s.calls.lookup a = some (.pushing (.remove e)) ∨
        s.calls.lookup a = some (.signalling (.remove e)) := by
  have hset : ∀ e' (handler : EventHandler), s'.handlers = Function.update s.handlers e' handler →
      (handler.closeFlag = (s.handlers e').closeFlag ∨ handler.closeFlag = .active) →
      (s.handlers e).closeFlag = .done := by
    intro e' handler heq hflag
    rw [heq, Function.update_apply] at h
    split at h
    · rename_i he
      rcases hflag with hsame | hactive
      · rw [he, ← hsame]
        exact h
      · rw [hactive] at h
        exact absurd h (by simp)
    · exact h
  cases hmove with
  | call _ _ hquiet _ => exact .inl (hquiet.closeFlag e ▸ h)
  | light _ _ _ _ hquiet _ _ _ => exact .inl (hquiet.closeFlag e ▸ h)
  | created _ _ _ => exact .inl (hset _ _ rfl (.inl rfl))
  | closeBegins _ _ => exact .inl (hset _ _ rfl (.inr rfl))
  | expire => exact .inl (hset _ _ rfl (.inl rfl))
  | @pushed a element hp _ =>
      rcases closeFlag_push s a element e with hsame | ⟨rfl, -⟩
      · exact .inl (hsame ▸ h)
      · exact .inr ⟨a, .inl hp⟩
  | @signalled a element hp =>
      rw [handlers_complete] at h
      split at h
      · rename_i heq
        subst heq
        exact .inr ⟨a, .inr hp⟩
      · exact .inl h
  | finalized _ _ hrun _ =>
      dsimp only at h
      rw [(finalizeElement_spec hrun).2.1] at h
      exact .inl h
  | _ => exact .inl h

/-- **One step keeps `Erased`.** The event leaves the table before the remove element is pushed,
and enters it only when it is created. -/
theorem erased_step (h : Erased s) (hlife : Life tr s) (hmove : Move cfg s l s' o) :
    Erased s' := by
  have hstays : ∀ e, (s.handlers e).attached = true → e ∉ s.events → e ∉ s'.events := by
    intro e hatt hev hin
    rcases events_of_move hmove hin with hin | hno
    · exact hev hin
    · rw [hatt] at hno
      exact absurd hno (by simp)
  refine ⟨fun e hdone => ?_, fun a e ha => ?_⟩
  · rcases closeFlag_of_move hmove hdone with hdone | ⟨a, ha | ha⟩
    · exact hstays e (attached_of_closeFlag hlife (by simp [hdone])) (h.done e hdone)
    · exact hstays e (closed_of_pushing hlife ha).1 (closed_of_pushing hlife ha).2
    · exact hstays e (attached_of_signalling hlife ha) (h.signalling a e ha)
  · rcases call_of_move hmove ha with ha | hnew
    · exact hstays e (attached_of_signalling hlife ha) (h.signalling a e ha)
    · cases hnew with
      | starts _ hstarts => cases hstarts
      | signalling ha =>
          exact hstays e (closed_of_pushing hlife ha).1 (closed_of_pushing hlife ha).2

theorem erased_of_run {ok : LoopLabel → EventLoop → Prop}
    (h : GuardedRun (loopSystem cfg) ok init tr s) (hc : s.crashed = none) : Erased s :=
  invariant_of_run (I := fun _ s => Erased s)
    ⟨fun e h => absurd h (by simp [init]), fun a e h => absurd h (by simp [init])⟩
    (fun hrun hc₁ ih _ hmove => erased_step ih (life_of_run hrun hc₁) hmove) h hc

/-! ### The end of a call -/

/-- The event of the handler that is being called is out of the table, or on its way. -/
def Ends (s : EventLoop) (e : EventId) : Prop :=
  .closeEvent e ∈ s.stack ∨ s.calls.lookup .loop = some (.closing e) ∨
    s.calls.lookup .loop = some (.erasing e) ∨ e ∉ s.events

/-- Once its `HandleEvents` has come to the end, an event stays on its way out of the table. -/
theorem ends_step {e : EventId} (h : Ends s e) (hatt : (s.handlers e).attached = true)
    (hlife : Life tr s) (herased : Erased s) (hs : step cfg l s = some (s', o))
    (hc : s'.crashed = none) : Ends s' e := by
  have hmove := move_of_step hs hc
  have hstays : e ∉ s.events → Ends s' e := fun hev => by
    refine .inr (.inr (.inr fun hin => ?_))
    rcases events_of_move hmove hin with hin | hno
    · exact hev hin
    · rw [hatt] at hno
      exact absurd hno (by simp)
  rcases h with hframe | hclosing | herasing | hev
  · rcases frame_stays hmove hframe with hframe | ⟨i, rest, rfl, hstack, -⟩
    · exact .inl hframe
    · -- the frame is run: `Event::Close` is called
      obtain ⟨-, -, n, hrun, rfl, -⟩ := step_loop hs hstack
      refine .inr (.inl ?_)
      cases i <;> simp only [runFrame, reduceCtorEq] at hrun
      obtain rfl := Option.some.inj hrun
      simp [resume, closeEvent, hatt]
  · rcases call_stays hmove hclosing with hclosing | rfl
    · exact .inr (.inl hclosing)
    · cases hmove with
      | closeBegins hp _ =>
          obtain rfl := Progress.closing.inj (Option.some.inj (hp.symm.trans hclosing))
          exact .inr (.inr (.inl (by simp)))
      | closeReturns hp hdone =>
          obtain rfl := Progress.closing.inj (Option.some.inj (hp.symm.trans hclosing))
          exact hstays (herased.done _ hdone)
      | attachRefused hp _ | created hp _ _ | pushed hp _ | signalled hp | woken hp
      | erased hp _ => exact absurd (hp.symm.trans hclosing) (by simp)
  · rcases call_stays hmove herasing with herasing | rfl
    · exact .inr (.inr (.inl herasing))
    · cases hmove with
      | erased hp _ =>
          obtain rfl := Progress.erasing.inj (Option.some.inj (hp.symm.trans herasing))
          exact .inr (.inr (.inr (hlife.nodup.not_mem_erase)))
      | closeBegins hp _ | closeReturns hp _ | attachRefused hp _ | created hp _ _ | pushed hp _
      | signalled hp | woken hp => exact absurd (hp.symm.trans herasing) (by simp)
  · exact hstays hev

/-- `ExecuteHandler::HandleEvents`: the function if there is still an instance, then the end. -/
theorem handleEvents_of_executes {i : LoopInput} {e : EventId} {events : Events}
    {rest : List LoopFrame} (hex : cfg.executes e = true)
    (hstack : s.stack = .handleEvents e events :: rest)
    (hs : step cfg (.loop i) s = some (s', o)) :
    s'.internalEventHandlers = s.internalEventHandlers ∧ .closeEvent e ∈ s'.stack ∧
      .removeInternal e ∈ s'.stack ∧ .handleEvents e events ∈ o ∧
      ((s.handlers e).instanceAlive = true → .func e ∈ o) := by
  obtain ⟨-, -, n, hrun, rfl, rfl⟩ := step_loop hs hstack
  have hclass := Config.executes_iff.mp hex
  cases i <;> simp only [runFrame, reduceCtorEq] at hrun
  obtain rfl := Option.some.inj hrun
  cases halive : (s.handlers e).instanceAlive <;>
    simp [EventLoop.handleEvents, hclass, halive, resume]

/-- Only `ExecuteHandler::HandleEvents` starts a `RemoveInternal`. -/
theorem removeInternal_of_runFrame {rest : List LoopFrame} {i : LoopInput} {f : LoopFrame}
    {n : LoopNext} (hlight : f.light = true) (h : s.runFrame cfg rest i f = some n) {e : EventId}
    (hf : .removeInternal e ∈ n.frames) :
    ∃ events, f = .handleEvents e events ∧ cfg.executes e = true := by
  cases lightRun hlight h with
  | execute hclass _ | executeDead hclass _ =>
      have he := hf
      simp only [List.mem_cons, LoopFrame.removeInternal.injEq, reduceCtorEq, List.not_mem_nil,
        or_false, false_or] at he
      subst he
      exact ⟨_, rfl, Config.executes_iff.mpr hclass⟩
  | _ => simp at hf

/-- A handler is taken out by its own `HandleEvents` only. -/
theorem removeInternal_of_move (hmove : Move cfg s l s' o) {e : EventId}
    (h : .removeInternal e ∈ s'.stack) : .removeInternal e ∈ s.stack ∨
      ∃ i events rest, l = .loop i ∧ s.stack = .handleEvents e events :: rest ∧
        cfg.executes e = true := by
  cases hmove with
  | call _ _ hquiet _ => exact .inl (hquiet.stack ▸ h)
  | pushed _ _ => exact .inl (by rwa [push_stack] at h)
  | signalled _ => exact .inl (by rwa [complete_stack] at h)
  | @light i f rest n hstack _ hlight hrun _ _ _ _ =>
      rcases List.mem_append.mp h with hf | hf
      · obtain ⟨events, rfl, hex⟩ := removeInternal_of_runFrame hlight hrun hf
        exact .inr ⟨i, events, rest, rfl, hstack, hex⟩
      · exact .inl (by rw [hstack]; exact List.mem_cons_of_mem _ hf)
  | @wait poll final rest hstack _ =>
      refine .inl ?_
      rw [hstack]
      dsimp only at h
      split at h <;> simpa using h
  | @notification n ns final rest hstack _ =>
      refine .inl ?_
      rw [hstack]
      dsimp only at h
      rcases processNotification_spec s n with ⟨-, heq⟩ | ⟨-, heq | ⟨fd, e', events, -, heq⟩⟩ <;>
        rw [heq] at h <;> simpa using h
  | drained hstack _ | swapped hstack _ _ =>
      refine .inl ?_
      rw [hstack]
      simpa using h
  | finalized hstack _ hrun _ =>
      refine .inl ?_
      rw [hstack]
      obtain ⟨-, -, heq | ⟨events, heq⟩, -⟩ := finalizeElement_spec hrun <;>
        rw [heq] at h <;> simpa using h
  | _ => exact .inl h

/-! ### The whole run -/

/-- Where the `ExecuteHandler`s that have been attached are. -/
structure Execution (cfg : Config) (tr : List LoopObs) (s : EventLoop) : Prop where
  waiting : Waiting cfg tr s
  removing : ∀ e, .removeInternal e ∈ s.stack →
    e ∈ called cfg tr ∧ e ∈ s.internalEventHandlers ∧ Ends s e
  removed : ∀ e ∈ called cfg tr,
    .removeInternal e ∈ s.stack ∨ (e ∉ s.internalEventHandlers ∧ e ∉ s.events)

theorem execution_init (cfg : Config) : Execution cfg [] init where
  waiting e _ h := absurd h (by simp [init])
  removing e h := absurd h (by simp [init])
  removed e h := absurd h List.not_mem_nil

/-- Only `RemoveInternal` itself is left to run below a frame that runs it. -/
theorem shape_of_removing {e : EventId} {rest : List LoopFrame}
    (hcall : HandlerCall cfg (callFrames s.stack)) (hstack : s.stack = .removeInternal e :: rest) :
    (∀ e', .removeInternal e' ∉ rest) ∧ ∀ e', .closeEvent e' ∉ s.stack := by
  rw [hstack, callFrames_cons rfl] at hcall
  have hmem : ∀ f : LoopFrame, f.level = 3 → f ∈ rest → f ∈ callFrames rest :=
    fun f hf hin => mem_callFrames.mpr ⟨hin, hf⟩
  generalize callFrames rest = below at hcall hmem
  cases hcall with
  | remove _ =>
      refine ⟨fun e' hin => ?_, fun e' hin => ?_⟩
      · simpa using hmem _ rfl hin
      · rw [hstack] at hin
        rcases List.mem_cons.mp hin with heq | hin
        · exact absurd heq (by simp)
        · simpa using hmem _ rfl hin

/-- `RemoveInternal` takes the handler out of the set. -/
theorem internal_of_removing {i : LoopInput} {e : EventId} {rest : List LoopFrame}
    (hstack : s.stack = .removeInternal e :: rest) (hin : e ∈ s.internalEventHandlers)
    (hs : step cfg (.loop i) s = some (s', o)) :
    s'.internalEventHandlers = s.internalEventHandlers.erase e ∧ s'.events = s.events := by
  obtain ⟨-, -, n, hrun, rfl, -⟩ := step_loop hs hstack
  cases i <;> simp only [runFrame, reduceCtorEq] at hrun
  obtain rfl := Option.some.inj hrun
  simp [removeInternal, hin, resume]

/-- A handler that a step adds to those called is the one whose `HandleEvents` was the next to
run. -/
theorem called_of_append {e : EventId} (hs : step cfg l s = some (s', o))
    (he : e ∈ called cfg (tr ++ o)) (hno : e ∉ called cfg tr) :
    cfg.executes e = true ∧ ∃ i events rest, l = .loop i ∧
      s.stack = .handleEvents e events :: rest := by
  rw [called_append] at he
  rcases List.mem_append.mp he with he | he
  · exact absurd he hno
  · obtain ⟨hex, events, hx⟩ := mem_called.mp he
    cases shown_of_step hs hx rfl with
    | @handleEvents i _ _ rest hstack _ => exact ⟨hex, i, events, rest, rfl, hstack⟩

/-- **One step keeps `Execution`.** A handler is waiting until it is called, removing until its
`RemoveInternal` has run, and removed from then on. -/
theorem execution_step (h : Execution cfg tr s) (hcalled : Called cfg tr s) (hfifo : Fifo tr s .add)
    (hlife : Life tr s) (herased : Erased s) (hkept : Kept cfg s)
    (hcall : HandlerCall cfg (callFrames s.stack)) (hs : step cfg l s = some (s', o))
    (hc : s'.crashed = none) : Execution cfg (tr ++ o) s' := by
  have hmove := move_of_step hs hc
  have hmono : ∀ e, e ∈ called cfg tr → e ∈ called cfg (tr ++ o) := fun e he => by
    rw [called_append]
    exact List.mem_append_left _ he
  have hatt : ∀ e, e ∈ called cfg tr → (s.handlers e).attached = true := fun e he =>
    attached_of_called hcalled hlife (.inl he)
  refine ⟨fun e hex hatt' hno => ?_, fun e hframe => ?_, fun e he => ?_⟩
  · have hno : e ∉ called cfg tr := fun he => hno (hmono e he)
    have hbefore : e ∈ s.internalEventHandlers := by
      rcases attached_of_move hmove hatt' with hatt' | ⟨b, hb, -⟩
      · exact h.waiting e hex hatt' hno
      · exact (hkept.attaching b e hb (Config.internal_of_executes hex)).1
    cases internalMove_of_move hmove hc with
    | same hint _ => exact hint ▸ hbefore
    | attached _ _ _ _ _ heq => rw [heq]; exact List.mem_cons_of_mem _ hbefore
    | @removed e₀ rest hstack _ heq =>
        have hne : e ≠ e₀ := fun heq => hno (heq ▸ (h.removing e₀ (by simp [hstack])).1)
        rw [heq]
        exact (List.mem_erase_of_ne hne).mpr hbefore
  · rcases removeInternal_of_move hmove hframe with hold | ⟨i, events, rest, rfl, hstack, hex⟩
    · obtain ⟨hmem, hin, hends⟩ := h.removing e hold
      refine ⟨hmono e hmem, ?_, ends_step hends (hatt e hmem) hlife herased hs hc⟩
      cases internalMove_of_move hmove hc with
      | same hint _ => exact hint ▸ hin
      | attached _ _ _ _ _ heq => rw [heq]; exact List.mem_cons_of_mem _ hin
      | removed hstack _ heq =>
          rw [heq] at hframe
          exact absurd hframe ((shape_of_removing hcall hstack).1 e)
    · -- the call of `HandleEvents` is the first, so the handler has been kept until now
      obtain ⟨hint, hclose, -, hshown, -⟩ := handleEvents_of_executes hex hstack hs
      have hcalling : e ∈ calling cfg s.stack :=
        mem_calling.mpr ⟨hex, events, by rw [hstack]; exact List.mem_cons_self⟩
      refine ⟨?_, ?_, .inl hclose⟩
      · rw [called_append]
        exact List.mem_append_right _ (mem_called.mpr ⟨hex, events, hshown⟩)
      · rw [hint]
        exact h.waiting e hex (attached_of_called hcalled hlife (.inr hcalling))
          (not_called_of_calling hcalled hfifo hlife hcalling)
  · by_cases hold : e ∈ called cfg tr
    · rcases h.removed e hold with hframe | ⟨hint, hev⟩
      · rcases frame_stays hmove hframe with hframe | ⟨i, rest, rfl, hstack, hidle⟩
        · exact .inl hframe
        · obtain ⟨-, hin, hends⟩ := h.removing e hframe
          obtain ⟨hint, hevents⟩ := internal_of_removing hstack hin hs
          refine .inr ⟨by rw [hint]; exact hkept.nodup.not_mem_erase, ?_⟩
          rw [hevents]
          rcases hends with hclose | hclosing | herasing | hev
          · exact absurd hclose ((shape_of_removing hcall hstack).2 e)
          · rw [hidle] at hclosing
            exact absurd hclosing (by simp)
          · rw [hidle] at herasing
            exact absurd herasing (by simp)
          · exact hev
      · refine .inr ⟨?_, fun hin => ?_⟩
        · cases internalMove_of_move hmove hc with
          | same hsame _ => exact hsame ▸ hint
          | @attached a e₀ _ _ hno _ _ heq =>
              have hne : e ≠ e₀ := fun heq => by
                rw [← heq, hatt e hold] at hno
                exact absurd hno (by simp)
              rw [heq]
              exact fun hin => (List.mem_cons.mp hin).elim hne hint
          | removed _ _ heq => rw [heq]; exact fun hin => hint (List.mem_of_mem_erase hin)
        · rcases events_of_move hmove hin with hin | hno
          · exact hev hin
          · rw [hatt e hold] at hno
            exact absurd hno (by simp)
    · obtain ⟨hex, i, events, rest, rfl, hstack⟩ := called_of_append hs he hold
      exact .inl (handleEvents_of_executes hex hstack hs).2.2.1

/-- The handlers that are about to be called for the first time are alive. -/
theorem alive_of_draining (h : Waiting cfg tr s) (hcalled : Called cfg tr s)
    (hfifo : Fifo tr s .add) (hlife : Life tr s) (hkept : Kept cfg s) {e : EventId}
    (hex : cfg.executes e = true) (hdrain : .add e ∈ draining s.stack) :
    (s.handlers e).alive = true := by
  have htokens : 0 < tokens tr s (.add e) := by
    have hcount := List.count_pos_iff.mpr hdrain
    unfold tokens
    omega
  refine hkept.alive e (h e hex (hlife.attached_of_tokens htokens) fun he => ?_)
  have hsub : e ∈ submissions cfg (draining s.stack) := mem_submissions.mpr ⟨hdrain, hex⟩
  have hnodup := submitted_nodup cfg hfifo hlife
  rw [submitted_eq hfifo, hcalled.called, List.nodup_append, List.nodup_append] at hnodup
  exact hnodup.1.2.2 e (List.mem_append_left _ he) e hsub rfl

/-- Both invariants hold in every state that a run reaches without a crash. -/
theorem execution_of_run {ok : LoopLabel → EventLoop → Prop}
    (h : GuardedRun (loopSystem cfg) ok init tr s) (hc : s.crashed = none) :
    Called cfg tr s ∧ Execution cfg tr s := by
  refine (h.invariant (I := fun tr s => s.crashed = none → Called cfg tr s ∧ Execution cfg tr s)
    (fun _ => ⟨⟨rfl, List.Sublist.refl _⟩, execution_init cfg⟩) ?_) hc
  intro tr s l s' o hrun ih _ hs hc'
  have hs : step cfg l s = some (s', o) := hs
  have hc₁ := not_crashed_of_step hs
  obtain ⟨hcalled, hexec⟩ := ih hc₁
  have hfifo := fifo_of_run hrun hc₁ .add
  have hlife := life_of_run hrun hc₁
  have hkept := kept_of_run hrun hc₁
  have hcall := handlerCall_of_run hrun hc₁
  refine ⟨called_step hcalled (owned_of_run hrun hc₁) (layered_of_run hrun) hcall
    (fun e hex hdrain => alive_of_draining hexec.waiting hcalled hfifo hlife hkept hex hdrain) hs
      hc',
    execution_step hexec hcalled hfifo hlife (erased_of_run hrun hc₁) hkept hcall hs hc'⟩

/-! ### Crashes -/

/-- The thread of the loop queues its elements as the other threads do, in calls. -/
theorem queued_of_runFrame {rest : List LoopFrame} {i : LoopInput} {f : LoopFrame} {n : LoopNext}
    (h : s.runFrame cfg rest i f = some n) : queuedElements n.obs = [] := by
  cases frameRun h with
  | light hlight _ => exact queuedElements_minor (runFrame_light hlight h).1
  | finalize hn' =>
      obtain ⟨-, -, -, obs, hobs, hminor⟩ := finalizeElement_spec hn'
      dsimp only
      rw [hobs]
      show queuedElements obs = []
      exact queuedElements_minor hminor
  | _ => rfl

/-- A transition that ends in an exception queues nothing and calls no function. -/
theorem silent_of_crash (hs : step cfg l s = some (s', o)) {ex : Exception}
    (hcrash : s'.crashed = some ex) : queuedElements o = [] ∧ invoked cfg o = [] := by
  cases (crash_of_step hs hcrash).2 with
  | modify hminor =>
      exact ⟨queuedElements_minor hminor, (called_of_step hs fun i hi => absurd hi (by simp)).2⟩
  | erase => exact ⟨rfl, rfl⟩
  | @loop i f rest n _ hstack hrun hthrew =>
      refine ⟨queued_of_runFrame hrun, List.filterMap_eq_nil_iff.mpr fun x hx => ?_⟩
      cases x with
      | func e =>
          -- neither `HandleEvents` nor the loop of a timer throws
          cases shown_of_step hs hx rfl with
          | @execute _ _ events _ hstack' _ _ _ =>
              obtain rfl := (List.cons.inj (hstack.symm.trans hstack')).1
              cases lightRun rfl hrun <;> exact absurd hthrew (by simp)
          | @timer _ _ k _ hstack' _ =>
              obtain rfl := (List.cons.inj (hstack.symm.trans hstack')).1
              cases lightRun rfl hrun
              exact absurd hthrew (by simp)
      | _ => rfl

/-- The order of the functions, in crashed states too. -/
theorem invoked_of_run (h : Run (loopSystem cfg) init tr s) :
    (invoked cfg tr).Sublist (submitted cfg tr) ∧ (submitted cfg tr).Nodup := by
  have halive : ∀ {tr : List LoopObs} {s : EventLoop}, Run (loopSystem cfg) init tr s →
      s.crashed = none → (invoked cfg tr).Sublist (submitted cfg tr) ∧
        (submitted cfg tr).Nodup := by
    intro tr s hrun hc
    have hfifo := fifo_of_run hrun hc .add
    have hcalled := (execution_of_run hrun hc).1
    refine ⟨?_, submitted_nodup cfg hfifo (life_of_run hrun hc)⟩
    rw [submitted_eq hfifo, hcalled.called, List.append_assoc, List.append_assoc]
    exact hcalled.invoked.trans (List.sublist_append_left _ _)
  cases h with
  | refl => exact ⟨List.Sublist.refl _, List.nodup_nil⟩
  | @step tr₁ s₁ l _ o hrun _ hs =>
      have hs : step cfg l s₁ = some (s, o) := hs
      cases hc : s.crashed with
      | none => exact halive (hrun.step trivial hs) hc
      | some ex =>
          obtain ⟨hqueued, hinvoked⟩ := silent_of_crash hs hc
          have hsub : submitted cfg (tr₁ ++ o) = submitted cfg tr₁ := by
            unfold submitted
            rw [queuedElements_append, hqueued, List.append_nil]
          rw [invoked_append, hinvoked, List.append_nil, hsub]
          exact halive hrun (not_crashed_of_step hs)

/-- `RemoveInternal` finds its handler in the set, so the exception it would throw otherwise is
never the one that ends the loop. -/
theorem not_crashed_notInternal (h : Run (loopSystem cfg) init tr s) :
    s.crashed ≠ some (.text "event handler found") := by
  intro hcrash
  cases h with
  | refl => exact absurd hcrash (by simp [init])
  | @step tr₁ s₁ l _ o hrun _ hs =>
      have hs : step cfg l s₁ = some (s, o) := hs
      have hcrashed := (crash_of_step hs hcrash).2
      generalize heq : Exception.text "event handler found" = ex at hcrashed
      cases hcrashed with
      | modify _ => exact absurd heq (by simp)
      | erase _ _ => exact absurd heq (by simp)
      | @loop i f rest n _ hstack hrun' hthrew =>
          cases throws_of_runFrame hrun' hthrew with
          | system => exact absurd heq (by simp)
          | notFound _ _ => exact absurd heq (by simp)
          | @notInternal e hno =>
              have hexec := (execution_of_run hrun (not_crashed_of_step hs)).2
              exact hno (hexec.removing e (by rw [hstack]; exact List.mem_cons_self)).2.1

/-! ### Program order -/

/-- What becomes of a call of `ExecuteOnce`. -/
def Submitting (cfg : Config) (a : Agent) (e : EventId) (tr : List LoopObs) (s : EventLoop) :
  Prop :=
  s.calls.lookup a = some (.attaching e) ∨ s.calls.lookup a = some (.pushing (.add e)) ∨
    e ∈ submitted cfg tr

/-- A call of `ExecuteOnce` in progress is attaching, then pushing, then submitted. -/
theorem submitting_step {a : Agent} {e : EventId} (h : Submitting cfg a e tr s)
    (hex : cfg.executes e = true) (hkept : Kept cfg s) (hmove : Move cfg s l s' o) :
    Submitting cfg a e (tr ++ o) s' := by
  rcases h with hatt | hpush | hmem
  · rcases call_stays hmove hatt with hatt | rfl
    · exact .inl hatt
    · cases hmove with
      | attachRefused hp hatt' =>
          obtain rfl := Progress.attaching.inj (Option.some.inj (hp.symm.trans hatt))
          rw [(hkept.attaching a _ hp (Config.internal_of_executes hex)).2.1] at hatt'
          exact absurd hatt' (by simp)
      | created hp _ _ =>
          obtain rfl := Progress.attaching.inj (Option.some.inj (hp.symm.trans hatt))
          exact .inr (.inl (by simp))
      | closeBegins hp _ | closeReturns hp _ | pushed hp _ | signalled hp | woken hp
          | erased hp _ =>
          exact absurd (hp.symm.trans hatt) (by simp)
  · rcases call_stays hmove hpush with hpush | rfl
    · exact .inr (.inl hpush)
    · cases hmove with
      | pushed hp _ =>
          obtain rfl := Progress.pushing.inj (Option.some.inj (hp.symm.trans hpush))
          refine .inr (.inr ?_)
          unfold submitted
          rw [queuedElements_append, submissions_append]
          exact List.mem_append_right _ (mem_submissions.mpr ⟨List.mem_cons_self, hex⟩)
      | attachRefused hp _ | created hp _ _ | closeBegins hp _ | closeReturns hp _ | signalled hp
      | woken hp | erased hp _ => exact absurd (hp.symm.trans hpush) (by simp)
  · refine .inr (.inr ?_)
    unfold submitted at hmem ⊢
    rw [queuedElements_append, submissions_append]
    exact List.mem_append_left _ hmem

/-- When `ExecuteOnce` has returned, its function has been queued. -/
theorem submitted_of_returned {a : Agent} {e : EventId} {tr₁ tr₂ o₁ : List LoopObs}
    {s₁ s₂ : EventLoop} (hex : cfg.executes e = true) (h₁ : Run (loopSystem cfg) init tr₁ s₁)
    (hcall : step cfg (.call a (.attachInternal e)) s₁ = some (s₂, o₁))
    (h₂ : Run (loopSystem cfg) s₂ tr₂ s) (hc : s.crashed = none)
    (hidle : s.calls.lookup a = none) : e ∈ submitted cfg (tr₁ ++ o₁ ++ tr₂) := by
  have hstep : (loopSystem cfg).step (.call a (.attachInternal e)) s₁ = some (s₂, o₁) := hcall
  have hrun₂ : Run (loopSystem cfg) init (tr₁ ++ o₁) s₂ := h₁.step trivial hstep
  have hsub : Submitting cfg a e (tr₁ ++ o₁ ++ tr₂) s := by
    refine (h₂.invariant (I := fun tr s => s.crashed = none →
      Submitting cfg a e (tr₁ ++ o₁ ++ tr) s)
      ?_ ?_) hc
    · intro hc₂
      cases move_of_step hcall hc₂ with
      | call _ hreq _ _ =>
          refine .inl ?_
          simp only [request] at hreq
          split at hreq
          · obtain ⟨rfl, -⟩ := Prod.mk.inj (Option.some.inj hreq)
            simp
          · exact absurd hreq (by simp)
    · intro tr s l s' o hrun ih _ hs hc'
      have hs : step cfg l s = some (s', o) := hs
      have hc₁ := not_crashed_of_step hs
      rw [← List.append_assoc]
      exact submitting_step (ih hc₁) hex (kept_of_run (hrun₂.trans hrun) hc₁) (move_of_step hs hc')
  rcases hsub with hatt | hpush | hmem
  · rw [hidle] at hatt
    exact absurd hatt (by simp)
  · rw [hidle] at hpush
    exact absurd hpush (by simp)
  · exact hmem

end

/-- **`ExecuteOnce` runs exactly once, in order.** The functions that have been called are
among those queued, none queued twice, in the order of the queue; a call of `ExecuteOnce`
that has returned has queued its function. What has been queued has been handed to
`AddFinalize`, is in a batch of `HandleElements` that has not got to it, or waits in the queue,
in this order. Of every add element that has been handed over, `HandleEvents` is called next or
has been called, with the function where the instance is alive, and has then left neither the
handler nor its event behind. `RemoveInternal` never throws. -/
theorem execute_once (cfg : Config) {tr : List LoopObs} {s : EventLoop}
    (h : Run (loopSystem cfg) init tr s) :
    (invoked cfg tr).Sublist (submitted cfg tr) ∧ (submitted cfg tr).Nodup ∧
    (∀ a e tr₁ s₁ o₁ s₂ tr₂, cfg.executes e = true → Run (loopSystem cfg) init tr₁ s₁ →
      (loopSystem cfg).step (.call a (.attachInternal e)) s₁ = some (s₂, o₁) →
      Run (loopSystem cfg) s₂ tr₂ s → tr₁ ++ o₁ ++ tr₂ = tr → s.crashed = none →
      s.calls.lookup a = none → e ∈ submitted cfg tr) ∧
    (s.crashed = none → submitted cfg tr = submissions cfg (finalized tr) ++
      submissions cfg (draining s.stack) ++ submissions cfg (s.epoll.eventsPending .add)) ∧
    (∀ e, cfg.executes e = true → .add e ∈ finalized tr → s.crashed = none →
      (∃ events, .handleEvents e events ∈ s.stack) ∨ e ∈ called cfg tr ∧
        (.removeInternal e ∈ s.stack ∨ e ∉ s.internalEventHandlers ∧ e ∉ s.events)) ∧
    (∀ e events l s' o, cfg.executes e = true → (loopSystem cfg).step l s = some (s', o) →
      .handleEvents e events ∈ o → (s.handlers e).instanceAlive = true → .func e ∈ o) ∧
    s.crashed ≠ some (.text "event handler found") := by
  obtain ⟨horder, honce⟩ := invoked_of_run h
  refine ⟨horder, honce, ?_, ?_, ?_, ?_, not_crashed_notInternal h⟩
  · rintro a e tr₁ s₁ o₁ s₂ tr₂ hex h₁ hcall h₂ rfl hc hidle
    exact submitted_of_returned hex h₁ hcall h₂ hc hidle
  · intro hc
    exact submitted_eq (fifo_of_run h hc .add)
  · intro e hex hadd hc
    obtain ⟨hcalled, hexec⟩ := execution_of_run h hc
    have hmem : e ∈ submissions cfg (finalized tr) := mem_submissions.mpr ⟨hadd, hex⟩
    rw [hcalled.called] at hmem
    rcases List.mem_append.mp hmem with hmem | hmem
    · exact .inr ⟨hmem, hexec.removed e hmem⟩
    · exact .inl (mem_calling.mp hmem).2
  · intro e events l s' o hex hs hx halive
    have hs : step cfg l s = some (s', o) := hs
    cases shown_of_step hs hx rfl with
    | handleEvents hstack _ => exact (handleEvents_of_executes hex hstack hs).2.2.2.2 halive

/-- Handlers of `ExecuteOnce` only. -/
def executeHandlers : Config :=
  { handler := fun _ => .executeHandler, intervalOccurrencesLimit := 10 }

/-- Two threads call `ExecuteOnce`, and the first function is run to its end. -/
def executedFirst : List LoopLabel :=
  [.call (.user 0) (.attachInternal 0), .proceed (.user 0), .proceed (.user 0), .proceed (.user 0),
    .call (.user 1) (.attachInternal 1), .proceed (.user 1), .proceed (.user 1),
    .loop .none, .loop (.wait fun _ _ => none), .loop .none, .loop .none, .loop .none, .loop .none,
    .loop .none, .loop .none, .loop .none, .loop .none, .proceed .loop, .proceed .loop,
    .proceed .loop, .proceed .loop, .loop .none, .loop (.release true)]

/-- The first of the two functions has been called, and its handler is gone. -/
theorem execute_once_executedFirst :
    0 ∈ invoked executeHandlers (after executeHandlers executedFirst).2 ∧
      0 ∈ called executeHandlers (after executeHandlers executedFirst).2 ∧
      0 ∉ (after executeHandlers executedFirst).1.internalEventHandlers ∧
      0 ∉ (after executeHandlers executedFirst).1.events := by
  have hinvoked : invoked executeHandlers (after executeHandlers executedFirst).2 = [0] := rfl
  have hadd : .add 0 ∈ finalized (after executeHandlers executedFirst).2 := by
    rw [show finalized (after executeHandlers executedFirst).2 = [.add 0] from rfl]
    exact List.mem_singleton_self _
  have hstack : (after executeHandlers executedFirst).1.stack =
      [.finalize [.add 1], .dispose [.add 0, .add 1], .handleElements .remove,
        .handleElements .ready, .batch [] false] := rfl
  obtain ⟨-, -, -, -, hserved, -⟩ := execute_once executeHandlers (run_after executedFirst rfl)
  have hserved := hserved 0 rfl hadd rfl
  rw [hstack] at hserved
  refine ⟨hinvoked ▸ List.mem_singleton_self 0, ?_⟩
  rcases hserved with ⟨events, hframe⟩ | ⟨hcalled, hframe | hgone⟩
  · simp at hframe
  · simp at hframe
  · exact ⟨hcalled, hgone⟩

end EventLoop

end Libael
