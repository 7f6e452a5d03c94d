import Libael.EventLoop.Signals

/-!
# Libael.EventLoop.Hosted

An event loop **together with the code of one of its handlers**. For the loop alone a
handler of the user is a black box that may call the library at any time. Here the handler
of the event `e` is a machine of its own, and the two meet where the source makes them meet:

* the loop calls `HandleEvents`, and goes on when that call has returned;
* the handler calls `ReadyEvent`, `ModifyEvent` and `CloseEvent`, and nobody else does;
* `GetEvents` answers what the handler wants to hear of, and the kernel reports it.

The kernel is edge triggered. It queues the descriptor when there is news about it, and
again with every `EPOLL_CTL_ADD` and `EPOLL_CTL_MOD`, if there is something to report; and
it reports what there is when `epoll_wait` polls the descriptor.
-/

namespace Libael

open Lts

/-- What a handler inherits from `EventHandler` for its own use. -/
inductive EventCall
  | readyEvent (events : Events)
  | modifyEvent
  | closeEvent
  deriving DecidableEq

/-- The request of the loop that such a call is. The classes of the library catch nothing. -/
def EventCall.request (e : EventId) (getEvents : Events) (ret : Option Errno) : EventCall → Request
  | .readyEvent events => .readyEvent e events
  | .modifyEvent => .modifyEvent e getEvents ret false
  | .closeEvent => .closeEvent e

/-- Who takes a step of the code of a handler. -/
inductive Actor
  /-- the call of `HandleEvents`, with these events if the class looks at them -/
  | entry (events : Option Events)
  /-- the thread of the loop inside `HandleEvents` -/
  | body
  /-- a method of the class, on the thread `a` -/
  | method (a : Agent)
  /-- the kernel, with news about the descriptor or without any -/
  | surroundings (news : Bool)
  deriving DecidableEq

/-- The code of a handler class with its part of the kernel, and where it meets the loop. -/
structure HandlerCode (σ ℓ ο : Type) where
  step : ℓ → σ → Option (σ × List ο)
  actor : ℓ → Actor
  /-- `HandleEvents` has not returned -/
  running : σ → Bool
  /-- the thread is not inside the code of the class, but may be in a callback of it -/
  free : σ → Agent → Bool
  /-- an exception has left `HandleEvents` -/
  crashed : σ → Bool
  asks : ο → Option EventCall
  getEvents : σ → Events
  /-- what polling the descriptor reports at least -/
  reports : σ → EPollEvents

/-- An event loop and one of its handlers. -/
structure Hosted (σ : Type) where
  loop : EventLoop
  handler : σ
  /-- the interest last installed for the descriptor -/
  interest : EPollEvents

/-- The transitions of an event loop with one of its handlers. -/
inductive HostedLabel (ℓ : Type)
  /-- a step of the loop in which the handler takes no part -/
  | loop (l : LoopLabel)
  /-- the loop calls `HandleEvents` -/
  | enter (l : ℓ)
  /-- a step of the handler; what `epoll_ctl` returns, if it comes to that -/
  | handler (l : ℓ) (ret : Option Errno)

namespace Hosted

variable {σ ℓ ο : Type}

/-- The loop has just been created, and the handler. -/
def init (handler : σ) : Hosted σ := { loop := .init, handler, interest := 0 }

section

variable (cfg : Config) (code : HandlerCode σ ℓ ο) (e : EventId)

/-! ### The kernel -/

/-- The descriptor is on the interest list. -/
def watched (s : Hosted σ) : Bool :=
  s.loop.crashed.isNone && s.loop.epoll.interest (cfg.handle e) == some e

/-- What there is to report and has been asked for. -/
def pollable (s : Hosted σ) : EPollEvents := code.reports s.handler &&& s.interest

/-- The kernel queues the descriptor, if there is something to report. -/
def report (s : Hosted σ) : Hosted σ :=
  if s.watched cfg e && s.pollable code != 0 then
    { s with
      loop := { s.loop with epoll := s.loop.epoll.queueItem (.descriptor (cfg.handle e) e) } }
  else s

/-- The interest an observation installs for `e`. -/
def installed : LoopObs → Option EPollEvents
  | .ctlAdd e' interest | .ctlMod e' interest none => if e' = e then some interest else none
  | _ => none

/-- `EPOLL_CTL_ADD` and `EPOLL_CTL_MOD`: the interest, and a report on it. -/
def install (o : List LoopObs) (s : Hosted σ) : Hosted σ :=
  match o.findSome? (installed e) with
  | some interest => { s with interest }.report cfg code e
  | none => s

/-- `epoll_wait` reports what there is. -/
def pollsRight (s : Hosted σ) (poll : Fd → EventId → Option EPollEvents) : Bool :=
  !s.watched cfg e || s.pollable code == 0 ||
    match poll (cfg.handle e) e with
    | some events => events &&& s.pollable code == s.pollable code
    | none => false

/-! ### The threads -/

/-- `a` is running code of the user, and `HandleEvents` has not just returned to the loop. -/
def userCode (s : Hosted σ) (a : Agent) : Bool :=
  s.loop.mayCall a &&
    match a, s.loop.stack with
    | .loop, .callback e' :: _ => e' != e || code.running s.handler
    | _, _ => true

/-- The step of the loop leaves the handler alone, and the kernel keeps its word. -/
def allows (s : Hosted σ) : LoopLabel → Bool
  | .call a r =>
    s.userCode code e a && code.free s.handler a &&
      match r with
      | .readyEvent e' _ | .modifyEvent e' _ _ _ | .closeEvent e' => e' != e
      | _ => true
  | .loop i =>
    code.free s.handler .loop && !code.running s.handler &&
      (match s.loop.stack with
        | .handleEvents e' _ :: _ => e' != e
        | .finalize (.add e' :: _) :: _ =>
          e' != e ||
            match i with
            | .ctl asked _ => asked == code.getEvents s.handler
            | _ => true
        | _ => true) &&
      match i with
      | .wait poll => s.pollsRight cfg code e poll
      | _ => true
  | _ => true

/-- A step of the handler on the thread `a`, with what it asks of its event. -/
def act (s : Hosted σ) (a : Agent) (l : ℓ) (ret : Option Errno) :
    Option (Hosted σ × List (LoopObs ⊕ ο)) :=
  (code.step l s.handler).bind fun (handler, o) =>
    match o.filterMap code.asks with
    | [] => some ({ s with handler }, o.map .inr)
    | [call] =>
      (s.loop.step cfg (.call a (call.request e (code.getEvents handler) ret))).map
        fun (loop, o') =>
          ({ s with loop, handler }.install cfg code e o', o.map .inr ++ o'.map .inl)
    | _ => none

/-- One transition of an event loop with one of its handlers. A thread can be inside a
method when the last reference to the handler goes; it does not get any further then. -/
def step (l : HostedLabel ℓ) (s : Hosted σ) : Option (Hosted σ × List (LoopObs ⊕ ο)) :=
  if code.crashed s.handler || s.loop.crashed.isSome then none
  else
    match l with
    | .loop l =>
      if s.allows cfg code e l then
        (s.loop.step cfg l).map fun (loop, o) =>
          ({ s with loop }.install cfg code e o, o.map .inl)
      else none
    | .enter l =>
      match code.actor l, s.loop.stack with
      | .entry wanted, .handleEvents e' events :: _ =>
        if e' = e && wanted.all (· == events) then
          (s.loop.step cfg (.loop .none)).bind fun (loop, o) =>
            (code.step l s.handler).map fun (handler, o') =>
              ({ s with loop, handler }, o.map .inl ++ o'.map .inr)
        else none
      | _, _ => none
    | .handler l ret =>
      match code.actor l with
      | .entry _ => none
      | .body =>
        if code.running s.handler && s.loop.mayCall .loop then s.act cfg code e .loop l ret
        else none
      | .method a =>
        if s.userCode code e a && (s.loop.handlers e).alive then s.act cfg code e a l ret
        else none
      | .surroundings news =>
        (code.step l s.handler).map fun (handler, o) =>
          (if news then { s with handler }.report cfg code e else { s with handler }, o.map .inr)

end

end Hosted

/-- An event loop with the handler of `e`. -/
def hostedSystem {σ ℓ ο : Type} (cfg : Config) (code : HandlerCode σ ℓ ο) (e : EventId) :
    System (Hosted σ) (HostedLabel ℓ) (LoopObs ⊕ ο) := ⟨Hosted.step cfg code e⟩

/-- What the loop shows in a run of both. -/
def loopTrace {ο : Type} (tr : List (LoopObs ⊕ ο)) : List LoopObs := tr.filterMap Sum.getLeft?

/-- What the handler shows in a run of both. -/
def handlerTrace {ο : Type} (tr : List (LoopObs ⊕ ο)) : List ο := tr.filterMap Sum.getRight?

section

variable {ο : Type}

@[simp] theorem loopTrace_append (tr o : List (LoopObs ⊕ ο)) :
    loopTrace (tr ++ o) = loopTrace tr ++ loopTrace o := List.filterMap_append

@[simp] theorem loopTrace_inl (o : List LoopObs) :
    loopTrace (o.map .inl : List (LoopObs ⊕ ο)) = o := by
  simp [loopTrace, List.filterMap_map, Function.comp_def]

@[simp] theorem loopTrace_inr (o : List ο) : loopTrace (o.map .inr) = [] := by
  simp [loopTrace, List.filterMap_map, Function.comp_def]

@[simp] theorem handlerTrace_append (tr o : List (LoopObs ⊕ ο)) :
    handlerTrace (tr ++ o) = handlerTrace tr ++ handlerTrace o := List.filterMap_append

@[simp] theorem handlerTrace_inl (o : List LoopObs) :
    handlerTrace (o.map .inl : List (LoopObs ⊕ ο)) = [] := by
  simp [handlerTrace, List.filterMap_map, Function.comp_def]

@[simp] theorem handlerTrace_inr (o : List ο) : handlerTrace (o.map .inr) = o := by
  simp [handlerTrace, List.filterMap_map, Function.comp_def]

end

namespace Hosted

section

variable {σ ℓ ο : Type} {cfg : Config} {code : HandlerCode σ ℓ ο} {e : EventId}
  {s s' : Hosted σ} {l : HostedLabel ℓ} {o : List (LoopObs ⊕ ο)}

/-! ### Inversion -/

/-- `a` may take a step of the handler. -/
inductive Acts (code : HandlerCode σ ℓ ο) (e : EventId) (s : Hosted σ) : Agent → Actor → Prop
  | body : code.running s.handler = true → s.loop.mayCall .loop = true → Acts code e s .loop .body
  | method {a} : s.userCode code e a = true → (s.loop.handlers e).alive = true →
      Acts code e s a (.method a)

/-- Everything a step can do, guards included. -/
inductive Step (cfg : Config) (code : HandlerCode σ ℓ ο) (e : EventId) (s : Hosted σ) :
    HostedLabel ℓ → Hosted σ → List (LoopObs ⊕ ο) → Prop
  /-- the loop on its own -/
  | loop {l loop o} : s.allows cfg code e l = true → s.loop.step cfg l = some (loop, o) →
      Step cfg code e s (.loop l) ({ s with loop }.install cfg code e o) (o.map .inl)
  /-- the loop calls `HandleEvents` of this handler -/
  | enter {l wanted events rest loop o handler o'} : code.actor l = .entry wanted →
      s.loop.stack = .handleEvents e events :: rest → (∀ w, wanted = some w → w = events) →
      s.loop.step cfg (.loop .none) = some (loop, o) → code.step l s.handler = some (handler, o') →
      Step cfg code e s (.enter l) { s with loop, handler } (o.map .inl ++ o'.map .inr)
  /-- the code of the handler runs, without a call into the library -/
  | silent {l ret a handler o} : Acts code e s a (code.actor l) →
      code.step l s.handler = some (handler, o) → o.filterMap code.asks = [] →
      Step cfg code e s (.handler l ret) { s with handler } (o.map .inr)
  /-- it calls `ReadyEvent`, `ModifyEvent` or `CloseEvent` -/
  | asks {l ret a call handler o loop o'} : Acts code e s a (code.actor l) →
      code.step l s.handler = some (handler, o) → o.filterMap code.asks = [call] →
      s.loop.step cfg (.call a (call.request e (code.getEvents handler) ret)) = some (loop, o') →
      Step cfg code e s (.handler l ret) ({ s with loop, handler }.install cfg code e o')
        (o.map .inr ++ o'.map .inl)
  /-- something happens around the handler, and the kernel may have news of it -/
  | surroundings {l ret news handler o} : code.actor l = .surroundings news →
      code.step l s.handler = some (handler, o) → Step cfg code e s (.handler l ret)
        (if news then { s with handler }.report cfg code e else { s with handler }) (o.map .inr)

/-- What the code of the handler does is a step of both. -/
theorem act_inv {a : Agent} {l : ℓ} {ret : Option Errno} (hacts : Acts code e s a (code.actor l))
    (h : s.act cfg code e a l ret = some (s', o)) : Step cfg code e s (.handler l ret) s' o := by
  unfold act at h
  obtain ⟨⟨handler, o₁⟩, hstep, h⟩ := Option.bind_eq_some_iff.mp h
  dsimp only at h
  split at h
  · rename_i hnone
    obtain ⟨rfl, rfl⟩ := Prod.mk.inj (Option.some.inj h)
    exact .silent hacts hstep hnone
  · rename_i call hone
    obtain ⟨⟨loop, o₂⟩, hloop, heq⟩ := Option.map_eq_some_iff.mp h
    obtain ⟨rfl, rfl⟩ := Prod.mk.inj heq
    exact .asks hacts hstep hone hloop
  · exact absurd h (by simp)

/-- Every step is one of `Step`, and is taken before a crash of either. -/
theorem step_inv (h : step cfg code e l s = some (s', o)) :
    code.crashed s.handler = false ∧ s.loop.crashed = none ∧ Step cfg code e s l s' o := by
  unfold step at h
  split at h
  · exact absurd h (by simp)
  · rename_i hc
    simp only [Bool.or_eq_true, not_or, Bool.not_eq_true, Option.isSome_eq_false_iff,
      Option.isNone_iff_eq_none] at hc
    refine ⟨hc.1, hc.2, ?_⟩
    cases l with
    | loop l =>
        dsimp only at h
        split at h
        · rename_i hallows
          obtain ⟨⟨loop, o₁⟩, hloop, heq⟩ := Option.map_eq_some_iff.mp h
          obtain ⟨rfl, rfl⟩ := Prod.mk.inj heq
          exact .loop hallows hloop
        · exact absurd h (by simp)
    | enter l =>
        dsimp only at h
        split at h
        · rename_i wanted e' events rest hactor hstack
          split at h
          · rename_i hcond
            simp only [Bool.and_eq_true, decide_eq_true_eq] at hcond
            obtain ⟨rfl, hwanted⟩ := hcond
            obtain ⟨⟨loop, o₁⟩, hloop, h⟩ := Option.bind_eq_some_iff.mp h
            obtain ⟨⟨handler, o₂⟩, hstep, heq⟩ := Option.map_eq_some_iff.mp h
            obtain ⟨rfl, rfl⟩ := Prod.mk.inj heq
            refine .enter hactor hstack (fun w hw => ?_) hloop hstep
            subst hw
            simpa using hwanted
          · exact absurd h (by simp)
        · exact absurd h (by simp)
    | handler l ret =>
        dsimp only at h
        split at h
        · exact absurd h (by simp)
        · rename_i hactor
          split at h
          · rename_i hcond
            rw [Bool.and_eq_true] at hcond
            exact act_inv (hactor ▸ .body hcond.1 hcond.2) h
          · exact absurd h (by simp)
        · rename_i a hactor
          split at h
          · rename_i hcond
            rw [Bool.and_eq_true] at hcond
            exact act_inv (hactor ▸ .method hcond.1 hcond.2) h
          · exact absurd h (by simp)
        · rename_i news hactor
          obtain ⟨⟨handler, o₁⟩, hstep, heq⟩ := Option.map_eq_some_iff.mp h
          obtain ⟨rfl, rfl⟩ := Prod.mk.inj heq
          exact .surroundings hactor hstep

theorem hostedSystem_inv (h : (hostedSystem cfg code e).step l s = some (s', o)) :
    code.crashed s.handler = false ∧ s.loop.crashed = none ∧ Step cfg code e s l s' o :=
  step_inv h

/-! ### The kernel takes note -/

/-- A report is an edge of the descriptor or nothing. -/
theorem report_cases (cfg : Config) (code : HandlerCode σ ℓ ο) (e : EventId) (s : Hosted σ) :
    s.report cfg code e = s ∨
    s.loop.crashed = none ∧ s.loop.epoll.interest (cfg.handle e) = some e ∧
      s.report cfg code e = { s with
        loop := { s.loop with
          epoll := s.loop.epoll.queueItem (.descriptor (cfg.handle e) e) } } := by
  unfold report
  split
  · rename_i hcond
    simp only [watched, Bool.and_eq_true, Option.isNone_iff_eq_none, beq_iff_eq] at hcond
    exact .inr ⟨hcond.1.1, hcond.1.2, rfl⟩
  · exact .inl rfl

theorem report_of_watched (hc : s.loop.crashed = none)
    (hin : s.loop.epoll.interest (cfg.handle e) = some e) (hpoll : s.pollable code ≠ 0) :
    .descriptor (cfg.handle e) e ∈ (s.report cfg code e).loop.epoll.readyItems := by
  unfold report
  rw [if_pos (by simp [watched, hc, hin, hpoll])]
  exact EPoll.mem_queueItem.mpr (.inr rfl)

@[simp] theorem report_handler (s : Hosted σ) : (s.report cfg code e).handler = s.handler := by
  unfold report
  split <;> rfl

@[simp] theorem report_interest (s : Hosted σ) : (s.report cfg code e).interest = s.interest := by
  unfold report
  split <;> rfl

/-- What `install` does: nothing without an observation of `EPOLL_CTL_ADD` or
`EPOLL_CTL_MOD`, else a report. -/
theorem install_cases (cfg : Config) (code : HandlerCode σ ℓ ο) (e : EventId) (s : Hosted σ)
    (o : List LoopObs) :
    (o.findSome? (installed e) = none ∧ s.install cfg code e o = s) ∨
      ∃ interest, o.findSome? (installed e) = some interest ∧
        s.install cfg code e o = { s with interest }.report cfg code e := by
  unfold install
  split
  · rename_i interest heq
    exact .inr ⟨interest, heq, rfl⟩
  · rename_i heq
    exact .inl ⟨heq, rfl⟩

@[simp] theorem install_handler (s : Hosted σ) (o : List LoopObs) :
    (s.install cfg code e o).handler = s.handler := by
  unfold install
  split <;> simp

/-- The loop after a report, or without one. -/
inductive Noted (cfg : Config) (e : EventId) (loop : EventLoop) : EventLoop → Prop
  | same : Noted cfg e loop loop
  | queued : loop.crashed = none → loop.epoll.interest (cfg.handle e) = some e → Noted cfg e loop
      { loop with epoll := loop.epoll.queueItem (.descriptor (cfg.handle e) e) }

theorem noted_report (cfg : Config) (code : HandlerCode σ ℓ ο) (e : EventId) (s : Hosted σ) :
    Noted cfg e s.loop (s.report cfg code e).loop := by
  rcases report_cases cfg code e s with heq | ⟨hc, hin, heq⟩ <;> rw [heq]
  · exact .same
  · exact .queued hc hin

theorem noted_install (cfg : Config) (code : HandlerCode σ ℓ ο) (e : EventId) (s : Hosted σ)
    (o : List LoopObs) :
    Noted cfg e s.loop (s.install cfg code e o).loop := by
  rcases install_cases cfg code e s o with ⟨-, heq⟩ | ⟨interest, -, heq⟩ <;>
    rw [heq]
  · exact .same
  · exact noted_report cfg code e { s with interest }

/-- A report is a step of the loop. -/
theorem Noted.run {loop loop' : EventLoop} (h : Noted cfg e loop loop') :
    Run (loopSystem cfg) loop [] loop' := by
  cases h with
  | same => exact .refl
  | queued hc hin =>
      have hs : (loopSystem cfg).step (.edge (cfg.handle e)) loop = some
          ({ loop with epoll := loop.epoll.queueItem (.descriptor (cfg.handle e) e) }, []) := by
        simp [loopSystem, EventLoop.step, hc, hin]
      exact .step .refl trivial hs

/-! ### A run of both is a run of each -/

/-- The steps of the loop in a step of both. -/
theorem loopRun_of_step (h : Step cfg code e s l s' o) :
    Run (loopSystem cfg) s.loop (loopTrace o) s'.loop := by
  have hone : ∀ {l : LoopLabel} {loop : EventLoop} {o : List LoopObs},
      s.loop.step cfg l = some (loop, o) → Run (loopSystem cfg) s.loop o loop := by
    intro l loop o hs
    have hrun : Run (loopSystem cfg) s.loop ([] ++ o) loop := .step .refl trivial hs
    simpa using hrun
  cases h with
  | @loop l loop o _ hs =>
      have hboth := (hone hs).trans (noted_install cfg code e
        { s with loop } o).run
      simpa using hboth
  | enter _ _ _ hs _ => simpa using hone hs
  | silent _ _ _ =>
      rw [loopTrace_inr]
      exact .refl
  | @asks l ret a call handler o loop o' _ _ _ hs =>
      have hboth := (hone hs).trans (noted_install cfg code e
        { s with loop, handler } o').run
      simpa using hboth
  | @surroundings l ret news handler o _ _ =>
      rw [loopTrace_inr]
      split
      · exact (noted_report cfg code e { s with handler }).run
      · exact .refl

/-- **The loop of a hosted run is a run of the loop.** -/
theorem loopRun {ok : HostedLabel ℓ → Hosted σ → Prop} {handler : σ} {tr : List (LoopObs ⊕ ο)}
    (h : GuardedRun (hostedSystem cfg code e) ok (init handler) tr s) :
    Run (loopSystem cfg) EventLoop.init (loopTrace tr) s.loop := by
  refine h.invariant (I := fun tr s => Run (loopSystem cfg) EventLoop.init (loopTrace tr) s.loop)
    .refl ?_
  intro tr s l s' o _ ih _ hs
  rw [loopTrace_append]
  exact ih.trans (loopRun_of_step (step_inv hs).2.2)

/-- The label with which the handler takes part in a step. -/
inductive Takes : HostedLabel ℓ → ℓ → Prop
  | enter (l' : ℓ) : Takes (.enter l') l'
  | handler (l' : ℓ) (ret : Option Errno) : Takes (.handler l' ret) l'

/-- In a step with such a label the handler takes that step. -/
theorem handler_of_takes {l' : ℓ} (h : Step cfg code e s l s' o) (htakes : Takes l l') :
    code.step l' s.handler = some (s'.handler, handlerTrace o) := by
  cases h with
  | loop _ _ => exact nomatch htakes
  | enter _ _ _ _ hs => cases htakes; simpa using hs
  | silent _ hs _ => cases htakes; simpa using hs
  | asks _ hs _ _ => cases htakes; simpa using hs
  | surroundings _ hs =>
      cases htakes
      rw [handlerTrace_inr]
      split
      · rw [report_handler]
        exact hs
      · exact hs

/-- In a step of the loop it takes none. -/
theorem handler_of_loop {l' : LoopLabel} (h : Step cfg code e s (.loop l') s' o) :
    s'.handler = s.handler ∧ handlerTrace o = [] := by
  cases h with
  | loop _ _ => exact ⟨by simp, by simp⟩

/-- The step of the handler in a step of both, if it takes one. -/
theorem handler_of_step (h : Step cfg code e s l s' o) :
    (s'.handler = s.handler ∧ handlerTrace o = []) ∨
      ∃ l', Takes l l' ∧ code.step l' s.handler = some (s'.handler, handlerTrace o) := by
  cases l with
  | loop l => exact .inl (handler_of_loop h)
  | enter l => exact .inr ⟨l, .enter l, handler_of_takes h (.enter l)⟩
  | handler l ret => exact .inr ⟨l, .handler l ret, handler_of_takes h (.handler l ret)⟩

/-- **The handler of a hosted run is a run of the handler.** -/
theorem handlerRun {ok : HostedLabel ℓ → Hosted σ → Prop} {ok' : ℓ → σ → Prop}
    (hok : ∀ l l' s, Takes l l' → ok l s → ok' l' s.handler) {handler : σ}
    {tr : List (LoopObs ⊕ ο)} (h : GuardedRun (hostedSystem cfg code e) ok (init handler) tr s) :
    GuardedRun ⟨code.step⟩ ok' handler (handlerTrace tr) s.handler := by
  refine h.invariant
    (I := fun tr s => GuardedRun ⟨code.step⟩ ok' handler (handlerTrace tr) s.handler) .refl ?_
  intro tr s l s' o _ ih hl hs
  rw [handlerTrace_append]
  rcases handler_of_step (step_inv hs).2.2 with ⟨heq, ho⟩ | ⟨l', htakes, hs'⟩
  · rw [heq, ho, List.append_nil]
    exact ih
  · exact ih.step (hok l l' s htakes hl) hs'

end

/-! ### Evaluating a schedule -/

section

variable {σ ℓ ο : Type} {cfg : Config} {code : HandlerCode σ ℓ ο} {e : EventId} {handler : σ}

/-- The schedule can be run, and `check` holds at its end. -/
def runsTo (cfg : Config) (code : HandlerCode σ ℓ ο) (e : EventId) (handler : σ)
    (check : List (LoopObs ⊕ ο) → Hosted σ → Bool) (ls : List (HostedLabel ℓ)) : Bool :=
  match exec (hostedSystem cfg code e) (fun _ _ => true) ls (init handler) with
  | some (s, tr) => check tr s
  | none => false

/-- What the test says about a schedule. -/
theorem exec_of_runsTo {check : List (LoopObs ⊕ ο) → Hosted σ → Bool} {ls : List (HostedLabel ℓ)}
    (h : runsTo cfg code e handler check ls = true) : ∃ tr s,
      exec (hostedSystem cfg code e) (fun _ _ => true) ls (init handler) = some (s, tr) ∧
        check tr s = true := by
  unfold runsTo at h
  split at h
  · rename_i s tr hexec
    exact ⟨tr, s, hexec, h⟩
  · exact absurd h (by simp)

theorem run_of_runsTo {check : List (LoopObs ⊕ ο) → Hosted σ → Bool} {ls : List (HostedLabel ℓ)}
    (h : runsTo cfg code e handler check ls = true) :
    ∃ tr s, Run (hostedSystem cfg code e) (init handler) tr s ∧ check tr s = true := by
  obtain ⟨tr, s, hexec, hcheck⟩ := exec_of_runsTo h
  exact ⟨tr, s, GuardedRun.of_exec (fun _ _ _ => trivial) hexec, hcheck⟩

end

end Hosted

/-- A handler is attached and registered; the loop is back in `Run`. -/
def registersHandler {ℓ : Type} (asked : Events) : List (HostedLabel ℓ) :=
  [.call (.user 0) (.attach 0), .proceed (.user 0), .proceed (.user 0), .proceed (.user 0),
    .loop .none, .loop (.wait fun _ _ => none), .loop .none, .loop .none, .loop .none,
    .loop .none, .loop (.ctl asked none), .loop .none, .loop .none, .loop .none, .loop .none,
    .loop .none, .loop .none, .loop .none, .loop .none, .loop .none].map .loop

end Libael
