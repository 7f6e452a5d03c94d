import Libael.StreamListener.StreamListener

/-!
# Libael.StreamListener.Backlog

**No connection waits on a lost edge.** A call of `HandleEvents` with `Read` ends when `accept4`
finds nothing to accept, or leaves a ready element behind that brings the loop back. So while
the loop sleeps, the backlog is empty.

* `Ending` is the state machine of the observations: how the last call has ended, if it has.
  `Told` says that it tells the truth about the state of the listener.
* The listener meets the demands of `Libael.EventLoop.Attended`, with a non-empty backlog for
  what it is wanted for. Only the limit of its loop makes it return while it is still wanted, and
  that case is the promise of the `ReadyEvent`.
-/

namespace Libael

open Lts

namespace StreamListener

/-- How the last call of `HandleEvents` with `Read` has ended. -/
inductive Ending
  | uncalled
  | running
  /-- on `EAGAIN` -/
  | drained
  /-- at the limit, with a call of `ReadyEvent` -/
  | limited
  deriving DecidableEq

/-- The ending after one more observation. -/
def Ending.next : Ending → ListenerObs → Ending
  | ending, .handleEvents events => if events.has Events.Read then .running else ending
  | _, .accept (.error .EAGAIN) => .drained
  | _, .readyEvent _ => .limited
  | ending, _ => ending

namespace Ending

variable {ending : Ending}

@[simp] theorem next_handleEvents (events : Events) : ending.next (.handleEvents events) =
    if events.has Events.Read then .running else ending := by cases ending <;> rfl

@[simp] theorem next_accept_ok (newFd : Fd) : ending.next (.accept (.ok newFd)) = ending := by
  cases ending <;> rfl

@[simp] theorem next_accept_again : ending.next (.accept (.error .EAGAIN)) = .drained := by
  cases ending <;> rfl

theorem next_accept_error {e : Errno} (hne : e ≠ .EAGAIN) :
    ending.next (.accept (.error e)) = ending := by
  cases e <;> first | exact absurd rfl hne | (cases ending <;> rfl)

@[simp] theorem next_newConnection (newFd : Fd) : ending.next (.newConnection newFd) = ending := by
  cases ending <;> rfl

@[simp] theorem next_readyEvent (events : Events) :
    ending.next (.readyEvent events) = .limited := by
  cases ending <;> rfl

end Ending

/-- How the last call has ended, read off the trace. -/
def ending (tr : List ListenerObs) : Ending := tr.foldl Ending.next .uncalled

/-- What `accept4` has returned. -/
def acceptedFds (tr : List ListenerObs) : List Fd :=
  tr.filterMap fun
    | .accept (.ok newFd) => some newFd
    | _ => none

/-- What has been passed to `HandleNewConnection`. -/
def handedOver (tr : List ListenerObs) : List Fd :=
  tr.filterMap fun
    | .newConnection newFd => some newFd
    | _ => none

/-- What is accepted and not yet handed over. -/
def inHand : ListenerCall → List Fd
  | .accepted _ newFd => [newFd]
  | _ => []

section

variable {limit : Int} {tr o : List ListenerObs} {s s' : StreamListener} {l : ListenerLabel}

theorem ending_append : ending (tr ++ o) = o.foldl Ending.next (ending tr) := List.foldl_append

theorem acceptedFds_append : acceptedFds (tr ++ o) = acceptedFds tr ++ acceptedFds o :=
  List.filterMap_append

theorem handedOver_append : handedOver (tr ++ o) = handedOver tr ++ handedOver o :=
  List.filterMap_append

/-! ### A listener on its own -/

/-- The loop of `HandleEvents` is within its limit. -/
def WithinLimit (limit : Int) : ListenerCall → Prop
  | .idle => True
  | .accepting i => i ≤ limit.toNat
  | .accepted i _ | .newConnection i => i < limit

/-- The history of a listener and where it is. -/
structure Told (limit : Int) (tr : List ListenerObs) (s : StreamListener) : Prop where
  running : s.crashed = none → (s.call ≠ .idle ↔ ending tr = .running)
  turns : WithinLimit limit s.call
  /-- every descriptor accepted has been handed over, up to the death of the handler -/
  handed : s.newConnectionHandler = true → acceptedFds tr = handedOver tr ++ inHand s.call
  prefixed : ∃ before, acceptedFds tr = before ++ inHand s.call ∧ handedOver tr <+: before

theorem told_init : Told limit [] init where
  running _ := by simp [init, ending]
  turns := trivial
  handed _ := rfl
  prefixed := ⟨[], rfl, List.prefix_refl _⟩

/-- A step that neither accepts a connection nor hands one over. -/
theorem Told.of_quiet (h : Told limit tr s) (hrunning : s'.crashed = none →
      (s'.call ≠ .idle ↔ ending (tr ++ o) = .running))
    (hturns : WithinLimit limit s'.call) (haccepted : acceptedFds o = [])
    (hhanded : handedOver o = []) (hhandler : s'.newConnectionHandler = true →
      s.newConnectionHandler = true) (hinHand : inHand s'.call = inHand s.call) :
    Told limit (tr ++ o) s' where
  running := hrunning
  turns := hturns
  handed halive := by
    rw [acceptedFds_append, handedOver_append, haccepted, hhanded, List.append_nil, List.append_nil,
      hinHand]
    exact h.handed (hhandler halive)
  prefixed := by
    rw [acceptedFds_append, handedOver_append, haccepted, hhanded, List.append_nil, List.append_nil,
      hinHand]
    exact h.prefixed

/-- The next turn of the loop is one of those allowed. -/
theorem turn_le {i : Nat} (h : i < limit) : i + 1 ≤ limit.toNat := by omega

/-- **One step keeps the ending true.** The endings `drained` and `limited` are those of the two
steps that return, and a call that begins takes them back. -/
theorem told_step (h : Told limit tr s) (hc : s.crashed = none) (hstep : Step limit s l s' o) :
    Told limit (tr ++ o) s' := by
  have hrunning := h.running hc
  have hturns := h.turns
  cases hstep with
  | @called events hcall hread =>
      exact h.of_quiet (fun _ => by simp [ending_append, hread])
        (Nat.zero_le _) rfl rfl id (by rw [hcall]; rfl)
  | @ignored events hcall hread =>
      exact h.of_quiet (fun _ => by simpa [ending_append, hread] using hrunning)
        h.turns rfl rfl id rfl
  | @accepted i newFd hcall hlt _ =>
      have hending : ending tr = .running := hrunning.mp (by simp [hcall])
      refine ⟨fun _ => by simp [ending_append, hending], hlt, fun halive => ?_, ?_⟩
      · have hbefore := h.handed halive
        simp only [hcall, inHand, List.append_nil] at hbefore
        rw [acceptedFds_append, handedOver_append, hbefore]
        simp [acceptedFds, handedOver, inHand]
      · obtain ⟨before, hbefore, hprefix⟩ := h.prefixed
        simp only [hcall, inHand, List.append_nil] at hbefore
        refine ⟨before, ?_, ?_⟩
        · rw [acceptedFds_append, hbefore]
          rfl
        · rw [handedOver_append]
          simpa [handedOver] using hprefix
  | @drained i hcall _ _ =>
      exact h.of_quiet (fun _ => by simp [ending_append]) trivial rfl rfl id
        (by rw [hcall]; rfl)
  | @threw i e hcall _ _ =>
      exact h.of_quiet (fun hno => absurd hno (by simp)) trivial rfl rfl id (by rw [hcall]; rfl)
  | @transient i e hcall hlt hne _ =>
      have hending : ending tr = .running := hrunning.mp (by simp [hcall])
      refine h.of_quiet (fun _ => ?_) (turn_le hlt) rfl rfl id (by rw [hcall]; rfl)
      simp [ending_append, hending, Ending.next_accept_error hne]
  | @handed i newFd hcall halive =>
      have hending : ending tr = .running := hrunning.mp (by simp [hcall])
      have hbefore := h.handed halive
      rw [hcall] at hturns
      simp only [hcall, inHand] at hbefore
      refine ⟨fun _ => by simp [ending_append, hending], hturns, fun _ => ?_,
        handedOver tr ++ [newFd], ?_, ?_⟩
      · rw [acceptedFds_append, handedOver_append, hbefore]
        simp [acceptedFds, handedOver, inHand]
      · rw [acceptedFds_append, hbefore]
        simp [acceptedFds, inHand]
      · rw [handedOver_append]
        exact List.prefix_refl _
  | @dropped i newFd hcall hdead =>
      have hending : ending tr = .running := hrunning.mp (by simp [hcall])
      rw [List.append_nil]
      rw [hcall] at hturns
      refine ⟨fun _ => by simp [hending], turn_le hturns, fun halive => ?_, ?_⟩
      · have hno := hdead.symm.trans halive
        exact absurd hno (by simp)
      · obtain ⟨before, hbefore, hprefix⟩ := h.prefixed
        rw [hcall] at hbefore
        exact ⟨before ++ [newFd], by rw [hbefore]; simp [inHand],
          hprefix.trans (List.prefix_append _ _)⟩
  | @handled i hcall =>
      have hending : ending tr = .running := hrunning.mp (by simp [hcall])
      rw [hcall] at hturns
      rw [List.append_nil]
      refine ⟨fun _ => by simp [hending], turn_le hturns, fun halive => ?_, ?_⟩
      · simpa [hcall, inHand] using h.handed halive
      · simpa [hcall, inHand] using h.prefixed
  | @limitReached i hcall _ =>
      exact h.of_quiet (fun _ => by simp [ending_append]) trivial rfl rfl id
        (by rw [hcall]; rfl)
  | handlerDestroyed _ =>
      exact h.of_quiet (fun _ => by simpa [ending_append] using hrunning) h.turns rfl rfl
        (by simp) rfl
  | arrives =>
      exact h.of_quiet (fun _ => by simpa [ending_append] using hrunning) h.turns rfl rfl id rfl
  | aborted _ =>
      exact h.of_quiet (fun _ => by simpa [ending_append] using hrunning) h.turns rfl rfl id rfl

theorem told_of_run {ok : ListenerLabel → StreamListener → Prop}
    (h : GuardedRun ⟨step limit⟩ ok init tr s) : Told limit tr s := by
  refine h.invariant (I := fun tr s => Told limit tr s) told_init ?_
  intro tr s l s' o _ ih _ hs
  obtain ⟨hc, hstep⟩ := step_inv hs
  exact told_step ih hc hstep

end

/-! ### A listener and its loop -/

section

open EventLoop Hosted

variable {cfg : Config} {limit : Int} {e : EventId} {fd : Fd} {tr : List (LoopObs ⊕ ListenerObs)}
  {s : Hosted StreamListener}

/-- What the listener is to be called for. -/
def ForRead (events : Events) : Prop := events.has Events.Read = true

/-- `HandleEvents` of a listener only starts to run by being called. -/
theorem listener_starts : Starts (listenerCode limit) := by
  intro l s s' o hs hrunning
  have hrunning : s'.call ≠ .idle := by simpa [listenerCode] using hrunning
  refine Classical.or_iff_not_imp_left.mpr fun hno => ?_
  have hidle : s.call = .idle := by simpa [listenerCode] using hno
  obtain ⟨-, hstep⟩ := step_inv hs
  cases hstep with
  | @called events _ _ => exact ⟨some events, rfl⟩
  | ignored _ _ | handlerDestroyed _ | arrives | aborted _ => exact absurd hidle hrunning
  | accepted hcall _ _ | drained hcall _ _ | threw hcall _ _ | transient hcall _ _ _
  | handed hcall _ | dropped hcall _ | handled hcall | limitReached hcall _ =>
      exact absurd (hcall.symm.trans hidle) (by simp)

theorem listener_readyInBody : ReadyInBody (listenerCode limit) := by
  intro l s s' o a events _ hactor
  cases l <;> exact absurd hactor (by simp [listenerCode, actor])

/-- The listener is an attentive handler: connections in the backlog are what it is wanted
for. -/
theorem listener_attentive {s s' : StreamListener} {l : ListenerLabel} {o : List ListenerObs}
    (hs : step limit l s = some (s', o)) (hc : s'.crashed = none) :
    Attentive (listenerCode limit) EPollEvents.EPOLLIN (· = Events.Read) ForRead
      (fun s => s.backlog ≠ 0) (fun s => s.call ≠ .idle) l s s' o := by
  obtain ⟨-, hstep⟩ := step_inv hs
  constructor
  · intro events hactor hwanted
    cases hstep with
    | called _ _ => exact .inl (by simp)
    | @ignored events' hcall hno =>
        refine .inr ⟨hwanted, by simp [hcall], events', ?_, by simp [ForRead, hno]⟩
        exact (Actor.entry.inj hactor).symm
    | _ => exact absurd hactor (by simp [listenerCode, actor])
  · intro hentry hnews hwanted
    cases hstep with
    | called _ _ => exact absurd rfl (hentry _)
    | ignored _ _ => exact absurd rfl (hentry _)
    | accepted _ _ _ | transient _ _ _ _ | handed _ _ | dropped _ _ | handled _ =>
        exact .inl (by simp)
    | drained _ _ hempty => exact absurd hempty hwanted
    | threw _ _ _ => exact absurd hc (by simp)
    | limitReached _ _ =>
        exact .inr (.inr (.inr ⟨by simp [listenerCode, actor], Events.Read, rfl, rfl⟩))
    | handlerDestroyed _ =>
        by_cases hidle : s.call = .idle
        · exact .inr (.inl ⟨hwanted, by simp [hidle]⟩)
        · exact .inl hidle
    | arrives => exact absurd rfl hnews
    | aborted hne =>
        by_cases hidle : s.call = .idle
        · exact .inr (.inl ⟨hne, by simp [hidle]⟩)
        · exact .inl hidle

/-- The kernel reports a backlog. -/
theorem listener_reports (s : StreamListener) (hwanted : s.backlog ≠ 0) :
    (listenerCode limit).reports s &&& (EPollEvents.EPOLLET ||| EPollEvents.EPOLLIN) =
      EPollEvents.EPOLLIN := by
  simp only [listenerCode, if_neg hwanted]
  decide

/-- How a step of the listener can leave its last call ended at the limit. -/
theorem limited_of_step {tr : List ListenerObs} {s s' : StreamListener} {l : ListenerLabel}
    {o : List ListenerObs} (hs : step limit l s = some (s', o)) (h : ending (tr ++ o) = .limited) :
    (ending tr = .limited ∧ ∀ events, actor l = .entry events →
      ∃ ignored, events = some ignored ∧ ¬ForRead ignored) ∨
    actor l = .body ∧ ∃ events, events = Events.Read ∧ o.filterMap asks = [.readyEvent events] := by
  obtain ⟨-, hstep⟩ := step_inv hs
  rw [ending_append] at h
  cases hstep with
  | called _ hread => exact absurd h (by simp [hread])
  | @ignored events _ hno =>
      refine .inl ⟨by simpa [hno] using h, fun events' hactor => ?_⟩
      exact ⟨events, (Actor.entry.inj hactor).symm, by simp [ForRead, hno]⟩
  | accepted _ _ _ => exact .inl ⟨by simpa using h, by simp [actor]⟩
  | drained _ _ _ => exact absurd h (by simp)
  | @threw i e _ _ hthrows =>
      have hne : e ≠ .EAGAIN := by
        rintro rfl
        exact absurd hthrows (by decide)
      exact .inl ⟨by simpa [Ending.next_accept_error hne] using h, by simp [actor]⟩
  | @transient i e _ _ hne _ =>
      exact .inl ⟨by simpa [Ending.next_accept_error hne] using h, by simp [actor]⟩
  | handed _ _ => exact .inl ⟨by simpa using h, by simp [actor]⟩
  | dropped _ _ | handled _ => exact .inl ⟨h, by simp [actor]⟩
  | limitReached _ _ => exact .inr ⟨rfl, Events.Read, rfl, rfl⟩
  | handlerDestroyed _ | arrives | aborted _ => exact .inl ⟨h, by simp [actor]⟩

/-- A call of `HandleEvents` that ended at the limit has its successor on the way. -/
theorem signalled_of_limited (hclass : cfg.handler e = .user fd) (hvalid : cfg.valid e = true)
    (h : Run (hostedSystem cfg (listenerCode limit) e) (Hosted.init init) tr s)
    (hc : s.loop.crashed = none) (hreg : s.loop.epoll.events (cfg.handle e) = some e)
    (halive : (s.loop.handlers e).alive = true)
    (hlimited : ending (handlerTrace tr) = .limited) :
    Signalled (· = Events.Read) ForRead e s.loop := by
  refine (signalled_of_due (fun tr => ending tr = .limited) hclass listener_starts rfl hvalid
    ?_ ?_ ?_ h hc hlimited).2 hreg halive
  · rintro events rfl
    rfl
  · simp [ending]
  · intro tr s l l' handler' o _ _ _ hs hdue
    exact limited_of_step hs hdue

/-- It is the loop thread that pushes the ready elements of a listener. -/
theorem listener_pusher (h : Run (hostedSystem cfg (listenerCode limit) e) (Hosted.init init) tr s)
    (hc : s.loop.crashed = none) : ∀ a events attached, events = Events.Read →
      s.loop.calls.lookup a = some (.pushing (.ready e events attached)) ∨
        s.loop.calls.lookup a = some (.signalling (.ready e events attached)) → a = .loop :=
  fun a events attached _ => pusher_of_run listener_readyInBody h hc a events attached

/-- While the loop sleeps, nothing waits in the backlog. -/
theorem backlog_of_asleep (hclass : cfg.handler e = .user fd)
    (h : Run (hostedSystem cfg (listenerCode limit) e) (Hosted.init init) tr s)
    (hcr : s.handler.crashed = none) (hc : s.loop.crashed = none)
    (hreg : s.loop.epoll.events (cfg.handle e) = some e)
    (halive : (s.loop.handlers e).alive = true)
    (hasleep : Asleep cfg (listenerCode limit) e s) : s.handler.backlog = 0 := by
  by_contra hwanted
  have hmask : ∀ s : StreamListener,
      getEPollEventsFromEvents ((listenerCode limit).getEvents s) = EPollEvents.EPOLLIN :=
    fun _ => show getEPollEventsFromEvents Events.Read = EPollEvents.EPOLLIN by decide
  have hpollable : s.pollable (listenerCode limit) ≠ 0 := by
    rw [pollable, interest_of_registered hclass hmask h hc hreg halive, listener_reports _ hwanted]
    decide
  have hstarts : (listenerCode limit).running init = false := rfl
  have hattended : s.handler.call ≠ .idle ∨ Notified cfg (· = Events.Read) ForRead e s.loop := by
    refine attended (fun s => s.backlog ≠ 0) (fun s => s.call ≠ .idle) hclass hmask
      ?_ ?_ ?_ h (by simpa [listenerCode] using hcr) hc hreg halive hwanted
    · rintro events rfl
      rfl
    · intro s hs
      refine ⟨?_, fun events hevents => has_read_of_readable ?_⟩
      · rw [listener_reports s hs]
        decide
      · rw [listener_reports s hs] at hevents
        rw [Events.has, hevents]
        decide
    · intro tr s l l' handler' o _ _ _ hs hcrashed
      exact listener_attentive hs (by simpa [listenerCode] using hcrashed)
  rcases hattended with hbusy | hnotified
  · -- a call of `HandleEvents` keeps the thread from `epoll_wait`
    obtain ⟨rest, hstack⟩ := stack_of_running hclass listener_starts hstarts h hc
      (by simpa [listenerCode] using hbusy)
    obtain ⟨final, hwait⟩ := hasleep.wait.stack_eq (layered_of_run (loopRun h))
    exact absurd (hstack.symm.trans hwait) (by simp)
  · exact not_notified_of_asleep h hc hreg hpollable (listener_pusher h hc) hasleep hnotified

/-- **No connection is left waiting on a lost edge.** Whatever `accept4` returns, and
whenever connections arrive: while the loop sleeps, the backlog of a registered listener is
empty. A call of `HandleEvents` with `Read` ends on `EAGAIN`, or with a ready element that is
on its way until it is dispatched. What has been accepted is handed over once and in order,
for as long as there is somebody to take it. -/
theorem no_connection_left_waiting (cfg : Config) (limit : Int) {e : EventId} {fd : Fd}
    (hclass : cfg.handler e = .user fd) {tr : List (LoopObs ⊕ ListenerObs)}
    {s : Hosted StreamListener}
    (h : Run (hostedSystem cfg (listenerCode limit) e) (Hosted.init init) tr s)
    (hcr : s.handler.crashed = none) (hc : s.loop.crashed = none)
    (hreg : s.loop.epoll.events (cfg.handle e) = some e)
    (halive : (s.loop.handlers e).alive = true) :
    (Asleep cfg (listenerCode limit) e s →
      s.handler.backlog = 0 ∧ ending (handlerTrace tr) ≠ .limited) ∧
    (s.handler.call = .idle →
      ending (handlerTrace tr) = .uncalled ∨ ending (handlerTrace tr) = .drained ∨
      ending (handlerTrace tr) = .limited ∧ Signalled (· = Events.Read) ForRead e s.loop) ∧
    WithinLimit limit s.handler.call ∧
    handedOver (handlerTrace tr) <+: acceptedFds (handlerTrace tr) ∧
    (s.handler.newConnectionHandler = true →
      acceptedFds (handlerTrace tr) = handedOver (handlerTrace tr) ++ inHand s.handler.call) := by
  have hvalid : cfg.valid e = true := ((owned_of_run (loopRun h) hc).table _ e hreg).2.2
  have hrun : Run ⟨step limit⟩ init (handlerTrace tr) s.handler :=
    handlerRun (fun _ _ _ _ _ => trivial) h
  have htold := told_of_run hrun
  have hlimited := signalled_of_limited hclass hvalid h hc hreg halive
  refine ⟨fun hasleep => ⟨backlog_of_asleep hclass h hcr hc hreg halive hasleep, fun hlim => ?_⟩,
    fun hidle => ?_, htold.turns, ?_, htold.handed⟩
  · exact not_signalled_of_asleep h hc (listener_pusher h hc) hasleep (hlimited hlim)
  · cases hending : ending (handlerTrace tr) with
    | uncalled => exact .inl rfl
    | running => exact absurd hidle ((htold.running hcr).mpr hending)
    | drained => exact .inr (.inl rfl)
    | limited => exact .inr (.inr ⟨rfl, hlimited hending⟩)
  · obtain ⟨before, hbefore, hprefix⟩ := htold.prefixed
    rw [hbefore]
    exact hprefix.trans (List.prefix_append _ _)

/-- One handler, a listener. -/
def oneListener : Config := { handler := fun _ => .user 3, intervalOccurrencesLimit := 10 }

/-- The listener is attached and registered. -/
def registersListener : List (HostedLabel ListenerLabel) :=
  [.call (.user 0) (.attach 0), .proceed (.user 0), .proceed (.user 0), .proceed (.user 0),
    .loop .none, .loop (.wait fun _ _ => none), .loop .none, .loop .none, .loop .none,
    .loop .none, .loop (.ctl Events.Read none), .loop .none, .loop .none, .loop .none, .loop .none,
    .loop .none, .loop .none, .loop .none, .loop .none, .loop .none].map .loop

/-- A connection arrives. The loop of `HandleEvents` is limited to one turn, which accepts it;
it takes the ready element to bring `HandleEvents` back for its `EAGAIN`. -/
def acceptsOne : List (HostedLabel ListenerLabel) :=
  [.handler .arrives none, .loop (.loop .none),
    .loop (.loop (.wait fun _ _ => some EPollEvents.EPOLLIN)), .loop (.loop .none),
    .enter (.handleEvents Events.Read), .handler (.accept (.ok 7)) none, .handler .lock none,
    .handler .handled none, .handler .limitReached none, .loop (.proceed .loop),
    .loop (.proceed .loop), .loop (.loop .none), .loop (.loop (.release false)),
    .loop (.loop .none), .loop (.loop .none),
    .loop (.loop (.wait fun _ _ => some EPollEvents.EPOLLIN)), .loop (.loop .none),
    .loop (.loop .none), .loop (.loop .none)] ++ List.replicate 8 (.loop (.loop .none)) ++
  [.enter (.handleEvents Events.Read), .handler (.accept (.error .EAGAIN)) none,
    .loop (.loop .none), .loop (.loop (.release false))] ++
    List.replicate 4 (.loop (.loop .none))

/-- A listener that takes one connection a call: it has been called again, and found nothing. -/
theorem no_connection_left_waiting_acceptsOne :
    ∃ tr s, Asleep oneListener (listenerCode 1) 0 s ∧ handedOver (handlerTrace tr) = [7] ∧
      s.handler.backlog = 0 ∧ ending (handlerTrace tr) ≠ .limited ∧
      acceptedFds (handlerTrace tr) = handedOver (handlerTrace tr) ++ inHand s.handler.call := by
  have hruns : runsTo oneListener (listenerCode 1) 0 init (fun tr s =>
      s.sleeps oneListener (listenerCode 1) 0 && s.loop.epoll.events 3 == some 0 &&
      (s.loop.handlers 0).alive && s.loop.crashed.isNone && s.handler.crashed.isNone &&
      s.handler.newConnectionHandler && handedOver (handlerTrace tr) == [7])
      (registersListener ++ acceptsOne) = true := by decide +kernel
  obtain ⟨tr, s, h, hcheck⟩ := run_of_runsTo hruns
  simp only [Bool.and_eq_true, beq_iff_eq, Option.isNone_iff_eq_none] at hcheck
  obtain ⟨⟨⟨⟨⟨⟨hsleeps, hreg⟩, halive⟩, hc⟩, hcr⟩, hthere⟩, hhanded⟩ := hcheck
  have hmain := no_connection_left_waiting oneListener 1 rfl h hcr hc hreg halive
  have hasleep := asleep_of_sleeps hsleeps
  exact ⟨tr, s, hasleep, hhanded, (hmain.1 hasleep).1, (hmain.1 hasleep).2, hmain.2.2.2.2 hthere⟩

end

end StreamListener

end Libael
