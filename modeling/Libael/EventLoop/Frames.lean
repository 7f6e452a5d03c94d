import Libael.EventLoop.Loop

/-!
# Libael.EventLoop.Frames

**What one piece of the code does**, an inductive relation for each of the big functions of the
step, with one constructor for each of its branches. The functions are taken apart here, once;
everything else about them is read off these relations, by cases:

* `LightRun` for the frames that touch neither the queues nor the tables, and `FrameRun` for
  every frame of the thread of the loop (`runFrame`);
* `FinalizeRun` for the three finalize functions of `EPoll`, with the failures of `epoll_ctl`;
* `Requested` for what a call of the public interface begins with (`request`);
* `Proceeded` for what a call in progress goes on with (`proceed`).

A constructor carries the guards of its branch, so that nothing is lost in the inversion. Whether
a branch has thrown stands in the outcome (`LoopNext.threw`), and not in the relation.
-/

namespace Libael

namespace LoopFrame

/-- The frame touches neither the queues nor the tables. -/
def light : LoopFrame → Bool
  | .process _ | .batch (_ :: _) _ | .eventfdRead | .handleElements _ | .finalize (_ :: _) => false
  | _ => true

end LoopFrame

namespace EventLoop

/-! ### The thread of the loop -/

/-- The outcome of a light frame above `rest`. -/
inductive LightRun (cfg : Config) (s : EventLoop) (rest : List LoopFrame) :
    LoopFrame → LoopInput → LoopNext → Prop
  /-- `Run` leaves its loop -/
  | observed : s.stop = true →
      LightRun cfg s rest .whileNotStop .none { loop := s, frames := [.copyEvents] }
  /-- `Run` calls `Process` -/
  | goesOn : s.stop = false →
      LightRun cfg s rest .whileNotStop .none { loop := s, frames := [.process false] }
  /-- `Run` copies `events_` for its closing pass -/
  | copied : LightRun cfg s rest .copyEvents .none
      { loop := { s with eventsToClose := s.events }, frames := [.closing s.events] }
  /-- the closing pass takes one of the events, in any order -/
  | closes {events e} : e ∈ events → LightRun cfg s rest (.closing events) (.close e)
      { loop := s, frames := [.closeEvent e, .closing (events.erase e)] }
  /-- it has closed all of them -/
  | allClosed : LightRun cfg s rest (.closing []) .none { loop := s, frames := [.wakeup] }
  /-- `Run` calls `Wakeup`, and `Process` for the last time -/
  | wakes : LightRun cfg s rest .wakeup .none
      { loop := s.setCall .loop .waking, frames := [.process true] }
  /-- `Process` returns to the loop of `Run` -/
  | passed : LightRun cfg s rest (.batch [] false) .none { loop := s, frames := [.whileNotStop] }
  /-- `Process` returns for the last time, and `Run` with it -/
  | returned : LightRun cfg s rest (.batch [] true) .none { loop := { s with eventsToClose := [] } }
  /-- the last element of a container has been finalized -/
  | finalized : LightRun cfg s rest (.finalize []) .none { loop := s }
  /-- the container goes out of scope -/
  | disposed {elements} : LightRun cfg s rest (.dispose elements) .none { loop := s }
  /-- `HandleEvents` of a class of the user -/
  | user {e events fd} : cfg.handler e = .user fd →
      LightRun cfg s rest (.handleEvents e events) .none
      { loop := s, frames := [.callback e], obs := [.handleEvents e events] }
  /-- `ExecuteHandler::HandleEvents`, with an instance to call `func_` on -/
  | execute {e events} : cfg.handler e = .executeHandler → (s.handlers e).instanceAlive = true →
      LightRun cfg s rest (.handleEvents e events) .none
        { loop := s, frames := [.callback e, .closeEvent e, .removeInternal e],
          obs := [.handleEvents e events, .func e] }
  /-- the same without one -/
  | executeDead {e events} : cfg.handler e = .executeHandler →
      (s.handlers e).instanceAlive = false → LightRun cfg s rest (.handleEvents e events) .none
        { loop := s, frames := [.closeEvent e, .removeInternal e], obs := [.handleEvents e events] }
  /-- `TimerHandler::HandleEvents` goes on to `read` -/
  | timer {e events runOnce fd} : cfg.handler e = .timerHandler runOnce fd →
      (s.handlers e).canceled = false → events.has Events.Read = true →
      LightRun cfg s rest (.handleEvents e events) .none
        { loop := s, frames := [.timerRead e], obs := [.handleEvents e events] }
  /-- it returns at once, cancelled or without `Read` -/
  | timerIgnored {e events runOnce fd} : cfg.handler e = .timerHandler runOnce fd →
      LightRun cfg s rest (.handleEvents e events) .none
        { loop := s, obs := [.handleEvents e events] }
  /-- `HandleEvents` has returned, and others refer to the handler -/
  | kept {e} : LightRun cfg s rest (.release e) (.release false) { loop := s }
  /-- the reference that is let go of is the last one -/
  | dropped {e} : (s.handlers e).alive = true → e ∉ s.internalEventHandlers →
      s.unused rest e = true → LightRun cfg s rest (.release e) (.release true)
        { loop := s.destroyHandler .loop e }
  /-- code of the user returns -/
  | callback {e} : LightRun cfg s rest (.callback e) .none { loop := s }
  /-- `CloseEvent` begins -/
  | closeEvent {e} : LightRun cfg s rest (.closeEvent e) .none { loop := s.closeEvent .loop e }
  /-- `RemoveInternal` finds the handler -/
  | removed {e} : e ∈ s.internalEventHandlers → LightRun cfg s rest (.removeInternal e) .none
      { loop := { s with internalEventHandlers := s.internalEventHandlers.erase e } }
  /-- `RemoveInternal` throws -/
  | notInternal {e} : e ∉ s.internalEventHandlers → LightRun cfg s rest (.removeInternal e) .none
      { loop := s, threw := some (.text "event handler found") }
  /-- the timerfd has not expired: `EAGAIN` -/
  | notExpired {e} : LightRun cfg s rest (.timerRead e) (.read (.error .EAGAIN)) { loop := s }
  /-- `read` fails otherwise -/
  | readFails {e errno} : errno ≠ .EAGAIN →
      LightRun cfg s rest (.timerRead e) (.read (.error errno))
      { loop := s, threw := some (.systemError errno "timerfd read - failed") }
  /-- the occurrences are cut at `interval_occurrences_limit_` -/
  | expired {e occurrences} : occurrences ≠ 0 → (s.handlers e).instanceAlive = true →
      LightRun cfg s rest (.timerRead e) (.read (.ok occurrences))
        { loop := s, frames := [.timerRun e (min occurrences cfg.intervalOccurrencesLimit)] }
  /-- the instance is gone, and the timer ends -/
  | expiredDead {e occurrences} : occurrences ≠ 0 → (s.handlers e).instanceAlive = false →
      LightRun cfg s rest (.timerRead e) (.read (.ok occurrences))
        { loop := s, frames := [.closeEvent e] }
  /-- `func_` is called once more -/
  | occurrence {e k} : LightRun cfg s rest (.timerRun e (k + 1)) .none
      { loop := s, frames := [.callback e, .timerRun e k], obs := [.func e] }
  /-- a timer that runs once cancels itself -/
  | oneShot {e fd} : cfg.handler e = .timerHandler true fd →
      LightRun cfg s rest (.timerRun e 0) .none
        { loop := s.setHandler e { s.handlers e with canceled := true }, frames := [.closeEvent e] }
  /-- the occurrences have been handled -/
  | interval {e} : LightRun cfg s rest (.timerRun e 0) .none { loop := s }

/-- The private handlers and those of the user, each with its branches. -/
theorem lightRun_handleEvents (cfg : Config) (s : EventLoop) (rest : List LoopFrame) (e : EventId)
    (events : Events) :
    LightRun cfg s rest (.handleEvents e events) .none (s.handleEvents cfg e events) := by
  unfold EventLoop.handleEvents
  cases hclass : cfg.handler e with
  | user fd => exact .user hclass
  | executeHandler =>
      dsimp only
      split
      · rename_i halive
        exact .execute hclass halive
      · rename_i hdead
        exact .executeDead hclass (eq_false_of_ne_true hdead)
  | timerHandler runOnce fd =>
      dsimp only
      split
      · exact .timerIgnored hclass
      · rename_i hguard
        simp only [Bool.or_eq_true, Bool.not_eq_true', not_or, Bool.not_eq_false,
          Bool.not_eq_true] at hguard
        exact .timer hclass hguard.1 hguard.2

/-- `read` on the timerfd, with its failures. -/
theorem lightRun_timerRead {cfg : Config} {s : EventLoop} {rest : List LoopFrame} {e : EventId}
    {i : LoopInput} {n : LoopNext} (h : s.timerRead cfg e i = some n) :
    LightRun cfg s rest (.timerRead e) i n := by
  cases i with
  | read ret =>
      cases ret with
      | error errno =>
          simp only [timerRead] at h
          obtain rfl := Option.some.inj h
          by_cases herr : errno = .EAGAIN
          · subst herr
            exact .notExpired
          · rw [if_neg herr]
            exact .readFails herr
      | ok occurrences =>
          simp only [timerRead] at h
          split at h
          · exact absurd h (by simp)
          · rename_i hne
            split at h
            · rename_i halive
              obtain rfl := Option.some.inj h
              exact .expired hne halive
            · rename_i hdead
              obtain rfl := Option.some.inj h
              exact .expiredDead hne (eq_false_of_ne_true hdead)
  | _ => exact absurd h (by simp [timerRead])

/-- A turn of the loop over the occurrences, and its end. -/
theorem lightRun_timerRun (cfg : Config) (s : EventLoop) (rest : List LoopFrame) (e : EventId)
    (k : Nat) : LightRun cfg s rest (.timerRun e k) .none (s.timerRun cfg e k) := by
  cases k with
  | succ k => exact .occurrence
  | zero =>
      simp only [timerRun]
      split
      · rename_i fd hclass
        exact .oneShot hclass
      · exact .interval

/-- **Inversion of the light frames.** Every outcome of a light frame is one of the branches
above, with the guards of that branch. -/
theorem lightRun {cfg : Config} {s : EventLoop} {rest : List LoopFrame} {i : LoopInput}
    {f : LoopFrame} {n : LoopNext} (hlight : f.light = true)
    (h : s.runFrame cfg rest i f = some n) : LightRun cfg s rest f i n := by
  cases f with
  | whileNotStop =>
      cases i <;> simp only [runFrame, reduceCtorEq] at h
      obtain rfl := Option.some.inj h
      cases hstop : s.stop with
      | true => exact .observed hstop
      | false => exact .goesOn hstop
  | copyEvents =>
      cases i <;> simp only [runFrame, reduceCtorEq] at h
      obtain rfl := Option.some.inj h
      exact .copied
  | closing events =>
      cases i <;> simp only [runFrame, reduceCtorEq] at h
      case close e =>
        split at h
        · rename_i hmem
          obtain rfl := Option.some.inj h
          exact .closes (by simpa using hmem)
        · exact absurd h (by simp)
      case none =>
        split at h
        · rename_i hempty
          obtain rfl := Option.some.inj h
          obtain rfl := List.isEmpty_iff.mp hempty
          exact .allClosed
        · exact absurd h (by simp)
  | wakeup =>
      cases i <;> simp only [runFrame, reduceCtorEq] at h
      obtain rfl := Option.some.inj h
      exact .wakes
  | batch notifications final =>
      cases notifications with
      | cons n ns => exact absurd hlight (by simp [LoopFrame.light])
      | nil =>
          cases i <;> simp only [runFrame, reduceCtorEq] at h
          cases final with
          | true =>
              obtain rfl := Option.some.inj h
              exact .returned
          | false =>
              obtain rfl := Option.some.inj h
              exact .passed
  | finalize elements =>
      cases elements with
      | cons el els => exact absurd hlight (by simp [LoopFrame.light])
      | nil =>
          cases i <;> simp only [runFrame, reduceCtorEq] at h
          obtain rfl := Option.some.inj h
          exact .finalized
  | dispose elements =>
      cases i <;> simp only [runFrame, reduceCtorEq] at h
      obtain rfl := Option.some.inj h
      exact .disposed
  | handleEvents e events =>
      cases i <;> simp only [runFrame, reduceCtorEq] at h
      obtain rfl := Option.some.inj h
      exact lightRun_handleEvents cfg s rest e events
  | release e =>
      cases i <;> simp only [runFrame, reduceCtorEq] at h
      case release last =>
        cases last with
        | false =>
            obtain rfl := Option.some.inj h
            exact .kept
        | true =>
            dsimp only at h
            split at h
            · rename_i hguard
              simp only [Bool.and_eq_true, Bool.not_eq_true', List.contains_eq_mem,
                decide_eq_false_iff_not] at hguard
              obtain rfl := Option.some.inj h
              exact .dropped hguard.1.1 hguard.1.2 hguard.2
            · exact absurd h (by simp)
  | callback e =>
      cases i <;> simp only [runFrame, reduceCtorEq] at h
      obtain rfl := Option.some.inj h
      exact .callback
  | closeEvent e =>
      cases i <;> simp only [runFrame, reduceCtorEq] at h
      obtain rfl := Option.some.inj h
      exact .closeEvent
  | removeInternal e =>
      cases i <;> simp only [runFrame, reduceCtorEq] at h
      obtain rfl := Option.some.inj h
      by_cases hin : e ∈ s.internalEventHandlers
      · rw [removeInternal, if_pos (by simpa using hin)]
        exact .removed hin
      · rw [removeInternal, if_neg (by simpa using hin)]
        exact .notInternal hin
  | timerRead e =>
      simp only [runFrame] at h
      exact lightRun_timerRead h
  | timerRun e k =>
      cases i <;> simp only [runFrame, reduceCtorEq] at h
      obtain rfl := Option.some.inj h
      exact lightRun_timerRun cfg s rest e k
  | process _ | eventfdRead | handleElements _ => exact absurd hlight (by simp [LoopFrame.light])

/-- The outcome of a finalize function. -/
inductive FinalizeRun (cfg : Config) (s : EventLoop) : Element → LoopInput → LoopNext → Prop
  /-- `AddFinalize` of an event without a descriptor calls its handler, if there still is one -/
  | added {e} : cfg.valid e = false → FinalizeRun cfg s (.add e) .none
      { loop := s
        frames := if (s.handlers e).alive then [.handleEvents e 0, .release e] else []
        obs := [.finalize (.add e)] }
  /-- `AddFinalize` of an event with a descriptor, with the answer of `EPOLL_CTL_ADD` -/
  | ctlAdd {e asked ret epoll} : cfg.valid e = true →
      EPoll.ctlAdd { s.epoll with events := Function.update s.epoll.events (cfg.handle e) (some e) }
        (cfg.handle e) e ret = some epoll →
      FinalizeRun cfg s (.add e) (.ctl asked ret)
        { loop := { s with epoll }
          obs := [.finalize (.add e), .ctlAdd e
            (EPollEvents.EPOLLET ||| getEPollEventsFromEvents (s.getEvents cfg e asked))]
          threw := ret.map fun errno => .systemError errno "epoll_ctl - EPOLL_CTL_ADD - failed" }
  /-- `RemoveFinalize` of an event without a descriptor -/
  | removed {e} : cfg.valid e = false → FinalizeRun cfg s (.remove e) .none
      { loop := s, obs := [.finalize (.remove e)] }
  /-- `RemoveFinalize` finds no event under the descriptor -/
  | notFound {e} : cfg.valid e = true → s.epoll.events (cfg.handle e) = none →
      FinalizeRun cfg s (.remove e) .none
        { loop := s, obs := [.finalize (.remove e)], threw := some (.text "event not found") }
  /-- `RemoveFinalize` of an event with a descriptor, with the answer of `EPOLL_CTL_DEL` -/
  | ctlDel {e asked ret epoll} : cfg.valid e = true → s.epoll.events (cfg.handle e) ≠ none →
      EPoll.ctlDel { s.epoll with events := Function.update s.epoll.events (cfg.handle e) none }
        (cfg.handle e) ret = some epoll →
      FinalizeRun cfg s (.remove e) (.ctl asked ret)
        { loop := { s with epoll }
          obs := [.finalize (.remove e), .ctlDel e]
          threw := ret.map fun errno => .systemError errno "epoll_ctl - EPOLL_CTL_DEL - failed" }
  /-- `ReadyFinalize` finds another event under the descriptor, or none -/
  | ignored {e events attached} : s.epoll.events (cfg.handle e) ≠ some e →
      FinalizeRun cfg s (.ready e events attached) .none
        { loop := s, obs := [.finalize (.ready e events attached), .ignored e] }
  /-- `ReadyFinalize` calls the handler, if there still is one -/
  | ready {e events attached} : s.epoll.events (cfg.handle e) = some e →
      FinalizeRun cfg s (.ready e events attached) .none
        { loop := s
          frames := if (s.handlers e).alive then [.handleEvents e events, .release e] else []
          obs := [.finalize (.ready e events attached)] }

/-- **Inversion of the finalize functions**, with the failures of `epoll_ctl`. -/
theorem finalizeRun {cfg : Config} {s : EventLoop} {i : LoopInput} {element : Element}
    {n : LoopNext} (h : s.finalizeElement cfg i element = some n) :
    FinalizeRun cfg s element i n := by
  cases element with
  | add e =>
      cases i <;> simp only [finalizeElement, addFinalize, reduceCtorEq] at h
      case none =>
        split at h
        · exact absurd h (by simp)
        · rename_i hvalid
          obtain rfl := Option.some.inj h
          exact .added (eq_false_of_ne_true hvalid)
      case ctl asked ret =>
        split at h
        · rename_i hvalid
          obtain ⟨epoll, hctl, rfl⟩ := Option.map_eq_some_iff.mp h
          exact .ctlAdd hvalid hctl
        · exact absurd h (by simp)
  | remove e =>
      cases i <;> simp only [finalizeElement, removeFinalize, reduceCtorEq] at h
      case none =>
        split at h
        · rename_i hvalid
          obtain rfl := Option.some.inj h
          exact .removed (by simpa using hvalid)
        · rename_i hvalid
          split at h
          · rename_i hnone
            obtain rfl := Option.some.inj h
            exact .notFound (by simpa using hvalid) (by simpa using hnone)
          · exact absurd h (by simp)
      case ctl asked ret =>
        split at h
        · rename_i hcond
          rw [Bool.and_eq_true] at hcond
          obtain ⟨epoll, hctl, rfl⟩ := Option.map_eq_some_iff.mp h
          exact .ctlDel hcond.1 (Option.isSome_iff_ne_none.mp hcond.2) hctl
        · exact absurd h (by simp)
  | ready e events attached =>
      cases i <;> simp only [finalizeElement, readyFinalize, reduceCtorEq] at h
      split at h
      · rename_i hother
        obtain rfl := Option.some.inj h
        exact .ignored (by simpa using hother)
      · rename_i hsame
        obtain rfl := Option.some.inj h
        exact .ready (by simpa using hsame)

/-- The outcome of the innermost frame above `rest`. -/
inductive FrameRun (cfg : Config) (s : EventLoop) (rest : List LoopFrame) :
    LoopFrame → LoopInput → LoopNext → Prop
  /-- the frame touches neither the queues nor the tables -/
  | light {f i n} : f.light = true → LightRun cfg s rest f i n → FrameRun cfg s rest f i n
  /-- `epoll_wait` returns a batch, or nothing -/
  | wait {final poll} : FrameRun cfg s rest (.process final) (.wait poll)
      { loop := { s with epoll := (s.epoll.epollWait poll).2 }
        frames :=
          if (s.epoll.epollWait poll).1.isEmpty then [.process final]
          else [.batch (s.epoll.epollWait poll).1 final] }
  /-- `epoll_wait` fails -/
  | waitFails {final errno} : FrameRun cfg s rest (.process final) (.waitFails errno)
      { loop := s, threw := some (.systemError errno "epoll_wait failed") }
  /-- the next notification of the batch -/
  | notification {n ns final} : FrameRun cfg s rest (.batch (n :: ns) final) .none
      { loop := s, frames := s.processNotification n ++ [.batch ns final] }
  /-- the eventfd is read -/
  | drain : s.epoll.counter ≠ 0 → FrameRun cfg s rest .eventfdRead .none
      { loop := { s with epoll := { s.epoll with counter := 0 } }, frames := [.eventfdRead] }
  /-- the eventfd is read empty, and the three queues are drained behind it -/
  | drained : s.epoll.counter = 0 → FrameRun cfg s rest .eventfdRead .none
      { loop := s
        frames := [.handleElements .add, .handleElements .remove, .handleElements .ready] }
  /-- `HandleElements` swaps its queue out under `lock_` -/
  | swapped {q} : s.epoll.lock = none → FrameRun cfg s rest (.handleElements q) .none
      { loop := { s with epoll := (s.epoll.swapElements q).2 }
        frames := [.finalize (s.epoll.eventsPending q), .dispose (s.epoll.eventsPending q)] }
  /-- the next element of the container -/
  | finalize {element elements i n} : s.finalizeElement cfg i element = some n →
      FrameRun cfg s rest (.finalize (element :: elements)) i
        { n with frames := n.frames ++ [.finalize elements] }

/-- **Inversion of the frames** of the thread of the loop, the light ones and the others. -/
theorem frameRun {cfg : Config} {s : EventLoop} {rest : List LoopFrame} {i : LoopInput}
    {f : LoopFrame} {n : LoopNext} (h : s.runFrame cfg rest i f = some n) :
    FrameRun cfg s rest f i n := by
  by_cases hlight : f.light = true
  · exact .light hlight (lightRun hlight h)
  cases f with
  | process final =>
      cases i <;> simp only [runFrame, reduceCtorEq] at h
      case wait poll =>
        obtain rfl := Option.some.inj h
        exact .wait
      case waitFails errno =>
        obtain rfl := Option.some.inj h
        exact .waitFails
  | batch notifications final =>
      cases notifications with
      | nil => exact absurd rfl hlight
      | cons m ns =>
          cases i <;> simp only [runFrame, reduceCtorEq] at h
          obtain rfl := Option.some.inj h
          exact .notification
  | eventfdRead =>
      cases i <;> simp only [runFrame, reduceCtorEq] at h
      unfold EPoll.eventfdRead at h
      by_cases hzero : s.epoll.counter = 0
      · rw [if_pos hzero] at h
        obtain rfl := Option.some.inj h
        exact .drained hzero
      · rw [if_neg hzero] at h
        obtain rfl := Option.some.inj h
        exact .drain hzero
  | handleElements q =>
      cases i <;> simp only [runFrame, reduceCtorEq] at h
      split at h
      · rename_i hlock
        obtain rfl := Option.some.inj h
        exact .swapped (by simpa using hlock)
      · exact absurd h (by simp)
  | finalize elements =>
      cases elements with
      | nil => exact absurd rfl hlight
      | cons element elements =>
          simp only [runFrame] at h
          obtain ⟨n', hn', rfl⟩ := Option.map_eq_some_iff.mp h
          exact .finalize hn'
  | _ => exact absurd rfl hlight

/-! ### Calls -/

/-- The first piece of a call of `a`. -/
inductive Requested (cfg : Config) (s : EventLoop) (a : Agent) :
    Request → EventLoop → List LoopObs → Prop
  /-- `Attach` of a handler of the user -/
  | attach {e} : (s.handlers e).alive = true → (cfg.handler e).internal = false →
      Requested cfg s a (.attach e) (s.setCall a (.attaching e)) []
  /-- `AttachInternal` of a private handler, which enters the set first -/
  | attachInternal {e} : (s.handlers e).alive = true → (cfg.handler e).internal = true →
      (s.handlers e).attached = false → e ∉ s.internalEventHandlers →
      Requested cfg s a (.attachInternal e)
        ({ s with internalEventHandlers := e :: s.internalEventHandlers }.setCall a (.attaching e))
          []
  | closeEvent {e} : (s.handlers e).alive = true →
      Requested cfg s a (.closeEvent e) (s.closeEvent a e) []
  /-- `Cancel` sets `canceled_` and closes the event -/
  | cancel {e runOnce fd} : cfg.handler e = .timerHandler runOnce fd →
      (s.handlers e).alive = true → Requested cfg s a (.cancel e)
        ((s.setHandler e { s.handlers e with canceled := true }).closeEvent a e) []
  /-- `ReadyEvent` goes on to its push -/
  | ready {e events} : (s.handlers e).alive = true → (s.handlers e).attached = true →
      Requested cfg s a (.readyEvent e events)
        (s.setCall a (.pushing (.ready e events (s.attachReturned e)))) []
  /-- `ReadyEvent` without an event does nothing -/
  | readyIgnored {e events} : (s.handlers e).alive = true → (s.handlers e).attached = false →
      Requested cfg s a (.readyEvent e events) s []
  /-- `ModifyEvent` on a thread that is not the one of the loop -/
  | modifyOutside {e asked ret caught} : (s.handlers e).alive = true →
      (s.handlers e).attached = true → a ≠ .loop →
      Requested cfg s a (.modifyEvent e asked ret caught) s
        [.threw a (.text "Modify() called outside the scope of the event loop")]
  /-- `EPOLL_CTL_MOD` succeeds -/
  | modify {e asked caught} : (s.handlers e).alive = true → (s.handlers e).attached = true →
      a = .loop → s.epoll.interest (cfg.handle e) ≠ none →
      Requested cfg s a (.modifyEvent e asked none caught) s
        [.ctlMod e (getEPollEventsFromEvents (s.getEvents cfg e asked) ||| EPollEvents.EPOLLET)
          none]
  /-- it fails, and the caller catches the exception -/
  | modifyThrows {e asked errno} : (s.handlers e).alive = true → (s.handlers e).attached = true →
      a = .loop → Requested cfg s a (.modifyEvent e asked (some errno) true) s
        [.ctlMod e (getEPollEventsFromEvents (s.getEvents cfg e asked) ||| EPollEvents.EPOLLET)
          (some errno),
          .threw a (.systemError errno "epoll_ctl - EPOLL_CTL_MOD - failed")]
  /-- it fails, and the exception leaves `Run` -/
  | modifyFails {e asked errno} : (s.handlers e).alive = true → (s.handlers e).attached = true →
      a = .loop → Requested cfg s a (.modifyEvent e asked (some errno) false)
        { s with
          stack := []
          crashed := some (.systemError errno "epoll_ctl - EPOLL_CTL_MOD - failed") }
        [.ctlMod e (getEPollEventsFromEvents (s.getEvents cfg e asked) ||| EPollEvents.EPOLLET)
          (some errno),
          .threw a (.systemError errno "epoll_ctl - EPOLL_CTL_MOD - failed")]
  /-- `ModifyEvent` without an event does nothing -/
  | modifyIgnored {e asked ret caught} : (s.handlers e).alive = true →
      (s.handlers e).attached = false → Requested cfg s a (.modifyEvent e asked ret caught) s []
  /-- `Stop` sets `stop_` and calls `Wakeup` -/
  | stop : a ≠ .loop → Requested cfg s a .stop ({ s with stop := true }.setCall a .waking) []
  /-- the last reference to a handler goes away -/
  | destroyed {e} : (s.handlers e).alive = true → e ∉ s.internalEventHandlers →
      s.unused s.stack e = true → Requested cfg s a (.destroyHandler e) (s.destroyHandler a e)
        (if !(s.handlers e).attached && cfg.valid e then [.closeHandle e] else [])

/-- **Inversion of the calls** of the public interface. -/
theorem requested {cfg : Config} {s s' : EventLoop} {a : Agent} {r : Request} {o : List LoopObs}
    (h : s.request cfg a r = some (s', o)) : Requested cfg s a r s' o := by
  cases r with
  | attach e =>
      simp only [request] at h
      split at h
      · rename_i hguard
        simp only [Bool.and_eq_true, Bool.not_eq_true'] at hguard
        obtain ⟨rfl, rfl⟩ := Prod.mk.inj (Option.some.inj h)
        exact .attach hguard.1 hguard.2
      · exact absurd h (by simp)
  | attachInternal e =>
      simp only [request] at h
      split at h
      · rename_i hguard
        simp only [Bool.and_eq_true, Bool.not_eq_true', List.contains_eq_mem,
          decide_eq_false_iff_not] at hguard
        obtain ⟨rfl, rfl⟩ := Prod.mk.inj (Option.some.inj h)
        exact .attachInternal hguard.1.1.1 hguard.1.1.2 hguard.1.2 hguard.2
      · exact absurd h (by simp)
  | closeEvent e =>
      simp only [request] at h
      split at h
      · rename_i halive
        obtain ⟨rfl, rfl⟩ := Prod.mk.inj (Option.some.inj h)
        exact .closeEvent halive
      · exact absurd h (by simp)
  | cancel e =>
      simp only [request] at h
      split at h
      · rename_i runOnce fd hclass
        split at h
        · rename_i halive
          obtain ⟨rfl, rfl⟩ := Prod.mk.inj (Option.some.inj h)
          exact .cancel hclass halive
        · exact absurd h (by simp)
      · exact absurd h (by simp)
  | readyEvent e events =>
      simp only [request] at h
      split at h
      · rename_i halive
        split at h
        · rename_i hatt
          obtain ⟨rfl, rfl⟩ := Prod.mk.inj (Option.some.inj h)
          exact .ready halive hatt
        · rename_i hatt
          obtain ⟨rfl, rfl⟩ := Prod.mk.inj (Option.some.inj h)
          exact .readyIgnored halive (eq_false_of_ne_true hatt)
      · exact absurd h (by simp)
  | modifyEvent e asked ret caught =>
      simp only [request] at h
      split at h
      · rename_i halive
        split at h
        · rename_i hatt
          unfold modifyEvent at h
          split at h
          · rename_i ha
            obtain ⟨rfl, rfl⟩ := Prod.mk.inj (Option.some.inj h)
            exact .modifyOutside halive hatt (by simpa using ha)
          · rename_i ha
            have ha : a = .loop := by simpa using ha
            obtain ⟨epoll, hepoll, heq⟩ := Option.map_eq_some_iff.mp h
            have hsame := EPoll.ctlMod_eq hepoll
            subst hsame
            cases ret with
            | none =>
                obtain ⟨rfl, rfl⟩ := Prod.mk.inj heq
                refine .modify halive hatt ha fun hnone => ?_
                simp [EPoll.ctlMod, hnone] at hepoll
            | some errno =>
                obtain ⟨rfl, rfl⟩ := Prod.mk.inj heq
                cases caught with
                | true => exact .modifyThrows halive hatt ha
                | false => exact .modifyFails halive hatt ha
        · rename_i hatt
          obtain ⟨rfl, rfl⟩ := Prod.mk.inj (Option.some.inj h)
          exact .modifyIgnored halive (eq_false_of_ne_true hatt)
      · exact absurd h (by simp)
  | stop =>
      simp only [request] at h
      split at h
      · rename_i ha
        obtain ⟨rfl, rfl⟩ := Prod.mk.inj (Option.some.inj h)
        exact .stop (by simpa using ha)
      · exact absurd h (by simp)
  | destroyHandler e =>
      simp only [request] at h
      split at h
      · rename_i hguard
        simp only [Bool.and_eq_true, Bool.not_eq_true', List.contains_eq_mem,
          decide_eq_false_iff_not] at hguard
        obtain ⟨rfl, rfl⟩ := Prod.mk.inj (Option.some.inj h)
        exact .destroyed hguard.1.1 hguard.1.2 hguard.2
      · exact absurd h (by simp)

/-- The next piece of the call of `a`. -/
inductive Proceeded (cfg : Config) (s : EventLoop) (a : Agent) :
    Progress → EventLoop → List LoopObs → Prop
  /-- the handler has an event already -/
  | attachRefused {e} : (s.handlers e).attached = true →
      Proceeded cfg s a (.attaching e) (s.endCall a)
        [.threw a (.text "event handler already attached")]
  /-- `CreateEvent`, and the event enters `events_` -/
  | created {e} : (s.handlers e).attached = false → s.freshHandle cfg e = true →
      Proceeded cfg s a (.attaching e)
        (({ s with objects := e :: s.objects, events := e :: s.events }.setHandler e
          { s.handlers e with attached := true }).setCall a (.pushing (.add e))) [.created e]
  /-- `AddElement` pushes its element, under `lock_` -/
  | pushed {element} : s.epoll.lock = none →
      Proceeded cfg s a (.pushing element) (s.push a element) [.queued element]
  /-- `AddElement` has written to the eventfd, and returns -/
  | signalled {element} : Proceeded cfg s a (.signalling element)
      ({ s with epoll := { s.epoll.wakeup with lock := none } }.complete a element) []
  /-- `Wakeup` has written to the eventfd -/
  | woken : Proceeded cfg s a .waking ({ s with epoll := s.epoll.wakeup }.endCall a) []
  /-- `Close` takes `close_flag_` -/
  | closeBegins {e} : (s.handlers e).closeFlag = .clear → Proceeded cfg s a (.closing e)
      ((s.setHandler e { s.handlers e with closeFlag := .active }).setCall a (.erasing e)) []
  /-- another call of `Close` has been through `close_flag_` -/
  | closeReturns {e} : (s.handlers e).closeFlag = .done →
      Proceeded cfg s a (.closing e) (s.endCall a) []
  /-- `EventLoop::Remove` erases the event -/
  | erased {e} : e ∈ s.events → Proceeded cfg s a (.erasing e)
      ({ s with events := s.events.erase e }.setCall a (.pushing (.remove e))) [.closed e]
  /-- `EventLoop::Remove` throws -/
  | notFound {e} : e ∉ s.events → Proceeded cfg s a (.erasing e)
      { s with stack := [], crashed := some (.text "event not found") } []

/-- **Inversion of a call that goes on**, from one point to the next where it can be interrupted.
-/
theorem proceeded {cfg : Config} {s s' : EventLoop} {a : Agent} {p : Progress}
    {o : List LoopObs} (h : s.proceed cfg a p = some (s', o)) : Proceeded cfg s a p s' o := by
  cases p with
  | attaching e =>
      simp only [proceed, createEvent] at h
      split at h
      · rename_i hatt
        obtain ⟨rfl, rfl⟩ := Prod.mk.inj (Option.some.inj h)
        exact .attachRefused hatt
      · rename_i hatt
        split at h
        · rename_i hfresh
          obtain ⟨rfl, rfl⟩ := Prod.mk.inj (Option.some.inj h)
          exact .created (eq_false_of_ne_true hatt) hfresh
        · exact absurd h (by simp)
  | pushing element =>
      simp only [proceed] at h
      split at h
      · rename_i hlock
        obtain ⟨rfl, rfl⟩ := Prod.mk.inj (Option.some.inj h)
        exact .pushed (by simpa using hlock)
      · exact absurd h (by simp)
  | signalling element =>
      simp only [proceed] at h
      obtain ⟨rfl, rfl⟩ := Prod.mk.inj (Option.some.inj h)
      exact .signalled
  | waking =>
      simp only [proceed] at h
      obtain ⟨rfl, rfl⟩ := Prod.mk.inj (Option.some.inj h)
      exact .woken
  | closing e =>
      simp only [proceed] at h
      split at h
      · rename_i hflag
        obtain ⟨rfl, rfl⟩ := Prod.mk.inj (Option.some.inj h)
        exact .closeBegins hflag
      · exact absurd h (by simp)
      · rename_i hflag
        obtain ⟨rfl, rfl⟩ := Prod.mk.inj (Option.some.inj h)
        exact .closeReturns hflag
  | erasing e =>
      simp only [proceed] at h
      split at h
      · rename_i he
        obtain ⟨rfl, rfl⟩ := Prod.mk.inj (Option.some.inj h)
        exact .erased (by simpa using he)
      · rename_i he
        obtain ⟨rfl, rfl⟩ := Prod.mk.inj (Option.some.inj h)
        exact .notFound (by simpa using he)

end EventLoop

end Libael
