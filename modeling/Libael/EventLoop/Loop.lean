import Mathlib.Data.List.AList
import Libael.EPoll.EPoll

/-!
# Libael.EventLoop.Loop

`EventLoop` (`include/event_loop.h`, `lib/event_loop.cc`) with its `EPoll`, its events
and their handlers (`lib/event.cc`): the objects, the calls of the public interface
that may be in progress, and what the thread of the loop has still to run.

An event shares the id of its handler, so one `EventId` names both. Which handlers
there can be is a parameter (`Config`): an `ExecuteHandler`, a `TimerHandler`, or a
class of the user, whose `HandleEvents` may do anything the public interface allows.
-/

namespace Libael

/-- The class of an event handler, with what its constructor has been given. -/
inductive HandlerClass
  | executeHandler
  | timerHandler (runOnce : Bool) (fd : Nat)
  | user (handle : Fd)
  deriving DecidableEq

/-- `EventHandler::handle_` -/
def HandlerClass.handle : HandlerClass → Fd
  | .executeHandler => -1
  | .timerHandler _ fd => fd
  | .user handle => handle

/-- The handler class is one of the private classes of `EventLoop`. -/
def HandlerClass.internal : HandlerClass → Bool
  | .user _ => false
  | _ => true

/-- The handlers of a run, and `GLOBAL_CONFIG`. -/
structure Config where
  handler : EventId → HandlerClass
  intervalOccurrencesLimit : Nat

namespace Config

/-- `Event::GetHandle` -/
def handle (cfg : Config) (e : EventId) : Fd := (cfg.handler e).handle

/-- The event has a descriptor. -/
def valid (cfg : Config) (e : EventId) : Bool := (cfg.handle e).valid

end Config

/-- `std::once_flag` -/
inductive OnceFlag
  | clear | active | done
  deriving Repr, DecidableEq

/-- An `EventHandler`, and what its `Event` keeps besides the id and the handle. -/
structure EventHandler where
  /-- the handler object exists -/
  alive : Bool := true
  /-- `event_` is set -/
  attached : Bool := false
  /-- `Event::close_flag_` -/
  closeFlag : OnceFlag := .clear
  /-- `TimerHandler::canceled_` -/
  canceled : Bool := false
  /-- `instance_` can be locked -/
  instanceAlive : Bool := true
  deriving DecidableEq

/-- A call in progress on some thread, by what it does next. -/
inductive Progress
  /-- `Attach`, before `CreateEvent` -/
  | attaching (e : EventId)
  /-- `AddElement`, about to take `lock_` -/
  | pushing (element : Element)
  /-- `AddElement`, holding `lock_`, about to call `Wakeup` -/
  | signalling (element : Element)
  /-- `Wakeup`, called by `Stop` or by `Run` -/
  | waking
  /-- `Event::Close`, at its `call_once` -/
  | closing (e : EventId)
  /-- `EventLoop::Remove`, about to take the lock of the loop -/
  | erasing (e : EventId)
  deriving DecidableEq

/-- What the thread of the loop has still to run, innermost first. -/
inductive LoopFrame
  /-- the test of `while (!stop_)` in `Run` -/
  | whileNotStop
  /-- `Run`, about to copy `events_` -/
  | copyEvents
  /-- the closing pass of `Run`, with these events left -/
  | closing (events : List EventId)
  /-- the `Wakeup` of `Run` -/
  | wakeup
  /-- `Process`, at `epoll_wait`; `final` after the closing pass -/
  | process (final : Bool)
  /-- the loop of `Process` over what `epoll_wait` returned -/
  | batch (notifications : List Notification) (final : Bool)
  /-- the loop around `eventfd_read` -/
  | eventfdRead
  /-- `HandleElements`, before its swap -/
  | handleElements (q : Queue)
  /-- the loop of `HandleElements` -/
  | finalize (elements : List Element)
  /-- the end of `HandleElements`, where the swapped container is destroyed -/
  | dispose (elements : List Element)
  /-- the call of `HandleEvents` -/
  | handleEvents (e : EventId) (events : Events)
  /-- the caller of `HandleEvents` lets its `shared_ptr`s go -/
  | release (e : EventId)
  /-- code of the user: its own `HandleEvents`, or a `func_` -/
  | callback (e : EventId)
  /-- `Event::Close` -/
  | closeEvent (e : EventId)
  /-- `RemoveInternal` -/
  | removeInternal (e : EventId)
  /-- `TimerHandler::HandleEvents`, at `read` -/
  | timerRead (e : EventId)
  /-- `TimerHandler::HandleEvents`, with this many occurrences left -/
  | timerRun (e : EventId) (occurrences : Nat)

/-- An `EventLoop` with everything that is going on in it. -/
structure EventLoop where
  epoll : EPoll
  events : List EventId
  internalEventHandlers : List EventId
  stop : Bool
  /-- `events_to_close`, the local variable of `Run` -/
  eventsToClose : List EventId
  handlers : EventId → EventHandler
  /-- the `Event` objects that exist -/
  objects : List EventId
  calls : AList fun _ : Agent => Progress
  stack : List LoopFrame
  crashed : Option Exception

/-- What a run of an event loop shows. -/
inductive LoopObs
  /-- `CreateEvent` -/
  | created (e : EventId)
  /-- `EventLoop::Remove` has taken the event out of `events_` -/
  | closed (e : EventId)
  /-- `AddElement` has queued the element -/
  | queued (element : Element)
  /-- `AddFinalize`, `RemoveFinalize` or `ReadyFinalize` is called -/
  | finalize (element : Element)
  /-- `ReadyFinalize` has found the event not registered -/
  | ignored (e : EventId)
  /-- `HandleEvents` is called -/
  | handleEvents (e : EventId) (events : Events)
  /-- `func_` is called -/
  | func (e : EventId)
  /-- `epoll_ctl`, with the interest it is called with; what a modification returns -/
  | ctlAdd (e : EventId) (interest : EPollEvents)
  | ctlMod (e : EventId) (interest : EPollEvents) (ret : Option Errno)
  | ctlDel (e : EventId)
  /-- `Handle::Close` in a destructor -/
  | closeHandle (e : EventId)
  /-- an exception reaches the caller -/
  | threw (a : Agent) (ex : Exception)

/-- A call of the public interface, or of what a handler inherits. -/
inductive Request
  | attach (e : EventId)
  /-- `ExecuteOnce` or one of the timer calls, for a handler it has just made -/
  | attachInternal (e : EventId)
  | closeEvent (e : EventId)
  | cancel (e : EventId)
  | readyEvent (e : EventId) (events : Events)
  /-- `ModifyEvent`; what `GetEvents` answers, what `epoll_ctl` returns, and whether the code
  that calls it catches the error -/
  | modifyEvent (e : EventId) (asked : Events) (ret : Option Errno) (caught : Bool)
  | stop
  /-- the last reference to the handler is dropped -/
  | destroyHandler (e : EventId)

/-- What the kernel and the code of the user answer to the innermost frame. -/
inductive LoopInput
  | none
  /-- `epoll_wait`: what polling a registered descriptor reports -/
  | wait (poll : Fd → EventId → Option EPollEvents)
  | waitFails (e : Errno)
  /-- what `GetEvents` answers, and what `epoll_ctl` returns -/
  | ctl (asked : Events) (ret : Option Errno)
  /-- `read` on a timerfd: the number of expirations -/
  | read (ret : Except Errno Nat)
  /-- whether the reference let go was the last one to the handler -/
  | release (last : Bool)
  /-- the next event in the order of the copied table -/
  | close (e : EventId)

/-- The transitions of an event loop. -/
inductive LoopLabel
  /-- `a` calls into the library -/
  | call (a : Agent) (r : Request)
  /-- the call of `a` goes on -/
  | proceed (a : Agent)
  /-- the thread of the loop runs its innermost frame -/
  | loop (i : LoopInput)
  /-- the kernel sees an edge on a registered descriptor -/
  | edge (fd : Fd)
  /-- the target instance of an internal handler is destroyed -/
  | expire (e : EventId)
  /-- the last reference to an event is dropped: `Event::~Event` -/
  | destroyEvent (e : EventId)

namespace Progress

/-- The call holds a reference to the `Event`. -/
def mentions (e : EventId) : Progress → Bool
  | .attaching _ | .waking => false
  | .pushing element | .signalling element => element.event == e
  | .closing e' | .erasing e' => e' == e

/-- The call holds a reference to the handler, or is one of its methods. -/
def usesHandler (e : EventId) : Progress → Bool
  | .attaching e' => e' == e
  | .pushing element | .signalling element => element.queue != .remove && element.event == e
  | _ => false

/-- The call is `Attach` for `e`, past `CreateEvent`. -/
def adds (e : EventId) : Progress → Bool
  | .pushing element | .signalling element => element == .add e
  | _ => false

/-- The call owes a write to the eventfd. -/
def owesWrite : Progress → Bool
  | .signalling _ | .waking => true
  | _ => false

end Progress

namespace LoopFrame

/-- The frame holds a reference to the `Event`. -/
def mentions (e : EventId) : LoopFrame → Bool
  | .closing events => events.contains e
  | .finalize elements | .dispose elements => elements.any (·.event == e)
  | .handleEvents e' _ | .release e' | .callback e' | .closeEvent e' | .removeInternal e'
  | .timerRead e' | .timerRun e' _ => e' == e
  | _ => false

end LoopFrame

namespace EventLoop

/-- The state in which `Create` leaves the loop, its thread started. -/
def init : EventLoop :=
  { epoll := .new, events := [], internalEventHandlers := [], stop := false, eventsToClose := [],
    handlers := fun _ => {}, objects := [], calls := ∅, stack := [.whileNotStop], crashed := none }

/-! ### Bookkeeping -/

def setCall (s : EventLoop) (a : Agent) (p : Progress) : EventLoop :=
  { s with calls := s.calls.insert a p }

/-- The call of `a` returns. -/
def endCall (s : EventLoop) (a : Agent) : EventLoop := { s with calls := s.calls.erase a }

def setHandler (s : EventLoop) (e : EventId) (h : EventHandler) : EventLoop :=
  { s with handlers := Function.update s.handlers e h }

/-- `a` is running code of the user and may call the library: any time for a thread of
the user, in a callback for the thread of the loop. -/
def mayCall (s : EventLoop) (a : Agent) : Bool :=
  (s.calls.lookup a).isNone &&
    match a, s.stack with
    | .loop, .callback _ :: _ => true
    | .loop, _ => false
    | .user _, _ => true

/-- `Attach` has returned. -/
def attachReturned (s : EventLoop) (e : EventId) : Bool :=
  (s.handlers e).attached && s.calls.entries.all fun c => !c.2.adds e

/-- Nothing but its `internal_event_handlers_` entry, if there is one, keeps the handler:
no caller of `HandleEvents` on the stack and no call in progress refers to it. -/
def unused (s : EventLoop) (stack : List LoopFrame) (e : EventId) : Bool :=
  (stack.all fun f => match f with | .release e' => e' != e | _ => true) &&
    s.calls.entries.all fun c => !c.2.usesHandler e

/-- The descriptor of `e` is not owned by another event: the kernel has handed it out. -/
def freshHandle (cfg : Config) (s : EventLoop) (e : EventId) : Bool :=
  !cfg.valid e || s.objects.all fun e' => cfg.handle e' != cfg.handle e

/-- No `shared_ptr` to the `Event` is left. -/
def unreferenced (cfg : Config) (s : EventLoop) (e : EventId) : Bool :=
  !(s.handlers e).alive && !s.events.contains e && !s.eventsToClose.contains e &&
    s.epoll.events (cfg.handle e) != some e &&
    ([Queue.add, .remove, .ready].all fun q => (s.epoll.eventsPending q).all (·.event != e)) &&
    (s.stack.all fun f => !f.mentions e) && s.calls.entries.all fun c => !c.2.mentions e

/-- What `Event::GetEvents` returns; `asked` is the answer of a handler of the user. -/
def getEvents (cfg : Config) (s : EventLoop) (e : EventId) (asked : Events) : Events :=
  if (s.handlers e).alive then
    match cfg.handler e with
    | .executeHandler => 0
    | .timerHandler _ _ => Events.Read
    | .user _ => asked
  else 0

/-! ### The calls of the public interface -/

/-- `EventHandler::CloseEvent` -/
def closeEvent (s : EventLoop) (a : Agent) (e : EventId) : EventLoop :=
  if (s.handlers e).attached then s.setCall a (.closing e) else s

/-- `EventHandler::~EventHandler` -/
def destroyHandler (s : EventLoop) (a : Agent) (e : EventId) : EventLoop :=
  (s.setHandler e { s.handlers e with alive := false }).closeEvent a e

/-- `EventLoop::Modify` and `EPoll::Modify`. An error of `epoll_ctl` is thrown to the caller,
which is code that `HandleEvents` runs; where nobody catches it there, it ends the process. -/
def modifyEvent (cfg : Config) (s : EventLoop) (a : Agent) (e : EventId) (asked : Events)
    (ret : Option Errno) (caught : Bool) : Option (EventLoop × List LoopObs) :=
  if a != .loop then
    some (s, [.threw a (.text "Modify() called outside the scope of the event loop")])
  else
    let interest := getEPollEventsFromEvents (s.getEvents cfg e asked) ||| EPollEvents.EPOLLET
    (s.epoll.ctlMod (cfg.handle e) ret).map fun epoll =>
      match ret with
      | none => ({ s with epoll }, [.ctlMod e interest none])
      | some errno =>
        let ex := .systemError errno "epoll_ctl - EPOLL_CTL_MOD - failed"
        (if caught then { s with epoll } else { s with epoll, stack := [], crashed := some ex },
          [.ctlMod e interest (some errno), .threw a ex])

/-- The first piece of a call. -/
def request (cfg : Config) (s : EventLoop) (a : Agent) : Request →
    Option (EventLoop × List LoopObs)
  | .attach e =>
    if (s.handlers e).alive && !(cfg.handler e).internal then some (s.setCall a (.attaching e), [])
    else none
  | .attachInternal e =>
    if (s.handlers e).alive && (cfg.handler e).internal && !(s.handlers e).attached &&
        !s.internalEventHandlers.contains e then
      some ({ s with internalEventHandlers := e :: s.internalEventHandlers }.setCall a
        (.attaching e), [])
    else none
  | .closeEvent e => if (s.handlers e).alive then some (s.closeEvent a e, []) else none
  | .cancel e =>
    match cfg.handler e with
    | .timerHandler _ _ =>
      if (s.handlers e).alive then
        some ((s.setHandler e { s.handlers e with canceled := true }).closeEvent a e, [])
      else none
    | _ => none
  | .readyEvent e events =>
    if (s.handlers e).alive then
      if (s.handlers e).attached then
        some (s.setCall a (.pushing (.ready e events (s.attachReturned e))), [])
      else some (s, [])
    else none
  | .modifyEvent e asked ret caught =>
    if (s.handlers e).alive then
      if (s.handlers e).attached then s.modifyEvent cfg a e asked ret caught else some (s, [])
    else none
  | .stop => if a != .loop then some ({ s with stop := true }.setCall a .waking, []) else none
  | .destroyHandler e =>
    if (s.handlers e).alive && !s.internalEventHandlers.contains e && s.unused s.stack e then
      some (s.destroyHandler a e,
        if !(s.handlers e).attached && cfg.valid e then [.closeHandle e] else [])
    else none

/-- `EventLoop::Attach`: `CreateEvent`, up to the call of `EPoll::Add`. That `event_` is
read and written in one piece is what keeps two threads from attaching one handler. -/
def createEvent (cfg : Config) (s : EventLoop) (a : Agent) (e : EventId) :
    Option (EventLoop × List LoopObs) :=
  if (s.handlers e).attached then
    some (s.endCall a, [.threw a (.text "event handler already attached")])
  else if s.freshHandle cfg e then
    some (({ s with objects := e :: s.objects, events := e :: s.events }.setHandler e
      { s.handlers e with attached := true }).setCall a (.pushing (.add e)), [.created e])
  else none

/-- `AddElement` returns, and with it the call; for `Remove` also the `call_once`. -/
def complete (s : EventLoop) (a : Agent) (element : Element) : EventLoop :=
  let s := s.endCall a
  match element with
  | .remove e => s.setHandler e { s.handlers e with closeFlag := .done }
  | _ => s

/-- `EPoll::AddElement`, up to `Wakeup`. -/
def push (s : EventLoop) (a : Agent) (element : Element) : EventLoop :=
  let (first, epoll) := s.epoll.addElement a element
  if first then { s with epoll }.setCall a (.signalling element)
  else { s with epoll }.complete a element

/-- The next piece of the call of `a`. -/
def proceed (cfg : Config) (s : EventLoop) (a : Agent) : Progress →
    Option (EventLoop × List LoopObs)
  | .attaching e => s.createEvent cfg a e
  | .pushing element =>
    if s.epoll.lock.isNone then some (s.push a element, [.queued element]) else none
  | .signalling element =>
    some ({ s with epoll := { s.epoll.wakeup with lock := none } }.complete a element, [])
  | .waking => some ({ s with epoll := s.epoll.wakeup }.endCall a, [])
  | .closing e =>
    match (s.handlers e).closeFlag with
    | .clear =>
      some ((s.setHandler e { s.handlers e with closeFlag := .active }).setCall a (.erasing e), [])
    | .active => none
    | .done => some (s.endCall a, [])
  | .erasing e =>
    if s.events.contains e then
      some ({ s with events := s.events.erase e }.setCall a (.pushing (.remove e)), [.closed e])
    else
      -- the lock of the loop is never released again: no thread gets any further
      some ({ s with stack := [], crashed := some (.text "event not found") }, [])

/-! ### The thread of the loop -/

end EventLoop

/-- The outcome of the innermost frame: the loop, the frames to run before the rest, what
was shown, and the exception if one was thrown. -/
structure LoopNext where
  loop : EventLoop
  frames : List LoopFrame := []
  obs : List LoopObs := []
  threw : Option Exception := none

namespace EventLoop

/-- Continue with the outcome of the innermost frame. An exception ends the thread, and
with it the process. -/
def resume (rest : List LoopFrame) (n : LoopNext) : EventLoop :=
  match n.threw with
  | none => { n.loop with stack := n.frames ++ rest }
  | some ex => { n.loop with stack := [], crashed := some ex }

/-- `EPoll::AddFinalize` -/
def addFinalize (cfg : Config) (s : EventLoop) (e : EventId) : LoopInput → Option LoopNext
  | .none =>
    if cfg.valid e then none
    else
      some {
        loop := s
        frames := if (s.handlers e).alive then [.handleEvents e 0, .release e] else []
        obs := [.finalize (.add e)] }
  | .ctl asked ret =>
    if cfg.valid e then
      let epoll := { s.epoll with events := Function.update s.epoll.events (cfg.handle e) (some e) }
      (epoll.ctlAdd (cfg.handle e) e ret).map fun epoll =>
        { loop := { s with epoll }
          obs := [.finalize (.add e), .ctlAdd e
            (EPollEvents.EPOLLET ||| getEPollEventsFromEvents (s.getEvents cfg e asked))]
          threw := ret.map fun errno => .systemError errno "epoll_ctl - EPOLL_CTL_ADD - failed" }
    else none
  | _ => none

/-- `EPoll::RemoveFinalize` -/
def removeFinalize (cfg : Config) (s : EventLoop) (e : EventId) : LoopInput → Option LoopNext
  | .none =>
    if !cfg.valid e then some { loop := s, obs := [.finalize (.remove e)] }
    else if (s.epoll.events (cfg.handle e)).isNone then
      some {
        loop := s
        obs := [.finalize (.remove e)]
        threw := some (.text "event not found") }
    else none
  | .ctl _ ret =>
    if cfg.valid e && (s.epoll.events (cfg.handle e)).isSome then
      let epoll := { s.epoll with events := Function.update s.epoll.events (cfg.handle e) none }
      (epoll.ctlDel (cfg.handle e) ret).map fun epoll =>
        { loop := { s with epoll }
          obs := [.finalize (.remove e), .ctlDel e]
          threw := ret.map fun errno => .systemError errno "epoll_ctl - EPOLL_CTL_DEL - failed" }
    else none
  | _ => none

/-- `EPoll::ReadyFinalize` -/
def readyFinalize (cfg : Config) (s : EventLoop) (e : EventId) (events : Events)
    (attached : Bool) : LoopInput → Option LoopNext
  | .none =>
    let call := LoopObs.finalize (.ready e events attached)
    if s.epoll.events (cfg.handle e) != some e then some { loop := s, obs := [call, .ignored e] }
    else
      some {
        loop := s
        frames := if (s.handlers e).alive then [.handleEvents e events, .release e] else []
        obs := [call] }
  | _ => none

/-- The call of the finalize function on an element. -/
def finalizeElement (cfg : Config) (s : EventLoop) (i : LoopInput) : Element → Option LoopNext
  | .add e => s.addFinalize cfg e i
  | .remove e => s.removeFinalize cfg e i
  | .ready e events attached => s.readyFinalize cfg e events attached i

/-- The body of the loop of `EPoll::Process`, for the notification `n`. -/
def processNotification (s : EventLoop) (n : Notification) : List LoopFrame :=
  match n.item with
  | .pendingFd => [.eventfdRead]
  | .descriptor fd _ =>
    match s.epoll.events fd with
    | none => []
    | some e =>
      if (s.handlers e).alive then
        [.handleEvents e (getEventsFromEpollEvents n.events), .release e]
      else []

/-- `HandleEvents` of the class of `e`. -/
def handleEvents (cfg : Config) (s : EventLoop) (e : EventId) (events : Events) : LoopNext :=
  match cfg.handler e with
  | .user _ => { loop := s, frames := [.callback e], obs := [.handleEvents e events] }
  | .executeHandler =>
    if (s.handlers e).instanceAlive then
      { loop := s
        frames := [.callback e, .closeEvent e, .removeInternal e]
        obs := [.handleEvents e events, .func e] }
    else
      { loop := s
        frames := [.closeEvent e, .removeInternal e]
        obs := [.handleEvents e events] }
  | .timerHandler _ _ =>
    { loop := s
      frames :=
        if (s.handlers e).canceled || !events.has Events.Read then [] else [.timerRead e]
      obs := [.handleEvents e events] }

/-- `TimerHandler::HandleEvents`, after `read`. -/
def timerRead (cfg : Config) (s : EventLoop) (e : EventId) : LoopInput → Option LoopNext
  | .read (.error errno) =>
    some {
      loop := s
      threw := if errno = .EAGAIN then none
        else some (.systemError errno "timerfd read - failed") }
  | .read (.ok occurrences) =>
    if occurrences = 0 then none
    else if (s.handlers e).instanceAlive then
      some { loop := s, frames := [.timerRun e (min occurrences cfg.intervalOccurrencesLimit)] }
    else some { loop := s, frames := [.closeEvent e] }
  | _ => none

/-- The loop of `TimerHandler::HandleEvents` over the occurrences, and what follows it. -/
def timerRun (cfg : Config) (s : EventLoop) (e : EventId) : Nat → LoopNext
  | n + 1 => { loop := s, frames := [.callback e, .timerRun e n], obs := [.func e] }
  | 0 =>
    match cfg.handler e with
    | .timerHandler true _ =>
      { loop := s.setHandler e { s.handlers e with canceled := true }
        frames := [.closeEvent e] }
    | _ => { loop := s }

/-- `EventLoop::RemoveInternal` -/
def removeInternal (s : EventLoop) (e : EventId) : LoopNext :=
  if s.internalEventHandlers.contains e then
    { loop := { s with internalEventHandlers := s.internalEventHandlers.erase e } }
  else { loop := s, threw := some (.text "event handler found") }

/-- Run the innermost frame; `rest` are the frames below it. -/
def runFrame (cfg : Config) (s : EventLoop) (rest : List LoopFrame) (i : LoopInput) :
    LoopFrame → Option LoopNext
  | .whileNotStop =>
    match i with
    | .none => some { loop := s, frames := if s.stop then [.copyEvents] else [.process false] }
    | _ => none
  | .copyEvents =>
    match i with
    | .none => some { loop := { s with eventsToClose := s.events }, frames := [.closing s.events] }
    | _ => none
  | .closing events =>
    match i with
    | .close e =>
      if events.contains e then
        some { loop := s, frames := [.closeEvent e, .closing (events.erase e)] }
      else none
    | .none => if events.isEmpty then some { loop := s, frames := [.wakeup] } else none
    | _ => none
  | .wakeup =>
    match i with
    | .none => some { loop := s.setCall .loop .waking, frames := [.process true] }
    | _ => none
  | .process final =>
    match i with
    | .wait poll =>
      let (notifications, epoll) := s.epoll.epollWait poll
      some {
        loop := { s with epoll }
        frames := if notifications.isEmpty then [.process final] else [.batch notifications final] }
    | .waitFails e => some { loop := s, threw := some (.systemError e "epoll_wait failed") }
    | _ => none
  | .batch notifications final =>
    match i, notifications with
    | .none, n :: ns => some { loop := s, frames := s.processNotification n ++ [.batch ns final] }
    | .none, [] =>
      if final then some { loop := { s with eventsToClose := [] } }
      else some { loop := s, frames := [.whileNotStop] }
    | _, _ => none
  | .eventfdRead =>
    match i with
    | .none =>
      match s.epoll.eventfdRead with
      | some epoll => some { loop := { s with epoll }, frames := [.eventfdRead] }
      | none =>
        some {
          loop := s
          frames := [.handleElements .add, .handleElements .remove, .handleElements .ready] }
    | _ => none
  | .handleElements q =>
    match i with
    | .none =>
      if s.epoll.lock.isNone then
        let (elements, epoll) := s.epoll.swapElements q
        some { loop := { s with epoll }, frames := [.finalize elements, .dispose elements] }
      else none
    | _ => none
  | .finalize elements =>
    match elements with
    | [] =>
      match i with
      | .none => some { loop := s }
      | _ => none
    | element :: elements =>
      (s.finalizeElement cfg i element).map fun n =>
        { n with frames := n.frames ++ [.finalize elements] }
  | .dispose _ =>
    match i with
    | .none => some { loop := s }
    | _ => none
  | .handleEvents e events =>
    match i with
    | .none => some (s.handleEvents cfg e events)
    | _ => none
  | .release e =>
    match i with
    | .release false => some { loop := s }
    | .release true =>
      if (s.handlers e).alive && !s.internalEventHandlers.contains e && s.unused rest e then
        some { loop := s.destroyHandler .loop e }
      else none
    | _ => none
  | .callback _ =>
    match i with
    | .none => some { loop := s }
    | _ => none
  | .closeEvent e =>
    match i with
    | .none => some { loop := s.closeEvent .loop e }
    | _ => none
  | .removeInternal e =>
    match i with
    | .none => some (s.removeInternal e)
    | _ => none
  | .timerRead e => s.timerRead cfg e i
  | .timerRun e occurrences =>
    match i with
    | .none => some (s.timerRun cfg e occurrences)
    | _ => none

/-- One transition of an event loop. -/
def step (cfg : Config) (l : LoopLabel) (s : EventLoop) : Option (EventLoop × List LoopObs) :=
  if s.crashed.isSome then none
  else
    match l with
    | .call a r => if s.mayCall a then s.request cfg a r else none
    | .proceed a =>
      match s.calls.lookup a with
      | some p => s.proceed cfg a p
      | none => none
    | .loop i =>
      match s.stack, s.calls.lookup .loop with
      | f :: rest, none => (s.runFrame cfg rest i f).map fun n => (resume rest n, n.obs)
      | _, _ => none
    | .edge fd =>
      (s.epoll.interest fd).map fun e =>
        ({ s with epoll := s.epoll.queueItem (.descriptor fd e) }, [])
    | .expire e =>
      some (s.setHandler e { s.handlers e with instanceAlive := false }, [])
    | .destroyEvent e =>
      if s.objects.contains e && s.unreferenced cfg e then
        if cfg.valid e then
          some ({ s with
              objects := s.objects.erase e
              epoll := s.epoll.unregister (cfg.handle e) }, [.closeHandle e])
        else some ({ s with objects := s.objects.erase e }, [])
      else none

end EventLoop

end Libael
