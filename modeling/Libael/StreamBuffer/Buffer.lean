import Libael.StreamBuffer.Filter

/-!
# Libael.StreamBuffer.Buffer

`StreamBuffer` (`include/stream_buffer.h`, `lib/stream_buffer.cc`): the object and
its sequential methods. `HandleEvents` and what it calls are cut at every point
where another thread, the kernel or the user can step in: a method returns the
updated buffer together with the *frames* still to be run, and
`Libael.StreamBuffer.Machine` runs them.
-/

namespace Libael

/-- `StreamBuffer::StreamBufferMode` -/
inductive StreamBufferMode
  | server | client
  deriving Repr, DecidableEq

/-- The callbacks of a `StreamBufferHandler`. -/
inductive Callback
  | handleConnected
  | handleData (d : DataView)
  | handleEOF
  deriving DecidableEq

/-- `Events` bits passed to `ReadyEvent` by a stream buffer. -/
inductive ReadyKind
  | write | close
  deriving Repr, DecidableEq

/-- What is left to run of a `HandleEvents` call, innermost first. -/
inductive Frame
  /-- `StreamBuffer::DoRead` -/
  | doRead
  /-- the loop of `StreamBufferFilter::Read` -/
  | read (i : Nat)
  /-- `StreamBuffer::DoWrite` -/
  | doWrite
  /-- the loop of `StreamBufferFilter::Write` -/
  | write (i : Nat)
  /-- `StreamBuffer::DoClose` -/
  | doClose
  /-- the reverse loop of `DoClose`, with the filters below index `k` left -/
  | closeFrom (k : Nat)
  /-- the same loop, after `filter->Close()` has returned for the `k`-th filter -/
  | closeCheck (k : Nat)
  /-- `StreamBufferFilter::Close` -/
  | close (i : Nat)
  /-- the flush loop of `StreamBufferFilter::Close` -/
  | flush (i : Nat)
  /-- `StreamBufferFilter::Close`, after its flush loop -/
  | flushed (i : Nat)
  /-- the call of `Shutdown` -/
  | shutdown (i : Nat)
  /-- `StreamBuffer::DoConnect` -/
  | doConnect
  /-- `DoConnect`, after `HandleConnected` has returned -/
  | connected
  /-- `ModifyEvent()` -/
  | modifyEvent
  /-- `StreamBuffer::DoFinalize` -/
  | doFinalize
  /-- `DoFinalize`, after the peer's end of file has been turned into a close -/
  | finalizeEOF
  /-- `CloseEvent()` -/
  | closeEvent
  /-- code of the user, inside a callback -/
  | callback (c : Callback)
  deriving DecidableEq

/-- What a run of a stream buffer shows. `ρ` is the answer given to a filter. -/
inductive Obs (ρ : Type)
  /-- the event loop calls `HandleEvents`; whether the handler is still alive -/
  | handleEvents (alive : Bool)
  /-- `Write(d)` has queued its saved copy of `d` -/
  | accepted (d : DataView)
  /-- `should_close_` has been set -/
  | shouldClose
  /-- `DoWrite` has taken these views out of `pending_writes_` -/
  | swapped (ds : List DataView)
  /-- `In` of the `i`-th filter has answered -/
  | «in» (i : Nat) (r : ρ) (res : Except Exception InResult)
  /-- `Out` of the `i`-th filter has been called on `d` and has answered -/
  | out (i : Nat) (d : DataView) (r : ρ) (res : Except Exception (OutResult × Option DataView))
  /-- `Connect` or `Accept` of the `i`-th filter has answered -/
  | connect (i : Nat) (res : Except Exception ConnectResult)
  /-- `Shutdown` of the `i`-th filter has answered -/
  | shutdown (i : Nat) (res : Except Exception ShutdownResult)
  /-- a callback of the handler begins -/
  | callback (c : Callback)
  /-- `AddStreamBufferFilter` has added the filter -/
  | filterAdded (addr : Nat)
  /-- an exception reaches the caller of `Write` or `AddStreamBufferFilter` -/
  | threw (e : Exception)
  | readyEvent (k : ReadyKind)
  | modifyEvent
  | closeEvent

/-- The outcome of one piece of a `HandleEvents` call: the buffer, the frames to
run before the rest of the call, what was shown, and the exception if one was
thrown. -/
structure Next (ρ : Type) (β : Type) where
  buffer : β
  frames : List Frame := []
  obs : List (Obs ρ) := []
  threw : Option Exception := none

/-- The same outcome, with `x` shown before it. -/
def Next.after {ρ β : Type} (n : Next ρ β) (x : Obs ρ) : Next ρ β := { n with obs := x :: n.obs }

/-- `StreamBuffer` -/
structure StreamBuffer where
  streamFilters : List Filter
  pendingWrites : List DataView
  addFilterAllowed : Bool
  eofCalled : Bool
  shouldClose : Bool
  mode : StreamBufferMode
  deriving DecidableEq

namespace StreamBuffer

variable {ρ : Type}

/-- `StreamBuffer::StreamBuffer` -/
def new (mode : StreamBufferMode) : StreamBuffer :=
  { streamFilters := [], pendingWrites := [], addFilterAllowed := true,
    eofCalled := false, shouldClose := false, mode }

/-- The `i`-th filter; the list is never shorter where the source looks into it. -/
def filter (b : StreamBuffer) (i : Nat) : Filter := b.streamFilters.getD i default

def setFilter (b : StreamBuffer) (i : Nat) (f : Filter) : StreamBuffer :=
  { b with streamFilters := b.streamFilters.set i f }

/-- The position of `stream_filters_.back()`. -/
def backIndex (b : StreamBuffer) : Nat := b.streamFilters.length - 1

/-- `stream_filters_.back()` -/
def back (b : StreamBuffer) : Filter := b.filter b.backIndex

/-- `StreamBuffer::AddStreamBufferFilter` of a fresh filter object. -/
def addStreamBufferFilter (b : StreamBuffer) (streamFilter : Filter) :
    Except Exception StreamBuffer :=
  if !b.addFilterAllowed then .error (.text "filter added when it is not allowed")
  else
    let b := { b with addFilterAllowed := false }
    if b.streamFilters.isEmpty then
      .ok { b with streamFilters := [{ streamFilter with order := 0 }] }
    else
      let prev := b.back
      let b := b.setFilter b.backIndex { prev with next := some streamFilter.addr }
      .ok { b with
        streamFilters := b.streamFilters ++
          [{ streamFilter with prev := some prev.addr, order := prev.order + 1 }] }

/-- `StreamBuffer::Create` and `StreamBuffer::CreateForClient`, as far as the object
is concerned: a new buffer with the TCP filter (the object `addr`) added. -/
def create (mode : StreamBufferMode) (addr : Nat) : StreamBuffer :=
  match (new mode).addStreamBufferFilter (.new addr) with
  | .ok b => b
  | .error _ => new mode

theorem create_eq (mode : StreamBufferMode) (addr : Nat) : create mode addr =
    { streamFilters := [{ Filter.new addr with order := 0 }], pendingWrites := [],
      addFilterAllowed := false, eofCalled := false, shouldClose := false, mode } := rfl

/-- `StreamBuffer::IsConnected` -/
def isConnected (b : StreamBuffer) : Bool := b.back.connected

/-- `StreamBuffer::IsReadClosed` -/
def isReadClosed (b : StreamBuffer) : Bool := b.streamFilters.all (·.readClosed)

/-- `StreamBuffer::IsWriteClosed` -/
def isWriteClosed (b : StreamBuffer) : Bool := b.streamFilters.all (·.writeClosed)

/-- `StreamBuffer::HandleEvents`. `alive` tells whether `stream_buffer_handler_`
could be locked. -/
def handleEvents (b : StreamBuffer) (alive : Bool) : Next ρ StreamBuffer :=
  if !alive then { buffer := b, frames := [.closeEvent], obs := [.handleEvents alive] }
  else if b.shouldClose then
    { buffer := b, frames := [.doClose, .doFinalize], obs := [.handleEvents alive] }
  else if !b.isConnected then
    { buffer := b, frames := [.doConnect, .doFinalize], obs := [.handleEvents alive] }
  else { buffer := b, frames := [.doRead, .doWrite, .doFinalize], obs := [.handleEvents alive] }

/-- `StreamBuffer::DoRead` -/
def doRead (b : StreamBuffer) : Next ρ StreamBuffer :=
  if b.back.readClosed then { buffer := b }
  else { buffer := b, frames := [.read b.backIndex] }

/-- `StreamBuffer::DoWrite`, and the first statement of `StreamBufferFilter::Write`:
the views taken out of `pending_writes_` are appended to the filter's
`pending_out_`. -/
def doWrite (b : StreamBuffer) : Next ρ StreamBuffer :=
  let filter := b.back
  if filter.writeClosed then { buffer := b }
  else if b.pendingWrites.isEmpty then { buffer := b, obs := [.swapped []] }
  else
    { buffer := { b.setFilter b.backIndex
          { filter with pendingOut := filter.pendingOut ++ b.pendingWrites } with
        pendingWrites := [] }
      frames := [.write b.backIndex]
      obs := [.swapped b.pendingWrites] }

/-- `StreamBuffer::DoClose`, up to its reverse loop. -/
def doClose (b : StreamBuffer) : Next ρ StreamBuffer :=
  let shouldFlush := !b.streamFilters.any (·.writeClosed)
  if shouldFlush then
    { buffer := b, frames := [.doWrite, .closeFrom b.streamFilters.length] }
  else { buffer := b, frames := [.closeFrom b.streamFilters.length] }

/-- The condition under which `StreamBufferFilter::Close` calls `Shutdown`. -/
def flushDone (f : Filter) : Bool := f.pendingOut.isEmpty || f.writeClosed

/-- `StreamBufferFilter::Close`, up to its flush loop. -/
def close (b : StreamBuffer) (i : Nat) : Next ρ StreamBuffer :=
  if flushDone (b.filter i) then { buffer := b, frames := [.shutdown i] }
  else { buffer := b, frames := [.flush i] }

/-- `StreamBuffer::DoFinalize`, up to the possible `DoClose`. -/
def doFinalize (b : StreamBuffer) : Next ρ StreamBuffer :=
  if !b.shouldClose && b.back.readClosed then
    { buffer := { b with shouldClose := true }
      frames := [.doClose, .finalizeEOF]
      obs := [.shouldClose] }
  else { buffer := b, frames := [.finalizeEOF] }

/-- The rest of `StreamBuffer::DoFinalize`. -/
def finalizeEOF (b : StreamBuffer) : Next ρ StreamBuffer :=
  if b.isReadClosed && b.isWriteClosed && !b.eofCalled then
    { buffer := { b with eofCalled := true }
      frames := [.callback .handleEOF, .closeEvent]
      obs := [.callback .handleEOF] }
  else { buffer := b }

/-- The loop of `StreamBufferFilter::Read`, after `In` has returned. -/
def afterIn (b : StreamBuffer) (i : Nat) (res : InResult) : Next ρ StreamBuffer :=
  if res.shouldClose then
    { buffer := b.setFilter i { b.filter i with readClosed := true } }
  else
    match res.hasData, res.dataView with
    | true, some d =>
      { buffer := b
        frames := [.callback (.handleData d), .read i]
        obs := [.callback (.handleData d)] }
    | _, _ => { buffer := b }

/-- `StreamBuffer::DoConnect`, after `Connect` or `Accept` has returned. -/
def afterConnect (b : StreamBuffer) (i : Nat) : ConnectResult → Next ρ StreamBuffer
  | .failed =>
    { buffer := b.setFilter i { b.filter i with readClosed := true, writeClosed := true } }
  | .success =>
    { buffer := { b.setFilter i { b.filter i with connected := true } with
        addFilterAllowed := true }
      frames := [.callback .handleConnected, .connected, .modifyEvent]
      obs := [.callback .handleConnected] }
  | .pending => { buffer := b }

/-- `StreamBufferFilter::Close`, after `Shutdown` has returned. -/
def afterShutdown (b : StreamBuffer) (i : Nat) (res : ShutdownResult) : Next ρ StreamBuffer :=
  if res.complete then
    { buffer := b.setFilter i { b.filter i with writeClosed := true, readClosed := true } }
  else { buffer := b }

end StreamBuffer

end Libael
