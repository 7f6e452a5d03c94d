import Libael.StreamBuffer.Machine

/-!
# Libael.Tcp.Filter

`TCPStreamBufferFilter` (`lib/tcp_stream_buffer_filter.cc`) over a kernel socket.
Its five virtual methods are functions of what the system call they make returned;
`tcpEnv` lets the kernel choose that value, within the contract of the call:

* `recv` and `send` may return anything, except that `send` never accepts more
  than it was given and accepts at least one byte of a non-empty buffer;
* `getsockopt(SO_ERROR)` hands out the pending error of the socket once, and
  returns 0 when there is none: while the handshake is in progress, and also after
  `connect(2)` has itself reported the error.

Logging is left out: no sink is installed.
-/

namespace Libael

/-- What a system call (or its absence) gives to a method of the filter. -/
inductive SysRet
  /-- `recv`: the bytes it stored, none at end of file -/
  | recv (ret : Except Errno (List UInt8))
  /-- `send`: how many bytes it accepted -/
  | send (ret : Except Errno Nat)
  /-- `getsockopt(SO_ERROR)`: the error of the socket, `none` for 0 -/
  | getsockopt (ret : Except Errno (Option Errno))
  /-- the method makes no system call -/
  | none
  /-- the kernel finishes the handshake -/
  | handshake
  /-- the kernel records an asynchronous error on the socket -/
  | socketError (e : Errno)
  deriving DecidableEq

/-- The kernel's side of a TCP socket: whether the handshake is still going on,
whether it has been completed, and the error `getsockopt(SO_ERROR)` will report. -/
structure Socket where
  connecting : Bool
  established : Bool
  soError : Option Errno
  deriving Repr, DecidableEq

namespace TCPStreamBufferFilter

/-- `TCPStreamBufferFilter::In` -/
def «in» : Except Errno (List UInt8) → Except Exception InResult
  | .ok [] => .ok ⟨true, none⟩
  | .error e =>
    match e with
    | .EAGAIN => .ok ⟨false, none⟩
    | .EFAULT | .EINVAL | .ENOTCONN | .ENOTSOCK | .EBADF =>
      .error (.systemError e "read failed")
    | _ => .ok ⟨true, none⟩
  | .ok bs => .ok (.ofBytes bs)

/-- `TCPStreamBufferFilter::Out`: the result, and `data_view` as it is left. -/
def out (writeRet : Except Errno Nat) (dataView : DataView) :
    Except Exception (OutResult × Option DataView) :=
  match writeRet with
  | .error e =>
    match e with
    | .EAGAIN => .ok (⟨false⟩, some dataView)
    | .EBADF | .EDESTADDRREQ | .EFAULT | .EINVAL | .EMSGSIZE | .ENOMEM | .ENOTCONN | .ENOTSOCK
    | .EOPNOTSUPP => .error (.systemError e "write failed")
    | _ => .ok (⟨true⟩, some dataView)
  | .ok n =>
    if n = 0 then .error (.text "write return 0 (kernel bug?)")
    else if (n : Int) < dataView.dataLength then do
      let suffix ← dataView.slice n
      let saved ← suffix.save
      return (⟨false⟩, some saved)
    else .ok (⟨false⟩, none)

/-- `TCPStreamBufferFilter::Accept` -/
def accept (pendingConnect : Bool) : Except Exception ConnectResult :=
  if pendingConnect then .ok .success
  else .error (.text "unexpected use case - connection should already be accepted")

/-- `TCPStreamBufferFilter::Connect`, after `getsockopt` where it is called. -/
def connect : Except Errno (Option Errno) → Except Exception ConnectResult
  | .error e => .error (.systemError e "getsockopt failed")
  | .ok (some _) => .ok .failed
  | .ok none => .ok .success

/-- `TCPStreamBufferFilter::Shutdown` -/
def shutdown : ShutdownResult := ⟨true⟩

/-- What `send` may return for `length` bytes. -/
def SendContract (length : Int) : Except Errno Nat → Prop
  | .ok n => (n : Int) ≤ length ∧ (0 < length → 0 < n)
  | .error _ => True

instance (length : Int) (ret : Except Errno Nat) : Decidable (SendContract length ret) := by
  cases ret <;> unfold SendContract <;> infer_instance

end TCPStreamBufferFilter

/-- The TCP filter and its socket. `pendingConnect` is `pending_connect_`, which is
true when the socket was connected before the filter was created. -/
def tcpEnv (pendingConnect : Bool) : FilterEnv Socket SysRet where
  «in» _ r k :=
    match r with
    | .recv ret => some (TCPStreamBufferFilter.in ret, k)
    | _ => none
  out _ r k d :=
    match r with
    | .send ret =>
      if TCPStreamBufferFilter.SendContract d.dataLength ret then
        some (TCPStreamBufferFilter.out ret d, k)
      else none
    | _ => none
  connect _ r k :=
    match pendingConnect, r with
    | true, .none => some (.ok .success, k)
    | false, .getsockopt (.error e) => some (TCPStreamBufferFilter.connect (.error e), k)
    | false, .getsockopt (.ok e) =>
      if e = k.soError then
        some (TCPStreamBufferFilter.connect (.ok e), { k with soError := none })
      else none
    | _, _ => none
  accept _ r k :=
    match r with
    | .none => some (TCPStreamBufferFilter.accept pendingConnect, k)
    | _ => none
  shutdown _ r k :=
    match r with
    | .none => some (.ok TCPStreamBufferFilter.shutdown, k)
    | _ => none
  tick r k :=
    match r with
    | .handshake =>
      if k.connecting then some { k with connecting := false, established := true } else none
    | .socketError e =>
      if k.connecting || k.established then some { k with connecting := false, soError := some e }
      else none
    | _ => none

/-- No `HandleConnected` callback stacks another filter on the TCP filter. -/
def TcpOnly (l : BufferLabel SysRet) (s : BufferState Socket) : Prop :=
  ∀ addr, l = .addFilter addr → s.buffer.addFilterAllowed = false

/-- `TcpOnly`, decided. -/
def tcpOnly (l : BufferLabel SysRet) (s : BufferState Socket) : Bool :=
  match l with
  | .addFilter _ => !s.buffer.addFilterAllowed
  | _ => true

theorem tcpOnly_iff {l : BufferLabel SysRet} {s : BufferState Socket} :
    tcpOnly l s = true ↔ TcpOnly l s := by
  cases l <;> simp [tcpOnly, TcpOnly]

/-- Runs of a stream buffer whose only filter is the TCP filter. -/
abbrev TcpRun (pendingConnect : Bool) : BufferState Socket → List (Obs SysRet) →
    BufferState Socket → Prop :=
  Lts.GuardedRun (bufferSystem (tcpEnv pendingConnect)) TcpOnly

theorem TcpRun.of_exec {pendingConnect : Bool} (ls : List (BufferLabel SysRet))
    {s s' : BufferState Socket} {tr : List (Obs SysRet)}
    (h : Lts.exec (bufferSystem (tcpEnv pendingConnect)) tcpOnly ls s = some (s', tr)) :
    TcpRun pendingConnect s tr s' :=
  Lts.GuardedRun.of_exec (fun _ _ => tcpOnly_iff.mp) h

end Libael
