import Libael.Tcp.Filter

/-!
# Libael.Handle

`Handle::CreateStreamHandle` (`lib/handle.cc`): how a client's socket comes into being,
and in which state the kernel leaves it.
-/

namespace Libael

namespace Handle

/-- `SockAddr::domain` -/
inductive Domain
  | AF_INET | AF_INET6
  deriving Repr, DecidableEq

/-- `GetSockAddr`; `inetPton` tells for which families `inet_pton` accepts the address. -/
def getSockAddr (inetPton : Domain → Bool) : Except Exception Domain :=
  if inetPton .AF_INET then .ok .AF_INET
  else if inetPton .AF_INET6 then .ok .AF_INET6
  else .error (.text "invalid host - inet_pton failed for both IPv4 and IPv6")

/-- What the three calls of `Handle::CreateStreamHandle` return. -/
structure Calls where
  inetPton : Domain → Bool
  socket : Except Errno Unit
  connect : Except Errno Unit

/-- `Handle::CreateStreamHandle`: the value of `is_connected`. -/
def createStreamHandle (calls : Calls) : Except Exception Bool := do
  let _domain ← getSockAddr calls.inetPton
  match calls.socket with
  | .error e => .error (.systemError e "socket failed")
  | .ok () =>
    match calls.connect with
    | .ok () => .ok true
    | .error e =>
      match e with
      | .EINPROGRESS => .ok false
      | .EAFNOSUPPORT | .EALREADY | .EBADF | .EFAULT | .EISCONN | .ENOTSOCK =>
        .error (.systemError e "connect failed")
      | _ => .ok false

/-- The socket as `connect(2)` leaves it. An error it returns itself is not reported by
`getsockopt(SO_ERROR)` any more. -/
def socketAfter : Except Errno Unit → Socket
  | .ok () => { connecting := false, established := true, soError := none }
  | .error .EINPROGRESS => { connecting := true, established := false, soError := none }
  | .error _ => { connecting := false, established := false, soError := none }

/-- `is_connected` says that the connection is established. -/
theorem createStreamHandle_connected {calls : Calls}
    (h : createStreamHandle calls = .ok true) : (socketAfter calls.connect).established = true := by
  unfold createStreamHandle at h
  cases hd : getSockAddr calls.inetPton with
  | error e => simp [hd, bind, Except.bind] at h
  | ok d =>
      simp only [hd, bind, Except.bind] at h
      split at h
      · exact absurd h (by simp)
      · split at h
        · rename_i hc
          rw [hc]
          rfl
        · split at h <;> exact absurd h (by simp)

end Handle

end Libael
