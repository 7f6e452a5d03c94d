import Libael.EventLoop.Attended

/-!
# Libael.StreamListener.StreamListener

`StreamListener` (`lib/stream_listener.cc`): a handler that accepts connections. Its socket
is edge triggered like any other, and `HandleEvents` does not accept until there is nothing
left: after `listen_starvation_limit_` turns of its loop it returns, with connections in the
backlog that no edge will announce again. **What brings it back is the `ReadyEvent` it leaves
behind.**
-/

namespace Libael

open Lts

/-- Where `StreamListener::HandleEvents` is. -/
inductive ListenerCall
  /-- not called, or has returned -/
  | idle
  /-- at the head of the loop -/
  | accepting (i : Nat)
  /-- `accept4` has returned a descriptor -/
  | accepted (i : Nat) (newFd : Fd)
  /-- in `HandleNewConnection` of the user -/
  | newConnection (i : Nat)
  deriving DecidableEq

/-- `StreamListener`, and the part of the kernel it works on. -/
structure StreamListener where
  call : ListenerCall
  /-- `new_connection_handler_` can be locked -/
  newConnectionHandler : Bool
  /-- the number of connections `accept4` has not returned yet -/
  backlog : Nat
  crashed : Option Exception
  deriving DecidableEq

/-- The transitions of a listener. -/
inductive ListenerLabel
  | handleEvents (events : Events)
  /-- a turn of the loop, as far as what `accept4` returns -/
  | accept (ret : Except Errno Fd)
  /-- `new_connection_handler_.lock()`, and the call of it -/
  | lock
  /-- `HandleNewConnection` returns -/
  | handled
  /-- the loop is over -/
  | limitReached
  /-- the last reference to the handler of new connections is dropped -/
  | handlerDestroyed
  /-- a connection joins the backlog -/
  | arrives
  /-- a connection leaves the backlog by itself -/
  | aborted

/-- What a listener does to its surroundings. -/
inductive ListenerObs
  | handleEvents (events : Events)
  | accept (ret : Except Errno Fd)
  | newConnection (newFd : Fd)
  | readyEvent (events : Events)
  deriving DecidableEq

namespace StreamListener

/-! ### The code -/

/-- The socket has been created and listens. -/
def init : StreamListener :=
  { call := .idle, newConnectionHandler := true, backlog := 0, crashed := none }

/-- The errors of `accept4` that are thrown. -/
def acceptThrows : Errno → Bool
  | .EBADF | .EFAULT | .EINVAL | .EMFILE | .ENFILE | .ENOBUFS | .ENOMEM | .ENOTSOCK => true
  | _ => false

/-- What is assumed of `accept4`: it returns a connection of the backlog, and `EAGAIN` when
there is none. Any other error it may return at any time. -/
def acceptContract (backlog : Nat) : Except Errno Fd → Bool
  | .ok newFd => decide (0 ≤ newFd) && backlog != 0
  | .error .EAGAIN => backlog == 0
  | .error _ => true

/-- What `HandleEvents` does with the result of `accept4`. -/
def accept (s : StreamListener) (i : Nat) : Except Errno Fd → StreamListener
  | .ok newFd => { s with call := .accepted i newFd, backlog := s.backlog - 1 }
  | .error e =>
    if e = .EAGAIN then { s with call := .idle }
    else if acceptThrows e then
      { s with call := .idle, crashed := some (.systemError e "accept failed") }
    -- `continue`
    else { s with call := .accepting (i + 1) }

/-- One transition of a listener whose loop is limited to `limit` turns. -/
def step (limit : Int) (l : ListenerLabel) (s : StreamListener) :
    Option (StreamListener × List ListenerObs) :=
  if s.crashed.isSome then none else
  match l, s.call with
  | .handleEvents events, .idle =>
    some (if events.has Events.Read then { s with call := .accepting 0 } else s,
      [.handleEvents events])
  | .accept ret, .accepting i =>
    if i < limit ∧ acceptContract s.backlog ret = true then some (s.accept i ret, [.accept ret])
    else none
  | .lock, .accepted i newFd =>
    if s.newConnectionHandler then
      some ({ s with call := .newConnection i }, [.newConnection newFd])
    else some ({ s with call := .accepting (i + 1) }, [])
  | .handled, .newConnection i => some ({ s with call := .accepting (i + 1) }, [])
  | .limitReached, .accepting i =>
    if limit ≤ i then some ({ s with call := .idle }, [.readyEvent Events.Read]) else none
  -- the reference that `lock` has returned keeps it for the call
  | .handlerDestroyed, .newConnection _ => none
  | .handlerDestroyed, _ => some ({ s with newConnectionHandler := false }, [])
  | .arrives, _ => some ({ s with backlog := s.backlog + 1 }, [])
  | .aborted, _ => if s.backlog = 0 then none else some ({ s with backlog := s.backlog - 1 }, [])
  | _, _ => none

/-- Who takes a step of the code. -/
def actor : ListenerLabel → Actor
  | .handleEvents events => .entry (some events)
  | .accept _ | .lock | .handled | .limitReached => .body
  | .arrives => .surroundings true
  | .handlerDestroyed | .aborted => .surroundings false

/-- What the listener asks of its event. -/
def asks : ListenerObs → Option EventCall
  | .readyEvent events => some (.readyEvent events)
  | _ => none

end StreamListener

/-- A listener as the handler of an event. -/
def listenerCode (limit : Int) : HandlerCode StreamListener ListenerLabel ListenerObs where
  step := StreamListener.step limit
  actor := StreamListener.actor
  running s := s.call != .idle
  free s a :=
    match a, s.call with
    | .loop, .accepting _ | .loop, .accepted _ _ => false
    | _, _ => true
  crashed s := s.crashed.isSome
  asks := StreamListener.asks
  getEvents _ := Events.Read
  reports s := if s.backlog = 0 then 0 else EPollEvents.EPOLLIN

namespace StreamListener

/-! ### Inversion -/

/-- Everything a listener can do. -/
inductive Step (limit : Int) (s : StreamListener) :
    ListenerLabel → StreamListener → List ListenerObs → Prop
  /-- `HandleEvents` with `Read` starts its loop -/
  | called {events} : s.call = .idle → events.has Events.Read = true →
      Step limit s (.handleEvents events) { s with call := .accepting 0 } [.handleEvents events]
  /-- `HandleEvents` without `Read` returns -/
  | ignored {events} : s.call = .idle → events.has Events.Read = false →
      Step limit s (.handleEvents events) s [.handleEvents events]
  /-- `accept4` returns a connection -/
  | accepted {i newFd} : s.call = .accepting i → i < limit → s.backlog ≠ 0 →
      Step limit s (.accept (.ok newFd))
        { s with call := .accepted i newFd, backlog := s.backlog - 1 } [.accept (.ok newFd)]
  /-- `accept4` finds nothing, and `HandleEvents` returns -/
  | drained {i} : s.call = .accepting i → i < limit → s.backlog = 0 →
      Step limit s (.accept (.error .EAGAIN)) { s with call := .idle } [.accept (.error .EAGAIN)]
  /-- `accept4` fails for good, and `HandleEvents` throws -/
  | threw {i e} : s.call = .accepting i → i < limit → acceptThrows e = true →
      Step limit s (.accept (.error e))
        { s with call := .idle, crashed := some (.systemError e "accept failed") }
          [.accept (.error e)]
  /-- `accept4` fails, and the loop goes on -/
  | transient {i e} : s.call = .accepting i → i < limit → e ≠ .EAGAIN → acceptThrows e = false →
      Step limit s (.accept (.error e)) { s with call := .accepting (i + 1) } [.accept (.error e)]
  /-- `HandleNewConnection` is called, with the handler of the user locked -/
  | handed {i newFd} : s.call = .accepted i newFd → s.newConnectionHandler = true →
      Step limit s .lock { s with call := .newConnection i } [.newConnection newFd]
  /-- the handler of the user is gone -/
  | dropped {i newFd} : s.call = .accepted i newFd → s.newConnectionHandler = false →
      Step limit s .lock { s with call := .accepting (i + 1) } []
  /-- `HandleNewConnection` returns -/
  | handled {i} : s.call = .newConnection i →
      Step limit s .handled { s with call := .accepting (i + 1) } []
  /-- the limit of the loop: a `ReadyEvent` is left behind -/
  | limitReached {i : Nat} : s.call = .accepting i → limit ≤ i →
      Step limit s .limitReached { s with call := .idle } [.readyEvent Events.Read]
  | handlerDestroyed : (∀ i, s.call ≠ .newConnection i) →
      Step limit s .handlerDestroyed { s with newConnectionHandler := false } []
  /-- a connection arrives in the backlog -/
  | arrives : Step limit s .arrives { s with backlog := s.backlog + 1 } []
  /-- a connection of the backlog is aborted -/
  | aborted : s.backlog ≠ 0 → Step limit s .aborted { s with backlog := s.backlog - 1 } []

/-- Every step is one of `Step`, and is taken before a crash. -/
theorem step_inv {limit : Int} {l : ListenerLabel} {s s' : StreamListener} {o : List ListenerObs}
    (h : step limit l s = some (s', o)) : s.crashed = none ∧ Step limit s l s' o := by
  unfold step at h
  split at h
  · exact absurd h (by simp)
  rename_i hc
  refine ⟨by simpa using hc, ?_⟩
  split at h
  · -- `HandleEvents` is called
    rename_i events hcall
    obtain ⟨rfl, rfl⟩ := Prod.mk.inj (Option.some.inj h)
    split
    · rename_i hread
      exact .called hcall hread
    · rename_i hread
      exact .ignored hcall (by simpa using hread)
  · rename_i ret i hcall
    split at h
    · rename_i hcond
      obtain ⟨rfl, rfl⟩ := Prod.mk.inj (Option.some.inj h)
      cases ret with
      | ok newFd =>
          have hcontract := hcond.2
          simp only [acceptContract, Bool.and_eq_true, bne_iff_ne, ne_eq] at hcontract
          exact .accepted hcall hcond.1 hcontract.2
      | error e =>
          unfold accept
          dsimp only
          by_cases hagain : e = .EAGAIN
          · subst hagain
            rw [if_pos rfl]
            exact .drained hcall hcond.1 (by simpa [acceptContract] using hcond.2)
          · rw [if_neg hagain]
            split
            · rename_i hthrows
              exact .threw hcall hcond.1 hthrows
            · rename_i hthrows
              exact .transient hcall hcond.1 hagain (by simpa using hthrows)
    · exact absurd h (by simp)
  · rename_i i newFd hcall
    split at h
    · rename_i halive
      obtain ⟨rfl, rfl⟩ := Prod.mk.inj (Option.some.inj h)
      exact .handed hcall halive
    · rename_i halive
      obtain ⟨rfl, rfl⟩ := Prod.mk.inj (Option.some.inj h)
      exact .dropped hcall (by simpa using halive)
  · rename_i i hcall
    obtain ⟨rfl, rfl⟩ := Prod.mk.inj (Option.some.inj h)
    exact .handled hcall
  · rename_i i hcall
    split at h
    · rename_i hle
      obtain ⟨rfl, rfl⟩ := Prod.mk.inj (Option.some.inj h)
      exact .limitReached hcall hle
    · exact absurd h (by simp)
  · exact absurd h (by simp)
  · rename_i hcall
    obtain ⟨rfl, rfl⟩ := Prod.mk.inj (Option.some.inj h)
    exact .handlerDestroyed fun i hi => hcall i hi
  · obtain ⟨rfl, rfl⟩ := Prod.mk.inj (Option.some.inj h)
    exact .arrives
  · split at h
    · exact absurd h (by simp)
    · rename_i hne
      obtain ⟨rfl, rfl⟩ := Prod.mk.inj (Option.some.inj h)
      exact .aborted hne
  · exact absurd h (by simp)

end StreamListener

end Libael
