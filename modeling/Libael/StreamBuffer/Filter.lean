import Libael.DataView

/-!
# Libael.StreamBuffer.Filter

`StreamBufferFilter` (`include/stream_buffer.h`): the state every filter of a
stream buffer has, the results of its virtual methods, and the environment that
answers those methods.

A filter's virtual methods (`In`, `Out`, `Connect`, `Accept`, `Shutdown`) are code
of a subclass. The stream buffer only depends on what they return or throw, so
they are a parameter: a `FilterEnv` says which answers the subclass together with
its surroundings (sockets, peers) may give. `κ` is the state of those
surroundings and `ρ` is what is left open: which answer comes, or which move the
surroundings make on their own.
-/

namespace Libael

/-- `OutResult` -/
structure OutResult where
  shouldClose : Bool
  deriving Repr, DecidableEq

/-- `InResult` -/
structure InResult where
  shouldClose : Bool
  dataView : Option DataView
  deriving DecidableEq

namespace InResult

/-- `InResult::HasData` -/
def hasData (r : InResult) : Bool :=
  match r.dataView with
  | some d => decide (0 < d.dataLength)
  | none => false

/-- `InResult(buf, buf_size)`: an owned copy of the bytes. -/
def ofBytes (bs : List UInt8) : InResult :=
  ⟨false, some ⟨some bs, bs.length, true, by simp, by simp⟩⟩

end InResult

/-- `ConnectResult` -/
inductive ConnectResult
  | pending | failed | success
  deriving Repr, DecidableEq

/-- `ShutdownResult` -/
structure ShutdownResult where
  complete : Bool
  deriving Repr, DecidableEq

/-- `StreamBufferFilter`. `addr` is the identity of the object; `prev` and `next`
hold the identities behind `prev_` and `next_`. -/
structure Filter where
  addr : Nat
  connected : Bool
  readClosed : Bool
  writeClosed : Bool
  prev : Option Nat
  next : Option Nat
  order : UInt32
  pendingOut : List DataView
  deriving DecidableEq

namespace Filter

/-- `StreamBufferFilter::StreamBufferFilter`; `order_` starts as `~1`. -/
def new (addr : Nat) : Filter :=
  { addr, connected := false, readClosed := false, writeClosed := false,
    prev := none, next := none, order := 0xFFFFFFFE, pendingOut := [] }

instance : Inhabited Filter := ⟨new 0⟩

/-- The filter has been closed in both directions. -/
def closed (f : Filter) : Bool := f.readClosed && f.writeClosed

/-- How one turn of an `Out` loop ends: the filter can no longer be written, the
head was not consumed completely, or it was. -/
inductive Drain
  | closed | blocked | consumed
  deriving Repr, DecidableEq

/-- The body the loops of `StreamBufferFilter::Write` and `StreamBufferFilter::Close`
share, after `Out` has returned for the popped head: `rest` is what is left of
`pending_out_`, and the second result is the view as `Out` left it. -/
def afterOut (f : Filter) (rest : List DataView) (res : OutResult × Option DataView) :
    Filter × Drain :=
  if res.1.shouldClose then ({ f with writeClosed := true, pendingOut := rest }, .closed)
  else
    match res.2 with
    | some d => ({ f with pendingOut := d :: rest }, .blocked)
    | none => ({ f with pendingOut := rest }, .consumed)

end Filter

/-- What answers the virtual methods of the `i`-th filter. Each answer is what the
method returns or throws; `none` means that `ρ` is no answer to this call.
`tick` is a move the surroundings make on their own. -/
structure FilterEnv (κ ρ : Type) where
  «in» : Nat → ρ → κ → Option (Except Exception InResult × κ)
  out : Nat → ρ → κ → DataView → Option (Except Exception (OutResult × Option DataView) × κ)
  connect : Nat → ρ → κ → Option (Except Exception ConnectResult × κ)
  accept : Nat → ρ → κ → Option (Except Exception ConnectResult × κ)
  shutdown : Nat → ρ → κ → Option (Except Exception ShutdownResult × κ)
  tick : ρ → κ → Option κ

end Libael
