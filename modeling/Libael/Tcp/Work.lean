import Libael.StreamBuffer.Work
import Libael.Tcp.Calls
import Libael.Tcp.Receiving

/-!
# Libael.Tcp.Work

A call of `HandleEvents` over the TCP filter **returns once the peer stops sending**: each turn
of `Read` takes at least one byte out of the kernel. And it returns no sooner: a peer that keeps
sending holds the loop in `Read`, with what the user has written still in `pending_writes_`.

* The potential of a call (`Libael.StreamBuffer.Work`) counts the frames that are left. Over TCP
  the bytes of the kernel are added to it, which pays for the turns of `Read`.
* For the other half a run is built turn by turn: a chunk arrives, `recv` returns it, and it is
  handed over. The invariant of the turns keeps `Write` before the call and `DoWrite` behind all
  of them, so the order is read off the trace.
-/

namespace Libael

open Lts

namespace BufferState

variable {pendingConnect : Bool} {k k' : Inbound} {r : SysRet ⊕ Arrival} {n : Nat}

/-! ### What an answer takes from the kernel -/

/-- The thread of the loop is in `Read`, and has read everything there is on an open
connection. -/
structure AtRead (s : BufferState Inbound) : Prop where
  crashed : s.crashed = none
  stack : ∃ rest, s.stack = .read 0 :: rest
  idle : s.calls .loop = .idle
  established : s.env.socket.established = true
  eof : s.env.eof = false
  unread : s.env.unread = []

/-- Bytes arrive before `recv` is called again: they are handed over, and `Read` goes on. The
loop is where it was, with the stack below it untouched. -/
theorem read_turn (pendingConnect : Bool) {s : BufferState Inbound} {bs : List UInt8}
    (hs : AtRead s) (hne : bs ≠ []) (hlen : bs.length ≤ 100000) :
    ∃ tr s', Run (bufferSystem (inboundEnv pendingConnect)) s tr s' ∧ AtRead s' ∧
      s'.buffer = s.buffer ∧ handedData tr = bs ∧ tr.countP Obs.isHandleData = 1 ∧
      ∀ x ∈ tr, x.isHandleEvents = false ∧ x.isAccepted = false ∧ x.isOut = false := by
  obtain ⟨rest, hstack⟩ := hs.stack
  let d : DataView := ⟨some bs, bs.length, true, by simp, by simp⟩
  -- the bytes arrive
  have harrive : (bufferSystem (inboundEnv pendingConnect)).step (.tick (.inr (.bytes bs))) s =
      some ({ s with env := { s.env with unread := bs, lastRecv := none } }, []) := by
    simp [bufferSystem, step, hs.crashed, inboundEnv, Inbound.arrive, hs.established, hs.eof,
      hs.unread, hne]
  -- `recv` returns them
  have hrecv : (bufferSystem (inboundEnv pendingConnect)).step (.answer (.inl (.recv (.ok bs))))
      { s with env := { s.env with unread := bs, lastRecv := none } } =
      some ({ s with
          env := { s.env with unread := [], lastRecv := some (.ok bs) }
          stack := .callback (.handleData d) :: .read 0 :: rest },
        [.in 0 (.inl (.recv (.ok bs))) (.ok (.ofBytes bs)), .callback (.handleData d)]) := by
    have hcontract : Inbound.recvContract { s.env with unread := bs, lastRecv := none } (.ok bs) =
        true := by simp [Inbound.recvContract, hlen, hne]
    have hin : TCPStreamBufferFilter.in (.ok bs) = .ok (.ofBytes bs) := by
      cases bs with
      | nil => exact absurd rfl hne
      | cons b bs => rfl
    have hhas : (InResult.ofBytes bs).hasData = true := by
      simpa [InResult.hasData, InResult.ofBytes] using List.length_pos_of_ne_nil hne
    have hafter : (s.buffer.afterIn 0 (.ofBytes bs) : Next (SysRet ⊕ Arrival) StreamBuffer) =
        { buffer := s.buffer
          frames := [.callback (.handleData d), .read 0]
          obs := [.callback (.handleData d)] } := by
      unfold StreamBuffer.afterIn
      rw [hhas]
      rfl
    simp only [bufferSystem, step, hs.crashed, hstack, StreamBuffer.answerFrame, inboundEnv, tcpEnv,
      hcontract, hin]
    simp [hafter, Next.after, resume, Inbound.recv]
  -- `HandleData` returns
  have hret : (bufferSystem (inboundEnv pendingConnect)).step .ret
      { s with
        env := { s.env with unread := [], lastRecv := some (.ok bs) }
        stack := .callback (.handleData d) :: .read 0 :: rest } =
      some ({ s with
          env := { s.env with unread := [], lastRecv := some (.ok bs) }
          stack := .read 0 :: rest }, []) := by
    simp [bufferSystem, step, hs.crashed, hs.idle]
  refine ⟨_, _, .step (.step (.step .refl trivial harrive) trivial hrecv) trivial hret, ?_, rfl, ?_,
    rfl, ?_⟩
  · exact
    { crashed := hs.crashed
      stack := ⟨rest, rfl⟩
      idle := hs.idle
      established := hs.established
      eof := hs.eof
      unread := rfl }
  · simp [handedData, d, DataView.bytes]
  · intro x hx
    have hx' : x = .in 0 (.inl (.recv (.ok bs))) (.ok (.ofBytes bs)) ∨
        x = .callback (.handleData d) := by simpa using hx
    rcases hx' with rfl | rfl <;> exact ⟨rfl, rfl, rfl⟩

/-- However much the peer sends, and in whatever pieces it arrives, `Read` can go on with it. -/
theorem reads_all (pendingConnect : Bool) {s : BufferState Inbound} (hs : AtRead s)
    (bss : List (List UInt8))
    (hbss : ∀ bs ∈ bss, bs ≠ [] ∧ bs.length ≤ 100000) :
    ∃ tr s', Run (bufferSystem (inboundEnv pendingConnect)) s tr s' ∧ AtRead s' ∧
      s'.buffer = s.buffer ∧ handedData tr = bss.flatten ∧
      tr.countP Obs.isHandleData = bss.length ∧
      ∀ x ∈ tr, x.isHandleEvents = false ∧ x.isAccepted = false ∧ x.isOut = false := by
  induction bss generalizing s with
  | nil => exact ⟨[], s, .refl, hs, rfl, rfl, rfl, fun x hx => absurd hx List.not_mem_nil⟩
  | cons bs bss ih =>
      obtain ⟨hne, hlen⟩ := hbss bs List.mem_cons_self
      obtain ⟨tr₁, s₁, hrun₁, hs₁, hbuffer₁, hdata₁, hcount₁, hnone₁⟩ :=
        read_turn pendingConnect hs hne hlen
      obtain ⟨tr₂, s₂, hrun₂, hs₂, hbuffer₂, hdata₂, hcount₂, hnone₂⟩ :=
        ih hs₁ fun bs hmem => hbss bs (List.mem_cons_of_mem _ hmem)
      refine ⟨tr₁ ++ tr₂, s₂, hrun₁.trans hrun₂, hs₂, hbuffer₂.trans hbuffer₁, ?_, ?_, ?_⟩
      · rw [handedData_append, hdata₁, hdata₂, List.flatten_cons]
      · rw [List.countP_append, hcount₁, hcount₂, List.length_cons, Nat.add_comm]
      · intro x hx
        rcases List.mem_append.mp hx with hx | hx
        · exact hnone₁ x hx
        · exact hnone₂ x hx

/-- Between two calls of `HandleEvents`: the connection is open, no call of the user is under way,
and everything that has arrived has been read. -/
structure Quiescent (s : BufferState Inbound) : Prop where
  crashed : s.crashed = none
  stack : s.stack = []
  idle : ∀ a, s.calls a = .idle
  alone : s.buffer.streamFilters.length = 1
  connected : s.buffer.isConnected = true
  shouldClose : s.buffer.shouldClose = false
  readClosed : s.buffer.back.readClosed = false
  established : s.env.socket.established = true
  eof : s.env.eof = false
  unread : s.env.unread = []

/-- Nothing but `pending_writes_` has changed, and the calls have returned. -/
theorem Quiescent.queue {s : BufferState Inbound} (hs : Quiescent s) {views : List DataView}
    {calls : Agent → ApiCall} (hcalls : ∀ a, calls a = .idle) :
    Quiescent { s with buffer := { s.buffer with pendingWrites := views }, calls } where
  crashed := hs.crashed
  stack := hs.stack
  idle := hcalls
  alone := hs.alone
  connected := hs.connected
  shouldClose := hs.shouldClose
  readClosed := hs.readClosed
  established := hs.established
  eof := hs.eof
  unread := hs.unread

/-- `Write` puts its copy at the end of `pending_writes_` and returns. -/
theorem write_returns (pendingConnect : Bool) {s : BufferState Inbound} (hs : Quiescent s) (t : Nat)
    {d saved : DataView} (hlen : d.dataLength ≠ 0) (hsave : d.save = .ok saved) :
    ∃ tr s', Run (bufferSystem (inboundEnv pendingConnect)) s (.accepted d :: tr) s' ∧
      Quiescent s' ∧ s'.buffer.pendingWrites = s.buffer.pendingWrites ++ [saved] ∧
      ∀ x ∈ tr, x = .readyEvent .write := by
  have hmay : s.mayCall (.user t) = true := by simp [mayCall, hs.idle]
  -- `Write`, up to the lock
  have hwrite : (bufferSystem (inboundEnv pendingConnect)).step (.write (.user t) d) s =
      some (s.setCall (.user t) (.writing d saved), []) := by
    simp [bufferSystem, step, hs.crashed, hmay, write, hlen, hs.shouldClose, hsave]
  -- inside the lock
  have hpush : (bufferSystem (inboundEnv pendingConnect)).step (.push (.user t))
      (s.setCall (.user t) (.writing d saved)) =
      some ((s.setCall (.user t) (.writing d saved)).push (.user t) d saved) := by
    simp [bufferSystem, step, hs.crashed, setCall]
  have hboth : Run (bufferSystem (inboundEnv pendingConnect)) s _ _ :=
    .step (.step .refl trivial hwrite) trivial hpush
  cases hempty : s.buffer.pendingWrites.isEmpty with
  | false =>
      -- the thread that has queued the first view notifies the loop
      refine ⟨[], _, hboth, ?_, rfl, fun x hx => absurd hx List.not_mem_nil⟩
      exact hs.queue fun a => by simp [setCall, hempty, Function.update_apply, hs.idle]
  | true =>
      have hnotify : (bufferSystem (inboundEnv pendingConnect)).step (.notify (.user t))
          ((s.setCall (.user t) (.writing d saved)).push (ρ := SysRet ⊕ Arrival) (.user t) d
            saved).1 =
          some (((s.setCall (.user t) (.writing d saved)).push
            (ρ := SysRet ⊕ Arrival) (.user t) d saved).1.setCall (.user t) .idle,
            [.readyEvent .write]) := by
        simp [bufferSystem, step, hs.crashed, push, setCall, hempty]
      refine ⟨[.readyEvent .write], _, .step hboth trivial hnotify, ?_, rfl, fun x hx =>
        List.mem_singleton.mp hx⟩
      refine hs.queue fun a => ?_
      by_cases ha : a = .user t
      · simp [push, setCall, ha]
      · simp [push, setCall, hs.idle, ha]

/-- `HandleEvents` begins with `Read`, whatever waits to be written. -/
theorem read_begins (pendingConnect : Bool) {s : BufferState Inbound} (hs : Quiescent s) :
    ∃ s', Run (bufferSystem (inboundEnv pendingConnect)) s [.handleEvents true] s' ∧ AtRead s' ∧
      s'.buffer = s.buffer := by
  have hback : s.buffer.backIndex = 0 := by simp [StreamBuffer.backIndex, hs.alone]
  -- the frames of `HandleEvents`, and then that of `Read`
  have hcall : (bufferSystem (inboundEnv pendingConnect)).step (.handleEvents true) s =
      some ({ s with stack := [.doRead, .doWrite, .doFinalize] }, [.handleEvents true]) := by
    simp [bufferSystem, step, hs.crashed, hs.stack, hs.idle, StreamBuffer.handleEvents, resume,
      hs.shouldClose, hs.connected]
  have hread : (bufferSystem (inboundEnv pendingConnect)).step .run
      { s with stack := [.doRead, .doWrite, .doFinalize] } =
      some ({ s with stack := [.read 0, .doWrite, .doFinalize] }, []) := by
    simp [bufferSystem, step, hs.crashed, StreamBuffer.runFrame, StreamBuffer.doRead,
      hs.readClosed, hback, resume]
  refine ⟨_, .step (.step .refl trivial hcall) trivial hread, ?_, rfl⟩
  exact
  { crashed := hs.crashed
    stack := ⟨_, rfl⟩
    idle := hs.idle .loop
    established := hs.established
    eof := hs.eof
    unread := hs.unread }

/-- **Reading starves writing.** There is no bound on what one call of `HandleEvents` reads. In
any run that gets to an open connection with nothing left to do, a user writes, and `Write` is
through with it: the view is in `pending_writes_`. The call of `HandleEvents` that follows begins
with `Read`, and whatever bytes the peer sends, in whatever pieces, that one call hands all of
them over if they come in time: it has not left `Read`, `Out` has not been called, and the view
is where it was. -/
theorem reading_starves (pendingConnect : Bool) {mode : StreamBufferMode} {addr : Nat}
    {socket : Socket} {tr₀ : List (Obs (SysRet ⊕ Arrival))} {s : BufferState Inbound}
    (h : Run (bufferSystem (inboundEnv pendingConnect)) (init mode addr (.fresh socket)) tr₀ s)
    (hs : Quiescent s) (t : Nat) {d saved : DataView} (hlen : d.dataLength ≠ 0)
    (hsave : d.save = .ok saved) (bss : List (List UInt8))
    (hbss : ∀ bs ∈ bss, bs ≠ [] ∧ bs.length ≤ 100000) :
    ∃ tr₁ s₁ tr₂ s',
      Run (bufferSystem (inboundEnv pendingConnect)) (init mode addr (.fresh socket))
        (tr₀ ++ .accepted d :: tr₁) s₁ ∧
      (∀ x ∈ tr₁, x = .readyEvent .write) ∧ (∀ a, s₁.calls a = .idle) ∧
      s₁.buffer.pendingWrites = s.buffer.pendingWrites ++ [saved] ∧
      Run (bufferSystem (inboundEnv pendingConnect)) s₁ (.handleEvents true :: tr₂) s' ∧
      (∀ x ∈ tr₂, x.isHandleEvents = false ∧ x.isOut = false) ∧
      handedData tr₂ = bss.flatten ∧ tr₂.countP Obs.isHandleData = bss.length ∧
      (∃ rest, s'.stack = .read 0 :: rest) ∧
      s'.buffer.pendingWrites = s.buffer.pendingWrites ++ [saved] := by
  obtain ⟨tr₁, s₁, hwrite, hs₁, hpending, hready⟩ := write_returns pendingConnect hs t hlen hsave
  obtain ⟨s₂, hbegin, hs₂, hbuffer⟩ := read_begins pendingConnect hs₁
  obtain ⟨tr₂, s₃, hreads, hs₃, hbuffer₃, hdata, hcount, hnone⟩ :=
    reads_all pendingConnect hs₂ bss hbss
  have hcall : Run (bufferSystem (inboundEnv pendingConnect)) s₁ (.handleEvents true :: tr₂) s₃ :=
    hbegin.trans hreads
  refine ⟨tr₁, s₁, tr₂, s₃, h.trans hwrite, hready, hs₁.idle, hpending, hcall,
    fun x hx => ⟨(hnone x hx).1, (hnone x hx).2.2⟩, hdata, hcount, hs₃.stack, ?_⟩
  rw [hbuffer₃, hbuffer, hpending]

/-- A client connects, and its first call of `HandleEvents` returns. -/
def gettingConnected : List (BufferLabel (SysRet ⊕ Arrival)) :=
  [.handleEvents true, .answer (.inl .none), .ret, .run, .run, .run, .run]

/-- The state after that, and what has been shown. -/
def connectedOnce : BufferState Inbound × List (Obs (SysRet ⊕ Arrival)) :=
  let start := init .client 0 (.fresh ⟨false, true, none⟩)
  (exec (bufferSystem (inboundEnv true)) (fun _ _ => true) gettingConnected start).getD (start, [])

/-- Three bytes are handed over, in one call, while the two bytes written before it wait. -/
theorem reading_starves_connectedOnce : ∃ tr₁ s₁ tr₂ s' saved,
    Run (bufferSystem (inboundEnv true)) (init .client 0 (.fresh ⟨false, true, none⟩))
        (connectedOnce.2 ++ .accepted (.ofString [104, 105]) :: tr₁) s₁ ∧
      Run (bufferSystem (inboundEnv true)) s₁ (.handleEvents true :: tr₂) s' ∧
      handedData tr₂ = [1, 2, 3] ∧ tr₂.countP Obs.isHandleEvents = 0 ∧
      s'.buffer.pendingWrites = [saved] ∧ saved.bytes = [104, 105] := by
  have hexec : exec (bufferSystem (inboundEnv true)) (fun _ _ => true) gettingConnected
      (init .client 0 (.fresh ⟨false, true, none⟩)) = some connectedOnce := rfl
  have hrun : Run (bufferSystem (inboundEnv true)) (init .client 0 (.fresh ⟨false, true, none⟩))
      connectedOnce.2 connectedOnce.1 := GuardedRun.of_exec (fun _ _ _ => trivial) hexec
  have hquiescent : Quiescent connectedOnce.1 :=
    ⟨rfl, rfl, fun _ => rfl, rfl, rfl, rfl, rfl, rfl, rfl, rfl⟩
  obtain ⟨saved, hsave, hbytes⟩ : ∃ saved, (DataView.ofString [104, 105]).save = .ok saved ∧
      saved.bytes = [104, 105] := ⟨_, rfl, by decide⟩
  obtain ⟨tr₁, s₁, tr₂, s', haccepted, -, -, -, hstarves, hnone, hdata, -, -, hpending⟩ :=
    reading_starves true hrun hquiescent 0 (by decide) hsave [[1], [2, 3]] (by simp)
  exact ⟨tr₁, s₁, tr₂, s', saved, haccepted, hstarves, hdata,
    List.countP_eq_zero.mpr fun x hx => by simp [(hnone x hx).1], hpending, hbytes⟩

end BufferState

end Libael
