import Libael.StreamBuffer.Hosted
import Libael.Tcp.Filter

/-!
# Libael.Tcp.Receiving

A TCP stream buffer and **what it receives**. The socket is edge triggered, and its first edges
are often spent on a call of `HandleEvents` that only connects the filter. What brings the loop
back is the `EPOLL_CTL_MOD` of `DoConnect`, which has everything reported again; and a call that
reads does so until `recv` has nothing left. So no byte and no end of file wait in the kernel
while the loop sleeps.

* The receive queue and what it is known to hold are part of the surroundings (`Inbound`).
  `SocketStep` says what a step does to it, `ReadTurn` what a turn of `Read` does.
* `Phase` and `OpenStack` name where a call is that does not close. A call goes from phase to
  phase, and out of reading only when `recv` has nothing left (`PhaseStep`).
* `ReceiveInv` joins the two: outside of a call, a connected buffer has heard from `recv` that
  there is nothing, or there is something to read, and then it is `Wanted`.
* That a wanted buffer is called is the rule of `Libael.EventLoop.Attended`, whose demands
  `AttendsHosted` meets.
-/

namespace Libael

open Lts

/-- What comes from the peer. -/
inductive Arrival
  | bytes (bs : List UInt8)
  | eof
  deriving DecidableEq

/-- A socket with its receive queue. -/
structure Inbound where
  socket : Socket
  /-- what has arrived and `recv` has not returned yet -/
  unread : List UInt8
  /-- the peer has closed its direction -/
  eof : Bool
  /-- `send` has been called -/
  sent : Bool
  /-- what the last call of `recv` has returned, if nothing has arrived since -/
  lastRecv : Option (Except Errno (List UInt8))

namespace Inbound

/-! ### The kernel -/

/-- A socket nobody has used yet. -/
def fresh (socket : Socket) : Inbound :=
  { socket, unread := [], eof := false, sent := false, lastRecv := none }

/-- There is something to read: bytes or the end of file. -/
def readable (k : Inbound) : Bool := !k.unread.isEmpty || k.eof

/-- What is assumed of `recv` with a buffer of 100000 bytes: it returns the bytes that come next,
none only at the end of file, and `EAGAIN` when there is nothing to read. Any other error it may
return at any time. -/
def recvContract (k : Inbound) : Except Errno (List UInt8) → Bool
  | .ok bs => bs.isPrefixOf k.unread && decide (bs.length ≤ 100000) &&
      (!bs.isEmpty || (k.unread.isEmpty && k.eof))
  | .error e => e != .EAGAIN || !k.readable

/-- The socket after a call of `recv`. -/
def recv (k : Inbound) (ret : Except Errno (List UInt8)) : Inbound :=
  match ret with
  | .ok bs => { k with unread := k.unread.drop bs.length, lastRecv := some ret }
  | .error _ => { k with lastRecv := some ret }

/-- Bytes or the end of file arrive on a connection, and nothing after the end of file. -/
def arrive (k : Inbound) (a : Arrival) : Option Inbound :=
  if k.socket.established && !k.eof then
    match a with
    | .bytes bs =>
      if bs.isEmpty then none else some { k with unread := k.unread ++ bs, lastRecv := none }
    | .eof => some { k with eof := true, lastRecv := none }
  else none

/-- What arrives can be read, and undoes an earlier `EAGAIN`. -/
theorem arrive_spec {k k' : Inbound} {a : Arrival} (h : k.arrive a = some k') :
    k'.readable = true ∧ k'.lastRecv = none ∧ k'.sent = k.sent ∧ k'.socket = k.socket := by
  unfold arrive at h
  split at h
  · cases a with
    | bytes bs =>
        dsimp only at h
        split at h
        · exact absurd h (by simp)
        · rename_i hne
          obtain rfl := Option.some.inj h
          exact ⟨by simpa [readable] using .inl fun _ => by simpa using hne, rfl, rfl, rfl⟩
    | eof =>
        obtain rfl := Option.some.inj h
        exact ⟨by simp [readable], rfl, rfl, rfl⟩
  · exact absurd h (by simp)

/-- What polling the socket reports at least: that it can be read, and that it can be written
while nothing has been sent. -/
def reports (k : Inbound) : EPollEvents :=
  (if k.readable then EPollEvents.EPOLLIN else 0) |||
    (if k.socket.established && !k.sent then EPollEvents.EPOLLOUT else 0)

end Inbound

/-- The TCP filter over a socket with its receive queue. -/
def inboundEnv (pendingConnect : Bool) : FilterEnv Inbound (SysRet ⊕ Arrival) where
  «in» i r k :=
    match r with
    | .inl (.recv ret) =>
      if k.recvContract ret then
        ((tcpEnv pendingConnect).in i (.recv ret) k.socket).map fun (res, socket) =>
          (res, { k with socket }.recv ret)
      else none
    | _ => none
  out i r k d :=
    match r with
    | .inl r => ((tcpEnv pendingConnect).out i r k.socket d).map fun (res, socket) =>
        (res, { k with socket, sent := true })
    | .inr _ => none
  connect i r k :=
    match r with
    | .inl r => ((tcpEnv pendingConnect).connect i r k.socket).map fun (res, socket) =>
        (res, { k with socket })
    | .inr _ => none
  accept i r k :=
    match r with
    | .inl r => ((tcpEnv pendingConnect).accept i r k.socket).map fun (res, socket) =>
        (res, { k with socket })
    | .inr _ => none
  shutdown i r k :=
    match r with
    | .inl r => ((tcpEnv pendingConnect).shutdown i r k.socket).map fun (res, socket) =>
        (res, { k with socket })
    | .inr _ => none
  tick r k :=
    match r with
    | .inl r => ((tcpEnv pendingConnect).tick r k.socket).map fun socket => { k with socket }
    | .inr a => k.arrive a

/-- The code of a TCP stream buffer; whatever happens to its socket is news. -/
def inboundCode (pendingConnect : Bool) :
    HandlerCode (BufferState Inbound) (BufferLabel (SysRet ⊕ Arrival)) (Obs (SysRet ⊕ Arrival)) :=
  bufferCode (inboundEnv pendingConnect) (fun _ => true) Inbound.reports

namespace BufferState

/-- No filter is stacked on the first one, and the handler of the stream buffer lives. -/
def Attends (l : BufferLabel (SysRet ⊕ Arrival)) (s : BufferState Inbound) : Prop :=
  (∀ addr, l = .addFilter addr → s.buffer.addFilterAllowed = false) ∧
    ∀ alive, l = .handleEvents alive → alive = true

/-! ### What is received, and what is handed over -/

/-- The bytes `recv` has returned. -/
def received (tr : List (Obs (SysRet ⊕ Arrival))) : List UInt8 :=
  tr.flatMap fun
    | .in _ (.inl (.recv (.ok bs))) _ => bs
    | _ => []

/-- The bytes `HandleData` has been given. -/
def handedData (tr : List (Obs (SysRet ⊕ Arrival))) : List UInt8 :=
  tr.flatMap fun
    | .callback (.handleData d) => d.bytes
    | _ => []

section

variable {pendingConnect : Bool} {s s' : BufferState Inbound} {l : BufferLabel (SysRet ⊕ Arrival)}
  {o tr : List (Obs (SysRet ⊕ Arrival))} {mode : StreamBufferMode} {addr : Nat} {socket : Socket}

theorem received_append : received (tr ++ o) = received tr ++ received o := List.flatMap_append

theorem handedData_append : handedData (tr ++ o) = handedData tr ++ handedData o :=
  List.flatMap_append

/-- What `In` makes of the result of `recv`. -/
inductive InReturns : Except Errno (List UInt8) → Except Exception InResult → Prop
  | data {bs} : bs ≠ [] → InReturns (.ok bs) (.ok (.ofBytes bs))
  | again : InReturns (.error .EAGAIN) (.ok ⟨false, none⟩)
  | eof : InReturns (.ok []) (.ok ⟨true, none⟩)
  | failed {errno} : errno ≠ .EAGAIN → InReturns (.error errno) (.ok ⟨true, none⟩)
  | threw {errno ex} : InReturns (.error errno) (.error ex)

/-- What `In` returns for each answer of `recv`. -/
theorem in_returns (ret : Except Errno (List UInt8)) :
    InReturns ret (TCPStreamBufferFilter.in ret) := by
  cases ret with
  | ok bs =>
      cases bs with
      | nil => exact .eof
      | cons b bs => exact .data (List.cons_ne_nil b bs)
  | error errno =>
      cases errno with
      | EAGAIN => exact .again
      | EFAULT | EINVAL | ENOTCONN | ENOTSOCK | EBADF => exact .threw
      | _ => exact .failed (by simp)

theorem bytes_ofBytes {bs : List UInt8} {d : DataView}
    (h : (InResult.ofBytes bs).dataView = some d) : d.bytes = bs := by
  obtain rfl := Option.some.inj h
  simp [DataView.bytes]

/-- A turn of the loop in `StreamBufferFilter::Read`: what `recv` may return, and what follows. -/
inductive ReadTurn (b : StreamBuffer) (i : Nat) (k : Inbound) :
    Except Errno (List UInt8) → Next (SysRet ⊕ Arrival) StreamBuffer → Prop
  | data {bs d res} : bs ≠ [] → d.bytes = bs → ReadTurn b i k (.ok bs)
      { buffer := b, frames := [.callback (.handleData d), .read i],
        obs := [.in i (.inl (.recv (.ok bs))) res, .callback (.handleData d)] }
  | again {res} : ReadTurn b i k (.error .EAGAIN)
      { buffer := b, obs := [.in i (.inl (.recv (.error .EAGAIN))) res] }
  | eof {res} : ReadTurn b i k (.ok [])
      { buffer := b.setFilter i { b.filter i with readClosed := true },
        obs := [.in i (.inl (.recv (.ok []))) res] }
  | failed {errno res} : ReadTurn b i k (.error errno)
      { buffer := b.setFilter i { b.filter i with readClosed := true },
        obs := [.in i (.inl (.recv (.error errno))) res] }
  | threw {errno res ex} : ReadTurn b i k (.error errno)
      { buffer := b, obs := [.in i (.inl (.recv (.error errno))) res], threw := some ex }

/-- A turn of `Read` asks `recv` once. -/
theorem readTurn {b : StreamBuffer} {i : Nat} {r : SysRet ⊕ Arrival} {k k' : Inbound}
    {n : Next (SysRet ⊕ Arrival) StreamBuffer}
    (h : b.answerFrame (inboundEnv pendingConnect) r k (.read i) = some (n, k')) :
    ∃ ret, r = .inl (.recv ret) ∧ k.recvContract ret = true ∧ k' = k.recv ret ∧
      ReadTurn b i k ret n := by
  unfold StreamBuffer.answerFrame at h
  obtain ⟨⟨res, k₁⟩, hin, heq⟩ := Option.map_eq_some_iff.mp h
  clear h
  unfold inboundEnv at hin
  dsimp only at hin
  split at hin
  · rename_i ret
    split at hin
    · rename_i hcontract
      simp only [tcpEnv, Option.map_some, Option.some.injEq, Prod.mk.injEq] at hin
      obtain ⟨rfl, rfl⟩ := hin
      have hreturns := in_returns ret
      generalize TCPStreamBufferFilter.in ret = res at hreturns heq
      obtain ⟨rfl, rfl⟩ := Prod.mk.inj heq
      refine ⟨ret, rfl, hcontract, ?_⟩
      cases hreturns with
      | @data bs hne =>
          have hpos : (0 : Int) < bs.length := by
            have := List.length_pos_iff.mpr hne
            omega
          refine ⟨rfl, ?_⟩
          simp only [StreamBuffer.afterIn, InResult.ofBytes, InResult.hasData, hpos, decide_true,
            Bool.false_eq_true, if_false]
          exact .data hne (bytes_ofBytes rfl)
      | again => exact ⟨rfl, .again⟩
      | eof => exact ⟨rfl, .eof⟩
      | failed _ => exact ⟨rfl, .failed⟩
      | threw => exact ⟨rfl, .threw⟩
    · exact absurd hin (by simp)
  · exact absurd hin (by simp)

/-- The TCP filter never asks to be connected again later. -/
theorem not_pending {i : Nat} {r : SysRet ⊕ Arrival} {k k' : Inbound} {res : ConnectResult} :
    ((inboundEnv pendingConnect).connect i r k = some (.ok res, k') → res ≠ .pending) ∧
      ((inboundEnv pendingConnect).accept i r k = some (.ok res, k') → res ≠ .pending) := by
  constructor
  · intro h hpending
    subst hpending
    cases r with
    | inr a => exact absurd h (by simp [inboundEnv])
    | inl r =>
        obtain ⟨⟨res, socket⟩, hconnect, heq⟩ := Option.map_eq_some_iff.mp h
        obtain ⟨rfl, -⟩ := Prod.mk.inj heq
        simp only [tcpEnv] at hconnect
        split at hconnect
        · simp at hconnect
        · simp [TCPStreamBufferFilter.connect] at hconnect
        · split at hconnect
          · rename_i e _
            cases e <;> simp [TCPStreamBufferFilter.connect] at hconnect
          · exact absurd hconnect (by simp)
        · exact absurd hconnect (by simp)
  · intro h hpending
    subst hpending
    cases r with
    | inr a => exact absurd h (by simp [inboundEnv])
    | inl r =>
        obtain ⟨⟨res, socket⟩, haccept, heq⟩ := Option.map_eq_some_iff.mp h
        obtain ⟨rfl, -⟩ := Prod.mk.inj heq
        simp only [tcpEnv] at haccept
        split at haccept
        · cases pendingConnect <;> simp [TCPStreamBufferFilter.accept] at haccept
        · exact absurd haccept (by simp)

/-- So `DoConnect` has an answer at once. -/
theorem connectTurn {b : StreamBuffer} {r : SysRet ⊕ Arrival} {k k' : Inbound}
    {n : Next (SysRet ⊕ Arrival) StreamBuffer}
    (h : b.answerFrame (inboundEnv pendingConnect) r k .doConnect = some (n, k'))
    (hthrew : n.threw = none) :
    n.frames = [.callback .handleConnected, .connected, .modifyEvent] ∨
      n.frames = [] ∧
        n.buffer = b.setFilter b.backIndex
          { b.back with readClosed := true, writeClosed := true } := by
  unfold StreamBuffer.answerFrame at h
  obtain ⟨⟨res, k₁⟩, hasked, heq⟩ := Option.map_eq_some_iff.mp h
  clear h
  cases res with
  | error ex =>
      obtain ⟨rfl, -⟩ := Prod.mk.inj heq
      exact absurd hthrew (by simp)
  | ok res =>
      obtain ⟨rfl, -⟩ := Prod.mk.inj heq
      cases res with
      | success => exact .inl rfl
      | failed => exact .inr ⟨rfl, rfl⟩
      | pending =>
          cases hmode : b.mode with
          | client =>
              rw [hmode] at hasked
              exact absurd rfl (not_pending.1 hasked)
          | server =>
              rw [hmode] at hasked
              exact absurd rfl (not_pending.2 hasked)

/-! ### The phases of a call -/

/-- What `HandleEvents` is about in a stream buffer that is not closing. -/
inductive Phase
  | idle | connecting | reading | writing | finalizing | finishing

/-- The stacks of such a call. -/
inductive OpenStack : Phase → List Frame → Prop
  | idle : OpenStack .idle []
  | doConnect : OpenStack .connecting [.doConnect, .doFinalize]
  | handleConnected : OpenStack .connecting
      [.callback .handleConnected, .connected, .modifyEvent, .doFinalize]
  | connected : OpenStack .connecting [.connected, .modifyEvent, .doFinalize]
  | modifyEvent : OpenStack .connecting [.modifyEvent, .doFinalize]
  | doRead : OpenStack .reading [.doRead, .doWrite, .doFinalize]
  | read : OpenStack .reading [.read 0, .doWrite, .doFinalize]
  | handleData (d : DataView) :
      OpenStack .reading [.callback (.handleData d), .read 0, .doWrite, .doFinalize]
  | doWrite : OpenStack .writing [.doWrite, .doFinalize]
  | write : OpenStack .writing [.write 0, .doFinalize]
  | doFinalize : OpenStack .finalizing [.doFinalize]
  | finalizeEOF : OpenStack .finishing [.finalizeEOF]
  | handleEOF : OpenStack .finishing [.callback .handleEOF, .closeEvent]
  | closeEvent : OpenStack .finishing [.closeEvent]

theorem OpenStack.unique {p p' : Phase} {st : List Frame} (h : OpenStack p st)
    (h' : OpenStack p' st) : p' = p := by
  cases h <;> cases h' <;> rfl

theorem backIndex_of_single {b : StreamBuffer} (h : b.streamFilters.length = 1) :
    b.backIndex = 0 := by simp [StreamBuffer.backIndex, h]

/-- A buffer with one filter that is not closing is in one of the phases. -/
theorem openStack_of_stage {b : StreamBuffer} {st : List Frame} (hstage : StreamBuffer.Stage b st)
    (hsingle : b.streamFilters.length = 1) (hclose : b.shouldClose = false) :
    ∃ p, OpenStack p st := by
  have hback := backIndex_of_single hsingle
  cases hstage with
  | idle _ => exact ⟨_, .idle⟩
  | closeEvent _ => exact ⟨_, .closeEvent⟩
  | handleEOF _ => exact ⟨_, .handleEOF⟩
  | doConnect _ _ => exact ⟨_, .doConnect⟩
  | handleConnected _ _ => exact ⟨_, .handleConnected⟩
  | connected _ => exact ⟨_, .connected⟩
  | modifyEvent _ => exact ⟨_, .modifyEvent⟩
  | doRead _ => exact ⟨_, .doRead⟩
  | read hi _ => exact ⟨_, by rw [hi, hback]; exact .read⟩
  | handleData hi _ => exact ⟨_, by rw [hi, hback]; exact .handleData _⟩
  | doWrite _ => exact ⟨_, .doWrite⟩
  | write hi _ => exact ⟨_, by rw [hi, hback]; exact .write⟩
  | doFinalize _ => exact ⟨_, .doFinalize⟩
  | finalizeEOF _ => exact ⟨_, .finalizeEOF⟩
  | doClose _ hcl | flushWrites _ hcl _ | flushWrite _ hcl _ _ | closeFrom _ hcl _ | close _ hcl _
  | flush _ hcl _ | flushed _ hcl _ | shutdown _ hcl _ _ | closeCheck _ hcl _ =>
      exact absurd hcl (by simp [hclose])

/-- How a call goes on: it does not stop reading before `recv` has nothing left, nor connecting
before the interest is installed again, unless it has found the direction closed. -/
inductive PhaseStep (s' : BufferState Inbound) (o : List (Obs (SysRet ⊕ Arrival))) :
    Phase → Phase → Prop
  | stays {p} : PhaseStep s' o p p
  | connects : PhaseStep s' o .idle .connecting
  | reads : PhaseStep s' o .idle .reading
  | connected : o = [.modifyEvent] → PhaseStep s' o .connecting .finalizing
  | refused : (s'.buffer.filter 0).readClosed = true → PhaseStep s' o .connecting .finalizing
  | drained : s'.env.lastRecv = some (.error .EAGAIN) → PhaseStep s' o .reading .writing
  | closed : (s'.buffer.filter 0).readClosed = true → PhaseStep s' o .reading .writing
  | written : PhaseStep s' o .writing .finalizing
  | finalized : (s'.buffer.filter 0).readClosed = false → PhaseStep s' o .finalizing .finishing
  | returns : PhaseStep s' o .finishing .idle

/-- A frame of the loop thread, in a buffer that is not closing behind it either. `DoFinalize` is
left out by that: it closes the buffer if `Read` has found the end. -/
theorem phase_of_run {p : Phase} {f : Frame} {rest : List Frame}
    {n : Next (SysRet ⊕ Arrival) StreamBuffer} (hstack : OpenStack p (f :: rest))
    (hrun : s.buffer.runFrame f = some n) (hsingle : s.buffer.streamFilters.length = 1)
    (hclose : s.buffer.shouldClose = false) (hclose' : n.buffer.shouldClose = false) :
    ∃ p', OpenStack p' (n.frames ++ rest) ∧
      PhaseStep { s with buffer := n.buffer, stack := n.frames ++ rest } n.obs p p' := by
  have hback := backIndex_of_single hsingle
  have hfilter : s.buffer.back = s.buffer.filter 0 := by rw [StreamBuffer.back, hback]
  cases hstack with
  | doConnect | handleConnected | read | handleData | handleEOF =>
      exact absurd hrun (by simp [StreamBuffer.runFrame])
  | connected =>
      obtain rfl := Option.some.inj hrun
      exact ⟨_, .modifyEvent, .stays⟩
  | modifyEvent =>
      obtain rfl := Option.some.inj hrun
      exact ⟨_, .doFinalize, .connected rfl⟩
  | doRead =>
      cases StreamBuffer.frameRun hrun with
      | readClosed hclosed =>
          rw [hfilter] at hclosed
          exact ⟨_, .doWrite, .closed hclosed⟩
      | reads _ =>
          rw [hback]
          exact ⟨_, .read, .stays⟩
  | doWrite =>
      cases StreamBuffer.frameRun hrun with
      | writeClosed _ | writesNothing _ _ => exact ⟨_, .doFinalize, .written⟩
      | writes _ _ =>
          rw [hback]
          exact ⟨_, .write, .stays⟩
  | write =>
      cases StreamBuffer.frameRun hrun with
      | written _ => exact ⟨_, .doFinalize, .written⟩
  | doFinalize =>
      cases StreamBuffer.frameRun hrun with
      | endOfFile _ _ => exact absurd hclose' (by simp)
      | finalizes hor =>
          refine ⟨_, .finalizeEOF, .finalized ?_⟩
          rw [hfilter] at hor
          exact hor.resolve_left (by simp [hclose])
  | finalizeEOF =>
      cases StreamBuffer.frameRun hrun with
      | eof _ _ _ => exact ⟨_, .handleEOF, .stays⟩
      | noEof _ => exact ⟨_, .idle, .returns⟩
  | closeEvent =>
      obtain rfl := Option.some.inj hrun
      exact ⟨_, .idle, .returns⟩

/-- An answer of the socket: `recv` and `connect` end their phases, with nothing left or in a
closed direction. -/
theorem phase_of_answer {p : Phase} {f : Frame} {rest : List Frame} {r : SysRet ⊕ Arrival}
    {k : Inbound} {n : Next (SysRet ⊕ Arrival) StreamBuffer} (hstack : OpenStack p (f :: rest))
    (hans : s.buffer.answerFrame (inboundEnv pendingConnect) r s.env f = some (n, k))
    (hsingle : s.buffer.streamFilters.length = 1) (hthrew : n.threw = none) :
    ∃ p', OpenStack p' (n.frames ++ rest) ∧
      PhaseStep { s with buffer := n.buffer, stack := n.frames ++ rest, env := k } n.obs p p' := by
  have hback := backIndex_of_single hsingle
  cases hstack with
  | doConnect =>
      rcases connectTurn hans hthrew with hframes | ⟨hframes, hbuffer⟩
      · exact ⟨_, by rw [hframes]; exact .handleConnected, .stays⟩
      · refine ⟨_, by rw [hframes]; exact .doFinalize, .refused ?_⟩
        dsimp only
        rw [hbuffer, hback, StreamBuffer.filter_setFilter, if_pos ⟨rfl, by omega⟩]
  | read =>
      obtain ⟨ret, rfl, -, rfl, hturn⟩ := readTurn hans
      cases hturn with
      | data _ _ => exact ⟨_, .handleData _, .stays⟩
      | again => exact ⟨_, .doWrite, .drained rfl⟩
      | eof | failed =>
          refine ⟨_, .doWrite, .closed ?_⟩
          dsimp only
          rw [StreamBuffer.filter_setFilter, if_pos ⟨rfl, by omega⟩]
      | threw => exact absurd hthrew (by simp)
  | write =>
      obtain ⟨d, views, res, -, -, -, hcases⟩ := StreamBuffer.callOut_cases hans
      rcases hcases with ⟨ex, -, hex, -, -⟩ | ⟨res', f', drain, -, -, -, -, hframes⟩
      · exact absurd (hex.symm.trans hthrew) (by simp)
      · rw [hframes]
        split
        · exact ⟨_, .write, .stays⟩
        · exact ⟨_, .doFinalize, .written⟩
  | handleConnected | handleData | handleEOF | connected | modifyEvent | doRead | doWrite
  | doFinalize | finalizeEOF | closeEvent =>
      exact absurd hans (by simp [StreamBuffer.answerFrame])

/-- **One step goes on to the next phase**, or stays. Reading ends with `EAGAIN` or a closed
direction, and the interest is modified at the end of connecting. -/
theorem phase_step {p : Phase} (h : step (inboundEnv pendingConnect) l s = some (s', o))
    (hl : Attends l s) (hstack : OpenStack p s.stack) (hsingle : s.buffer.streamFilters.length = 1)
    (hcr' : s'.crashed = none) (hclose' : s'.buffer.shouldClose = false) :
    ∃ p', OpenStack p' s'.stack ∧ PhaseStep s' o p p' := by
  have hclose : s.buffer.shouldClose = false := by
    by_contra hno
    have := (flagsGrow_step h).shouldClose (by simpa using hno)
    exact absurd this (by simp [hclose'])
  obtain ⟨-, hmove⟩ := move_of_step h
  cases hmove with
  | aside ha => exact ⟨p, by rw [ha.stack]; exact hstack, .stays⟩
  | added hcb hadd =>
      have hallowed := (StreamBuffer.addStreamBufferFilter_cases hadd).1
      exact absurd (hl.1 _ rfl) (by simp [hallowed])
  | @enter alive n hnil hn =>
      obtain ⟨hbuffer, -, hthrew, hcases⟩ := StreamBuffer.handleEvents_cases hn
      rw [hnil] at hstack
      cases hstack
      rw [resume_of_threw_none hthrew]
      rcases hcases with ⟨hdead, -⟩ | ⟨-, hno, -⟩ | ⟨-, -, -, hframes⟩ | ⟨-, -, -, hframes⟩
      · exact absurd (hl.2 _ rfl) (by simp [hdead])
      · exact absurd hno (by simp [hclose])
      · exact ⟨_, by rw [hframes]; exact .doConnect, .connects⟩
      · exact ⟨_, by rw [hframes]; exact .doRead, .reads⟩
  | @run f rest n hf hrun =>
      rw [hf] at hstack
      rw [resume_buffer] at hclose'
      rw [resume_of_threw_none (StreamBuffer.runFrame_threw hrun)]
      exact phase_of_run hstack hrun hsingle hclose hclose'
  | @answer f rest r n k hf hans =>
      have hthrew : n.threw = none := by
        cases hthrew : n.threw with
        | none => rfl
        | some ex => exact absurd hcr' (by simp [resume_of_threw hthrew])
      rw [hf] at hstack
      rw [resume_of_threw_none hthrew]
      exact phase_of_answer (s := s) hstack hans hsingle hthrew
  | @ret c rest hf =>
      rw [hf] at hstack
      cases hstack with
      | handleConnected => exact ⟨_, .connected, .stays⟩
      | handleData d => exact ⟨_, .read, .stays⟩
      | handleEOF => exact ⟨_, .closeEvent, .stays⟩

/-! ### The socket -/

/-- What a step does to the socket. -/
inductive SocketStep (s : BufferState Inbound) : BufferLabel (SysRet ⊕ Arrival) → Inbound → Prop
  | same {label} : SocketStep s label s.env
  | recv {i ret rest} : s.stack = .read i :: rest → s.env.recvContract ret = true →
      SocketStep s (.answer (.inl (.recv ret))) (s.env.recv ret)
  | send {fr rest r} : s.stack = fr :: rest → fr.sends = true →
      SocketStep s (.answer r) { s.env with sent := true }
  | asked {rest r e} : s.stack = .doConnect :: rest →
      SocketStep s (.answer r) { s.env with socket := { s.env.socket with soError := e } }
  | arrives {a k} : s.env.arrive a = some k → SocketStep s (.tick (.inr a)) k
  | ticks {r socket} : SocketStep s (.tick r) { s.env with socket }

/-- `send` leaves the receive queue alone. -/
theorem socket_of_out {i : Nat} {r : SysRet ⊕ Arrival} {k k' : Inbound} {d : DataView}
    {res : Except Exception (OutResult × Option DataView)}
    (h : (inboundEnv pendingConnect).out i r k d = some (res, k')) :
    k' = { k with sent := true } := by
  cases r with
  | inr a => exact absurd h (by simp [inboundEnv])
  | inl r =>
      obtain ⟨⟨res, socket⟩, hout, heq⟩ := Option.map_eq_some_iff.mp h
      obtain ⟨rfl, rfl⟩ := Prod.mk.inj heq
      simp only [tcpEnv] at hout
      split at hout
      · split at hout
        · obtain ⟨-, rfl⟩ := Prod.mk.inj (Option.some.inj hout)
          rfl
        · exact absurd hout (by simp)
      · exact absurd hout (by simp)

/-- `getsockopt` takes the error of the socket. -/
theorem socket_of_connect {i : Nat} {r : SysRet ⊕ Arrival} {k k' : Inbound}
    {res : Except Exception ConnectResult}
    (h : (inboundEnv pendingConnect).connect i r k = some (res, k') ∨
      (inboundEnv pendingConnect).accept i r k = some (res, k')) :
    ∃ e, k' = { k with socket := { k.socket with soError := e } } := by
  cases r with
  | inr a => exact absurd h (by simp [inboundEnv])
  | inl r =>
      rcases h with h | h
      · obtain ⟨⟨res, socket⟩, hconnect, heq⟩ := Option.map_eq_some_iff.mp h
        obtain ⟨rfl, rfl⟩ := Prod.mk.inj heq
        simp only [tcpEnv] at hconnect
        split at hconnect
        · obtain ⟨-, rfl⟩ := Prod.mk.inj (Option.some.inj hconnect)
          exact ⟨_, rfl⟩
        · obtain ⟨-, rfl⟩ := Prod.mk.inj (Option.some.inj hconnect)
          exact ⟨_, rfl⟩
        · split at hconnect
          · obtain ⟨-, rfl⟩ := Prod.mk.inj (Option.some.inj hconnect)
            exact ⟨none, rfl⟩
          · exact absurd hconnect (by simp)
        · exact absurd hconnect (by simp)
      · obtain ⟨⟨res, socket⟩, haccept, heq⟩ := Option.map_eq_some_iff.mp h
        obtain ⟨rfl, rfl⟩ := Prod.mk.inj heq
        simp only [tcpEnv] at haccept
        split at haccept
        · obtain ⟨-, rfl⟩ := Prod.mk.inj (Option.some.inj haccept)
          exact ⟨_, rfl⟩
        · exact absurd haccept (by simp)

/-- `Shutdown` leaves the receive queue alone. -/
theorem socket_of_shutdown {i : Nat} {r : SysRet ⊕ Arrival} {k k' : Inbound}
    {res : Except Exception ShutdownResult}
    (h : (inboundEnv pendingConnect).shutdown i r k = some (res, k')) : k' = k := by
  cases r with
  | inr a => exact absurd h (by simp [inboundEnv])
  | inl r =>
      obtain ⟨⟨res, socket⟩, hshutdown, heq⟩ := Option.map_eq_some_iff.mp h
      obtain ⟨rfl, rfl⟩ := Prod.mk.inj heq
      simp only [tcpEnv] at hshutdown
      split at hshutdown
      · obtain ⟨-, rfl⟩ := Prod.mk.inj (Option.some.inj hshutdown)
        rfl
      · exact absurd hshutdown (by simp)

/-- Every step does to the socket what `SocketStep` says. -/
theorem socket_of_step (h : step (inboundEnv pendingConnect) l s = some (s', o)) :
    SocketStep s l s'.env := by
  obtain ⟨-, hstep⟩ := step_inv h
  cases hstep with
  | @tick r k htick =>
      cases r with
      | inl r =>
          obtain ⟨socket, -, rfl⟩ := Option.map_eq_some_iff.mp htick
          exact .ticks
      | inr a => exact .arrives htick
  | @answer f rest r n k hf hans =>
      show SocketStep s (.answer r) k
      cases f with
      | read i =>
          obtain ⟨ret, rfl, hcontract, rfl, -⟩ := readTurn hans
          exact .recv hf hcontract
      | write i | flush i =>
          obtain ⟨d, views, res, -, hout, -⟩ := StreamBuffer.callOut_cases hans
          obtain rfl := socket_of_out hout
          exact .send hf rfl
      | doConnect =>
          unfold StreamBuffer.answerFrame at hans
          obtain ⟨⟨res, k₁⟩, hasked, heq⟩ := Option.map_eq_some_iff.mp hans
          have hk : k = k₁ := by cases res <;> exact (Prod.mk.inj heq).2.symm
          subst hk
          obtain ⟨e, rfl⟩ := socket_of_connect (show _ ∨ _ by
            cases hmode : s.buffer.mode with
            | client => exact .inl (by rw [hmode] at hasked; exact hasked)
            | server => exact .inr (by rw [hmode] at hasked; exact hasked))
          exact .asked hf
      | shutdown i =>
          unfold StreamBuffer.answerFrame at hans
          obtain ⟨⟨res, k₁⟩, hshutdown, heq⟩ := Option.map_eq_some_iff.mp hans
          have hk : k = k₁ := by cases res <;> exact (Prod.mk.inj heq).2.symm
          subst hk
          rw [socket_of_shutdown hshutdown]
          exact .same
      | _ => exact absurd hans (by simp [StreamBuffer.answerFrame])
  | handleEvents _ _ _ | run _ _ =>
      rw [resume_env]
      exact .same
  | @write a d _ =>
      have hsame : (s.write (ρ := SysRet ⊕ Arrival) a d).1.env = s.env := by
        unfold write
        split_ifs <;> first | rfl | (split <;> rfl)
      rw [hsame]
      exact .same
  | ret _ _ | push _ | notify _ | close _ | filterRefused _ _ | filterAdded _ _ _ => exact .same

/-! ### Nothing is forgotten -/

/-- `recv` has said that there is nothing, or there is something to read. -/
def Heard (k : Inbound) : Prop := k.lastRecv = some (.error .EAGAIN) ∨ k.readable = true

/-- What holds of a stream buffer and its receive queue at all times. -/
structure ReceiveInv (s : BufferState Inbound) : Prop where
  single : s.buffer.streamFilters.length = 1
  again : s.env.lastRecv = some (.error .EAGAIN) → s.env.readable = false
  connected : s.env.lastRecv ≠ none → (s.buffer.filter 0).connected = true
  /-- a closed direction is on its way to close the buffer -/
  closing : s.crashed = none → s.buffer.shouldClose = false →
    (s.buffer.filter 0).readClosed = true → ∀ p, OpenStack p s.stack → p ≠ .idle ∧ p ≠ .finishing
  /-- a call that writes has read before -/
  heard : s.crashed = none → s.buffer.shouldClose = false →
    (s.buffer.filter 0).readClosed = false → ∀ p, OpenStack p s.stack →
      s.env.sent = true ∨ p = .writing → p = .reading ∨ Heard s.env

/-- There is one filter, unless one is added. -/
theorem single_step (h : step (inboundEnv pendingConnect) l s = some (s', o)) (hl : Attends l s)
    (hsingle : s.buffer.streamFilters.length = 1) : s'.buffer.streamFilters.length = 1 := by
  obtain ⟨-, hmove⟩ := move_of_step h
  cases hmove with
  | aside ha =>
      rw [ha.filters]
      exact hsingle
  | ret _ => exact hsingle
  | enter _ hn =>
      rw [resume_buffer, (StreamBuffer.handleEvents_cases hn).1]
      exact hsingle
  | run _ hrun =>
      rw [resume_buffer]
      rcases StreamBuffer.runFrame_touched hrun with heq | ⟨i, f, -, heq⟩
      · rw [heq]
        exact hsingle
      · rw [heq, StreamBuffer.length_setFilter]
        exact hsingle
  | answer _ hans =>
      rw [resume_buffer]
      rcases StreamBuffer.answerFrame_touched hans with heq | ⟨i, f, -, heq⟩
      · rw [heq]
        exact hsingle
      · rw [heq, StreamBuffer.length_setFilter]
        exact hsingle
  | added _ hadd =>
      have hallowed := (StreamBuffer.addStreamBufferFilter_cases hadd).1
      exact absurd (hl.1 _ rfl) (by simp [hallowed])

/-- After `EAGAIN` nothing is readable, until something arrives. -/
theorem again_step (h : step (inboundEnv pendingConnect) l s = some (s', o))
    (hagain : s.env.lastRecv = some (.error .EAGAIN) → s.env.readable = false) :
    s'.env.lastRecv = some (.error .EAGAIN) → s'.env.readable = false := by
  have hsocket := socket_of_step h
  generalize s'.env = k at hsocket ⊢
  cases hsocket with
  | same | send _ _ | asked _ | ticks => exact hagain
  | @recv i ret rest _ hcontract =>
      intro hlast
      cases ret with
      | ok bs => exact absurd hlast (by simp [Inbound.recv])
      | error e =>
          obtain rfl : e = .EAGAIN := by simpa [Inbound.recv] using hlast
          have hempty : s.env.readable = false := by simpa [Inbound.recvContract] using hcontract
          exact hempty
  | arrives harrive =>
      intro hlast
      exact absurd ((Inbound.arrive_spec harrive).2.1.symm.trans hlast) (by simp)

/-- Outside the loop that reads, what has been heard stays so. -/
theorem heard_stays {p : Phase} (h : step (inboundEnv pendingConnect) l s = some (s', o))
    (hp : OpenStack p s.stack) (hread : p ≠ .reading) (hheard : Heard s.env) : Heard s'.env := by
  have hsocket := socket_of_step h
  generalize s'.env = k at hsocket ⊢
  cases hsocket with
  | same | send _ _ | asked _ | ticks => exact hheard
  | recv hf _ =>
      rw [hf] at hp
      cases hp
      exact absurd rfl hread
  | arrives harrive => exact .inr (Inbound.arrive_spec harrive).1

/-- Only a call that writes sends. -/
theorem sent_of_step {p : Phase} (h : step (inboundEnv pendingConnect) l s = some (s', o))
    (hp : OpenStack p s.stack) (hsent : s'.env.sent = true) : s.env.sent = true ∨ p = .writing := by
  have hsocket := socket_of_step h
  generalize s'.env = k at hsocket hsent
  cases hsocket with
  | same | asked _ | ticks => exact .inl hsent
  | @recv i ret _ _ _ =>
      cases ret <;> exact .inl hsent
  | arrives harrive => exact .inl ((Inbound.arrive_spec harrive).2.2.1 ▸ hsent)
  | send hf hsends =>
      rw [hf] at hp
      cases hp <;> first | exact .inr rfl | exact absurd hsends (by simp [Frame.sends])

/-- Outside `HandleEvents` and at its end no filter is touched. -/
theorem filters_of_finishing {p : Phase} (h : step (inboundEnv pendingConnect) l s = some (s', o))
    (hl : Attends l s) (hp : OpenStack p s.stack) (hfinishing : p = .idle ∨ p = .finishing) :
    s'.buffer.filter 0 = s.buffer.filter 0 := by
  have hsame : s'.buffer.streamFilters = s.buffer.streamFilters := by
    obtain ⟨-, hmove⟩ := move_of_step h
    cases hmove with
    | aside ha => exact ha.filters
    | ret _ => rfl
    | enter _ hn => rw [resume_buffer, (StreamBuffer.handleEvents_cases hn).1]
    | run hf hrun =>
        rw [resume_buffer]
        refine (StreamBuffer.runFrame_filters hrun ?_).1
        rintro rfl
        rw [hf] at hp
        cases hp
        simp at hfinishing
    | answer hf hans =>
        rw [hf] at hp
        cases hp with
        | doConnect | read | write => simp at hfinishing
        | _ => exact absurd hans (by simp [StreamBuffer.answerFrame])
    | added _ hadd =>
        have hallowed := (StreamBuffer.addStreamBufferFilter_cases hadd).1
        exact absurd (hl.1 _ rfl) (by simp [hallowed])
  rw [StreamBuffer.filter, hsame, StreamBuffer.filter]

/-- **One step keeps the receive invariant.** What the phases establish on their way out is what
it says of a buffer at rest. -/
theorem receiveInv_step (h : step (inboundEnv pendingConnect) l s = some (s', o)) (hl : Attends l s)
    (hchain : ChainInv s) (hi : ReceiveInv s) : ReceiveInv s' := by
  have hcr := (step_inv h).1
  have hgrow := flagsGrow_step h
  have hstage := hchain.stage hcr
  -- the phases of a buffer that stays open
  have hphases : s'.crashed = none → s'.buffer.shouldClose = false → ∀ p', OpenStack p' s'.stack →
      s.buffer.shouldClose = false ∧ ∃ p, OpenStack p s.stack ∧ PhaseStep s' o p p' := by
    intro hcr' hclose' p' hp'
    have hclose : s.buffer.shouldClose = false := by
      by_contra hno
      have hshut := hgrow.shouldClose (by simpa using hno)
      exact absurd hshut (by simp [hclose'])
    obtain ⟨p, hp⟩ := openStack_of_stage hstage hi.single hclose
    obtain ⟨p₁, hp₁, hphase⟩ := phase_step h hl hp hi.single hcr' hclose'
    obtain rfl := hp₁.unique hp'
    exact ⟨hclose, p, hp, hphase⟩
  refine ⟨single_step h hl hi.single, again_step h hi.again, ?_, ?_, ?_⟩
  · intro hlast
    have hsocket := socket_of_step h
    generalize s'.env = k at hsocket hlast
    cases hsocket with
    | same | send _ _ | asked _ | ticks => exact hgrow.connected 0 (hi.connected hlast)
    | arrives harrive => exact absurd (Inbound.arrive_spec harrive).2.1 hlast
    | @recv i ret rest hf _ =>
        -- `recv` is called in `DoRead` only
        rw [hf] at hstage
        cases hstage with
        | read _ hconnected =>
            rw [StreamBuffer.back, backIndex_of_single hi.single] at hconnected
            exact hgrow.connected 0 hconnected
  · intro hcr' hclose' hclosed' p' hp'
    obtain ⟨hclose, p, hp, hphase⟩ := hphases hcr' hclose' p' hp'
    cases hphase with
    | connects | reads | connected _ | refused _ | drained _ | closed _ | written =>
        exact ⟨by simp, by simp⟩
    | finalized hopen => exact absurd hclosed' (by simp [hopen])
    | returns =>
        rw [filters_of_finishing h hl hp (.inr rfl)] at hclosed'
        exact absurd rfl (hi.closing hcr hclose hclosed' _ hp).2
    | stays =>
        rw [← not_or]
        intro hp'
        rw [filters_of_finishing h hl hp hp'] at hclosed'
        have hno := hi.closing hcr hclose hclosed' _ hp
        exact hp'.elim hno.1 hno.2
  · intro hcr' hclose' hopen' p' hp' hcond
    obtain ⟨hclose, p, hp, hphase⟩ := hphases hcr' hclose' p' hp'
    have hopen : (s.buffer.filter 0).readClosed = false := by
      by_contra hno
      have hshut := hgrow.readClosed 0 (by simpa using hno)
      exact absurd hshut (by simp [hopen'])
    -- a phase that neither is nor leaves the reading
    have hkept : p ≠ .reading → (p' = .writing → p = .writing) → p' = .reading ∨ Heard s'.env := by
      intro hread hwriting
      have hbefore : s.env.sent = true ∨ p = .writing :=
        hcond.elim (sent_of_step h hp) fun hw => .inr (hwriting hw)
      have hheard := (hi.heard hcr hclose hopen p hp hbefore).resolve_left hread
      exact .inr (heard_stays h hp hread hheard)
    cases hphase with
    | reads => exact .inl rfl
    | drained hagain => exact .inr (.inl hagain)
    | closed hclosed | refused hclosed => exact absurd hclosed (by simp [hopen'])
    | stays =>
        by_cases hread : p' = .reading
        · exact .inl hread
        · exact hkept hread id
    | connects | connected _ | written | finalized _ | returns => exact hkept (by simp) (by simp)

/-- The runs of a stream buffer that attends to its socket. -/
abbrev ReceiveRun (pendingConnect : Bool) : BufferState Inbound →
    List (Obs (SysRet ⊕ Arrival)) → BufferState Inbound → Prop :=
  GuardedRun (bufferSystem (inboundEnv pendingConnect)) Attends

/-- It holds at the beginning. -/
theorem receiveInv_init : ReceiveInv (init mode addr (Inbound.fresh socket)) where
  single := rfl
  again h := absurd h (by simp [init, Inbound.fresh])
  connected h := absurd rfl h
  closing _ _ h :=
    absurd h (by simp [init, StreamBuffer.create_eq, StreamBuffer.filter, Filter.new])
  heard _ _ _ p hp h := by
    cases hp
    exact absurd h (by simp [init, Inbound.fresh])

theorem receiveInv_of_run
    (h : ReceiveRun pendingConnect (init mode addr (Inbound.fresh socket)) tr s) :
    ReceiveInv s := by
  refine h.invariant (I := fun _ s => ReceiveInv s) receiveInv_init ?_
  intro tr s l s' o hrun ih hl hs
  exact receiveInv_step hs hl (chainInv_of_run hrun) ih

/-! ### What is received is handed over -/

/-- Without the answer of `recv` and without `HandleData` the two stay as they are. -/
theorem handed_of_silent (h : ∀ x ∈ o, handedData [x] = received [x]) :
    handedData o = received o := by
  induction o with
  | nil => rfl
  | cons x o ih =>
      have hx := h x List.mem_cons_self
      have hrest := ih fun y hy => h y (List.mem_cons_of_mem x hy)
      show handedData ([x] ++ o) = received ([x] ++ o)
      rw [handedData_append, received_append, hx, hrest]

/-- What `recv` has returned is handed to the user at once, byte for byte. -/
theorem handed_of_step (h : step (inboundEnv pendingConnect) l s = some (s', o)) :
    handedData o = received o := by
  obtain ⟨-, hmove⟩ := move_of_step h
  cases hmove with
  | ret _ | added _ _ => rfl
  | enter _ hn =>
      rw [(StreamBuffer.handleEvents_cases hn).2.1]
      rfl
  | run _ hrun =>
      rcases StreamBuffer.runFrame_obs hrun with ho | ⟨ds, ho⟩ | ho | ho | ho | ho <;>
        rw [ho] <;> rfl
  | aside ha =>
      refine handed_of_silent fun x hx => ?_
      have haside := ha.obs x hx
      cases x <;> first | rfl | exact absurd haside (by simp [Obs.aside])
  | @answer f rest r n k hf hans =>
      by_cases hread : ∃ i, f = .read i
      · -- what `recv` has returned is handed over in the same step
        obtain ⟨i, rfl⟩ := hread
        obtain ⟨ret, rfl, -, -, hturn⟩ := readTurn hans
        cases hturn with
        | @data bs d res _ hbytes => simp [handedData, received, hbytes]
        | again | eof | failed | threw => rfl
      · obtain ⟨x, hx, ho⟩ := StreamBuffer.answerFrame_obs hans
        have hone : handedData [x] = received [x] := by
          cases hx with
          | «in» => exact absurd ⟨_, rfl⟩ hread
          | out _ _ | connect | shutdown => rfl
        rcases StreamBuffer.answerFrame_plain hans with hplain | ⟨i, -, -, rfl, -⟩ | ⟨-, rfl⟩
        · rcases ho with ho | ⟨c, ho⟩
          · rw [ho]
            exact hone
          · have hno := (hplain.obs (.callback c) (by simp [ho])).1
            exact absurd hno (by simp [Obs.isCallback])
        · exact absurd ⟨i, rfl⟩ hread
        · rfl

/-- `HandleData` is given what `recv` returns, in order. -/
theorem handed_of_run {ok : BufferLabel (SysRet ⊕ Arrival) → BufferState Inbound → Prop}
    (h : GuardedRun (bufferSystem (inboundEnv pendingConnect)) ok s tr s') :
    handedData tr = received tr := by
  refine h.invariant (I := fun tr _ => handedData tr = received tr) rfl ?_
  intro tr s l s' o _ ih _ hs
  rw [handedData_append, received_append, ih, handed_of_step hs]

end
/-! ### A stream buffer and its loop -/

section

open EventLoop Hosted

variable {pendingConnect : Bool} {s s' : BufferState Inbound} {l : BufferLabel (SysRet ⊕ Arrival)}
  {o : List (Obs (SysRet ⊕ Arrival))} {mode : StreamBufferMode} {addr : Nat} {socket : Socket}

/-- What `HandleEvents` is to be called for: there is something to read, or nothing has been
written and nothing heard of a socket that is established. -/
structure Wanted (s : BufferState Inbound) : Prop where
  shouldClose : s.buffer.shouldClose = false
  readClosed : (s.buffer.filter 0).readClosed = false
  lastRecv : s.env.lastRecv ≠ some (.error .EAGAIN)
  ready : s.env.readable = true ∨ (s.env.socket.established = true ∧ s.env.sent = false)

/-- A call that connects or reads. -/
def Receiving (s : BufferState Inbound) : Prop :=
  OpenStack .connecting s.stack ∨ OpenStack .reading s.stack

theorem receiving_of_phase {p : Phase} (h : OpenStack p s.stack)
    (hp : p = .connecting ∨ p = .reading) : Receiving s := by
  rcases hp with rfl | rfl
  · exact .inl h
  · exact .inr h

theorem phase_of_receiving {p : Phase} (h : OpenStack p s.stack) (hr : Receiving s) :
    p = .connecting ∨ p = .reading := by
  rcases hr with hr | hr
  · exact .inl (hr.unique h)
  · exact .inr (hr.unique h)

/-- It is the loop thread that asks for another interest. -/
theorem body_of_modifyEvent (h : step (inboundEnv pendingConnect) l s = some (s', [.modifyEvent])) :
    actor (fun _ => true) l = .body := by
  obtain ⟨-, hmove⟩ := move_of_step h
  generalize ho : [Obs.modifyEvent] = o at hmove
  cases hmove with
  | run _ _ | answer _ _ => rfl
  | enter _ hn => exact absurd (ho.trans (StreamBuffer.handleEvents_cases hn).2.1) (by simp)
  | ret _ | added _ _ => exact absurd ho (by simp)
  | aside ha => exact absurd (ha.obs .modifyEvent (by simp [← ho])) (by simp [Obs.aside])

/-- Outside of these calls nobody but the surroundings makes `HandleEvents` wanted. -/
theorem wanted_before {p : Phase} (h : step (inboundEnv pendingConnect) l s = some (s', o))
    (hl : ∀ r, l ≠ .tick r) (hp : OpenStack p s.stack) (hno : ¬Receiving s) (hw : Wanted s') :
    Wanted s := by
  have hgrow := flagsGrow_step h
  have hclose : s.buffer.shouldClose = false := by
    by_contra hyes
    have hshut := hgrow.shouldClose (by simpa using hyes)
    exact absurd hshut (by simp [hw.shouldClose])
  have hopen : (s.buffer.filter 0).readClosed = false := by
    by_contra hyes
    have hshut := hgrow.readClosed 0 (by simpa using hyes)
    exact absurd hshut (by simp [hw.readClosed])
  have hlast := hw.lastRecv
  have hready := hw.ready
  have hsocket := socket_of_step h
  generalize s'.env = k at hsocket hlast hready
  cases hsocket with
  | same | asked _ => exact ⟨hclose, hopen, hlast, hready⟩
  | send _ _ => exact ⟨hclose, hopen, hlast, .inl (hready.resolve_right (by simp))⟩
  | recv hf _ =>
      rw [hf] at hp
      cases hp
      exact absurd (.inr (by rw [hf]; exact .read)) hno
  | arrives _ | ticks => exact absurd rfl (hl _)

/-- The stream buffer is an attentive handler: what makes it wanted is news of the kernel, and a
call of `HandleEvents` does not end while it is wanted. -/
theorem buffer_attentive (h : step (inboundEnv pendingConnect) l s = some (s', o))
    (hl : Attends l s) (hchain : ChainInv s) (hi : ReceiveInv s) (hcr' : s'.crashed = none)
    {mask : EPollEvents} :
    Attentive (inboundCode pendingConnect) mask (fun _ => False) (fun _ => True) Wanted Receiving
      l s s' o := by
  -- the call before the step and after it
  have hphases : Wanted s' → ∃ p p', OpenStack p s.stack ∧ OpenStack p' s'.stack ∧
      PhaseStep s' o p p' := by
    intro hw
    have hclose : s.buffer.shouldClose = false := by
      by_contra hyes
      have hshut := (flagsGrow_step h).shouldClose (by simpa using hyes)
      exact absurd hshut (by simp [hw.shouldClose])
    obtain ⟨p, hp⟩ := openStack_of_stage (hchain.stage (step_inv h).1) hi.single hclose
    obtain ⟨p', hp', hphase⟩ := phase_step h hl hp hi.single hcr' hw.shouldClose
    exact ⟨p, p', hp, hp', hphase⟩
  constructor
  · intro events hactor hw
    have hclose := hw.shouldClose
    obtain ⟨-, hstep⟩ := step_inv h
    cases hstep with
    | @handleEvents alive n _ _ hn =>
        obtain ⟨hbuffer, -, hthrew, hcases⟩ := StreamBuffer.handleEvents_cases hn
        rw [resume_buffer, hbuffer] at hclose
        refine .inl ?_
        rw [Receiving, resume_of_threw_none hthrew]
        rcases hcases with ⟨hdead, -⟩ | ⟨-, hno, -⟩ | ⟨-, -, -, hframes⟩ | ⟨-, -, -, hframes⟩
        · exact absurd (hl.2 _ rfl) (by simp [hdead])
        · exact absurd hno (by simp [hclose])
        · exact .inl (by rw [hframes]; exact .doConnect)
        · exact .inr (by rw [hframes]; exact .doRead)
    | _ => exact absurd hactor (by simp [inboundCode, bufferCode, actor])
  · intro hentry hnews hw
    obtain ⟨p, p', hp, hp', hphase⟩ := hphases hw
    by_cases hbusy : Receiving s'
    · exact .inl hbusy
    · have hno : p' ≠ .connecting ∧ p' ≠ .reading :=
        not_or.mp fun hyes => hbusy (receiving_of_phase hp' hyes)
      -- leaving such a call has the interest installed again, or has found nothing more to read
      have hleft : (p = .connecting ∨ p = .reading) → o = [.modifyEvent] := by
        intro hwas
        cases hphase with
        | connected ho => exact ho
        | refused hclosed | closed hclosed => exact absurd hclosed (by simp [hw.readClosed])
        | drained hagain => exact absurd hagain hw.lastRecv
        | stays => exact absurd (hwas.elim hno.1 hno.2) id
        | connects | reads | written | finalized _ | returns => simp at hwas
      by_cases hwas : Receiving s
      · obtain rfl := hleft (phase_of_receiving hp hwas)
        exact .inr (.inr (.inl ⟨rfl, body_of_modifyEvent h⟩))
      · refine .inr (.inl ⟨wanted_before h ?_ hp hwas hw, hwas⟩)
        rintro r rfl
        exact absurd rfl hnews

variable {cfg : Config} {e : EventId} {fd : Fd} {tr : List (LoopObs ⊕ Obs (SysRet ⊕ Arrival))}
  {h : Hosted (BufferState Inbound)}

/-- `Attends`, for the handler on its loop. -/
def AttendsHosted (l : HostedLabel (BufferLabel (SysRet ⊕ Arrival)))
    (h : Hosted (BufferState Inbound)) : Prop := ∀ l', Takes l l' → Attends l' h.handler

/-- The runs of such a stream buffer and its loop, from the creation of both. -/
abbrev HostedReceive (cfg : Config) (pendingConnect : Bool) (e : EventId) (mode : StreamBufferMode)
    (addr : Nat) (socket : Socket) (tr : List (LoopObs ⊕ Obs (SysRet ⊕ Arrival)))
    (h : Hosted (BufferState Inbound)) : Prop :=
  GuardedRun (hostedSystem cfg (inboundCode pendingConnect) e) AttendsHosted
    (Hosted.init (.init mode addr (.fresh socket))) tr h

theorem receiveRun (hrun : HostedReceive cfg pendingConnect e mode addr socket tr h) :
    ReceiveRun pendingConnect (init mode addr (Inbound.fresh socket)) (handlerTrace tr) h.handler :=
  bufferRun (fun _ _ _ htakes hattends => hattends _ htakes) hrun

/-- The interest of the stream buffer. -/
theorem inbound_mask (s : BufferState Inbound) :
    getEPollEventsFromEvents ((inboundCode pendingConnect).getEvents s) =
      EPollEvents.EPOLLIN ||| EPollEvents.EPOLLOUT ||| EPollEvents.EPOLLRDHUP :=
  s.buffer.mask_getEvents

/-- It has the kernel report what the stream buffer is wanted for. -/
theorem wanted_reported (hw : Wanted s) : (inboundCode pendingConnect).reports s &&&
    (EPollEvents.EPOLLET ||| (EPollEvents.EPOLLIN ||| EPollEvents.EPOLLOUT |||
      EPollEvents.EPOLLRDHUP)) ≠ 0 := by
  show s.env.reports &&& _ ≠ 0
  unfold Inbound.reports
  rcases hw.ready with hreadable | ⟨hestablished, hsent⟩
  · rw [hreadable]
    cases s.env.socket.established && !s.env.sent <;> decide
  · rw [hestablished, hsent]
    cases s.env.readable <;> decide

/-- A wanted buffer is connecting or reading, or a signal is on its way to it. -/
theorem attended_of_wanted (hclass : cfg.handler e = .user fd)
    (hrun : HostedReceive cfg pendingConnect e mode addr socket tr h)
    (hcr : h.handler.crashed = none) (hc : h.loop.crashed = none)
    (hreg : h.loop.epoll.events (cfg.handle e) = some e) (halive : (h.loop.handlers e).alive = true)
    (hw : Wanted h.handler) : Receiving h.handler ∨
      Notified cfg (fun _ => False) (fun _ => True) e h.loop := by
  refine attended Wanted Receiving hclass inbound_mask ?_ ?_ ?_ hrun
    (by simpa [inboundCode, bufferCode] using hcr) hc hreg halive hw
  · exact fun _ _ => trivial
  · exact fun s hw => ⟨wanted_reported hw, fun _ _ => trivial⟩
  · intro tr h l l' handler' o hrun htakes hattends hs hcrashed
    have hreceive := receiveRun hrun
    exact buffer_attentive hs (hattends l' htakes) (chainInv_of_run hreceive)
      (receiveInv_of_run hreceive) (by simpa [inboundCode, bufferCode] using hcrashed)

/-- While the loop sleeps, the last `recv` has found nothing. -/
theorem drained_of_asleep (hclass : cfg.handler e = .user fd)
    (hrun : HostedReceive cfg pendingConnect e mode addr socket tr h)
    (hcr : h.handler.crashed = none) (hc : h.loop.crashed = none)
    (hreg : h.loop.epoll.events (cfg.handle e) = some e) (halive : (h.loop.handlers e).alive = true)
    (hasleep : Asleep cfg (inboundCode pendingConnect) e h)
    (hestablished : h.handler.env.socket.established = true)
    (hclose : h.handler.buffer.shouldClose = false) :
    h.handler.env.lastRecv = some (.error .EAGAIN) := by
  by_contra hlast
  have hi := receiveInv_of_run (receiveRun hrun)
  -- `HandleEvents` does not run while the thread is in `epoll_wait`
  have hidle : h.handler.stack = [] := by
    by_contra hne
    obtain ⟨rest, hstack⟩ := stack_of_running hclass buffer_starts rfl hrun hc
      (by simpa [inboundCode, bufferCode] using hne)
    obtain ⟨final, hwait⟩ := hasleep.wait.stack_eq (layered_of_run (loopRun hrun))
    exact absurd (hstack.symm.trans hwait) (by simp)
  have hphase : OpenStack .idle h.handler.stack := by
    rw [hidle]
    exact .idle
  have hopen : (h.handler.buffer.filter 0).readClosed = false := by
    by_contra hyes
    exact (hi.closing hcr hclose (by simpa using hyes) _ hphase).1 rfl
  -- what has been written on has been read first
  have hready : h.handler.env.readable = true ∨
      (h.handler.env.socket.established = true ∧ h.handler.env.sent = false) := by
    cases hsent : h.handler.env.sent with
    | false => exact .inr ⟨hestablished, rfl⟩
    | true =>
        have hheard := (hi.heard hcr hclose hopen _ hphase (.inl hsent)).resolve_left (by simp)
        exact .inl (hheard.resolve_left hlast)
  have hw : Wanted h.handler := ⟨hclose, hopen, hlast, hready⟩
  rcases attended_of_wanted hclass hrun hcr hc hreg halive hw with hbusy | hnotified
  · rcases phase_of_receiving hphase hbusy with hno | hno <;> exact absurd hno (by simp)
  · refine not_notified_of_asleep hrun hc hreg ?_ (fun _ _ _ hno => hno.elim) hasleep hnotified
    rw [pollable, interest_of_registered hclass inbound_mask hrun hc hreg halive]
    exact wanted_reported hw

/-- **No input is lost, and none waits on a lost edge.** Whatever arrives and whenever, and
whatever `recv` returns: `HandleData` is given what `recv` has returned, in order; and while the
loop sleeps, a registered stream buffer whose socket is established and which is not closing is
connected and has seen `recv` find nothing since the last arrival, so that neither bytes nor the
end of file wait in the kernel. -/
theorem input_complete (cfg : Config) (pendingConnect : Bool) {e : EventId} {fd : Fd}
    (mode : StreamBufferMode) (addr : Nat) (socket : Socket) (hclass : cfg.handler e = .user fd)
    {tr : List (LoopObs ⊕ Obs (SysRet ⊕ Arrival))} {h : Hosted (BufferState Inbound)}
    (hrun : HostedReceive cfg pendingConnect e mode addr socket tr h) :
    handedData (handlerTrace tr) = received (handlerTrace tr) ∧
    (h.handler.crashed = none → h.loop.crashed = none →
      h.loop.epoll.events (cfg.handle e) = some e → (h.loop.handlers e).alive = true →
      Asleep cfg (inboundCode pendingConnect) e h →
      h.handler.env.socket.established = true → h.handler.buffer.shouldClose = false →
      (h.handler.buffer.filter 0).connected = true ∧
      h.handler.env.lastRecv = some (.error .EAGAIN) ∧
      h.handler.env.unread = [] ∧ h.handler.env.eof = false) := by
  have hreceive := receiveRun hrun
  have hi := receiveInv_of_run hreceive
  refine ⟨handed_of_run hreceive, fun hcr hc hreg halive hasleep hestablished hclose => ?_⟩
  have hlast := drained_of_asleep hclass hrun hcr hc hreg halive hasleep hestablished hclose
  have hnothing : h.handler.env.unread = [] ∧ h.handler.env.eof = false := by
    simpa [Inbound.readable] using hi.again hlast
  exact ⟨hi.connected (by simp [hlast]), hlast, hnothing.1, hnothing.2⟩

/-- The steps of a living handler to which no filter is added. -/
def attending : HostedLabel (BufferLabel (SysRet ⊕ Arrival)) → Bool
  | .enter (.handleEvents alive) | .handler (.handleEvents alive) _ => alive
  | .enter (.addFilter _) | .handler (.addFilter _) _ => false
  | _ => true

theorem attends_of_attending {l : HostedLabel (BufferLabel (SysRet ⊕ Arrival))}
    (hl : attending l = true) : AttendsHosted l h := by
  intro l' htakes
  cases htakes with
  | enter l' | handler l' _ => cases l' <;> simp_all [attending, Attends]

/-- The socket of a client whose handshake goes on. -/
def connectingSocket : Socket := { connecting := true, established := false, soError := none }

/-- The handshake ends and two bytes arrive before `HandleEvents` has connected the filter. The
descriptor is reported once more for its `EPOLL_CTL_MOD`, which brings `HandleEvents` back. -/
def receivesEarly : List (HostedLabel (BufferLabel (SysRet ⊕ Arrival))) :=
  [.handler (.tick (.inl .handshake)) none, .loop (.loop .none),
    .handler (.tick (.inr (.bytes [104, 105]))) none,
    .loop (.loop (.wait fun _ _ => some (EPollEvents.EPOLLIN ||| EPollEvents.EPOLLOUT))),
    .loop (.loop .none), .enter (.handleEvents true),
    .handler (.answer (.inl (.getsockopt (.ok none)))) none, .handler .ret none] ++
  List.replicate 4 (.handler .run none) ++
  [.loop (.loop .none), .loop (.loop (.release false)), .loop (.loop .none), .loop (.loop .none),
    .loop (.loop (.wait fun _ _ => some (EPollEvents.EPOLLIN ||| EPollEvents.EPOLLOUT))),
    .loop (.loop .none), .enter (.handleEvents true), .handler .run none,
    .handler (.answer (.inl (.recv (.ok [104, 105])))) none, .handler .ret none,
    .handler (.answer (.inl (.recv (.error .EAGAIN)))) none] ++
  List.replicate 3 (.handler .run none) ++
  [.loop (.loop .none), .loop (.loop (.release false)), .loop (.loop .none), .loop (.loop .none)]

/-- What polling the drained socket reports: it can be written. -/
def pollsWritable : Fd → EventId → Option EPollEvents := fun _ _ => some EPollEvents.EPOLLOUT

/-- The schedule above: the bytes that arrived early have been handed over when the loop sleeps.
-/
theorem input_complete_receivesEarly : ∃ tr h,
    Asleep oneBuffer (inboundCode false) 0 h ∧ handedData (handlerTrace tr) = [104, 105] ∧
      (h.handler.buffer.filter 0).connected = true ∧
      h.handler.env.lastRecv = some (.error .EAGAIN) ∧ h.handler.env.unread = [] := by
  have hruns : (exec (hostedSystem oneBuffer (inboundCode false) 0) (fun l _ => attending l)
      (registersHandler (Events.Write ||| Events.Stream) ++ receivesEarly)
      (Hosted.init (.init .client 0 (.fresh connectingSocket)))).any (fun r =>
        r.1.sleepsOn oneBuffer (inboundCode false) 0 pollsWritable &&
        r.1.loop.epoll.events 3 == some 0 &&
        (r.1.loop.handlers 0).alive && r.1.loop.crashed.isNone && r.1.handler.crashed.isNone &&
        r.1.handler.env.socket.established && !r.1.handler.buffer.shouldClose &&
        received (handlerTrace r.2) == [104, 105]) = true := by decide +kernel
  obtain ⟨r, hexec, hcheck⟩ := (Option.any_eq_true _ _).mp hruns
  simp only [Bool.and_eq_true, beq_iff_eq, Option.isNone_iff_eq_none, Bool.not_eq_true'] at hcheck
  obtain ⟨⟨⟨⟨⟨⟨⟨hsleeps, hreg⟩, halive⟩, hc⟩, hcr⟩, hestablished⟩, hclose⟩, hreceived⟩ := hcheck
  have hrun : HostedReceive oneBuffer false 0 .client 0 connectingSocket r.2 r.1 :=
    GuardedRun.of_exec (fun _ _ hl => attends_of_attending hl) hexec
  have hasleep := asleep_of_sleepsOn hsleeps
  have hmain := input_complete oneBuffer false .client 0 connectingSocket rfl hrun
  obtain ⟨hconnected, hlast, hunread, -⟩ := hmain.2 hcr hc hreg halive hasleep hestablished hclose
  exact ⟨r.2, r.1, hasleep, hmain.1.trans hreceived, hconnected, hlast, hunread⟩

end

end BufferState

end Libael
