import Libael.Tcp.Endpoint

/-!
# Libael.Tcp.Connection

**A connection between two stream buffers.** Each of them is on an event loop of
its own, with any number of threads around it, and the network in between takes
its time. Whatever the interleaving, the user of one end is given a prefix of what
the user of the other end has written, and as long as no `send` has failed, what is
missing of it is in one of five places (`delivered_in_order`). Once the receiving
loop sleeps and the network is empty, none of it is on the receiving side
(`delivered_when_asleep`). And when the user of one end has been told that the
stream is over, without having closed it and without a failure, nothing of what
the other end has sent is missing (`delivered_at_end`).
-/

namespace Libael

open Lts BufferState Hosted EventLoop

namespace Connection

/-- The system of two ends. -/
def connectionSystem (ends : Side → Endpoint) :
    System (Link (Hosted (BufferState Inbound)) UInt8) (Side × Endpoint.Label)
      (Side × Endpoint.Shown) :=
  linkSystem fun a => (ends a).party

/-- The runs of a connection from the creation of both ends. -/
abbrev ConnectionRun (ends : Side → Endpoint)
    (ok : Side → Endpoint.Label → Hosted (BufferState Inbound) → Prop) :
    List (Side × Endpoint.Shown) → Link (Hosted (BufferState Inbound)) UInt8 → Prop :=
  GuardedRun (connectionSystem ends) (Link.Guarded ok) (Link.start fun a => (ends a).start)

/-- What the stream buffer of the side `a` has shown. -/
def shown (a : Side) (tr : List (Side × Endpoint.Shown)) : List (Obs (SysRet ⊕ Arrival)) :=
  handlerTrace (Link.ofSide a tr)

variable {ends : Side → Endpoint} {ok : Side → Endpoint.Label → Hosted (BufferState Inbound) → Prop}
  {tr : List (Side × Endpoint.Shown)} {s : Link (Hosted (BufferState Inbound)) UInt8} {a : Side}

/-! ### A client and a server -/

/-- A client on its loop. -/
def client : Endpoint :=
  { cfg := oneBuffer, event := 0, fd := 3, isUser := rfl, mode := .client, addr := 0
    pendingConnect := false, socket := connectingSocket }

/-- A server on its loop. -/
def server : Endpoint :=
  { cfg := oneBuffer, event := 0, fd := 3, isUser := rfl, mode := .server, addr := 0
    pendingConnect := true
    socket := { connecting := false, established := true, soError := none } }

/-- The client on the left, the server on the right. -/
def clientAndServer : Side → Endpoint
  | .left => client
  | .right => server

section

variable (poll : Fd → EventId → Option EPollEvents)

/-- The loop thread moves on, `n` times. -/
def onward (n : Nat) : List Endpoint.Label := List.replicate n (.loop (.loop .none))

/-- It runs `n` frames of `HandleEvents`. -/
def inside (n : Nat) : List Endpoint.Label := List.replicate n (.handler .run none)

/-- `epoll_wait` returns, and `HandleEvents` is called. -/
def wakes : List Endpoint.Label :=
  [.loop (.loop (.wait poll)), .loop (.loop .none), .enter (.handleEvents true)]

/-- `HandleEvents` has returned. -/
def leaves (n : Nat) : List Endpoint.Label :=
  [.loop (.loop .none), .loop (.loop (.release false))] ++ onward n

end

/-- The socket answers a system call of the filter. -/
def answers (r : SysRet) : Endpoint.Label := .handler (.answer (.inl r)) none

/-- The client connects, writes two bytes and closes in `HandleConnected`. `HandleEvents` then sends
them and delivers `HandleEOF`; two more calls of it are due, which find nothing to do, and the
event is removed. -/
def writesAndCloses : List Endpoint.Label :=
  registersHandler (Events.Write ||| Events.Stream) ++
  [.handler (.tick (.inl .handshake)) none] ++ onward 1 ++ wakes pollsWritable ++
  [answers (.getsockopt (.ok none)), .handler (.write .loop (.ofString [104, 105])) none,
    .handler (.push .loop) none, .handler (.notify .loop) none, .loop (.proceed .loop),
    .loop (.proceed .loop), .handler (.close .loop) none, .handler (.notify .loop) none,
    .loop (.proceed .loop), .handler .ret none] ++
  inside 4 ++ leaves 2 ++ [.loop (.loop (.wait pollsWritable))] ++ onward 11 ++
  [.enter (.handleEvents true)] ++ inside 2 ++ [answers (.send (.ok 2))] ++ inside 3 ++
  [answers .none] ++ inside 4 ++ [.handler .ret none] ++ inside 1 ++
  List.replicate 4 (.loop (.proceed .loop)) ++ leaves 1 ++
  [.enter (.handleEvents true)] ++ inside 5 ++ leaves 3 ++
  [.enter (.handleEvents true)] ++ inside 5 ++ leaves 2 ++
  [.loop (.loop (.wait pollsWritable))] ++ onward 7 ++ [.loop (.loop (.ctl 0 none))] ++ onward 7

/-- The server accepts. -/
def accepts : List Endpoint.Label :=
  registersHandler (Events.Write ||| Events.Stream) ++ onward 1 ++ wakes pollsWritable ++
  [answers .none, .handler .ret none] ++ inside 4 ++ leaves 2

/-- What polling a socket with something to read reports. -/
def pollsReadable : Fd → EventId → Option EPollEvents :=
  fun _ _ => some (EPollEvents.EPOLLIN ||| EPollEvents.EPOLLOUT)

/-- The two bytes arrive, and the server reads them. -/
def reads : List Endpoint.Label :=
  [.handler (.tick (.inr (.bytes [104, 105]))) none] ++ wakes pollsReadable ++ inside 1 ++
  [answers (.recv (.ok [104, 105])), .handler .ret none, answers (.recv (.error .EAGAIN))] ++
  inside 3 ++ leaves 2

/-- The client lets go of its handler, and its descriptor is closed. -/
def letsGo : List Endpoint.Label :=
  [.loop (.call (.user 0) (.destroyHandler 0)), .loop (.proceed (.user 0)), .loop (.destroyEvent 0)]

/-- The end of the stream arrives, and the server closes its side. -/
def readsTheEnd : List Endpoint.Label :=
  [.handler (.tick (.inr .eof)) none] ++ wakes pollsReadable ++ inside 1 ++
  [answers (.recv (.ok []))] ++ inside 6 ++ [answers .none] ++ inside 3

/-- The client writes two bytes and closes; the server is given the bytes and goes back to sleep.
-/
def transfers : List (Side × Endpoint.Label) :=
  accepts.map (Prod.mk .right) ++ writesAndCloses.map (Prod.mk .left) ++ reads.map (Prod.mk .right)

/-- Then the client lets go of its descriptor, and the server reads the end. -/
def transfersAndEnds : List (Side × Endpoint.Label) :=
  transfers ++ letsGo.map (Prod.mk .left) ++ readsTheEnd.map (Prod.mk .right)

/-- What a schedule leads to, as a test. -/
def leadsTo (ls : List (Side × Endpoint.Label))
    (test : Link (Hosted (BufferState Inbound)) UInt8 → List (Side × Endpoint.Shown) → Bool) :
    Bool :=
  (exec (connectionSystem clientAndServer) (fun l _ => attending l.2) ls
    (Link.start fun a => (clientAndServer a).start)).any fun r => test r.1 r.2

theorem run_of_leadsTo {ls : List (Side × Endpoint.Label)}
    {test : Link (Hosted (BufferState Inbound)) UInt8 → List (Side × Endpoint.Shown) → Bool}
    (h : leadsTo ls test = true) : ∃ tr s,
      ConnectionRun clientAndServer (fun _ => AttendsHosted) tr s ∧ test s tr = true := by
  obtain ⟨r, hexec, htest⟩ := (Option.any_eq_true _ _).mp h
  refine ⟨r.2, r.1, ?_, htest⟩
  exact GuardedRun.of_exec (fun l s hl => attends_of_attending hl) hexec

theorem alone_of_attends {l : Endpoint.Label} {h : Hosted (BufferState Inbound)}
    (hl : AttendsHosted l h) : Endpoint.Alone l h := fun l' htakes => (hl l' htakes).1

/-! ### The stream between two users -/

/-- The three pipes between two users: the output side of one end, the wire, and the receive
queue of the other end. -/
def outgoing (tr : List (Side × Endpoint.Shown)) (s : Link (Hosted (BufferState Inbound)) UInt8)
    (a : Side) : Pipe UInt8 :=
  BufferState.pipe (tcpTrace (shown a tr)) ((s.ends a).handler.mapEnv Inbound.socket)

/-- The pipe from the buffer of `a` to the other end of the wire. -/
def onWire (ends : Side → Endpoint) (tr : List (Side × Endpoint.Shown))
    (s : Link (Hosted (BufferState Inbound)) UInt8) (a : Side) : Pipe UInt8 :=
  Link.wirePipe (fun a => (ends a).party) (fun _ => Endpoint.arrived) tr s a

/-- The pipe from the kernel of the other end to its user. -/
def incoming (tr : List (Side × Endpoint.Shown)) (s : Link (Hosted (BufferState Inbound)) UInt8)
    (a : Side) : Pipe UInt8 :=
  ⟨handedData (shown a tr), (s.ends a).handler.env.unread,
    received (shown a tr) ++ (s.ends a).handler.env.unread, false⟩

/-- The stream from the user of `a` to the user of the other side. -/
def stream (ends : Side → Endpoint) (tr : List (Side × Endpoint.Shown))
    (s : Link (Hosted (BufferState Inbound)) UInt8) (a : Side) : Pipe UInt8 :=
  ((outgoing tr s a).inSeries (onWire ends tr s a)).inSeries (incoming tr s a.other)

theorem sideRun (h : ConnectionRun ends ok tr s) (a : Side) :
    GuardedRun (ends a).party.sys (ok a) (ends a).start (Link.ofSide a tr) (s.ends a) :=
  Link.run_of_link h a

theorem handed_eq (h : ConnectionRun ends ok tr s) (a : Side) :
    handedData (shown a tr) = received (shown a tr) := by
  have hrun : GuardedRun (bufferSystem _) (fun _ _ => True) _ _ _ :=
    bufferRun (fun _ _ _ _ _ => trivial) (sideRun h a)
  exact handed_of_run hrun

theorem sent_eq (ends : Side → Endpoint) (a : Side) (tr : List (Side × Endpoint.Shown)) :
    (Link.ofSide a tr).flatMap (ends a).party.sends = sentBytes (tcpTrace (shown a tr)) :=
  Endpoint.flatMap_sends _

/-- **The stream is a pipe.** -/
theorem stream_sound (hok : ∀ a l h, ok a l h → Endpoint.Alone l h)
    (h : ConnectionRun ends ok tr s) (a : Side) : (stream ends tr s a).Sound := by
  have hout : (outgoing tr s a).Sound :=
    Pipe.reachable_spec (pipe_of_run (tcpRun_of_run (Endpoint.aloneRun (hok a) (sideRun h a))))
  have hwire : (onWire ends tr s a).Sound :=
    Link.wire_sound (fun b => (ends b).accounts (ok b)) h a
  have hin : (incoming tr s a.other).Sound := by
    refine ⟨fun _ => ?_, ?_⟩
    · show handedData _ ++ _ = received _ ++ _
      rw [handed_eq h]
      rfl
    · show handedData _ <+: received _ ++ _
      rw [handed_eq h]
      exact List.prefix_append _ _
  exact (hout.inSeries hwire (sent_eq ends a tr)).inSeries hin rfl

/-- What has been accepted and not handed over is in one of five places. -/
theorem stream_conserved (hok : ∀ a l h, ok a l h → Endpoint.Alone l h)
    (h : ConnectionRun ends ok tr s) (a : Side)
    (hno : sendFailed (tcpTrace (shown a tr)) = false) :
    handedData (shown a.other tr) ++ (s.ends a.other).handler.env.unread ++ s.wire a ++
      viewBytes ((s.ends a).handler.buffer.filter 0).pendingOut ++
      viewBytes (s.ends a).handler.buffer.pendingWrites = acceptedBytes (shown a tr) := by
  have hbroken : (stream ends tr s a).broken = false := by
    show ((sendFailed (tcpTrace (shown a tr)) || false) || false) = false
    rw [hno]
    rfl
  have hconserved := (stream_sound hok h a).conserved hbroken
  rw [show (stream ends tr s a).accepted = _ from acceptedBytes_tcpTrace _] at hconserved
  rw [← hconserved]
  show _ = handedData (shown a.other tr) ++ ((s.ends a.other).handler.env.unread ++ (s.wire a ++
    viewBytes (((s.ends a).handler.buffer.filter 0).pendingOut ++
      (s.ends a).handler.buffer.pendingWrites)))
  simp [viewBytes, List.append_assoc]

/-- **What is written is what is read.** In every state that the two ends and the network
between them can get into, the user of one side has been given a prefix of what the user of the
other has written, in order, each byte once; and if no `send` has failed, the rest of it waits in
the kernel of the reader, on the wire, in `pending_out_` or in `pending_writes_`. -/
theorem delivered_in_order (ends : Side → Endpoint)
    (h : ConnectionRun ends (fun _ => Endpoint.Alone) tr s) (a : Side) :
    handedData (shown a.other tr) <+: acceptedBytes (shown a tr) ∧
    (sendFailed (tcpTrace (shown a tr)) = false →
      handedData (shown a.other tr) ++ (s.ends a.other).handler.env.unread ++ s.wire a ++
        viewBytes ((s.ends a).handler.buffer.filter 0).pendingOut ++
        viewBytes (s.ends a).handler.buffer.pendingWrites = acceptedBytes (shown a tr)) := by
  have hinOrder := (stream_sound (fun _ _ _ => id) h a).inOrder
  rw [show (stream ends tr s a).accepted = _ from acceptedBytes_tcpTrace _] at hinOrder
  exact ⟨hinOrder, stream_conserved (fun _ _ _ => id) h a⟩

/-- The two bytes, wherever they are. -/
theorem delivered_in_order_transfers : ∃ tr s,
    ConnectionRun clientAndServer (fun _ => Endpoint.Alone) tr s ∧
      acceptedBytes (shown .left tr) = [104, 105] ∧ handedData (shown .right tr) <+: [104, 105] ∧
      handedData (shown .right tr) ++ (s.ends .right).handler.env.unread ++ s.wire .left ++
        viewBytes ((s.ends .left).handler.buffer.filter 0).pendingOut ++
        viewBytes (s.ends .left).handler.buffer.pendingWrites = [104, 105] := by
  have hleads : leadsTo transfers (fun s tr => acceptedBytes (shown .left tr) == [104, 105] &&
      !sendFailed (tcpTrace (shown .left tr))) = true := by decide +kernel
  obtain ⟨tr, s, hrun, htest⟩ := run_of_leadsTo hleads
  simp only [Bool.and_eq_true, beq_iff_eq, Bool.not_eq_true'] at htest
  have halone : ConnectionRun clientAndServer (fun _ => Endpoint.Alone) tr s :=
    hrun.mono fun l s hl => alone_of_attends hl
  have hmain := delivered_in_order clientAndServer halone .left
  rw [htest.1] at hmain
  exact ⟨tr, s, halone, htest.1, hmain.1, hmain.2 htest.2⟩

/-- The user of the side `b` keeps the handler of the stream buffer alive. -/
def KeptBy (b c : Side) (l : Endpoint.Label) (h : Hosted (BufferState Inbound)) : Prop :=
  Endpoint.Alone l h ∧ (c = b → AttendsHosted l h)

/-- **Nothing waits on the receiving side.** While the loop of a connected stream buffer sleeps
and the network is empty, its user has been given everything the other user has written, but for
what the other end has not sent. -/
theorem delivered_when_asleep (ends : Side → Endpoint) (a : Side)
    (h : ConnectionRun ends (KeptBy a.other) tr s)
    (hcr : (s.ends a.other).handler.crashed = none) (hc : (s.ends a.other).loop.crashed = none)
    (hreg : (s.ends a.other).loop.epoll.events ((ends a.other).cfg.handle (ends a.other).event) =
      some (ends a.other).event)
    (halive : ((s.ends a.other).loop.handlers (ends a.other).event).alive = true)
    (hestablished : (s.ends a.other).handler.env.socket.established = true)
    (hopen : (s.ends a.other).handler.buffer.shouldClose = false)
    (hasleep : Asleep (ends a.other).cfg (inboundCode (ends a.other).pendingConnect)
      (ends a.other).event (s.ends a.other))
    (hwire : s.wire a = []) (hno : sendFailed (tcpTrace (shown a tr)) = false) :
    handedData (shown a.other tr) ++ viewBytes ((s.ends a).handler.buffer.filter 0).pendingOut ++
      viewBytes (s.ends a).handler.buffer.pendingWrites = acceptedBytes (shown a tr) := by
  have hrun : HostedReceive (ends a.other).cfg (ends a.other).pendingConnect (ends a.other).event
      (ends a.other).mode (ends a.other).addr (ends a.other).socket (Link.ofSide a.other tr)
      (s.ends a.other) := (sideRun h a.other).mono fun l h hkept => hkept.2 rfl
  -- the last `recv` has found the receive queue empty
  have hlast := drained_of_asleep (ends a.other).isUser hrun hcr hc hreg halive hasleep
    hestablished hopen
  have hunread : (s.ends a.other).handler.env.unread = [] := by
    have hnothing := (receiveInv_of_run (receiveRun hrun)).again hlast
    simp only [Inbound.readable, Bool.or_eq_false_iff, Bool.not_eq_false', List.isEmpty_iff]
      at hnothing
    exact hnothing.1
  have hconserved := stream_conserved (fun _ _ _ hkept => hkept.1) h a hno
  rw [hunread, hwire, List.append_nil, List.append_nil] at hconserved
  exact hconserved

/-- The two bytes have been handed over when the server sleeps. -/
theorem delivered_when_asleep_transfers : ∃ tr s,
    ConnectionRun clientAndServer (KeptBy .right) tr s ∧
      Asleep oneBuffer (inboundCode true) 0 (s.ends .right) ∧
      acceptedBytes (shown .left tr) = [104, 105] ∧ handedData (shown .right tr) = [104, 105] := by
  have hleads : leadsTo transfers (fun s tr =>
      (s.ends .right).sleepsOn oneBuffer (inboundCode true) 0 pollsWritable &&
      (s.ends .right).handler.crashed.isNone && (s.ends .right).loop.crashed.isNone &&
      (s.ends .right).loop.epoll.events 3 == some 0 && ((s.ends .right).loop.handlers 0).alive &&
      (s.ends .right).handler.env.socket.established &&
      !(s.ends .right).handler.buffer.shouldClose && (s.wire .left).isEmpty &&
      !sendFailed (tcpTrace (shown .left tr)) &&
      viewBytes ((s.ends .left).handler.buffer.filter 0).pendingOut == [] &&
      viewBytes (s.ends .left).handler.buffer.pendingWrites == [] &&
      acceptedBytes (shown .left tr) == [104, 105]) = true := by decide +kernel
  obtain ⟨tr, s, hrun, htest⟩ := run_of_leadsTo hleads
  simp only [Bool.and_eq_true, beq_iff_eq, Bool.not_eq_true', Option.isNone_iff_eq_none,
    List.isEmpty_iff] at htest
  obtain ⟨⟨⟨⟨⟨⟨⟨⟨⟨⟨⟨hsleeps, hcr⟩, hc⟩, hreg⟩, halive⟩, hestablished⟩, hopen⟩, hwire⟩, hno⟩, hout⟩,
    hwrites⟩, haccepted⟩ := htest
  have hkept : ConnectionRun clientAndServer (KeptBy .right) tr s :=
    hrun.mono fun l s hl => ⟨alone_of_attends hl, fun _ => hl⟩
  have hasleep := asleep_of_sleepsOn hsleeps
  have hmain := delivered_when_asleep clientAndServer .left hkept hcr hc hreg halive hestablished
    hopen hasleep hwire hno
  rw [hout, hwrites, haccepted, List.append_nil, List.append_nil] at hmain
  exact ⟨tr, s, hkept, hasleep, haccepted, hmain⟩

/-- **The end comes last.** When the user of one side has been told that the stream is over, and
has not closed it before that and neither `connect` nor `recv` has failed, then the descriptor
of the other side is closed and everything that has been sent from there has been handed over.
If the user of the other side has been told as well and no write has failed, that is everything
accepted before `Close`. -/
theorem delivered_at_end (ends : Side → Endpoint) (a : Side)
    (h : ConnectionRun ends (fun _ => Endpoint.Alone) tr s)
    (heof : .callback .handleEOF ∈ shown a.other tr)
    (hclose : .shouldClose ∉ (shown a.other tr).takeWhile fun x => !x.readsEnd)
    (hfails : ∀ x ∈ shown a.other tr, x.receiveFails = false) :
    s.closed a = true ∧ handedData (shown a.other tr) = sentBytes (tcpTrace (shown a tr)) ∧
    (.callback .handleEOF ∈ shown a tr → (∀ x ∈ tcpTrace (shown a tr), x.reportsFailure = false) →
      acceptedBefore (tcpTrace (shown a tr)) <+: handedData (shown a.other tr)) := by
  have hbelow : AloneRun (ends a.other).pendingConnect (ends a.other).mode (ends a.other).addr
      (ends a.other).socket (shown a.other tr) (s.ends a.other).handler :=
    Endpoint.aloneRun (fun _ _ => id) (sideRun h a.other)
  have hup : ReadUp (s.ends a.other).handler := by
    cases cause_of_handleEOF hbelow heof with
    | closed hyes => exact absurd hyes hclose
    | failed hmem hyes => exact absurd hyes (by simp [hfails _ hmem])
    | ended hmem hend => exact readUp_of_run hbelow hmem hend
  obtain ⟨hclosed, hall⟩ :=
    Link.nothing_missing (fun b => (ends b).accounts Endpoint.Alone) h a hup.1
  have hsent : handedData (shown a.other tr) = sentBytes (tcpTrace (shown a tr)) := by
    rw [handed_eq h, ← sent_eq ends, ← hall]
    show _ = received (shown a.other tr) ++ (s.ends a.other).handler.env.unread
    rw [hup.2, List.append_nil]
  refine ⟨hclosed, hsent, fun heof' hno => ?_⟩
  rw [hsent]
  have htcp := tcpRun_of_run (Endpoint.aloneRun (fun _ _ => id) (sideRun h a))
  have hflush := flushInv_of_run htcp hno
  have hle := (hflush.eof (List.mem_map.mpr ⟨_, heof', rfl⟩)).2
  exact List.prefix_of_prefix_length_le (acceptedBefore_isPrefix _)
    (Pipe.reachable_spec (pipe_of_run htcp)).inOrder hle

/-- `HandleEOF` is called. -/
def isEOF {ρ : Type} : Obs ρ → Bool
  | .callback .handleEOF => true
  | _ => false

theorem mem_of_isEOF {ρ : Type} {tr : List (Obs ρ)} (h : tr.any isEOF = true) :
    .callback .handleEOF ∈ tr := by
  obtain ⟨x, hx, heof⟩ := List.any_eq_true.mp h
  cases x with
  | callback c => cases c with
    | handleEOF => exact hx
    | _ => exact absurd heof (by simp [isEOF])
  | _ => exact absurd heof (by simp [isEOF])

/-- The end of the stream comes behind the two bytes. -/
theorem delivered_at_end_transfersAndEnds : ∃ tr s,
    ConnectionRun clientAndServer (fun _ => Endpoint.Alone) tr s ∧
      acceptedBefore (tcpTrace (shown .left tr)) = [104, 105] ∧ s.closed .left = true ∧
      [104, 105] <+: handedData (shown .right tr) := by
  have hleads : leadsTo transfersAndEnds (fun _ tr =>
      (shown .right tr).any isEOF && (shown .left tr).any isEOF &&
      !((shown .right tr).takeWhile fun x => !x.readsEnd).any Obs.setsClose &&
      (shown .right tr).all (fun x => !x.receiveFails) &&
      (tcpTrace (shown .left tr)).all (fun x => !x.reportsFailure) &&
      acceptedBefore (tcpTrace (shown .left tr)) == [104, 105]) = true := by decide +kernel
  obtain ⟨tr, s, hrun, htest⟩ := run_of_leadsTo hleads
  simp only [Bool.and_eq_true, beq_iff_eq, Bool.not_eq_true'] at htest
  obtain ⟨⟨⟨⟨⟨hright, hleft⟩, hclose⟩, hfails⟩, hno⟩, haccepted⟩ := htest
  have halone : ConnectionRun clientAndServer (fun _ => Endpoint.Alone) tr s :=
    hrun.mono fun l s hl => alone_of_attends hl
  have hmain := delivered_at_end clientAndServer .left halone (mem_of_isEOF hright)
    (fun hmem => List.any_eq_false.mp hclose _ hmem rfl)
    (fun x hx => by simpa using List.all_eq_true.mp hfails x hx)
  have hall := hmain.2.2 (mem_of_isEOF hleft) fun x hx => by
    simpa using List.all_eq_true.mp hno x hx
  exact ⟨tr, s, halone, haccepted, hmain.1, haccepted ▸ hall⟩

end Connection

end Libael
