import Libael.EventLoop.Timers
import Libael.StreamBuffer.Hosted
import Libael.StreamListener.Backlog
import Libael.Tcp.Filter

/-!
# Libael.Interest

What the kernel is asked to report, against what the handlers ask to hear of. The mask is made
from `GetEvents` in `AddFinalize` and in `Modify`. For listeners and timers **the mask is what
they ask for**. For a stream buffer it always contains `EPOLLIN`: `Events::Stream` is `0x16` and
overlaps `Events::Close`, and the translation looks at `Close` first.
-/

namespace Libael

open Lts EventLoop

/-- The interest has the bits that `GetEvents` asks for; `EPOLLRDHUP` is for streams. -/
structure Follows (interest : EPollEvents) (events : Events) (stream : Bool) : Prop where
  read : Events.has interest EPollEvents.EPOLLIN = events.has Events.Read
  write : Events.has interest EPollEvents.EPOLLOUT = events.has Events.Write
  rdhup : Events.has interest EPollEvents.EPOLLRDHUP = stream

/-- The interest that has last been installed for the descriptor of `e`. -/
def lastInterest (e : EventId) (tr : List LoopObs) : Option EPollEvents :=
  (tr.filterMap (Hosted.installed e)).getLast?

/-! ### Timers -/

section

variable {cfg : Config} {l : LoopLabel} {s s' : EventLoop} {tr o : List LoopObs} {e : EventId}

/-- The two sites that install an interest: `AddFinalize` and `ModifyEvent`. -/
theorem interest_of_move (hmove : Move cfg s l s' o) {x : LoopObs} {interest : EPollEvents}
    (hx : x ∈ o) (hi : Hosted.installed e x = some interest) : ∃ asked,
      interest = EPollEvents.EPOLLET ||| getEPollEventsFromEvents (s.getEvents cfg e asked) := by
  cases hmove with
  | call _ hreq _ _ =>
      cases requested hreq with
      | @modify e' asked _ _ _ _ _ =>
          rw [List.mem_singleton.mp hx] at hi
          by_cases he : e' = e
          · subst he
            simp only [Hosted.installed, if_true, Option.some.injEq] at hi
            exact ⟨asked, by rw [← hi, UInt32.or_comm]⟩
          · simp [Hosted.installed, he] at hi
      | modifyThrows _ _ _ | modifyFails _ _ _ =>
          simp only [List.mem_cons, List.not_mem_nil, or_false] at hx
          obtain rfl | rfl := hx <;> simp [Hosted.installed] at hi
      | modifyOutside _ _ _ =>
          rw [List.mem_singleton.mp hx] at hi
          simp [Hosted.installed] at hi
      | destroyed _ _ _ =>
          split at hx
          · rw [List.mem_singleton.mp hx] at hi
            simp [Hosted.installed] at hi
          · exact absurd hx List.not_mem_nil
      | _ => exact absurd hx List.not_mem_nil
  | light _ _ hlight hrun _ _ _ _ =>
      cases lightRun hlight hrun <;>
        simp only [List.mem_cons, List.not_mem_nil, or_false] at hx <;>
        first
        | exact absurd hx id
        | obtain rfl | rfl := hx <;> simp [Hosted.installed] at hi
  | finalized _ _ hrun hthrew =>
      cases finalizes hrun hthrew with
      | @add e' asked _ _ =>
          simp only [List.mem_cons, List.not_mem_nil, or_false] at hx
          obtain rfl | rfl := hx
          · simp [Hosted.installed] at hi
          · by_cases he : e' = e
            · subst he
              simp only [Hosted.installed, if_true, Option.some.injEq] at hi
              exact ⟨asked, hi.symm⟩
            · simp [Hosted.installed, he] at hi
      | _ =>
          simp only [List.mem_cons, List.not_mem_nil, or_false] at hx
          obtain rfl | rfl := hx <;> simp [Hosted.installed] at hi
  | destroyed _ _ hepoll =>
      rcases hepoll with ⟨-, -, rfl⟩ | ⟨-, -, rfl⟩
      · exact absurd hx List.not_mem_nil
      · rw [List.mem_singleton.mp hx] at hi
        simp [Hosted.installed] at hi
  | attachRefused _ _ | created _ _ _ | pushed _ _ | erased _ _ =>
      rw [List.mem_singleton.mp hx] at hi
      simp [Hosted.installed] at hi
  | _ => exact absurd hx List.not_mem_nil

/-- A timer that exists asks to read, at any time. -/
theorem getEvents_timer (htimer : cfg.timer e = true) (halive : (s.handlers e).alive = true)
    (asked : Events) : s.getEvents cfg e asked = Events.Read := by
  unfold EventLoop.getEvents
  rw [if_pos halive]
  unfold Config.timer at htimer
  split at htimer
  · rename_i hclass
    rw [hclass]
  · exact absurd htimer (by simp)

/-- Whatever has been installed for a timer that exists is `EPOLLIN`. -/
theorem timer_installed (htimer : cfg.timer e = true) (h : Run (loopSystem cfg) init tr s)
    (hc : s.crashed = none) : (s.handlers e).alive = true →
      (∀ interest ∈ tr.filterMap (Hosted.installed e),
        interest = EPollEvents.EPOLLET ||| EPollEvents.EPOLLIN) ∧
      (s.epoll.events (cfg.handle e) = some e → tr.filterMap (Hosted.installed e) ≠ []) := by
  refine invariant_of_run (I := fun tr s => (s.handlers e).alive = true →
    (∀ interest ∈ tr.filterMap (Hosted.installed e),
      interest = EPollEvents.EPOLLET ||| EPollEvents.EPOLLIN) ∧
    (s.epoll.events (cfg.handle e) = some e → tr.filterMap (Hosted.installed e) ≠ [])) ?_ ?_ h hc
  · intro _
    exact ⟨by simp, fun hreg => absurd hreg (by simp [init, EPoll.new])⟩
  · intro tr s l s' o _ _ ih _ hmove halive
    have halive' := alive_of_move hmove halive
    obtain ⟨hall, hsome⟩ := ih halive'
    refine ⟨fun interest hin => ?_, fun hreg => ?_⟩
    · rw [List.filterMap_append, List.mem_append] at hin
      rcases hin with hin | hin
      · exact hall interest hin
      · obtain ⟨x, hx, hi⟩ := List.mem_filterMap.mp hin
        obtain ⟨asked, rfl⟩ := interest_of_move hmove hx hi
        rw [getEvents_timer htimer halive']
        decide
    · rw [List.filterMap_append]
      rcases Hosted.registered_before hmove hreg with hbefore | ⟨asked, hregisters⟩
      · exact fun hnil => hsome hbefore (List.append_eq_nil_iff.mp hnil).1
      · intro hnil
        obtain ⟨x, hx, hi⟩ := List.exists_of_findSome?_eq_some hregisters.obs
        have hmem := List.mem_filterMap.mpr ⟨x, hx, hi⟩
        rw [(List.append_eq_nil_iff.mp hnil).2] at hmem
        exact absurd hmem List.not_mem_nil

/-- A timer asks for `Read`, and is reported for nothing else. -/
theorem timer_follows (htimer : cfg.timer e = true) (h : Run (loopSystem cfg) init tr s)
    (hc : s.crashed = none) (hreg : s.epoll.events (cfg.handle e) = some e)
    (halive : (s.handlers e).alive = true) : ∃ interest, lastInterest e tr = some interest ∧
      Follows interest (s.getEvents cfg e 0) false := by
  obtain ⟨hall, hsome⟩ := timer_installed htimer h hc halive
  have hlast := List.getLast?_eq_some_getLast (hsome hreg)
  refine ⟨_, hlast, ?_⟩
  rw [hall _ (List.getLast_mem (hsome hreg)), getEvents_timer htimer halive]
  exact ⟨by decide, by decide, by decide⟩

end

/-! ### Listeners and stream buffers -/

section

variable {cfg : Config} {e : EventId} {fd : Fd}

/-- So does a listener. -/
theorem listener_follows {limit : Int} {tr : List (LoopObs ⊕ ListenerObs)}
    {s : Hosted StreamListener} (hclass : cfg.handler e = .user fd)
    (h : Run (hostedSystem cfg (listenerCode limit) e) (Hosted.init .init) tr s)
    (hc : s.loop.crashed = none) (hreg : s.loop.epoll.events (cfg.handle e) = some e)
    (halive : (s.loop.handlers e).alive = true) :
    Follows s.interest ((listenerCode limit).getEvents s.handler) false := by
  have hmask : ∀ s : StreamListener, getEPollEventsFromEvents ((listenerCode limit).getEvents s) =
      EPollEvents.EPOLLIN := fun _ => show getEPollEventsFromEvents Events.Read = _ by decide
  rw [Hosted.interest_of_registered hclass hmask h hc hreg halive]
  show Follows _ Events.Read false
  exact ⟨by decide, by decide, by decide⟩

variable {κ ρ : Type} {env : FilterEnv κ ρ} {news : ρ → Bool} {reports : κ → EPollEvents}
  {mode : StreamBufferMode} {addr : Nat} {k : κ} {tr : List (LoopObs ⊕ Obs ρ)}
  {s : Hosted (BufferState κ)}

/-- The interest of a stream buffer is the same at all times. -/
theorem buffer_interest (hclass : cfg.handler e = .user fd)
    (h : Run (hostedSystem cfg (bufferCode env news reports) e)
      (Hosted.init (.init mode addr k)) tr s)
    (hc : s.loop.crashed = none) (hreg : s.loop.epoll.events (cfg.handle e) = some e)
    (halive : (s.loop.handlers e).alive = true) : s.interest = EPollEvents.EPOLLET |||
      (EPollEvents.EPOLLIN ||| EPollEvents.EPOLLOUT ||| EPollEvents.EPOLLRDHUP) :=
  Hosted.interest_of_registered hclass (fun s => s.buffer.mask_getEvents) h hc hreg halive

/-- A stream buffer is reported for more than it asks for until its last filter is connected,
unless that filter is stacked on another. -/
theorem buffer_follows_iff (hclass : cfg.handler e = .user fd)
    (h : Run (hostedSystem cfg (bufferCode env news reports) e)
      (Hosted.init (.init mode addr k)) tr s)
    (hc : s.loop.crashed = none) (hreg : s.loop.epoll.events (cfg.handle e) = some e)
    (halive : (s.loop.handlers e).alive = true) :
    Follows s.interest s.handler.buffer.getEvents true ↔
      s.handler.buffer.back.connected = true ∨ 0 < s.handler.buffer.back.order := by
  rw [buffer_interest hclass h hc hreg halive]
  have hread := s.handler.buffer.getEvents_read
  have hwrite : s.handler.buffer.getEvents.has Events.Write = true := by
    unfold StreamBuffer.getEvents Filter.getEvents
    split <;> decide
  refine ⟨fun hfollows => ?_, fun hasks => ⟨?_, ?_, by decide⟩⟩
  · have hin := hfollows.read
    rw [hread] at hin
    have hbit : (true = (s.handler.buffer.back.connected ||
        decide (0 < s.handler.buffer.back.order))) := hin
    simpa using hbit.symm
  · rw [hread]
    show true = _
    simpa using hasks
  · rw [hwrite]
    decide

end

/-- **The kernel interest follows the handler**: at all times for a listener or a timer, and for
a stream buffer exactly while `GetEvents` asks to read, once its last filter is connected or is
stacked on another one. -/
theorem interest_follows_iff (cfg : Config) (e : EventId) (fd : Fd) :
    (∀ (κ ρ : Type) (env : FilterEnv κ ρ) (news : ρ → Bool) (reports : κ → EPollEvents)
        (mode : StreamBufferMode) (addr : Nat) (k : κ) (tr : List (LoopObs ⊕ Obs ρ))
        (s : Hosted (BufferState κ)), cfg.handler e = .user fd →
      Run (hostedSystem cfg (bufferCode env news reports) e)
        (Hosted.init (.init mode addr k)) tr s →
      s.loop.crashed = none → s.loop.epoll.events (cfg.handle e) = some e →
      (s.loop.handlers e).alive = true →
      (Follows s.interest s.handler.buffer.getEvents true ↔
        s.handler.buffer.back.connected = true ∨ 0 < s.handler.buffer.back.order) ∧
      (s.handler.buffer.streamFilters.length ≤ 2 ^ 32 →
        (s.handler.buffer.getEvents.has Events.Read = true ↔
          (s.handler.buffer.filter 0).connected = true ∨
            1 < s.handler.buffer.streamFilters.length))) ∧
    (∀ (limit : Int) (tr : List (LoopObs ⊕ ListenerObs)) (s : Hosted StreamListener),
      cfg.handler e = .user fd →
      Run (hostedSystem cfg (listenerCode limit) e) (Hosted.init .init) tr s →
      s.loop.crashed = none → s.loop.epoll.events (cfg.handle e) = some e →
      (s.loop.handlers e).alive = true →
      Follows s.interest ((listenerCode limit).getEvents s.handler) false) ∧
    ∀ (tr : List LoopObs) (s : EventLoop), cfg.timer e = true → Run (loopSystem cfg) init tr s →
      s.crashed = none → s.epoll.events (cfg.handle e) = some e → (s.handlers e).alive = true →
      ∃ interest, lastInterest e tr = some interest ∧
        Follows interest (s.getEvents cfg e 0) false := by
  refine ⟨fun κ ρ env news reports mode addr k tr s hclass h hc hreg halive => ⟨?_,
    fun hlength => ?_⟩,
    fun limit tr s hclass h hc hreg halive => listener_follows hclass h hc hreg halive,
    fun tr s htimer h hc hreg halive => timer_follows htimer h hc hreg halive⟩
  · exact buffer_follows_iff hclass h hc hreg halive
  · have hrun : Run (bufferSystem env) (.init mode addr k) (handlerTrace tr) s.handler :=
      BufferState.bufferRun (fun _ _ _ _ _ => trivial) h
    exact (BufferState.chainInv_of_run hrun).chain.getEvents_read
      (BufferState.openInv_of_run hrun).nonempty hlength

/-! ### A connection in progress -/

/-- The code of a TCP stream buffer of a client, whose socket becomes writable with the end of
the handshake. -/
def clientCode : HandlerCode (BufferState Socket) (BufferLabel SysRet) (Obs SysRet) :=
  bufferCode (tcpEnv false) (fun _ => true)
    (fun socket => if socket.established then EPollEvents.EPOLLOUT else 0)

/-- The socket of a client whose handshake goes on. -/
def connectingClient : BufferState Socket :=
  .init .client 0 { connecting := true, established := false, soError := none }

/-- The handshake ends, and `HandleEvents` connects the filter. -/
def connects : List (HostedLabel (BufferLabel SysRet)) :=
  [.handler (.tick .handshake) none, .loop (.loop .none),
    .loop (.loop (.wait fun _ _ => some EPollEvents.EPOLLOUT)), .loop (.loop .none),
    .enter (.handleEvents true), .handler (.answer (.getsockopt (.ok none))) none,
    .handler .ret none, .handler .run none, .handler .run none, .handler .run none,
    .handler .run none,
    .loop (.loop .none), .loop (.loop (.release false)), .loop (.loop .none)]

/-- A stream buffer whose connection is pending is registered for `EPOLLIN`. -/
theorem pending_registered_for_read : ∃ tr s,
    Run (hostedSystem oneBuffer clientCode 0) (Hosted.init connectingClient) tr s ∧
      s.loop.crashed = none ∧ s.loop.epoll.events 3 = some 0 ∧ (s.loop.handlers 0).alive = true ∧
      s.handler.stack = [] ∧ (s.handler.buffer.filter 0).connected = false ∧
      Events.has s.interest EPollEvents.EPOLLIN = true ∧
      s.handler.buffer.getEvents.has Events.Read = false := by
  have hruns : Hosted.runsTo oneBuffer clientCode 0 connectingClient (fun _ s =>
      s.loop.crashed.isNone && s.loop.epoll.events 3 == some 0 && (s.loop.handlers 0).alive &&
      s.handler.stack.isEmpty && !(s.handler.buffer.filter 0).connected &&
      Events.has s.interest EPollEvents.EPOLLIN && !s.handler.buffer.getEvents.has Events.Read)
      (registersHandler (Events.Write ||| Events.Stream)) = true := by decide +kernel
  obtain ⟨tr, s, h, hcheck⟩ := Hosted.run_of_runsTo hruns
  simp only [Bool.and_eq_true, beq_iff_eq, Option.isNone_iff_eq_none, Bool.not_eq_true',
    List.isEmpty_iff] at hcheck
  obtain ⟨⟨⟨⟨⟨⟨hc, hreg⟩, halive⟩, hstack⟩, hconn⟩, hin⟩, hread⟩ := hcheck
  exact ⟨tr, s, h, hc, hreg, halive, hstack, hconn, hin, hread⟩

/-- The interest of a stream buffer that has connected is what it asks for. -/
theorem interest_follows_connected : ∃ tr s,
    Run (hostedSystem oneBuffer clientCode 0) (Hosted.init connectingClient) tr s ∧
      s.handler.stack = [] ∧ Follows s.interest s.handler.buffer.getEvents true := by
  have hruns : Hosted.runsTo oneBuffer clientCode 0 connectingClient (fun _ s =>
      s.loop.crashed.isNone && s.loop.epoll.events 3 == some 0 && (s.loop.handlers 0).alive &&
      s.handler.stack.isEmpty && s.handler.buffer.back.connected)
      (registersHandler (Events.Write ||| Events.Stream) ++ connects) = true := by decide +kernel
  obtain ⟨tr, s, h, hcheck⟩ := Hosted.run_of_runsTo hruns
  simp only [Bool.and_eq_true, beq_iff_eq, Option.isNone_iff_eq_none, List.isEmpty_iff] at hcheck
  obtain ⟨⟨⟨⟨hc, hreg⟩, halive⟩, hstack⟩, hconn⟩ := hcheck
  have hiff := (interest_follows_iff oneBuffer 0 3).1 _ _ _ _ _ _ _ _ tr s rfl h hc hreg halive
  exact ⟨tr, s, h, hstack, hiff.1.mpr (.inl hconn)⟩

end Libael
