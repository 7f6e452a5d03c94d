import Libael.EventLoop.Armed
import Libael.StreamBuffer.Hosted
import Libael.Tcp.Filter

/-!
# Libael.StreamBuffer.Handoff

**`Write` hands off to the loop, and what it has queued is never stranded.** `Write` calls
`ReadyEvent` only for the first view of a list, and that signal may go to a call of
`HandleEvents` that connects the filter and does not write. What makes up for it is the
`EPOLL_CTL_MOD` at the end of such a call, which arms the descriptor for `EPOLLOUT` again.
-/

namespace Libael

open Lts Hosted

/-- The frames with which a call of `HandleEvents` has not got past the swap of `DoWrite`: the
`doWrite` frame itself, and those of the calls that never get to a swap. A call that connects the
filter runs `doConnect` and then `modifyEvent`, whose `EPOLL_CTL_MOD` hands off what it has not
written; one that finds its handler gone runs `closeEvent`. -/
def Frame.toSwap : Frame → Bool
  | .doWrite | .doConnect | .modifyEvent | .closeEvent => true
  | _ => false

namespace BufferState

variable {κ ρ : Type} {env : FilterEnv κ ρ} {news : ρ → Bool} {reports : κ → EPollEvents}
  {s s' : BufferState κ} {l : BufferLabel ρ} {o : List (Obs ρ)}

/-- The loop thread is inside `HandleEvents`, before the swap of `DoWrite`; a call without a swap
counts until it has run its `doConnect` and `modifyEvent`, or its `closeEvent`. -/
def BeforeSwap (s : BufferState κ) : Prop := ∃ fr ∈ s.stack, fr.toSwap = true

/-- A call of `Write` has pushed its view, and has not called `ReadyEvent` yet. -/
def Signalling (s : BufferState κ) : Prop := ∃ a, s.calls a = .notifying .write

/-- There is something to write, and a filter to write it to. -/
structure Owes (s : BufferState κ) : Prop where
  pendingWrites : s.buffer.pendingWrites ≠ []
  connected : s.buffer.back.connected = true
  writeClosed : s.buffer.back.writeClosed = false
  shouldClose : s.buffer.shouldClose = false

/-! ### A stream buffer on its own -/

/-- A call that begins on an open buffer has its `DoWrite` before it, or connects. -/
theorem beforeSwap_of_enter {alive : Bool} {n : Next ρ StreamBuffer}
    (hn : n = s.buffer.handleEvents alive) (hclose : s.buffer.shouldClose = false) :
    BeforeSwap (s.resume [] n) := by
  obtain ⟨-, -, hthrew, hcases⟩ := StreamBuffer.handleEvents_cases hn
  rw [BeforeSwap, resume_of_threw_none hthrew]
  rcases hcases with ⟨-, hframes⟩ | ⟨-, hno, -⟩ | ⟨-, -, -, hframes⟩ | ⟨-, -, -, hframes⟩
  · exact ⟨.closeEvent, by simp [hframes], rfl⟩
  · exact absurd hno (by simp [hclose])
  · exact ⟨.doConnect, by simp [hframes], rfl⟩
  · exact ⟨.doWrite, by simp [hframes], rfl⟩

/-- A call stays before the swap, unless it has run the frame that was on top. -/
theorem beforeSwap_of_resume {fr : Frame} {rest : List Frame} {n : Next ρ StreamBuffer}
    (hstack : s.stack = fr :: rest) (hfr : fr.toSwap = false) (hthrew : n.threw = none)
    (h : BeforeSwap s) : BeforeSwap (s.resume rest n) := by
  obtain ⟨fr', hmem, hswap⟩ := h
  rw [BeforeSwap, resume_of_threw_none hthrew]
  rw [hstack] at hmem
  rcases List.mem_cons.mp hmem with rfl | hmem
  · exact absurd hswap (by simp [hfr])
  · exact ⟨fr', List.mem_append_right _ hmem, hswap⟩

/-- An answer of a filter leaves `pending_writes_` alone. -/
theorem pendingWrites_of_answer {b : StreamBuffer} {fr : Frame} {r : ρ} {k k' : κ}
    {n : Next ρ StreamBuffer} (h : b.answerFrame env r k fr = some (n, k')) :
    n.buffer.pendingWrites = b.pendingWrites := by
  cases hfr : fr.sends with
  | false => exact (StreamBuffer.answerFrame_dataKept h hfr).pendingWrites
  | true =>
      obtain ⟨i, again, after, -, hcall⟩ := StreamBuffer.callOut_of_sends h hfr
      obtain ⟨d, ds, res, -, -, -, ⟨e, -, -, -, hb⟩ | ⟨res', f', drain, -, -, -, hb, -⟩⟩ :=
        StreamBuffer.callOut_cases hcall <;>
        rw [hb] <;> rfl

/-- What is owed after a step that neither pushes a view nor adds or connects a filter has been
owed before. -/
theorem Owes.before (hw : Owes s') (hgrow : FlagsGrow s.buffer s'.buffer)
    (hlength : s'.buffer.streamFilters.length = s.buffer.streamFilters.length)
    (hconnected : s'.buffer.back.connected = s.buffer.back.connected)
    (hpending : s'.buffer.pendingWrites = s.buffer.pendingWrites) : Owes s where
  pendingWrites := hpending ▸ hw.pendingWrites
  connected := hconnected ▸ hw.connected
  writeClosed := by
    by_contra hyes
    have hback : s'.buffer.backIndex = s.buffer.backIndex := by
      simp only [StreamBuffer.backIndex, hlength]
    have hshut := hgrow.writeClosed s.buffer.backIndex (by simpa [StreamBuffer.back] using hyes)
    rw [← hback] at hshut
    exact absurd hshut (by simpa [StreamBuffer.back] using hw.writeClosed)
  shouldClose := by
    by_contra hyes
    have hshut := hgrow.shouldClose (by simpa using hyes)
    exact absurd hshut (by simp [hw.shouldClose])

theorem Owes.of_same (hw : Owes s') (hbuffer : s'.buffer = s.buffer) : Owes s :=
  hw.before (hbuffer ▸ .refl _) (by rw [hbuffer]) (by rw [hbuffer]) (by rw [hbuffer])

/-- Somebody is at what is owed. -/
def InHand (s : BufferState κ) : Prop := BeforeSwap s ∨ Signalling s

/-- A step of the loop thread through a frame that is not on the way to the swap. -/
theorem inHand_of_resume {fr : Frame} {rest : List Frame} {n : Next ρ StreamBuffer}
    (hstack : s.stack = fr :: rest) (hfr : fr.toSwap = false) (hthrew : n.threw = none)
    (h : InHand s) : InHand (s.resume rest n) := by
  rcases h with h | ⟨a, ha⟩
  · exact .inl (beforeSwap_of_resume hstack hfr hthrew h)
  · exact .inr ⟨a, by rw [resume_calls]; exact ha⟩

/-- A thread that calls `ReadyEvent` is on its way to it until it does. -/
theorem signalling_of_setCall {a : Agent} {c : ApiCall} (h : Signalling s)
    (hc : s.calls a ≠ .notifying .write) : Signalling (s.setCall a c) := by
  obtain ⟨b, hb⟩ := h
  have hne : b ≠ a := fun heq => hc (heq ▸ hb)
  refine ⟨b, ?_⟩
  simpa [setCall, Function.update_of_ne hne] using hb

/-- A frame that asks no filter hands off what it leaves. -/
theorem handsOff_of_run {fr : Frame} {rest : List Frame} {n : Next ρ StreamBuffer}
    (hstack : s.stack = fr :: rest) (hrun : s.buffer.runFrame fr = some n)
    (hgrow : FlagsGrow s.buffer (s.resume rest n).buffer) (hw : Owes (s.resume rest n))
    (hclosing : .closeEvent ∉ n.obs) :
    HandsOff (bufferCode env news reports) (· = Events.Write) (Owes s ∧ ¬InHand s)
      (InHand (s.resume rest n)) .run n.obs := by
  have hthrew := StreamBuffer.runFrame_threw hrun
  by_cases hbusy : InHand (s.resume rest n)
  · exact .busy hbusy
  · cases hfr : fr.toSwap with
    | false =>
        have hne : fr ≠ .doWrite := by
          rintro rfl
          exact absurd hfr (by simp [Frame.toSwap])
        obtain ⟨hfilters, hpending, -⟩ := StreamBuffer.runFrame_filters hrun hne
        have howes : Owes s := by
          refine hw.before hgrow ?_ ?_ ?_ <;> rw [resume_buffer]
          · rw [hfilters]
          · simp only [StreamBuffer.back, StreamBuffer.backIndex, StreamBuffer.filter, hfilters]
          · exact hpending
        refine .waits (by simp [bufferCode, actor]) ⟨howes, fun hin => hbusy ?_⟩
        exact inHand_of_resume hstack hfr hthrew hin
    | true =>
        have hpending := hw.pendingWrites
        have hopen := hw.writeClosed
        rw [resume_buffer] at hpending hopen
        cases fr with
        | doWrite =>
            -- nothing is left to write behind the swap
            rcases StreamBuffer.doWrite_cases s.buffer n (Option.some.inj hrun).symm with
              ⟨hshut, rfl⟩ | ⟨-, -, -, -, hb⟩
            · exact absurd hshut (by simp [hopen])
            · exact absurd (by rw [hb]) hpending
        | modifyEvent =>
            obtain rfl := Option.some.inj hrun
            exact .rearms rfl rfl
        | closeEvent =>
            obtain rfl := Option.some.inj hrun
            exact absurd (List.mem_singleton_self _) hclosing
        | doConnect => exact absurd hrun (by simp [StreamBuffer.runFrame])
        | _ => exact absurd hfr (by simp [Frame.toSwap])

/-- So does a frame that is answered: `DoConnect` by the interest it installs, `Out` by waiting
for `EPOLLOUT`. -/
theorem handsOff_of_answer {fr : Frame} {rest : List Frame} {r : ρ} {k : κ}
    {n : Next ρ StreamBuffer} (hstack : s.stack = fr :: rest)
    (hans : s.buffer.answerFrame env r s.env fr = some (n, k))
    (hstage : StreamBuffer.Stage s.buffer s.stack)
    (hgrow : FlagsGrow s.buffer (s.resume rest n).buffer) (hthrew : n.threw = none)
    (hw : Owes (s.resume rest n)) :
    HandsOff (bufferCode env news reports) (· = Events.Write) (Owes s ∧ ¬InHand s)
      (InHand (s.resume rest n)) (.answer r) n.obs := by
  by_cases hbusy : InHand (s.resume rest n)
  · exact .busy hbusy
  · -- the filter at the back has been connected before
    have hsame : n.buffer.streamFilters.length = s.buffer.streamFilters.length ∧
        n.buffer.back.connected = s.buffer.back.connected := by
      rcases StreamBuffer.answerFrame_plain hans with
        hplain | ⟨i, x, d, rfl, -, -, rfl⟩ | ⟨rfl, rfl⟩
      · exact ⟨hplain.length, back_connected_eq hplain.length hplain.connected⟩
      · exact ⟨rfl, rfl⟩
      · refine absurd (.inl ⟨.modifyEvent, ?_, rfl⟩) hbusy
        rw [resume_of_threw_none rfl]
        simp
    have howes : Owes s := by
      refine hw.before hgrow ?_ ?_ ?_ <;> rw [resume_buffer]
      · exact hsame.1
      · exact hsame.2
      · exact pendingWrites_of_answer hans
    have hfr : fr.toSwap = false := by
      rw [hstack] at hstage
      cases fr with
      | doConnect =>
          cases hstage with
          | doConnect hno _ => exact absurd (hno.symm.trans howes.connected) (by simp)
      | doWrite | modifyEvent | closeEvent => exact absurd hans (by simp [StreamBuffer.answerFrame])
      | _ => rfl
    refine .waits (by simp [bufferCode, actor]) ⟨howes, fun hin => hbusy ?_⟩
    exact inHand_of_resume hstack hfr hthrew hin

/-- A step that touches neither the buffer nor those who are at it. -/
theorem handsOff_of_same (hactor : ∀ events, actor news l ≠ .entry events)
    (hbuffer : s'.buffer = s.buffer) (hin : InHand s → InHand s') (hw : Owes s') :
    HandsOff (bufferCode env news reports) (· = Events.Write) (Owes s ∧ ¬InHand s)
      (InHand s') l o := by
  by_cases hbusy : InHand s'
  · exact .busy hbusy
  · exact .waits hactor ⟨hw.of_same hbuffer, fun h => hbusy (hin h)⟩

/-- A step of a thread that is not about to call `ReadyEvent`. -/
theorem inHand_of_setCall {a : Agent} {c : ApiCall} (hc : s.calls a ≠ .notifying .write)
    (h : InHand s) : InHand (s.setCall a c) :=
  h.imp id fun hsignalling => signalling_of_setCall hsignalling hc

/-- What is left to write is handed off, whoever takes the step: `Write` by its `ReadyEvent`, the
call of `HandleEvents` by its own swap or by the interest it installs. -/
theorem handsOff_of_step (h : step env l s = some (s', o)) (hchain : ChainInv s)
    (hcr' : s'.crashed = none) (hw : Owes s') (hclosing : .closeEvent ∉ o) :
    HandsOff (bufferCode env news reports) (· = Events.Write) (Owes s ∧ ¬InHand s)
      (InHand s') l o := by
  have hgrow := flagsGrow_step h
  obtain ⟨hcr, hstep⟩ := step_inv h
  have hstage := hchain.stage hcr
  cases hstep with
  | @handleEvents alive n hnil _ hn =>
      have hclose := hw.shouldClose
      rw [resume_buffer, (StreamBuffer.handleEvents_cases hn).1] at hclose
      exact .busy (.inl (beforeSwap_of_enter hn hclose))
  | run hstack hrun => exact handsOff_of_run hstack hrun hgrow hw hclosing
  | @answer fr rest r n k hstack hans =>
      have hthrew : n.threw = none := by
        cases hthrew : n.threw with
        | none => rfl
        | some ex => exact absurd hcr' (by simp [resume_of_threw hthrew])
      exact handsOff_of_answer hstack hans hstage hgrow hthrew ⟨hw.1, hw.2, hw.3, hw.4⟩
  | @ret c rest hstack _ =>
      refine handsOff_of_same (by simp [actor]) rfl (fun hin => hin.imp_left ?_) hw
      rintro ⟨fr, hmem, hfr⟩
      rw [hstack] at hmem
      rcases List.mem_cons.mp hmem with rfl | hmem
      · exact absurd hfr (by simp [Frame.toSwap])
      · exact ⟨fr, hmem, hfr⟩
  | @write a d hmay =>
      have hidle : s.calls a ≠ .notifying .write := by
        simp only [mayCall, Bool.and_eq_true, beq_iff_eq] at hmay
        simp [hmay.1]
      refine handsOff_of_same (by simp [actor]) ?_ ?_ hw
      · unfold write
        split_ifs <;> first | rfl | (split <;> rfl)
      · intro hin
        unfold write
        split_ifs
        · exact hin
        · exact hin
        · split
          · exact hin
          · exact inHand_of_setCall hidle hin
  | @push a d saved hcall =>
      cases hempty : s.buffer.pendingWrites.isEmpty with
      | true =>
          -- the first view of a list signals
          refine .busy (.inr ⟨a, ?_⟩)
          simp [push, setCall, hempty]
      | false =>
          have howes : Owes s :=
            ⟨by simpa using hempty, hw.connected, hw.writeClosed, hw.shouldClose⟩
          by_cases hbusy : InHand (s.push (ρ := ρ) a d saved).1
          · exact .busy hbusy
          · refine .waits (by simp [bufferCode, actor]) ⟨howes, fun hin => hbusy ?_⟩
            exact inHand_of_setCall (s := { s with buffer := _ }) (by simp [hcall]) hin
  | @notify a kind hcall =>
      cases kind with
      | write =>
          exact .signals Events.Write (by simp [bufferCode, actor]) (by simp [bufferCode, actor])
            rfl rfl
      | close =>
          exact handsOff_of_same (by simp [actor]) rfl (inHand_of_setCall (by simp [hcall])) hw
  | @close a hmay => exact absurd hw.shouldClose (by simp [close, setCall])
  | filterRefused _ _ => exact handsOff_of_same (by simp [actor]) rfl id hw
  | filterAdded _ _ hadd =>
      -- the filter that has been added has not connected yet
      have hback := StreamBuffer.back_addStreamBufferFilter hadd
      exact absurd (hback.symm.trans hw.connected) (by simp [Filter.new])
  | tick _ => exact handsOff_of_same (by simp [actor]) rfl id hw

/-! ### A stream buffer and its loop -/

section

open EventLoop

variable {cfg : Config} {e : EventId} {fd : Fd} {mode : StreamBufferMode} {addr : Nat} {k : κ}
  {tr : List (LoopObs ⊕ Obs ρ)} {h : Hosted (BufferState κ)}

/-- The stream buffer is closing: `should_close_` is set, or it has closed its event. -/
def Closing (tr : List (Obs ρ)) (s : BufferState κ) : Prop :=
  s.buffer.shouldClose = true ∨ .closeEvent ∈ tr

/-- **What `Write` has queued is never stranded.** In any interleaving of calls of `Write` with
the calls of `HandleEvents`: while `pending_writes_` of a stream buffer that is registered,
connected, neither closed for writing nor closing is not empty, a ready element of its event is
in the ready queue or being dispatched, or a call of `Write` is between its push and the queueing
of its ready element, or the loop thread is inside `HandleEvents` before the swap of `DoWrite`, or
`EPOLLOUT` of the last `EPOLL_CTL_ADD` or `EPOLL_CTL_MOD` has not been used up. -/
theorem pendingWrites_handed_off (cfg : Config) (env : FilterEnv κ ρ) (news : ρ → Bool)
    (reports : κ → EPollEvents) (mode : StreamBufferMode) (addr : Nat) (k : κ) {e : EventId}
    {fd : Fd} (hclass : cfg.handler e = .user fd) {tr : List (LoopObs ⊕ Obs ρ)}
    {h : Hosted (BufferState κ)}
    (hrun : Run (hostedSystem cfg (bufferCode env news reports) e)
      (Hosted.init (.init mode addr k)) tr h)
    (hcr : h.handler.crashed = none) (hc : h.loop.crashed = none)
    (hreg : h.loop.epoll.events (cfg.handle e) = some e) (halive : (h.loop.handlers e).alive = true)
    (hconnected : h.handler.buffer.isConnected = true)
    (hwriteClosed : h.handler.buffer.back.writeClosed = false)
    (hclosing : ¬Closing (handlerTrace tr) h.handler)
    (hpending : h.handler.buffer.pendingWrites ≠ []) :
    Signalled (· = Events.Write) (fun _ => True) e h.loop ∨ Signalling h.handler ∨
      BeforeSwap h.handler ∨ armed e EPollEvents.EPOLLOUT (loopTrace tr) = true := by
  obtain ⟨hclose, hevent⟩ := not_or.mp hclosing
  have howes : Owes h.handler := ⟨hpending, hconnected, hwriteClosed, by simpa using hclose⟩
  have hhanded : InHand h.handler ∨ Signalled (· = Events.Write) (fun _ => True) e h.loop ∨
      armed e EPollEvents.EPOLLOUT (loopTrace tr) = true := by
    refine handed_off (fun tr s => Owes s ∧ .closeEvent ∉ tr) InHand hclass
      (fun s => s.buffer.mask_getEvents) (by decide) (fun _ _ => trivial) ?_ hrun
      (by simpa [bufferCode] using hcr) hc hreg halive ⟨howes, hevent⟩
    intro tr s l l' handler' o hrun _ _ hs hcrashed hwanted
    obtain ⟨hbefore, hnot⟩ := not_or.mp fun hmem => hwanted.2 (List.mem_append.mpr hmem)
    have hbuffer : Run (bufferSystem env) (.init mode addr k) (handlerTrace tr) s.handler :=
      bufferRun (fun _ _ _ _ _ => trivial) hrun
    have hhands : HandsOff (bufferCode env news reports) (· = Events.Write)
        (Owes s.handler ∧ ¬InHand s.handler) (InHand handler') l' o :=
      handsOff_of_step hs (chainInv_of_run hbuffer) (by simpa [bufferCode] using hcrashed)
        hwanted.1 hnot
    cases hhands with
    | busy hbusy => exact .busy hbusy
    | waits hentry hold => exact .waits hentry ⟨⟨hold.1, hbefore⟩, hold.2⟩
    | rearms hbody hasks => exact .rearms hbody hasks
    | signals events hentry hnews hq hasks => exact .signals events hentry hnews hq hasks
  rcases hhanded with (hswap | hsignalling) | hsignalled | harmed
  · exact .inr (.inr (.inl hswap))
  · exact .inr (.inl hsignalling)
  · exact .inl hsignalled
  · exact .inr (.inr (.inr harmed))

/-- The code of a TCP stream buffer of a client. -/
def tcpCode : HandlerCode (BufferState Socket) (BufferLabel SysRet) (Obs SysRet) :=
  bufferCode (tcpEnv false) (fun _ => false) fun _ => 0

/-- A stream buffer that has not connected yet. -/
def unconnected : BufferState Socket :=
  .init .client 0 { connecting := false, established := true, soError := none }

/-- The user writes at once; the call of `HandleEvents` that this brings about connects the
filter. -/
def writesEarly : List (HostedLabel (BufferLabel SysRet)) :=
  [.handler (.write (.user 1) (.ofString [104, 105])) none, .handler (.push (.user 1)) none,
    .handler (.notify (.user 1)) none, .loop (.proceed (.user 1)), .loop (.proceed (.user 1)),
    .loop (.loop .none), .loop (.loop (.wait fun _ _ => none))] ++
  List.replicate 11 (.loop (.loop .none)) ++
  [.enter (.handleEvents true), .handler (.answer (.getsockopt (.ok none))) none,
    .handler .ret none] ++ List.replicate 4 (.handler .run none)

/-- The ready element is gone, and the descriptor armed. -/
theorem pendingWrites_handed_off_writesEarly : ∃ tr h,
    Run (hostedSystem oneBuffer tcpCode 0) (Hosted.init unconnected) tr h ∧ h.handler.stack = [] ∧
      h.handler.buffer.pendingWrites ≠ [] ∧
      (Signalled (· = Events.Write) (fun _ => True) 0 h.loop ∨ Signalling h.handler ∨
        BeforeSwap h.handler ∨ armed 0 EPollEvents.EPOLLOUT (loopTrace tr) = true) := by
  have hruns : Hosted.runsTo oneBuffer tcpCode 0 unconnected (fun tr h =>
      h.handler.crashed.isNone && h.loop.crashed.isNone && h.loop.epoll.events 3 == some 0 &&
      (h.loop.handlers 0).alive && h.handler.stack.isEmpty && h.handler.buffer.isConnected &&
      !h.handler.buffer.back.writeClosed && !h.handler.buffer.shouldClose &&
      !(handlerTrace tr).any (fun x => (asks x).any (· == .closeEvent)) &&
      !h.handler.buffer.pendingWrites.isEmpty)
      (registersHandler (Events.Write ||| Events.Stream) ++ writesEarly) = true := by decide +kernel
  obtain ⟨tr, h, hrun, hcheck⟩ := Hosted.run_of_runsTo hruns
  simp only [Bool.and_eq_true, beq_iff_eq, Option.isNone_iff_eq_none, List.isEmpty_iff,
    Bool.not_eq_true', List.isEmpty_eq_false_iff] at hcheck
  obtain ⟨⟨⟨⟨⟨⟨⟨⟨⟨hcr, hc⟩, hreg⟩, halive⟩, hstack⟩, hconnected⟩, hopen⟩, hclose⟩, hevent⟩,
    hpending⟩ := hcheck
  have hclosing : ¬Closing (handlerTrace tr) h.handler := by
    rintro (hyes | hmem)
    · exact absurd hyes (by simp [hclose])
    · have hno := List.any_eq_false.mp hevent _ hmem
      exact absurd hno (by simp [asks])
  exact ⟨tr, h, hrun, hstack, hpending, pendingWrites_handed_off oneBuffer (tcpEnv false)
    (fun _ => false) (fun _ => 0) .client 0 _ rfl hrun hcr hc hreg halive hconnected hopen hclosing
    hpending⟩

end

end BufferState

end Libael
