import Mathlib.Data.List.TakeWhile
import Libael.EventLoop.Ownership
import Libael.Lts.Link
import Libael.StreamBuffer.Refines
import Libael.Tcp.Flush
import Libael.Tcp.Receiving

/-!
# Libael.Tcp.Endpoint

**One end of a connection**: a stream buffer over a TCP socket, on the event loop
it is attached to, seen from the wire. What `send` has taken goes out; what the
kernel has taken in and what of it `recv` has returned are accounted for; and
after the descriptor is closed `HandleEvents` never runs again, so that nothing
goes out any more (`accounts`).

`end_of_stream` says why a stream buffer tells its user that the stream is over:
the user has closed it, something has failed, or `recv` has seen the end.
-/

namespace Libael

open Lts TCPStreamBufferFilter

/-- `connect` or `recv` has failed. -/
def Obs.receiveFails : Obs (SysRet ⊕ Arrival) → Bool
  | .in _ (.inl (.recv (.error e))) _ => e != .EAGAIN
  | .connect _ (.ok .failed) => true
  | _ => false

/-- `recv` has seen the end of the stream. -/
def Obs.readsEnd : Obs (SysRet ⊕ Arrival) → Bool
  | .in _ (.inl (.recv (.ok []))) _ => true
  | _ => false

/-! ### The reading direction -/

namespace StreamBuffer

variable {κ ρ : Type} {b : StreamBuffer} {i : Nat} {f : Filter}

theorem readClosed_setFilter (h : f.readClosed = (b.filter i).readClosed) (j : Nat) :
    ((b.setFilter i f).filter j).readClosed = (b.filter j).readClosed := by
  rw [filter_setFilter]
  split_ifs with hi
  · rw [h, hi.1]
  · rfl

/-- `Out` does not touch it. -/
theorem readClosed_of_callOut {env : FilterEnv κ ρ} {r : ρ} {k k' : κ} {again after : List Frame}
    {n : Next ρ StreamBuffer} (h : b.callOut env i r k again after = some (n, k')) (j : Nat) :
    (n.buffer.filter j).readClosed = (b.filter j).readClosed := by
  obtain ⟨d, rest, res, -, -, -, ⟨e, -, -, -, hb⟩ | ⟨res', f, drain, -, hafter, -, hb, -⟩⟩ :=
    callOut_cases h
  · rw [hb]
    exact readClosed_setFilter (by rfl) j
  · rw [hb]
    refine readClosed_setFilter ?_ j
    unfold Filter.afterOut at hafter
    split_ifs at hafter
    · obtain ⟨rfl, -⟩ := Prod.mk.inj hafter
      rfl
    · split at hafter <;> obtain ⟨rfl, -⟩ := Prod.mk.inj hafter <;> rfl

/-- Nor does `In`, if it does not ask for a close. -/
theorem buffer_afterIn {res : InResult} (h : res.shouldClose = false) :
    (b.afterIn i res : Next ρ StreamBuffer).buffer = b := by
  unfold afterIn
  rw [h]
  simp only [Bool.false_eq_true, if_false]
  split <;> rfl

end StreamBuffer

/-! ### Deliveries -/

namespace BufferState

open StreamBuffer (Stage)

section

variable {pendingConnect : Bool} {s s' : BufferState Inbound} {l : BufferLabel (SysRet ⊕ Arrival)}
  {o tr : List (Obs (SysRet ⊕ Arrival))}

/-- The bytes a label brings. -/
def delivered : BufferLabel (SysRet ⊕ Arrival) → List UInt8
  | .tick (.inr (.bytes bs)) => bs
  | _ => []

/-- What `recv` returns leaves the receive queue, and what is delivered enters it. Every other
step leaves the queue alone. -/
theorem received_of_step (h : step (inboundEnv pendingConnect) l s = some (s', o)) :
    received o ++ s'.env.unread = s.env.unread ++ delivered l := by
  obtain ⟨-, hstep⟩ := step_inv h
  cases hstep with
  | @tick r k htick =>
      cases r with
      | inl r =>
          obtain ⟨socket, -, rfl⟩ := Option.map_eq_some_iff.mp htick
          simp [received, delivered]
      | inr a =>
          have harrive : s.env.arrive a = some k := htick
          unfold Inbound.arrive at harrive
          split at harrive
          · cases a with
            | bytes bs =>
                simp only at harrive
                split at harrive
                · exact absurd harrive (by simp)
                · obtain rfl := Option.some.inj harrive
                  rfl
            | eof =>
                obtain rfl := Option.some.inj harrive
                simp [received, delivered]
          · exact absurd harrive (by simp)
  | @answer f rest r n k hf hans =>
      show received n.obs ++ k.unread = s.env.unread ++ []
      rw [List.append_nil]
      by_cases hread : ∃ i, f = .read i
      · obtain ⟨i, rfl⟩ := hread
        obtain ⟨ret, rfl, hcontract, rfl, hturn⟩ := readTurn hans
        cases hturn with
        | @data bs d res _ _ =>
            -- `recv` has taken its bytes off the front of the queue
            simp only [Inbound.recvContract, Bool.and_eq_true] at hcontract
            obtain ⟨rest, hrest⟩ := List.isPrefixOf_iff_prefix.mp hcontract.1.1
            simp [received, Inbound.recv, ← hrest]
        | again | eof | failed | threw => simp [received, Inbound.recv]
      · have hsocket := socket_of_step h
        have hunread : k.unread = s.env.unread := by
          have henv : ({ s.resume rest n with env := k } : BufferState Inbound).env = k := rfl
          rw [henv] at hsocket
          cases hsocket with
          | recv hf' _ => exact absurd ⟨_, (List.cons.inj (hf.symm.trans hf')).1⟩ hread
          | same | send _ _ | asked _ => rfl
        obtain ⟨x, hx, ho⟩ := StreamBuffer.answerFrame_obs hans
        have hone : received [x] = [] := by
          cases hx with
          | «in» => exact absurd ⟨_, rfl⟩ hread
          | out _ _ | connect | shutdown => rfl
        rw [hunread]
        rcases ho with ho | ⟨c, ho⟩
        · rw [ho, hone, List.nil_append]
        · rw [ho]
          show received ([x] ++ [.callback c]) ++ s.env.unread = s.env.unread
          rw [received_append, hone]
          rfl
  | handleEvents _ _ hn =>
      rw [resume_env, (StreamBuffer.handleEvents_cases hn).2.1]
      simp [received, delivered]
  | run _ hrun =>
      rw [resume_env]
      rcases StreamBuffer.runFrame_obs hrun with ho | ⟨ds, ho⟩ | ho | ho | ho | ho <;>
        rw [ho] <;> simp [received, delivered]
  | write =>
      unfold write
      split_ifs
      · simp [received, delivered]
      · simp [received, delivered]
      · split <;> simp [received, delivered, setCall]
  | ret _ _ | push _ | notify _ | close _ | filterRefused _ _ | filterAdded _ _ _ =>
      simp [received, delivered, push, close, setCall]

/-- The end of the stream is only learned by being told. -/
theorem eof_of_step (h : step (inboundEnv pendingConnect) l s = some (s', o))
    (heof : s'.env.eof = true) : s.env.eof = true ∨ l = .tick (.inr .eof) := by
  have hsocket := socket_of_step h
  generalize s'.env = k at hsocket heof
  cases hsocket with
  | same | send _ _ | asked _ | ticks => exact .inl heof
  | @recv i ret rest _ _ => cases ret <;> exact .inl heof
  | @arrives a k harrive =>
      cases a with
      | eof => exact .inr rfl
      | bytes bs =>
          unfold Inbound.arrive at harrive
          split at harrive
          · simp only at harrive
            split at harrive
            · exact absurd harrive (by simp)
            · obtain rfl := Option.some.inj harrive
              exact .inl heof
          · exact absurd harrive (by simp)

/-! ### What goes out -/

/-- The system call behind an answer; an arrival is none. -/
def systemCall : SysRet ⊕ Arrival → SysRet := Sum.elim id fun _ => .none

/-- A stream buffer with its receive queue is one over a TCP socket: what is forgotten are the
bytes that wait. -/
theorem inbound_refines (pendingConnect : Bool) :
    (inboundEnv pendingConnect).Refines (tcpEnv pendingConnect) Inbound.socket systemCall where
  «in» := by
    intro i r k res k' h
    unfold inboundEnv at h
    dsimp only at h
    split at h
    · rename_i ret
      split at h
      · obtain ⟨⟨res₁, socket⟩, hin, heq⟩ := Option.map_eq_some_iff.mp h
        obtain ⟨rfl, rfl⟩ := Prod.mk.inj heq
        rw [show systemCall (.inl (.recv ret)) = .recv ret from rfl, hin]
        cases ret <;> rfl
      · exact absurd h (by simp)
    · exact absurd h (by simp)
  out := by
    intro i r k d res k' h
    cases r with
    | inr a => exact absurd h (by simp [inboundEnv])
    | inl r =>
        obtain ⟨⟨res₁, socket⟩, hout, heq⟩ := Option.map_eq_some_iff.mp h
        obtain ⟨rfl, rfl⟩ := Prod.mk.inj heq
        exact hout
  connect := by
    intro i r k res k' h
    cases r with
    | inr a => exact absurd h (by simp [inboundEnv])
    | inl r =>
        obtain ⟨⟨res₁, socket⟩, hconnect, heq⟩ := Option.map_eq_some_iff.mp h
        obtain ⟨rfl, rfl⟩ := Prod.mk.inj heq
        exact hconnect
  accept := by
    intro i r k res k' h
    cases r with
    | inr a => exact absurd h (by simp [inboundEnv])
    | inl r =>
        obtain ⟨⟨res₁, socket⟩, haccept, heq⟩ := Option.map_eq_some_iff.mp h
        obtain ⟨rfl, rfl⟩ := Prod.mk.inj heq
        exact haccept
  shutdown := by
    intro i r k res k' h
    cases r with
    | inr a => exact absurd h (by simp [inboundEnv])
    | inl r =>
        obtain ⟨⟨res₁, socket⟩, hshutdown, heq⟩ := Option.map_eq_some_iff.mp h
        obtain ⟨rfl, rfl⟩ := Prod.mk.inj heq
        exact hshutdown
  tick := by
    intro r k k' h
    cases r with
    | inr a => exact .inr (Inbound.arrive_spec h).2.2.2
    | inl r =>
        obtain ⟨socket, htick, rfl⟩ := Option.map_eq_some_iff.mp h
        exact .inl htick

/-- No filter is added. -/
def Alone (l : BufferLabel (SysRet ⊕ Arrival)) (s : BufferState Inbound) : Prop :=
  ∀ addr, l = .addFilter addr → s.buffer.addFilterAllowed = false

/-- The trace as one of a stream buffer over a socket. -/
def tcpTrace (tr : List (Obs (SysRet ⊕ Arrival))) : List (Obs SysRet) := tr.map (Obs.map systemCall)

@[simp] theorem tcpTrace_append (tr o : List (Obs (SysRet ⊕ Arrival))) :
    tcpTrace (tr ++ o) = tcpTrace tr ++ tcpTrace o := List.map_append

@[simp] theorem acceptedBytes_tcpTrace (tr : List (Obs (SysRet ⊕ Arrival))) :
    acceptedBytes (tcpTrace tr) = acceptedBytes tr := by
  unfold acceptedBytes tcpTrace
  rw [List.flatMap_map]
  congr 1
  funext x
  cases x <;> rfl

variable {mode : StreamBufferMode} {addr : Nat} {socket : Socket}

theorem tcpRun_of_run
    (h : GuardedRun (bufferSystem (inboundEnv pendingConnect)) Alone
      (init mode addr (Inbound.fresh socket)) tr s) :
    TcpRun pendingConnect (init mode addr socket) (tcpTrace tr) (s.mapEnv Inbound.socket) := by
  refine run_of_refines (inbound_refines pendingConnect) (fun l s hl addr heq => ?_) h
  cases l with
  | addFilter addr' => exact hl addr (by simpa [BufferLabel.map] using heq)
  | _ => exact absurd heq (by simp [BufferLabel.map])

/-- Nothing is sent outside of `HandleEvents`. -/
theorem sentBytes_of_idle (h : step (inboundEnv pendingConnect) l s = some (s', o))
    (hidle : s.stack = []) : sentBytes (tcpTrace o) = [] := by
  obtain ⟨-, hstep⟩ := step_inv h
  cases hstep with
  | run hstack _ | answer hstack _ | ret hstack _ =>
      exact absurd (hidle.symm.trans hstack) (by simp)
  | handleEvents _ _ hn =>
      rw [(StreamBuffer.handleEvents_cases hn).2.1]
      rfl
  | write =>
      unfold write
      split_ifs
      · rfl
      · rfl
      · split <;> rfl
  | push _ | notify _ | close _ | filterRefused _ _ | filterAdded _ _ _ | tick _ => rfl

/-! ### Why the stream ends -/

/-- What can have led to the end of a stream. -/
inductive Cause (tr : List (Obs (SysRet ⊕ Arrival))) : Prop
  /-- the user has closed it, before `recv` has seen its end -/
  | closed : .shouldClose ∈ tr.takeWhile (fun x => !x.readsEnd) → Cause tr
  | failed {x} : x ∈ tr → x.receiveFails = true → Cause tr
  | ended {x} : x ∈ tr → x.readsEnd = true → Cause tr

/-- The stream buffer is on its way to its end. -/
def Ending (s : BufferState Inbound) : Prop :=
  (s.buffer.filter 0).readClosed = true ∨ s.buffer.shouldClose = true

/-- `In` asks for the close at the end of the stream and when `recv` fails. -/
theorem cause_of_in {i : Nat} {r : SysRet ⊕ Arrival} {k k' : Inbound} {res : InResult}
    (h : (inboundEnv pendingConnect).in i r k = some (.ok res, k'))
    (hres : res.shouldClose = true) :
    (Obs.in i r (.ok res)).receiveFails = true ∨ (Obs.in i r (.ok res)).readsEnd = true := by
  unfold inboundEnv at h
  dsimp only at h
  split at h
  · rename_i ret
    split at h
    · obtain ⟨⟨res₁, socket⟩, hin, heq⟩ := Option.map_eq_some_iff.mp h
      obtain rfl := (Prod.mk.inj heq).1
      have hreturns := in_returns ret
      rw [show TCPStreamBufferFilter.in ret = .ok res from congrArg Prod.fst (Option.some.inj hin)]
        at hreturns
      generalize hr : (Except.ok res : Except Exception InResult) = result at hreturns
      cases hreturns with
      | data _ | again =>
          obtain rfl := Except.ok.inj hr
          exact absurd hres (by simp [InResult.ofBytes])
      | eof => exact .inr rfl
      | failed herrno => exact .inl (by simpa [Obs.receiveFails] using herrno)
      | threw => exact absurd hr (by simp)
    · exact absurd h (by simp)
  · exact absurd h (by simp)

/-- An answer that ends the stream says why. -/
theorem cause_of_answer {f : Frame} {rest : List Frame} {r : SysRet ⊕ Arrival} {k : Inbound}
    {n : Next (SysRet ⊕ Arrival) StreamBuffer} (hf : s.stack = f :: rest)
    (hans : s.buffer.answerFrame (inboundEnv pendingConnect) r s.env f = some (n, k))
    (hstage : Stage s.buffer s.stack) (hno : ¬Ending s)
    (hclosed : (n.buffer.filter 0).readClosed = true) :
    ∃ x ∈ n.obs, x.receiveFails = true ∨ x.readsEnd = true := by
  have hopen : (s.buffer.filter 0).readClosed ≠ true := fun hyes => hno (.inl hyes)
  cases hsends : f.sends with
  | true =>
      -- `Out` does not touch the reading direction
      obtain ⟨i, again, after, -, hcall⟩ := StreamBuffer.callOut_of_sends hans hsends
      exact absurd ((StreamBuffer.readClosed_of_callOut hcall 0).symm.trans hclosed) hopen
  | false =>
      rcases StreamBuffer.answerFrame_cases hans hsends with ⟨e, x, rfl, -⟩ |
        ⟨i, res, rfl, hin, rfl⟩ | ⟨i, res, rfl, -, -⟩ | ⟨res, rfl, -, rfl⟩
      · exact absurd hclosed hopen
      · -- `In` has asked for the close
        have hres : res.shouldClose = true := by
          by_contra hgo
          have hsame : ((s.buffer.afterIn i res).after
              (Obs.in i r (.ok res))).buffer = s.buffer :=
            StreamBuffer.buffer_afterIn (by simpa using hgo)
          rw [hsame] at hclosed
          exact hopen hclosed
        exact ⟨_, List.mem_cons_self, cause_of_in hin hres⟩
      · rw [hf] at hstage
        cases hstage with
        | shutdown _ hclose _ _ => exact absurd (.inr hclose) hno
      · cases res with
        | failed => exact ⟨_, List.mem_cons_self, .inl rfl⟩
        | success =>
            have hsame := StreamBuffer.readClosed_setFilter (b := s.buffer)
              (f := { s.buffer.filter s.buffer.backIndex with connected := true }) rfl 0
            exact absurd (hsame.symm.trans hclosed) hopen
        | pending => exact absurd hclosed hopen

/-- A step that closes the reading direction of an open buffer says why. -/
theorem readClosed_of_step (h : step (inboundEnv pendingConnect) l s = some (s', o))
    (hl : Alone l s)
    (hchain : ChainInv s) (hno : ¬Ending s) (hclosed : (s'.buffer.filter 0).readClosed = true) :
    ∃ x ∈ o, x.receiveFails = true ∨ x.readsEnd = true := by
  have hopen : (s.buffer.filter 0).readClosed ≠ true := fun hyes => hno (.inl hyes)
  obtain ⟨hcr, hmove⟩ := move_of_step h
  cases hmove with
  | enter _ hn =>
      rw [resume_buffer, (StreamBuffer.handleEvents_cases hn).1] at hclosed
      exact absurd hclosed hopen
  | @run f rest n hf hrun =>
      rw [resume_buffer] at hclosed
      refine absurd ?_ hopen
      by_cases hswap : f = .doWrite
      · subst hswap
        rcases StreamBuffer.doWrite_cases s.buffer n (Option.some.inj hrun).symm with
          ⟨-, rfl⟩ | ⟨-, -, -, -, hb⟩
        · exact hclosed
        · rw [hb] at hclosed
          exact (StreamBuffer.readClosed_setFilter (by rfl) 0).symm.trans hclosed
      · rw [StreamBuffer.filter, (StreamBuffer.runFrame_filters hrun hswap).1] at hclosed
        exact hclosed
  | @answer f rest r n k hf hans =>
      have hclosed : (n.buffer.filter 0).readClosed = true := by simpa using hclosed
      exact cause_of_answer hf hans (hchain.stage hcr) hno hclosed
  | ret _ => exact absurd hclosed hopen
  | added _ hadd =>
      have hallowed := (StreamBuffer.addStreamBufferFilter_cases hadd).1
      exact absurd (hl _ rfl) (by simp [hallowed])
  | aside ha =>
      rw [StreamBuffer.filter, ha.filters] at hclosed
      exact absurd hclosed hopen

/-- The runs of a stream buffer to which no filter is added. -/
abbrev AloneRun (pendingConnect : Bool) (mode : StreamBufferMode) (addr : Nat) (socket : Socket) :
    List (Obs (SysRet ⊕ Arrival)) → BufferState Inbound → Prop :=
  GuardedRun (bufferSystem (inboundEnv pendingConnect)) Alone
    (init mode addr (Inbound.fresh socket))

theorem single_of_run (h : AloneRun pendingConnect mode addr socket tr s) :
    s.buffer.streamFilters.length = 1 :=
  (streamInv_of_run (tcpRun_of_run h)).length

/-- A stream that is ending has a cause in the trace. -/
theorem cause_of_run (h : AloneRun pendingConnect mode addr socket tr s) (hending : Ending s) :
    Cause tr := by
  have hwhy : Ending s → s.buffer.shouldClose = true ∨
      ∃ x ∈ tr, x.receiveFails = true ∨ x.readsEnd = true := by
    refine h.invariant (I := fun tr s => Ending s → s.buffer.shouldClose = true ∨
      ∃ x ∈ tr, x.receiveFails = true ∨ x.readsEnd = true) ?_ ?_
    · exact fun hno => absurd hno
        (by simp [Ending, init, StreamBuffer.create_eq, StreamBuffer.filter, Filter.new])
    · intro tr s l s' o hrun ih hl hs hending
      by_cases hbefore : Ending s
      · rcases ih hbefore with hclose | ⟨x, hx, hends⟩
        · exact .inl ((flagsGrow_step hs).shouldClose hclose)
        · exact .inr ⟨x, List.mem_append_left o hx, hends⟩
      · rcases hending with hclosed | hclose
        · obtain ⟨x, hx, hends⟩ := readClosed_of_step hs hl (chainInv_of_run hrun) hbefore hclosed
          exact .inr ⟨x, List.mem_append_right tr hx, hends⟩
        · exact .inl hclose
  by_cases hread : ∃ x ∈ tr, x.readsEnd = true
  · obtain ⟨x, hx, hend⟩ := hread
    exact .ended hx hend
  · rcases hwhy hending with hclose | ⟨x, hx, hfails | hend⟩
    · refine .closed ?_
      have hall : tr.takeWhile (fun x => !x.readsEnd) = tr :=
        List.takeWhile_eq_self_iff.mpr fun x hx => by simpa using fun hend => hread ⟨x, hx, hend⟩
      rw [hall]
      exact (shouldClose_iff h).mp hclose
    · exact .failed hx hfails
    · exact absurd ⟨x, hx, hend⟩ hread

/-- The queue has been read up to the end of the stream. -/
def ReadUp (s : BufferState Inbound) : Prop := s.env.eof = true ∧ s.env.unread = []

/-- `recv` sees the end of the stream when everything before it has been read. -/
theorem readUp_of_readsEnd (h : step (inboundEnv pendingConnect) l s = some (s', o))
    {x : Obs (SysRet ⊕ Arrival)} (hx : x ∈ o) (hend : x.readsEnd = true) : ReadUp s' := by
  obtain ⟨-, hmove⟩ := move_of_step h
  cases hmove with
  | ret _ => exact absurd hx List.not_mem_nil
  | added _ _ => exact absurd hend (by simp [List.mem_singleton.mp hx, Obs.readsEnd])
  | enter _ hn =>
      rw [(StreamBuffer.handleEvents_cases hn).2.1] at hx
      exact absurd hend (by simp [List.mem_singleton.mp hx, Obs.readsEnd])
  | run _ hrun =>
      rcases StreamBuffer.runFrame_obs hrun with ho | ⟨ds, ho⟩ | ho | ho | ho | ho <;>
        rw [ho] at hx <;> simp at hx <;> subst hx <;> simp [Obs.readsEnd] at hend
  | aside ha =>
      have haside := ha.obs x hx
      cases x <;> simp_all [Obs.aside, Obs.readsEnd]
  | @answer f rest r n k _ hans =>
      show k.eof = true ∧ k.unread = []
      by_cases hread : ∃ i, f = .read i
      · obtain ⟨i, rfl⟩ := hread
        obtain ⟨ret, rfl, hcontract, rfl, hturn⟩ := readTurn hans
        cases hturn with
        | @data bs d res hne _ =>
            cases bs with
            | nil => exact absurd rfl hne
            | cons byte bytes =>
                rcases List.mem_pair.mp hx with rfl | rfl <;> simp [Obs.readsEnd] at hend
        | eof =>
            simp only [Inbound.recvContract, Bool.and_eq_true] at hcontract
            have hempty : s.env.unread = [] ∧ s.env.eof = true := by simpa using hcontract.2
            exact ⟨hempty.2, by simp [Inbound.recv, hempty.1]⟩
        | again | failed | threw =>
            exact absurd hend (by simp [List.mem_singleton.mp hx, Obs.readsEnd])
      · obtain ⟨y, hy, ho⟩ := StreamBuffer.answerFrame_obs hans
        have hno : y.readsEnd = false := by
          cases hy with
          | «in» => exact absurd ⟨_, rfl⟩ hread
          | out _ _ | connect | shutdown => rfl
        rcases ho with ho | ⟨c, ho⟩
        · rw [ho] at hx
          exact absurd hend (by simp [List.mem_singleton.mp hx, hno])
        · rw [ho] at hx
          rcases List.mem_cons.mp hx with rfl | hx
          · exact absurd hend (by simp [hno])
          · exact absurd hend (by simp [List.mem_singleton.mp hx, Obs.readsEnd])

/-- Nothing arrives after the end. -/
theorem ReadUp.step (hup : ReadUp s) (h : step (inboundEnv pendingConnect) l s = some (s', o)) :
    ReadUp s' := by
  have hsocket := socket_of_step h
  unfold ReadUp
  generalize s'.env = k at hsocket ⊢
  cases hsocket with
  | same | send _ _ | asked _ | ticks => exact hup
  | @recv i ret rest _ _ =>
      cases ret with
      | ok bs => exact ⟨hup.1, by simp [Inbound.recv, hup.2]⟩
      | error e => exact hup
  | arrives harrive => exact absurd harrive (by simp [Inbound.arrive, hup.1])

/-- After the end of the stream has been read, nothing is left to read. -/
theorem readUp_of_run {ok : BufferLabel (SysRet ⊕ Arrival) → BufferState Inbound → Prop}
    {s₀ : BufferState Inbound}
    (h : GuardedRun (bufferSystem (inboundEnv pendingConnect)) ok s₀ tr s)
    {x : Obs (SysRet ⊕ Arrival)} (hx : x ∈ tr) (hend : x.readsEnd = true) : ReadUp s := by
  refine h.invariant (I := fun tr s => x ∈ tr → ReadUp s) ?_ ?_ hx
  · exact fun hno => absurd hno List.not_mem_nil
  · intro tr s l s' o _ ih _ hs hmem
    rcases List.mem_append.mp hmem with hbefore | hnow
    · exact (ih hbefore).step hs
    · exact readUp_of_readsEnd hs hnow hend

/-- **Why the user is told that the stream is over**: he has closed it, it has failed, or `recv`
has seen its end. -/
theorem cause_of_handleEOF (h : AloneRun pendingConnect mode addr socket tr s)
    (heof : .callback .handleEOF ∈ tr) : Cause tr := by
  refine cause_of_run h ?_
  refine h.invariant (I := fun tr s => .callback .handleEOF ∈ tr → Ending s) ?_ ?_ heof
  · exact fun hno => absurd hno List.not_mem_nil
  · intro tr s l s' o hrun ih _ hs hmem
    have hgrow := flagsGrow_step hs
    have hstays : Ending s → Ending s' := by
      rintro (hclosed | hclose)
      · exact .inl (hgrow.readClosed 0 hclosed)
      · exact .inr (hgrow.shouldClose hclose)
    rcases eofCalled_step hs with ⟨-, hno⟩ | ⟨rest, -, hclosed, -⟩
    · exact hstays (ih ((List.mem_append.mp hmem).resolve_right hno))
    · refine hstays (.inl ?_)
      exact (isReadClosed_eq (s := s.mapEnv Inbound.socket) (single_of_run hrun)).symm.trans hclosed

end

end BufferState

/-! ### One end of a connection -/

/-- A stream buffer over a TCP socket, created by one of the two `Create` functions, and the
event loop that it is attached to. -/
structure Endpoint where
  cfg : Config
  event : EventId
  fd : Fd
  /-- a stream buffer is a handler of the user's kind -/
  isUser : cfg.handler event = .user fd
  mode : StreamBufferMode
  addr : Nat
  pendingConnect : Bool
  socket : Socket

namespace Endpoint

open BufferState Hosted EventLoop

/-- The labels and observations of an end. -/
abbrev Label := HostedLabel (BufferLabel (SysRet ⊕ Arrival))

abbrev Shown := LoopObs ⊕ Obs (SysRet ⊕ Arrival)

/-- The bytes that `send` has taken. -/
def sends : Shown → List UInt8
  | .inr x => (x.map systemCall).sentBytes
  | .inl _ => []

/-- The descriptor of `e` is closed, and the kernel tells the peer. -/
def closes (e : EventId) : Shown → Bool
  | .inl x => x.closes e
  | .inr _ => false

/-- What the kernel takes off the wire. -/
def news : Label → Option (News UInt8)
  | .handler (.tick (.inr (.bytes bs))) _ => some (.elements bs)
  | .handler (.tick (.inr .eof)) _ => some .finished
  | _ => none

/-- An end as a party of a link. -/
def party (p : Endpoint) : Party (Hosted (BufferState Inbound)) Label Shown UInt8 where
  sys := hostedSystem p.cfg (inboundCode p.pendingConnect) p.event
  sends := sends
  closes := closes p.event
  news := news

/-- The stream buffer and its loop have just been created. -/
def start (p : Endpoint) : Hosted (BufferState Inbound) :=
  Hosted.init (.init p.mode p.addr (.fresh p.socket))

/-- No filter is added to the stream buffer of the end. -/
def Alone (l : Label) (h : Hosted (BufferState Inbound)) : Prop :=
  ∀ l', Takes l l' → BufferState.Alone l' h.handler

/-- What has arrived: what `recv` has returned, and what it has not. -/
def arrived (tr : List Shown) (h : Hosted (BufferState Inbound)) : List UInt8 :=
  received (handlerTrace tr) ++ h.handler.env.unread

/-- The end of the stream has arrived. -/
def ended (h : Hosted (BufferState Inbound)) : Prop := h.handler.env.eof = true

variable {p : Endpoint} {ok : Label → Hosted (BufferState Inbound) → Prop} {tr o : List Shown}
  {h h' : Hosted (BufferState Inbound)} {l : Label}

theorem aloneRun (hok : ∀ l h, ok l h → Alone l h) (hrun : GuardedRun p.party.sys ok p.start tr h) :
    AloneRun p.pendingConnect p.mode p.addr p.socket (handlerTrace tr) h.handler :=
  bufferRun (fun l _ h htakes hl => hok l h hl _ htakes) hrun

/-- What goes onto the wire is what `send` has taken. -/
theorem flatMap_sends (tr : List Shown) :
    tr.flatMap sends = sentBytes (tcpTrace (handlerTrace tr)) := by
  induction tr with
  | nil => rfl
  | cons x tr ih =>
      cases x with
      | inl x => exact ih
      | inr x =>
          show sends (.inr x) ++ tr.flatMap sends = _
          rw [ih]
          rfl

/-- The test finds the descriptor closed. -/
theorem mem_closes {e : EventId} (h : tr.any (closes e) = true) :
    .closeHandle e ∈ loopTrace tr := by
  obtain ⟨x, hx, hcloses⟩ := List.any_eq_true.mp h
  cases x with
  | inr x => exact absurd hcloses (by simp [closes])
  | inl x =>
      refine List.mem_filterMap.mpr ⟨_, hx, ?_⟩
      cases x with
      | closeHandle e' =>
          obtain rfl : e' = e := by simpa [closes, LoopObs.closes] using hcloses
          rfl
      | _ => exact absurd hcloses (by simp [closes, LoopObs.closes])

/-- While the loop thread is in `HandleEvents`, the descriptor is open. -/
theorem idle_of_closed (hrun : GuardedRun p.party.sys ok p.start tr h) (hc : h.loop.crashed = none)
    (hclosed : tr.any (closes p.event) = true) : h.handler.stack = [] := by
  by_contra hne
  obtain ⟨rest, hstack⟩ := stack_of_running p.isUser buffer_starts rfl hrun hc
    (by simpa [inboundCode, bufferCode] using hne)
  have hloop := loopRun hrun
  have hdead := dead_of_closed hloop hc (mem_closes hclosed)
  -- the loop holds a reference to the handler that it calls
  have hheld : .release p.event ∈ h.loop.stack := by
    refine release_of_needs (handlerCall_of_run hloop hc) (f := .callback p.event) ?_
      (by simp [LoopFrame.needs])
    rw [hstack]
    exact List.mem_cons_self
  exact absurd ((referenced_of_run hloop hc).frames _ hheld) (by simp [hdead])

/-- A step of an end is one of its stream buffer, or one that the stream buffer has no part in. -/
theorem step_cases (hs : p.party.sys.step l h = some (h', o)) :
    (h'.handler = h.handler ∧ handlerTrace o = [] ∧ news l = none) ∨
      ∃ l', step (inboundEnv p.pendingConnect) l' h.handler = some (h'.handler, handlerTrace o) ∧
        News.content (news l) = delivered l' ∧
          (l' = .tick (.inr .eof) → news l = some .finished) := by
  obtain ⟨-, -, hstep⟩ := hostedSystem_inv hs
  cases l with
  | loop l =>
      obtain ⟨hsame, hnone⟩ := handler_of_loop hstep
      exact .inl ⟨hsame, hnone, rfl⟩
  | enter l' =>
      refine .inr ⟨l', handler_of_takes hstep (.enter l'), ?_⟩
      cases hstep with
      | enter hactor _ _ _ _ =>
          -- only `HandleEvents` is entered
          cases l' with
          | handleEvents alive => exact ⟨rfl, fun hno => absurd hno (by simp)⟩
          | _ => exact absurd hactor (by simp [inboundCode, bufferCode, actor])
  | handler l' ret =>
      refine .inr ⟨l', handler_of_takes hstep (.handler l' ret), ?_⟩
      cases l' with
      | tick r =>
          cases r with
          | inl r => exact ⟨rfl, fun hno => absurd hno (by simp)⟩
          | inr a => cases a with
            | bytes bs => exact ⟨rfl, fun hno => absurd hno (by simp)⟩
            | eof => exact ⟨rfl, fun _ => rfl⟩
      | _ => exact ⟨rfl, fun hno => absurd hno (by simp)⟩

/-- **An end accounts for what it gets**, and is silent once its descriptor is closed. -/
theorem accounts (p : Endpoint) (ok : Label → Hosted (BufferState Inbound) → Prop) :
    Link.Accounts p.party ok p.start arrived ended where
  start := ⟨rfl, by simp [ended, start, Hosted.init, BufferState.init, Inbound.fresh]⟩
  arrives := by
    intro tr h l h' o _ _ hs
    rw [arrived, handlerTrace_append, received_append, List.append_assoc]
    rcases step_cases hs with ⟨hsame, hnone, hnews⟩ | ⟨l', hstep, hcontent, -⟩
    · rw [hsame, hnone, show p.party.news l = none from hnews]
      show received (handlerTrace tr) ++ h.handler.env.unread = arrived tr h ++ []
      rw [List.append_nil, arrived]
    · rw [received_of_step hstep, show News.content (p.party.news l) = _ from hcontent,
        ← List.append_assoc, arrived]
  ends := by
    intro tr h l h' o _ _ hs hended
    rcases step_cases hs with ⟨hsame, -, -⟩ | ⟨l', hstep, -, hfinished⟩
    · exact .inl (by rw [ended, ← hsame]; exact hended)
    · exact (eof_of_step hstep hended).imp id hfinished
  silent := by
    intro tr h l h' o hrun _ hs hclosed
    have hc := (hostedSystem_inv hs).2.1
    show o.flatMap sends = []
    rw [flatMap_sends]
    rcases step_cases hs with ⟨-, hnone, -⟩ | ⟨l', hstep, -, -⟩
    · rw [hnone]
      rfl
    · exact sentBytes_of_idle hstep (idle_of_closed hrun hc hclosed)

end Endpoint

end Libael
