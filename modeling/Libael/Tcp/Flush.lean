import Libael.Tcp.Closing

/-!
# Libael.Tcp.Flush

**A delivered end of file means everything was sent**: when `HandleEOF` has been called and no
filter method reported a failure, the bytes accepted before `should_close_` was set are on the
wire.

* The invariant follows the bytes that have left `pending_writes_`, sent or not (`taken`).
  Their number never shrinks, `DoClose` brings it to everything accepted so far, and the filter
  is shut down only when none of them is left in `pending_out_`.
* Before the filter is closed a call reads, writes or finalizes, and a phase of `DoClose` begins
  only with `should_close_` set (`FlushStack`). Behind the `DoWrite` of that phase all of the
  bytes in question have left `pending_writes_`.
* After a failure nothing is promised, so `flushInv_step` takes a step that reports none.
-/

namespace Libael

open Lts

/-- `Out` or `Connect` has reported a failure to the buffer. -/
def Obs.reportsFailure : Obs SysRet → Bool
  | .out _ _ _ (.ok (⟨true⟩, _)) => true
  | .connect _ (.ok .failed) => true
  | _ => false

/-- The observation of `should_close_` being set. -/
def Obs.setsClose {ρ : Type} : Obs ρ → Bool
  | .shouldClose => true
  | _ => false

/-- The payloads accepted before `should_close_` was first set. -/
def acceptedBefore {ρ : Type} (tr : List (Obs ρ)) : List UInt8 :=
  acceptedBytes (tr.takeWhile (!·.setsClose))

theorem acceptedBefore_isPrefix {ρ : Type} (tr : List (Obs ρ)) :
    acceptedBefore tr <+: acceptedBytes tr := by
  obtain ⟨rest, hrest⟩ := List.takeWhile_prefix (l := tr) (fun x => !x.setsClose)
  refine ⟨acceptedBytes rest, ?_⟩
  rw [acceptedBefore, ← acceptedBytes_append, hrest]

/-- What has been accepted before `should_close_` is settled once it is set. -/
theorem acceptedBefore_append {ρ : Type} {tr : List (Obs ρ)} (h : .shouldClose ∈ tr)
    (o : List (Obs ρ)) : acceptedBefore (tr ++ o) = acceptedBefore tr := by
  have hstop : (tr ++ o).takeWhile (fun x => !x.setsClose) =
      tr.takeWhile (fun x => !x.setsClose) := by
    induction tr with
    | nil => exact absurd h List.not_mem_nil
    | cons x xs ih =>
        cases hx : x.setsClose with
        | true => simp [hx]
        | false =>
            have hmem : .shouldClose ∈ xs := by
              rcases List.mem_cons.mp h with rfl | hmem
              · simp [Obs.setsClose] at hx
              · exact hmem
            simp [hx, ih hmem]
  rw [acceptedBefore, hstop, acceptedBefore]

/-- A phase of `DoClose` behind its `DoWrite`. -/
def ClosePhase.swapped : ClosePhase → Bool
  | .doClose | .doWrite => false
  | _ => true

namespace BufferState

variable {pendingConnect alive : Bool} {l : BufferLabel SysRet} {s s' s₁ : BufferState Socket}
  {tr o c : List (Obs SysRet)} {p : ClosePhase} {rest : List Frame} {mode : StreamBufferMode}
  {addr : Nat} {k : Socket}

/-! ### The bytes that have left `pending_writes_` -/

/-- How many bytes were sent or sit in `pending_out_`. -/
def taken (tr : List (Obs SysRet)) (s : BufferState Socket) : Nat :=
  (sentBytes tr).length + (viewBytes s.tcp.pendingOut).length

theorem sentBytes_le_append (tr o : List (Obs SysRet)) :
    (sentBytes tr).length ≤ (sentBytes (tr ++ o)).length := by
  simp

/-- Bytes leave `pending_out_` through `send`, or when `Out` fails. -/
theorem taken_step (hok : TcpOnly l s) (h : step (tcpEnv pendingConnect) l s = some (s', o))
    (hi : StreamInv tr s) :
    s'.crashed ≠ none ∨ (∃ x ∈ o, x.reportsFailure = true) ∨ taken tr s ≤ taken (tr ++ o) s' := by
  cases dataStep hok h hi.length with
  | keep hpo hpw hobs =>
      refine .inr (.inr ?_)
      simp only [taken, hpo]
      have := sentBytes_le_append tr o
      omega
  | accept hcall hpo hpw =>
      refine .inr (.inr ?_)
      simp [taken, hpo]
  | swap hstack hpo hpw =>
      refine .inr (.inr ?_)
      simp only [taken, hpo, viewBytes_append, List.length_append]
      have := sentBytes_le_append tr [.swapped s.buffer.pendingWrites]
      omega
  | @send fr rest d ds ret hstack hfr hpo hret hpw hout =>
      have hpos : 0 < d.dataLength := hi.pendingOut d (by rw [hpo]; exact List.mem_cons_self)
      rcases TCPStreamBufferFilter.out_cases hpos hret with
        ⟨rfl, ho⟩ | ⟨e, -, -, ⟨ex, ho⟩ | ho⟩ | ⟨n, suffix, rfl, -, hlt, ho, hbytes, -⟩ |
        ⟨n, rfl, hn, ho⟩ <;> rw [ho] at hout
      · refine .inr (.inr ?_)
        simp [taken, hpo, hout.1, Filter.afterOut, sentBytes, Obs.sentBytes]
      · exact .inl (by rw [hout.1]; simp)
      · refine .inr (.inl ⟨_, List.mem_singleton_self _, ?_⟩)
        rw [ho]
        rfl
      · refine .inr (.inr ?_)
        have hlen := DataView.length_bytes d
        simp only [taken, hpo, hout.1, Filter.afterOut, sentBytes_append, List.length_append]
        simp only [sentBytes, Obs.sentBytes, List.flatMap_cons, List.flatMap_nil, List.append_nil,
          List.length_take, viewBytes_cons, hbytes, List.length_append, List.length_drop,
          Bool.false_eq_true, if_false]
        omega
      · refine .inr (.inr ?_)
        have hlen := DataView.length_bytes d
        simp only [taken, hpo, hout.1, Filter.afterOut, sentBytes_append, List.length_append]
        simp only [sentBytes, Obs.sentBytes, List.flatMap_cons, List.flatMap_nil, List.append_nil,
          List.length_take, viewBytes_cons, List.length_append, Bool.false_eq_true, if_false]
        omega

/-- A `send` fails for good only when `Out` reports it, or with a crash. -/
theorem reported_of_sendFailed (h : TcpRun pendingConnect (init mode addr k) tr s) :
    sendFailed tr = true → s.crashed ≠ none ∨ ∃ x ∈ tr, x.reportsFailure = true := by
  refine h.invariant (I := fun tr s => sendFailed tr = true →
    s.crashed ≠ none ∨ ∃ x ∈ tr, x.reportsFailure = true) (by simp [sendFailed]) ?_
  intro tr s l s' o hrun ih hok hs hf
  have hi := streamInv_of_run hrun
  rw [sendFailed_append, Bool.or_eq_true] at hf
  rcases hf with hf | hf
  · rcases ih hf with hcr | ⟨x, hx, hrep⟩
    · exact absurd (step_inv hs).1 hcr
    · exact .inr ⟨x, List.mem_append_left _ hx, hrep⟩
  · cases dataStep hok hs hi.length with
    | keep _ _ hobs => exact absurd hf (by simp [(sentBytes_of_not_isData hobs).2.2])
    | accept => simp [sendFailed, Obs.sendFailed] at hf
    | swap => simp [sendFailed, Obs.sendFailed] at hf
    | @send fr rest d ds ret hstack hfr hpo hret hpw hout =>
        have hpos : 0 < d.dataLength := hi.pendingOut d (by rw [hpo]; exact List.mem_cons_self)
        rcases TCPStreamBufferFilter.out_cases hpos hret with
          ⟨rfl, -⟩ | ⟨e, -, -, ⟨ex, ho⟩ | ho⟩ | ⟨n, _, rfl, -⟩ | ⟨n, rfl, -⟩
        · simp [sendFailed, Obs.sendFailed] at hf
        · rw [ho] at hout
          exact .inl (by rw [hout.1]; simp)
        · refine .inr ⟨_, List.mem_append_right _ (List.mem_singleton_self _), ?_⟩
          rw [ho]
          rfl
        · simp [sendFailed, Obs.sendFailed] at hf
        · simp [sendFailed, Obs.sendFailed] at hf

/-! ### The way to `Shutdown` -/

/-- Without a failure the filter is closed for writing by `Shutdown` alone. `Out` and `Connect`
close it when they fail, and no frame does it on its own. -/
theorem writeClosed_step (hok : TcpOnly l s) (h : step (tcpEnv pendingConnect) l s = some (s', o))
    (hi : StreamInv tr s) (hwc : s'.tcp.writeClosed = true) :
    s.tcp.writeClosed = true ∨ (∃ x ∈ o, x.reportsFailure = true) ∨
      ∃ rest, s.stack = .shutdown 0 :: rest := by
  have hlen := hi.length
  have hlen' := length_step hok h hlen
  -- an update of the `i`-th filter that keeps its flag keeps that of the TCP filter
  have hset :
      ∀ {b : StreamBuffer} {i : Nat} {f : Filter}, b.streamFilters = s.buffer.streamFilters →
      f.writeClosed = (s.buffer.filter i).writeClosed →
      ((b.setFilter i f).filter 0).writeClosed = true → s.tcp.writeClosed = true := by
    intro b i f hb hf hcl
    rw [StreamBuffer.filter_setFilter] at hcl
    split at hcl
    case isTrue h0 =>
        obtain ⟨rfl, -⟩ := h0
        rw [hf] at hcl
        exact hcl
    case isFalse =>
        simp only [StreamBuffer.filter, hb] at hcl
        exact hcl
  obtain ⟨-, hmove⟩ := move_of_step h
  cases hmove with
  | aside ha => exact .inl (by rw [← ha.tcp]; exact hwc)
  | ret => exact .inl hwc
  | added hf hadd =>
      have := StreamBuffer.length_addStreamBufferFilter hadd
      exact absurd hlen' (by simp_all)
  | enter hnil hn =>
      subst hn
      refine .inl ?_
      simp only [tcp, resume_buffer, StreamBuffer.handleEvents] at hwc
      split_ifs at hwc <;> exact hwc
  | @run fr rest n hf hrun =>
      refine .inl ?_
      simp only [tcp, resume_buffer] at hwc
      by_cases hfr : fr = .doWrite
      · subst hfr
        rcases StreamBuffer.doWrite_cases s.buffer n (Option.some.inj hrun).symm with
          ⟨-, rfl⟩ | ⟨-, -, -, -, hb⟩
        · exact hwc
        · rw [hb] at hwc
          exact hset rfl (by rfl) hwc
      · simp only [StreamBuffer.filter, (StreamBuffer.runFrame_filters hrun hfr).1] at hwc
        exact hwc
  | @answer fr rest r n k hf hans =>
      have hwc' : (n.buffer.filter 0).writeClosed = true := by simpa [tcp] using hwc
      cases hfr : fr.sends with
      | true =>
          obtain ⟨i, again, after, -, hcall⟩ := StreamBuffer.callOut_of_sends hans hfr
          obtain ⟨d, ds, res, -, -, hobs, hres⟩ := StreamBuffer.callOut_cases hcall
          rcases hres with ⟨e, -, -, -, hb⟩ | ⟨⟨⟨failed⟩, left⟩, f', drain, rfl, hafter, -, hb, -⟩
          · rw [hb] at hwc'
            exact .inl (hset rfl (by rfl) hwc')
          · cases failed with
            | true =>
                rw [hobs]
                exact .inr (.inl ⟨_, List.mem_singleton_self _, rfl⟩)
            | false =>
                rw [hb] at hwc'
                refine .inl (hset rfl ?_ hwc')
                have hf' :
                    f' = ((s.buffer.filter i).afterOut ds (⟨false⟩, left)).1 := by rw [hafter]
                rw [hf']
                cases left <;> simp [Filter.afterOut]
      | false =>
          rcases StreamBuffer.answerFrame_cases hans hfr with ⟨e, x, rfl, -⟩ | ⟨i, res, -, -, rfl⟩ |
            ⟨i, res, rfl, -, rfl⟩ | ⟨res, -, -, rfl⟩
          · exact .inl hwc'
          · refine .inl ?_
            simp only [Next.after, StreamBuffer.afterIn] at hwc'
            split_ifs at hwc'
            · exact hset rfl (by rfl) hwc'
            · split at hwc' <;> exact hwc'
          · simp only [Next.after, StreamBuffer.afterShutdown] at hwc'
            split_ifs at hwc'
            · by_cases h0 : i = 0
              · subst h0
                exact .inr (.inr ⟨_, hf⟩)
              · rw [StreamBuffer.filter_setFilter, if_neg (by simp [h0])] at hwc'
                exact .inl hwc'
            · exact .inl hwc'
          · cases res with
            | failed => exact .inr (.inl ⟨_, List.mem_cons_self, rfl⟩)
            | success => exact .inl (hset rfl (by rfl) hwc')
            | pending => exact .inl hwc'

/-- A frame outside `DoClose` pushes frames outside it, or it is the `DoFinalize` that sets
`should_close_` and starts one. -/
theorem outside_of_runFrame {b : StreamBuffer} {fr : Frame} {n : Next SysRet StreamBuffer}
    (h : b.runFrame fr = some n) (hfr : fr.closes = false) :
    (n.frames = [.doClose, .finalizeEOF] ∧ n.buffer.shouldClose = true) ∨
      ∀ f ∈ n.frames, f.closes = false := by
  cases StreamBuffer.frameRun h with
  | endOfFile _ _ => exact .inl ⟨rfl, rfl⟩
  | flushesAll _ | closesAll _ | skips _ | closes _ | goesOn _ | shutsDown _ | flushes _
  | flushEnds _ | flushed _ => exact absurd hfr (by simp [Frame.closes])
  | eof _ _ _ =>
      refine .inr fun f hmem => ?_
      rcases List.mem_pair.mp hmem with rfl | rfl <;> rfl
  | reads _ | writes _ _ | finalizes _ =>
      refine .inr fun f hmem => ?_
      rw [List.mem_singleton.mp hmem]
      rfl
  | _ => exact .inr fun f hmem => absurd hmem List.not_mem_nil

/-- The answer of a filter outside `DoClose` pushes frames outside it. -/
theorem outside_of_answerFrame {b : StreamBuffer} {env : FilterEnv TcpState SysRet} {fr : Frame}
    {r : SysRet} {k k' : TcpState} {n : Next SysRet StreamBuffer}
    (h : b.answerFrame env r k fr = some (n, k')) (hfr : fr.closes = false) :
    ∀ f ∈ n.frames, f.closes = false := by
  intro f hmem
  cases hsends : fr.sends with
  | true =>
      cases fr with
      | write i =>
          obtain ⟨d, ds, res, -, -, -, ⟨e, -, -, hfs, -⟩ | ⟨_, _, drain, -, -, -, -, hfs⟩⟩ :=
            StreamBuffer.callOut_cases h
          · exact absurd hmem (by simp [hfs])
          · rw [hfs] at hmem
            split_ifs at hmem
            · rw [List.mem_singleton.mp hmem]
              rfl
            · exact absurd hmem List.not_mem_nil
      | flush i => exact absurd hfr (by simp [Frame.closes])
      | _ => exact absurd hsends (by simp [Frame.sends])
  | false =>
      rcases StreamBuffer.answerFrame_cases h hsends with ⟨e, x, rfl, -⟩ |
        ⟨i, res, rfl, -, rfl⟩ | ⟨i, res, rfl, -⟩ | ⟨res, rfl, -, rfl⟩
      · exact absurd hmem List.not_mem_nil
      · simp only [Next.after, StreamBuffer.afterIn] at hmem
        split_ifs at hmem
        · exact absurd hmem List.not_mem_nil
        · split at hmem
          · rcases List.mem_pair.mp hmem with rfl | rfl <;> rfl
          · exact absurd hmem List.not_mem_nil
      · exact absurd hfr (by simp [Frame.closes])
      · cases res with
        | success =>
            simp only [Next.after, StreamBuffer.afterConnect, List.mem_cons, List.not_mem_nil,
              or_false] at hmem
            obtain rfl | rfl | rfl := hmem <;> rfl
        | failed | pending => exact absurd hmem List.not_mem_nil

/-- Outside `DoClose`, it is entered from `HandleEvents` or from `DoFinalize`, and then
`should_close_` is set. -/
theorem open_step (h : step (tcpEnv pendingConnect) l s = some (s', o))
    (hopen : ∀ fr ∈ s.stack, fr.closes = false) :
    (∀ fr ∈ s'.stack, fr.closes = false) ∨ ∃ rest, s'.stack = .doClose :: rest ∧
      (∀ fr ∈ rest, fr.closes = false) ∧ s'.buffer.shouldClose = true := by
  obtain ⟨-, hmove⟩ := move_of_step h
  have htail : ∀ {fr rest}, s.stack = fr :: rest → ∀ f ∈ rest, f.closes = false :=
    fun hf f hmem => hopen f (by rw [hf]; exact List.mem_cons_of_mem _ hmem)
  -- frames pushed on an open stack
  have hpush : ∀ {fr rest} {n : Next SysRet StreamBuffer}, s.stack = fr :: rest →
      (∀ f ∈ n.frames, f.closes = false) → ∀ f ∈ (s.resume rest n).stack, f.closes = false :=
    fun hf hframes f hmem => (mem_resume hmem).elim (hframes f) (htail hf f)
  cases hmove with
  | aside ha => exact .inl (by rw [ha.stack]; exact hopen)
  | ret hf => exact .inl (htail hf)
  | added => exact .inl hopen
  | @enter alive n hnil hn =>
      obtain ⟨hbuffer, -, hthrew, hframes⟩ := StreamBuffer.handleEvents_cases hn
      rw [resume_of_threw_none hthrew, List.append_nil]
      by_cases hdead : n.frames = [.doClose, .doFinalize]
      · refine .inr ⟨[.doFinalize], hdead, by simp [Frame.closes], ?_⟩
        rcases hframes with ⟨-, hf⟩ | ⟨-, hclose, -⟩ | ⟨-, -, -, hf⟩ | ⟨-, -, -, hf⟩
        · exact absurd (hdead.symm.trans hf) (by simp)
        · exact (congrArg StreamBuffer.shouldClose hbuffer).trans hclose
        · exact absurd (hdead.symm.trans hf) (by simp)
        · exact absurd (hdead.symm.trans hf) (by simp)
      · refine .inl fun f hmem => ?_
        rcases hframes with ⟨-, hf⟩ | ⟨-, -, hf⟩ | ⟨-, -, -, hf⟩ | ⟨-, -, -, hf⟩
        · rw [hf] at hmem
          rw [List.mem_singleton.mp hmem]
          rfl
        · exact absurd hf hdead
        · rw [hf] at hmem
          rcases List.mem_pair.mp hmem with rfl | rfl <;> rfl
        · simp only [hf, List.mem_cons, List.not_mem_nil, or_false] at hmem
          obtain rfl | rfl | rfl := hmem <;> rfl
  | @run fr rest n hf hrun =>
      have hfr : fr.closes = false := hopen fr (by rw [hf]; exact List.mem_cons_self)
      rcases outside_of_runFrame hrun hfr with ⟨hframes, hclose⟩ | hframes
      · refine .inr ⟨.finalizeEOF :: rest, ?_, ?_, by rw [resume_buffer]; exact hclose⟩
        · rw [resume_of_threw_none (StreamBuffer.runFrame_threw hrun), hframes]
          rfl
        · intro f hmem
          rcases List.mem_cons.mp hmem with rfl | hmem
          · rfl
          · exact htail hf f hmem
      · exact .inl (hpush hf hframes)
  | @answer fr rest r n k hf hans =>
      have hfr : fr.closes = false := hopen fr (by rw [hf]; exact List.mem_cons_self)
      exact .inl (hpush (n := n) hf (outside_of_answerFrame hans hfr))

/-! ### The invariant of closing -/

/-- What the stack says about the bytes accepted before `should_close_`. -/
inductive FlushStack (tr : List (Obs SysRet)) (s : BufferState Socket) : Prop
  | isOpen : (∀ fr ∈ s.stack, fr.closes = false) → FlushStack tr s
  | closing (p : ClosePhase) (rest : List Frame) : s.stack = p.frames ++ rest →
      (∀ fr ∈ rest, fr.closes = false) → s.buffer.shouldClose = true →
      (p.swapped = true → (acceptedBefore tr).length ≤ taken tr s) →
      (p = .shutdown → StreamBuffer.flushDone s.tcp = true) → FlushStack tr s

/-- Where a run is in which no failure was reported. -/
structure FlushInv (tr : List (Obs SysRet)) (s : BufferState Socket) : Prop where
  eof : .callback .handleEOF ∈ tr →
    .shouldClose ∈ tr ∧ (acceptedBefore tr).length ≤ (sentBytes tr).length
  writeClosed : s.crashed = none → s.tcp.writeClosed = true →
    .shouldClose ∈ tr ∧ (acceptedBefore tr).length ≤ (sentBytes tr).length
  stack : s.crashed = none → FlushStack tr s

/-- Once `should_close_` is set, what has to be sent is fixed and what was taken grows. -/
theorem acceptedBefore_le_taken (hok : TcpOnly l s)
    (h : step (tcpEnv pendingConnect) l s = some (s', o)) (hi : StreamInv tr s)
    (hno : ∀ x ∈ o, x.reportsFailure = false) (hcr : s'.crashed = none)
    (hset : .shouldClose ∈ tr) (hle : (acceptedBefore tr).length ≤ taken tr s) :
    (acceptedBefore (tr ++ o)).length ≤ taken (tr ++ o) s' := by
  rw [acceptedBefore_append hset]
  rcases taken_step hok h hi with hc | ⟨x, hx, hrep⟩ | hgrow
  · exact absurd hcr hc
  · exact absurd hrep (by simp [hno x hx])
  · exact Nat.le_trans hle hgrow

theorem acceptedBefore_le_sent (hset : .shouldClose ∈ tr)
    (hle : (acceptedBefore tr).length ≤ (sentBytes tr).length) :
    .shouldClose ∈ tr ++ o ∧
      (acceptedBefore (tr ++ o)).length ≤ (sentBytes (tr ++ o)).length := by
  refine ⟨List.mem_append_left _ hset, ?_⟩
  rw [acceptedBefore_append hset]
  exact Nat.le_trans hle (sentBytes_le_append tr o)

/-- With nothing left in `pending_writes_`, everything accepted has been taken. -/
theorem taken_of_swapped (hrun : TcpRun pendingConnect (init mode addr k) tr s)
    (hno : ∀ x ∈ tr, x.reportsFailure = false) (hcr : s.crashed = none)
    (hpw : s.buffer.pendingWrites = []) : (acceptedBefore tr).length ≤ taken tr s := by
  have hintact : sendFailed tr = false := by
    by_contra hfail
    rcases reported_of_sendFailed hrun (eq_true_of_ne_false hfail) with hc | ⟨x, hx, hrep⟩
    · exact hc hcr
    · exact absurd hrep (by simp [hno x hx])
  have hcons := (Pipe.reachable_spec (pipe_of_run hrun)).conserved hintact
  have hlen := congrArg List.length hcons
  simp only [pipe, hpw, List.append_nil, List.length_append] at hlen
  have hpre := (acceptedBefore_isPrefix tr).length_le
  simp only [taken]
  omega

/-- **One step keeps the flush invariant.** The bytes that leave `pending_writes_` go to
`pending_out_` or onto the wire, and the filter is closed behind an empty `pending_out_`. -/
theorem flushInv_step (hrun : TcpRun pendingConnect (init mode addr k) tr s) (hok : TcpOnly l s)
    (h : step (tcpEnv pendingConnect) l s = some (s', o))
    (hno : ∀ x ∈ tr ++ o, x.reportsFailure = false) (hf : FlushInv tr s) :
    FlushInv (tr ++ o) s' := by
  have hi := streamInv_of_run hrun
  have hrun' := hrun.step hok h
  have hcrashed : s.crashed = none := (step_inv h).1
  have hno' : ∀ x ∈ o, x.reportsFailure = false := fun x hx => hno x (List.mem_append_right _ hx)
  have hclose := shouldClose_iff hrun
  have hclose' := shouldClose_iff hrun'
  refine ⟨?_, ?_, ?_⟩
  · -- `HandleEOF` is called with the filter closed
    intro hmem
    rcases List.mem_append.mp hmem with hmem | hmem
    · obtain ⟨hset, hle⟩ := hf.eof hmem
      exact acceptedBefore_le_sent hset hle
    · rcases eofCalled_step h with ⟨-, hnot⟩ | ⟨rest, -, -, hw, -⟩
      · exact absurd hmem hnot
      · rw [isWriteClosed_eq hi.length] at hw
        obtain ⟨hset, hle⟩ := hf.writeClosed hcrashed hw
        exact acceptedBefore_le_sent hset hle
  · -- `Shutdown` closes the filter with nothing left in `pending_out_`
    intro hcr hwc
    rcases writeClosed_step hok h hi hwc with hwc | ⟨x, hx, hrep⟩ | ⟨rest, hstack⟩
    · obtain ⟨hset, hle⟩ := hf.writeClosed hcrashed hwc
      exact acceptedBefore_le_sent hset hle
    · exact absurd hrep (by simp [hno' x hx])
    · cases hf.stack hcrashed with
      | isOpen hopen =>
          have := hopen (.shutdown 0) (by rw [hstack]; exact List.mem_cons_self)
          simp [Frame.closes] at this
      | closing p rest' hp _ hset hle hdone =>
          obtain rfl : p = .shutdown := by
            rw [hstack] at hp
            cases p <;> simp [ClosePhase.frames] at hp
            rfl
          by_cases hwc' : s.tcp.writeClosed = true
          · obtain ⟨hset, hle⟩ := hf.writeClosed hcrashed hwc'
            exact acceptedBefore_le_sent hset hle
          · have hnil : s.tcp.pendingOut = [] := by
              have := hdone rfl
              simpa [StreamBuffer.flushDone, hwc'] using this
            have hle' := hle rfl
            simp only [taken, hnil, viewBytes_nil, List.length_nil, Nat.add_zero] at hle'
            exact acceptedBefore_le_sent (hclose.mp hset) hle'
  · intro hcr
    cases hf.stack hcrashed with
    | isOpen hopen =>
        rcases open_step h hopen with hopen' | ⟨rest, hstack', hrest, hset⟩
        · exact .isOpen hopen'
        · exact .closing .doClose rest hstack' hrest hset (by simp [ClosePhase.swapped]) (by simp)
    | closing p rest hstack hrest hset hle hdone =>
        have hset' : s'.buffer.shouldClose = true := (flagsGrow_step h).shouldClose hset
        have hmem := hclose.mp hset
        have hgrow := fun hle => acceptedBefore_le_taken hok h hi hno' hcr hmem hle
        rcases closing_step (c := []) h hi hstack with ha | hc | ⟨p', hcs, hstack'⟩
        · refine .closing p rest (by rw [ha.stack]; exact hstack) hrest hset'
            (fun hp => hgrow (hle hp)) (fun hp => ?_)
          rw [ha.tcp]
          exact hdone hp
        · exact absurd hcr hc
        · cases p' with
          | none => exact .isOpen (by rw [hstack']; exact hrest)
          | some q =>
              have hwcle : s.tcp.writeClosed = true →
                  (acceptedBefore (tr ++ o)).length ≤ taken (tr ++ o) s' := fun hwc => by
                have hw := (hf.writeClosed hcrashed hwc).2
                exact hgrow (Nat.le_trans hw (Nat.le_add_right _ _))
              refine .closing q rest hstack' hrest hset' (fun hq => ?_) (fun hq => ?_)
              · cases hcs with
                | doClose => simp [ClosePhase.swapped] at hq
                | noFlush hwc => exact hwcle hwc
                | write => exact hgrow (hle rfl)
                | swap _ hpw =>
                    rcases hpw with ⟨hwc, -⟩ | hpw
                    · exact hwcle hwc
                    · exact taken_of_swapped hrun' hno hcr hpw
                | _ => exact hgrow (hle rfl)
              · subst hq
                cases hcs with
                | swap hq => rcases hq with hq | hq <;> exact absurd hq (by simp)
                | write hq => rcases hq with hq | hq <;> exact absurd hq (by simp)
                | nothingToFlush hfd htcp => exact (by rw [htcp]; exact hfd)
                | flushedAll hfd htcp => exact (by rw [htcp]; exact hfd)

/-- The invariant holds in every run in which no failure was reported. -/
theorem flushInv_of_run (h : TcpRun pendingConnect (init mode addr k) tr s) :
    (∀ x ∈ tr, x.reportsFailure = false) → FlushInv tr s := by
  refine h.invariant (I := fun tr s => (∀ x ∈ tr, x.reportsFailure = false) → FlushInv tr s) ?_ ?_
  · intro _
    refine ⟨by simp, ?_, ?_⟩
    · intro _ hwc
      simp [init, StreamBuffer.create_eq, tcp, StreamBuffer.filter, Filter.new] at hwc
    · exact fun _ => .isOpen (by simp [init])
  · intro tr s l s' o hrun ih hok hs hno
    exact flushInv_step hrun hok hs hno (ih fun x hx => hno x (List.mem_append_left _ hx))

/-- **Closing flushes, and is delayed by unsent data alone**: when `HandleEOF` has been
called and no failure was reported, what was accepted before `should_close_` was set has
been sent; and every call that finds `should_close_` set returns with `HandleEOF` delivered
or blocked on the head of `pending_out_`. -/
theorem close_flushes (h : TcpRun pendingConnect (init mode addr k) tr s) :
    (.callback .handleEOF ∈ tr → (∀ x ∈ tr, x.reportsFailure = false) →
      acceptedBefore tr <+: sentBytes tr) ∧
    (∀ c s', TcpCall pendingConnect true s c s' → s'.stack = [] → s'.crashed = none →
      s.buffer.shouldClose = true →
      .callback .handleEOF ∈ tr ++ c ∨ s'.tcp.pendingOut ≠ [] ∧ LastBlocked c s') := by
  refine ⟨fun heof hno => ?_, fun c s' hcall hstack hcr hclose => ?_⟩
  · have hle := ((flushInv_of_run h hno).eof heof).2
    exact List.prefix_of_prefix_length_le (acceptedBefore_isPrefix tr)
      (Pipe.reachable_spec (pipe_of_run h)).inOrder hle
  · exact delayed_only_by_unsent h hcall ⟨hstack, hcr⟩ hclose

/-- Two bytes are left over by a partial write when the user closes the buffer; the call
that follows sends them and delivers the end of file. -/
def closeAfterPartialWrite : List (BufferLabel SysRet) :=
  partialWrite ++ [.close (.user 0), .notify (.user 0), .handleEvents true, .run, .run, .run, .run,
    .answer (.send (.ok 2)), .run, .run, .answer .none, .run, .run, .run, .run, .ret, .run]

/-- After the schedule above the two bytes have been sent and the end of file is delivered. -/
theorem close_flushes_partialWrite :
    acceptedBefore (after closeAfterPartialWrite).2 = [1, 2, 3] ∧
      acceptedBefore (after closeAfterPartialWrite).2 <+:
        sentBytes (after closeAfterPartialWrite).2 := by
  have hrun : TcpRun true fresh (after closeAfterPartialWrite).2 (after closeAfterPartialWrite).1 :=
    TcpRun.of_exec closeAfterPartialWrite rfl
  refine ⟨rfl, (close_flushes hrun).1 ((eofCalled_iff hrun).mp rfl) fun x hx => ?_⟩
  have hnone : (after closeAfterPartialWrite).2.all (fun x => !x.reportsFailure) = true := rfl
  simpa using List.all_eq_true.mp hnone x hx

end BufferState

end Libael
