import Libael.StreamBuffer.Chain
import Libael.Tcp.Filter

/-!
# Libael.StreamBuffer.Teardown

**From the top down.** `DoClose` starts at the last filter and goes on to the one below only
when both flags of the filter are set. So a filter is closed, and `Shutdown` called on it, only
below closed filters.

Data goes through connected filters only, with one exception: `DoClose` flushes
`pending_writes_` without asking `IsConnected`, and may hand them to a filter that is still
connecting.

* The order is in the stages of the call already (`Libael.StreamBuffer.Chain`): each stage of
  the loop of `DoClose` knows the filters above as closed. `ShutDownInv` carries this over to
  the trace.
* `NoEarlyFlush` is the condition for the exception, on the state before the step. While it is
  met `SendsConnected` is kept: a frame that calls `Out` is there for a connected filter.
-/

namespace Libael

open Lts

namespace BufferState

variable {κ ρ : Type} {env : FilterEnv κ ρ} {l : BufferLabel ρ} {s s' : BufferState κ}
  {o tr : List (Obs ρ)} {ok : BufferLabel ρ → BufferState κ → Prop} {mode : StreamBufferMode}
  {addr : Nat} {k : κ}

open StreamBuffer (Stage Touched Chain Answered)

/-! ### Closing -/

/-- `Shutdown` has returned complete on the `i`-th filter. -/
def ShutDown (tr : List (Obs ρ)) (i : Nat) : Prop := .shutdown i (.ok ⟨true⟩) ∈ tr

/-- The frames of `StreamBufferFilter::Close` on the `i`-th filter. -/
def closes (i : Nat) (fr : Frame) : Prop :=
  fr = .close i ∨ fr = .flush i ∨ fr = .flushed i ∨ fr = .shutdown i

/-- A filter that has been shut down is closed, and nobody is closing it. -/
def ShutDownInv (tr : List (Obs ρ)) (s : BufferState κ) : Prop :=
  ∀ i, ShutDown tr i → (s.buffer.filter i).closed = true ∧ ∀ fr ∈ s.stack, ¬ closes i fr

theorem closed_mono (h : step env l s = some (s', o)) {i : Nat}
    (hc : (s.buffer.filter i).closed = true) : (s'.buffer.filter i).closed = true := by
  have hgrow := flagsGrow_step h
  simp only [Filter.closed, Bool.and_eq_true] at hc ⊢
  exact ⟨hgrow.readClosed i hc.1, hgrow.writeClosed i hc.2⟩

/-- A filter is closed by a call that was closing it, or one that finds it open. -/
theorem closes_of_runFrame {b : StreamBuffer} {fr fr' : Frame} {n : Next ρ StreamBuffer} {i : Nat}
    (hrun : b.runFrame fr = some n) (hmem : fr' ∈ n.frames) (hc : closes i fr') :
    closes i fr ∨ (b.filter i).closed = false := by
  cases StreamBuffer.frameRun hrun with
  | @closes k hopen =>
      rcases List.mem_pair.mp hmem with rfl | rfl
      · have hi : k = i := by simpa [closes] using hc
        exact .inr (hi ▸ hopen)
      · exact absurd hc (by simp [closes])
  | shutsDown _ | flushes _ | flushEnds _ | flushed _ =>
      rw [List.mem_singleton.mp hmem] at hc
      exact .inl (by simpa [closes] using hc)
  | flushesAll _ | endOfFile _ _ | eof _ _ _ =>
      rcases List.mem_pair.mp hmem with rfl | rfl <;> exact absurd hc (by simp [closes])
  | reads _ | writes _ _ | closesAll _ | skips _ | goesOn _ | finalizes _ =>
      rw [List.mem_singleton.mp hmem] at hc
      exact absurd hc (by simp [closes])
  | _ => exact absurd hmem List.not_mem_nil

/-- The same for an answer. -/
theorem closes_of_answerFrame {b : StreamBuffer} {fr fr' : Frame} {n : Next ρ StreamBuffer}
    {r : ρ} {k k' : κ} {i : Nat} (hans : b.answerFrame env r k fr = some (n, k'))
    (hmem : fr' ∈ n.frames) (hc : closes i fr') : closes i fr := by
  cases hfr : fr.sends with
  | true =>
      have hout : ∀ {m again after}, b.callOut env m r k again after = some (n, k') →
          fr' ∈ again ∨ fr' ∈ after := by
        intro m again after hcall
        obtain ⟨d, ds, res, -, -, -, ⟨e, -, -, hf, -⟩ | ⟨_, _, drain, -, -, -, -, hf⟩⟩ :=
          StreamBuffer.callOut_cases hcall
        · simp [hf] at hmem
        · rw [hf] at hmem
          split_ifs at hmem
          · exact .inl hmem
          · exact .inr hmem
      cases fr with
      | write m =>
          rcases hout hans with hf | hf
          · rw [List.mem_singleton.mp hf] at hc
            exact absurd hc (by simp [closes])
          · exact absurd hf List.not_mem_nil
      | flush m =>
          rcases hout hans with hf | hf <;> rw [List.mem_singleton.mp hf] at hc <;>
            simpa [closes] using hc
      | _ => simp [Frame.sends] at hfr
  | false =>
      exfalso
      rcases StreamBuffer.answerFrame_cases hans hfr with ⟨e, x, rfl, -⟩ | ⟨m, res, rfl, -, rfl⟩ |
        ⟨m, res, rfl, -, rfl⟩ | ⟨res, rfl, -, rfl⟩
      · simp at hmem
      · simp only [Next.after, StreamBuffer.afterIn] at hmem
        split at hmem
        · simp at hmem
        · split at hmem
          · rcases List.mem_pair.mp hmem with rfl | rfl <;> simp [closes] at hc
          · simp at hmem
      · simp only [Next.after, StreamBuffer.afterShutdown] at hmem
        split at hmem <;> simp at hmem
      · cases res with
        | failed => simp [Next.after, StreamBuffer.afterConnect] at hmem
        | pending => simp [Next.after, StreamBuffer.afterConnect] at hmem
        | success =>
            simp only [Next.after, StreamBuffer.afterConnect, List.mem_cons, List.not_mem_nil,
              or_false] at hmem
            rcases hmem with rfl | rfl | rfl <;> simp [closes] at hc

/-- A frame of `Close` was there before, or belongs to a filter that was open. -/
theorem closes_of_step (h : step env l s = some (s', o)) {fr : Frame} {i : Nat}
    (hmem : fr ∈ s'.stack) (hc : closes i fr) :
    (∃ fr' ∈ s.stack, closes i fr') ∨ (s.buffer.filter i).closed = false := by
  obtain ⟨-, hmove⟩ := move_of_step h
  cases hmove with
  | aside ha => exact .inl ⟨fr, by rw [← ha.stack]; exact hmem, hc⟩
  | ret hstack => exact .inl ⟨fr, by rw [hstack]; exact List.mem_cons_of_mem _ hmem, hc⟩
  | added => exact .inl ⟨fr, hmem, hc⟩
  | enter hstack hn =>
      exfalso
      have hthrew := (StreamBuffer.handleEvents_cases hn).2.2.1
      rw [resume_of_threw_none hthrew, List.append_nil] at hmem
      rcases StreamBuffer.mem_handleEvents hn hmem with rfl | rfl | rfl | rfl | rfl | ⟨rfl, -⟩ <;>
        simp [closes] at hc
  | run hstack hrun =>
      rcases mem_resume hmem with hf | hf
      · refine (closes_of_runFrame hrun hf hc).imp (fun hc' => ⟨_, ?_, hc'⟩) id
        rw [hstack]
        exact List.mem_cons_self
      · exact .inl ⟨fr, by rw [hstack]; exact List.mem_cons_of_mem _ hf, hc⟩
  | @answer f rest r n k hstack hans =>
      rcases mem_resume (n := n) hmem with hf | hf
      · refine .inl ⟨f, ?_, closes_of_answerFrame hans hf hc⟩
        rw [hstack]
        exact List.mem_cons_self
      · exact .inl ⟨fr, by rw [hstack]; exact List.mem_cons_of_mem _ hf, hc⟩

/-- What a step does that calls `Shutdown`. -/
theorem shutdown_of_step (h : step env l s = some (s', o)) {i : Nat}
    {res : Except Exception ShutdownResult} (hmem : .shutdown i res ∈ o) :
    o = [.shutdown i res] ∧ ∃ rest, s.stack = .shutdown i :: rest ∧
      (res = .ok ⟨true⟩ → s'.stack = rest ∧ s'.buffer =
        s.buffer.setFilter i
          { s.buffer.filter i with writeClosed := true, readClosed := true }) := by
  obtain ⟨fr, rest, hstack, hans⟩ := answered_of_step h rfl hmem
  obtain ⟨-, hmove⟩ := move_of_step h
  cases hans with
  | shutdown =>
      cases hmove with
      | aside ha => exact absurd (ha.obs _ hmem) (by simp [Obs.aside])
      | ret => exact absurd hmem (by simp)
      | added => exact absurd hmem (by simp)
      | enter hnil hn => rw [hnil] at hstack; exact absurd hstack (by simp)
      | run hf hrun =>
          obtain ⟨rfl, rfl⟩ := List.cons.inj (hf.symm.trans hstack)
          exact absurd hrun (by simp [StreamBuffer.runFrame])
      | @answer f rest' r n k hf hans =>
          obtain ⟨rfl, rfl⟩ := List.cons.inj (hf.symm.trans hstack)
          rcases StreamBuffer.answerFrame_cases hans rfl with ⟨e, x, rfl, hx⟩ | ⟨m, res', hfr, -⟩ |
            ⟨m, res', hfr, -, rfl⟩ | ⟨res', hfr, -⟩
          · obtain rfl := List.mem_singleton.mp hmem
            refine ⟨rfl, rest', hstack, ?_⟩
            rintro rfl
            rcases hx with ⟨m, hfr, -⟩ | ⟨m, -, hx, -⟩ | ⟨hfr, -⟩
            · exact absurd hfr (by simp)
            · exact absurd hx (by simp)
            · exact absurd hfr (by simp)
          · exact absurd hfr (by simp)
          · obtain rfl : i = m := by simpa using hfr
            have hobs : ((s.buffer.afterShutdown i res').after (.shutdown i (.ok res')) :
                Next ρ StreamBuffer).obs = [.shutdown i (.ok res')] := by
              simp only [Next.after, StreamBuffer.afterShutdown]
              split_ifs <;> rfl
            rw [hobs] at hmem ⊢
            obtain rfl : res = .ok res' := by simpa using hmem
            refine ⟨rfl, rest', hstack, ?_⟩
            rintro hres
            obtain rfl : res' = ⟨true⟩ := by simpa using hres
            exact ⟨rfl, rfl⟩
          · exact absurd hfr (by simp)

/-- A filter is closed, and left alone, once `Shutdown` has returned complete on it. -/
theorem shutDown_step (h : step env l s = some (s', o)) (hs : Stage s.buffer s.stack) {i : Nat}
    (hdown : ShutDown o i) :
    (s'.buffer.filter i).closed = true ∧ ∀ fr ∈ s'.stack, ¬ closes i fr := by
  obtain ⟨-, rest, hstack, hres⟩ := shutdown_of_step h hdown
  obtain ⟨hrest, hb⟩ := hres rfl
  rw [hstack] at hs
  cases hs with
  | shutdown he hcl hk hd =>
      refine ⟨?_, fun fr hmem hc => ?_⟩
      · rw [hb, StreamBuffer.filter_setFilter, if_pos ⟨rfl, hk.le⟩]
        rfl
      · rw [hrest] at hmem
        rcases List.mem_pair.mp hmem with rfl | rfl
        · exact absurd hc (by simp [closes])
        · rcases hc with rfl | rfl | rfl | rfl <;> simp [Frame.finalizes] at he

/-- **One step keeps the order of the closing.** `Shutdown` is called from a stage whose filters
above are closed, and a closed filter stays so. -/
theorem shutDownInv_step (h : step env l s = some (s', o)) (hs : Stage s.buffer s.stack)
    (hi : ShutDownInv tr s) : ShutDownInv (tr ++ o) s' := by
  intro i hdown
  rcases List.mem_append.mp hdown with hold | hnew
  · obtain ⟨hclosed, hquiet⟩ := hi i hold
    refine ⟨closed_mono h hclosed, fun fr hmem hc => ?_⟩
    rcases closes_of_step h hmem hc with ⟨fr', hmem', hc'⟩ | hopen
    · exact hquiet fr' hmem' hc'
    · exact absurd hclosed (by simp [hopen])
  · exact shutDown_step h hs hnew

theorem shutDownInv_of_run (h : GuardedRun (bufferSystem env) ok (init mode addr k) tr s) :
    ShutDownInv tr s := by
  refine h.invariant ?_ fun hrun hi _ hs =>
    shutDownInv_step hs ((chainInv_of_run hrun).stage (step_inv hs).1) hi
  intro i hdown
  exact absurd hdown (by simp [ShutDown])

/-- **Top-down teardown.** A filter with a closed flag has only closed filters above it.
`Shutdown` is called on a filter below closed filters, with nothing left to flush through it
or no way to, and never again once it has returned complete. No flag is ever cleared. -/
theorem teardown_topDown (h : Run (bufferSystem env) (init mode addr k) tr s) :
    (∀ i j, i < j → j < s.buffer.streamFilters.length →
      (s.buffer.filter i).readClosed = true ∨ (s.buffer.filter i).writeClosed = true →
      (s.buffer.filter j).readClosed = true ∧ (s.buffer.filter j).writeClosed = true) ∧
    tr.Pairwise (fun x y => ∀ i, x = .shutdown i (.ok ⟨true⟩) → ∀ res, y ≠ .shutdown i res) ∧
    (∀ l s' o, step env l s = some (s', o) →
      (∀ i res, .shutdown i res ∈ o →
        (∀ j, i < j → j < s.buffer.streamFilters.length →
          (s.buffer.filter j).readClosed = true ∧ (s.buffer.filter j).writeClosed = true) ∧
        ((s.buffer.filter i).pendingOut = [] ∨ (s.buffer.filter i).writeClosed = true)) ∧
      (∀ i, ((s.buffer.filter i).readClosed = true → (s'.buffer.filter i).readClosed = true) ∧
        ((s.buffer.filter i).writeClosed = true → (s'.buffer.filter i).writeClosed = true))) := by
  have hclosed : ∀ {f : Filter}, f.closed = true ↔ f.readClosed = true ∧ f.writeClosed = true :=
    fun {f} => by simp [Filter.closed]
  have hinv := chainInv_of_run h
  refine ⟨fun i j hij hj hflag => hclosed.mp (hinv.chain.topDown i j hij hj hflag), ?_, ?_⟩
  · refine h.pairwise fun {tr s l s' o} hrun _ hs => ⟨?_, ?_⟩
    · by_cases hdown : ∃ i res, .shutdown i res ∈ o
      · obtain ⟨i, res, hmem⟩ := hdown
        rw [(shutdown_of_step hs hmem).1]
        exact List.pairwise_singleton _ _
      · refine List.Pairwise.imp_of_mem (fun {x y} hx _ _ i hxi => ?_) (List.pairwise_of_forall
          (R := fun _ _ => True) fun _ _ => trivial)
        exact absurd ⟨i, _, hxi ▸ hx⟩ hdown
    · intro x hx y hy i hxi res hyi
      subst hxi hyi
      obtain ⟨fr, rest, hstack, hans⟩ := answered_of_step hs rfl hy
      cases hans with
      | shutdown =>
          refine (shutDownInv_of_run hrun i hx).2 (.shutdown i) ?_ (by simp [closes])
          rw [hstack]
          exact List.mem_cons_self
  · intro l s' o hs
    have hgrow := flagsGrow_step hs
    refine ⟨fun i res hmem => ?_, fun i => ⟨hgrow.readClosed i, hgrow.writeClosed i⟩⟩
    obtain ⟨fr, rest, hstack, hans⟩ := answered_of_step hs rfl hmem
    cases hans with
    | shutdown =>
        have hstage := hinv.stage (step_inv hs).1
        rw [hstack] at hstage
        cases hstage with
        | shutdown he hcl hk hd =>
            refine ⟨fun j hij hj => hclosed.mp (hk.closed j hij hj), ?_⟩
            simpa [StreamBuffer.flushDone] using hd

/-- The two filters of the schedule, both closed at its end. -/
theorem teardown_topDown_twoFilters :
    ∃ tr s, Run (bufferSystem readyEnv) (init .client 0 ()) tr s ∧
      s.buffer.streamFilters.length = 2 ∧ (s.buffer.filter 0).closed = true ∧
      (s.buffer.filter 1).readClosed = true ∧ (s.buffer.filter 1).writeClosed = true := by
  have hexec : exec (bufferSystem readyEnv) (fun _ _ => true) twoFilters (init .client 0 ()) =
      some (_, _) := rfl
  have hrun : Run (bufferSystem readyEnv) (init .client 0 ()) _ _ :=
    .of_exec (fun _ _ _ => trivial) hexec
  exact ⟨_, _, hrun, rfl, rfl, (teardown_topDown hrun).1 0 1 (by decide) (by decide) (.inl rfl)⟩

/-! ### Data and connecting -/

/-- `DoWrite` hands data to a connected filter, or none at all. -/
def NoEarlyFlush (l : BufferLabel ρ) (s : BufferState κ) : Prop :=
  l = .run → (∃ rest, s.stack = .doWrite :: rest) → s.buffer.back.writeClosed = false →
    s.buffer.pendingWrites ≠ [] → s.buffer.isConnected = true

/-- Only a connected filter has something to send. -/
def SendsConnected (s : BufferState κ) : Prop :=
  ∀ i, (s.buffer.filter i).pendingOut ≠ [] → (s.buffer.filter i).connected = true

/-- **One step keeps `Out` on connected filters.** It is called from `DoWrite`, behind the guard
or under the condition, and from the flush of a filter that has data. -/
theorem sendsConnected_step (hok : NoEarlyFlush l s) (h : step env l s = some (s', o))
    (hne : s.buffer.streamFilters ≠ []) (hi : SendsConnected s) : SendsConnected s' := by
  intro j hpend
  refine (flagsGrow_step h).connected j ?_
  rcases filters_step h with hsame | ⟨fr, rest, i, f, hstack, hrun, ht, hset⟩ | ⟨hcb, addr, hadd⟩
  · exact hi j (by simpa only [StreamBuffer.filter, hsame] using hpend)
  · have hfilter : s'.buffer.filter j = (s.buffer.setFilter i f).filter j := by
      simp only [StreamBuffer.filter, hset]
    rw [hfilter, StreamBuffer.filter_setFilter] at hpend
    split at hpend
    case isFalse => exact hi j hpend
    case isTrue hij =>
        obtain ⟨rfl, -⟩ := hij
        by_contra hconn
        have hempty : (s.buffer.filter i).pendingOut = [] := by
          by_contra hne
          exact hconn (hi i hne)
        -- only `DoWrite` can have given it something
        cases ht with
        | swapped hopen =>
            refine hconn (hok (hrun rfl) ⟨rest, hstack⟩ hopen fun hnil => hpend ?_)
            change s.buffer.back.pendingOut ++ s.buffer.pendingWrites = []
            rw [hnil, List.append_nil]
            exact hempty
        | threw hfr hp => rw [hp] at hempty; exact absurd hempty (by simp)
        | out hfr hp => rw [hp] at hempty; exact absurd hempty (by simp)
        | _ => exact hpend hempty
  · rw [StreamBuffer.pendingOut_added hne hadd] at hpend
    exact hi j hpend

theorem sendsConnected_of_run
    (h : GuardedRun (bufferSystem env) NoEarlyFlush (init mode addr k) tr s) :
    SendsConnected s := by
  refine h.invariant (I := fun _ s => SendsConnected s) ?_ fun hrun hi hok hs =>
    sendsConnected_step hok hs (openInv_of_run hrun).nonempty hi
  intro i hpend
  refine absurd ?_ hpend
  cases i <;> rfl

/-- **Data goes through connected filters**, in every run in which `DoWrite` never finds
something in `pending_writes_` for a filter that is open for writing and not connected:
`Out` and `In` are called only on filters whose `Connect` or `Accept` has returned success.
The first `DoWrite` that does puts the loop thread in the `Out` loop of such a filter, with
something to send. -/
theorem data_through_connected
    (h : GuardedRun (bufferSystem env) NoEarlyFlush (init mode addr k) tr s) :
    (∀ l s' o, step env l s = some (s', o) →
      (∀ i d r res, .out i d r res ∈ o →
        (s.buffer.filter i).connected = true ∧ i ∈ connects tr) ∧
      (∀ i r res, .in i r res ∈ o →
        (s.buffer.filter i).connected = true ∧ i ∈ connects tr)) ∧
    (∀ l s' o, step env l s = some (s', o) → ¬ NoEarlyFlush l s →
      ∃ rest, s'.stack = .write s'.buffer.backIndex :: rest ∧
        s'.buffer.back.connected = false ∧ s'.buffer.back.pendingOut ≠ []) := by
  have hconn := connectInv_of_run h
  refine ⟨fun l s' o hs => ⟨fun i d r res hmem => ?_, fun i r res hmem => ?_⟩, ?_⟩
  · obtain ⟨fr, rest, hstack, hans⟩ := answered_of_step hs rfl hmem
    cases hans with
    | out hfr hpend =>
        have hc := sendsConnected_of_run h i (by rw [hpend]; exact List.cons_ne_nil _ _)
        exact ⟨hc, (hconn.iff i).mpr hc⟩
  · obtain ⟨fr, rest, hstack, hans⟩ := answered_of_step hs rfl hmem
    cases hans with
    | «in» =>
        have hstage := (chainInv_of_run h).stage (step_inv hs).1
        rw [hstack] at hstage
        cases hstage with
        | read hi hc =>
            subst hi
            exact ⟨hc, (hconn.iff _).mpr hc⟩
  · intro l s' o hs hviol
    simp only [NoEarlyFlush, not_forall] at hviol
    obtain ⟨rfl, ⟨rest, hstack⟩, hopen, hpend, hcon⟩ := hviol
    obtain ⟨-, hstep⟩ := step_inv hs
    cases hstep with
    | @run f rest' n hf hrun =>
        obtain ⟨rfl, rfl⟩ := List.cons.inj (hf.symm.trans hstack)
        rw [resume_of_threw_none (StreamBuffer.runFrame_threw hrun)]
        have hne := (openInv_of_run h).nonempty
        rcases StreamBuffer.doWrite_cases s.buffer n (Option.some.inj hrun).symm with
          ⟨hwc, -⟩ | ⟨-, -, -, hframes, hb⟩
        · exact absurd hwc (by simp [hopen])
        · have hback : n.buffer.back =
              { s.buffer.back with pendingOut := s.buffer.back.pendingOut ++
                s.buffer.pendingWrites } := by
            rw [hb]
            exact StreamBuffer.back_setFilter hne _
          refine ⟨rest', ?_, ?_, ?_⟩
          · rw [hframes, if_neg (by simpa using hpend)]
            simp only [hb, StreamBuffer.backIndex, StreamBuffer.length_setFilter]
            rfl
          · rw [hback]
            simpa [StreamBuffer.isConnected] using hcon
          · rw [hback]
            simpa using fun _ => hpend

/-- `HandleConnected` has been called, and the user writes. -/
def writtenConnected : List (BufferLabel SysRet) :=
  [.handleEvents true, .answer .none, .write .loop (.ofString [1]), .push .loop,
    .notify .loop, .ret,
    .run, .run, .run, .run, .handleEvents true, .run, .answer (.recv (.error .EAGAIN)), .run]

/-- An accepted connection. -/
def acceptedSocket : BufferState Socket := init .server 0 ⟨false, true, none⟩

/-- A server writes on its accepted socket, and nothing goes through an unconnected filter. -/
theorem data_through_connected_writtenConnected :
    ∃ tr s, GuardedRun (bufferSystem (tcpEnv true)) NoEarlyFlush acceptedSocket tr s ∧
      ∀ l s' o, step (tcpEnv true) l s = some (s', o) → ∀ i d r res, .out i d r res ∈ o →
        (s.buffer.filter i).connected = true := by
  have hcheck : ∀ (l : BufferLabel SysRet) (s : BufferState Socket),
      (s.buffer.isConnected || !s.stack.contains .doWrite) = true → NoEarlyFlush l s := by
    intro l s hs _ hstack _ _
    obtain ⟨rest, hstack⟩ := hstack
    simpa [hstack] using hs
  have hexec : exec (bufferSystem (tcpEnv true))
      (fun _ s => s.buffer.isConnected || !s.stack.contains .doWrite) writtenConnected
        acceptedSocket = some (_, _) := rfl
  have hrun := GuardedRun.of_exec hcheck hexec
  refine ⟨_, _, hrun, fun l s' o hs i d r res hmem => ?_⟩
  exact (((data_through_connected hrun).1 l s' o hs).1 i d r res hmem).1

/-- The user writes and closes before the first `HandleEvents`. -/
def closedEarly : List (BufferLabel SysRet) :=
  [.write (.user 0) (.ofString [1]), .push (.user 0), .notify (.user 0), .close (.user 0),
    .notify (.user 0), .handleEvents true, .run, .run]

/-- The flush of `DoClose` sends through the filter, though `Accept` has not been called. -/
theorem data_before_connected :
    ∃ tr s s' o, Run (bufferSystem (tcpEnv true)) acceptedSocket tr s ∧
      step (tcpEnv true) (.answer (.send (.ok 1))) s = some (s', o) ∧
      (∃ d res, .out 0 d (.send (.ok 1)) res ∈ o) ∧
      (s.buffer.filter 0).connected = false ∧ connects tr = [] := by
  have hexec : exec (bufferSystem (tcpEnv true)) (fun _ _ => true) closedEarly acceptedSocket =
      some (_, _) := rfl
  exact ⟨_, _, _, _, .of_exec (fun _ _ _ => trivial) hexec, rfl,
    ⟨_, _, List.mem_singleton.mpr rfl⟩, rfl, rfl⟩

end BufferState

end Libael
