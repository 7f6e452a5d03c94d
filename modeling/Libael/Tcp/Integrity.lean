import Libael.Tcp.Stream

/-!
# Libael.Tcp.Integrity

**Output byte-stream integrity.** A run of a stream buffer over the TCP filter is a run of a
pipe: every byte of every accepted `Write` goes out once and in order, or sits in `pending_out_`
or `pending_writes_`, until a `send` fails for good, and after that no byte goes out any more.

* `pipe` is the abstraction of a state. Its input is what `Write` has accepted, its output what
  `send` has taken, and its content the two lists of the buffer.
* `StreamInv` is what the simulation needs to know of the state: an `Out` loop is the innermost
  frame, so its view is still at the head of `pending_out_` when the answer comes.
* The step of the pipe that a step of the buffer stands for is read off the observations.
-/

namespace Libael

open Lts

namespace BufferState

/-- The invariant behind the stream: there is one filter, the views to be sent are not
empty, an `Out` loop is the innermost frame, and after a `send` that failed for good
nobody calls `send` again. -/
structure StreamInv (tr : List (Obs SysRet)) (s : BufferState Socket) : Prop where
  length : s.buffer.streamFilters.length = 1
  pendingOut : ∀ d ∈ s.tcp.pendingOut, 0 < d.dataLength
  pendingWrites : ∀ d ∈ s.buffer.pendingWrites, 0 < d.dataLength
  writing : ∀ {a d saved}, s.calls a = .writing d saved →
    0 < saved.dataLength ∧ saved.bytes = d.bytes
  onTop : SendsOnTop s
  failed : sendFailed tr = true →
    s.crashed ≠ none ∨ s.tcp.writeClosed = true ∧ ∀ fr ∈ s.stack, fr.sends = false

variable {pendingConnect : Bool} {l : BufferLabel SysRet} {s s' : BufferState Socket}
  {tr o : List (Obs SysRet)} {mode : StreamBufferMode} {addr : Nat} {k : Socket}

theorem streamInv_init : StreamInv [] (init mode addr k) where
  length := by simp [init, StreamBuffer.create_eq]
  pendingOut := by simp [init, StreamBuffer.create_eq, tcp, StreamBuffer.filter, Filter.new]
  pendingWrites := by simp [init, StreamBuffer.create_eq]
  writing := by simp [init]
  onTop := by simp [init, SendsOnTop]
  failed := by simp [sendFailed]

/-! ### Preservation -/

/-- Once the filter is closed for writing, no loop that calls `Out` is entered again: `DoWrite`
and `Close` both look at the flag first. -/
theorem noSends_step (h : step (tcpEnv pendingConnect) l s = some (s', o))
    (hlen : s.buffer.streamFilters.length = 1) (hwc : s.tcp.writeClosed = true)
    (hno : ∀ fr ∈ s.stack, fr.sends = false) : ∀ fr ∈ s'.stack, fr.sends = false := by
  have hback : s.buffer.back = s.tcp := by
    simp [StreamBuffer.back, tcp, StreamBuffer.backIndex, hlen]
  -- a frame pushed by a step on `s` sends only if the filter is open, or if it did before
  have hresume : ∀ {fr rest} {n : Next SysRet StreamBuffer}, s.stack = fr :: rest →
      (∀ fr' ∈ n.frames, fr'.sends = false) →
      ∀ fr' ∈ (s.resume rest n).stack, fr'.sends = false :=
    fun hstack hframes fr' hmem => (mem_resume hmem).elim (hframes fr') fun hrest =>
      hno fr' (by rw [hstack]; exact List.mem_cons_of_mem _ hrest)
  obtain ⟨-, hstep⟩ := step_inv h
  cases hstep with
  | handleEvents hstack hidle hn =>
      intro fr hfr
      have hthrew := (StreamBuffer.handleEvents_cases hn).2.2.1
      rw [resume_of_threw_none hthrew, List.append_nil] at hfr
      exact StreamBuffer.handleEvents_sends hn hfr
  | run hstack hrun =>
      refine hresume hstack fun fr' hmem => ?_
      by_contra hsends
      have henter := (StreamBuffer.runFrame_sends hrun hmem (by simpa using hsends)).2
      rcases henter with ⟨-, -, hopen⟩ | ⟨i, -, -, hflush⟩
      · rw [hback, hwc] at hopen
        exact absurd hopen (by simp)
      · have hi : i < s.buffer.streamFilters.length := by
          refine StreamBuffer.lt_length_of_pendingOut fun hnil => ?_
          simp [StreamBuffer.flushDone, hnil] at hflush
        obtain rfl : i = 0 := by omega
        change StreamBuffer.flushDone s.tcp = false at hflush
        simp [StreamBuffer.flushDone, hwc] at hflush
  | @answer fr rest r n k hstack hans =>
      refine hresume hstack fun fr' hmem => ?_
      by_contra hsends
      obtain ⟨-, rfl⟩ := StreamBuffer.answerFrame_sends hans hmem (by simpa using hsends)
      exact hsends (hno fr' (by rw [hstack]; exact List.mem_cons_self))
  | @ret c rest hstack hidle =>
      exact fun fr hfr => hno fr (by rw [hstack]; exact List.mem_cons_of_mem _ hfr)
  | write =>
      unfold write
      split_ifs
      · exact hno
      · exact hno
      · split <;> exact hno
  | _ => exact hno

/-- The views an `Out` loop leaves behind are not empty. -/
theorem afterOut_pendingOut {f : Filter} {d : DataView} {ds : List DataView}
    {ret : Except Errno Nat} {res : OutResult × Option DataView}
    (hpos : ∀ d' ∈ d :: ds, 0 < d'.dataLength)
    (hret : TCPStreamBufferFilter.SendContract d.dataLength ret)
    (hout : TCPStreamBufferFilter.out ret d = .ok res) :
    ∀ d' ∈ (f.afterOut ds res).1.pendingOut, 0 < d'.dataLength := by
  have hds : ∀ d' ∈ ds, 0 < d'.dataLength := fun d' hd' => hpos d' (List.mem_cons_of_mem _ hd')
  rcases TCPStreamBufferFilter.out_cases (hpos d List.mem_cons_self) hret with
    ⟨-, ho⟩ | ⟨e, -, -, ⟨ex, ho⟩ | ho⟩ | ⟨n, suffix, -, -, hlt, ho, -, hlen⟩ | ⟨n, -, -, ho⟩ <;>
    rw [ho] at hout
  · obtain rfl := Except.ok.inj hout
    exact hpos
  · exact absurd hout (by simp)
  · obtain rfl := Except.ok.inj hout
    exact hds
  · obtain rfl := Except.ok.inj hout
    intro d' hd'
    rcases List.mem_cons.mp hd' with rfl | hd'
    · rw [hlen]
      omega
    · exact hds d' hd'
  · obtain rfl := Except.ok.inj hout
    exact hds

/-- **One step keeps the stream invariant.** A failing `send` closes the direction, and with it
closed neither `Out` loop is entered again. -/
theorem streamInv_step (hok : TcpOnly l s) (h : step (tcpEnv pendingConnect) l s = some (s', o))
    (hi : StreamInv tr s) : StreamInv (tr ++ o) s' := by
  have hcrashed : s.crashed = none := (step_inv h).1
  have hdata := dataStep hok h hi.length
  -- what the rest of the step does to a closed filter does not depend on its data
  have hclosed : s.tcp.writeClosed = true → (∀ fr ∈ s.stack, fr.sends = false) →
      s'.tcp.writeClosed = true ∧ ∀ fr ∈ s'.stack, fr.sends = false := fun hwc hno =>
    ⟨(flagsGrow_step h).writeClosed 0 hwc, noSends_step h hi.length hwc hno⟩
  have hbefore : sendFailed tr = true →
      s'.crashed ≠ none ∨ s'.tcp.writeClosed = true ∧ ∀ fr ∈ s'.stack, fr.sends = false := by
    intro hf
    rcases hi.failed hf with hc | ⟨hwc, hno⟩
    · exact absurd hcrashed hc
    · exact .inr (hclosed hwc hno)
  have hwriting : ∀ {a d saved}, s'.calls a = .writing d saved →
      0 < saved.dataLength ∧ saved.bytes = d.bytes := by
    intro a d saved hw
    rcases writing_of_step h hw with hw | ⟨-, hlen, hsave⟩
    · exact hi.writing hw
    · have hnonneg := DataView.save_nonneg hsave
      have hsaved := DataView.save_dataLength hsave
      exact ⟨by omega, DataView.save_bytes hsave⟩
  cases hdata with
  | keep hpo hpw hobs =>
      refine ⟨length_step hok h hi.length, ?_, ?_, hwriting, sendsOnTop_step h hi.onTop, ?_⟩
      · rw [hpo]
        exact hi.pendingOut
      · rw [hpw]
        exact hi.pendingWrites
      · rw [sendFailed_append, (sentBytes_of_not_isData hobs).2.2, Bool.or_false]
        exact hbefore
  | @accept a d saved hcall hpo hpw =>
      refine ⟨length_step hok h hi.length, ?_, ?_, hwriting, sendsOnTop_step h hi.onTop, ?_⟩
      · rw [hpo]
        exact hi.pendingOut
      · rw [hpw]
        intro d' hd'
        rcases List.mem_append.mp hd' with hd' | hd'
        · exact hi.pendingWrites d' hd'
        · obtain rfl := List.mem_singleton.mp hd'
          exact (hi.writing hcall).1
      · simpa [sendFailed, Obs.sendFailed] using hbefore
  | swap hstack hpo hpw =>
      refine ⟨length_step hok h hi.length, ?_, ?_, hwriting, sendsOnTop_step h hi.onTop, ?_⟩
      · rw [hpo]
        intro d hd
        exact (List.mem_append.mp hd).elim (hi.pendingOut d) (hi.pendingWrites d)
      · simp [hpw]
      · simpa [sendFailed, Obs.sendFailed] using hbefore
  | @send fr rest d ds ret hstack hfr hpo hret hpw hout =>
      have hpos : ∀ d' ∈ d :: ds, 0 < d'.dataLength := hpo ▸ hi.pendingOut
      have hrest : ∀ fr' ∈ rest, fr'.sends = false :=
        fun fr' hfr' => hi.onTop fr' (by rw [hstack]; exact hfr')
      refine ⟨length_step hok h hi.length, ?_, ?_, hwriting, sendsOnTop_step h hi.onTop, ?_⟩
      · cases hres : TCPStreamBufferFilter.out ret d with
        | error e =>
            rw [hres] at hout
            rw [hout.2]
            exact fun d' hd' => hpos d' (List.mem_cons_of_mem _ hd')
        | ok res =>
            rw [hres] at hout
            rw [hout.1]
            exact afterOut_pendingOut hpos hret hres
      · rw [hpw]
        exact hi.pendingWrites
      · intro hf
        rw [sendFailed_append, Bool.or_eq_true] at hf
        rcases hf with hf | hf
        · exact hbefore hf
        · rcases TCPStreamBufferFilter.out_cases (hpos d List.mem_cons_self) hret with
            ⟨rfl, -⟩ | ⟨e, rfl, -, ⟨ex, ho⟩ | ho⟩ | ⟨n, _, rfl, -⟩ | ⟨n, rfl, -⟩
          · simp [sendFailed, Obs.sendFailed] at hf
          · rw [ho] at hout
            exact .inl (by rw [hout.1]; simp)
          · rw [ho] at hout
            obtain ⟨htcp, hstack'⟩ := hout
            obtain ⟨fs, hfs, hno⟩ := hstack' (by simp [Filter.afterOut])
            refine .inr ⟨by rw [htcp]; simp [Filter.afterOut], ?_⟩
            rw [hfs]
            exact fun fr' hfr' => (List.mem_append.mp hfr').elim (hno fr') (hrest fr')
          · simp [sendFailed, Obs.sendFailed] at hf
          · simp [sendFailed, Obs.sendFailed] at hf

theorem streamInv_of_run (h : TcpRun pendingConnect (init mode addr k) tr s) : StreamInv tr s :=
  h.invariant streamInv_init fun _ hi hok hs => streamInv_step hok hs hi

/-! ### The stream is a pipe -/

/-- The pipe a state of the stream stands for. -/
def pipe (tr : List (Obs SysRet)) (s : BufferState Socket) : Pipe UInt8 :=
  ⟨sentBytes tr, viewBytes (s.tcp.pendingOut ++ s.buffer.pendingWrites), acceptedBytes tr,
    sendFailed tr⟩

/-- The bytes that leave with one `send`. -/
theorem pipe_send {d : DataView} (ds ws : List DataView) {n : Nat} (hn : (n : Int) ≤ d.dataLength) :
    (viewBytes ((d :: ds) ++ ws)).take n = d.bytes.take n ∧
      (viewBytes ((d :: ds) ++ ws)).drop n = d.bytes.drop n ++ viewBytes (ds ++ ws) := by
  have hlen : n ≤ d.bytes.length := by
    rw [DataView.length_bytes]
    omega
  simp [List.take_append_of_le_length hlen, List.drop_append_of_le_length hlen]

/-- **Every step of the stream is a step of the pipe**, or none. Accepting a view puts its bytes
in, a swap moves nothing, `send` takes bytes out from the front or breaks the pipe. -/
theorem pipe_step (hok : TcpOnly l s) (h : step (tcpEnv pendingConnect) l s = some (s', o))
    (hi : StreamInv tr s) : Pipe.Reaches (pipe tr s) (pipe (tr ++ o) s') := by
  have hcrashed : s.crashed = none := (step_inv h).1
  cases dataStep hok h hi.length with
  | keep hpo hpw hobs =>
      obtain ⟨hsent, hacc, hfail⟩ := sentBytes_of_not_isData hobs
      have heq : pipe (tr ++ o) s' = pipe tr s := by
        simp [pipe, hpo, hpw, hsent, hacc, hfail]
      rw [heq]
  | @accept a d saved hcall hpo hpw =>
      have heq : pipe (tr ++ [.accepted d]) s' =
          { pipe tr s with
            queued := (pipe tr s).queued ++ d.bytes
            accepted := (pipe tr s).accepted ++ d.bytes } := by
        have hbytes := (hi.writing hcall).2
        simp [pipe, hpo, hpw, hbytes, sentBytes, acceptedBytes, sendFailed, Obs.sentBytes,
          Obs.acceptedBytes, Obs.sendFailed]
      rw [heq]
      exact .single (.put _ _)
  | swap hstack hpo hpw =>
      have heq : pipe (tr ++ [.swapped s.buffer.pendingWrites]) s' = pipe tr s := by
        simp [pipe, hpo, hpw, sentBytes, acceptedBytes, sendFailed, Obs.sentBytes,
          Obs.acceptedBytes, Obs.sendFailed]
      rw [heq]
  | @send fr rest d ds ret hstack hfr hpo hret hpw hout =>
      have hpos : 0 < d.dataLength := hi.pendingOut d (by rw [hpo]; exact List.mem_cons_self)
      -- a frame that sends is left only while no `send` has failed
      have hintact : sendFailed tr = false := by
        by_contra hf
        rcases hi.failed (by simpa using hf) with hc | ⟨-, hno⟩
        · exact hc hcrashed
        · have := hno fr (by rw [hstack]; exact List.mem_cons_self)
          exact absurd hfr (by simp [this])
      rcases TCPStreamBufferFilter.out_cases hpos hret with
        ⟨rfl, ho⟩ | ⟨e, rfl, hne, -⟩ | ⟨n, suffix, rfl, -, hlt, ho, hbytes, -⟩ | ⟨n, rfl, hn, ho⟩
      · rw [ho] at hout
        have hpo' : s'.tcp.pendingOut = d :: ds := by rw [hout.1]; simp [Filter.afterOut]
        have heq : pipe (tr ++ [.out 0 d (.send (.error .EAGAIN))
            (TCPStreamBufferFilter.out (.error .EAGAIN) d)]) s' = pipe tr s := by
          simp [pipe, hpo, hpo', hpw, sentBytes, acceptedBytes, sendFailed, Obs.sentBytes,
            Obs.acceptedBytes, Obs.sendFailed]
        rw [heq]
      · refine .single ?_
        have hbroken : pipe (tr ++ [.out 0 d (.send (.error e))
            (TCPStreamBufferFilter.out (.error e) d)]) s' =
            { pipe tr s with
              queued := viewBytes (s'.tcp.pendingOut ++ s'.buffer.pendingWrites)
              broken := true } := by
          simp [pipe, sentBytes, acceptedBytes, sendFailed, Obs.sentBytes, Obs.acceptedBytes,
            Obs.sendFailed, hne]
        rw [hbroken]
        exact .spill _ _
      · rw [ho] at hout
        have hpo' : s'.tcp.pendingOut = suffix :: ds := by rw [hout.1]; simp [Filter.afterOut]
        obtain ⟨htake, hdrop⟩ := pipe_send ds s.buffer.pendingWrites (Int.le_of_lt hlt)
        have heq :
            pipe (tr ++ [.out 0 d (.send (.ok n)) (TCPStreamBufferFilter.out (.ok n) d)]) s' =
            { pipe tr s with
              sent := (pipe tr s).sent ++ (pipe tr s).queued.take n
              queued := (pipe tr s).queued.drop n } := by
          simp only [pipe, hpo, htake, hdrop, hpo', hpw]
          simp [sentBytes, acceptedBytes, sendFailed, Obs.sentBytes, Obs.acceptedBytes,
            Obs.sendFailed, hbytes]
        rw [heq]
        exact .single (.send _ _ hintact)
      · rw [ho] at hout
        have hpo' : s'.tcp.pendingOut = ds := by rw [hout.1]; simp [Filter.afterOut]
        obtain ⟨htake, hdrop⟩ := pipe_send ds s.buffer.pendingWrites (Int.le_of_eq hn)
        have hall : d.bytes.drop n = [] := List.drop_of_length_le (by
          rw [DataView.length_bytes]
          omega)
        have heq :
            pipe (tr ++ [.out 0 d (.send (.ok n)) (TCPStreamBufferFilter.out (.ok n) d)]) s' =
            { pipe tr s with
              sent := (pipe tr s).sent ++ (pipe tr s).queued.take n
              queued := (pipe tr s).queued.drop n } := by
          simp only [pipe, hpo, htake, hdrop, hpo', hpw, hall]
          simp [sentBytes, acceptedBytes, sendFailed, Obs.sentBytes, Obs.acceptedBytes,
            Obs.sendFailed]
        rw [heq]
        exact .single (.send _ _ hintact)

theorem pipe_of_run (h : TcpRun pendingConnect (init mode addr k) tr s) :
    Pipe.Reaches Pipe.empty (pipe tr s) := by
  have hinit : pipe [] (init mode addr k) = Pipe.empty := rfl
  rw [← hinit]
  exact h.refines pipe fun hrun hok hs => pipe_step hok hs (streamInv_of_run hrun)

/-- Nothing is sent after a `send` that failed for good. -/
theorem silent_after_failure (h : TcpRun pendingConnect (init mode addr k) tr s) :
    tr.Pairwise fun x y => x.sendFailed = true → y.sentBytes = [] := by
  refine h.pairwise fun {tr s l s' o} hrun hok hs => ?_
  have hi := streamInv_of_run hrun
  have hcrashed : s.crashed = none := (step_inv hs).1
  cases dataStep hok hs hi.length with
  | keep _ _ hobs =>
      have hsilent := (sentBytes_of_not_isData hobs).1
      have hnone : ∀ y ∈ o, y.sentBytes = [] := List.flatMap_eq_nil_iff.mp hsilent
      exact ⟨List.pairwise_of_forall_mem_list fun _ _ y hy _ => hnone y hy,
        fun _ _ y hy _ => hnone y hy⟩
  | accept => exact ⟨List.pairwise_singleton _ _, by simp [Obs.sentBytes]⟩
  | swap => exact ⟨List.pairwise_singleton _ _, by simp [Obs.sentBytes]⟩
  | @send fr rest d ds ret hstack hfr =>
      refine ⟨List.pairwise_singleton _ _, fun x hx y _ hfail => ?_⟩
      exfalso
      rcases hi.failed (List.any_eq_true.mpr ⟨x, hx, hfail⟩) with hc | ⟨-, hno⟩
      · exact hc hcrashed
      · have := hno fr (by rw [hstack]; exact List.mem_cons_self)
        exact absurd hfr (by simp [this])

/-- **Output byte-stream integrity**: in every reachable state the bytes sent, the bytes
of `pending_out_` and those of `pending_writes_` are the accepted payloads, as long as no
`send` has failed for good; what was sent is always a prefix of what was accepted; and
nothing is sent after the failure. -/
theorem output_integrity (h : TcpRun pendingConnect (init mode addr k) tr s) :
    (sendFailed tr = false →
      sentBytes tr ++ viewBytes s.tcp.pendingOut ++ viewBytes s.buffer.pendingWrites =
        acceptedBytes tr) ∧
    sentBytes tr <+: acceptedBytes tr ∧
    ∀ tr₁ x tr₂, tr = tr₁ ++ x :: tr₂ → x.sendFailed = true → sentBytes tr₂ = [] := by
  have hspec := Pipe.reachable_spec (pipe_of_run h)
  refine ⟨fun hf => ?_, hspec.inOrder, ?_⟩
  · have hc := hspec.conserved hf
    simpa [pipe] using hc
  · rintro tr₁ x tr₂ rfl hfail
    have hpair := (List.pairwise_append.mp (silent_after_failure h)).2.1
    refine List.flatMap_eq_nil_iff.mpr fun y hy => ?_
    exact (List.pairwise_cons.mp hpair).1 y hy hfail

/-- A buffer on a connected socket, before anything has happened. -/
def fresh : BufferState Socket := init .client 0 ⟨false, true, none⟩

/-- The first `HandleEvents` connects. -/
def connecting : List (BufferLabel SysRet) :=
  [.handleEvents true, .answer .none, .ret, .run, .run, .run, .run]

/-- Three bytes are written, and `send` takes one of them. -/
def partialWrite : List (BufferLabel SysRet) :=
  connecting ++ [.write (.user 0) (.ofString [1, 2, 3]), .push (.user 0), .notify (.user 0),
    .handleEvents true, .run, .answer (.recv (.error .EAGAIN)), .run, .answer (.send (.ok 1)),
    .run, .run]

/-- The state and the trace a schedule leads to from `fresh`. -/
def after (ls : List (BufferLabel SysRet)) : BufferState Socket × List (Obs SysRet) :=
  (exec (bufferSystem (tcpEnv true)) tcpOnly ls fresh).getD (fresh, [])

theorem run_partialWrite :
    TcpRun true fresh (after partialWrite).2 (after partialWrite).1 :=
  TcpRun.of_exec partialWrite rfl

theorem output_integrity_partialWrite :
    sentBytes (after partialWrite).2 = [1] ∧
      sentBytes (after partialWrite).2 ++ viewBytes (after partialWrite).1.tcp.pendingOut ++
        viewBytes (after partialWrite).1.buffer.pendingWrites = [1, 2, 3] := by
  refine ⟨rfl, ?_⟩
  rw [(output_integrity run_partialWrite).1 rfl]
  rfl

end BufferState

end Libael
