import Libael.Tcp.Calls

/-!
# Libael.Tcp.Closing

**Closing a buffer flushes it.** `DoClose` takes what is left in `pending_writes_`, sends it,
and shuts the filter down only when nothing is left to send. So a close is delayed by unsent
data alone, and a delivered `HandleEOF` means that everything accepted before `should_close_`
was set has been sent, unless the filter reported a failure.

* A buffer with the TCP filter alone has the frames of `DoClose` in one of a few orders, the
  phases (`ClosePhase`). `CloseStep` is the step relation between them, derived from `runFrame`
  and the answers of the socket once.
* `ClosingCall` follows a whole call that began with `should_close_` set. It ends with the
  filter closed, or with a view at the head of `pending_out_` that `send` did not take whole.
-/

namespace Libael

open Lts

/-- The frames of `DoClose` and below. -/
def Frame.closes : Frame → Bool
  | .doClose | .closeFrom _ | .closeCheck _ | .close _ | .flush _ | .flushed _ | .shutdown _ => true
  | _ => false

/-- Where `DoClose` of a single filter is. -/
inductive ClosePhase
  | doClose | doWrite | write | closeFrom | close | flush | flushed | shutdown | closeCheck | closed
  deriving DecidableEq

/-- What is left of `DoClose` in a phase. -/
def ClosePhase.frames : ClosePhase → List Frame
  | .doClose => [.doClose]
  | .doWrite => [.doWrite, .closeFrom 1]
  | .write => [.write 0, .closeFrom 1]
  | .closeFrom => [.closeFrom 1]
  | .close => [.close 0, .closeCheck 0]
  | .flush => [.flush 0, .closeCheck 0]
  | .flushed => [.flushed 0, .closeCheck 0]
  | .shutdown => [.shutdown 0, .closeCheck 0]
  | .closeCheck => [.closeCheck 0]
  | .closed => [.closeFrom 0]

namespace BufferState

variable {pendingConnect alive : Bool} {l : BufferLabel SysRet} {s s' s₁ : BufferState Socket}
  {tr o c : List (Obs SysRet)} {p : ClosePhase} {rest : List Frame} {mode : StreamBufferMode}
  {addr : Nat} {k : Socket}

/-- The steps of `DoClose`, from phase to phase and out of it. -/
inductive CloseStep (c : List (Obs SysRet)) (s s' : BufferState Socket) (o : List (Obs SysRet)) :
    ClosePhase → Option ClosePhase → Prop
  | doClose : s.tcp.writeClosed = false → CloseStep c s s' o .doClose (some .doWrite)
  | noFlush : s.tcp.writeClosed = true → s'.tcp = s.tcp →
      CloseStep c s s' o .doClose (some .closeFrom)
  | swap {p'} : p' = .write ∨ p' = .closeFrom →
      s.tcp.writeClosed = true ∧ s'.tcp = s.tcp ∨ s'.buffer.pendingWrites = [] →
      CloseStep c s s' o .doWrite (some p')
  | write {p'} : p' = .write ∨ p' = .closeFrom → CloseStep c s s' o .write (some p')
  | alreadyClosed : s.tcp.closed = true → s'.tcp = s.tcp →
      CloseStep c s s' o .closeFrom (some .closed)
  | close : CloseStep c s s' o .closeFrom (some .close)
  | flush : CloseStep c s s' o .close (some .flush)
  | nothingToFlush : StreamBuffer.flushDone s.tcp = true → s'.tcp = s.tcp →
      CloseStep c s s' o .close (some .shutdown)
  | flushing : CloseStep c s s' o .flush (some .flush)
  | flushed : s'.tcp.pendingOut = [] ∨ s'.tcp.writeClosed = true ∨ LastBlocked (c ++ o) s' →
      CloseStep c s s' o .flush (some .flushed)
  | flushedAll : StreamBuffer.flushDone s.tcp = true → s'.tcp = s.tcp →
      CloseStep c s s' o .flushed (some .shutdown)
  | delayed : StreamBuffer.flushDone s.tcp = false → s'.tcp = s.tcp → (∀ x ∈ o, x.isOut = false) →
      CloseStep c s s' o .flushed (some .closeCheck)
  | shutdown : s'.tcp.closed = true → CloseStep c s s' o .shutdown (some .closeCheck)
  | checked : s.tcp.closed = true → s'.tcp = s.tcp → CloseStep c s s' o .closeCheck (some .closed)
  | broken : s'.tcp = s.tcp → (∀ x ∈ o, x.isOut = false) → CloseStep c s s' o .closeCheck none
  | done : s'.tcp = s.tcp → (∀ x ∈ o, x.isOut = false) → CloseStep c s s' o .closed none

/-- What the loop thread does on its own leads from a phase to the next one. The two `Out` loops
are not among these steps: they ask the filter. -/
theorem closeStep_of_run {fr : Frame} {fs : List Frame} {n : Next SysRet StreamBuffer}
    (hi : StreamInv tr s) (hframes : p.frames = fr :: fs) (hn : s.buffer.runFrame fr = some n)
    (hwrite : p ≠ .write) (hflush : p ≠ .flush) :
    ∃ p', CloseStep c s
      { s with buffer := n.buffer, stack := n.frames ++ (fs ++ rest) } n.obs p p' ∧
      n.frames ++ (fs ++ rest) = (p'.map ClosePhase.frames).getD [] ++ rest := by
  have hback : s.buffer.backIndex = 0 := by simp [StreamBuffer.backIndex, hi.length]
  cases p with
  | doClose =>
      obtain ⟨rfl, rfl⟩ := List.cons.inj hframes
      cases StreamBuffer.frameRun hn with
      | flushesAll hopen =>
          have hwc : s.tcp.writeClosed = false := by simpa [filters_eq hi.length] using hopen
          exact ⟨some .doWrite, .doClose hwc, by simp [hi.length, ClosePhase.frames]⟩
      | closesAll hclosed =>
          have hwc : s.tcp.writeClosed = true := by simpa [filters_eq hi.length] using hclosed
          exact ⟨some .closeFrom, .noFlush hwc rfl, by simp [hi.length, ClosePhase.frames]⟩
  | doWrite =>
      obtain ⟨rfl, rfl⟩ := List.cons.inj hframes
      cases StreamBuffer.frameRun hn with
      | writeClosed hwc =>
          rw [back_eq_tcp hi.length] at hwc
          exact ⟨some .closeFrom, .swap (.inr rfl) (.inl ⟨hwc, rfl⟩), rfl⟩
      | writesNothing _ hempty =>
          exact ⟨some .closeFrom, .swap (.inr rfl) (.inr hempty), rfl⟩
      | writes _ _ =>
          exact ⟨some .write, .swap (.inl rfl) (.inr rfl), by simp [hback, ClosePhase.frames]⟩
  | closeFrom =>
      obtain ⟨rfl, rfl⟩ := List.cons.inj hframes
      cases StreamBuffer.frameRun hn with
      | skips hclosed => exact ⟨some .closed, .alreadyClosed hclosed rfl, rfl⟩
      | closes _ => exact ⟨some .close, .close, rfl⟩
  | close =>
      obtain ⟨rfl, rfl⟩ := List.cons.inj hframes
      cases StreamBuffer.frameRun hn with
      | shutsDown hflushed => exact ⟨some .shutdown, .nothingToFlush hflushed rfl, rfl⟩
      | flushes _ => exact ⟨some .flush, .flush, rfl⟩
  | flushed =>
      obtain ⟨rfl, rfl⟩ := List.cons.inj hframes
      cases StreamBuffer.frameRun hn with
      | flushed hflushed => exact ⟨some .shutdown, .flushedAll hflushed rfl, rfl⟩
      | notFlushed hleft => exact ⟨some .closeCheck, .delayed hleft rfl (by simp), rfl⟩
  | closeCheck =>
      obtain ⟨rfl, rfl⟩ := List.cons.inj hframes
      cases StreamBuffer.frameRun hn with
      | goesOn hclosed => exact ⟨some .closed, .checked hclosed rfl, rfl⟩
      | waits _ => exact ⟨none, .broken rfl (by simp), rfl⟩
  | closed =>
      obtain ⟨rfl, rfl⟩ := List.cons.inj hframes
      cases StreamBuffer.frameRun hn with
      | closedAll => exact ⟨none, .done rfl (by simp), rfl⟩
  | write => exact absurd rfl hwrite
  | flush => exact absurd rfl hflush
  | shutdown =>
      obtain ⟨rfl, rfl⟩ := List.cons.inj hframes
      exact absurd hn (by simp [StreamBuffer.runFrame])

/-- `Shutdown` of the filter of a connection never waits. -/
theorem closeStep_of_shutdown {fs : List Frame}
    (h : step (tcpEnv pendingConnect) l s = some (s', o))
    (hi : StreamInv tr s) (hstack : s.stack = .shutdown 0 :: fs) :
    Aside s s' o ∨ s'.crashed ≠ none ∨ (s'.tcp.closed = true ∧ s'.stack = fs) := by
  obtain ⟨-, hmove⟩ := move_of_step h
  cases hmove with
  | aside ha => exact .inl ha
  | enter hnil => exact absurd (hnil.symm.trans hstack) (by simp)
  | ret hcb => exact absurd (hcb.symm.trans hstack) (by simp)
  | added hcb =>
      obtain ⟨c, hc⟩ := callback_of_added hcb hstack
      exact absurd hc (by simp)
  | run hf hn =>
      obtain ⟨rfl, rfl⟩ := List.cons.inj (hf.symm.trans hstack)
      exact absurd hn (by simp [StreamBuffer.runFrame])
  | @answer f rest' r n k hf hans =>
      obtain ⟨rfl, rfl⟩ := List.cons.inj (hf.symm.trans hstack)
      rcases StreamBuffer.answerFrame_cases hans rfl with ⟨e, x, rfl, -⟩ | ⟨i, res, hfr, -⟩ |
        ⟨i, res, hfr, hsd, rfl⟩ | ⟨res, hfr, -⟩
      · exact .inr (.inl (by simp [resume]))
      · exact absurd hfr (by simp)
      · obtain rfl : 0 = i := by simpa using hfr
        obtain rfl : res = ⟨true⟩ := by
          cases r <;> simp [tcpEnv] at hsd
          exact hsd.1.symm
        have hlt : 0 < s.buffer.streamFilters.length := by
          rw [hi.length]
          exact Nat.zero_lt_one
        refine .inr (.inr ⟨?_, by simp [StreamBuffer.afterShutdown, Next.after, resume]⟩)
        simp [StreamBuffer.afterShutdown, Next.after, resume, tcp,
          StreamBuffer.filter_setFilter, hlt, Filter.closed]
      · exact absurd hfr (by simp)

/-- **The steps of `DoClose`.** -/
theorem closing_step (h : step (tcpEnv pendingConnect) l s = some (s', o)) (hi : StreamInv tr s)
    (hstack : s.stack = p.frames ++ rest) :
    Aside s s' o ∨ s'.crashed ≠ none ∨
      ∃ p', CloseStep c s s' o p p' ∧ s'.stack = (p'.map ClosePhase.frames).getD [] ++ rest := by
  cases p with
  | write =>
      rcases outLoop_step (c := c) h hi hstack (.inl rfl) with ha | hcr | hs' | ⟨hs', -⟩
      · exact .inl ha
      · exact .inr (.inl hcr)
      · exact .inr (.inr ⟨some .write, .write (.inl rfl), hs'⟩)
      · exact .inr (.inr ⟨some .closeFrom, .write (.inr rfl), hs'⟩)
  | flush =>
      rcases outLoop_step (c := c) h hi hstack (.inr rfl) with ha | hcr | hs' | ⟨hs', hres⟩
      · exact .inl ha
      · exact .inr (.inl hcr)
      · exact .inr (.inr ⟨some .flush, .flushing, hs'⟩)
      · exact .inr (.inr ⟨some .flushed, .flushed hres, hs'⟩)
  | shutdown =>
      rcases closeStep_of_shutdown h hi hstack with ha | hcr | ⟨hclosed, hs'⟩
      · exact .inl ha
      · exact .inr (.inl hcr)
      · exact .inr (.inr ⟨some .closeCheck, .shutdown hclosed, hs'⟩)
  | doClose | doWrite | closeFrom | close | flushed | closeCheck | closed =>
      -- the loop thread runs on its own
      rcases run_of_step h hstack rfl with ha | ⟨n, hn, rfl, rfl⟩
      · exact .inl ha
      · exact .inr (.inr (closeStep_of_run hi rfl hn (by simp) (by simp)))

/-! ### What delays a close -/

/-- The filter is closed, or the call got stuck on unsent data. -/
def Settled (c : List (Obs SysRet)) (s : BufferState Socket) : Prop :=
  s.tcp.closed = true ∨ LastBlocked c s

/-- What a phase of `DoClose` has established. -/
def ClosePhaseInv (c : List (Obs SysRet)) (s : BufferState Socket) : ClosePhase → Prop
  | .flushed => StreamBuffer.flushDone s.tcp = true ∨ LastBlocked c s
  | .closeCheck | .closed => Settled c s
  | _ => True

/-- Where a call is that began with `should_close_` set. -/
inductive ClosingCall (c : List (Obs SysRet)) (s : BufferState Socket) : Prop
  | crashed : s.crashed ≠ none → ClosingCall c s
  | closing (p : ClosePhase) : s.stack = p.frames ++ [.doFinalize] → ClosePhaseInv c s p →
      ClosingCall c s
  | finalizing : s.stack = [.doFinalize] ∨ s.stack = [.finalizeEOF] → Settled c s → ClosingCall c s
  | finished : s.stack = [.callback .handleEOF, .closeEvent] ∨ s.stack = [.closeEvent] ∨
      s.stack = [] → s.buffer.eofCalled = true ∨ LastBlocked c s → ClosingCall c s

theorem Settled.append (h : Settled c s) (ho : ∀ x ∈ o, x.isOut = false) (htcp : s'.tcp = s.tcp) :
    Settled (c ++ o) s' := by
  rcases h with hcl | hb
  · exact .inl (by rw [htcp]; exact hcl)
  · exact .inr (hb.append ho (by rw [htcp]))

/-- What a phase has established stays so while `Out` is not called. -/
theorem ClosePhaseInv.append (h : ClosePhaseInv c s p) (ho : ∀ x ∈ o, x.isOut = false)
    (htcp : s'.tcp = s.tcp) : ClosePhaseInv (c ++ o) s' p := by
  cases p with
  | flushed =>
      rcases h with hfd | hb
      · exact .inl (by rw [htcp]; exact hfd)
      · exact .inr (hb.append ho (by rw [htcp]))
  | closeCheck => exact Settled.append h ho htcp
  | closed => exact Settled.append h ho htcp
  | _ => trivial

/-- **One step of `DoClose` keeps what its phases establish.** The loop that flushes ends when
nothing is left, or with `Out` blocked on the head. -/
theorem closePhaseInv_step {p' : Option ClosePhase} (h : CloseStep c s s' o p p')
    (hi : ClosePhaseInv c s p) :
    match p' with
    | some q => ClosePhaseInv (c ++ o) s' q
    | none => Settled (c ++ o) s' := by
  cases h with
  | swap hq => rcases hq with rfl | rfl <;> trivial
  | write hq => rcases hq with rfl | rfl <;> trivial
  | flushed hres =>
      rcases hres with hnil | hwc | hb
      · exact .inl (by simp [StreamBuffer.flushDone, hnil])
      · exact .inl (by simp [StreamBuffer.flushDone, hwc])
      · exact .inr hb
  | delayed hfd htcp ho =>
      rcases hi with hfd' | hb
      · exact absurd hfd' (by simp [hfd])
      · exact .inr (hb.append ho (by rw [htcp]))
  | alreadyClosed hcl htcp => exact .inl (by rw [htcp]; exact hcl)
  | shutdown hcl => exact .inl hcl
  | checked hcl htcp => exact .inl (by rw [htcp]; exact hcl)
  | broken htcp ho => exact Settled.append hi ho htcp
  | done htcp ho => exact Settled.append hi ho htcp
  | _ => trivial

/-- **One step keeps a closing call on its way.** The steps aside leave its stack alone, the
others are those of `CloseStep`. -/
theorem closingCall_step (hok : TcpOnly l s) (h : step (tcpEnv pendingConnect) l s = some (s', o))
    (hi : StreamInv tr s) (hclose : s.buffer.shouldClose = true) (hbusy : s.stack ≠ [])
    (hc : ClosingCall c s) : ClosingCall (c ++ o) s' := by
  have hlen' := length_step hok h hi.length
  cases hc with
  | crashed hcr => exact absurd (step_inv h).1 hcr
  | closing p hstack hp =>
      rcases closing_step (c := c) h hi hstack with ha | hcr | ⟨p', hcs, hstack'⟩
      · exact .closing p (by rw [ha.stack]; exact hstack) (hp.append ha.isOut ha.tcp)
      · exact .crashed hcr
      · have hp' := closePhaseInv_step hcs hp
        cases p' with
        | some q => exact .closing q hstack' hp'
        | none => exact .finalizing (.inl hstack') hp'
  | finalizing hstack hset =>
      rcases hstack with hstack | hstack
      · rcases run_of_step h hstack rfl with ha | ⟨n, hn, rfl, rfl⟩
        · exact .finalizing (.inl (by rw [ha.stack]; exact hstack)) (hset.append ha.isOut ha.tcp)
        · obtain rfl := Option.some.inj hn
          have hn' : (s.buffer.doFinalize : Next SysRet StreamBuffer) =
              { buffer := s.buffer, frames := [.finalizeEOF] } := by
            simp [StreamBuffer.doFinalize, hclose]
          rw [hn']
          exact .finalizing (.inr rfl) (hset.append (by simp) rfl)
      · rcases run_of_step h hstack rfl with ha | ⟨n, hn, rfl, rfl⟩
        · exact .finalizing (.inr (by rw [ha.stack]; exact hstack)) (hset.append ha.isOut ha.tcp)
        · obtain rfl := Option.some.inj hn
          by_cases hcl : s.tcp.closed = true ∧ s.buffer.eofCalled = false
          · obtain ⟨hcl, he⟩ := hcl
            have hboth : s.tcp.readClosed = true ∧ s.tcp.writeClosed = true := by
              simpa [Filter.closed] using hcl
            have hn' : (s.buffer.finalizeEOF : Next SysRet StreamBuffer) =
                { buffer := { s.buffer with eofCalled := true }
                  frames := [.callback .handleEOF, .closeEvent]
                  obs := [.callback .handleEOF] } := by
              simp [StreamBuffer.finalizeEOF, isReadClosed_eq hi.length, isWriteClosed_eq hi.length,
                hboth, he]
            rw [hn']
            exact .finished (.inl rfl) (.inl rfl)
          · have hn' : (s.buffer.finalizeEOF : Next SysRet StreamBuffer) =
                { buffer := s.buffer } := by
              unfold StreamBuffer.finalizeEOF
              rw [isReadClosed_eq hi.length, isWriteClosed_eq hi.length]
              exact if_neg (by simpa [Filter.closed] using hcl)
            rw [hn']
            refine .finished (.inr (.inr rfl)) ?_
            rcases hset with hcl' | hb
            · refine .inl ?_
              by_contra he
              exact hcl ⟨hcl', by simpa using he⟩
            · exact .inr (hb.append (by simp) rfl)
  | finished hstack hres =>
      have haside : Aside s s' o → ClosingCall (c ++ o) s' := by
        intro ha
        refine .finished (by rw [ha.stack]; exact hstack) ?_
        rcases hres with he | hb
        · exact .inl (by rw [ha.eofCalled]; exact he)
        · exact .inr (hb.append ha.isOut (by rw [ha.tcp]))
      rcases hstack with hstack | hstack | hstack
      · obtain ⟨-, hmove⟩ := move_of_step h
        cases hmove with
        | aside ha => exact haside ha
        | enter hnil => exact absurd hnil hbusy
        | run hf hn =>
            obtain ⟨rfl, rfl⟩ := List.cons.inj (hf.symm.trans hstack)
            simp [StreamBuffer.runFrame] at hn
        | answer hf hans =>
            obtain ⟨rfl, rfl⟩ := List.cons.inj (hf.symm.trans hstack)
            simp [StreamBuffer.answerFrame] at hans
        | ret hf =>
            obtain ⟨-, rfl⟩ := List.cons.inj (hf.symm.trans hstack)
            refine .finished (.inr (.inl rfl)) ?_
            exact hres.imp id fun hb => hb.append (by simp) rfl
        | added hf hadd =>
            have := StreamBuffer.length_addStreamBufferFilter hadd
            have hlen := hi.length
            exact absurd hlen' (by simp_all)
      · rcases run_of_step h hstack rfl with ha | ⟨n, hn, rfl, rfl⟩
        · exact haside ha
        · obtain rfl := Option.some.inj hn
          refine .finished (.inr (.inr rfl)) ?_
          exact hres.imp id fun hb => hb.append (by simp [Obs.isOut]) rfl
      · exact absurd hstack hbusy

/-- **A close is delayed only by unsent data**: a call that finds `should_close_` set
returns with `HandleEOF` delivered, or with something left in `pending_out_` and its last
`send` blocked or partial. -/
theorem delayed_only_by_unsent (hrun : TcpRun pendingConnect (init mode addr k) tr s₁)
    (hcall : TcpCall pendingConnect true s₁ c s) (hreturned : s.stack = [] ∧ s.crashed = none)
    (hclose : s₁.buffer.shouldClose = true) :
    .callback .handleEOF ∈ tr ++ c ∨ s.tcp.pendingOut ≠ [] ∧ LastBlocked c s := by
  have hinv : s.buffer.shouldClose = true ∧ ClosingCall c s := by
    refine hcall.invariant (I := fun c s => s.buffer.shouldClose = true ∧ ClosingCall c s) ?_ ?_
    · intro s o hok hs
      refine ⟨(flagsGrow_step hs).shouldClose hclose, ?_⟩
      obtain ⟨-, hstep⟩ := step_inv hs
      cases hstep with
      | handleEvents hstack hidle hn =>
          subst hn
          have hn' : (s₁.buffer.handleEvents true : Next SysRet StreamBuffer) =
              { buffer := s₁.buffer, frames := [.doClose, .doFinalize],
                obs := [.handleEvents true] } := by
            simp [StreamBuffer.handleEvents, hclose]
          rw [hn']
          exact .closing .doClose rfl trivial
    · intro c s l s' o hseg hclosing hbusy hok hs
      obtain ⟨hcl, hc⟩ := hclosing
      have hi := streamInv_of_run (hrun.trans hseg.toRun)
      exact ⟨(flagsGrow_step hs).shouldClose hcl, closingCall_step hok hs hi hcl hbusy hc⟩
  cases hinv.2 with
  | crashed hcr => exact absurd hreturned.2 hcr
  | closing p hstack => cases p <;> simp [ClosePhase.frames, hreturned.1] at hstack
  | finalizing hstack => rcases hstack with hstack | hstack <;> simp [hreturned.1] at hstack
  | finished _ hres =>
      rcases hres with he | hb
      · exact .inl ((eofCalled_iff (hrun.trans hcall.toRun)).mp he)
      · exact .inr ⟨hb.ne_nil, hb⟩

end BufferState

end Libael
