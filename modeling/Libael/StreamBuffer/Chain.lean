import Mathlib.Data.List.GetD
import Mathlib.Data.List.Induction
import Libael.StreamBuffer.Callbacks

/-!
# Libael.StreamBuffer.Chain

**The chain of filters**, for any number of filters and any answers. A `HandleEvents` call is
at any moment in one of finitely many *stages*; a stage fixes the whole stack and what the
buffer must look like for that stack to be there.

* `Stage` lists them: a call that connects, one that reads, writes and finalizes, and the
  loop of `DoClose` from the last filter down, with the filters above already closed.
* `Touched` says what becomes of the one filter that a frame changes. Its place in the chain
  stays, so `Chain` is kept by looking at the links, at the inner filters and at the order of
  the closing, one after the other.
* `stage_step` leads from stage to stage, and `chainInv_step` joins it with `Chain`.

From the stages follows what connecting, writing and closing may assume of one another: a
filter is stacked only on a connected filter that has nothing left to send, so the buffer
itself only ever hands data to the last one.
-/

namespace Libael

open Lts

/-- Nothing to send, and closed in no direction. -/
structure Filter.Pristine (f : Filter) : Prop where
  pendingOut : f.pendingOut = []
  readClosed : f.readClosed = false
  writeClosed : f.writeClosed = false

/-- The frames that end a call. -/
def Frame.finalizes : Frame → Bool
  | .doFinalize | .finalizeEOF => true
  | _ => false

namespace StreamBuffer

variable {κ ρ : Type} {b b' : StreamBuffer} {fr : Frame} {st rest : List Frame}
  {n : Next ρ StreamBuffer}

/-! ### The stages of a call -/

/-- Every filter from the `k`-th on is closed in both directions. -/
structure ClosedFrom (b : StreamBuffer) (k : Nat) : Prop where
  le : k ≤ b.streamFilters.length
  closed : ∀ j, k ≤ j → j < b.streamFilters.length → (b.filter j).closed = true

/-- A buffer that would connect its last filter has done nothing with it yet. -/
def Ready (b : StreamBuffer) : Prop :=
  b.shouldClose = false → b.back.connected = false → b.back.Pristine

/-- The stacks of a `HandleEvents` call, and what the buffer looks like in each. -/
inductive Stage (b : StreamBuffer) : List Frame → Prop
  | idle : b.Ready → Stage b []
  | closeEvent : b.Ready → Stage b [.closeEvent]
  | handleEOF : b.Ready → Stage b [.callback .handleEOF, .closeEvent]
  | doConnect : b.back.connected = false → b.back.Pristine → Stage b [.doConnect, .doFinalize]
  | handleConnected : b.Ready →
      (b.addFilterAllowed = true → b.back.connected = true ∧ b.back.Pristine) →
      Stage b [.callback .handleConnected, .connected, .modifyEvent, .doFinalize]
  | connected : b.Ready → Stage b [.connected, .modifyEvent, .doFinalize]
  | modifyEvent : b.Ready → Stage b [.modifyEvent, .doFinalize]
  | doRead : b.back.connected = true → Stage b [.doRead, .doWrite, .doFinalize]
  | read {i} : i = b.backIndex → b.back.connected = true →
      Stage b [.read i, .doWrite, .doFinalize]
  | handleData {d i} : i = b.backIndex → b.back.connected = true →
      Stage b [.callback (.handleData d), .read i, .doWrite, .doFinalize]
  | doWrite : b.back.connected = true → Stage b [.doWrite, .doFinalize]
  | write {i} : i = b.backIndex → b.back.connected = true → Stage b [.write i, .doFinalize]
  | doFinalize : b.Ready ∨ b.back.readClosed = true → Stage b [.doFinalize]
  | finalizeEOF : b.Ready → Stage b [.finalizeEOF]
  | doClose {e} : e.finalizes = true → b.shouldClose = true → Stage b [.doClose, e]
  | flushWrites {k e} : e.finalizes = true → b.shouldClose = true →
      k = b.streamFilters.length → Stage b [.doWrite, .closeFrom k, e]
  | flushWrite {i k e} : e.finalizes = true → b.shouldClose = true → i = b.backIndex →
      k = b.streamFilters.length → Stage b [.write i, .closeFrom k, e]
  | closeFrom {k e} : e.finalizes = true → b.shouldClose = true → b.ClosedFrom k →
      Stage b [.closeFrom k, e]
  | close {k e} : e.finalizes = true → b.shouldClose = true → b.ClosedFrom (k + 1) →
      Stage b [.close k, .closeCheck k, e]
  | flush {k e} : e.finalizes = true → b.shouldClose = true → b.ClosedFrom (k + 1) →
      Stage b [.flush k, .closeCheck k, e]
  | flushed {k e} : e.finalizes = true → b.shouldClose = true → b.ClosedFrom (k + 1) →
      Stage b [.flushed k, .closeCheck k, e]
  | shutdown {k e} : e.finalizes = true → b.shouldClose = true → b.ClosedFrom (k + 1) →
      flushDone (b.filter k) = true → Stage b [.shutdown k, .closeCheck k, e]
  | closeCheck {k e} : e.finalizes = true → b.shouldClose = true → b.ClosedFrom (k + 1) →
      Stage b [.closeCheck k, e]

theorem Ready.of_shouldClose (h : b.shouldClose = true) : b.Ready :=
  fun hopen => absurd h (by simp [hopen])

theorem Ready.of_connected (h : b.back.connected = true) : b.Ready :=
  fun _ hno => absurd h (by simp [hno])

/-- The end of a call that closes. -/
theorem Stage.finalizes (h : fr.finalizes = true) (hcl : b.shouldClose = true) : Stage b [fr] := by
  cases fr with
  | doFinalize => exact .doFinalize (.inl (.of_shouldClose hcl))
  | finalizeEOF => exact .finalizeEOF (.of_shouldClose hcl)
  | _ => exact absurd h (by simp [Frame.finalizes])

/-- There is nothing from the end of the chain on. -/
theorem closedFrom_length {k : Nat} (hk : k = b.streamFilters.length) : b.ClosedFrom k :=
  ⟨Nat.le_of_eq hk, fun j hkj hj => absurd hj (by omega)⟩

theorem closedFrom_congr {k : Nat} (h : b'.streamFilters = b.streamFilters)
    (hc : b.ClosedFrom k) : b'.ClosedFrom k := by
  refine ⟨by rw [h]; exact hc.le, fun j hk hj => ?_⟩
  have hcl := hc.closed j hk (by rw [← h]; exact hj)
  simpa only [filter, h] using hcl

theorem ClosedFrom.next {k : Nat} (hc : b.ClosedFrom (k + 1)) (hk : (b.filter k).closed = true) :
    b.ClosedFrom k := by
  refine ⟨Nat.le_of_succ_le hc.le, fun j hkj hj => ?_⟩
  rcases Nat.eq_or_lt_of_le hkj with rfl | hlt
  · exact hk
  · exact hc.closed j hlt hj

/-- The filters above the `k`-th do not change when the `k`-th does. -/
theorem closedFrom_setFilter {k : Nat} {f : Filter} (hc : b.ClosedFrom (k + 1)) :
    (b.setFilter k f).ClosedFrom (k + 1) := by
  refine ⟨by rw [length_setFilter]; exact hc.le, fun j hkj hj => ?_⟩
  rw [filter_setFilter, if_neg (by omega)]
  exact hc.closed j hkj (by simpa using hj)

theorem back_congr (h : b'.streamFilters = b.streamFilters) : b'.back = b.back := by
  simp only [back, backIndex, filter, h]

/-- A stage depends on the filters and the two flags only. -/
theorem Stage.congr (hs : Stage b st) (hf : b'.streamFilters = b.streamFilters)
    (ha : b'.addFilterAllowed = true → b.addFilterAllowed = true)
    (hc : b.shouldClose = true → b'.shouldClose = true) : Stage b' st := by
  have hback := back_congr hf
  have hidx : b'.backIndex = b.backIndex := by simp only [backIndex, hf]
  have hready : b.Ready → b'.Ready := by
    intro hr hcl hconn
    rw [hback] at hconn ⊢
    refine hr ?_ hconn
    by_contra hcl'
    rw [hc (by simpa using hcl')] at hcl
    exact absurd hcl (by simp)
  cases hs with
  | idle hr => exact .idle (hready hr)
  | closeEvent hr => exact .closeEvent (hready hr)
  | handleEOF hr => exact .handleEOF (hready hr)
  | doConnect hconn hp => exact .doConnect (by rw [hback]; exact hconn) (by rw [hback]; exact hp)
  | handleConnected hr hopen =>
      exact .handleConnected (hready hr) fun hal => by rw [hback]; exact hopen (ha hal)
  | connected hr => exact .connected (hready hr)
  | modifyEvent hr => exact .modifyEvent (hready hr)
  | doRead hconn => exact .doRead (by rw [hback]; exact hconn)
  | read hi hconn => exact .read (hi.trans hidx.symm) (by rw [hback]; exact hconn)
  | handleData hi hconn => exact .handleData (hi.trans hidx.symm) (by rw [hback]; exact hconn)
  | doWrite hconn => exact .doWrite (by rw [hback]; exact hconn)
  | write hi hconn => exact .write (hi.trans hidx.symm) (by rw [hback]; exact hconn)
  | doFinalize hr => exact .doFinalize (hr.imp hready fun hrc => by rw [hback]; exact hrc)
  | finalizeEOF hr => exact .finalizeEOF (hready hr)
  | doClose he hcl => exact .doClose he (hc hcl)
  | flushWrites he hcl hk => exact .flushWrites he (hc hcl) (by rw [hf]; exact hk)
  | flushWrite he hcl hi hk =>
      exact .flushWrite he (hc hcl) (hi.trans hidx.symm) (by rw [hf]; exact hk)
  | closeFrom he hcl hk => exact .closeFrom he (hc hcl) (closedFrom_congr hf hk)
  | close he hcl hk => exact .close he (hc hcl) (closedFrom_congr hf hk)
  | flush he hcl hk => exact .flush he (hc hcl) (closedFrom_congr hf hk)
  | flushed he hcl hk => exact .flushed he (hc hcl) (closedFrom_congr hf hk)
  | shutdown he hcl hk hd =>
      exact .shutdown he (hc hcl) (closedFrom_congr hf hk) (by simpa only [filter, hf] using hd)
  | closeCheck he hcl hk => exact .closeCheck he (hc hcl) (closedFrom_congr hf hk)

theorem back_setFilter (hne : b.streamFilters ≠ []) (f : Filter) :
    (b.setFilter b.backIndex f).back = f := by
  have hpos := List.length_pos_iff.mpr hne
  rw [back, backIndex_setFilter, filter_setFilter, if_pos]
  exact ⟨rfl, by simp only [backIndex]; omega⟩

/-- The stage after `DoWrite`. -/
theorem Stage.doWrite_run (hne : b.streamFilters ≠ []) (hs : Stage b (.doWrite :: rest))
    (hn : n = b.doWrite) : Stage n.buffer (n.frames ++ rest) := by
  rcases doWrite_cases b n hn with ⟨-, rfl⟩ | ⟨-, -, -, hframes, hb⟩
  · -- the filter is closed for writing: `DoWrite` does nothing
    cases hs with
    | doWrite hconn => exact .doFinalize (.inl (.of_connected hconn))
    | flushWrites he hcl hk => exact .closeFrom he hcl (closedFrom_length (by simpa using hk))
  · have hback :
        n.buffer.back = { b.back with pendingOut := b.back.pendingOut ++ b.pendingWrites } := by
      rw [hb]
      exact back_setFilter hne _
    have hidx : n.buffer.backIndex = b.backIndex := by rw [hb]; simp [backIndex, setFilter]
    have hlen : n.buffer.streamFilters.length = b.streamFilters.length := by rw [hb]; simp
    rw [hframes]
    cases hs with
    | doWrite hconn =>
        have hconn' : n.buffer.back.connected = true := by rw [hback]; exact hconn
        split_ifs
        · exact .doFinalize (.inl (.of_connected hconn'))
        · exact .write hidx.symm hconn'
    | flushWrites he hcl hk =>
        have hcl' : n.buffer.shouldClose = true := by rw [hb]; exact hcl
        split_ifs
        · exact .closeFrom he hcl' (closedFrom_length (hk.trans hlen.symm))
        · exact .flushWrite he hcl' hidx.symm (hk.trans hlen.symm)

/-- The stage after a frame that asks no filter, frame by frame. -/
theorem Stage.run (hne : b.streamFilters ≠ []) (hs : Stage b (fr :: rest))
    (hrun : b.runFrame fr = some n) : Stage n.buffer (n.frames ++ rest) := by
  by_cases hwrite : fr = .doWrite
  · subst hwrite
    exact hs.doWrite_run hne (Option.some.inj hrun).symm
  cases frameRun hrun with
  | writeClosed _ | writesNothing _ _ | writes _ _ => exact absurd rfl hwrite
  | readClosed _ =>
      cases hs with
      | doRead hconn => exact .doWrite hconn
  | reads _ =>
      cases hs with
      | doRead hconn => exact .read rfl hconn
  | written _ =>
      cases hs with
      | write hi hconn => exact .doFinalize (.inl (.of_connected hconn))
      | flushWrite he hcl hi hk => exact .closeFrom he hcl (closedFrom_length hk)
  | flushesAll _ =>
      cases hs with
      | doClose he hcl => exact .flushWrites he hcl rfl
  | closesAll _ =>
      cases hs with
      | doClose he hcl => exact .closeFrom he hcl (closedFrom_length rfl)
  | closedAll =>
      cases hs with
      | closeFrom he hcl hk => exact .finalizes he hcl
  | skips hclosed =>
      cases hs with
      | closeFrom he hcl hk => exact .closeFrom he hcl (hk.next hclosed)
  | closes _ =>
      cases hs with
      | closeFrom he hcl hk => exact .close he hcl hk
  | goesOn hclosed =>
      cases hs with
      | closeCheck he hcl hk => exact .closeFrom he hcl (hk.next hclosed)
  | waits _ =>
      cases hs with
      | closeCheck he hcl hk => exact .finalizes he hcl
  | shutsDown hdone =>
      cases hs with
      | close he hcl hk => exact .shutdown he hcl hk hdone
  | flushes _ =>
      cases hs with
      | close he hcl hk => exact .flush he hcl hk
  | flushEnds _ =>
      cases hs with
      | flush he hcl hk => exact .flushed he hcl hk
  | flushed hdone =>
      cases hs with
      | flushed he hcl hk => exact .shutdown he hcl hk hdone
  | notFlushed _ =>
      cases hs with
      | flushed he hcl hk => exact .closeCheck he hcl hk
  | connected =>
      cases hs with
      | connected hr => exact .modifyEvent hr
  | modifyEvent =>
      cases hs with
      | modifyEvent hr => exact .doFinalize (.inl hr)
  | endOfFile _ _ =>
      cases hs with
      | doFinalize _ => exact .doClose rfl rfl
  | finalizes hor =>
      cases hs with
      | doFinalize hr =>
          -- a filter closed for reading would have taken the other branch
          refine .finalizeEOF fun hcl hconn => ?_
          rcases hr with hr | hrc
          · exact hr hcl hconn
          · rcases hor with hclose | hopen
            · exact absurd (hclose.symm.trans hcl) (by simp)
            · exact absurd (hrc.symm.trans hopen) (by simp)
  | eof _ _ _ =>
      cases hs with
      | finalizeEOF hr => exact .handleEOF hr
  | noEof _ =>
      cases hs with
      | finalizeEOF hr => exact .idle hr
  | closeEvent =>
      cases hs with
      | closeEvent hr => exact .idle hr

/-- The stage after the answer of a filter. What the answer does to the filter decides between
the stages. -/
theorem Stage.answer {env : FilterEnv κ ρ} {r : ρ} {k k' : κ} (hne : b.streamFilters ≠ [])
    (hs : Stage b (fr :: rest)) (hans : b.answerFrame env r k fr = some (n, k'))
    (hthrew : n.threw = none) : Stage n.buffer (n.frames ++ rest) := by
  -- an `Out` loop keeps everything but two fields of the filter it is on
  have hout : ∀ {i again after}, b.callOut env i r k again after = some (n, k') →
      ∃ f, n.buffer = b.setFilter i f ∧ f.connected = (b.filter i).connected ∧
        (n.frames = again ∨ n.frames = after) := by
    intro i again after hcall
    obtain ⟨d, ds, res, -, -, -, ⟨e, -, he, -⟩ | ⟨res', f, drain, -, hafter, -, hb, hframes⟩⟩ :=
      callOut_cases hcall
    · exact absurd he (by simp [hthrew])
    · refine ⟨f, hb, ?_, ?_⟩
      · have hconn := (FlagsGrow.afterOut (b.filter i) ds res').1
        rwa [hafter] at hconn
      · rw [hframes]
        split_ifs
        · exact .inl rfl
        · exact .inr rfl
  cases fr with
  | write i =>
      obtain ⟨f, hb, hconn, hframes⟩ := hout hans
      rw [hb]
      cases hs with
      | write hi hc =>
          subst hi
          have hc' : (b.setFilter b.backIndex f).back.connected = true := by
            rw [back_setFilter hne, hconn]
            exact hc
          rcases hframes with hf | hf <;> rw [hf]
          · exact .write (backIndex_setFilter ..).symm hc'
          · exact .doFinalize (.inl (.of_connected hc'))
      | flushWrite he hcl hi hk =>
          rcases hframes with hf | hf <;> rw [hf]
          · exact .flushWrite he hcl (hi.trans (backIndex_setFilter ..).symm)
              (hk.trans (length_setFilter ..).symm)
          · exact .closeFrom he hcl (closedFrom_length (hk.trans (length_setFilter ..).symm))
  | flush i =>
      obtain ⟨f, hb, -, hframes⟩ := hout hans
      rw [hb]
      cases hs with
      | flush he hcl hk =>
          rcases hframes with hf | hf <;> rw [hf]
          · exact .flush he hcl (closedFrom_setFilter hk)
          · exact .flushed he hcl (closedFrom_setFilter hk)
  | read i =>
      rcases answerFrame_cases hans rfl with ⟨e, x, rfl, -⟩ | ⟨j, res, hfr, -, rfl⟩ |
        ⟨j, res, hfr, -⟩ | ⟨res, hfr, -⟩
      · exact absurd hthrew (by simp)
      · obtain rfl : i = j := by simpa using hfr
        cases hs with
        | read hi hc =>
            subst hi
            simp only [Next.after, afterIn]
            split
            · refine .doWrite ?_
              rw [back_setFilter hne]
              exact hc
            · split
              · exact .handleData rfl hc
              · exact .doWrite hc
      · exact absurd hfr (by simp)
      · exact absurd hfr (by simp)
  | shutdown i =>
      rcases answerFrame_cases hans rfl with ⟨e, x, rfl, -⟩ | ⟨j, res, hfr, -⟩ |
        ⟨j, res, hfr, -, rfl⟩ | ⟨res, hfr, -⟩
      · exact absurd hthrew (by simp)
      · exact absurd hfr (by simp)
      · obtain rfl : i = j := by simpa using hfr
        cases hs with
        | shutdown he hcl hk hd =>
            simp only [Next.after, afterShutdown]
            split
            · exact .closeCheck he hcl (closedFrom_setFilter hk)
            · exact .closeCheck he hcl hk
      · exact absurd hfr (by simp)
  | doConnect =>
      rcases answerFrame_cases hans rfl with ⟨e, x, rfl, -⟩ | ⟨j, res, hfr, -⟩ |
        ⟨j, res, hfr, -⟩ | ⟨res, -, -, rfl⟩
      · exact absurd hthrew (by simp)
      · exact absurd hfr (by simp)
      · exact absurd hfr (by simp)
      · cases hs with
        | doConnect hc hp =>
            cases res with
            | failed =>
                refine .doFinalize (.inr ?_)
                change (b.setFilter b.backIndex _).back.readClosed = true
                rw [back_setFilter hne]
            | pending => exact .doFinalize (.inl fun _ _ => hp)
            | success =>
                have hback : ((b.afterConnect b.backIndex .success).after
                    (.connect b.backIndex (.ok .success)) : Next ρ StreamBuffer).buffer.back =
                      { b.back with connected := true } := back_setFilter hne _
                refine .handleConnected (.of_connected (by rw [hback])) fun _ => ?_
                rw [hback]
                exact ⟨rfl, hp.pendingOut, hp.readClosed, hp.writeClosed⟩
  | _ => simp [answerFrame] at hans

/-! ### What a frame does to a filter -/

/-- The identity of a filter and its place in the chain. -/
structure SameLinks (f g : Filter) : Prop where
  addr : f.addr = g.addr
  prev : f.prev = g.prev
  next : f.next = g.next
  order : f.order = g.order

/-- What becomes of the `i`-th filter in a frame that changes it. -/
inductive Touched (b : StreamBuffer) : Frame → Nat → Filter → Prop
  /-- `DoWrite` hands it what was written -/
  | swapped : b.back.writeClosed = false → Touched b .doWrite b.backIndex
      { b.back with pendingOut := b.back.pendingOut ++ b.pendingWrites }
  /-- `Out` has thrown, and its view is lost -/
  | threw {fr i d rest} : fr = .write i ∨ fr = .flush i → (b.filter i).pendingOut = d :: rest →
      Touched b fr i { b.filter i with pendingOut := rest }
  /-- `Out` has returned -/
  | out {fr i d rest res} : fr = .write i ∨ fr = .flush i → (b.filter i).pendingOut = d :: rest →
      Touched b fr i ((b.filter i).afterOut rest res).1
  /-- `In` has found the end -/
  | eof {i} : Touched b (.read i) i { b.filter i with readClosed := true }
  /-- `Shutdown` is complete -/
  | complete {i} :
      Touched b (.shutdown i) i { b.filter i with writeClosed := true, readClosed := true }
  /-- `Connect` or `Accept` has failed -/
  | failed :
      Touched b .doConnect b.backIndex { b.back with readClosed := true, writeClosed := true }
  /-- `Connect` or `Accept` has succeeded -/
  | connected : Touched b .doConnect b.backIndex { b.back with connected := true }

variable {i : Nat} {f : Filter}

/-- A frame that asks no filter changes the filters as `Touched` says, or not at all. -/
theorem runFrame_touched (h : b.runFrame fr = some n) :
    n.buffer.streamFilters = b.streamFilters ∨
      ∃ i f, Touched b fr i f ∧ n.buffer.streamFilters = (b.setFilter i f).streamFilters := by
  by_cases hfr : fr = .doWrite
  · subst hfr
    rcases doWrite_cases b n (Option.some.inj h).symm with ⟨-, rfl⟩ | ⟨hopen, -, -, -, hb⟩
    · exact .inl rfl
    · exact .inr ⟨_, _, .swapped hopen, by rw [hb]⟩
  · exact .inl (runFrame_filters h hfr).1

/-- So does a frame that has its answer. -/
theorem answerFrame_touched {env : FilterEnv κ ρ} {r : ρ} {k k' : κ}
    (h : b.answerFrame env r k fr = some (n, k')) :
    n.buffer.streamFilters = b.streamFilters ∨
      ∃ i f, Touched b fr i f ∧ n.buffer.streamFilters = (b.setFilter i f).streamFilters := by
  cases hfr : fr.sends with
  | true =>
      obtain ⟨i, again, after, hloop, hcall⟩ := callOut_of_sends h hfr
      obtain ⟨d, ds, res, hpend, -, -, ⟨e, -, -, -, hb⟩ | ⟨res', f, drain, -, hafter, -, hb, -⟩⟩ :=
        callOut_cases hcall
      · exact .inr ⟨i, _, .threw hloop hpend, by rw [hb]⟩
      · obtain rfl : ((b.filter i).afterOut ds res').1 = f := by rw [hafter]
        exact .inr ⟨i, _, .out hloop hpend, by rw [hb]⟩
  | false =>
      rcases answerFrame_cases h hfr with ⟨e, x, rfl, -⟩ | ⟨i, res, rfl, -, rfl⟩ |
        ⟨i, res, rfl, -, rfl⟩ | ⟨res, rfl, -, rfl⟩
      · exact .inl rfl
      · simp only [Next.after, afterIn]
        split
        · exact .inr ⟨i, _, .eof, rfl⟩
        · split <;> exact .inl rfl
      · simp only [Next.after, afterShutdown]
        split
        · exact .inr ⟨i, _, .complete, rfl⟩
        · exact .inl rfl
      · cases res with
        | failed => exact .inr ⟨_, _, .failed, rfl⟩
        | success => exact .inr ⟨_, _, .connected, rfl⟩
        | pending => exact .inl rfl

theorem sameLinks_afterOut (f : Filter) (rest : List DataView) (res : OutResult × Option DataView) :
    SameLinks (f.afterOut rest res).1 f := by
  unfold Filter.afterOut
  split_ifs
  · exact ⟨rfl, rfl, rfl, rfl⟩
  · split <;> exact ⟨rfl, rfl, rfl, rfl⟩

theorem Touched.sameLinks (h : Touched b fr i f) : SameLinks f (b.filter i) := by
  cases h with
  | out => exact sameLinks_afterOut _ _ _
  | _ => exact ⟨rfl, rfl, rfl, rfl⟩

/-- Only `DoWrite` gives a filter something to send, and that is the last filter. -/
theorem Touched.pendingOut (h : Touched b fr i f) (hp : (b.filter i).pendingOut = []) :
    f.pendingOut = [] ∨ (fr = .doWrite ∧ i = b.backIndex) := by
  cases h with
  | swapped => exact .inr ⟨rfl, rfl⟩
  | threw hfr hpend => rw [hp] at hpend; exact absurd hpend (by simp)
  | out hfr hpend => rw [hp] at hpend; exact absurd hpend (by simp)
  | _ => exact .inl hp

theorem Touched.connected_mono (h : Touched b fr i f) (hc : (b.filter i).connected = true) :
    f.connected = true := by
  cases h with
  | out => rw [(FlagsGrow.afterOut _ _ _).1]; exact hc
  | connected => rfl
  | _ => exact hc

/-- A filter that is closed stays closed. -/
theorem Touched.closed_mono (h : Touched b fr i f) (hc : (b.filter i).closed = true) :
    f.closed = true := by
  simp only [Filter.closed, Bool.and_eq_true] at hc ⊢
  cases h with
  | out hfr hpend =>
      obtain ⟨-, hr, hw⟩ := FlagsGrow.afterOut _ _ _
      exact ⟨by rw [hr]; exact hc.1, hw hc.2⟩
  | eof => exact ⟨rfl, hc.2⟩
  | complete => exact ⟨rfl, rfl⟩
  | failed => exact ⟨rfl, rfl⟩
  | _ => exact hc

/-- A frame that closes a filter finds every filter above it closed. -/
theorem Touched.above (h : Touched b fr i f) (hs : Stage b (fr :: rest)) :
    (f.readClosed = (b.filter i).readClosed ∧ f.writeClosed = (b.filter i).writeClosed) ∨
      ∀ j, i < j → j < b.streamFilters.length → (b.filter j).closed = true := by
  have hlast : ∀ {i}, i = b.backIndex →
      ∀ j, i < j → j < b.streamFilters.length → (b.filter j).closed = true := by
    intro i hi j hij hj
    simp only [backIndex] at hi
    omega
  cases h with
  | swapped => exact .inl ⟨rfl, rfl⟩
  | threw => exact .inl ⟨rfl, rfl⟩
  | connected => exact .inl ⟨rfl, rfl⟩
  | out hfr hpend =>
      rcases hfr with rfl | rfl
      · cases hs with
        | write hi => exact .inr (hlast hi)
        | flushWrite he hcl hi hk => exact .inr (hlast hi)
      · cases hs with
        | flush he hcl hk => exact .inr hk.closed
  | eof =>
      cases hs with
      | read hi => exact .inr (hlast hi)
  | complete =>
      cases hs with
      | shutdown he hcl hk hd => exact .inr hk.closed
  | failed => exact .inr (hlast rfl)

/-! ### The chain -/

/-- The `i`-th filter knows its place and its neighbours. -/
structure Linked (b : StreamBuffer) (i : Nat) : Prop where
  order : (b.filter i).order = UInt32.ofNat i
  prev : (b.filter i).prev = if i = 0 then none else some (b.filter (i - 1)).addr
  next : (b.filter i).next =
    if i + 1 < b.streamFilters.length then some (b.filter (i + 1)).addr else none

/-- What holds of the filters at any time: each knows its place, those below the last one are
connected and have nothing to send, and they are closed from the last one down. -/
structure Chain (b : StreamBuffer) : Prop where
  linked : ∀ i, i < b.streamFilters.length → Linked b i
  inner : ∀ i, i + 1 < b.streamFilters.length →
    (b.filter i).connected = true ∧ (b.filter i).pendingOut = []
  topDown : ∀ i j, i < j → j < b.streamFilters.length →
    (b.filter i).readClosed = true ∨ (b.filter i).writeClosed = true → (b.filter j).closed = true

/-- The chain depends on the list of filters only. -/
theorem Chain.congr (hc : Chain b) (hf : b'.streamFilters = b.streamFilters) : Chain b' := by
  have hfilter : ∀ i, b'.filter i = b.filter i := fun i => by simp only [filter, hf]
  refine ⟨fun i hi => ?_, fun i hi => ?_, fun i j hij hj => ?_⟩
  · obtain ⟨ho, hp, hn⟩ := hc.linked i (by rw [← hf]; exact hi)
    exact ⟨by rw [hfilter]; exact ho, by rw [hfilter, hfilter]; exact hp,
      by rw [hfilter, hfilter, hf]; exact hn⟩
  · rw [hfilter]
    exact hc.inner i (by rw [← hf]; exact hi)
  · rw [hfilter, hfilter]
    exact hc.topDown i j hij (by rw [← hf]; exact hj)

/-- A frame leaves the chain in order. -/
theorem Chain.touched (hc : Chain b) (ht : Touched b fr i f) (hs : Stage b (fr :: rest)) :
    Chain (b.setFilter i f) := by
  have hlinks : ∀ j, SameLinks ((b.setFilter i f).filter j) (b.filter j) := by
    intro j
    rw [filter_setFilter]
    split
    case isTrue hij => exact hij.1 ▸ ht.sameLinks
    case isFalse => exact ⟨rfl, rfl, rfl, rfl⟩
  have hclosed : ∀ j, (b.filter j).closed = true → ((b.setFilter i f).filter j).closed = true := by
    intro j hj
    rw [filter_setFilter]
    split
    case isTrue hij => exact ht.closed_mono (hij.1 ▸ hj)
    case isFalse => exact hj
  refine ⟨fun j hj => ?_, fun j hj => ?_, fun j j' hjj' hj' hflag => ?_⟩
  · rw [length_setFilter] at hj
    obtain ⟨ho, hp, hn⟩ := hc.linked j hj
    refine ⟨by rw [(hlinks j).order]; exact ho, ?_, ?_⟩
    · rw [(hlinks j).prev, (hlinks (j - 1)).addr]
      exact hp
    · rw [(hlinks j).next, (hlinks (j + 1)).addr, length_setFilter]
      exact hn
  · rw [length_setFilter] at hj
    obtain ⟨hconn, hpend⟩ := hc.inner j hj
    rw [filter_setFilter]
    split
    case isFalse => exact ⟨hconn, hpend⟩
    case isTrue hij =>
        obtain ⟨rfl, -⟩ := hij
        refine ⟨ht.connected_mono hconn, (ht.pendingOut hpend).resolve_right fun hback => ?_⟩
        simp only [backIndex] at hback
        omega
  · rw [length_setFilter] at hj'
    by_cases hij : i = j ∧ i < b.streamFilters.length
    · rw [filter_setFilter, if_pos hij] at hflag
      obtain ⟨rfl, -⟩ := hij
      refine hclosed j' ?_
      rcases ht.above hs with ⟨hr, hw⟩ | habove
      · rw [hr, hw] at hflag
        exact hc.topDown i j' hjj' hj' hflag
      · exact habove j' hjj' hj'
    · rw [filter_setFilter, if_neg hij] at hflag
      exact hclosed j' (hc.topDown j j' hjj' hj' hflag)

/-- The filters after one has been added: the old ones, the old last one with its `next_`
set, and the new one. -/
theorem filter_added {addr : Nat} (hne : b.streamFilters ≠ [])
    (hadd : b.addStreamBufferFilter (.new addr) = .ok b') :
    (∀ j, j + 1 < b.streamFilters.length → b'.filter j = b.filter j) ∧
      b'.filter b.backIndex = { b.back with next := some addr } ∧
      b'.filter b.streamFilters.length =
        { Filter.new addr with prev := some b.back.addr, order := b.back.order + 1 } := by
  obtain ⟨-, ⟨hnil, -⟩ | ⟨-, rfl⟩⟩ := addStreamBufferFilter_cases hadd
  · exact absurd hnil hne
  have hpos := List.length_pos_iff.mpr hne
  have hset := filter_setFilter b b.backIndex
  refine ⟨fun j hj => ?_, ?_, ?_⟩
  · have hsame := hset j { b.back with next := some addr }
    rw [if_neg (by simp only [backIndex]; omega)] at hsame
    rw [← hsame]
    simp only [filter]
    rw [List.getD_append _ _ _ _ (by simp; omega)]
    rfl
  · have hsame := hset b.backIndex { b.back with next := some addr }
    rw [if_pos ⟨rfl, by simp only [backIndex]; omega⟩] at hsame
    rw [← hsame]
    simp only [filter]
    rw [List.getD_append _ _ _ _ (by simp [backIndex]; omega)]
    rfl
  · simp only [filter]
    rw [List.getD_append_right _ _ _ _ (by simp)]
    simp

/-- Adding a filter gives none of them anything to send. -/
theorem pendingOut_added {addr : Nat} (hne : b.streamFilters ≠ [])
    (hadd : b.addStreamBufferFilter (.new addr) = .ok b') (j : Nat) :
    (b'.filter j).pendingOut = (b.filter j).pendingOut := by
  obtain ⟨hold, hlast, hnew⟩ := filter_added hne hadd
  have hpos := List.length_pos_iff.mpr hne
  have hout : ∀ {b : StreamBuffer} {j}, b.streamFilters.length ≤ j →
      (b.filter j).pendingOut = [] := by
    intro b j hj
    by_contra hne
    exact absurd (lt_length_of_pendingOut hne) (by omega)
  rcases Nat.lt_trichotomy j b.streamFilters.length with hlt | rfl | hgt
  · by_cases hj : j + 1 < b.streamFilters.length
    · rw [hold j hj]
    · obtain rfl : j = b.backIndex := by simp only [backIndex]; omega
      rw [hlast]
      rfl
  · rw [hnew, hout (Nat.le_refl _)]
    rfl
  · rw [hout (Nat.le_of_lt hgt), hout]
    rw [length_addStreamBufferFilter hadd]
    exact hgt

/-- The added filter is the last one, fresh, and no other may be added. -/
theorem back_added {addr : Nat} (hne : b.streamFilters ≠ [])
    (hadd : b.addStreamBufferFilter (.new addr) = .ok b') :
    b'.back.Pristine ∧ b'.addFilterAllowed = false := by
  have hback : b'.back = b'.filter b.streamFilters.length := by
    rw [back, backIndex, length_addStreamBufferFilter hadd, Nat.add_sub_cancel]
  refine ⟨?_, ?_⟩
  · rw [hback, (filter_added hne hadd).2.2]
    exact ⟨rfl, rfl, rfl⟩
  · obtain ⟨-, ⟨-, rfl⟩ | ⟨-, rfl⟩⟩ := addStreamBufferFilter_cases hadd <;> rfl

/-- A filter is stacked on a chain whose last filter is connected and untouched, and is linked
with it. -/
theorem Chain.added {addr : Nat} (hc : Chain b) (hne : b.streamFilters ≠ [])
    (hback : b.back.connected = true) (hp : b.back.Pristine)
    (hadd : b.addStreamBufferFilter (.new addr) = .ok b') : Chain b' := by
  obtain ⟨hold, hlast, hnew⟩ := filter_added hne hadd
  have hlen := length_addStreamBufferFilter hadd
  have hpos := List.length_pos_iff.mpr hne
  have hidx : b.backIndex + 1 = b.streamFilters.length := by simp only [backIndex]; omega
  -- all but the `next_` of the old last filter is as before
  have hkept : ∀ j, j < b.streamFilters.length →
      ∃ nx, b'.filter j = { b.filter j with next := nx } := by
    intro j hj
    by_cases hj' : j + 1 < b.streamFilters.length
    · exact ⟨_, hold j hj'⟩
    · obtain rfl : j = b.backIndex := by omega
      exact ⟨_, hlast⟩
  have haddr : ∀ j, j < b.streamFilters.length → (b'.filter j).addr = (b.filter j).addr := by
    intro j hj
    obtain ⟨nx, hnx⟩ := hkept j hj
    rw [hnx]
  refine ⟨fun j hj => ?_, fun j hj => ?_, fun i j hij hj hflag => ?_⟩
  · rcases Nat.lt_trichotomy j b.streamFilters.length with hlt | rfl | hgt
    · obtain ⟨ho, hpv, hnx⟩ := hc.linked j hlt
      obtain ⟨nx, heq⟩ := hkept j hlt
      refine ⟨by rw [heq]; exact ho, ?_, ?_⟩
      · rw [haddr (j - 1) (by omega), ← hpv, heq]
      · rw [if_pos (by omega)]
        by_cases hj' : j + 1 < b.streamFilters.length
        · rw [haddr (j + 1) hj', hold j hj', hnx, if_pos hj']
        · obtain rfl : j = b.backIndex := by omega
          rw [hlast, hidx, hnew]
          rfl
    · refine ⟨?_, ?_, ?_⟩
      · obtain ⟨ho, -, -⟩ := hc.linked b.backIndex (by omega)
        rw [hnew]
        change b.back.order + 1 = _
        rw [back, ho, ← hidx]
        simp [UInt32.ofNat_add]
      · rw [hnew, if_neg (by omega), show b.streamFilters.length - 1 = b.backIndex from rfl,
          haddr b.backIndex (by omega)]
        rfl
      · rw [hnew, if_neg (by omega)]
        rfl
    · omega
  · obtain ⟨nx, heq⟩ := hkept j (by omega)
    rw [heq]
    by_cases hj' : j + 1 < b.streamFilters.length
    · exact hc.inner j hj'
    · obtain rfl : j = b.backIndex := by omega
      exact ⟨hback, hp.pendingOut⟩
  · obtain ⟨nx, heq⟩ := hkept i (by omega)
    rw [heq] at hflag
    exfalso
    -- the old last filter is open, so none below it is closed
    have hopen : ¬ ((b.filter i).readClosed = true ∨ (b.filter i).writeClosed = true) := by
      intro hflag'
      by_cases hi' : i + 1 < b.streamFilters.length
      · have hclosed := hc.topDown i b.backIndex (by omega) (by omega) hflag'
        have : b.back.closed = true := hclosed
        simp [Filter.closed, hp.readClosed] at this
      · obtain rfl : i = b.backIndex := by omega
        rcases hflag' with hr | hw
        · exact absurd (hp.readClosed.symm.trans hr) (by simp)
        · exact absurd (hp.writeClosed.symm.trans hw) (by simp)
    exact hopen hflag

end StreamBuffer

namespace BufferState

variable {κ ρ : Type} {env : FilterEnv κ ρ} {l : BufferLabel ρ} {s s' : BufferState κ}
  {o tr : List (Obs ρ)} {ok : BufferLabel ρ → BufferState κ → Prop} {mode : StreamBufferMode}
  {addr : Nat} {k : κ}

open StreamBuffer (Stage Touched Chain Answered)

/-! ### Runs -/

/-- The chain is in order, and a call that has not crashed is in one of the stages. -/
structure ChainInv (s : BufferState κ) : Prop where
  chain : Chain s.buffer
  stage : s.crashed = none → Stage s.buffer s.stack

/-- Where a filter may be added, the last one is connected and untouched. -/
theorem handleConnected_of_allowed (hopen : OpenInv tr s) (hcr : s.crashed = none)
    (hs : Stage s.buffer s.stack) (hal : s.buffer.addFilterAllowed = true)
    (hcb : s.stack = [] ∨ ∃ c rest, s.stack = .callback c :: rest) :
    s.stack = [.callback .handleConnected, .connected, .modifyEvent, .doFinalize] ∧
      s.buffer.back.connected = true ∧ s.buffer.back.Pristine := by
  have hmem := hopen.allowed hcr hal
  rcases hcb with hnil | ⟨c, rest, hstack⟩
  · rw [hnil] at hmem
    exact absurd hmem (by simp)
  · rw [hstack] at hmem hs ⊢
    cases hs with
    | handleConnected hr hback => exact ⟨rfl, hback hal⟩
    | handleEOF => exact absurd hmem (by simp)
    | handleData => exact absurd hmem (by simp)

/-- **One step leads from stage to stage.** The innermost frame determines the stage, and its
outcome the next one; a step aside changes nothing the stages speak of, except that it may set
`should_close_`. -/
theorem stage_step (h : step env l s = some (s', o)) (hopen : OpenInv tr s)
    (hs : Stage s.buffer s.stack) (hcr' : s'.crashed = none) : Stage s'.buffer s'.stack := by
  obtain ⟨hcr, hmove⟩ := move_of_step h
  cases hmove with
  | aside ha =>
      rw [ha.stack]
      refine hs.congr ha.filters (fun hal => by rw [← ha.addFilterAllowed]; exact hal) ?_
      rcases ha.shouldClose with ⟨hcl, -⟩ | ⟨hcl, -⟩
      · exact fun hset => hcl.trans hset
      · exact fun _ => hcl
  | added hcb hadd =>
      have hal := (StreamBuffer.addStreamBufferFilter_cases hadd).1
      obtain ⟨hstack, -⟩ := handleConnected_of_allowed hopen hcr hs hal hcb
      obtain ⟨hp, hal'⟩ := StreamBuffer.back_added hopen.nonempty hadd
      change Stage _ s.stack
      rw [hstack]
      exact .handleConnected (fun _ _ => hp) fun hal'' => absurd hal'' (by simp [hal'])
  | ret hstack =>
      rw [hstack] at hs
      cases hs with
      | handleEOF hr => exact .closeEvent hr
      | handleConnected hr => exact .connected hr
      | handleData hi hconn => exact .read hi hconn
  | enter hstack hn =>
      obtain ⟨hb, -, hthrew, hframes⟩ := StreamBuffer.handleEvents_cases hn
      rw [resume_of_threw_none hthrew, hb, List.append_nil]
      rw [hstack] at hs
      cases hs with
      | idle hr =>
          rcases hframes with ⟨-, hf⟩ | ⟨-, hcl, hf⟩ | ⟨-, hcl, hconn, hf⟩ | ⟨-, hcl, hconn, hf⟩ <;>
            rw [hf]
          · exact .closeEvent hr
          · exact .doClose rfl hcl
          · exact .doConnect hconn (hr hcl hconn)
          · exact .doRead hconn
  | run hstack hrun =>
      rw [resume_of_threw_none (StreamBuffer.runFrame_threw hrun)]
      rw [hstack] at hs
      exact hs.run hopen.nonempty hrun
  | @answer fr rest r n k hstack hans =>
      rw [hstack] at hs
      cases hthrew : n.threw with
      | some e =>
          rw [resume_of_threw hthrew] at hcr'
          exact absurd hcr' (by simp)
      | none =>
          rw [resume_of_threw_none hthrew]
          exact hs.answer hopen.nonempty hans hthrew

/-- How a step changes the filters: not at all, one of them in the frame on top of the stack,
or by adding one. -/
theorem filters_step (h : step env l s = some (s', o)) :
    s'.buffer.streamFilters = s.buffer.streamFilters ∨
      (∃ fr rest i f, s.stack = fr :: rest ∧ (fr = .doWrite → l = .run) ∧
        Touched s.buffer fr i f ∧
        s'.buffer.streamFilters = (s.buffer.setFilter i f).streamFilters) ∨
      ((s.stack = [] ∨ ∃ c rest, s.stack = .callback c :: rest) ∧
        ∃ addr, s.buffer.addStreamBufferFilter (.new addr) = .ok s'.buffer) := by
  obtain ⟨-, hmove⟩ := move_of_step h
  cases hmove with
  | aside ha => exact .inl ha.filters
  | ret => exact .inl rfl
  | added hcb hadd => exact .inr (.inr ⟨hcb, _, hadd⟩)
  | enter hstack hn =>
      obtain ⟨hb, -⟩ := StreamBuffer.handleEvents_cases hn
      exact .inl (by rw [resume_buffer, hb])
  | run hstack hrun =>
      rw [resume_buffer]
      rcases StreamBuffer.runFrame_touched hrun with hsame | ⟨i, f, ht, hset⟩
      · exact .inl hsame
      · exact .inr (.inl ⟨_, _, i, f, hstack, fun _ => rfl, ht, hset⟩)
  | @answer fr rest r n k hstack hans =>
      have hbuf : ({ s.resume rest n with env := k } : BufferState κ).buffer = n.buffer :=
        resume_buffer s rest n
      rw [hbuf]
      rcases StreamBuffer.answerFrame_touched hans with hsame | ⟨i, f, ht, hset⟩
      · exact .inl hsame
      · refine .inr (.inl ⟨_, _, i, f, hstack, ?_, ht, hset⟩)
        rintro rfl
        exact absurd hans (by simp [StreamBuffer.answerFrame])

/-- **One step keeps the chain in order.** A frame touches one filter, and where
`HandleConnected` adds another the stage says that the last one is connected and has nothing to
send. -/
theorem chainInv_step (h : step env l s = some (s', o)) (hopen : OpenInv tr s) (hi : ChainInv s) :
    ChainInv s' := by
  have hcr := (step_inv h).1
  have hs := hi.stage hcr
  refine ⟨?_, stage_step h hopen hs⟩
  rcases filters_step h with hsame | ⟨fr, rest, i, f, hstack, -, ht, hset⟩ | ⟨hcb, addr, hadd⟩
  · exact hi.chain.congr hsame
  · rw [hstack] at hs
    exact (hi.chain.touched ht hs).congr hset
  · have hal := (StreamBuffer.addStreamBufferFilter_cases hadd).1
    obtain ⟨-, hconn, hp⟩ := handleConnected_of_allowed hopen hcr hs hal hcb
    exact hi.chain.added hopen.nonempty hconn hp hadd

/-- The chain is in order in every state that a run reaches. -/
theorem chainInv_of_run (h : GuardedRun (bufferSystem env) ok (init mode addr k) tr s) :
    ChainInv s := by
  refine h.invariant (I := fun _ s => ChainInv s) ?_ fun hrun hi _ hs =>
    chainInv_step hs (openInv_of_run hrun) hi
  refine ⟨⟨fun i hi => ?_, fun i hi => ?_, fun i j hij hj => ?_⟩, fun _ => .idle fun _ _ => ?_⟩
  · obtain rfl : i = 0 := by simpa [init, StreamBuffer.create_eq] using hi
    exact ⟨rfl, rfl, rfl⟩
  · simp [init, StreamBuffer.create_eq] at hi
  · simp [init, StreamBuffer.create_eq] at hj
    omega
  · exact ⟨rfl, rfl, rfl⟩

/-! ### Adding and sending -/

/-- A filter is added by the user, in a callback or between two calls. -/
theorem filterAdded_of_step (h : step env l s = some (s', o)) {a : Nat}
    (hmem : .filterAdded a ∈ o) :
    o = [.filterAdded a] ∧ (s.stack = [] ∨ ∃ c rest, s.stack = .callback c :: rest) ∧
      s.buffer.addStreamBufferFilter (.new a) = .ok s'.buffer := by
  obtain ⟨-, hmove⟩ := move_of_step h
  cases hmove with
  | aside ha => exact absurd (ha.obs _ hmem) (by simp [Obs.aside])
  | ret => exact absurd hmem (by simp)
  | added hcb hadd =>
      obtain rfl : a = _ := by simpa using hmem
      exact ⟨rfl, hcb, hadd⟩
  | enter hstack hn =>
      obtain ⟨-, hobs, -⟩ := StreamBuffer.handleEvents_cases hn
      exact absurd hmem (by simp [hobs])
  | run hstack hrun =>
      rcases StreamBuffer.runFrame_obs hrun with ho | ⟨ds, ho⟩ | ho | ho | ho | ho <;>
        exact absurd hmem (by simp [ho])
  | answer hstack hans =>
      obtain ⟨x, hx, ho | ⟨c, ho⟩⟩ := StreamBuffer.answerFrame_obs hans
      · obtain rfl : .filterAdded a = x := by simpa [ho] using hmem
        exact absurd hx.isAnswer (by simp [Obs.isAnswer])
      · obtain rfl : .filterAdded a = x := by simpa [ho] using hmem
        exact absurd hx.isAnswer (by simp [Obs.isAnswer])

/-- Every answer a step shows was asked for by the frame on top of the stack. -/
theorem answered_of_step (h : step env l s = some (s', o)) {x : Obs ρ} (hx : x.isAnswer = true)
    (hmem : x ∈ o) : ∃ fr rest, s.stack = fr :: rest ∧ Answered s.buffer fr x := by
  obtain ⟨-, hmove⟩ := move_of_step h
  cases hmove with
  | aside ha =>
      have haside := ha.obs x hmem
      cases x <;> simp [Obs.isAnswer, Obs.aside] at hx haside
  | ret => exact absurd hmem (by simp)
  | added hcb hadd =>
      obtain rfl := List.mem_singleton.mp hmem
      exact absurd hx (by simp [Obs.isAnswer])
  | enter hstack hn =>
      obtain ⟨-, hobs, -⟩ := StreamBuffer.handleEvents_cases hn
      obtain rfl : x = .handleEvents _ := by simpa [hobs] using hmem
      exact absurd hx (by simp [Obs.isAnswer])
  | run hstack hrun =>
      rcases StreamBuffer.runFrame_obs hrun with ho | ⟨ds, ho⟩ | ho | ho | ho | ho <;>
        rw [ho] at hmem <;> simp at hmem <;> rw [hmem] at hx <;> simp [Obs.isAnswer] at hx
  | answer hstack hans =>
      obtain ⟨y, hy, ho | ⟨c, ho⟩⟩ := StreamBuffer.answerFrame_obs hans <;> rw [ho] at hmem
      · obtain rfl := List.mem_singleton.mp hmem
        exact ⟨_, _, hstack, hy⟩
      · rcases List.mem_pair.mp hmem with rfl | rfl
        · exact ⟨_, _, hstack, hy⟩
        · exact absurd hx (by simp [Obs.isAnswer])

/-- The count of added filters since the last `HandleConnected`, after one observation. -/
def countAdded (n : Nat) : Obs ρ → Nat
  | .callback .handleConnected => 0
  | .filterAdded _ => n + 1
  | _ => n

/-- How many filters have been added since `HandleConnected` was last called. -/
def addedSince (tr : List (Obs ρ)) : Nat := tr.foldl countAdded 0

/-- Observations that add nothing: the count starts again with `HandleConnected`. -/
theorem addedSince_append (tr : List (Obs ρ)) (h : ∀ a, .filterAdded a ∉ o) :
    (.callback .handleConnected ∉ o → addedSince (tr ++ o) = addedSince tr) ∧
      (.callback .handleConnected ∈ o → addedSince (tr ++ o) = 0) := by
  induction o using List.reverseRecOn with
  | nil => simp
  | append_singleton o x ih =>
      have hlast : addedSince (tr ++ (o ++ [x])) = countAdded (addedSince (tr ++ o)) x := by
        simp [addedSince, List.foldl_append]
      obtain ⟨hsame, hzero⟩ := ih fun a hmem => h a (List.mem_append_left _ hmem)
      rw [hlast]
      by_cases hx : x = .callback .handleConnected
      · subst hx
        exact ⟨fun hno => absurd (by simp) hno, fun _ => rfl⟩
      · have hcount : ∀ m, countAdded m x = m := by
          intro m
          cases x with
          | filterAdded a => exact absurd (List.mem_append_right o (by simp)) (h a)
          | callback c =>
              cases c with
              | handleConnected => exact absurd rfl hx
              | handleData d => rfl
              | handleEOF => rfl
          | _ => rfl
        rw [hcount]
        constructor
        · exact fun hno => hsame fun hmem => hno (List.mem_append_left _ hmem)
        · intro hmem
          rcases List.mem_append.mp hmem with hmem | hmem
          · exact hzero hmem
          · exact absurd (List.mem_singleton.mp hmem).symm hx

/-- One filter a callback. -/
structure AddedOnce (tr : List (Obs ρ)) (s : BufferState κ) : Prop where
  atMostOne : addedSince tr ≤ 1
  allowed : s.buffer.addFilterAllowed = true → addedSince tr = 0

/-- A filter may be added again when `HandleConnected` has been called. -/
theorem allowed_of_step (h : step env l s = some (s', o))
    (hal : s'.buffer.addFilterAllowed = true) :
    (s.buffer.addFilterAllowed = true ∧ ∀ a, .filterAdded a ∉ o) ∨
      .callback .handleConnected ∈ o := by
  by_cases hadd : ∃ a, .filterAdded a ∈ o
  · obtain ⟨a, hmem⟩ := hadd
    obtain ⟨-, -, hok⟩ := filterAdded_of_step h hmem
    obtain ⟨-, ⟨-, hb⟩ | ⟨-, hb⟩⟩ := StreamBuffer.addStreamBufferFilter_cases hok <;>
      exact absurd hal (by simp [hb])
  have hnone : ∀ a, .filterAdded a ∉ o := fun a hmem => hadd ⟨a, hmem⟩
  obtain ⟨-, hmove⟩ := move_of_step h
  cases hmove with
  | aside ha => exact .inl ⟨by rw [← ha.addFilterAllowed]; exact hal, hnone⟩
  | ret => exact .inl ⟨hal, hnone⟩
  | added => exact absurd (List.mem_singleton.mpr rfl) (hnone _)
  | enter hstack hn =>
      obtain ⟨hb, -⟩ := StreamBuffer.handleEvents_cases hn
      rw [resume_buffer, hb] at hal
      exact .inl ⟨hal, hnone⟩
  | run hstack hrun =>
      rw [resume_buffer] at hal
      rcases StreamBuffer.runFrame_plain hrun with hp | ⟨rfl, -, -, -, rfl⟩
      · rw [hp.addFilterAllowed, Bool.and_eq_true] at hal
        exact .inl ⟨hal.1, hnone⟩
      · exact .inl ⟨hal, hnone⟩
  | @answer fr rest r n k hstack hans =>
      change (s.resume rest n).buffer.addFilterAllowed = true at hal
      rw [resume_buffer] at hal
      rcases StreamBuffer.answerFrame_plain hans with hp | ⟨i, x, d, rfl, -, -, rfl⟩ | ⟨rfl, rfl⟩
      · rw [hp.addFilterAllowed, Bool.and_eq_true] at hal
        exact .inl ⟨hal.1, hnone⟩
      · exact .inl ⟨hal, hnone⟩
      · exact .inr (by simp)

/-- **One step keeps the count at one.** `add_filter_allowed_` is cleared by the filter that is
added and set again by the next `HandleConnected` only. -/
theorem addedOnce_step (h : step env l s = some (s', o)) (hi : AddedOnce tr s) :
    AddedOnce (tr ++ o) s' := by
  by_cases hadd : ∃ a, .filterAdded a ∈ o
  · obtain ⟨a, hmem⟩ := hadd
    obtain ⟨rfl, -, hok⟩ := filterAdded_of_step h hmem
    obtain ⟨hal, -⟩ := StreamBuffer.addStreamBufferFilter_cases hok
    have hone : addedSince (tr ++ [.filterAdded a]) = addedSince tr + 1 := by
      simp [addedSince, List.foldl_append, countAdded]
    refine ⟨by simp [hone, hi.allowed hal], fun hal' => ?_⟩
    rcases allowed_of_step h hal' with ⟨-, hno⟩ | hno
    · exact absurd hmem (hno a)
    · exact absurd hno (by simp)
  · have hnone : ∀ a, .filterAdded a ∉ o := fun a hmem => hadd ⟨a, hmem⟩
    obtain ⟨hsame, hzero⟩ := addedSince_append tr hnone
    by_cases hcb : .callback .handleConnected ∈ o
    · exact ⟨by rw [hzero hcb]; exact Nat.zero_le 1, fun _ => hzero hcb⟩
    · refine ⟨by rw [hsame hcb]; exact hi.atMostOne, fun hal => ?_⟩
      rw [hsame hcb]
      exact hi.allowed ((allowed_of_step h hal).resolve_right hcb).1

theorem addedOnce_of_run (h : GuardedRun (bufferSystem env) ok (init mode addr k) tr s) :
    AddedOnce tr s :=
  h.invariant ⟨Nat.zero_le 1, fun _ => rfl⟩ fun _ hi _ hs => addedOnce_step hs hi

/-- **The chain of filters.** At any time each filter knows its place and its neighbours;
every filter but the last is connected and has nothing left to send; and at most one filter
has been added since `HandleConnected` was last called. A filter is only ever added inside
that callback, and the buffer itself calls `Out` on the last filter only. -/
theorem chain_of_filters (h : Run (bufferSystem env) (init mode addr k) tr s) :
    (∀ i, i < s.buffer.streamFilters.length → s.buffer.Linked i) ∧
    (∀ i, i + 1 < s.buffer.streamFilters.length →
      (s.buffer.filter i).connected = true ∧ (s.buffer.filter i).pendingOut = []) ∧
    addedSince tr ≤ 1 ∧
    (∀ l s' o, step env l s = some (s', o) →
      (∀ a, .filterAdded a ∈ o →
        (∃ rest, s.stack = .callback .handleConnected :: rest) ∧ addedSince tr = 0) ∧
      (∀ i d r res, .out i d r res ∈ o → i + 1 = s.buffer.streamFilters.length)) := by
  have hinv := chainInv_of_run h
  have hadded := addedOnce_of_run h
  have hopen := openInv_of_run h
  refine ⟨hinv.chain.linked, hinv.chain.inner, hadded.atMostOne, fun l s' o hs => ⟨?_, ?_⟩⟩
  · intro a hmem
    have hcr := (step_inv hs).1
    obtain ⟨-, hcb, hok⟩ := filterAdded_of_step hs hmem
    obtain ⟨hal, -⟩ := StreamBuffer.addStreamBufferFilter_cases hok
    obtain ⟨hstack, -⟩ := handleConnected_of_allowed hopen hcr (hinv.stage hcr) hal hcb
    exact ⟨⟨_, hstack⟩, hadded.allowed hal⟩
  · intro i d r res hmem
    obtain ⟨fr, rest, -, hans⟩ := answered_of_step hs rfl hmem
    cases hans with
    | out hfr hpend =>
        -- only the last filter can have something to send
        have hlt := StreamBuffer.lt_length_of_pendingOut (i := i) (b := s.buffer)
          (by rw [hpend]; exact List.cons_ne_nil _ _)
        by_contra hne
        have hnil := (hinv.chain.inner i (by omega)).2
        rw [hpend] at hnil
        exact absurd hnil (by simp)

/-- Two filters, linked to each other, at the end of the schedule. -/
theorem chain_of_filters_twoFilters :
    ∃ tr s, Run (bufferSystem readyEnv) (init .client 0 ()) tr s ∧
      s.buffer.streamFilters.length = 2 ∧ s.buffer.Linked 1 ∧
      (s.buffer.filter 0).connected = true ∧ addedSince tr ≤ 1 := by
  have hexec : exec (bufferSystem readyEnv) (fun _ _ => true) twoFilters (init .client 0 ()) =
      some (_, _) := rfl
  have hrun : Run (bufferSystem readyEnv) (init .client 0 ()) _ _ :=
    .of_exec (fun _ _ _ => trivial) hexec
  obtain ⟨hlinked, hinner, hadded, -⟩ := chain_of_filters hrun
  exact ⟨_, _, hrun, rfl, hlinked 1 (by decide), (hinner 0 (by decide)).1, hadded⟩

end BufferState

end Libael
