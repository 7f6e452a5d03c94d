import Libael.StreamBuffer.Machine

/-!
# Libael.StreamBuffer.Frames

What one frame of a `HandleEvents` call can change, for a chain of any length.
Every invariant of the stream buffer is read off these lemmas: only `DoWrite`
moves data between the two lists, only the two `Out` loops call `Out`, and a
frame that calls `Out` is always on top of the stack.

* `FrameRun` has one constructor for each branch of a frame that asks no filter. `runFrame` is
  taken apart once, in `frameRun`, and what such a frame keeps, shows and pushes is a case
  analysis of the outcome.
* `callOut_cases` and `answerFrame_cases` do the same for the frames that wait for a filter: the
  two `Out` loops on one side, `In`, `Shutdown`, `Connect` and `Accept` on the other.
* `DataKept` collects what most steps leave alone, so that the few that move data stand
  out in the invariants built on top.
-/

namespace Libael

/-- The frames that call `Out`. -/
def Frame.sends : Frame → Bool
  | .write _ | .flush _ => true
  | _ => false

/-- The observations that carry data in or out of the buffer. -/
def Obs.isData {ρ : Type} : Obs ρ → Bool
  | .accepted _ | .out _ _ _ _ => true
  | _ => false

/-- The observations that say how a filter has answered. -/
def Obs.isAnswer {ρ : Type} : Obs ρ → Bool
  | .in _ _ _ | .out _ _ _ _ | .connect _ _ | .shutdown _ _ => true
  | _ => false

namespace StreamBuffer

variable {κ ρ : Type} {b : StreamBuffer} {fr : Frame} {n : Next ρ StreamBuffer}

/-! ### Filters of a buffer -/

@[simp] theorem length_setFilter (b : StreamBuffer) (i : Nat) (f : Filter) :
    (b.setFilter i f).streamFilters.length = b.streamFilters.length := by
  simp [setFilter]

@[simp] theorem backIndex_setFilter (b : StreamBuffer) (i : Nat) (f : Filter) :
    (b.setFilter i f).backIndex = b.backIndex := by
  simp [backIndex]

theorem filter_setFilter (b : StreamBuffer) (i j : Nat) (f : Filter) :
    (b.setFilter i f).filter j =
      if i = j ∧ i < b.streamFilters.length then f else b.filter j := by
  simp only [filter, setFilter, List.getD_eq_getElem?_getD, List.getElem?_set]
  by_cases hij : i = j
  · subst hij
    by_cases hi : i < b.streamFilters.length <;> simp [hi]
  · simp [hij]

/-- An out-of-range filter has nothing to send. -/
theorem lt_length_of_pendingOut {i : Nat} (h : (b.filter i).pendingOut ≠ []) :
    i < b.streamFilters.length := by
  by_contra hi
  exact h (by simp [filter, List.getElem?_eq_none (Nat.le_of_not_lt hi)]; rfl)

/-- Updates of a filter that keep its `pending_out_` keep everyone's. -/
theorem pendingOut_setFilter (b : StreamBuffer) (i j : Nat) {f : Filter}
    (hf : f.pendingOut = (b.filter i).pendingOut) :
    ((b.setFilter i f).filter j).pendingOut = (b.filter j).pendingOut := by
  rw [filter_setFilter]
  split
  case isTrue h => rw [hf, h.1]
  case isFalse => rfl

/-- A filter is added in front of nothing or behind the last one, and only when that
is allowed. -/
theorem addStreamBufferFilter_cases {b' : StreamBuffer} {f : Filter}
    (h : b.addStreamBufferFilter f = .ok b') :
    b.addFilterAllowed = true ∧
      ((b.streamFilters = [] ∧ b' = { b with
          addFilterAllowed := false, streamFilters := [{ f with order := 0 }] }) ∨
        (b.streamFilters ≠ [] ∧ b' = { b with
          addFilterAllowed := false
          streamFilters :=
            (b.setFilter b.backIndex { b.back with next := some f.addr }).streamFilters ++
              [{ f with prev := some b.back.addr, order := b.back.order + 1 }] })) := by
  unfold addStreamBufferFilter at h
  split at h
  · exact absurd h (by simp)
  · rename_i hallowed
    refine ⟨by simpa using hallowed, ?_⟩
    dsimp only at h
    split at h
    · rename_i hemp
      exact .inl ⟨by simpa using hemp, (Except.ok.inj h).symm⟩
    · rename_i hemp
      exact .inr ⟨by simpa using hemp, (Except.ok.inj h).symm⟩

theorem length_addStreamBufferFilter {b' : StreamBuffer} {f : Filter}
    (h : b.addStreamBufferFilter f = .ok b') :
    b'.streamFilters.length = b.streamFilters.length + 1 := by
  obtain ⟨-, ⟨hnil, rfl⟩ | ⟨-, rfl⟩⟩ := addStreamBufferFilter_cases h
  · simp [hnil]
  · simp

/-- An added filter is the last one. -/
theorem back_addStreamBufferFilter {b' : StreamBuffer} {f : Filter}
    (h : b.addStreamBufferFilter f = .ok b') : b'.back.connected = f.connected := by
  obtain ⟨-, ⟨-, rfl⟩ | ⟨-, rfl⟩⟩ := addStreamBufferFilter_cases h
  · rfl
  · have hback : ∀ (fs : List Filter) (x : Filter),
        ((fs ++ [x]).getD ((fs ++ [x]).length - 1) default) = x := fun fs x => by simp
    simp only [back, backIndex, filter, hback]

/-- What `HandleEvents` sets out to do. -/
theorem handleEvents_cases {alive : Bool} (h : n = b.handleEvents alive) :
    n.buffer = b ∧ n.obs = [.handleEvents alive] ∧ n.threw = none ∧
      ((alive = false ∧ n.frames = [.closeEvent]) ∨
        (alive = true ∧ b.shouldClose = true ∧ n.frames = [.doClose, .doFinalize]) ∨
        (alive = true ∧ b.shouldClose = false ∧ b.isConnected = false ∧
          n.frames = [.doConnect, .doFinalize]) ∨
        (alive = true ∧ b.shouldClose = false ∧ b.isConnected = true ∧
          n.frames = [.doRead, .doWrite, .doFinalize])) := by
  subst h
  cases alive with
  | false => simp [handleEvents]
  | true =>
      cases hclose : b.shouldClose <;> cases hconn : b.isConnected <;>
        simp [handleEvents, hclose, hconn]

/-- The frames a call starts with: none of them is in the middle of an `Out` loop or of a
`Close`. -/
theorem mem_handleEvents {alive : Bool} (h : n = b.handleEvents alive) (hmem : fr ∈ n.frames) :
    fr = .closeEvent ∨ fr = .doConnect ∨ fr = .doRead ∨ fr = .doWrite ∨ fr = .doFinalize ∨
      (fr = .doClose ∧ b.shouldClose = true) := by
  obtain ⟨-, -, -, hframes⟩ := handleEvents_cases h
  rcases hframes with ⟨-, hf⟩ | ⟨-, hclose, hf⟩ | ⟨-, -, -, hf⟩ | ⟨-, -, -, hf⟩ <;>
    simp only [hf, List.mem_cons, List.not_mem_nil, or_false] at hmem
  · exact .inl hmem
  · obtain rfl | rfl := hmem
    · exact .inr (.inr (.inr (.inr (.inr ⟨rfl, hclose⟩))))
    · exact .inr (.inr (.inr (.inr (.inl rfl))))
  · obtain rfl | rfl := hmem
    · exact .inr (.inl rfl)
    · exact .inr (.inr (.inr (.inr (.inl rfl))))
  · obtain rfl | rfl | rfl := hmem
    · exact .inr (.inr (.inl rfl))
    · exact .inr (.inr (.inr (.inl rfl)))
    · exact .inr (.inr (.inr (.inr (.inl rfl))))

theorem handleEvents_sends {alive : Bool} (h : n = b.handleEvents alive) (hmem : fr ∈ n.frames) :
    fr.sends = false := by
  rcases mem_handleEvents h hmem with rfl | rfl | rfl | rfl | rfl | ⟨rfl, -⟩ <;> rfl

/-! ### Frames that ask no filter -/

/-- The outcome of a frame that asks no filter. -/
inductive FrameRun (b : StreamBuffer) : Frame → Next ρ StreamBuffer → Prop
  /-- `DoRead` returns at once -/
  | readClosed : b.back.readClosed = true → FrameRun b .doRead { buffer := b }
  /-- `DoRead` calls `Read` of the last filter -/
  | reads : b.back.readClosed = false →
      FrameRun b .doRead { buffer := b, frames := [.read b.backIndex] }
  /-- `DoWrite` returns at once -/
  | writeClosed : b.back.writeClosed = true → FrameRun b .doWrite { buffer := b }
  /-- `DoWrite` finds `pending_writes_` empty -/
  | writesNothing : b.back.writeClosed = false → b.pendingWrites = [] →
      FrameRun b .doWrite { buffer := b, obs := [.swapped []] }
  /-- `DoWrite` moves `pending_writes_` behind `pending_out_`, and calls `Write` -/
  | writes : b.back.writeClosed = false → b.pendingWrites ≠ [] → FrameRun b .doWrite
      { buffer := { b.setFilter b.backIndex
            { b.back with pendingOut := b.back.pendingOut ++ b.pendingWrites } with
          pendingWrites := [] }
        frames := [.write b.backIndex]
        obs := [.swapped b.pendingWrites] }
  /-- the loop of `Write` has nothing left -/
  | written {i} : (b.filter i).pendingOut = [] → FrameRun b (.write i) { buffer := b }
  /-- `DoClose` writes first, since no filter is closed for writing -/
  | flushesAll : b.streamFilters.any (·.writeClosed) = false → FrameRun b .doClose
      { buffer := b, frames := [.doWrite, .closeFrom b.streamFilters.length] }
  /-- `DoClose` goes on to its loop at once -/
  | closesAll : b.streamFilters.any (·.writeClosed) = true → FrameRun b .doClose
      { buffer := b, frames := [.closeFrom b.streamFilters.length] }
  /-- the loop of `DoClose` is through -/
  | closedAll : FrameRun b (.closeFrom 0) { buffer := b }
  /-- it finds a filter that is closed -/
  | skips {k} : (b.filter k).closed = true →
      FrameRun b (.closeFrom (k + 1)) { buffer := b, frames := [.closeFrom k] }
  /-- it calls `Close` of a filter -/
  | closes {k} : (b.filter k).closed = false →
      FrameRun b (.closeFrom (k + 1)) { buffer := b, frames := [.close k, .closeCheck k] }
  /-- the filter is closed now, and the one below is next -/
  | goesOn {k} : (b.filter k).closed = true →
      FrameRun b (.closeCheck k) { buffer := b, frames := [.closeFrom k] }
  /-- the filter is not closed yet, and `DoClose` returns -/
  | waits {k} : (b.filter k).closed = false → FrameRun b (.closeCheck k) { buffer := b }
  /-- `Close` of a filter calls `Shutdown` -/
  | shutsDown {i} : flushDone (b.filter i) = true →
      FrameRun b (.close i) { buffer := b, frames := [.shutdown i] }
  /-- it has something to send before -/
  | flushes {i} : flushDone (b.filter i) = false →
      FrameRun b (.close i) { buffer := b, frames := [.flush i] }
  /-- the loop that flushes has nothing left -/
  | flushEnds {i} : (b.filter i).pendingOut = [] →
      FrameRun b (.flush i) { buffer := b, frames := [.flushed i] }
  /-- `Shutdown` is called behind it -/
  | flushed {i} : flushDone (b.filter i) = true →
      FrameRun b (.flushed i) { buffer := b, frames := [.shutdown i] }
  /-- something is left, and `Close` returns -/
  | notFlushed {i} : flushDone (b.filter i) = false → FrameRun b (.flushed i) { buffer := b }
  /-- `DoConnect` goes on behind `HandleConnected` -/
  | connected : FrameRun b .connected { buffer := { b with addFilterAllowed := false } }
  /-- `DoConnect` has the interest modified -/
  | modifyEvent : FrameRun b .modifyEvent { buffer := b, obs := [.modifyEvent] }
  /-- `DoFinalize` finds the last filter closed for reading, and closes the buffer -/
  | endOfFile : b.shouldClose = false → b.back.readClosed = true → FrameRun b .doFinalize
      { buffer := { b with shouldClose := true }
        frames := [.doClose, .finalizeEOF]
        obs := [.shouldClose] }
  /-- `DoFinalize` has nothing to close -/
  | finalizes : b.shouldClose = true ∨ b.back.readClosed = false →
      FrameRun b .doFinalize { buffer := b, frames := [.finalizeEOF] }
  /-- every filter is closed: `HandleEOF` is called, once -/
  | eof : b.isReadClosed = true → b.isWriteClosed = true → b.eofCalled = false →
      FrameRun b .finalizeEOF
        { buffer := { b with eofCalled := true }
          frames := [.callback .handleEOF, .closeEvent]
          obs := [.callback .handleEOF] }
  /-- the test for the end of file fails -/
  | noEof : ¬(b.isReadClosed = true ∧ b.isWriteClosed = true ∧ b.eofCalled = false) →
      FrameRun b .finalizeEOF { buffer := b }
  /-- `CloseEvent` behind `HandleEOF` -/
  | closeEvent : FrameRun b .closeEvent { buffer := b, obs := [.closeEvent] }

/-- **Inversion of the frames that ask no filter.** Everything else about such a frame is read
off its outcome. -/
theorem frameRun (h : b.runFrame fr = some n) : FrameRun b fr n := by
  cases fr with
  | doRead =>
      obtain rfl := Option.some.inj h
      unfold doRead
      split
      · rename_i hclosed
        exact .readClosed hclosed
      · rename_i hopen
        exact .reads (eq_false_of_ne_true hopen)
  | doWrite =>
      obtain rfl := Option.some.inj h
      unfold doWrite
      dsimp only
      split
      · rename_i hclosed
        exact .writeClosed hclosed
      · rename_i hopen
        split
        · rename_i hempty
          exact .writesNothing (eq_false_of_ne_true hopen) (List.isEmpty_iff.mp hempty)
        · rename_i hempty
          exact .writes (eq_false_of_ne_true hopen) (mt List.isEmpty_iff.mpr hempty)
  | write i =>
      simp only [runFrame] at h
      split at h
      · rename_i hempty
        obtain rfl := Option.some.inj h
        exact .written (List.isEmpty_iff.mp hempty)
      · exact absurd h (by simp)
  | doClose =>
      obtain rfl := Option.some.inj h
      unfold doClose
      dsimp only
      split
      · rename_i hflush
        exact .flushesAll (by simpa using hflush)
      · rename_i hflush
        exact .closesAll (by simpa using hflush)
  | closeFrom k =>
      cases k with
      | zero =>
          obtain rfl := Option.some.inj h
          exact .closedAll
      | succ k =>
          simp only [runFrame] at h
          split at h
          · rename_i hclosed
            obtain rfl := Option.some.inj h
            exact .skips hclosed
          · rename_i hopen
            obtain rfl := Option.some.inj h
            exact .closes (eq_false_of_ne_true hopen)
  | closeCheck k =>
      simp only [runFrame] at h
      split at h
      · rename_i hclosed
        obtain rfl := Option.some.inj h
        exact .goesOn hclosed
      · rename_i hopen
        obtain rfl := Option.some.inj h
        exact .waits (eq_false_of_ne_true hopen)
  | close i =>
      obtain rfl := Option.some.inj h
      unfold close
      split
      · rename_i hdone
        exact .shutsDown hdone
      · rename_i hdone
        exact .flushes (eq_false_of_ne_true hdone)
  | flush i =>
      simp only [runFrame] at h
      split at h
      · rename_i hempty
        obtain rfl := Option.some.inj h
        exact .flushEnds (List.isEmpty_iff.mp hempty)
      · exact absurd h (by simp)
  | flushed i =>
      simp only [runFrame] at h
      split at h
      · rename_i hdone
        obtain rfl := Option.some.inj h
        exact .flushed hdone
      · rename_i hdone
        obtain rfl := Option.some.inj h
        exact .notFlushed (eq_false_of_ne_true hdone)
  | connected =>
      obtain rfl := Option.some.inj h
      exact .connected
  | modifyEvent =>
      obtain rfl := Option.some.inj h
      exact .modifyEvent
  | doFinalize =>
      obtain rfl := Option.some.inj h
      unfold doFinalize
      split
      · rename_i hcond
        rw [Bool.and_eq_true, Bool.not_eq_true'] at hcond
        exact .endOfFile hcond.1 hcond.2
      · rename_i hcond
        refine .finalizes ?_
        cases hclose : b.shouldClose with
        | true => exact .inl rfl
        | false => exact .inr (by simpa [hclose] using hcond)
  | finalizeEOF =>
      obtain rfl := Option.some.inj h
      unfold finalizeEOF
      split
      · rename_i hcond
        simp only [Bool.and_eq_true, Bool.not_eq_true'] at hcond
        exact .eof hcond.1.1 hcond.1.2 hcond.2
      · rename_i hcond
        refine .noEof fun hall => hcond ?_
        simp [hall.1, hall.2.1, hall.2.2]
  | closeEvent =>
      obtain rfl := Option.some.inj h
      exact .closeEvent
  | read _ | shutdown _ | doConnect | callback _ => exact absurd h (by simp [runFrame])

theorem runFrame_threw (h : b.runFrame fr = some n) : n.threw = none := by
  cases frameRun h <;> rfl

/-- What `DoWrite` does: nothing on a filter closed for writing, else it takes all of
`pending_writes_`, and enters the `Out` loop if that was something. -/
theorem doWrite_cases (b : StreamBuffer) (n : Next ρ StreamBuffer) (h : n = b.doWrite) :
    (b.back.writeClosed = true ∧ n = { buffer := b }) ∨
    (b.back.writeClosed = false ∧ n.obs = [.swapped b.pendingWrites] ∧ n.threw = none ∧
      n.frames = (if b.pendingWrites.isEmpty then [] else [.write b.backIndex]) ∧
      n.buffer = { b.setFilter b.backIndex
        { b.back with pendingOut := b.back.pendingOut ++ b.pendingWrites } with
          pendingWrites := [] }) := by
  subst h
  by_cases hwc : b.back.writeClosed = true
  · exact .inl ⟨hwc, by simp [doWrite, hwc]⟩
  · refine .inr ⟨by simpa using hwc, ?_⟩
    by_cases hemp : b.pendingWrites = []
    · have hset : b.streamFilters.set b.backIndex b.back = b.streamFilters := by
        refine List.ext_getElem? fun i => ?_
        rw [List.getElem?_set]
        split_ifs with hi hlt
        · simp [← hi, back, filter, hlt]
        · rw [List.getElem?_eq_none (by omega)]
        · rfl
      simp only [doWrite, if_neg hwc, hemp, List.isEmpty_nil, if_true, setFilter,
        List.append_nil, hset, true_and]
      rw [← hemp]
    · simp [doWrite, hwc, hemp]

/-- Only `DoWrite` touches the filters or `pending_writes_`. -/
theorem runFrame_filters (h : b.runFrame fr = some n) (hfr : fr ≠ .doWrite) :
    n.buffer.streamFilters = b.streamFilters ∧ n.buffer.pendingWrites = b.pendingWrites ∧
      n.buffer.mode = b.mode := by
  cases frameRun h with
  | writeClosed _ | writesNothing _ _ | writes _ _ => exact absurd rfl hfr
  | _ => exact ⟨rfl, rfl, rfl⟩

theorem runFrame_shouldClose (h : b.runFrame fr = some n) (hs : b.shouldClose = true) :
    n.buffer.shouldClose = true := by
  cases frameRun h with
  | endOfFile _ _ => rfl
  | _ => exact hs

theorem runFrame_eofCalled (h : b.runFrame fr = some n) (he : b.eofCalled = true) :
    n.buffer.eofCalled = true := by
  cases frameRun h with
  | eof _ _ _ => rfl
  | _ => exact he

/-- What such a frame shows: never the answer of a filter. -/
theorem runFrame_obs (h : b.runFrame fr = some n) :
    n.obs = [] ∨ (∃ ds, n.obs = [.swapped ds]) ∨ n.obs = [.shouldClose] ∨
      n.obs = [.callback .handleEOF] ∨ n.obs = [.modifyEvent] ∨ n.obs = [.closeEvent] := by
  cases frameRun h with
  | writesNothing _ _ | writes _ _ => exact .inr (.inl ⟨_, rfl⟩)
  | endOfFile _ _ => exact .inr (.inr (.inl rfl))
  | eof _ _ _ => exact .inr (.inr (.inr (.inl rfl)))
  | modifyEvent => exact .inr (.inr (.inr (.inr (.inl rfl))))
  | closeEvent => exact .inr (.inr (.inr (.inr (.inr rfl))))
  | _ => exact .inl rfl

theorem runFrame_isData (h : b.runFrame fr = some n) : ∀ x ∈ n.obs, x.isData = false := by
  rcases runFrame_obs h with ho | ⟨ds, ho⟩ | ho | ho | ho | ho <;> simp [ho, Obs.isData]

/-- The `Out` loops are entered from `DoWrite` and from `Close`, each on a filter
that can still be written. -/
theorem runFrame_sends (h : b.runFrame fr = some n) {fr' : Frame} (hmem : fr' ∈ n.frames)
    (hsends : fr'.sends = true) :
    n.frames = [fr'] ∧
      ((fr = .doWrite ∧ fr' = .write b.backIndex ∧ b.back.writeClosed = false) ∨
        ∃ i, fr = .close i ∧ fr' = .flush i ∧ flushDone (b.filter i) = false) := by
  cases frameRun h with
  | writes hopen _ =>
      obtain rfl := List.mem_singleton.mp hmem
      exact ⟨rfl, .inl ⟨rfl, rfl, hopen⟩⟩
  | flushes hdone =>
      obtain rfl := List.mem_singleton.mp hmem
      exact ⟨rfl, .inr ⟨_, rfl, rfl, hdone⟩⟩
  | flushesAll _ | closes _ | endOfFile _ _ | eof _ _ _ =>
      simp only [List.mem_cons, List.not_mem_nil, or_false] at hmem
      obtain rfl | rfl := hmem <;> exact absurd hsends (by simp [Frame.sends])
  | reads _ | closesAll _ | skips _ | goesOn _ | shutsDown _ | flushEnds _ | flushed _
  | finalizes _ =>
      rw [List.mem_singleton.mp hmem] at hsends
      exact absurd hsends (by simp [Frame.sends])
  | _ => exact absurd hmem List.not_mem_nil

/-! ### Frames that ask a filter -/

/-- A frame that calls `Out` is one of the two loops. -/
theorem callOut_of_sends {env : FilterEnv κ ρ} {r : ρ} {k k' : κ}
    (h : b.answerFrame env r k fr = some (n, k')) (hfr : fr.sends = true) :
    ∃ i again after, (fr = .write i ∨ fr = .flush i) ∧
      b.callOut env i r k again after = some (n, k') := by
  cases fr with
  | write i => exact ⟨i, _, _, .inl rfl, h⟩
  | flush i => exact ⟨i, _, _, .inr rfl, h⟩
  | _ => exact absurd hfr (by simp [Frame.sends])

/-- The outcome of `Out` on the head `d` of `pending_out_` of the `i`-th filter, and
what becomes of the loop. -/
theorem callOut_cases {env : FilterEnv κ ρ} {i : Nat} {r : ρ} {k k' : κ} {again after : List Frame}
    (h : b.callOut env i r k again after = some (n, k')) :
    ∃ d rest res, (b.filter i).pendingOut = d :: rest ∧ env.out i r k d = some (res, k') ∧
      n.obs = [.out i d r res] ∧
      ((∃ e, res = .error e ∧ n.threw = some e ∧ n.frames = [] ∧
          n.buffer = b.setFilter i { b.filter i with pendingOut := rest }) ∨
        ∃ res' f' drain, res = .ok res' ∧ (b.filter i).afterOut rest res' = (f', drain) ∧
          n.threw = none ∧ n.buffer = b.setFilter i f' ∧
          n.frames = if drain = .consumed then again else after) := by
  unfold callOut at h
  cases hp : (b.filter i).pendingOut with
  | nil => simp [hp] at h
  | cons d rest =>
      simp only [hp, Option.map_eq_some_iff] at h
      obtain ⟨⟨res, k₁⟩, hout, heq⟩ := h
      refine ⟨d, rest, res, rfl, ?_⟩
      cases res with
      | error e =>
          obtain ⟨rfl, rfl⟩ := by simpa using heq
          exact ⟨hout, rfl, .inl ⟨e, rfl, rfl, rfl, rfl⟩⟩
      | ok res' =>
          obtain ⟨rfl, rfl⟩ := by simpa using heq
          exact ⟨hout, rfl, .inr ⟨res', _, _, rfl, rfl, rfl, rfl, rfl⟩⟩

/-- The frames pushed and the data of a buffer after a step that only touches flags. -/
structure DataKept (b : StreamBuffer) (n : Next ρ StreamBuffer) : Prop where
  pendingWrites : n.buffer.pendingWrites = b.pendingWrites
  pendingOut : ∀ j, (n.buffer.filter j).pendingOut = (b.filter j).pendingOut
  length : n.buffer.streamFilters.length = b.streamFilters.length
  obs : ∀ x ∈ n.obs, x.isData = false
  frames : ∀ fr ∈ n.frames, fr.sends = false

theorem afterIn_dataKept (b : StreamBuffer) (i : Nat) (res : InResult) :
    DataKept b (b.afterIn i res : Next ρ StreamBuffer) := by
  unfold afterIn
  split
  · exact ⟨rfl, fun j => pendingOut_setFilter b i j rfl, by simp, by simp, by simp⟩
  · split
    · exact ⟨rfl, fun _ => rfl, rfl, by simp [Obs.isData], by simp [Frame.sends]⟩
    · exact ⟨rfl, fun _ => rfl, rfl, by simp, by simp⟩

theorem afterShutdown_dataKept (b : StreamBuffer) (i : Nat) (res : ShutdownResult) :
    DataKept b (b.afterShutdown i res : Next ρ StreamBuffer) := by
  unfold afterShutdown
  split
  · exact ⟨rfl, fun j => pendingOut_setFilter b i j rfl, by simp, by simp, by simp⟩
  · exact ⟨rfl, fun _ => rfl, rfl, by simp, by simp⟩

theorem afterConnect_dataKept (b : StreamBuffer) (i : Nat) (res : ConnectResult) :
    DataKept b (b.afterConnect i res : Next ρ StreamBuffer) := by
  cases res with
  | failed => exact ⟨rfl, fun j => pendingOut_setFilter b i j rfl, by simp [afterConnect],
      by simp [afterConnect], by simp [afterConnect]⟩
  | success =>
      refine ⟨rfl, fun j => pendingOut_setFilter b i j rfl, by simp [afterConnect],
        by simp [afterConnect, Obs.isData], by simp [afterConnect, Frame.sends]⟩
  | pending => exact ⟨rfl, fun _ => rfl, rfl, by simp [afterConnect], by simp [afterConnect]⟩

/-- The three frames that call another method than `Out`: the answer throws, or the
rest of the calling function runs. -/
theorem answerFrame_cases {env : FilterEnv κ ρ} {r : ρ} {k k' : κ}
    (h : b.answerFrame env r k fr = some (n, k')) (hfr : fr.sends = false) :
    (∃ e x, n = { buffer := b, obs := [x], threw := some e } ∧
      ((∃ i, fr = .read i ∧ x = .in i r (.error e) ∧ env.in i r k = some (.error e, k')) ∨
        (∃ i, fr = .shutdown i ∧ x = .shutdown i (.error e) ∧
          env.shutdown i r k = some (.error e, k')) ∨
        (fr = .doConnect ∧ x = .connect b.backIndex (.error e)))) ∨
    (∃ i res, fr = .read i ∧ env.in i r k = some (.ok res, k') ∧
      n = (b.afterIn i res).after (.in i r (.ok res))) ∨
    (∃ i res, fr = .shutdown i ∧ env.shutdown i r k = some (.ok res, k') ∧
      n = (b.afterShutdown i res).after (.shutdown i (.ok res))) ∨
    (∃ res, fr = .doConnect ∧
      (match b.mode with
        | .client => env.connect b.backIndex r k
        | .server => env.accept b.backIndex r k) = some (.ok res, k') ∧
      n = (b.afterConnect b.backIndex res).after (.connect b.backIndex (.ok res))) := by
  cases fr with
  | read i =>
      simp only [answerFrame, Option.map_eq_some_iff] at h
      obtain ⟨⟨res, k₁⟩, hin, heq⟩ := h
      cases res with
      | error e =>
          obtain ⟨rfl, rfl⟩ := Prod.mk.inj heq
          exact .inl ⟨e, _, rfl, .inl ⟨i, rfl, rfl, hin⟩⟩
      | ok res =>
          obtain ⟨rfl, rfl⟩ := Prod.mk.inj heq
          exact .inr (.inl ⟨i, res, rfl, hin, rfl⟩)
  | shutdown i =>
      simp only [answerFrame, Option.map_eq_some_iff] at h
      obtain ⟨⟨res, k₁⟩, hsd, heq⟩ := h
      cases res with
      | error e =>
          obtain ⟨rfl, rfl⟩ := Prod.mk.inj heq
          exact .inl ⟨e, _, rfl, .inr (.inl ⟨i, rfl, rfl, hsd⟩)⟩
      | ok res =>
          obtain ⟨rfl, rfl⟩ := Prod.mk.inj heq
          exact .inr (.inr (.inl ⟨i, res, rfl, hsd, rfl⟩))
  | doConnect =>
      simp only [answerFrame, Option.map_eq_some_iff] at h
      obtain ⟨⟨res, k₁⟩, hcon, heq⟩ := h
      cases res with
      | error e =>
          obtain ⟨rfl, rfl⟩ := Prod.mk.inj heq
          exact .inl ⟨e, _, rfl, .inr (.inr ⟨rfl, rfl⟩)⟩
      | ok res =>
          obtain ⟨rfl, rfl⟩ := Prod.mk.inj heq
          exact .inr (.inr (.inr ⟨res, rfl, hcon, rfl⟩))
  | write i => exact absurd hfr (by simp [Frame.sends])
  | flush i => exact absurd hfr (by simp [Frame.sends])
  | _ => simp [answerFrame] at h

theorem DataKept.after {b : StreamBuffer} {n : Next ρ StreamBuffer} (h : DataKept b n)
    {x : Obs ρ} (hx : x.isData = false) : DataKept b (n.after x) :=
  ⟨h.pendingWrites, h.pendingOut, h.length,
    fun y hy => (List.mem_cons.mp hy).elim (fun e => e ▸ hx) (h.obs y), h.frames⟩

/-- The frames that call another method than `Out` leave all data where it is. -/
theorem answerFrame_dataKept {env : FilterEnv κ ρ} {r : ρ} {k k' : κ}
    (h : b.answerFrame env r k fr = some (n, k')) (hfr : fr.sends = false) : DataKept b n := by
  rcases answerFrame_cases h hfr with ⟨e, x, rfl, hx⟩ | ⟨i, res, -, -, rfl⟩ |
    ⟨i, res, -, -, rfl⟩ | ⟨res, -, -, rfl⟩
  · have hdata : x.isData = false := by
      rcases hx with ⟨i, -, rfl, -⟩ | ⟨i, -, rfl, -⟩ | ⟨-, rfl⟩ <;> rfl
    exact ⟨rfl, fun _ => rfl, rfl, by simpa using hdata, by simp⟩
  · exact (afterIn_dataKept b i res).after rfl
  · exact (afterShutdown_dataKept b i res).after rfl
  · exact (afterConnect_dataKept b _ res).after rfl

/-- What is asked of a filter in a frame, as the answer shows it. -/
inductive Answered (b : StreamBuffer) : Frame → Obs ρ → Prop
  | in {i r res} : Answered b (.read i) (.in i r res)
  | out {fr i d ds r res} : fr = .write i ∨ fr = .flush i → (b.filter i).pendingOut = d :: ds →
      Answered b fr (.out i d r res)
  | connect {res} : Answered b .doConnect (.connect b.backIndex res)
  | shutdown {i res} : Answered b (.shutdown i) (.shutdown i res)

theorem Answered.isAnswer {x : Obs ρ} (h : Answered b fr x) : x.isAnswer = true := by
  cases h <;> rfl

/-- What an answer shows: itself, and possibly the callback it leads to. -/
theorem answerFrame_obs {env : FilterEnv κ ρ} {r : ρ} {k k' : κ}
    (h : b.answerFrame env r k fr = some (n, k')) :
    ∃ x, Answered b fr x ∧ (n.obs = [x] ∨ ∃ c, n.obs = [x, .callback c]) := by
  cases hfr : fr.sends with
  | true =>
      obtain ⟨i, again, after, hloop, hcall⟩ := callOut_of_sends h hfr
      obtain ⟨d, ds, res, hpend, -, hobs, -⟩ := callOut_cases hcall
      exact ⟨_, .out hloop hpend, .inl hobs⟩
  | false =>
      rcases answerFrame_cases h hfr with ⟨e, x, rfl, hx⟩ | ⟨i, res, rfl, -, rfl⟩ |
        ⟨i, res, rfl, -, rfl⟩ | ⟨res, rfl, -, rfl⟩
      · refine ⟨x, ?_, .inl rfl⟩
        rcases hx with ⟨i, rfl, rfl, -⟩ | ⟨i, rfl, rfl, -⟩ | ⟨rfl, rfl⟩
        · exact .in
        · exact .shutdown
        · exact .connect
      · refine ⟨.in i r (.ok res), .in, ?_⟩
        simp only [Next.after, afterIn]
        split_ifs
        · exact .inl rfl
        · split
          · exact .inr ⟨_, rfl⟩
          · exact .inl rfl
      · refine ⟨.shutdown i (.ok res), .shutdown, .inl ?_⟩
        simp only [Next.after, afterShutdown]
        split_ifs <;> rfl
      · refine ⟨.connect b.backIndex (.ok res), .connect, ?_⟩
        cases res with
        | failed => exact .inl rfl
        | pending => exact .inl rfl
        | success => exact .inr ⟨_, rfl⟩

/-- A frame other than `DoWrite` that asks no filter leaves all data where it is. -/
theorem runFrame_dataKept (h : b.runFrame fr = some n) (hfr : fr ≠ .doWrite) :
    n.buffer.pendingWrites = b.pendingWrites ∧
      ∀ j, (n.buffer.filter j).pendingOut = (b.filter j).pendingOut := by
  obtain ⟨hf, hp, -⟩ := runFrame_filters h hfr
  exact ⟨hp, fun j => by simp only [filter, hf]⟩

/-- An `Out` loop goes on in the same frame. -/
theorem answerFrame_sends {env : FilterEnv κ ρ} {r : ρ} {k k' : κ}
    (h : b.answerFrame env r k fr = some (n, k')) {fr' : Frame} (hmem : fr' ∈ n.frames)
    (hsends : fr'.sends = true) : n.frames = [fr'] ∧ fr' = fr := by
  cases hfr : fr.sends with
  | false =>
      have := (answerFrame_dataKept h hfr).frames fr' hmem
      exact absurd hsends (by simp [this])
  | true =>
      cases fr with
      | write i =>
          obtain ⟨d, ds, res, -, -, -, ⟨e, -, -, hf, -⟩ | ⟨_, _, drain, -, -, -, -, hf⟩⟩ :=
            callOut_cases h
          · simp [hf] at hmem
          · rw [hf] at hmem ⊢
            split_ifs at hmem ⊢ <;> simp_all
      | flush i =>
          obtain ⟨d, ds, res, -, -, -, ⟨e, -, -, hf, -⟩ | ⟨_, _, drain, -, -, -, -, hf⟩⟩ :=
            callOut_cases h
          · simp [hf] at hmem
          · rw [hf] at hmem ⊢
            split_ifs at hmem ⊢ <;> simp_all [Frame.sends]
      | _ => simp [Frame.sends] at hfr

end StreamBuffer

/-! ### Flags -/

/-- No flag of a filter or of the buffer is ever cleared, and no filter is removed. -/
structure FlagsGrow (b b' : StreamBuffer) : Prop where
  length : b.streamFilters.length ≤ b'.streamFilters.length
  connected : ∀ i, (b.filter i).connected = true → (b'.filter i).connected = true
  readClosed : ∀ i, (b.filter i).readClosed = true → (b'.filter i).readClosed = true
  writeClosed : ∀ i, (b.filter i).writeClosed = true → (b'.filter i).writeClosed = true
  shouldClose : b.shouldClose = true → b'.shouldClose = true
  eofCalled : b.eofCalled = true → b'.eofCalled = true

namespace FlagsGrow

variable {ρ : Type} {b b' b'' : StreamBuffer}

theorem refl (b : StreamBuffer) : FlagsGrow b b :=
  ⟨Nat.le_refl _, fun _ h => h, fun _ h => h, fun _ h => h, id, id⟩

theorem trans (h : FlagsGrow b b') (h' : FlagsGrow b' b'') : FlagsGrow b b'' :=
  ⟨Nat.le_trans h.length h'.length, fun i hi => h'.connected i (h.connected i hi),
    fun i hi => h'.readClosed i (h.readClosed i hi),
    fun i hi => h'.writeClosed i (h.writeClosed i hi),
    h'.shouldClose ∘ h.shouldClose, h'.eofCalled ∘ h.eofCalled⟩

/-- A buffer with the same filters and no flag cleared. -/
theorem of_filters (hf : b'.streamFilters = b.streamFilters)
    (hs : b.shouldClose = true → b'.shouldClose = true)
    (he : b.eofCalled = true → b'.eofCalled = true) : FlagsGrow b b' := by
  have hfilter : ∀ i, b'.filter i = b.filter i := fun i => by simp only [StreamBuffer.filter, hf]
  refine ⟨Nat.le_of_eq (by rw [hf]), ?_, ?_, ?_, hs, he⟩ <;> intro i hi <;> rwa [hfilter]

theorem setFilter (b : StreamBuffer) (i : Nat) {f : Filter}
    (hc : (b.filter i).connected = true → f.connected = true)
    (hr : (b.filter i).readClosed = true → f.readClosed = true)
    (hw : (b.filter i).writeClosed = true → f.writeClosed = true) :
    FlagsGrow b (b.setFilter i f) := by
  refine ⟨by simp, ?_, ?_, ?_, id, id⟩ <;> intro j hj <;> rw [StreamBuffer.filter_setFilter] <;>
    split_ifs with h
  · exact hc (h.1 ▸ hj)
  · exact hj
  · exact hr (h.1 ▸ hj)
  · exact hj
  · exact hw (h.1 ▸ hj)
  · exact hj

theorem append (b : StreamBuffer) (fs : List Filter) :
    FlagsGrow b { b with streamFilters := b.streamFilters ++ fs } := by
  have hfilter : ∀ i, i < b.streamFilters.length →
      ({ b with streamFilters := b.streamFilters ++ fs } : StreamBuffer).filter i = b.filter i :=
    fun i hi => by simp [StreamBuffer.filter, List.getElem?_append_left hi]
  have hout : ∀ i, ¬ i < b.streamFilters.length → b.filter i = default := fun i hi => by
    simp [StreamBuffer.filter, List.getElem?_eq_none (Nat.le_of_not_lt hi)]
  refine ⟨by simp, ?_, ?_, ?_, id, id⟩ <;> intro i hi <;>
    by_cases hlt : i < b.streamFilters.length
  · rwa [hfilter i hlt]
  · exact absurd hi (by rw [hout i hlt]; simp [default, Filter.new])
  · rwa [hfilter i hlt]
  · exact absurd hi (by rw [hout i hlt]; simp [default, Filter.new])
  · rwa [hfilter i hlt]
  · exact absurd hi (by rw [hout i hlt]; simp [default, Filter.new])

theorem handleEvents (b : StreamBuffer) (alive : Bool) :
    FlagsGrow b (b.handleEvents alive : Next ρ StreamBuffer).buffer := by
  unfold StreamBuffer.handleEvents
  split_ifs <;> exact refl b

theorem runFrame {fr : Frame} {n : Next ρ StreamBuffer} (h : b.runFrame fr = some n) :
    FlagsGrow b n.buffer := by
  cases fr with
  | doWrite =>
      rcases StreamBuffer.doWrite_cases b n (Option.some.inj h).symm with
        ⟨-, rfl⟩ | ⟨-, -, -, -, hb⟩
      · exact refl b
      · rw [hb]
        have hset := setFilter b b.backIndex
          (f := { b.back with pendingOut := b.back.pendingOut ++ b.pendingWrites }) id id id
        exact hset.trans (of_filters rfl id id)
  | _ =>
      refine of_filters (StreamBuffer.runFrame_filters h (by simp)).1 ?_ ?_
      · exact StreamBuffer.runFrame_shouldClose h
      · exact StreamBuffer.runFrame_eofCalled h

theorem afterOut (f : Filter) (rest : List DataView) (res : OutResult × Option DataView) :
    (f.afterOut rest res).1.connected = f.connected ∧
      (f.afterOut rest res).1.readClosed = f.readClosed ∧
      (f.writeClosed = true → (f.afterOut rest res).1.writeClosed = true) := by
  unfold Filter.afterOut
  split_ifs
  · exact ⟨rfl, rfl, fun _ => rfl⟩
  · split <;> exact ⟨rfl, rfl, id⟩

theorem callOut {κ : Type} {env : FilterEnv κ ρ} {i : Nat} {r : ρ} {k k' : κ}
    {again after : List Frame} {n : Next ρ StreamBuffer}
    (h : b.callOut env i r k again after = some (n, k')) : FlagsGrow b n.buffer := by
  obtain ⟨d, ds, res, -, -, -, ⟨e, -, -, -, hb⟩ | ⟨res', f', drain, -, ha, -, hb, -⟩⟩ :=
    StreamBuffer.callOut_cases h
  · rw [hb]
    exact setFilter b i id id id
  · obtain ⟨hc, hr, hw⟩ := afterOut (b.filter i) ds res'
    rw [ha] at hc hr hw
    rw [hb]
    exact setFilter b i (fun h => hc ▸ h) (fun h => hr ▸ h) hw

theorem answerFrame {κ : Type} {env : FilterEnv κ ρ} {fr : Frame} {r : ρ} {k k' : κ}
    {n : Next ρ StreamBuffer} (h : b.answerFrame env r k fr = some (n, k')) :
    FlagsGrow b n.buffer := by
  cases hfr : fr.sends with
  | true =>
      obtain ⟨i, again, after, -, hcall⟩ := StreamBuffer.callOut_of_sends h hfr
      exact callOut hcall
  | false =>
      rcases StreamBuffer.answerFrame_cases h hfr with ⟨e, x, rfl, -⟩ | ⟨i, res, -, -, rfl⟩ |
        ⟨i, res, -, -, rfl⟩ | ⟨res, -, -, rfl⟩
      · exact refl b
      · change FlagsGrow b (b.afterIn i res : Next ρ StreamBuffer).buffer
        unfold StreamBuffer.afterIn
        split_ifs
        · exact setFilter b i id (fun _ => rfl) id
        · split <;> exact refl b
      · change FlagsGrow b (b.afterShutdown i res : Next ρ StreamBuffer).buffer
        unfold StreamBuffer.afterShutdown
        split_ifs
        · exact setFilter b i id (fun _ => rfl) (fun _ => rfl)
        · exact refl b
      · change FlagsGrow b (b.afterConnect b.backIndex res : Next ρ StreamBuffer).buffer
        cases res with
        | failed => exact setFilter b _ id (fun _ => rfl) (fun _ => rfl)
        | success =>
            exact (setFilter b b.backIndex (f := { b.filter b.backIndex with connected := true })
              (fun _ => rfl) id id).trans (of_filters rfl id id)
        | pending => exact refl b

theorem addStreamBufferFilter {f : Filter} (h : b.addStreamBufferFilter f = .ok b') :
    FlagsGrow b b' := by
  obtain ⟨-, ⟨hnil, rfl⟩ | ⟨-, rfl⟩⟩ := StreamBuffer.addStreamBufferFilter_cases h
  · have happ := append b [{ f with order := 0 }]
    rw [hnil] at happ
    exact happ.trans (of_filters rfl id id)
  · have hset := setFilter b b.backIndex (f := { b.back with next := some f.addr }) id id id
    have hallow : FlagsGrow (b.setFilter b.backIndex { b.back with next := some f.addr })
        { b.setFilter b.backIndex { b.back with next := some f.addr } with
          addFilterAllowed := false } := of_filters rfl id id
    exact (hset.trans hallow).trans (append _ _)

end FlagsGrow

namespace BufferState

variable {κ ρ : Type} {env : FilterEnv κ ρ} {l : BufferLabel ρ} {s s' : BufferState κ}
  {o : List (Obs ρ)}

theorem flagsGrow_step (h : step env l s = some (s', o)) : FlagsGrow s.buffer s'.buffer := by
  obtain ⟨-, hstep⟩ := step_inv h
  cases hstep with
  | handleEvents hstack hidle hn =>
      subst hn
      rw [resume_buffer]
      exact .handleEvents _ _
  | run hstack hrun =>
      rw [resume_buffer]
      exact .runFrame hrun
  | @answer fr rest r n k hstack hans =>
      change FlagsGrow s.buffer (s.resume rest n).buffer
      rw [resume_buffer]
      exact .answerFrame hans
  | write =>
      unfold write
      split_ifs
      · exact .refl _
      · exact .refl _
      · split <;> exact .refl _
  | push => exact .of_filters rfl id id
  | close => exact .of_filters rfl (fun _ => rfl) id
  | filterAdded hmay hfresh hadd => exact .addStreamBufferFilter hadd
  | _ => exact .refl _

/-- A frame that calls `Out` is on top of the stack. -/
def SendsOnTop (s : BufferState κ) : Prop := ∀ fr ∈ s.stack.tail, fr.sends = false

theorem sendsOnTop_resume {fr : Frame} {rest : List Frame} {n : Next ρ StreamBuffer}
    (hs : SendsOnTop s) (hstack : s.stack = fr :: rest)
    (hframes : ∀ fr' ∈ n.frames, fr'.sends = true → n.frames = [fr']) :
    SendsOnTop (s.resume rest n) := by
  have hrest : ∀ fr' ∈ rest, fr'.sends = false := fun fr' hfr' =>
      hs fr' (by rw [hstack]; exact hfr')
  intro fr' hfr'
  cases hthrew : n.threw with
  | some e => simp [resume_of_threw hthrew] at hfr'
  | none =>
      rw [resume_of_threw_none hthrew] at hfr'
      cases hn : n.frames with
      | nil => exact hrest _ (List.mem_of_mem_tail (by simpa [hn] using hfr'))
      | cons f fs =>
          simp only [hn, List.cons_append, List.tail_cons, List.mem_append] at hfr'
          rcases hfr' with hfr' | hfr'
          · by_contra hsends
            have := hframes fr' (by simp [hn, hfr']) (by simpa using hsends)
            simp_all
          · exact hrest _ hfr'

theorem sendsOnTop_step (h : step env l s = some (s', o)) (hs : SendsOnTop s) :
    SendsOnTop s' := by
  obtain ⟨-, hstep⟩ := step_inv h
  cases hstep with
  | handleEvents hstack hidle hn =>
      intro fr hfr
      have hthrew := (StreamBuffer.handleEvents_cases hn).2.2.1
      rw [resume_of_threw_none hthrew, List.append_nil] at hfr
      exact StreamBuffer.handleEvents_sends hn (List.mem_of_mem_tail hfr)
  | run hstack hrun =>
      exact sendsOnTop_resume hs hstack fun fr' hmem hsends =>
        (StreamBuffer.runFrame_sends hrun hmem hsends).1
  | @answer fr rest r n k hstack hans =>
      exact sendsOnTop_resume (s := s) hs hstack fun fr' hmem hsends =>
        (StreamBuffer.answerFrame_sends hans hmem hsends).1
  | @ret c rest hstack hidle =>
      intro fr hfr
      exact hs fr (by rw [hstack]; exact List.mem_of_mem_tail hfr)
  | write =>
      unfold write
      split_ifs
      · exact hs
      · exact hs
      · split <;> exact hs
  | _ => exact hs

/-- `Write` enters its critical section with the saved copy of a non-empty view. `Save` has
thrown before if there was nothing to save. -/
theorem writing_of_step (h : step env l s = some (s', o)) {a : Agent} {d saved : DataView}
    (hw : s'.calls a = .writing d saved) :
    s.calls a = .writing d saved ∨
      s.buffer.shouldClose = false ∧ d.dataLength ≠ 0 ∧ d.save = .ok saved := by
  obtain ⟨-, hstep⟩ := step_inv h
  cases hstep with
  | handleEvents hstack hidle hn =>
      rw [resume_calls] at hw
      exact .inl hw
  | run hstack hrun =>
      rw [resume_calls] at hw
      exact .inl hw
  | answer hstack hans =>
      simp only [resume_calls] at hw
      exact .inl hw
  | @write a' d' hmay =>
      unfold write at hw
      split at hw
      · exact .inl hw
      · rename_i hlen
        split at hw
        · exact .inl hw
        · rename_i hclose
          split at hw
          · exact .inl hw
          · rename_i saved' hsave
            by_cases ha : a = a'
            · subst ha
              obtain ⟨rfl, rfl⟩ : d' = d ∧ saved' = saved := by simpa [setCall] using hw
              exact .inr ⟨by simpa using hclose, hlen, hsave⟩
            · exact .inl (by simpa [setCall, Function.update_of_ne ha] using hw)
  | @push a' d' saved' hcall =>
      by_cases ha : a = a'
      · subst ha
        simp only [push, setCall, Function.update_self] at hw
        split_ifs at hw
      · exact .inl (by simpa [push, setCall, Function.update_of_ne ha] using hw)
  | @notify a' k hcall =>
      by_cases ha : a = a'
      · subst ha
        simp [setCall] at hw
      · exact .inl (by simpa [setCall, Function.update_of_ne ha] using hw)
  | @close a' hmay =>
      by_cases ha : a = a'
      · subst ha
        simp [close, setCall] at hw
      · exact .inl (by simpa [close, setCall, Function.update_of_ne ha] using hw)
  | _ => exact .inl hw

end BufferState

end Libael
