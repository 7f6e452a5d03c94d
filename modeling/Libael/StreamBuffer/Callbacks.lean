import Libael.StreamBuffer.Moves

/-!
# Libael.StreamBuffer.Callbacks

**The callback protocol**, for a chain of filters of any length and with any answers. The
handler sees `HandleConnected` once per connected filter, then data, then one end of file.

Nothing in the code orders the callbacks directly: each is called from its own frame. The
invariants are therefore about the stack, and there is one for each part of the protocol.

* `CallShape`: in a call everything comes before `DoFinalize`, and `HandleEOF` is called last.
* `OpenInv`: what opens the chain (`DoConnect` and `HandleConnected`) and what reads from it
  never meet. Reading needs a chain that is complete (`ChainComplete`), and such a chain is
  neither extended nor connected any more.
* `ConnectInv`: each filter connects once, and each success is one `HandleConnected`.
* `EofInv`: `HandleEOF` is called with every filter closed and `should_close_` set, and when
  both directions of every filter are closed it has been called or the call will get to it.

Each has a step lemma by cases on `Move`; `callbacks_ordered` reads the order of any two
callbacks off them, and `shape_of_ordered` turns it into the shape of the whole sequence.
-/

namespace Libael

open Lts

/-- The frames that connect a filter. -/
def Frame.opens : Frame → Bool
  | .doConnect | .connected | .callback .handleConnected => true
  | _ => false

/-- The frames that read from the chain. -/
def Frame.reads : Frame → Bool
  | .doRead | .read _ | .callback (.handleData _) => true
  | _ => false

/-- The frames that come before `DoFinalize` in a call. -/
def Frame.inner : Frame → Bool
  | .doFinalize | .finalizeEOF | .closeEvent | .callback .handleEOF => false
  | _ => true

/-- The observation of a callback. -/
def Obs.isCallback {ρ : Type} : Obs ρ → Bool
  | .callback _ => true
  | _ => false

/-- The callback that begins. -/
def Obs.toCallback {ρ : Type} : Obs ρ → Option Callback
  | .callback c => some c
  | _ => none

/-- The observation of a filter that has connected. -/
def Obs.connects {ρ : Type} : Obs ρ → Option Nat
  | .connect i (.ok .success) => some i
  | _ => none

namespace StreamBuffer

variable {κ ρ : Type} {b : StreamBuffer} {fr : Frame} {n : Next ρ StreamBuffer}

/-- A frame that neither connects a filter nor delivers anything. -/
structure Plain (b : StreamBuffer) (fr : Frame) (n : Next ρ StreamBuffer) : Prop where
  length : n.buffer.streamFilters.length = b.streamFilters.length
  connected : ∀ i, (n.buffer.filter i).connected = (b.filter i).connected
  /-- only the frame behind `HandleConnected` forbids further filters -/
  addFilterAllowed : n.buffer.addFilterAllowed = (b.addFilterAllowed && fr != .connected)
  eofCalled : n.buffer.eofCalled = b.eofCalled
  /-- it leads on to no frame that connects, and to one that reads only from one that does -/
  frames : ∀ f ∈ n.frames, f.opens = false ∧ (f.reads = true → fr.reads = true) ∧
    (fr.inner = true → f.inner = true)
  /-- it calls the handler for nothing -/
  obs : ∀ x ∈ n.obs, x.isCallback = false ∧ x.connects = none

theorem connected_setFilter (b : StreamBuffer) (i j : Nat) {f : Filter}
    (hf : f.connected = (b.filter i).connected) :
    ((b.setFilter i f).filter j).connected = (b.filter j).connected := by
  rw [filter_setFilter]
  split
  case isTrue h => rw [hf, h.1]
  case isFalse => rfl

/-- A frame that changes no filter and no flag but `should_close_`. What is left to be shown of
it is what it pushes and what it shows. -/
theorem Plain.of_filters (hfr : fr ≠ .connected) (hf : n.buffer.streamFilters = b.streamFilters)
    (ha : n.buffer.addFilterAllowed = b.addFilterAllowed) (he : n.buffer.eofCalled = b.eofCalled)
    (hframes : ∀ f ∈ n.frames, f.opens = false ∧ (f.reads = true → fr.reads = true) ∧
      (fr.inner = true → f.inner = true))
    (hobs : ∀ x ∈ n.obs, x.isCallback = false ∧ x.connects = none) : Plain b fr n := by
  refine ⟨by rw [hf], fun i => by simp only [filter, hf], ?_, he, hframes, hobs⟩
  simp [ha, hfr]

/-- A frame that asks no filter is plain, but for the test that finds the end of file. -/
theorem runFrame_plain (h : b.runFrame fr = some n) :
    Plain b fr n ∨ (fr = .finalizeEOF ∧ b.isReadClosed = true ∧ b.isWriteClosed = true ∧
      b.eofCalled = false ∧ n = { buffer := { b with eofCalled := true }
                                  frames := [.callback .handleEOF, .closeEvent]
                                  obs := [.callback .handleEOF] }) := by
  cases frameRun h with
  | eof hread hwrite hcalled => exact .inr ⟨rfl, hread, hwrite, hcalled, rfl⟩
  | connected => exact .inl ⟨rfl, fun _ => rfl, by simp, rfl, by simp, by simp⟩
  | writes _ _ =>
      -- `DoWrite` moves data from one list of a filter to the other
      refine .inl ⟨by simp, fun i => ?_, by simp [setFilter], by simp [setFilter], ?_, ?_⟩
      · exact connected_setFilter b b.backIndex i rfl
      · simp [Frame.opens, Frame.reads, Frame.inner]
      · simp [Obs.isCallback, Obs.connects]
  | _ =>
      exact .inl (.of_filters (by simp) rfl rfl rfl
        (by simp [Frame.opens, Frame.reads, Frame.inner])
        (by simp [Obs.isCallback, Obs.connects]))

/-- The frames and the data of an `Out` loop. -/
theorem callOut_plain {env : FilterEnv κ ρ} {i : Nat} {r : ρ} {k k' : κ} {again after : List Frame}
    (hfr : fr ≠ .connected)
    (hagain : ∀ f ∈ again ++ after, f.opens = false ∧ f.reads = false ∧ f.inner = true)
    (h : b.callOut env i r k again after = some (n, k')) : Plain b fr n := by
  obtain ⟨d, ds, res, -, -, hobs, hres⟩ := callOut_cases h
  have hshow : ∀ x ∈ n.obs, x.isCallback = false ∧ x.connects = none := by
    simp [hobs, Obs.isCallback, Obs.connects]
  rcases hres with ⟨e, -, -, hframes, hb⟩ | ⟨res', f', drain, -, hafter, -, hb, hframes⟩
  · refine ⟨by simp [hb], fun j => ?_, by simp [hb, setFilter, hfr], by simp [hb, setFilter],
      by simp [hframes], hshow⟩
    rw [hb]
    exact connected_setFilter b i j rfl
  · refine ⟨by simp [hb], fun j => ?_, by simp [hb, setFilter, hfr], by simp [hb, setFilter],
      ?_, hshow⟩
    · rw [hb]
      refine connected_setFilter b i j ?_
      have hf' : f' = ((b.filter i).afterOut ds res').1 := by rw [hafter]
      rw [hf']
      exact (FlagsGrow.afterOut (b.filter i) ds res').1
    · intro f hf
      have hmem : f ∈ again ++ after := by
        rw [hframes] at hf
        split_ifs at hf
        · exact List.mem_append_left _ hf
        · exact List.mem_append_right _ hf
      obtain ⟨ho, hr, hi⟩ := hagain f hmem
      exact ⟨ho, fun hreads => absurd hreads (by simp [hr]), fun _ => hi⟩

/-- An answer is plain, delivers data, or connects the last filter. The last two are the answers
of `In` and of `Connect` or `Accept`. -/
theorem answerFrame_plain {env : FilterEnv κ ρ} {r : ρ} {k k' : κ}
    (h : b.answerFrame env r k fr = some (n, k')) :
    Plain b fr n ∨
      (∃ i x d, fr = .read i ∧ x.isCallback = false ∧ x.connects = none ∧
        n = { buffer := b, frames := [.callback (.handleData d), .read i],
              obs := [x, .callback (.handleData d)] }) ∨
      (fr = .doConnect ∧
        n = { buffer := { b.setFilter b.backIndex { b.back with connected := true } with
                addFilterAllowed := true }
              frames := [.callback .handleConnected, .connected, .modifyEvent]
              obs := [.connect b.backIndex (.ok .success), .callback .handleConnected] }) := by
  cases hfr : fr.sends with
  | true =>
      refine .inl ?_
      cases fr with
      | write i => exact callOut_plain (by simp) (by simp [Frame.opens, Frame.reads, Frame.inner]) h
      | flush i => exact callOut_plain (by simp) (by simp [Frame.opens, Frame.reads, Frame.inner]) h
      | _ => simp [Frame.sends] at hfr
  | false =>
      rcases answerFrame_cases h hfr with ⟨e, x, rfl, hx⟩ | ⟨i, res, rfl, -, rfl⟩ |
        ⟨i, res, rfl, -, rfl⟩ | ⟨res, rfl, -, rfl⟩
      · refine .inl ?_
        rcases hx with ⟨i, rfl, rfl, -⟩ | ⟨i, rfl, rfl, -⟩ | ⟨rfl, rfl⟩ <;>
          exact .of_filters (by simp) rfl rfl rfl (by simp) (by simp [Obs.isCallback, Obs.connects])
      · unfold afterIn
        split
        · refine .inl ⟨by simp [Next.after], fun j => ?_, by simp [Next.after, setFilter],
            by simp [Next.after, setFilter], by simp [Next.after],
            by simp [Next.after, Obs.isCallback, Obs.connects]⟩
          exact connected_setFilter b i j rfl
        · split
          · exact .inr (.inl ⟨i, _, _, rfl, rfl, rfl, rfl⟩)
          · exact .inl (.of_filters (by simp) rfl rfl rfl (by simp [Next.after])
              (by simp [Next.after, Obs.isCallback, Obs.connects]))
      · refine .inl ?_
        unfold afterShutdown
        split
        · refine ⟨by simp [Next.after], fun j => ?_, by simp [Next.after, setFilter],
            by simp [Next.after, setFilter], by simp [Next.after],
            by simp [Next.after, Obs.isCallback, Obs.connects]⟩
          exact connected_setFilter b i j rfl
        · exact .of_filters (by simp) rfl rfl rfl (by simp [Next.after])
            (by simp [Next.after, Obs.isCallback, Obs.connects])
      · cases res with
        | failed =>
            refine .inl ⟨by simp [Next.after, afterConnect], fun j => ?_,
              by simp [Next.after, afterConnect, setFilter],
              by simp [Next.after, afterConnect, setFilter], by simp [Next.after, afterConnect],
              by simp [Next.after, afterConnect, Obs.isCallback, Obs.connects]⟩
            exact connected_setFilter b b.backIndex j rfl
        | pending =>
            exact .inl (.of_filters (by simp) rfl rfl rfl (by simp [Next.after, afterConnect])
              (by simp [Next.after, afterConnect, Obs.isCallback, Obs.connects]))
        | success => exact .inr (.inr ⟨rfl, rfl⟩)

end StreamBuffer

namespace BufferState

variable {κ ρ : Type} {env : FilterEnv κ ρ} {l : BufferLabel ρ} {s s' : BufferState κ}
  {o tr : List (Obs ρ)} {ok : BufferLabel ρ → BufferState κ → Prop} {mode : StreamBufferMode}
  {addr : Nat} {k : κ}

/-! ### The shape of a call -/

theorem inner_of_answer {b : StreamBuffer} {fr : Frame} {r : ρ} {k k' : κ}
    {n : Next ρ StreamBuffer} (h : b.answerFrame env r k fr = some (n, k')) : fr.inner = true := by
  cases fr <;> simp [StreamBuffer.answerFrame] at h <;> rfl

/-- The stack of a call: everything else comes before `DoFinalize`, and `HandleEOF` and
`CloseEvent` come after it. -/
inductive CallShape : List Frame → Prop
  | idle : CallShape []
  | closeEvent : CallShape [.closeEvent]
  /-- `HandleEOF`, with `CloseEvent` behind it -/
  | eof : CallShape [.callback .handleEOF, .closeEvent]
  /-- the rest of a call, up to its end -/
  | call (fs : List Frame) (e : Frame) : e = .doFinalize ∨ e = .finalizeEOF →
      (∀ f ∈ fs, f.inner = true) → CallShape (fs ++ [e])

/-- The innermost frame of a call, and what is below it. -/
theorem CallShape.cons_cases {fr : Frame} {rest : List Frame} (h : CallShape (fr :: rest)) :
    (fr = .closeEvent ∧ rest = []) ∨ (fr = .callback .handleEOF ∧ rest = [.closeEvent]) ∨
      ((fr = .doFinalize ∨ fr = .finalizeEOF) ∧ rest = []) ∨
      (fr.inner = true ∧ ∃ fs e, rest = fs ++ [e] ∧ (e = .doFinalize ∨ e = .finalizeEOF) ∧
        ∀ f ∈ fs, f.inner = true) := by
  generalize hst : fr :: rest = st at h
  cases h with
  | idle => simp at hst
  | closeEvent =>
      obtain ⟨rfl, rfl⟩ := List.cons.inj hst
      exact .inl ⟨rfl, rfl⟩
  | eof =>
      obtain ⟨rfl, rfl⟩ := List.cons.inj hst
      exact .inr (.inl ⟨rfl, rfl⟩)
  | call fs e he hfs =>
      cases fs with
      | nil =>
          obtain ⟨rfl, rfl⟩ := List.cons.inj hst
          exact .inr (.inr (.inl ⟨he, rfl⟩))
      | cons f fs =>
          obtain ⟨rfl, rfl⟩ := List.cons.inj hst
          exact .inr (.inr (.inr ⟨hfs fr List.mem_cons_self, fs, e, rfl, he,
            fun f' hf' => hfs f' (List.mem_cons_of_mem _ hf')⟩))

/-- The outcome of an inner frame. It is replaced by inner frames, above the same end of the
call. -/
theorem callShape_resume {fr : Frame} {rest : List Frame} {n : Next ρ StreamBuffer}
    (hshape : CallShape s.stack) (hstack : s.stack = fr :: rest) (hfr : fr.inner = true)
    (hframes : ∀ f ∈ n.frames, f.inner = true) : CallShape (s.resume rest n).stack := by
  cases hthrew : n.threw with
  | some e => simpa [resume_of_threw hthrew] using .idle
  | none =>
      rw [resume_of_threw_none hthrew]
      rw [hstack] at hshape
      rcases hshape.cons_cases with ⟨rfl, -⟩ | ⟨rfl, -⟩ | ⟨he, -⟩ | ⟨-, fs, e, rfl, he, hfs⟩
      · simp [Frame.inner] at hfr
      · simp [Frame.inner] at hfr
      · rcases he with rfl | rfl <;> simp [Frame.inner] at hfr
      · refine (List.append_assoc n.frames fs [e]) ▸ .call (n.frames ++ fs) e he ?_
        intro f hf
        rcases List.mem_append.mp hf with hf | hf
        · exact hframes f hf
        · exact hfs f hf

/-- **One step keeps the shape of a call.** `DoFinalize` is replaced by what ends the call, every
other frame by frames that come before it. -/
theorem callShape_step (h : step env l s = some (s', o)) (hshape : CallShape s.stack) :
    CallShape s'.stack := by
  obtain ⟨-, hmove⟩ := move_of_step h
  cases hmove with
  | aside ha => rw [ha.stack]; exact hshape
  | added => exact hshape
  | enter hstack hn =>
      obtain ⟨-, -, hthrew, hframes⟩ := StreamBuffer.handleEvents_cases hn
      rw [resume_of_threw_none hthrew]
      rcases hframes with ⟨-, hf⟩ | ⟨-, -, hf⟩ | ⟨-, -, -, hf⟩ | ⟨-, -, -, hf⟩ <;> rw [hf]
      · exact .closeEvent
      · exact .call [.doClose] .doFinalize (.inl rfl) (by simp [Frame.inner])
      · exact .call [.doConnect] .doFinalize (.inl rfl) (by simp [Frame.inner])
      · exact .call [.doRead, .doWrite] .doFinalize (.inl rfl) (by simp [Frame.inner])
  | @ret c rest hstack =>
      rw [hstack] at hshape
      rcases hshape.cons_cases with ⟨hc, -⟩ | ⟨-, rfl⟩ | ⟨he, -⟩ | ⟨-, fs, e, rfl, he, hfs⟩
      · exact absurd hc (by simp)
      · exact .closeEvent
      · rcases he with he | he <;> exact absurd he (by simp)
      · exact .call fs e he hfs
  | @answer fr rest r n k hstack hans =>
      have hinner := inner_of_answer hans
      refine callShape_resume (n := n) hshape hstack hinner ?_
      rcases StreamBuffer.answerFrame_plain hans with hp | ⟨i, x, d, -, -, -, rfl⟩ | ⟨-, rfl⟩
      · exact fun f hf => (hp.frames f hf).2.2 hinner
      · simp [Frame.inner]
      · simp [Frame.inner]
  | @run fr rest n hstack hrun =>
      have hthrew := StreamBuffer.runFrame_threw hrun
      rw [hstack] at hshape
      rcases hshape.cons_cases with ⟨rfl, rfl⟩ | ⟨rfl, -⟩ | ⟨rfl | rfl, rfl⟩ | ⟨hinner, -⟩
      · obtain rfl := Option.some.inj hrun
        exact .idle
      · simp [StreamBuffer.runFrame] at hrun
      · obtain rfl := Option.some.inj hrun
        rw [resume_of_threw_none hthrew]
        unfold StreamBuffer.doFinalize
        split_ifs
        · exact .call [.doClose] .finalizeEOF (.inr rfl) (by simp [Frame.inner])
        · exact .call [] .finalizeEOF (.inr rfl) (by simp)
      · obtain rfl := Option.some.inj hrun
        rw [resume_of_threw_none hthrew]
        unfold StreamBuffer.finalizeEOF
        split_ifs
        · exact .eof
        · exact .idle
      · rw [← hstack] at hshape
        refine callShape_resume hshape hstack hinner ?_
        rcases StreamBuffer.runFrame_plain hrun with hp | ⟨rfl, -⟩
        · exact fun f hf => (hp.frames f hf).2.2 hinner
        · simp [Frame.inner] at hinner

theorem callShape_of_run (h : GuardedRun (bufferSystem env) ok (init mode addr k) tr s) :
    CallShape s.stack :=
  h.invariant (I := fun _ s => CallShape s.stack) .idle fun _ hi _ hs => callShape_step hs hi

/-! ### Connecting and reading -/

/-- Every filter that will be added has been, and is connected; nothing is connecting. -/
structure ChainComplete (s : BufferState κ) : Prop where
  connected : s.buffer.back.connected = true
  /-- no filter may be added any more -/
  fixed : s.buffer.addFilterAllowed = false
  /-- `DoConnect` is through -/
  frames : ∀ fr ∈ s.stack, fr.opens = false

theorem back_connected_eq {b b' : StreamBuffer}
    (hlen : b'.streamFilters.length = b.streamFilters.length)
    (hconn : ∀ i, (b'.filter i).connected = (b.filter i).connected) :
    b'.back.connected = b.back.connected := by
  simp only [StreamBuffer.back, StreamBuffer.backIndex, hlen, hconn]

/-- A plain frame leaves a complete chain complete. -/
theorem ChainComplete.plain {fr : Frame} {rest : List Frame} {n : Next ρ StreamBuffer}
    (hc : ChainComplete s) (hp : StreamBuffer.Plain s.buffer fr n) (hstack : s.stack = fr :: rest) :
    ChainComplete (s.resume rest n) := by
  refine ⟨?_, ?_, fun f hf => ?_⟩
  · rw [resume_buffer, back_connected_eq hp.length hp.connected]
    exact hc.connected
  · rw [resume_buffer, hp.addFilterAllowed, hc.fixed]
    rfl
  · rcases mem_resume hf with hf | hf
    · exact (hp.frames f hf).1
    · exact hc.frames f (by rw [hstack]; exact List.mem_cons_of_mem _ hf)

/-- A complete chain stays so: no filter is added to it, and a connected filter is not
disconnected by any step. -/
theorem ChainComplete.step (h : BufferState.step env l s = some (s', o)) (hc : ChainComplete s) :
    ChainComplete s' := by
  obtain ⟨-, hmove⟩ := move_of_step h
  cases hmove with
  | aside ha =>
      refine ⟨?_, by rw [ha.addFilterAllowed]; exact hc.fixed, by rw [ha.stack]; exact hc.frames⟩
      simp only [StreamBuffer.back, StreamBuffer.backIndex, StreamBuffer.filter, ha.filters]
      exact hc.connected
  | added hstack hadd =>
      have hallowed := (StreamBuffer.addStreamBufferFilter_cases hadd).1
      exact absurd hallowed (by simp [hc.fixed])
  | ret hstack =>
      exact ⟨hc.connected, hc.fixed, fun f hf =>
        hc.frames f (by rw [hstack]; exact List.mem_cons_of_mem _ hf)⟩
  | enter hstack hn =>
      obtain ⟨hb, -, hthrew, hframes⟩ := StreamBuffer.handleEvents_cases hn
      rw [resume_of_threw_none hthrew]
      refine ⟨by rw [hb]; exact hc.connected, by rw [hb]; exact hc.fixed, ?_⟩
      rcases hframes with ⟨-, hf⟩ | ⟨-, -, hf⟩ | ⟨-, -, hopen, -⟩ | ⟨-, -, -, hf⟩
      · simp [hf, Frame.opens]
      · simp [hf, Frame.opens]
      · exact absurd hopen (by simp [StreamBuffer.isConnected, hc.connected])
      · simp [hf, Frame.opens]
  | run hstack hrun =>
      rcases StreamBuffer.runFrame_plain hrun with hp | ⟨rfl, -, -, -, rfl⟩
      · exact hc.plain hp hstack
      · refine ⟨hc.connected, hc.fixed, fun f hf => ?_⟩
        rcases mem_resume hf with hf | hf
        · rcases List.mem_pair.mp hf with rfl | rfl <;> rfl
        · exact hc.frames f (by rw [hstack]; exact List.mem_cons_of_mem _ hf)
  | @answer fr rest r n k hstack hans =>
      rcases StreamBuffer.answerFrame_plain hans with hp | ⟨i, x, d, rfl, -, -, rfl⟩ | ⟨rfl, -⟩
      · have hc' := hc.plain hp hstack
        exact ⟨hc'.connected, hc'.fixed, hc'.frames⟩
      · refine ⟨hc.connected, hc.fixed, fun f hf => ?_⟩
        rcases mem_resume hf with hf | hf
        · rcases List.mem_pair.mp hf with rfl | rfl <;> rfl
        · exact hc.frames f (by rw [hstack]; exact List.mem_cons_of_mem _ hf)
      · have := hc.frames .doConnect (by rw [hstack]; exact List.mem_cons_self)
        simp [Frame.opens] at this

/-- Who may add a filter, who connects and who reads. -/
structure OpenInv (tr : List (Obs ρ)) (s : BufferState κ) : Prop where
  nonempty : s.buffer.streamFilters ≠ []
  /-- a filter may only be added below a `HandleConnected` -/
  allowed : s.crashed = none → s.buffer.addFilterAllowed = true → .connected ∈ s.stack
  /-- what `DoConnect` works on is not connected yet -/
  connecting : .doConnect ∈ s.stack → s.buffer.back.connected = false
  /-- nothing runs above `DoConnect` -/
  onTop : .doConnect ∉ s.stack.tail
  /-- who reads, reads from a complete chain -/
  reading : (∃ fr ∈ s.stack, fr.reads = true) → ChainComplete s
  /-- and who has read, too -/
  data : (∃ d, .callback (.handleData d) ∈ tr) → ChainComplete s

theorem doConnect_not_mem_tail {rest : List Frame} {n : Next ρ StreamBuffer}
    (hframes : ∀ f ∈ n.frames, f ≠ .doConnect) (hrest : .doConnect ∉ rest) :
    .doConnect ∉ (s.resume rest n).stack := fun hmem => by
  rcases mem_resume hmem with hf | hf
  · exact hframes _ hf rfl
  · exact hrest hf

/-- Reading goes on in a call that was reading, or starts with a call on a connected buffer. -/
theorem reads_of_step (h : step env l s = some (s', o)) (hr : ∃ fr ∈ s'.stack, fr.reads = true) :
    (∃ fr ∈ s.stack, fr.reads = true) ∨
      (s.stack = [] ∧ s.buffer.shouldClose = false ∧ s.buffer.isConnected = true ∧
        s'.buffer = s.buffer ∧ s'.stack = [.doRead, .doWrite, .doFinalize]) := by
  obtain ⟨fr', hmem, hreads⟩ := hr
  obtain ⟨-, hmove⟩ := move_of_step h
  -- a frame that was there before, or was pushed by one that reads
  have hback : ∀ {fr rest} {n : Next ρ StreamBuffer}, s.stack = fr :: rest →
      (∀ f ∈ n.frames, f.reads = true → fr.reads = true) → fr' ∈ (s.resume rest n).stack →
      ∃ fr ∈ s.stack, fr.reads = true := by
    intro fr rest n hstack hframes hmem
    rcases mem_resume hmem with hf | hf
    · exact ⟨fr, by rw [hstack]; exact List.mem_cons_self, hframes _ hf hreads⟩
    · exact ⟨fr', by rw [hstack]; exact List.mem_cons_of_mem _ hf, hreads⟩
  cases hmove with
  | aside ha => exact .inl ⟨fr', by rw [← ha.stack]; exact hmem, hreads⟩
  | added => exact .inl ⟨fr', hmem, hreads⟩
  | ret hstack => exact .inl ⟨fr', by rw [hstack]; exact List.mem_cons_of_mem _ hmem, hreads⟩
  | enter hstack hn =>
      obtain ⟨hb, -, hthrew, hframes⟩ := StreamBuffer.handleEvents_cases hn
      rw [resume_of_threw_none hthrew] at hmem ⊢
      rcases hframes with ⟨-, hf⟩ | ⟨-, -, hf⟩ | ⟨-, -, -, hf⟩ | ⟨-, hcl, hconn, hf⟩
      · rw [hf] at hmem
        simp at hmem
        simp [hmem, Frame.reads] at hreads
      · rw [hf] at hmem
        simp at hmem
        rcases hmem with rfl | rfl <;> simp [Frame.reads] at hreads
      · rw [hf] at hmem
        simp at hmem
        rcases hmem with rfl | rfl <;> simp [Frame.reads] at hreads
      · exact .inr ⟨hstack, hcl, hconn, hb, by rw [hf]; rfl⟩
  | run hstack hrun =>
      refine .inl (hback hstack ?_ hmem)
      rcases StreamBuffer.runFrame_plain hrun with hp | ⟨rfl, -, -, -, rfl⟩
      · exact fun f hf => (hp.frames f hf).2.1
      · simp [Frame.reads]
  | @answer fr rest r n k hstack hans =>
      refine .inl (hback (n := n) hstack ?_ hmem)
      rcases StreamBuffer.answerFrame_plain hans with hp | ⟨i, x, d, rfl, -, -, rfl⟩ | ⟨rfl, rfl⟩
      · exact fun f hf => (hp.frames f hf).2.1
      · simp [Frame.reads]
      · simp [Frame.reads]

/-- Data is delivered by a frame that reads. -/
theorem reads_of_data (h : step env l s = some (s', o)) {d : DataView}
    (hmem : .callback (.handleData d) ∈ o) : ∃ fr ∈ s.stack, fr.reads = true := by
  obtain ⟨-, hmove⟩ := move_of_step h
  cases hmove with
  | aside ha => exact absurd (ha.obs _ hmem) (by simp [Obs.aside])
  | added => simp at hmem
  | ret => simp at hmem
  | enter hstack hn =>
      obtain ⟨-, hobs, -⟩ := StreamBuffer.handleEvents_cases hn
      simp [hobs] at hmem
  | run hstack hrun =>
      rcases StreamBuffer.runFrame_plain hrun with hp | ⟨rfl, -, -, -, rfl⟩
      · exact absurd (hp.obs _ hmem).1 (by simp [Obs.isCallback])
      · simp at hmem
  | answer hstack hans =>
      rcases StreamBuffer.answerFrame_plain hans with hp | ⟨i, x, d, rfl, -, -, rfl⟩ | ⟨rfl, rfl⟩
      · exact absurd (hp.obs _ hmem).1 (by simp [Obs.isCallback])
      · exact ⟨_, by rw [hstack]; exact List.mem_cons_self, rfl⟩
      · simp at hmem

/-- No step takes a filter out of the chain, so it does not become empty. -/
theorem OpenInv.nonempty_step (hi : OpenInv tr s) (h : step env l s = some (s', o)) :
    s'.buffer.streamFilters ≠ [] := by
  intro hnil
  have hlen := (flagsGrow_step h).length
  rw [hnil] at hlen
  exact hi.nonempty (List.length_eq_zero_iff.mp (Nat.le_zero.mp hlen))

/-- Who reads after a step was reading, or has just started to on a connected buffer. -/
theorem OpenInv.reading_step (hi : OpenInv tr s) (h : step env l s = some (s', o))
    (hr : ∃ fr ∈ s'.stack, fr.reads = true) : ChainComplete s' := by
  rcases reads_of_step h hr with hr' | ⟨hnil, -, hconn, hb, hst⟩
  · exact (hi.reading hr').step h
  · refine ⟨by rw [hb]; exact hconn, ?_, by simp [hst, Frame.opens]⟩
    rw [hb]
    by_contra ha
    have hconnected := hi.allowed (step_inv h).1 (by simpa using ha)
    simp [hnil] at hconnected

/-- Data is delivered from a chain that is complete, and it stays so. -/
theorem OpenInv.data_step (hi : OpenInv tr s) (h : step env l s = some (s', o))
    (hdata : ∃ d, .callback (.handleData d) ∈ tr ++ o) : ChainComplete s' := by
  obtain ⟨d, hmem⟩ := hdata
  rcases List.mem_append.mp hmem with hmem | hmem
  · exact (hi.data ⟨d, hmem⟩).step h
  · exact (hi.reading (reads_of_data h hmem)).step h

/-- **One step keeps connecting and reading apart.** Only a call on a connected buffer starts to
read, and it starts from an empty stack; only `HandleConnected` may add a filter, and it is
called from `DoConnect`. -/
theorem openInv_step (h : step env l s = some (s', o)) (hi : OpenInv tr s) :
    OpenInv (tr ++ o) s' := by
  have hcr : s.crashed = none := (step_inv h).1
  have hreading := hi.reading_step h
  have hdata := hi.data_step h
  have hnonempty := hi.nonempty_step h
  obtain ⟨-, hmove⟩ := move_of_step h
  cases hmove with
  | aside ha =>
      refine ⟨hnonempty, fun hcr' hal => ?_, fun hmem => ?_, by rw [ha.stack]; exact hi.onTop,
        hreading, hdata⟩
      · rw [ha.stack]
        exact hi.allowed hcr (by rw [← ha.addFilterAllowed]; exact hal)
      · simp only [StreamBuffer.back, StreamBuffer.backIndex, StreamBuffer.filter, ha.filters]
        exact hi.connecting (by rw [← ha.stack]; exact hmem)
  | @ret c rest hstack =>
      have hrest : ∀ {f}, f ∈ rest → f ∈ s.stack := fun hf => by
        rw [hstack]
        exact List.mem_cons_of_mem _ hf
      refine ⟨hnonempty, fun _ hal => ?_, fun hmem => hi.connecting (hrest hmem), ?_,
        hreading, hdata⟩
      · have hmem := hi.allowed hcr hal
        rw [hstack] at hmem
        exact (List.mem_cons.mp hmem).resolve_left (by simp)
      · intro hmem
        refine hi.onTop ?_
        rw [hstack]
        exact List.mem_of_mem_tail hmem
  | added hstack hadd =>
      have hback := StreamBuffer.back_addStreamBufferFilter hadd
      obtain ⟨-, ⟨hnil, -⟩ | ⟨-, rfl⟩⟩ := StreamBuffer.addStreamBufferFilter_cases hadd
      · exact absurd hnil hi.nonempty
      · exact ⟨hnonempty, by simp, fun _ => hback, hi.onTop, hreading, hdata⟩
  | enter hstack hn =>
      obtain ⟨hb, -, hthrew, hframes⟩ := StreamBuffer.handleEvents_cases hn
      rw [resume_of_threw_none hthrew] at hreading hdata ⊢
      refine ⟨by rw [hb]; exact hi.nonempty, fun _ hal => ?_, fun hmem => ?_, ?_, hreading, hdata⟩
      · have := hi.allowed hcr (by rw [← hb]; exact hal)
        simp [hstack] at this
      · rw [hb]
        rcases hframes with ⟨-, hf⟩ | ⟨-, -, hf⟩ | ⟨-, -, hopen, -⟩ | ⟨-, -, -, hf⟩
        · simp [hf] at hmem
        · simp [hf] at hmem
        · exact hopen
        · simp [hf] at hmem
      · rcases hframes with ⟨-, hf⟩ | ⟨-, -, hf⟩ | ⟨-, -, -, hf⟩ | ⟨-, -, -, hf⟩ <;> simp [hf]
  | @run fr rest n hstack hrun =>
      have hrest : .doConnect ∉ rest := fun hmem => hi.onTop (by rw [hstack]; exact hmem)
      rw [resume_of_threw_none (StreamBuffer.runFrame_threw hrun)] at hreading hdata ⊢
      have hmem_rest : ∀ {f}, f ∈ s.stack → f ≠ fr → f ∈ n.frames ++ rest := fun hf hne => by
        rw [hstack] at hf
        exact List.mem_append_right _ ((List.mem_cons.mp hf).resolve_left hne)
      rcases StreamBuffer.runFrame_plain hrun with hp | ⟨rfl, -, -, -, rfl⟩
      · have hno : .doConnect ∉ n.frames ++ rest := fun hmem => by
          rcases List.mem_append.mp hmem with hf | hf
          · exact absurd (hp.frames _ hf).1 (by simp [Frame.opens])
          · exact hrest hf
        refine ⟨by simpa using hnonempty, fun _ hal => ?_, fun hmem => absurd hmem hno,
          fun hmem => hno (List.mem_of_mem_tail hmem), hreading, hdata⟩
        have hal' : n.buffer.addFilterAllowed = true := hal
        rw [hp.addFilterAllowed, Bool.and_eq_true] at hal'
        exact hmem_rest (hi.allowed hcr hal'.1) (bne_iff_ne.mp hal'.2).symm
      · refine ⟨hi.nonempty, fun _ hal => hmem_rest (hi.allowed hcr hal) (by simp), ?_, ?_,
          hreading, hdata⟩
        · exact fun hmem => absurd hmem (by simp [hrest])
        · exact fun hmem => absurd (List.mem_of_mem_tail hmem) (by simp [hrest])
  | @answer fr rest r n k hstack hans =>
      have hrest : .doConnect ∉ rest := fun hmem => hi.onTop (by rw [hstack]; exact hmem)
      have hno : (∀ f ∈ n.frames, f ≠ .doConnect) → .doConnect ∉ (s.resume rest n).stack :=
        fun hframes => doConnect_not_mem_tail hframes hrest
      have hkeep : fr ≠ .connected → .connected ∈ s.stack → (s.resume rest n).crashed = none →
          .connected ∈ (s.resume rest n).stack := by
        intro hfr hmem hcr'
        cases hthrew : n.threw with
        | some e => simp [resume_of_threw hthrew] at hcr'
        | none =>
            rw [resume_of_threw_none hthrew]
            rw [hstack] at hmem
            exact List.mem_append_right _ ((List.mem_cons.mp hmem).resolve_left (Ne.symm hfr))
      have hfr : fr ≠ .connected := by
        rintro rfl
        simp [StreamBuffer.answerFrame] at hans
      rcases StreamBuffer.answerFrame_plain hans with hp | ⟨i, x, d, rfl, -, -, rfl⟩ | ⟨rfl, rfl⟩
      · have hno' := hno fun f hf hc => by
          have := (hp.frames f hf).1
          rw [hc] at this
          simp [Frame.opens] at this
        refine ⟨hnonempty, fun hcr' hal => ?_, fun hmem => absurd hmem hno',
          fun hmem => hno' (List.mem_of_mem_tail hmem), hreading, hdata⟩
        have hal' : n.buffer.addFilterAllowed = true := by simpa using hal
        rw [hp.addFilterAllowed, Bool.and_eq_true] at hal'
        exact hkeep hfr (hi.allowed hcr hal'.1) hcr'
      · have hno' := hno (by simp)
        exact ⟨hnonempty, fun hcr' hal => hkeep hfr (hi.allowed hcr hal) hcr',
          fun hmem => absurd hmem hno', fun hmem => hno' (List.mem_of_mem_tail hmem),
          hreading, hdata⟩
      · have hno' := hno (by simp)
        exact ⟨hnonempty, fun _ _ => by simp [resume], fun hmem => absurd hmem hno',
          fun hmem => hno' (List.mem_of_mem_tail hmem), hreading, hdata⟩

theorem openInv_of_run (h : GuardedRun (bufferSystem env) ok (init mode addr k) tr s) :
    OpenInv tr s := by
  refine h.invariant ?_ fun _ hi _ hs => openInv_step hs hi
  refine ⟨by simp [init, StreamBuffer.create_eq], ?_, ?_, ?_, ?_, ?_⟩ <;>
    simp [init, StreamBuffer.create_eq]

/-! ### One `HandleConnected` for each connected filter -/

/-- The filters whose `Connect` or `Accept` has succeeded, in order. -/
def connects (tr : List (Obs ρ)) : List Nat := tr.filterMap Obs.connects

/-- The callbacks of the handler, in order. -/
def callbacks (tr : List (Obs ρ)) : List Callback := tr.filterMap Obs.toCallback

/-- Each filter connects once, and each success is told to the handler. -/
structure ConnectInv (tr : List (Obs ρ)) (s : BufferState κ) : Prop where
  /-- the flag `connected_` tells whose turn has been -/
  iff : ∀ i, i ∈ connects tr ↔ (s.buffer.filter i).connected = true
  /-- a connected filter is not connected again -/
  nodup : (connects tr).Nodup
  /-- the handler is told in the step of the success -/
  count : (callbacks tr).count .handleConnected = (connects tr).length

@[simp] theorem connects_append (tr o : List (Obs ρ)) :
    connects (tr ++ o) = connects tr ++ connects o := by simp [connects]

@[simp] theorem callbacks_append (tr o : List (Obs ρ)) :
    callbacks (tr ++ o) = callbacks tr ++ callbacks o := by simp [callbacks]

theorem mem_callbacks {c : Callback} : c ∈ callbacks tr ↔ .callback c ∈ tr := by
  constructor
  · intro h
    obtain ⟨x, hx, hc⟩ := List.mem_filterMap.mp h
    cases x <;> simp [Obs.toCallback] at hc
    rw [← hc]
    exact hx
  · exact fun h => List.mem_filterMap.mpr ⟨_, h, rfl⟩

/-- A step that connects nothing. -/
structure ConnectsNothing (s s' : BufferState κ) (o : List (Obs ρ)) : Prop where
  connected : ∀ i, (s'.buffer.filter i).connected = (s.buffer.filter i).connected
  connects : connects o = []
  callbacks : .handleConnected ∉ callbacks o

theorem connectsNothing_of_obs
    (hc : ∀ i, (s'.buffer.filter i).connected = (s.buffer.filter i).connected)
    (ho : ∀ x ∈ o, x.isCallback = false ∧ x.connects = none) : ConnectsNothing s s' o := by
  refine ⟨hc, List.filterMap_eq_nil_iff.mpr fun x hx => (ho x hx).2, fun hmem => ?_⟩
  have := (ho _ (mem_callbacks.mp hmem)).1
  simp [Obs.isCallback] at this

/-- A filter that is added is not connected, and the others keep what they are. -/
theorem added_connected {b b' : StreamBuffer} {f : Filter} (h : b.addStreamBufferFilter f = .ok b')
    (hf : f.connected = false) (i : Nat) : (b'.filter i).connected = (b.filter i).connected := by
  have hgetD : ∀ (fs : List Filter) (x : Filter), x.connected = false →
      ((fs ++ [x]).getD i default).connected = (fs.getD i default).connected := by
    intro fs x hx
    rcases Nat.lt_trichotomy i fs.length with hi | rfl | hi
    · simp [List.getElem?_append_left hi]
    · simp [hx]
      rfl
    · rw [List.getD_eq_getElem?_getD, List.getD_eq_getElem?_getD,
        List.getElem?_eq_none (by simp; omega), List.getElem?_eq_none (by omega)]
  obtain ⟨-, ⟨hnil, rfl⟩ | ⟨-, rfl⟩⟩ := StreamBuffer.addStreamBufferFilter_cases h
  · simp only [StreamBuffer.filter, hnil]
    exact hgetD [] { f with order := 0 } hf
  · have hset := StreamBuffer.connected_setFilter b b.backIndex i
      (f := { b.back with next := some f.addr }) rfl
    rw [← hset]
    exact hgetD _ _ hf

/-- A step connects nothing, or it connects the last filter and says so in the same step. The
answer to `Connect` is the only one that is not plain in this respect, and `DoConnect` asks the
last filter. -/
theorem connect_step (h : step env l s = some (s', o)) (hi : OpenInv tr s) :
    ConnectsNothing s s' o ∨
      ((∃ rest, s.stack = .doConnect :: rest) ∧ connects o = [s.buffer.backIndex] ∧
        callbacks o = [.handleConnected] ∧
        ∀ i, (s'.buffer.filter i).connected = true ↔
          i = s.buffer.backIndex ∨ (s.buffer.filter i).connected = true) := by
  obtain ⟨-, hmove⟩ := move_of_step h
  cases hmove with
  | aside ha =>
      refine .inl
        (connectsNothing_of_obs (fun i => by simp only [StreamBuffer.filter, ha.filters]) ?_)
      intro x hx
      have := ha.obs x hx
      cases x <;> simp_all [Obs.aside, Obs.isCallback, Obs.connects]
  | ret => exact .inl (connectsNothing_of_obs (fun _ => rfl) (by simp))
  | added hstack hadd =>
      exact .inl (connectsNothing_of_obs (added_connected hadd rfl)
        (by simp [Obs.isCallback, Obs.connects]))
  | enter hstack hn =>
      obtain ⟨hb, hobs, -, -⟩ := StreamBuffer.handleEvents_cases hn
      refine .inl (connectsNothing_of_obs (fun i => by rw [resume_buffer, hb]) ?_)
      simp [hobs, Obs.isCallback, Obs.connects]
  | run hstack hrun =>
      refine .inl ?_
      rcases StreamBuffer.runFrame_plain hrun with hp | ⟨rfl, -, -, -, rfl⟩
      · exact connectsNothing_of_obs (fun i => by rw [resume_buffer, hp.connected i]) hp.obs
      · exact ⟨fun _ => rfl, rfl, by simp [callbacks, Obs.toCallback]⟩
  | @answer fr rest r n k hstack hans =>
      rcases StreamBuffer.answerFrame_plain hans with hp | ⟨i, x, d, rfl, hx, hx', rfl⟩ | ⟨rfl, rfl⟩
      · refine .inl (connectsNothing_of_obs (fun i => ?_) hp.obs)
        change ((s.resume rest n).buffer.filter i).connected = _
        rw [resume_buffer, hp.connected i]
      · refine .inl ⟨fun _ => rfl, ?_, ?_⟩
        · rw [connects, List.filterMap_cons_none hx', List.filterMap_cons_none rfl,
            List.filterMap_nil]
        · cases x <;> simp_all [callbacks, Obs.isCallback, Obs.toCallback]
      · refine .inr ⟨⟨rest, hstack⟩, rfl, rfl, fun i => ?_⟩
        have hlt : s.buffer.backIndex < s.buffer.streamFilters.length := by
          have := List.length_pos_iff.mpr hi.nonempty
          simp only [StreamBuffer.backIndex]
          omega
        change ((s.buffer.setFilter s.buffer.backIndex _).filter i).connected = true ↔ _
        rw [StreamBuffer.filter_setFilter]
        by_cases hib : s.buffer.backIndex = i
        · simp [hib, hib ▸ hlt]
        · simp [hib, Ne.symm hib]

/-- **One step keeps the count.** `Connect` and `Accept` succeed at most once for a filter, in
the frame that then calls `HandleConnected`. -/
theorem connectInv_step (h : step env l s = some (s', o)) (hi : OpenInv tr s)
    (hc : ConnectInv tr s) : ConnectInv (tr ++ o) s' := by
  rcases connect_step h hi with hno | ⟨⟨rest, hstack⟩, hcon, hcb, hconn⟩
  · refine ⟨fun i => ?_, ?_, ?_⟩
    · rw [connects_append, hno.connects, List.append_nil, hno.connected i]
      exact hc.iff i
    · rw [connects_append, hno.connects, List.append_nil]
      exact hc.nodup
    · rw [connects_append, hno.connects, callbacks_append, List.count_append,
        List.count_eq_zero_of_not_mem hno.callbacks, List.append_nil, Nat.add_zero]
      exact hc.count
  · have hback : s.buffer.back.connected = false :=
      hi.connecting (by rw [hstack]; exact List.mem_cons_self)
    refine ⟨fun i => ?_, ?_, ?_⟩
    · rw [connects_append, hcon, List.mem_append, List.mem_singleton, hc.iff i, hconn i, or_comm]
    · rw [connects_append, hcon, List.nodup_append]
      refine ⟨hc.nodup, by simp, ?_⟩
      intro i hmem j hj hij
      obtain rfl := List.mem_singleton.mp hj
      have := (hc.iff i).mp hmem
      rw [hij] at this
      rw [StreamBuffer.back, this] at hback
      exact absurd hback (by simp)
    · rw [connects_append, hcon, callbacks_append, hcb, List.count_append, hc.count]
      simp

theorem connectInv_of_run (h : GuardedRun (bufferSystem env) ok (init mode addr k) tr s) :
    ConnectInv tr s := by
  refine h.invariant ?_ fun hrun hi _ hs => connectInv_step hs (openInv_of_run hrun) hi
  refine ⟨fun i => ?_, by simp [connects], by simp [callbacks, connects]⟩
  have hnew : ((init mode addr k).buffer.filter i).connected = false := by
    cases i <;> simp [init, StreamBuffer.create_eq, StreamBuffer.filter] <;> rfl
  simp [connects, hnew]

/-! ### The end of file -/

/-- What is still to be run of a call will look for the end of file. -/
def WillFinalize (s : BufferState κ) : Prop := .doFinalize ∈ s.stack ∨ .finalizeEOF ∈ s.stack

/-- `HandleEOF` is due exactly when every filter is closed, and nothing follows it. -/
structure EofInv (s : BufferState κ) : Prop where
  /-- the test for the end of file comes after `DoClose`, or the last filter is readable -/
  finalizing : .finalizeEOF ∈ s.stack → s.buffer.shouldClose = true ∨
    s.stack = [.finalizeEOF] ∧ s.buffer.back.readClosed = false
  /-- after `HandleEOF` nothing connects or reads: `should_close_` keeps the next calls out -/
  eof : s.buffer.eofCalled = true → s.buffer.isReadClosed = true ∧ s.buffer.isWriteClosed = true ∧
    s.buffer.shouldClose = true ∧ ∀ fr ∈ s.stack, fr.opens = false ∧ fr.reads = false
  /-- with every filter closed, the end of file has been told or will be -/
  closed : s.crashed = none → s.buffer.isReadClosed = true → s.buffer.isWriteClosed = true →
    s.buffer.eofCalled = true ∨ WillFinalize s

/-- Unless a filter is added, what is closed in every filter stays so. -/
theorem FlagsGrow.closed {b b' : StreamBuffer} (h : FlagsGrow b b')
    (hlen : b'.streamFilters.length = b.streamFilters.length) :
    (b.isReadClosed = true → b'.isReadClosed = true) ∧
      (b.isWriteClosed = true → b'.isWriteClosed = true) := by
  have hall : ∀ {b : StreamBuffer} {p : Filter → Bool}, b.streamFilters.all p = true ↔
      ∀ i, i < b.streamFilters.length → p (b.filter i) = true := by
    intro b p
    rw [List.all_eq_true]
    constructor
    · intro hp i hi
      refine hp _ ?_
      simp only [StreamBuffer.filter, List.getD_eq_getElem?_getD, List.getElem?_eq_getElem hi]
      exact List.getElem_mem hi
    · intro hp f hf
      obtain ⟨i, hi, rfl⟩ := List.mem_iff_getElem.mp hf
      have := hp i hi
      simpa [StreamBuffer.filter, List.getElem?_eq_getElem hi] using this
  constructor
  · intro hc
    exact hall.mpr fun i hi => h.readClosed i (hall.mp hc i (hlen ▸ hi))
  · intro hc
    exact hall.mpr fun i hi => h.writeClosed i (hall.mp hc i (hlen ▸ hi))

/-- Filters are added only where that is allowed. -/
theorem length_eq_of_step (h : step env l s = some (s', o))
    (hfixed : s.buffer.addFilterAllowed = false) :
    s'.buffer.streamFilters.length = s.buffer.streamFilters.length := by
  obtain ⟨-, hmove⟩ := move_of_step h
  cases hmove with
  | aside ha => rw [ha.filters]
  | ret => rfl
  | added hstack hadd =>
      have hallowed := (StreamBuffer.addStreamBufferFilter_cases hadd).1
      exact absurd hallowed (by simp [hfixed])
  | enter hstack hn =>
      obtain ⟨hb, -⟩ := StreamBuffer.handleEvents_cases hn
      rw [resume_buffer, hb]
  | run hstack hrun =>
      rw [resume_buffer]
      rcases StreamBuffer.runFrame_plain hrun with hp | ⟨rfl, -, -, -, rfl⟩
      · exact hp.length
      · rfl
  | @answer fr rest r n k hstack hans =>
      change (s.resume rest n).buffer.streamFilters.length = _
      rw [resume_buffer]
      rcases StreamBuffer.answerFrame_plain hans with hp | ⟨i, x, d, rfl, -, -, rfl⟩ | ⟨rfl, rfl⟩
      · exact hp.length
      · rfl
      · simp [StreamBuffer.setFilter]

/-- Connecting goes on in a call that was connecting, or starts with a call on an open buffer. -/
theorem opens_of_step (h : step env l s = some (s', o)) (hr : ∃ fr ∈ s'.stack, fr.opens = true) :
    (∃ fr ∈ s.stack, fr.opens = true) ∨ (s.stack = [] ∧ s.buffer.shouldClose = false) := by
  obtain ⟨fr', hmem, hopens⟩ := hr
  obtain ⟨-, hmove⟩ := move_of_step h
  have hback : ∀ {fr rest} {n : Next ρ StreamBuffer}, s.stack = fr :: rest →
      (∀ f ∈ n.frames, f.opens = true → fr.opens = true) → fr' ∈ (s.resume rest n).stack →
      ∃ fr ∈ s.stack, fr.opens = true := by
    intro fr rest n hstack hframes hmem
    rcases mem_resume hmem with hf | hf
    · exact ⟨fr, by rw [hstack]; exact List.mem_cons_self, hframes _ hf hopens⟩
    · exact ⟨fr', by rw [hstack]; exact List.mem_cons_of_mem _ hf, hopens⟩
  cases hmove with
  | aside ha => exact .inl ⟨fr', by rw [← ha.stack]; exact hmem, hopens⟩
  | added => exact .inl ⟨fr', hmem, hopens⟩
  | ret hstack => exact .inl ⟨fr', by rw [hstack]; exact List.mem_cons_of_mem _ hmem, hopens⟩
  | enter hstack hn =>
      obtain ⟨-, -, hthrew, hframes⟩ := StreamBuffer.handleEvents_cases hn
      rw [resume_of_threw_none hthrew] at hmem
      rcases hframes with ⟨-, hf⟩ | ⟨-, -, hf⟩ | ⟨-, hcl, -, -⟩ | ⟨-, hcl, -, -⟩
      · rw [hf] at hmem
        simp at hmem
        simp [hmem, Frame.opens] at hopens
      · rw [hf] at hmem
        simp at hmem
        rcases hmem with rfl | rfl <;> simp [Frame.opens] at hopens
      · exact .inr ⟨hstack, hcl⟩
      · exact .inr ⟨hstack, hcl⟩
  | run hstack hrun =>
      refine .inl (hback hstack ?_ hmem)
      rcases StreamBuffer.runFrame_plain hrun with hp | ⟨rfl, -, -, -, rfl⟩
      · exact fun f hf hop => absurd hop (by simp [(hp.frames f hf).1])
      · simp [Frame.opens]
  | @answer fr rest r n k hstack hans =>
      refine .inl (hback (n := n) hstack ?_ hmem)
      rcases StreamBuffer.answerFrame_plain hans with hp | ⟨i, x, d, rfl, -, -, rfl⟩ | ⟨rfl, rfl⟩
      · exact fun f hf hop => absurd hop (by simp [(hp.frames f hf).1])
      · simp [Frame.opens]
      · simp [Frame.opens]

/-- The frame `finalizeEOF` is pushed by `DoFinalize`, alone or below its `DoClose`. In the
second case `should_close_` has been set in that step. -/
theorem finalizing_step (h : step env l s = some (s', o)) (hshape : CallShape s.stack)
    (hi : .finalizeEOF ∈ s.stack → s.buffer.shouldClose = true ∨
      s.stack = [.finalizeEOF] ∧ s.buffer.back.readClosed = false)
    (hmem : .finalizeEOF ∈ s'.stack) : s'.buffer.shouldClose = true ∨
      s'.stack = [.finalizeEOF] ∧ s'.buffer.back.readClosed = false := by
  have hgrow := flagsGrow_step h
  -- a frame below the top was there before
  have hbelow : ∀ {fr rest}, s.stack = fr :: rest → .finalizeEOF ∈ rest →
      s'.buffer.shouldClose = true := by
    intro fr rest hstack hrest
    rcases hi (by rw [hstack]; exact List.mem_cons_of_mem _ hrest) with hcl | ⟨hst, -⟩
    · exact hgrow.shouldClose hcl
    · obtain ⟨-, rfl⟩ := List.cons.inj (hstack.symm.trans hst)
      simp at hrest
  obtain ⟨-, hmove⟩ := move_of_step h
  cases hmove with
  | aside ha =>
      rw [ha.stack] at hmem ⊢
      rcases hi hmem with hcl | ⟨hst, hrc⟩
      · exact .inl (hgrow.shouldClose hcl)
      · refine .inr ⟨hst, ?_⟩
        simp only [StreamBuffer.back, StreamBuffer.backIndex, StreamBuffer.filter, ha.filters]
        exact hrc
  | ret hstack => exact .inl (hbelow hstack hmem)
  | added hcb hadd =>
      have hmem' : .finalizeEOF ∈ s.stack := hmem
      rcases hcb with hnil | ⟨c, rest, hstack⟩
      · rw [hnil] at hmem'
        exact absurd hmem' (by simp)
      · rw [hstack] at hmem'
        exact .inl (hbelow hstack ((List.mem_cons.mp hmem').resolve_left (by simp)))
  | enter hstack hn =>
      obtain ⟨-, -, hthrew, hframes⟩ := StreamBuffer.handleEvents_cases hn
      rw [resume_of_threw_none hthrew] at hmem
      rcases hframes with ⟨-, hf⟩ | ⟨-, -, hf⟩ | ⟨-, -, -, hf⟩ | ⟨-, -, -, hf⟩ <;>
        simp [hf] at hmem
  | @answer fr rest r n k hstack hans =>
      have hinner := inner_of_answer hans
      rcases mem_resume (n := n) hmem with hf | hf
      · exfalso
        rcases StreamBuffer.answerFrame_plain hans with hp | ⟨i, x, d, -, -, -, rfl⟩ | ⟨-, rfl⟩
        · have := (hp.frames _ hf).2.2 hinner
          simp [Frame.inner] at this
        · simp at hf
        · simp at hf
      · exact .inl (hbelow hstack hf)
  | @run fr rest n hstack hrun =>
      rcases mem_resume hmem with hf | hf
      · have hfr : fr = .doFinalize := by
          rcases StreamBuffer.runFrame_plain hrun with hp | ⟨rfl, -, -, -, rfl⟩
          · by_contra hne
            have hinner : fr.inner ≠ true := fun hin => by
              have := (hp.frames _ hf).2.2 hin
              simp [Frame.inner] at this
            cases fr with
            | finalizeEOF =>
                obtain rfl := Option.some.inj hrun
                unfold StreamBuffer.finalizeEOF at hf
                split_ifs at hf <;> simp at hf
            | closeEvent =>
                obtain rfl := Option.some.inj hrun
                simp at hf
            | callback c => simp [StreamBuffer.runFrame] at hrun
            | doFinalize => exact hne rfl
            | _ => exact hinner rfl
          · simp at hf
        subst hfr
        obtain rfl := Option.some.inj hrun
        -- nothing is left of the call below `DoFinalize`
        have hrest : rest = [] := by
          rw [hstack] at hshape
          rcases hshape.cons_cases with ⟨hc, -⟩ | ⟨hc, -⟩ | ⟨-, hnil⟩ | ⟨hin, -⟩
          · exact absurd hc (by simp)
          · exact absurd hc (by simp)
          · exact hnil
          · exact absurd hin (by simp [Frame.inner])
        subst hrest
        unfold StreamBuffer.doFinalize
        split_ifs with hc
        · exact .inl rfl
        · by_cases hcl : s.buffer.shouldClose = true
          · exact .inl hcl
          · exact .inr ⟨rfl, by simpa [hcl] using hc⟩
      · exact .inl (hbelow hstack hf)

/-- A closed buffer whose call has returned has delivered its end of file. Flags are set within a
call, and its `DoFinalize` or its test for the end of file is still on the stack then. -/
theorem closed_step (h : step env l s = some (s', o)) (hshape : CallShape s.stack)
    (hopen : OpenInv tr s)
    (hi : s.buffer.isReadClosed = true → s.buffer.isWriteClosed = true →
      s.buffer.eofCalled = true ∨ WillFinalize s)
    (hcr : s'.crashed = none) (hr : s'.buffer.isReadClosed = true)
    (hw : s'.buffer.isWriteClosed = true) : s'.buffer.eofCalled = true ∨ WillFinalize s' := by
  have hlast : ∀ {e : Frame}, e = .doFinalize ∨ e = .finalizeEOF → e ∈ s'.stack →
      s'.buffer.eofCalled = true ∨ WillFinalize s' := by
    rintro e (rfl | rfl) hmem
    · exact .inr (.inl hmem)
    · exact .inr (.inr hmem)
  have hcrashed : s.crashed = none := (step_inv h).1
  obtain ⟨-, hmove⟩ := move_of_step h
  cases hmove with
  | aside ha =>
      rw [WillFinalize, ha.stack, ha.eofCalled]
      refine hi ?_ ?_
      · rw [StreamBuffer.isReadClosed, ← ha.filters]
        exact hr
      · rw [StreamBuffer.isWriteClosed, ← ha.filters]
        exact hw
  | @ret c rest hstack =>
      refine (hi hr hw).imp id fun hwill => ?_
      unfold WillFinalize at hwill ⊢
      rw [hstack] at hwill
      simpa using hwill
  | @added addr b hcb hadd =>
      have hallowed := hopen.allowed hcrashed (StreamBuffer.addStreamBufferFilter_cases hadd).1
      obtain ⟨c, rest, hstack⟩ := hcb.resolve_left fun hnil => by simp [hnil] at hallowed
      rw [hstack] at hshape
      rcases hshape.cons_cases with ⟨hc, -⟩ | ⟨-, rfl⟩ | ⟨he, -⟩ | ⟨-, fs, e, rfl, he, -⟩
      · exact absurd hc (by simp)
      · simp [hstack] at hallowed
      · rcases he with he | he <;> exact absurd he (by simp)
      · refine hlast he ?_
        change e ∈ s.stack
        rw [hstack]
        simp
  | enter hstack hn =>
      obtain ⟨hb, -, hthrew, hframes⟩ := StreamBuffer.handleEvents_cases hn
      rw [resume_of_threw_none hthrew] at hlast hr hw ⊢
      rcases hframes with ⟨-, hf⟩ | ⟨-, -, hf⟩ | ⟨-, -, -, hf⟩ | ⟨-, -, -, hf⟩
      · have hold := hi (by rw [← hb]; exact hr) (by rw [← hb]; exact hw)
        rw [WillFinalize, hstack] at hold
        exact .inl (by rw [hb]; simpa using hold)
      · exact hlast (.inl rfl) (by simp [hf])
      · exact hlast (.inl rfl) (by simp [hf])
      · exact hlast (.inl rfl) (by simp [hf])
  | @answer fr rest r n k hstack hans =>
      have hinner := inner_of_answer hans
      cases hthrew : n.threw with
      | some e => simp [resume_of_threw hthrew] at hcr
      | none =>
          rw [hstack] at hshape
          rcases hshape.cons_cases with ⟨rfl, -⟩ | ⟨rfl, -⟩ | ⟨he, -⟩ | ⟨-, fs, e, rfl, he, -⟩
          · simp [Frame.inner] at hinner
          · simp [Frame.inner] at hinner
          · rcases he with rfl | rfl <;> simp [Frame.inner] at hinner
          · exact hlast he (by simp [resume_of_threw_none hthrew])
  | @run fr rest n hstack hrun =>
      rw [resume_of_threw_none (StreamBuffer.runFrame_threw hrun)] at hlast hr hw ⊢
      rw [hstack] at hshape
      rcases hshape.cons_cases with
        ⟨rfl, rfl⟩ | ⟨rfl, -⟩ | ⟨rfl | rfl, rfl⟩ | ⟨-, fs, e, rfl, he, -⟩
      · obtain rfl := Option.some.inj hrun
        have hold := hi hr hw
        rw [WillFinalize, hstack] at hold
        exact .inl (by simpa using hold)
      · simp [StreamBuffer.runFrame] at hrun
      · obtain rfl := Option.some.inj hrun
        refine hlast (.inr rfl) ?_
        unfold StreamBuffer.doFinalize
        split_ifs <;> simp
      · obtain rfl := Option.some.inj hrun
        refine .inl ?_
        unfold StreamBuffer.finalizeEOF at hr hw ⊢
        split_ifs with hc
        · rfl
        · rw [if_neg hc] at hr hw
          simpa [hr, hw] using hc
      · exact hlast he (by simp)

/-- **One step keeps the end of file in its place.** A filter is closed by a frame that has
`DoFinalize` or the test for the end of file below it. -/
theorem eofInv_step (h : step env l s = some (s', o)) (hshape : CallShape s.stack)
    (hopen : OpenInv tr s) (hi : EofInv s) : EofInv s' := by
  have hcrashed : s.crashed = none := (step_inv h).1
  have hgrow := flagsGrow_step h
  refine ⟨finalizing_step h hshape hi.finalizing, fun heof => ?_,
    closed_step h hshape hopen (hi.closed hcrashed)⟩
  rcases eofCalled_step h with ⟨hsame, -⟩ | ⟨rest, hstack, hr, hw, -, rfl, -⟩
  · obtain ⟨hr, hw, hcl, hquiet⟩ := hi.eof (by rw [← hsame]; exact heof)
    have hfixed : s.buffer.addFilterAllowed = false := by
      by_contra ha
      have hmem := hopen.allowed hcrashed (by simpa using ha)
      have := (hquiet _ hmem).1
      simp [Frame.opens] at this
    have hclosed := FlagsGrow.closed hgrow (length_eq_of_step h hfixed)
    refine ⟨hclosed.1 hr, hclosed.2 hw, hgrow.shouldClose hcl, fun fr hfr => ⟨?_, ?_⟩⟩
    · by_contra hop
      rcases opens_of_step h ⟨fr, hfr, by simpa using hop⟩ with ⟨fr', hfr', hop'⟩ | ⟨-, hno⟩
      · exact absurd hop' (by simp [(hquiet fr' hfr').1])
      · exact absurd hcl (by simp [hno])
    · by_contra hre
      rcases reads_of_step h ⟨fr, hfr, by simpa using hre⟩ with ⟨fr', hfr', hre'⟩ | ⟨-, hno, -⟩
      · exact absurd hre' (by simp [(hquiet fr' hfr').2])
      · exact absurd hcl (by simp [hno])
  · -- the end of file has just been delivered
    have hrest : rest = [] := by
      rw [hstack] at hshape
      rcases hshape.cons_cases with ⟨hc, -⟩ | ⟨hc, -⟩ | ⟨-, hnil⟩ | ⟨hin, -⟩
      · exact absurd hc (by simp)
      · exact absurd hc (by simp)
      · exact hnil
      · exact absurd hin (by simp [Frame.inner])
    subst hrest
    have hback : s.buffer.back.readClosed = true := by
      have hmem : s.buffer.back ∈ s.buffer.streamFilters := by
        have hpos := List.length_pos_iff.mpr hopen.nonempty
        simp only [StreamBuffer.back, StreamBuffer.filter, List.getD_eq_getElem?_getD]
        rw [List.getElem?_eq_getElem (by simp only [StreamBuffer.backIndex]; omega)]
        exact List.getElem_mem _
      exact List.all_eq_true.mp hr _ hmem
    refine ⟨hr, hw, ?_, by simp [Frame.opens, Frame.reads]⟩
    rcases hi.finalizing (by rw [hstack]; exact List.mem_cons_self) with hcl | ⟨-, hno⟩
    · exact hcl
    · exact absurd hback (by simp [hno])

theorem eofInv_of_run (h : GuardedRun (bufferSystem env) ok (init mode addr k) tr s) :
    EofInv s := by
  refine h.invariant (I := fun _ s => EofInv s) ?_ fun hrun hi _ hs =>
    eofInv_step hs (callShape_of_run hrun) (openInv_of_run hrun) hi
  refine ⟨by simp [init], by simp [init, StreamBuffer.create_eq], fun _ hr => ?_⟩
  simp [init, StreamBuffer.create_eq, StreamBuffer.isReadClosed, Filter.new] at hr

/-! ### The order of the callbacks -/

/-- `c` may come before `c'`. -/
def Ordered (c c' : Callback) : Prop :=
  match c, c' with
  | .handleConnected, _ => True
  | .handleData _, .handleConnected => False
  | .handleData _, _ => True
  | .handleEOF, _ => False

/-- What callbacks in order look like. -/
theorem shape_of_ordered {cs : List Callback} (h : cs.Pairwise Ordered) :
    ∃ (m : Nat) (ds : List DataView) (e : Bool),
      cs = List.replicate m .handleConnected ++ ds.map .handleData ++
      (if e = true then [.handleEOF] else []) := by
  induction cs with
  | nil => exact ⟨0, [], false, rfl⟩
  | cons c cs ih =>
      obtain ⟨hhead, htail⟩ := List.pairwise_cons.mp h
      obtain ⟨m, ds, e, rfl⟩ := ih htail
      cases c with
      | handleConnected => exact ⟨m + 1, ds, e, by simp [List.replicate_succ]⟩
      | handleData d =>
          have hm : m = 0 := by
            by_contra hm
            obtain ⟨m, rfl⟩ := Nat.exists_eq_succ_of_ne_zero hm
            exact hhead .handleConnected (by simp [List.replicate_succ])
          subst hm
          exact ⟨0, d :: ds, e, by simp⟩
      | handleEOF =>
          generalize hcs : List.replicate m Callback.handleConnected ++
            ds.map Callback.handleData ++ (if e = true then [.handleEOF] else []) = cs at hhead
          cases cs with
          | nil => exact ⟨0, [], true, by simp⟩
          | cons c' cs => exact (hhead c' List.mem_cons_self).elim

/-- The callback of a step, and what it is called from. -/
theorem callbacks_step (h : step env l s = some (s', o)) :
    callbacks o = [] ∨ (callbacks o = [.handleConnected] ∧ .doConnect ∈ s.stack) ∨
      (∃ d, callbacks o = [.handleData d] ∧ ∃ fr ∈ s.stack, fr.reads = true) ∨
      (callbacks o = [.handleEOF] ∧ s.buffer.eofCalled = false) := by
  have hnone : ∀ {o : List (Obs ρ)}, (∀ x ∈ o, x.isCallback = false) → callbacks o = [] := by
    intro o ho
    refine List.filterMap_eq_nil_iff.mpr fun x hx => ?_
    have := ho x hx
    cases x <;> simp_all [Obs.isCallback, Obs.toCallback]
  obtain ⟨-, hmove⟩ := move_of_step h
  cases hmove with
  | aside ha =>
      refine .inl (hnone fun x hx => ?_)
      have := ha.obs x hx
      cases x <;> simp_all [Obs.aside, Obs.isCallback]
  | ret => exact .inl rfl
  | added => exact .inl rfl
  | enter hstack hn =>
      obtain ⟨-, hobs, -⟩ := StreamBuffer.handleEvents_cases hn
      exact .inl (hnone (by simp [hobs, Obs.isCallback]))
  | run hstack hrun =>
      rcases StreamBuffer.runFrame_plain hrun with hp | ⟨rfl, -, -, he, rfl⟩
      · exact .inl (hnone fun x hx => (hp.obs x hx).1)
      · exact .inr (.inr (.inr ⟨rfl, he⟩))
  | answer hstack hans =>
      rcases StreamBuffer.answerFrame_plain hans with hp | ⟨i, x, d, rfl, hx, -, rfl⟩ | ⟨rfl, rfl⟩
      · exact .inl (hnone fun x hx => (hp.obs x hx).1)
      · refine .inr (.inr (.inl ⟨d, ?_, _, by rw [hstack]; exact List.mem_cons_self, rfl⟩))
        have hx' : callbacks [x] = [] := hnone (by simpa using hx)
        have happ := callbacks_append [x] [.callback (.handleData d)]
        rw [hx'] at happ
        exact happ
      · exact .inr (.inl ⟨rfl, by rw [hstack]; exact List.mem_cons_self⟩)

/-- **Any two callbacks of a run are in order.** Data need a complete chain, after which nothing
connects; after `HandleEOF` there is nothing left to open or to read. -/
theorem callbacks_ordered (h : GuardedRun (bufferSystem env) ok (init mode addr k) tr s) :
    (callbacks tr).Pairwise Ordered := by
  refine h.invariant (I := fun tr _ => (callbacks tr).Pairwise Ordered) .nil ?_
  intro tr s l s' o hrun ih _ hs
  have hopen := openInv_of_run hrun
  have heof : .handleEOF ∈ callbacks tr → s.buffer.eofCalled = true := fun hmem =>
    (eofCalled_iff hrun).mpr (mem_callbacks.mp hmem)
  have hquiet : s.buffer.eofCalled = true → ∀ fr ∈ s.stack, fr.opens = false ∧ fr.reads = false :=
    fun he => ((eofInv_of_run hrun).eof he).2.2.2
  have hdata : ∀ {d}, .handleData d ∈ callbacks tr → ChainComplete s := fun hmem =>
    hopen.data ⟨_, mem_callbacks.mp hmem⟩
  rw [callbacks_append]
  refine List.pairwise_append.mpr ⟨ih, ?_, fun c hc c' hc' => ?_⟩
  · rcases callbacks_step hs with ho | ⟨ho, -⟩ | ⟨d, ho, -⟩ | ⟨ho, -⟩ <;> simp [ho]
  · rcases callbacks_step hs with ho | ⟨ho, hcon⟩ | ⟨d, ho, fr, hfr, hreads⟩ | ⟨ho, hno⟩ <;>
      rw [ho] at hc'
    · simp at hc'
    · obtain rfl := List.mem_singleton.mp hc'
      cases c with
      | handleConnected => trivial
      | handleData d =>
          have := (hdata hc).frames _ hcon
          simp [Frame.opens] at this
      | handleEOF =>
          have := (hquiet (heof hc) _ hcon).1
          simp [Frame.opens] at this
    · obtain rfl := List.mem_singleton.mp hc'
      cases c with
      | handleConnected => trivial
      | handleData d => trivial
      | handleEOF => exact absurd hreads (by simp [(hquiet (heof hc) fr hfr).2])
    · obtain rfl := List.mem_singleton.mp hc'
      cases c with
      | handleConnected => trivial
      | handleData d => trivial
      | handleEOF => exact absurd (heof hc) (by simp [hno])

/-- **The callback protocol of a stream buffer**: `HandleConnected`s, then data, then at most
one end of file. Data comes only with the last filter connected, and no filter is added
any more; `HandleConnected` comes once for each filter that connects; and when no call of
`HandleEvents` is under way, the end of file has been delivered exactly if every filter is
closed in both directions. -/
theorem callback_protocol (h : Run (bufferSystem env) (init mode addr k) tr s) :
    (∃ (m : Nat) (ds : List DataView) (e : Bool),
      callbacks tr = List.replicate m .handleConnected ++ ds.map .handleData ++
        (if e = true then [.handleEOF] else [])) ∧
    ((∃ d, .handleData d ∈ callbacks tr) →
      s.buffer.isConnected = true ∧ s.buffer.addFilterAllowed = false) ∧
    ((callbacks tr).count .handleConnected = (connects tr).length ∧ (connects tr).Nodup ∧
      ∀ i, i ∈ connects tr ↔ (s.buffer.filter i).connected = true) ∧
    (s.stack = [] → s.crashed = none →
      (.handleEOF ∈ callbacks tr ↔
        s.buffer.isReadClosed = true ∧ s.buffer.isWriteClosed = true)) := by
  have heof := eofInv_of_run h
  have hconn := connectInv_of_run h
  refine ⟨shape_of_ordered (callbacks_ordered h), ?_, ⟨hconn.count, hconn.nodup, hconn.iff⟩, ?_⟩
  · rintro ⟨d, hmem⟩
    have hc := (openInv_of_run h).data ⟨d, mem_callbacks.mp hmem⟩
    exact ⟨hc.connected, hc.fixed⟩
  · intro hstack hcr
    rw [mem_callbacks, ← eofCalled_iff h]
    constructor
    · intro he
      exact ⟨(heof.eof he).1, (heof.eof he).2.1⟩
    · rintro ⟨hr, hw⟩
      rcases heof.closed hcr hr hw with he | hwill
      · exact he
      · simp [WillFinalize, hstack] at hwill

/-- Filters that connect at once and find the end of file at once. -/
def readyEnv : FilterEnv Unit Unit where
  «in» _ _ _ := some (.ok ⟨true, none⟩, ())
  out _ _ _ _ := some (.ok (⟨false⟩, none), ())
  connect _ _ _ := some (.ok .success, ())
  accept _ _ _ := some (.ok .success, ())
  shutdown _ _ _ := some (.ok ⟨true⟩, ())
  tick _ _ := none

/-- A second filter is added when the first has connected; it connects in the next call, and
the call after that reads the end of file and closes both. -/
def twoFilters : List (BufferLabel Unit) :=
  [.handleEvents true, .answer (), .addFilter 1, .ret, .run, .run, .run, .run,
    .handleEvents true, .answer (), .ret, .run, .run, .run, .run,
    .handleEvents true, .run, .answer (), .run, .run, .run, .run, .run, .run, .answer (), .run,
    .run, .run, .answer (), .run, .run, .run, .ret, .run]

/-- The protocol of the schedule above: twice connected, then the end of file. -/
theorem callback_protocol_twoFilters :
    ∃ tr s, Run (bufferSystem readyEnv) (init .client 0 ()) tr s ∧
      callbacks tr = [.handleConnected, .handleConnected, .handleEOF] ∧ connects tr = [0, 1] ∧
      (.handleEOF ∈ callbacks tr ↔ s.buffer.isReadClosed = true ∧
        s.buffer.isWriteClosed = true) := by
  have hexec : exec (bufferSystem readyEnv) (fun _ _ => true) twoFilters (init .client 0 ()) =
      some (_, _) := rfl
  have hrun : Run (bufferSystem readyEnv) (init .client 0 ()) _ _ :=
    .of_exec (fun _ _ _ => trivial) hexec
  exact ⟨_, _, hrun, rfl, rfl, (callback_protocol hrun).2.2.2 rfl rfl⟩

end BufferState

end Libael
