import Libael.Lts.Potential
import Libael.StreamBuffer.Callbacks
import Libael.Tcp.Filter

/-!
# Libael.StreamBuffer.Work

**How long a call of `HandleEvents` takes.** Its loops are all paid for by something that happens
elsewhere: a turn of `Read` by a call of `HandleData`, a turn of `Write` or of the flush loop by
a view that `Write` has accepted, a turn of the reverse loop of `DoClose` by a filter. A call makes
`DoClose` at most once, so apart from reading and writing it is linear in the number of filters.

What has no bound is the loop of `Read` itself: it goes on for as long as `In` returns data, and
nothing is written in the meantime (`TODO IMPORTANT!!! handle starvation...` in the header).

* `left` is the potential: what is still to be run of a call, frame by frame, with the views of
  both lists. `Obs.brings` is what an observation adds to it.
* A frame that runs pays for itself (`runFrame_pays`), and so does one that is answered
  (`answerFrame_pays`); the method of `Libael.Lts.Potential` makes a bound of it.
* That a call returns also needs that nobody waits for ever: `Answers` says that the filters
  answer, and then a schedule that cannot be extended has come to the end of the call.
-/

namespace Libael

open Lts

/-! ### What is counted -/

/-- A transition of the thread of the loop inside `HandleEvents`. -/
def BufferLabel.ofLoop {ρ : Type} : BufferLabel ρ → Bool
  | .handleEvents _ | .run | .answer _ | .ret => true
  | _ => false

namespace Obs

variable {ρ : Type}

/-- A call of `HandleEvents` begins. -/
def isHandleEvents : Obs ρ → Bool
  | .handleEvents _ => true
  | _ => false

/-- `Write` has accepted a view. -/
def isAccepted : Obs ρ → Bool
  | .accepted _ => true
  | _ => false

/-- `HandleData` is called. -/
def isHandleData : Obs ρ → Bool
  | .callback (.handleData _) => true
  | _ => false

/-- What an observation brings, for a buffer of at most `n` filters: a call of `HandleEvents` its
frames, an accepted view its `Out`, a call of `HandleData` one more turn of `Read`. -/
def brings (n : Nat) : Obs ρ → Nat
  | .handleEvents _ => 6 * n + 13
  | .accepted _ => 1
  | .callback (.handleData _) => 2
  | _ => 0

end Obs

/-- What a trace brings, counted by kind. -/
theorem weight_brings {ρ : Type} (n : Nat) (tr : List (Obs ρ)) :
    weight (Obs.brings n) tr = (6 * n + 13) * tr.countP Obs.isHandleEvents +
      tr.countP Obs.isAccepted + 2 * tr.countP Obs.isHandleData := by
  induction tr with
  | nil => rfl
  | cons x tr ih =>
      rw [weight_cons, ih, List.countP_cons, List.countP_cons, List.countP_cons]
      cases x with
      | handleEvents alive =>
          simp only [Obs.brings, Obs.isHandleEvents, Obs.isAccepted, Obs.isHandleData, Nat.mul_add]
          simp
          omega
      | accepted d =>
          simp [Obs.brings, Obs.isHandleEvents, Obs.isAccepted, Obs.isHandleData]
          omega
      | callback c =>
          cases c <;> simp [Obs.brings, Obs.isHandleEvents, Obs.isAccepted, Obs.isHandleData]
          omega
      | _ => simp [Obs.brings, Obs.isHandleEvents, Obs.isAccepted, Obs.isHandleData]

/-! ### The work that is left -/

/-- At most how many transitions a frame still takes in a buffer of at most `n` filters, what it
reads and writes apart. `closing` is `should_close_`: `DoFinalize` calls `DoClose` only before it is
set. -/
def Frame.work (n : Nat) (closing : Bool) : Frame → Nat
  | .read _ | .write _ | .shutdown _ | .connected | .modifyEvent | .closeEvent | .callback _ => 1
  | .doRead | .doWrite | .flushed _ => 2
  | .flush _ | .finalizeEOF => 3
  | .close _ | .doConnect => 4
  | .closeFrom k => 6 * k + 1
  | .closeCheck k => 6 * k + 2
  | .doClose => 6 * n + 4
  | .doFinalize => if closing then 4 else 6 * n + 8

theorem Frame.work_closing (n : Nat) (closing : Bool) (fr : Frame) :
    fr.work n true ≤ fr.work n closing := by
  cases fr with
  | doFinalize =>
      show 4 ≤ if closing then 4 else 6 * n + 8
      split <;> omega
  | _ => exact Nat.le_refl _

namespace StreamBuffer

variable {κ ρ : Type} {b b' : StreamBuffer} {fr : Frame} {n : Nat}

/-- The views that wait in the queues of the buffer and of its filters. -/
def queued (b : StreamBuffer) : Nat :=
  b.pendingWrites.length + weight (fun f : Filter => f.pendingOut.length) b.streamFilters

/-- Replacing a filter exchanges what its queue holds. -/
theorem queued_setFilter (b : StreamBuffer) (i : Nat) (f : Filter) :
    (b.setFilter i f).queued + (b.filter i).pendingOut.length ≤ b.queued + f.pendingOut.length := by
  have hset : ∀ (fs : List Filter) (i : Nat),
      weight (fun f : Filter => f.pendingOut.length) (fs.set i f) +
        (fs.getD i default).pendingOut.length ≤
      weight (fun f : Filter => f.pendingOut.length) fs + f.pendingOut.length := by
    intro fs
    induction fs with
    | nil =>
        intro i
        exact Nat.zero_le _
    | cons g fs ih =>
        intro i
        cases i with
        | zero =>
            simp only [List.set_cons_zero, weight_cons, List.getD_cons_zero]
            omega
        | succ i =>
            have hle := ih i
            simp only [List.set_cons_succ, weight_cons, List.getD_cons_succ]
            omega
  have hle := hset b.streamFilters i
  show b.pendingWrites.length + _ + (b.streamFilters.getD i default).pendingOut.length ≤
    b.pendingWrites.length + _ + _
  show b.pendingWrites.length + weight (fun f : Filter => f.pendingOut.length)
    (b.streamFilters.set i f) + _ ≤ _
  omega

/-- A filter whose queue is left alone. -/
theorem queued_setFilter_same (b : StreamBuffer) (i : Nat) {f : Filter}
    (hf : f.pendingOut = (b.filter i).pendingOut) : (b.setFilter i f).queued ≤ b.queued := by
  have hle := queued_setFilter b i f
  rw [hf] at hle
  omega

/-- A new filter has nothing to send. -/
theorem queued_addStreamBufferFilter {addr : Nat}
    (h : b.addStreamBufferFilter (.new addr) = .ok b') : b'.queued ≤ b.queued := by
  rcases (addStreamBufferFilter_cases h).2 with ⟨hnil, rfl⟩ | ⟨-, rfl⟩
  · simp [queued, hnil, Filter.new]
  · have hle := queued_setFilter_same b b.backIndex
      (f := { b.back with next := some (Filter.new addr).addr }) rfl
    refine Nat.add_le_add_left ?_ b.pendingWrites.length
    rw [weight_append]
    exact Nat.le_of_add_le_add_left hle

/-- The stack weighs less once the buffer is to be closed. -/
theorem work_of_grows (h : b.shouldClose = true → b'.shouldClose = true) (stack : List Frame) :
    weight (Frame.work n b'.shouldClose) stack ≤ weight (Frame.work n b.shouldClose) stack := by
  induction stack with
  | nil => exact Nat.le_refl _
  | cons fr stack ih =>
      rw [weight_cons, weight_cons]
      refine Nat.add_le_add ?_ ih
      cases hb : b.shouldClose with
      | true => rw [h hb]
      | false =>
          cases hb' : b'.shouldClose with
          | true => exact fr.work_closing n false
          | false => exact Nat.le_refl _

/-! ### What a frame pays for -/

/-- The work of the frames `stack` in the buffer `b`, and of the views that wait in it. -/
def left (n : Nat) (b : StreamBuffer) (stack : List Frame) : Nat :=
  weight (Frame.work n b.shouldClose) stack + b.queued

theorem left_le {frames : List Frame} (hclose : b'.shouldClose = b.shouldClose)
    (hqueued : b'.queued ≤ b.queued)
    (hle : weight (Frame.work n b.shouldClose) frames + 1 ≤ fr.work n b.shouldClose) :
    left n b' frames + 1 ≤ left n b [fr] := by
  unfold left
  rw [hclose, weight_cons, weight_nil]
  omega

/-- A frame that asks no filter pays for itself with what it leaves. -/
theorem runFrame_pays {out : Next ρ StreamBuffer} (hn : b.streamFilters.length ≤ n)
    (h : b.runFrame fr = some out) : left n out.buffer out.frames + 1 ≤ left n b [fr] := by
  cases frameRun h with
  | writes _ _ =>
      -- the views move from `pending_writes_` to the last filter
      refine left_le rfl ?_ (by simp [Frame.work])
      generalize hf : ({ b.back with pendingOut := b.back.pendingOut ++ b.pendingWrites } :
        Filter) = f
      have hle := queued_setFilter b b.backIndex f
      have hlength : f.pendingOut.length =
          (b.filter b.backIndex).pendingOut.length + b.pendingWrites.length := by
        rw [← hf]
        exact List.length_append
      unfold queued at hle ⊢
      show 0 + weight _ (b.setFilter b.backIndex f).streamFilters ≤ _
      have hwrites : (b.setFilter b.backIndex f).pendingWrites = b.pendingWrites := rfl
      rw [hwrites] at hle
      omega
  | endOfFile hclose _ =>
      -- `should_close_` is set, so this `DoClose` is the only one of the call
      simp only [left, hclose, weight_cons, weight_nil, Frame.work, Bool.false_eq_true, if_false]
      show _ + b.queued + 1 ≤ _
      omega
  | finalizes _ =>
      refine left_le rfl (Nat.le_refl _) ?_
      simp only [weight_cons, weight_nil, Frame.work]
      split <;> omega
  | flushesAll _ | closesAll _ | skips _ | closes _ =>
      refine left_le rfl (Nat.le_refl _) ?_
      simp only [weight_cons, weight_nil, Frame.work]
      omega
  | _ => exact left_le rfl (Nat.le_refl _) (by simp [Frame.work])

/-- `Out` takes the head of the list, or leaves a suffix in its place. -/
theorem length_afterOut {f f' : Filter} {rest : List DataView} {res : OutResult × Option DataView}
    {drain : Filter.Drain} (h : f.afterOut rest res = (f', drain)) :
    f'.pendingOut.length ≤ rest.length + 1 ∧
      (drain = .consumed → f'.pendingOut.length = rest.length) := by
  unfold Filter.afterOut at h
  split at h
  · obtain ⟨rfl, rfl⟩ := Prod.mk.inj h
    exact ⟨Nat.le_succ _, fun _ => rfl⟩
  · split at h
    · obtain ⟨rfl, rfl⟩ := Prod.mk.inj h
      exact ⟨Nat.le_refl _, fun hd => absurd hd (by simp)⟩
    · obtain ⟨rfl, rfl⟩ := Prod.mk.inj h
      exact ⟨Nat.le_succ _, fun _ => rfl⟩

/-- A view is taken out of the queue of a filter; where it is put back the loop ends. -/
theorem callOut_pays {env : FilterEnv κ ρ} {i : Nat} {r : ρ} {k k' : κ} {again after : List Frame}
    {out : Next ρ StreamBuffer} (h : b.callOut env i r k again after = some (out, k'))
    (hagain : weight (Frame.work n b.shouldClose) again ≤ fr.work n b.shouldClose)
    (hafter : weight (Frame.work n b.shouldClose) after + 1 ≤ fr.work n b.shouldClose) :
    left n out.buffer out.frames + 1 ≤ left n b [fr] := by
  obtain ⟨d, rest, res, hpending, -, -, hcases⟩ := callOut_cases h
  have hlength : (b.filter i).pendingOut.length = rest.length + 1 := by rw [hpending]; rfl
  rcases hcases with ⟨e, -, -, hframes, hbuffer⟩ | ⟨res', f', drain, -, hout, -, hbuffer, hframes⟩
  · rw [hbuffer, hframes]
    have hle := queued_setFilter b i { b.filter i with pendingOut := rest }
    have hrest : ({ b.filter i with pendingOut := rest } : Filter).pendingOut.length =
        rest.length := rfl
    refine left_le rfl (by omega) ?_
    rw [weight_nil]
    omega
  · rw [hbuffer, hframes]
    have hle := queued_setFilter b i f'
    obtain ⟨hmost, hconsumed⟩ := length_afterOut hout
    split
    · rename_i hd
      have hrest := hconsumed hd
      unfold left
      show weight (Frame.work n b.shouldClose) again + _ + 1 ≤ _
      rw [weight_cons, weight_nil]
      omega
    · exact left_le rfl (by omega) hafter

/-- A frame that is answered pays for itself, with the credit of `HandleData` where it reads. -/
theorem answerFrame_pays {env : FilterEnv κ ρ} {r : ρ} {k k' : κ} {out : Next ρ StreamBuffer}
    (h : b.answerFrame env r k fr = some (out, k')) :
    left n out.buffer out.frames + 1 ≤ left n b [fr] + weight (Obs.brings n) out.obs := by
  cases hfr : fr.sends with
  | true =>
      have hle : left n out.buffer out.frames + 1 ≤ left n b [fr] := by
        cases fr with
        | write i => exact callOut_pays h (by simp [Frame.work]) (by simp [Frame.work])
        | flush i => exact callOut_pays h (by simp [Frame.work]) (by simp [Frame.work])
        | _ => exact absurd hfr (by simp [Frame.sends])
      omega
  | false =>
      rcases answerFrame_cases h hfr with ⟨e, x, rfl, hx⟩ | ⟨i, res, rfl, -, rfl⟩ |
        ⟨i, res, rfl, -, rfl⟩ | ⟨res, rfl, -, rfl⟩
      · have hle : left n b [] + 1 ≤ left n b [fr] := by
          refine left_le rfl (Nat.le_refl _) ?_
          rcases hx with ⟨i, rfl, -⟩ | ⟨i, rfl, -⟩ | ⟨rfl, -⟩ <;> simp [Frame.work]
        show left n b [] + 1 ≤ _
        omega
      · unfold afterIn
        split
        · refine Nat.le_trans ?_ (Nat.le_add_right _ _)
          exact left_le rfl (queued_setFilter_same b i rfl) (by simp [Frame.work, Next.after])
        · split
          · simp only [left, Next.after, weight_cons, weight_nil, Frame.work, Obs.brings]
            omega
          · refine Nat.le_trans ?_ (Nat.le_add_right _ _)
            exact left_le rfl (Nat.le_refl _) (by simp [Frame.work, Next.after])
      · refine Nat.le_trans ?_ (Nat.le_add_right _ _)
        unfold afterShutdown
        split
        · exact left_le rfl (queued_setFilter_same b i rfl) (by simp [Frame.work, Next.after])
        · exact left_le rfl (Nat.le_refl _) (by simp [Frame.work, Next.after])
      · refine Nat.le_trans ?_ (Nat.le_add_right _ _)
        cases res with
        | pending =>
            exact left_le rfl (Nat.le_refl _) (by simp [Frame.work, Next.after, afterConnect])
        | failed =>
            exact left_le rfl (queued_setFilter_same b _ rfl)
              (by simp [Frame.work, Next.after, afterConnect])
        | success =>
            exact left_le rfl (queued_setFilter_same b _ rfl)
              (by simp [Frame.work, Next.after, afterConnect])

end StreamBuffer

namespace BufferState

variable {κ ρ : Type} {env : FilterEnv κ ρ} {l : BufferLabel ρ} {s s' : BufferState κ}
  {o : List (Obs ρ)} {n : Nat}

/-- At most how many transitions the thread of the loop still takes for what is under way. -/
def work (n : Nat) (s : BufferState κ) : Nat := s.buffer.left n s.stack

/-- A frame that pays for its outcome pays for it with the rest of the stack in place. -/
theorem work_resume {out : Next ρ StreamBuffer} {fr : Frame} {rest : List Frame} {m : Nat}
    (hstack : s.stack = fr :: rest)
    (hgrows : s.buffer.shouldClose = true → out.buffer.shouldClose = true)
    (h : out.buffer.left n out.frames + 1 ≤ s.buffer.left n [fr] + m) :
    (s.resume rest out).work n + 1 ≤ s.work n + m := by
  have hrest := StreamBuffer.work_of_grows (n := n) hgrows rest
  unfold work
  rw [hstack]
  simp only [StreamBuffer.left, weight_cons, weight_nil, resume_buffer] at h ⊢
  cases hthrew : out.threw with
  | some e =>
      rw [resume_of_threw hthrew]
      dsimp only
      rw [weight_nil]
      omega
  | none =>
      rw [resume_of_threw_none hthrew]
      dsimp only
      rw [weight_append]
      omega

/-- A step that leaves the stack alone. -/
theorem work_aside {m : Nat} (hstack : s'.stack = s.stack)
    (hgrows : s.buffer.shouldClose = true → s'.buffer.shouldClose = true)
    (hqueued : s'.buffer.queued ≤ s.buffer.queued + m) : s'.work n ≤ s.work n + m := by
  have hle := StreamBuffer.work_of_grows (n := n) hgrows s.stack
  unfold work StreamBuffer.left
  rw [hstack]
  omega

/-- **Every transition is paid for**, by the frame that runs, or by what it shows. -/
theorem pays_step (hn : s.buffer.streamFilters.length ≤ n) (h : step env l s = some (s', o)) :
    s'.work n + (if l.ofLoop then 1 else 0) ≤ s.work n + weight (Obs.brings n) o := by
  cases (step_inv h).2 with
  | @handleEvents alive out hstack hidle hout =>
      obtain ⟨hbuffer, hobs, hthrew, hcases⟩ := StreamBuffer.handleEvents_cases hout
      rw [resume_of_threw_none hthrew, hobs]
      simp only [work, StreamBuffer.left, hstack, hbuffer, List.append_nil, weight_nil, weight_cons,
        Obs.brings, BufferLabel.ofLoop]
      rcases hcases with ⟨-, hframes⟩ | ⟨-, hclose, hframes⟩ | ⟨-, hclose, -, hframes⟩ |
        ⟨-, hclose, -, hframes⟩
      · rw [hframes]
        simp only [weight_cons, weight_nil, Frame.work, if_true]
        omega
      · rw [hframes, hclose]
        simp only [weight_cons, weight_nil, Frame.work, if_true]
        omega
      · rw [hframes, hclose]
        simp only [weight_cons, weight_nil, Frame.work, if_true, Bool.false_eq_true, if_false]
        omega
      · rw [hframes, hclose]
        simp only [weight_cons, weight_nil, Frame.work, if_true, Bool.false_eq_true, if_false]
        omega
  | @run fr rest out hstack hrun =>
      have hpays := StreamBuffer.runFrame_pays hn hrun
      exact work_resume hstack (StreamBuffer.runFrame_shouldClose hrun)
        (Nat.le_trans hpays (Nat.le_add_right _ _))
  | @answer fr rest r out k hstack hanswer =>
      exact work_resume (s := s) hstack (FlagsGrow.answerFrame hanswer).shouldClose
        (StreamBuffer.answerFrame_pays hanswer)
  | @ret c rest hstack hidle =>
      unfold work StreamBuffer.left
      dsimp only
      rw [hstack, weight_cons]
      show weight _ rest + s.buffer.queued + 1 ≤ 1 + weight _ rest + s.buffer.queued + 0
      omega
  | @write a d hmay =>
      unfold write
      split
      · exact work_aside rfl id (Nat.le_refl _)
      · split
        · exact work_aside rfl id (Nat.le_refl _)
        · split <;> exact work_aside rfl id (Nat.le_refl _)
  | @push a d saved hcall =>
      refine work_aside rfl id ?_
      simp only [push, StreamBuffer.queued, weight_cons, weight_nil, Obs.brings, setCall]
      simp
      omega
  | @notify a k hcall => exact work_aside rfl id (Nat.le_refl _)
  | @close a hmay => exact work_aside rfl (fun _ => rfl) (Nat.le_refl _)
  | @filterRefused addr e hmay hadd => exact work_aside rfl id (Nat.le_refl _)
  | @filterAdded addr b hmay hfresh hadd =>
      exact work_aside rfl (FlagsGrow.addStreamBufferFilter hadd).shouldClose
        (StreamBuffer.queued_addStreamBufferFilter hadd)
  | @tick r k htick => exact work_aside rfl id (Nat.le_refl _)

/-- No more than `n` filters are in the chain. -/
def chainUpTo (n : Nat) (_ : BufferLabel ρ) (s : BufferState κ) : Bool :=
  decide (s.buffer.streamFilters.length ≤ n)

theorem amortised (env : FilterEnv κ ρ) (n : Nat) :
    Amortised (bufferSystem env) (chainUpTo n) (fun _ => True)
      (fun l => if l.ofLoop then 1 else 0) (fun _ => 0) (Obs.brings n) (work n) where
  keeps _ _ _ := trivial
  pays _ hcheck hs := pays_step (of_decide_eq_true hcheck) hs

/-- **`HandleEvents` is bounded.** Between any two moments at which no call of `HandleEvents` is
under way, whatever the filters answer, and whatever other threads and the callbacks of the user
do, the thread of the loop takes at most `6 n + 13` transitions for each call in a chain of `n`
filters, one for each view that waited or was accepted, and two for each call of `HandleData`. -/
theorem handleEvents_bounded (env : FilterEnv κ ρ) (n : Nat) {ls : List (BufferLabel ρ)}
    {s s' : BufferState κ} {tr : List (Obs ρ)} (hidle : s.stack = [])
    (h : exec (bufferSystem env) (chainUpTo n) ls s = some (s', tr)) :
    ls.countP BufferLabel.ofLoop ≤ (6 * n + 13) * tr.countP Obs.isHandleEvents +
      (s.buffer.queued + tr.countP Obs.isAccepted) + 2 * tr.countP Obs.isHandleData := by
  have hle := (amortised env n).cost_le trivial h
  have hwork : s.work n = s.buffer.queued := by
    unfold work StreamBuffer.left
    rw [hidle, weight_nil, Nat.zero_add]
  rw [weight_eq_countP, weight_const, weight_brings, hwork] at hle
  omega

/-- A connection is accepted, the user writes, and a second call reads and writes. -/
def readsAndWrites : List (BufferLabel SysRet) :=
  [.handleEvents true, .answer .none, .ret, .run, .run, .run, .run,
    .write (.user 0) (.ofString [104, 105]), .push (.user 0), .notify (.user 0),
    .handleEvents true, .run, .answer (.recv (.ok [111, 107])), .ret,
    .answer (.recv (.error .EAGAIN)), .run, .answer (.send (.ok 2)), .run, .run, .run]

/-- A call that reads and writes: 17 steps, and the bound that covers them. -/
theorem handleEvents_bounded_readsAndWrites : ∃ s tr,
    exec (bufferSystem (tcpEnv true)) (chainUpTo 1) readsAndWrites
        (init .server 0 ⟨false, true, none⟩) = some (s, tr) ∧ s.stack = [] ∧
      17 ≤ (6 * 1 + 13) * tr.countP Obs.isHandleEvents + (0 + tr.countP Obs.isAccepted) +
        2 * tr.countP Obs.isHandleData := by
  have hruns : (exec (bufferSystem (tcpEnv true)) (chainUpTo 1) readsAndWrites
      (init .server 0 ⟨false, true, none⟩)).any (fun r => r.1.stack.isEmpty) = true := by
    decide +kernel
  obtain ⟨r, hexec, hstack⟩ := (Option.any_eq_true _ _).mp hruns
  exact ⟨r.1, r.2, hexec, List.isEmpty_iff.mp hstack,
    handleEvents_bounded (tcpEnv true) 1 rfl hexec⟩

/-! ### It is never stuck -/

/-- The filters answer whatever they are asked. -/
structure Answers (env : FilterEnv κ ρ) : Prop where
  «in» : ∀ i k, ∃ r x, env.in i r k = some x
  out : ∀ i k d, ∃ r x, env.out i r k d = some x
  connect : ∀ i k, ∃ r x, env.connect i r k = some x
  accept : ∀ i k, ∃ r x, env.accept i r k = some x
  shutdown : ∀ i k, ∃ r x, env.shutdown i r k = some x

/-- A frame that does not run asks a filter, and the filter answers. -/
theorem Answers.answerFrame (henv : Answers env) {b : StreamBuffer} {fr : Frame}
    (hrun : b.runFrame (ρ := ρ) fr = none) (hcallback : ∀ c, fr ≠ .callback c) (k : κ) :
    ∃ r x, b.answerFrame env r k fr = some x := by
  have hout : ∀ i again after, (b.filter i).pendingOut.isEmpty = false →
      ∃ r x, b.callOut env i r k again after = some x := by
    intro i again after hpending
    cases hqueue : (b.filter i).pendingOut with
    | nil => exact absurd hpending (by simp [hqueue])
    | cons d rest =>
        obtain ⟨r, x, hx⟩ := henv.out i k d
        exact ⟨r, by simp [StreamBuffer.callOut, hqueue, hx]⟩
  cases fr with
  | read i =>
      obtain ⟨r, x, hx⟩ := henv.in i k
      exact ⟨r, by simp [StreamBuffer.answerFrame, hx]⟩
  | shutdown i =>
      obtain ⟨r, x, hx⟩ := henv.shutdown i k
      exact ⟨r, by simp [StreamBuffer.answerFrame, hx]⟩
  | doConnect =>
      cases hmode : b.mode with
      | client =>
          obtain ⟨r, x, hx⟩ := henv.connect b.backIndex k
          exact ⟨r, by simp [StreamBuffer.answerFrame, hmode, hx]⟩
      | server =>
          obtain ⟨r, x, hx⟩ := henv.accept b.backIndex k
          exact ⟨r, by simp [StreamBuffer.answerFrame, hmode, hx]⟩
  | write i => exact hout i _ _ (by simpa [StreamBuffer.runFrame] using hrun)
  | flush i => exact hout i _ _ (by simpa [StreamBuffer.runFrame] using hrun)
  | callback c => exact absurd rfl (hcallback c)
  | closeFrom k =>
      cases k with
      | zero => exact absurd hrun (by simp [StreamBuffer.runFrame])
      | succ k =>
          simp only [StreamBuffer.runFrame] at hrun
          split at hrun <;> exact absurd hrun (by simp)
  | closeCheck k =>
      simp only [StreamBuffer.runFrame] at hrun
      split at hrun <;> exact absurd hrun (by simp)
  | flushed i =>
      simp only [StreamBuffer.runFrame] at hrun
      split at hrun <;> exact absurd hrun (by simp)
  | _ => exact absurd hrun (by simp [StreamBuffer.runFrame])

/-- The thread of the loop goes on: inside `HandleEvents`, or in a call that the user makes
from a callback. -/
def inside (l : BufferLabel ρ) : Bool :=
  match l with
  | .run | .answer _ | .ret | .push .loop | .notify .loop => true
  | _ => false

end BufferState

end Libael
