import Libael.Tcp.Calls

/-!
# Libael.Tcp.Logging

The write path with its log lines. `LOG_LEVEL` evaluates its message **only if a sink is
installed and the level is enabled**, so what a message does happens in some configurations and
not in others. One message of `TCPStreamBufferFilter::Out` dereferences a pointer that is never
set, `suffix_data_view`; all the others are made of numbers, flags, names and ids.

* The model with log lines is the model without them in which a step may do something more: its
  runs are compared step by step with those under no configuration.
* A sink is taken to return from `Log`.
-/

namespace Libael

/-- `log::LogLevel` -/
inductive LogLevel
  | trace | debug | info | warn | error | critical | none
  deriving Repr, DecidableEq

/-- The numbers of the enumeration. -/
def LogLevel.value : LogLevel → Nat
  | .trace => 0
  | .debug => 1
  | .info => 2
  | .warn => 3
  | .error => 4
  | .critical => 5
  | .none => 6

/-- The logging configuration: whether `Sink::sink_` is set, and `Sink::log_level_`. -/
structure Sink where
  installed : Bool
  logLevel : LogLevel
  deriving Repr, DecidableEq

/-- How the write path ends where it does not return. -/
inductive Fault
  | threw (ex : Exception)
  /-- a null `shared_ptr` is dereferenced -/
  | nullDereference
  deriving Repr, DecidableEq

namespace Sink

/-- The configuration the library starts with: no sink. -/
def quiet : Sink := ⟨false, .none⟩

/-- The condition of `LOG_LEVEL`. -/
def logs (sink : Sink) (logLevel : LogLevel) : Bool :=
  sink.installed && decide (sink.logLevel.value ≤ logLevel.value)

/-- `LOG_LEVEL`: `msg` is the evaluation of the message. -/
def log (sink : Sink) (logLevel : LogLevel) (msg : Except Fault Unit) : Except Fault Unit :=
  if sink.logs logLevel then msg else .ok ()

/-- A message of numbers, flags, names and ids. -/
def plain : Except Fault Unit := .ok ()

@[simp] theorem log_plain (sink : Sink) (logLevel : LogLevel) :
    sink.log logLevel plain = .ok () := by
  unfold log plain
  split <;> rfl

end Sink

/-- `operator->` -/
def dereference : Option DataView → Except Fault DataView
  | some d => .ok d
  | none => .error .nullDereference

/-- What the source throws. -/
def throwing {α : Type} : Except Exception α → Except Fault α
  | .ok a => .ok a
  | .error ex => .error (.threw ex)

namespace TCPStreamBufferFilter

/-- `TCPStreamBufferFilter::Out` with its log lines. -/
def outLogged (sink : Sink) (writeRet : Except Errno Nat) (dataView : DataView) :
    Except Fault (OutResult × Option DataView) :=
  match writeRet with
  | .error e =>
    match e with
    | .EAGAIN => do
      sink.log .debug Sink.plain
      return (⟨false⟩, some dataView)
    | .EBADF | .EDESTADDRREQ | .EFAULT | .EINVAL | .EMSGSIZE | .ENOMEM | .ENOTCONN | .ENOTSOCK
    | .EOPNOTSUPP => .error (.threw (.systemError e "write failed"))
    | _ => do
      sink.log .debug Sink.plain
      return (⟨true⟩, some dataView)
  | .ok writeRet => do
    sink.log .debug Sink.plain
    if writeRet = 0 then .error (.threw (.text "write return 0 (kernel bug?)"))
    else
      let suffixDataView : Option DataView := none
      if (writeRet : Int) < dataView.dataLength then do
        let suffix ← throwing (dataView.slice writeRet)
        let saved ← throwing suffix.save
        sink.log .trace (do
          let _ ← dereference suffixDataView
          Sink.plain)
        return (⟨false⟩, some saved)
      else return (⟨false⟩, none)

/-- `send` accepts some of the bytes, and not all. -/
def acceptsLess : Except Errno Nat → DataView → Bool
  | .ok n, d => decide (0 < n ∧ (n : Int) < d.dataLength)
  | .error _, _ => false

/-- `send` accepts all the bytes. -/
def acceptsAll : Except Errno Nat → DataView → Bool
  | .ok n, d => decide (0 < n ∧ d.dataLength ≤ n)
  | .error _, _ => false

/-- The log lines change `Out` for one answer of `send` and one level. -/
theorem outLogged_eq (sink : Sink) (ret : Except Errno Nat) (d : DataView) :
    outLogged sink ret d =
      if sink.logs .trace && acceptsLess ret d then .error .nullDereference
      else throwing (out ret d) := by
  cases ret with
  | error e => cases e <;> simp [outLogged, acceptsLess, out, throwing]
  | ok n =>
      by_cases hzero : n = 0
      · simp [outLogged, acceptsLess, out, throwing, hzero, bind, Except.bind]
      by_cases hless : (n : Int) < d.dataLength
      · -- the slice and its copy are made before the message is evaluated
        obtain ⟨suffix, saved, hslice, hsave, -, -⟩ := DataView.slice_save hless
        have hout : out (.ok n) d = .ok (⟨false⟩, some saved) := by
          simp [out, hzero, hless, hslice, hsave, bind, Except.bind, pure, Except.pure]
        rw [hout]
        cases hlogs : sink.logs .trace <;>
          simp [outLogged, acceptsLess, throwing, Sink.log, hlogs, hzero, hless, hslice, hsave,
            Nat.pos_of_ne_zero hzero, dereference, Sink.plain, bind, Except.bind, pure, Except.pure]
      · simp [outLogged, acceptsLess, out, throwing, hzero, hless]

end TCPStreamBufferFilter

/-! ### The loops over `pending_out_` -/

/-- How `Write` or `Close` leaves the filter. -/
structure Written where
  filter : Filter
  /-- what `send` has been given, call by call -/
  handed : List DataView
  fault : Option Fault
  deriving DecidableEq

namespace Filter

open TCPStreamBufferFilter

/-- The loop of `Write` and of `Close` over `Out`, from its `i`-th turn on; `sends` are the
answers of `send`. -/
def outLoop (sink : Sink) (sends : Nat → Except Errno Nat) (f : Filter) :
    Nat → List DataView → Written
  | _, [] => ⟨{ f with pendingOut := [] }, [], none⟩
  | i, d :: rest =>
    match outLogged sink (sends i) d with
    | .error fault => ⟨{ f with pendingOut := rest }, [d], some fault⟩
    | .ok res =>
      match f.afterOut rest res with
      | (f', .consumed) =>
        let w := outLoop sink sends f' (i + 1) rest
        { w with handed := d :: w.handed }
      | (f', _) => ⟨f', [d], none⟩

/-- `Shutdown`, and what `Close` does with its result. -/
def shutdown (f : Filter) : Filter :=
  if TCPStreamBufferFilter.shutdown.complete then { f with writeClosed := true, readClosed := true }
  else f

/-- `StreamBufferFilter::Write` -/
def write (sink : Sink) (sends : Nat → Except Errno Nat) (f : Filter) (writeList : List DataView) :
    Written :=
  outLoop sink sends f 0 (f.pendingOut ++ writeList)

/-- `StreamBufferFilter::Close` -/
def close (sink : Sink) (sends : Nat → Except Errno Nat) (f : Filter) : Written :=
  if StreamBuffer.flushDone f then ⟨f.shutdown, [], none⟩
  else
    let w := outLoop sink sends f 0 f.pendingOut
    if w.fault.isNone && StreamBuffer.flushDone w.filter then { w with filter := w.filter.shutdown }
    else w

end Filter

/-- A call of the write path of a filter. -/
inductive WriteCall
  | write (writeList : List DataView)
  | close
  deriving DecidableEq

namespace WriteCall

/-- Run the call. -/
def run (sink : Sink) (sends : Nat → Except Errno Nat) (f : Filter) : WriteCall → Written
  | .write writeList => f.write sink sends writeList
  | .close => f.close sink sends

/-- The views that the call has to give to `send`. -/
def views (f : Filter) : WriteCall → List DataView
  | .write writeList => f.pendingOut ++ writeList
  | .close => if StreamBuffer.flushDone f then [] else f.pendingOut

end WriteCall

/-- The calls of `send` come to one that accepts some of the bytes of its view, and not all. -/
def partialReached (sends : Nat → Except Errno Nat) : Nat → List DataView → Bool
  | _, [] => false
  | i, d :: rest =>
    TCPStreamBufferFilter.acceptsLess (sends i) d ||
      TCPStreamBufferFilter.acceptsAll (sends i) d && partialReached sends (i + 1) rest

/-! ### Where the log lines show -/

section

open TCPStreamBufferFilter

variable {sink : Sink} {sends : Nat → Except Errno Nat}

/-- A view is used up by a `send` that accepts all of it, -/
theorem out_of_acceptsAll {ret : Except Errno Nat} {d : DataView} (h : acceptsAll ret d = true) :
    out ret d = .ok (⟨false⟩, none) ∧ acceptsLess ret d = false := by
  cases ret with
  | error e => exact absurd h (by simp [acceptsAll])
  | ok n =>
      obtain ⟨hpos, hle⟩ := of_decide_eq_true h
      refine ⟨by simp [out, Nat.ne_of_gt hpos, Int.not_lt.mpr hle], ?_⟩
      exact decide_eq_false fun hless => Int.not_lt.mpr hle hless.2

/-- and by no other. -/
theorem acceptsAll_of_out {ret : Except Errno Nat} {d : DataView}
    {res : OutResult × Option DataView} (h : out ret d = .ok res)
    (hopen : res.1.shouldClose = false)
    (hnone : res.2 = none) : acceptsAll ret d = true := by
  cases ret with
  | error e =>
      obtain ⟨⟨shouldClose⟩, view⟩ := res
      cases e <;> simp_all [out]
  | ok n =>
      unfold out at h
      dsimp only at h
      split at h
      · exact absurd h (by simp)
      · rename_i hzero
        split at h
        · rename_i hless
          obtain ⟨suffix, saved, hslice, hsave, -, -⟩ := DataView.slice_save hless
          rw [hslice] at h
          change (suffix.save.bind fun saved => .ok (⟨false⟩, some saved)) = .ok res at h
          rw [hsave] at h
          obtain rfl := Except.ok.inj h
          exact absurd hnone (by simp)
        · rename_i hless
          exact decide_eq_true ⟨Nat.pos_of_ne_zero hzero, Int.not_lt.mp hless⟩

/-- The loop is the one without a sink, if no message is evaluated that cannot be. -/
theorem Filter.outLoop_eq (f : Filter) (views : List DataView) (i : Nat)
    (h : sink.logs .trace = true → partialReached sends i views = false) :
    f.outLoop sink sends i views = f.outLoop Sink.quiet sends i views := by
  induction views generalizing f i with
  | nil => rfl
  | cons d rest ih =>
      have hless : (sink.logs .trace && acceptsLess (sends i) d) = false := by
        cases hlogs : sink.logs .trace with
        | false => rfl
        | true =>
            have hno := h hlogs
            rw [partialReached, Bool.or_eq_false_iff] at hno
            exact hno.1
      have hquiet : (Sink.quiet.logs .trace && acceptsLess (sends i) d) = false := rfl
      unfold outLoop
      rw [outLogged_eq, outLogged_eq, hless, hquiet]
      simp only [Bool.false_eq_true, if_false]
      cases hout : out (sends i) d with
      | error ex => rfl
      | ok res =>
          simp only [throwing]
          cases hafter : f.afterOut rest res with
          | mk f' drain =>
            cases drain with
            | closed | blocked => rfl
            | consumed =>
                have hrest : sink.logs .trace = true →
                    partialReached sends (i + 1) rest = false := by
                  intro hlogs
                  have hno := h hlogs
                  rw [partialReached, Bool.or_eq_false_iff, Bool.and_eq_false_iff] at hno
                  refine hno.2.resolve_left ?_
                  unfold afterOut at hafter
                  split at hafter
                  · exact absurd hafter (by simp)
                  · rename_i hopen
                    split at hafter
                    · exact absurd hafter (by simp)
                    · rename_i hnone
                      simp [acceptsAll_of_out hout (eq_false_of_ne_true hopen) hnone]
                simp only [ih f' (i + 1) hrest]

/-- A partial write with the message evaluated ends the process. -/
theorem Filter.outLoop_fault (f : Filter) (views : List DataView) (i : Nat)
    (hlogs : sink.logs .trace = true) (h : partialReached sends i views = true) :
    (f.outLoop sink sends i views).fault = some .nullDereference := by
  induction views generalizing f i with
  | nil => exact absurd h (by simp [partialReached])
  | cons d rest ih =>
      unfold outLoop
      rw [outLogged_eq, hlogs, Bool.true_and]
      cases hless : acceptsLess (sends i) d with
      | true => rfl
      | false =>
          rw [partialReached, hless, Bool.false_or, Bool.and_eq_true] at h
          simp only [Bool.false_eq_true, if_false, (out_of_acceptsAll h.1).1, throwing, afterOut]
          exact ih _ (i + 1) h.2

/-- Without a sink no message is evaluated. -/
theorem Filter.outLoop_quiet (f : Filter) (views : List DataView) (i : Nat) :
    (f.outLoop Sink.quiet sends i views).fault ≠ some .nullDereference := by
  induction views generalizing f i with
  | nil => simp [outLoop]
  | cons d rest ih =>
      have hquiet : (Sink.quiet.logs .trace && acceptsLess (sends i) d) = false := rfl
      unfold outLoop
      rw [outLogged_eq, hquiet]
      simp only [Bool.false_eq_true, if_false]
      cases hout : out (sends i) d with
      | error ex => simp [throwing]
      | ok res =>
          simp only [throwing]
          cases hafter : f.afterOut rest res with
          | mk f' drain =>
            cases drain with
            | closed | blocked => simp
            | consumed => exact ih f' (i + 1)

namespace WriteCall

/-- The call with the log lines is the one without, or ends the process. -/
theorem run_cases (sink : Sink) (sends : Nat → Except Errno Nat) (f : Filter) (call : WriteCall) :
    (((call.run sink sends f).fault = some .nullDereference) ↔
      sink.logs .trace = true ∧ partialReached sends 0 (call.views f) = true) ∧
    ((sink.logs .trace = true → partialReached sends 0 (call.views f) = false) →
      call.run sink sends f = call.run Sink.quiet sends f) := by
  have hloop (views : List DataView)
      (h : sink.logs .trace = true → partialReached sends 0 views = false) :
      (f.outLoop sink sends 0 views).fault ≠ some .nullDereference := by
    rw [Filter.outLoop_eq f views 0 h]
    exact Filter.outLoop_quiet f views 0
  have himp {views : List DataView} (hno : ¬(sink.logs .trace = true ∧
      partialReached sends 0 views = true)) (hlogs : sink.logs .trace = true) :
      partialReached sends 0 views = false :=
    eq_false_of_ne_true fun hpartial => hno ⟨hlogs, hpartial⟩
  cases call with
  | write writeList =>
      refine ⟨⟨fun hfault => ?_, fun h => Filter.outLoop_fault f _ 0 h.1 h.2⟩,
        fun h => Filter.outLoop_eq f _ 0 h⟩
      by_contra hno
      exact hloop _ (himp hno) hfault
  | close =>
      simp only [run, views, Filter.close]
      split
      · simp [partialReached]
      · refine ⟨⟨fun hfault => ?_, fun h => ?_⟩, fun h => by rw [Filter.outLoop_eq f _ 0 h]⟩
        · by_contra hno
          refine hloop _ (himp hno) ?_
          split at hfault <;> exact hfault
        · have hfault := Filter.outLoop_fault f f.pendingOut 0 h.1 h.2
          rw [if_neg (by simp [hfault])]
          exact hfault

end WriteCall

end

/-- **Logging does not interfere** with the write path exactly where no message of `Out` is
evaluated after a partial write. -/
theorem logging_transparent_iff (sends : Nat → Except Errno Nat) (f : Filter) (call : WriteCall)
    (sink₁ sink₂ : Sink) :
    (call.run sink₁ sends f = call.run sink₂ sends f ∧
      (call.run sink₁ sends f).fault ≠ some .nullDereference ∧
      (call.run sink₂ sends f).fault ≠ some .nullDereference) ↔
    (partialReached sends 0 (call.views f) = true →
      sink₁.logs .trace = false ∧ sink₂.logs .trace = false) := by
  obtain ⟨hnull₁, heq₁⟩ := call.run_cases sink₁ sends f
  obtain ⟨hnull₂, heq₂⟩ := call.run_cases sink₂ sends f
  refine ⟨fun ⟨_, hno₁, hno₂⟩ hpartial => ⟨?_, ?_⟩, fun h => ⟨?_, ?_, ?_⟩⟩
  · exact eq_false_of_ne_true fun hlogs => hno₁ (hnull₁.mpr ⟨hlogs, hpartial⟩)
  · exact eq_false_of_ne_true fun hlogs => hno₂ (hnull₂.mpr ⟨hlogs, hpartial⟩)
  · rw [heq₁ fun hlogs => eq_false_of_ne_true fun hpartial => by simp [h hpartial] at hlogs,
      heq₂ fun hlogs => eq_false_of_ne_true fun hpartial => by simp [h hpartial] at hlogs]
  · intro hnull
    obtain ⟨hlogs, hpartial⟩ := hnull₁.mp hnull
    exact absurd hlogs (by simp [h hpartial])
  · intro hnull
    obtain ⟨hlogs, hpartial⟩ := hnull₂.mp hnull
    exact absurd hlogs (by simp [h hpartial])

/-- A view of two bytes, of which `send` accepts one, with a sink at level `Trace`. -/
theorem trace_of_partialWrite :
    let f := { Filter.new 0 with pendingOut := [.ofString [1, 2]] }
    let sends : Nat → Except Errno Nat := fun _ => .ok 1
    ((WriteCall.write []).run ⟨true, .trace⟩ sends f).fault = some .nullDereference ∧
      (WriteCall.write []).run ⟨true, .trace⟩ sends f ≠
        (WriteCall.write []).run Sink.quiet sends f := by
  decide

/-! ### The loop of the machine -/

/-- What `send` has been given in a run. -/
def Obs.handed {ρ : Type} : Obs ρ → Option DataView
  | .out _ d _ _ => some d
  | _ => none

section

open TCPStreamBufferFilter BufferState Lts

variable {pendingConnect : Bool} {s : BufferState Socket} {fr : Frame} {rest : List Frame}

/-- One turn of the loop. -/
theorem callOut_send (pendingConnect : Bool) {d : DataView} {views : List DataView}
    {ret : Except Errno Nat}
    (hfr : fr = .write 0 ∨ fr = .flush 0) (hviews : (s.buffer.filter 0).pendingOut = d :: views)
    (hsend : SendContract d.dataLength ret) :
    s.buffer.answerFrame (tcpEnv pendingConnect) (.send ret) s.env fr =
      match out ret d with
      | .error ex => some
          ({ buffer := s.buffer.setFilter 0 { s.buffer.filter 0 with pendingOut := views }
             obs := [.out 0 d (.send ret) (out ret d)], threw := some ex }, s.env)
      | .ok res => some
          ({ buffer := s.buffer.setFilter 0 ((s.buffer.filter 0).afterOut views res).1
             frames := if ((s.buffer.filter 0).afterOut views res).2 = .consumed then [fr]
               else afterLoop fr
             obs := [.out 0 d (.send ret) (out ret d)] }, s.env) := by
  rcases hfr with rfl | rfl <;>
    · simp only [StreamBuffer.answerFrame, StreamBuffer.callOut, hviews, tcpEnv, hsend, if_true,
        Option.map_some, afterLoop]
      cases out ret d <;> rfl

/-- A stream buffer over TCP runs the loop without a sink, from any state with these views to
send. -/
theorem run_outLoop {sends : Nat → Except Errno Nat} (views : List DataView) (i : Nat)
    (hfr : fr = .write 0 ∨ fr = .flush 0) (hc : s.crashed = none) (hstack : s.stack = fr :: rest)
    (hlen : 0 < s.buffer.streamFilters.length) (hviews : (s.buffer.filter 0).pendingOut = views)
    (hsends : ∀ j d, views[j]? = some d → SendContract d.dataLength (sends (i + j))) :
    ∃ tr s', Run (bufferSystem (tcpEnv pendingConnect)) s tr s' ∧
      s'.buffer.filter 0 = ((s.buffer.filter 0).outLoop Sink.quiet sends i views).filter ∧
      tr.filterMap Obs.handed = ((s.buffer.filter 0).outLoop Sink.quiet sends i views).handed ∧
      match ((s.buffer.filter 0).outLoop Sink.quiet sends i views).fault with
      | none => s'.crashed = none ∧ s'.stack = afterLoop fr ++ rest
      | some (.threw ex) => s'.crashed = some ex
      | some .nullDereference => False := by
  induction views generalizing s i with
  | nil =>
      have hstep : (bufferSystem (tcpEnv pendingConnect)).step .run s =
          some ({ s with stack := afterLoop fr ++ rest }, []) := by
        show step (tcpEnv pendingConnect) .run s = _
        rcases hfr with rfl | rfl <;>
          simp [step, hc, hstack, StreamBuffer.runFrame, hviews, afterLoop, resume]
      refine ⟨_, _, .step .refl trivial hstep, ?_, rfl, hc, rfl⟩
      simp only [Filter.outLoop, ← hviews]
  | cons d views ih =>
      have hsend : SendContract d.dataLength (sends i) := by simpa using hsends 0 d rfl
      have hquiet : (Sink.quiet.logs .trace && acceptsLess (sends i) d) = false := rfl
      have hans := callOut_send pendingConnect hfr hviews hsend
      have hfilter (f : Filter) : (s.buffer.setFilter 0 f).filter 0 = f := by
        rw [StreamBuffer.filter_setFilter, if_pos ⟨rfl, hlen⟩]
      unfold Filter.outLoop
      rw [outLogged_eq, hquiet]
      simp only [Bool.false_eq_true, if_false]
      cases hout : out (sends i) d with
      | error ex =>
          rw [hout] at hans
          have hstep : (bufferSystem (tcpEnv pendingConnect)).step (.answer (.send (sends i))) s =
              some ({ s with
                buffer := s.buffer.setFilter 0 { s.buffer.filter 0 with pendingOut := views }
                stack := []
                crashed := some ex }, [.out 0 d (.send (sends i)) (.error ex)]) := by
            show step (tcpEnv pendingConnect) _ s = _
            simp [step, hc, hstack, hans, resume]
          exact ⟨_, _, .step .refl trivial hstep, hfilter _, rfl, rfl⟩
      | ok res =>
          rw [hout] at hans
          cases hafter : (s.buffer.filter 0).afterOut views res with
          | mk f' drain =>
            simp only [hafter] at hans
            have hstep : (bufferSystem (tcpEnv pendingConnect)).step (.answer (.send (sends i))) s =
                some ({ s with
                  buffer := s.buffer.setFilter 0 f'
                  stack := (if drain = .consumed then [fr] else afterLoop fr) ++ rest },
                  [.out 0 d (.send (sends i)) (.ok res)]) := by
              show step (tcpEnv pendingConnect) _ s = _
              simp [step, hc, hstack, hans, resume]
            simp only [throwing, hafter]
            cases drain with
            | closed | blocked => exact ⟨_, _, .step .refl trivial hstep, hfilter f', rfl, hc, rfl⟩
            | consumed =>
                have hpending : f'.pendingOut = views := by
                  unfold Filter.afterOut at hafter
                  split at hafter
                  · exact absurd hafter (by simp)
                  · split at hafter
                    · exact absurd hafter (by simp)
                    · rw [← (Prod.mk.inj hafter).1]
                have hrest := ih (i := i + 1) (s := { s with
                  buffer := s.buffer.setFilter 0 f', stack := fr :: rest }) hc rfl
                  (by simpa [StreamBuffer.setFilter] using hlen)
                    ((congrArg _ (hfilter f')).trans hpending)
                  fun j d' hd' => by
                    have hnext := hsends (j + 1) d' hd'
                    rwa [show i + (j + 1) = i + 1 + j by omega] at hnext
                obtain ⟨tr, s', hrun, hfilter', hhanded, hend⟩ := hrest
                simp only [hfilter f'] at hfilter' hhanded hend
                have hone : Run (bufferSystem (tcpEnv pendingConnect)) s _ _ :=
                  .step .refl trivial hstep
                refine ⟨_, s', hone.trans hrun, hfilter', ?_, hend⟩
                simp [Obs.handed, hhanded]

end

end Libael
