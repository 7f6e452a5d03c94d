import Mathlib.Logic.Function.Basic
import Libael.Lts.Run
import Libael.StreamBuffer.Buffer

/-!
# Libael.StreamBuffer.Machine

The stream buffer as a transition system. The loop thread runs `HandleEvents` as
a stack of frames, one frame a step; between any two steps the other threads may
run pieces of `Write` and `Close`, and the surroundings of the filters may move.
`Write` is cut where it takes `pending_writes_lock_`, so that the order of the
accepted views is the order in which the lock was taken.

An exception that leaves a filter leaves `HandleEvents` and with it the thread of
the event loop, which ends the process: a crashed state has no successor.
-/

namespace Libael

open Lts

/-- A call of the public interface in progress on some thread. -/
inductive ApiCall
  | idle
  /-- `Write`, between the test of `should_close_` and taking the lock -/
  | writing (d saved : DataView)
  /-- `Write` or `Close`, about to call `ReadyEvent` -/
  | notifying (k : ReadyKind)
  deriving DecidableEq

/-- A stream buffer with everything that is going on in it. -/
structure BufferState (κ : Type) where
  buffer : StreamBuffer
  env : κ
  calls : Agent → ApiCall
  stack : List Frame
  crashed : Option Exception

/-- The transitions of a stream buffer. -/
inductive BufferLabel (ρ : Type)
  /-- the event loop calls `HandleEvents` -/
  | handleEvents (alive : Bool)
  /-- the loop thread runs the innermost frame, which needs no answer -/
  | run
  /-- the virtual method the innermost frame has called answers -/
  | answer (r : ρ)
  /-- the callback in which the loop thread is returns -/
  | ret
  /-- `a` calls `Write(d)` -/
  | write (a : Agent) (d : DataView)
  /-- `a` pushes its saved view under `pending_writes_lock_` -/
  | push (a : Agent)
  /-- `a` calls `ReadyEvent` -/
  | notify (a : Agent)
  /-- `a` calls `Close()` -/
  | close (a : Agent)
  /-- a fresh filter object is handed to `AddStreamBufferFilter`. The method takes no lock, so
  the call is made in a callback, or while no `HandleEvents` runs; the thread does not matter -/
  | addFilter (addr : Nat)
  /-- the surroundings of the filters move -/
  | tick (r : ρ)

namespace BufferState

variable {κ ρ : Type}

/-- The state in which `Create` leaves the buffer. -/
def init (mode : StreamBufferMode) (addr : Nat) (env : κ) : BufferState κ :=
  { buffer := .create mode addr, env, calls := fun _ => .idle, stack := [], crashed := none }

/-- `a` is running code of the user and may call the buffer: any time for a thread
of the user, and for the loop thread outside `HandleEvents` or in a callback. -/
def mayCall (s : BufferState κ) (a : Agent) : Bool :=
  s.calls a == .idle &&
    match a, s.stack with
    | .loop, [] => true
    | .loop, .callback _ :: _ => true
    | .loop, _ => false
    | .user _, _ => true

/-- The call of `a` goes on with `c`. -/
def setCall (s : BufferState κ) (a : Agent) (c : ApiCall) : BufferState κ :=
  { s with calls := Function.update s.calls a c }

/-- Continue with the outcome of the innermost frame. -/
def resume (s : BufferState κ) (rest : List Frame) (n : Next ρ StreamBuffer) : BufferState κ :=
  match n.threw with
  | none => { s with buffer := n.buffer, stack := n.frames ++ rest }
  | some e => { s with buffer := n.buffer, stack := [], crashed := some e }

end BufferState

namespace StreamBuffer

variable {κ ρ : Type}

/-- Run a frame that asks no filter. `none` for a frame that does, and for a
callback. -/
def runFrame (b : StreamBuffer) : Frame → Option (Next ρ StreamBuffer)
  | .doRead => some b.doRead
  | .doWrite => some b.doWrite
  | .write i => if (b.filter i).pendingOut.isEmpty then some { buffer := b } else none
  | .doClose => some b.doClose
  | .closeFrom 0 => some { buffer := b }
  | .closeFrom (k + 1) =>
    if (b.filter k).closed then some { buffer := b, frames := [.closeFrom k] }
    else some { buffer := b, frames := [.close k, .closeCheck k] }
  | .closeCheck k =>
    if (b.filter k).closed then some { buffer := b, frames := [.closeFrom k] }
    else some { buffer := b }
  | .close i => some (b.close i)
  | .flush i =>
    if (b.filter i).pendingOut.isEmpty then some { buffer := b, frames := [.flushed i] } else none
  | .flushed i =>
    if flushDone (b.filter i) then some { buffer := b, frames := [.shutdown i] }
    else some { buffer := b }
  | .connected => some { buffer := { b with addFilterAllowed := false } }
  | .modifyEvent => some { buffer := b, obs := [.modifyEvent] }
  | .doFinalize => some b.doFinalize
  | .finalizeEOF => some b.finalizeEOF
  | .closeEvent => some { buffer := b, obs := [.closeEvent] }
  | .read _ | .shutdown _ | .doConnect | .callback _ => none

/-- `Out` of the `i`-th filter on the head of its `pending_out_`, and what the
surrounding loop does with the result: `again` if the head was consumed, `after`
if the loop is left. -/
def callOut (env : FilterEnv κ ρ) (b : StreamBuffer) (i : Nat) (r : ρ) (k : κ)
    (again after : List Frame) : Option (Next ρ StreamBuffer × κ) :=
  let f := b.filter i
  match f.pendingOut with
  | [] => none
  | d :: rest =>
    (env.out i r k d).map fun (res, k') =>
      match res with
      | .error e =>
        ({ buffer := b.setFilter i { f with pendingOut := rest }
           obs := [.out i d r res]
           threw := some e }, k')
      | .ok res' =>
        let (f', drain) := f.afterOut rest res'
        ({ buffer := b.setFilter i f'
           frames := if drain = .consumed then again else after
           obs := [.out i d r res] }, k')

/-- Give the innermost frame the answer of the filter it has called. -/
def answerFrame (env : FilterEnv κ ρ) (b : StreamBuffer) (r : ρ) (k : κ) :
    Frame → Option (Next ρ StreamBuffer × κ)
  | .read i =>
    (env.«in» i r k).map fun (res, k') =>
      match res with
      | .error e => ({ buffer := b, obs := [.in i r res], threw := some e }, k')
      | .ok res' => ((b.afterIn i res').after (.in i r res), k')
  | .write i => b.callOut env i r k [.write i] []
  | .flush i => b.callOut env i r k [.flush i] [.flushed i]
  | .shutdown i =>
    (env.shutdown i r k).map fun (res, k') =>
      match res with
      | .error e => ({ buffer := b, obs := [.shutdown i res], threw := some e }, k')
      | .ok res' => ((b.afterShutdown i res').after (.shutdown i res), k')
  | .doConnect =>
    let i := b.backIndex
    let asked := match b.mode with
      | .client => env.connect i r k
      | .server => env.accept i r k
    asked.map fun (res, k') =>
      match res with
      | .error e => ({ buffer := b, obs := [.connect i res], threw := some e }, k')
      | .ok res' => ((b.afterConnect i res').after (.connect i res), k')
  | _ => none

end StreamBuffer

namespace BufferState

variable {κ ρ : Type}

/-- `StreamBuffer::Write`, up to taking the lock. -/
def write (s : BufferState κ) (a : Agent) (d : DataView) : BufferState κ × List (Obs ρ) :=
  if d.dataLength = 0 then (s, [])
  else if s.buffer.shouldClose then (s, [])
  else
    match d.save with
    | .error e => (s, [.threw e])
    | .ok saved => (s.setCall a (.writing d saved), [])

/-- `StreamBuffer::Write`, inside the lock. -/
def push (s : BufferState κ) (a : Agent) (d saved : DataView) : BufferState κ × List (Obs ρ) :=
  let sendWriteReady := s.buffer.pendingWrites.isEmpty
  let s' :=
    { s with buffer := { s.buffer with pendingWrites := s.buffer.pendingWrites ++ [saved] } }
  (s'.setCall a (if sendWriteReady then .notifying .write else .idle), [.accepted d])

/-- `StreamBuffer::Close`, up to `ReadyEvent`. -/
def close (s : BufferState κ) (a : Agent) : BufferState κ × List (Obs ρ) :=
  let s' := { s with buffer := { s.buffer with shouldClose := true } }
  (s'.setCall a (.notifying .close), [.shouldClose])

/-- One transition of a stream buffer. -/
def step (env : FilterEnv κ ρ) (l : BufferLabel ρ) (s : BufferState κ) :
    Option (BufferState κ × List (Obs ρ)) :=
  if s.crashed.isSome then none
  else
    match l, s.stack with
    | .handleEvents alive, [] =>
      if s.calls .loop == .idle then
        let n : Next ρ StreamBuffer := s.buffer.handleEvents alive
        some (s.resume [] n, n.obs)
      else none
    | .run, f :: rest => (s.buffer.runFrame f).map fun n => (s.resume rest n, n.obs)
    | .answer r, f :: rest =>
      (s.buffer.answerFrame env r s.env f).map fun (n, k) =>
        ({ s.resume rest n with env := k }, n.obs)
    | .ret, .callback _ :: rest =>
      if s.calls .loop == .idle then some ({ s with stack := rest }, []) else none
    | .write a d, _ => if s.mayCall a then some (s.write a d) else none
    | .push a, _ =>
      match s.calls a with
      | .writing d saved => some (s.push a d saved)
      | _ => none
    | .notify a, _ =>
      match s.calls a with
      | .notifying k => some (s.setCall a .idle, [.readyEvent k])
      | _ => none
    | .close a, _ => if s.mayCall a then some (s.close a) else none
    | .addFilter addr, _ =>
      if s.mayCall .loop && s.buffer.streamFilters.all (·.addr != addr) then
        match s.buffer.addStreamBufferFilter (.new addr) with
        | .error e => some (s, [.threw e])
        | .ok b => some ({ s with buffer := b }, [.filterAdded addr])
      else none
    | .tick r, _ => (env.tick r s.env).map fun k => ({ s with env := k }, [])
    | _, _ => none

end BufferState

/-! ### Inversion -/

namespace BufferState

variable {κ ρ : Type}

@[simp] theorem resume_buffer (s : BufferState κ) (rest : List Frame) (n : Next ρ StreamBuffer) :
    (s.resume rest n).buffer = n.buffer := by unfold resume; split <;> rfl

@[simp] theorem resume_env (s : BufferState κ) (rest : List Frame) (n : Next ρ StreamBuffer) :
    (s.resume rest n).env = s.env := by unfold resume; split <;> rfl

@[simp] theorem resume_calls (s : BufferState κ) (rest : List Frame) (n : Next ρ StreamBuffer) :
    (s.resume rest n).calls = s.calls := by unfold resume; split <;> rfl

theorem resume_of_threw_none {s : BufferState κ} {rest : List Frame} {n : Next ρ StreamBuffer}
    (h : n.threw = none) :
    s.resume rest n = { s with buffer := n.buffer, stack := n.frames ++ rest } := by
  unfold resume
  rw [h]

theorem resume_of_threw {s : BufferState κ} {rest : List Frame} {n : Next ρ StreamBuffer}
    {e : Exception} (h : n.threw = some e) :
    s.resume rest n = { s with buffer := n.buffer, stack := [], crashed := some e } := by
  unfold resume
  rw [h]

theorem mem_resume {s : BufferState κ} {rest : List Frame} {n : Next ρ StreamBuffer} {f : Frame}
    (h : f ∈ (s.resume rest n).stack) : f ∈ n.frames ∨ f ∈ rest := by
  cases hthrew : n.threw with
  | some e => simp [resume_of_threw hthrew] at h
  | none =>
      rw [resume_of_threw_none hthrew] at h
      exact List.mem_append.mp h

/-- The loop thread calls the buffer outside `HandleEvents`, or in a callback. -/
theorem stack_of_mayCall {s : BufferState κ} (h : s.mayCall .loop = true) :
    s.stack = [] ∨ ∃ c rest, s.stack = .callback c :: rest := by
  unfold mayCall at h
  cases hstack : s.stack with
  | nil => exact .inl rfl
  | cons fr rest =>
      rw [hstack] at h
      cases fr with
      | callback c => exact .inr ⟨c, rest, rfl⟩
      | _ => simp at h

/-- Everything a step can do, guards included. -/
inductive Step (env : FilterEnv κ ρ) (s : BufferState κ) :
    BufferLabel ρ → BufferState κ → List (Obs ρ) → Prop
  /-- the loop calls `HandleEvents` -/
  | handleEvents {alive n} : s.stack = [] → s.calls .loop = .idle →
      n = s.buffer.handleEvents alive → Step env s (.handleEvents alive) (s.resume [] n) n.obs
  /-- a frame that asks no filter runs -/
  | run {f rest n} : s.stack = f :: rest → s.buffer.runFrame f = some n →
      Step env s .run (s.resume rest n) n.obs
  /-- the filter that was asked answers -/
  | answer {f rest r n k} : s.stack = f :: rest → s.buffer.answerFrame env r s.env f = some (n, k) →
      Step env s (.answer r) { s.resume rest n with env := k } n.obs
  /-- a callback returns -/
  | ret {c rest} : s.stack = .callback c :: rest → s.calls .loop = .idle →
      Step env s .ret { s with stack := rest } []
  /-- `Write` is called -/
  | write {a d} : s.mayCall a = true →
      Step env s (.write a d) (s.write (ρ := ρ) a d).1 (s.write a d).2
  /-- it takes `pending_writes_lock_` and queues its view -/
  | push {a d saved} : s.calls a = .writing d saved →
      Step env s (.push a) (s.push (ρ := ρ) a d saved).1 (s.push a d saved).2
  /-- it calls `ReadyEvent`, as `Close` does -/
  | notify {a k} : s.calls a = .notifying k →
      Step env s (.notify a) (s.setCall a .idle) [.readyEvent k]
  /-- `Close` is called -/
  | close {a} : s.mayCall a = true → Step env s (.close a) (s.close (ρ := ρ) a).1 (s.close a).2
  /-- `AddStreamBufferFilter` throws -/
  | filterRefused {addr e} : s.mayCall .loop = true →
      s.buffer.addStreamBufferFilter (.new addr) = .error e →
        Step env s (.addFilter addr) s [.threw e]
  /-- `AddStreamBufferFilter` stacks a filter -/
  | filterAdded {addr b} : s.mayCall .loop = true →
      s.buffer.streamFilters.all (·.addr != addr) = true →
      s.buffer.addStreamBufferFilter (.new addr) = .ok b →
      Step env s (.addFilter addr) { s with buffer := b } [.filterAdded addr]
  /-- the surroundings of the filters move -/
  | tick {r k} : env.tick r s.env = some k → Step env s (.tick r) { s with env := k } []

/-- Every step is one of `Step`, and is taken before a crash. -/
theorem step_inv {env : FilterEnv κ ρ} {l : BufferLabel ρ} {s s' : BufferState κ}
    {o : List (Obs ρ)} (h : step env l s = some (s', o)) :
    s.crashed = none ∧ Step env s l s' o := by
  unfold step at h
  split at h
  · exact absurd h (by simp)
  · rename_i hc
    refine ⟨by simpa using hc, ?_⟩
    split at h
    case _ alive hstack =>
        split at h
        · rename_i hidle
          obtain ⟨rfl, rfl⟩ := by simpa using h
          exact .handleEvents hstack (by simpa using hidle) rfl
        · exact absurd h (by simp)
    case _ f rest hstack =>
        obtain ⟨n, hn, heq⟩ := Option.map_eq_some_iff.mp h
        obtain ⟨rfl, rfl⟩ := Prod.mk.inj heq
        exact .run hstack hn
    case _ r f rest hstack =>
        obtain ⟨⟨n, k⟩, hn, heq⟩ := Option.map_eq_some_iff.mp h
        obtain ⟨rfl, rfl⟩ := Prod.mk.inj heq
        exact .answer hstack hn
    case _ c rest hstack =>
        split at h
        · rename_i hidle
          obtain ⟨rfl, rfl⟩ := by simpa using h
          exact .ret hstack (by simpa using hidle)
        · exact absurd h (by simp)
    case _ a d =>
        split at h
        · rename_i hmay
          obtain ⟨rfl, rfl⟩ := by simpa [Prod.ext_iff] using h
          exact .write hmay
        · exact absurd h (by simp)
    case _ a =>
        split at h
        · rename_i d saved hcall
          obtain ⟨rfl, rfl⟩ := by simpa [Prod.ext_iff] using h
          exact .push hcall
        · exact absurd h (by simp)
    case _ a =>
        split at h
        · rename_i k hcall
          obtain ⟨rfl, rfl⟩ := by simpa using h
          exact .notify hcall
        · exact absurd h (by simp)
    case _ a =>
        split at h
        · rename_i hmay
          obtain ⟨rfl, rfl⟩ := by simpa [Prod.ext_iff] using h
          exact .close hmay
        · exact absurd h (by simp)
    case _ addr =>
        split at h
        · rename_i hcond
          rw [Bool.and_eq_true] at hcond
          split at h
          · rename_i e hadd
            obtain ⟨rfl, rfl⟩ := by simpa using h
            exact .filterRefused hcond.1 hadd
          · rename_i b hadd
            obtain ⟨rfl, rfl⟩ := by simpa using h
            exact .filterAdded hcond.1 hcond.2 hadd
        · exact absurd h (by simp)
    case _ r =>
        obtain ⟨k, hk, heq⟩ := Option.map_eq_some_iff.mp h
        obtain ⟨rfl, rfl⟩ := Prod.mk.inj heq
        exact .tick hk
    · exact absurd h (by simp)

end BufferState

/-- The stream buffer over the filters answered by `env`. -/
def bufferSystem {κ ρ : Type} (env : FilterEnv κ ρ) :
    System (BufferState κ) (BufferLabel ρ) (Obs ρ) :=
  ⟨BufferState.step env⟩

end Libael
