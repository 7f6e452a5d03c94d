import Mathlib.Data.List.Induction
import Libael.Handle
import Libael.Timer
import Libael.StreamListener.Backlog

/-!
# Libael.Descriptors

**Who closes a descriptor that a function has obtained.** The functions of `Handle` and the
listener ask the kernel for descriptors, and pass them on: in the `Handle` they return, or to
`HandleNewConnection`. Where they fail after that, a descriptor that is not closed is lost.

* Each function is modelled with the system calls it makes, whose outcomes are its input, and
  shows what it obtains, passes on and closes.
* `Careful` says of the input of a call that it takes none of the paths on which a descriptor is
  lost. There is a lemma for each function, which goes through its paths, and the account of one
  more call is its own (`accounted_concat`).
* The function of the listener is compared with the machine of `Libael.StreamListener`, whose
  runs it replays (`Replayed`).
-/

namespace Libael

open Lts

namespace Handle

/-! ### The functions -/

/-- What the system calls of `CreateStreamListenerHandle` return. -/
structure ListenCalls where
  inetPton : Domain → Bool
  socket : Except Errno Fd
  bind : Option Errno
  listen : Option Errno

/-- `Handle::CreateStreamListenerHandle` -/
def createStreamListenerHandle (calls : ListenCalls) : Except Exception Fd × List FdObs :=
  match getSockAddr calls.inetPton with
  | .error ex => (.error ex, [])
  | .ok _ =>
    match calls.socket with
    | .error e => (.error (.systemError e "socket failed"), [])
    | .ok fd =>
      match calls.bind with
      | some e => (.error (.systemError e "bind failed"), [.obtained fd])
      | none =>
        match calls.listen with
        | some e => (.error (.systemError e "listen failed"), [.obtained fd])
        | none => (.ok fd, [.obtained fd])

/-- `socket` is called, and succeeds. -/
def Calls.hasSocket (calls : Calls) : Bool :=
  (getSockAddr calls.inetPton).isOk && calls.socket.isOk

/-- `Handle::CreateStreamHandle`, with the descriptor: `fd` is what `socket` returns. -/
def createStreamHandleFd (calls : Calls) (fd : Fd) : Except Exception Fd × List FdObs :=
  ((createStreamHandle calls).map fun _ => fd, if calls.hasSocket then [.obtained fd] else [])

end Handle

/-- What a call of `StreamListener::HandleEvents` is answered, turn by turn of its loop. -/
structure AcceptCalls where
  /-- `listen_starvation_limit_` -/
  limit : Int
  accept4 : Nat → Except Errno Fd
  /-- `new_connection_handler_` can be locked -/
  handlerAlive : Nat → Bool

namespace StreamListener

/-- The loop of `HandleEvents` goes on after this answer. -/
def goesOn : Except Errno Fd → Bool
  | .ok _ => true
  | .error e => e != .EAGAIN && !acceptThrows e

/-- The loop of `HandleEvents`, from its `i`-th turn on and with so many of them left. -/
def acceptTurns (calls : AcceptCalls) : Nat → Nat → Except Exception Unit × List FdObs
  | 0, _ => (.ok (), [])
  | turns + 1, i =>
    match calls.accept4 i with
    | .ok newFd =>
      let (res, o) := acceptTurns calls turns (i + 1)
      (res, .obtained newFd :: if calls.handlerAlive i then .handedOver newFd :: o else o)
    | .error e =>
      if e = .EAGAIN then (.ok (), [])
      else if acceptThrows e then (.error (.systemError e "accept failed"), [])
      else acceptTurns calls turns (i + 1)

section

variable {calls : AcceptCalls} {turns i : Nat}

theorem acceptTurns_ok {newFd : Fd} (h : calls.accept4 i = .ok newFd) :
    (acceptTurns calls (turns + 1) i).2 = .obtained newFd ::
      if calls.handlerAlive i then .handedOver newFd :: (acceptTurns calls turns (i + 1)).2
      else (acceptTurns calls turns (i + 1)).2 := by
  rw [acceptTurns]
  simp only [h]

/-- A turn in which `accept4` fails: the end, an exception, or the next turn. -/
theorem acceptTurns_error {e : Errno} (h : calls.accept4 i = .error e) :
    (acceptTurns calls (turns + 1) i).2 =
      if e = .EAGAIN then []
      else if acceptThrows e then [] else (acceptTurns calls turns (i + 1)).2 := by
  rw [acceptTurns]
  simp only [h]
  split
  · rfl
  · split <;> rfl

end

/-- `StreamListener::HandleEvents` from its call to its return. -/
def handleEvents (calls : AcceptCalls) (events : Events) : Except Exception Unit × List FdObs :=
  if events.has Events.Read then acceptTurns calls calls.limit.toNat 0 else (.ok (), [])

/-! ### The calls of a listener in a run -/

/-- What an observation says about descriptors. -/
def fdObs : ListenerObs → List FdObs
  | .accept (.ok newFd) => [.obtained newFd]
  | .newConnection newFd => [.handedOver newFd]
  | _ => []

/-- What a turn of the loop that has gone on says about descriptors. -/
def turnObs : Except Errno Fd × Bool → List FdObs
  | (.ok newFd, alive) => .obtained newFd :: if alive then [.handedOver newFd] else []
  | (.error _, _) => []

/-- The answers of a call: those of the turns that have gone on, and the last one. -/
def answers (limit : Int) (past : List (Except Errno Fd × Bool)) (last : Except Errno Fd) :
    AcceptCalls :=
  { limit
    accept4 := fun i => (past.getD i (last, false)).1
    handlerAlive := fun i => (past.getD i (last, false)).2 }

/-- The turns that have gone on, and those after them. -/
theorem acceptTurns_past {calls : AcceptCalls} (past : List (Except Errno Fd × Bool))
    (turns i : Nat)
    (hgo : ∀ t ∈ past, goesOn t.1 = true)
    (hpast : ∀ m (h : m < past.length),
      calls.accept4 (i + m) = past[m].1 ∧ calls.handlerAlive (i + m) = past[m].2) :
    acceptTurns calls (past.length + turns) i =
      ((acceptTurns calls turns (i + past.length)).1,
        past.flatMap turnObs ++ (acceptTurns calls turns (i + past.length)).2) := by
  induction past generalizing i with
  | nil => rw [List.length_nil, Nat.zero_add, Nat.add_zero]; rfl
  | cons t past ih =>
      obtain ⟨hfirst, halive⟩ := hpast 0 (Nat.succ_pos _)
      have hrest := ih (i + 1) (fun t' ht' => hgo t' (List.mem_cons_of_mem _ ht')) fun m hm => by
        have hm' := hpast (m + 1) (Nat.succ_lt_succ hm)
        rw [show i + (m + 1) = i + 1 + m by omega] at hm'
        simpa using hm'
      have hfirstGo := hgo t List.mem_cons_self
      obtain ⟨ret, alive⟩ := t
      simp only [List.getElem_cons_zero, Nat.add_zero] at hfirst halive
      rw [List.length_cons, show past.length + 1 + turns = past.length + turns + 1 by omega,
        show i + (past.length + 1) = i + 1 + past.length by omega, acceptTurns, hfirst, halive]
      cases ret with
      | ok newFd =>
          rw [hrest]
          cases alive <;> rfl
      | error e =>
          simp only [goesOn, Bool.and_eq_true, bne_iff_ne, ne_eq, Bool.not_eq_true'] at hfirstGo
          dsimp only
          rw [if_neg hfirstGo.1, if_neg (by simp [hfirstGo.2]), hrest]
          rfl

/-- Where a call of `HandleEvents` with `Read` is, and what it has been answered. -/
def Replayed (limit : Int) (o : List ListenerObs) (s : StreamListener) : Prop :=
  match s.call with
  | .idle => ∃ calls : AcceptCalls, calls.limit = limit ∧
      acceptTurns calls limit.toNat 0 =
        (match s.crashed with | none => .ok () | some ex => .error ex, o.flatMap fdObs)
  | .accepting i => i ≤ limit.toNat ∧ ∃ past : List (Except Errno Fd × Bool), past.length = i ∧
      (∀ t ∈ past, goesOn t.1 = true) ∧ o.flatMap fdObs = past.flatMap turnObs
  | .accepted i newFd => i < limit ∧ ∃ past : List (Except Errno Fd × Bool), past.length = i ∧
      (∀ t ∈ past, goesOn t.1 = true) ∧
      o.flatMap fdObs = past.flatMap turnObs ++ [.obtained newFd]
  | .newConnection i => i < limit ∧ ∃ (past : List (Except Errno Fd × Bool)) (newFd : Fd),
      past.length = i ∧ (∀ t ∈ past, goesOn t.1 = true) ∧
      o.flatMap fdObs = past.flatMap turnObs ++ [.obtained newFd, .handedOver newFd]

/-- The last turn of a call, or that there is none. -/
theorem acceptTurns_answers {limit : Int} {past : List (Except Errno Fd × Bool)}
    (last : Except Errno Fd) (hgo : ∀ t ∈ past, goesOn t.1 = true) {turns : Nat}
    (hlimit : limit.toNat = past.length + turns) :
    acceptTurns (answers limit past last) limit.toNat 0 =
      ((acceptTurns (answers limit past last) turns past.length).1,
        past.flatMap turnObs ++ (acceptTurns (answers limit past last) turns past.length).2) := by
  rw [hlimit, acceptTurns_past past turns 0 hgo, Nat.zero_add]
  intro m hm
  simp only [answers, Nat.zero_add, List.getD_eq_getElem?_getD, List.getElem?_eq_getElem hm,
    Option.getD_some, and_self]

/-- **One step of the machine goes on with the replay.** A turn of `accept4` in the one is a turn
in the other; the machine stops where the function returns or throws. -/
theorem replayed_step {limit : Int} {s s' : StreamListener} {l : ListenerLabel}
    {tr o : List ListenerObs} (h : Replayed limit tr s) (hbusy : s.call ≠ .idle)
    (hs : step limit l s = some (s', o)) : Replayed limit (tr ++ o) s' := by
  obtain ⟨hc, hstep⟩ := step_inv hs
  unfold Replayed at *
  rw [List.flatMap_append]
  -- the answer to the turn after those that have gone on
  have hlast : ∀ past last, (answers limit past last).accept4 past.length = last := by
    intro past last
    simp [answers]
  cases hstep with
  | called hidle _ | ignored hidle _ => exact absurd hidle hbusy
  | @accepted i newFd hcall hlt _ =>
      simp only [hcall] at h
      obtain ⟨-, past, hlength, hgo, hobs⟩ := h
      exact ⟨hlt, past, hlength, hgo, by rw [hobs]; rfl⟩
  | @drained i hcall hlt _ =>
      simp only [hcall] at h
      obtain ⟨-, past, rfl, hgo, hobs⟩ := h
      obtain ⟨turns, hturns⟩ : ∃ turns, limit.toNat = past.length + (turns + 1) :=
        ⟨limit.toNat - past.length - 1, by omega⟩
      refine ⟨answers limit past (.error .EAGAIN), rfl, ?_⟩
      rw [acceptTurns_answers _ hgo hturns, acceptTurns, hlast, hobs, hc]
      rfl
  | @threw i e hcall hlt hthrows =>
      simp only [hcall] at h
      obtain ⟨-, past, rfl, hgo, hobs⟩ := h
      obtain ⟨turns, hturns⟩ : ∃ turns, limit.toNat = past.length + (turns + 1) :=
        ⟨limit.toNat - past.length - 1, by omega⟩
      have hne : e ≠ .EAGAIN := by
        rintro rfl
        exact absurd hthrows (by decide)
      refine ⟨answers limit past (.error e), rfl, ?_⟩
      rw [acceptTurns_answers _ hgo hturns, acceptTurns, hlast, hobs]
      dsimp only
      rw [if_neg hne, if_pos hthrows]
      rfl
  | @transient i e hcall hlt hne hno =>
      simp only [hcall] at h
      obtain ⟨-, past, hlength, hgo, hobs⟩ := h
      refine ⟨turn_le hlt, past ++ [(.error e, false)], by simp [hlength], ?_, ?_⟩
      · intro t ht
        rcases List.mem_append.mp ht with ht | ht
        · exact hgo t ht
        · rw [List.mem_singleton.mp ht]
          simp [goesOn, hne, hno]
      · rw [hobs, List.flatMap_append]
        rfl
  | @handed i newFd hcall _ =>
      simp only [hcall] at h
      obtain ⟨hlt, past, hlength, hgo, hobs⟩ := h
      refine ⟨hlt, past, newFd, hlength, hgo, ?_⟩
      rw [hobs, List.append_assoc]
      rfl
  | @dropped i newFd hcall _ =>
      simp only [hcall] at h
      obtain ⟨hlt, past, hlength, hgo, hobs⟩ := h
      refine ⟨turn_le hlt, past ++ [(.ok newFd, false)], by simp [hlength], ?_, ?_⟩
      · intro t ht
        rcases List.mem_append.mp ht with ht | ht
        · exact hgo t ht
        · rw [List.mem_singleton.mp ht]
          rfl
      · rw [hobs, List.flatMap_append]
        simp [turnObs]
  | @handled i hcall =>
      simp only [hcall] at h
      obtain ⟨hlt, past, newFd, hlength, hgo, hobs⟩ := h
      refine ⟨turn_le hlt, past ++ [(.ok newFd, true)], by simp [hlength], ?_, ?_⟩
      · intro t ht
        rcases List.mem_append.mp ht with ht | ht
        · exact hgo t ht
        · rw [List.mem_singleton.mp ht]
          rfl
      · rw [hobs, List.flatMap_append]
        simp [turnObs]
  | @limitReached i hcall hle =>
      simp only [hcall] at h
      obtain ⟨hturn, past, rfl, hgo, hobs⟩ := h
      refine ⟨answers limit past (.error .EAGAIN), rfl, ?_⟩
      have hlimit : limit.toNat = past.length + 0 := by omega
      rw [acceptTurns_answers _ hgo hlimit, acceptTurns, hobs, hc]
      rfl
  | handlerDestroyed _ | arrives | aborted _ => simpa using h

/-- **`HandleEvents` in a run is the function.** What a call of the listener says about
descriptors, whatever happens around it, is what `handleEvents` says for the answers the call
has been given. -/
theorem handleEvents_of_call {limit : Int} {ok : ListenerLabel → StreamListener → Prop}
    {events : Events} {s₁ s : StreamListener} {o : List ListenerObs}
    (h : Segment ⟨step limit⟩ ok (fun s => s.call ≠ .idle) (.handleEvents events) s₁ o s)
    (hreturned : s.call = .idle) : ∃ calls : AcceptCalls, calls.limit = limit ∧
      handleEvents calls events =
        (match s.crashed with | none => .ok () | some ex => .error ex, o.flatMap fdObs) := by
  cases hread : events.has Events.Read with
  | true =>
      have hreplayed : Replayed limit o s := by
        refine h.invariant (I := fun o s => Replayed limit o s) ?_ ?_
        · intro s o _ hs
          obtain ⟨-, hstep⟩ := step_inv hs
          cases hstep with
          | called _ _ => exact ⟨Nat.zero_le _, [], rfl, by simp, rfl⟩
          | ignored _ hno => exact absurd (hread.symm.trans hno) (by simp)
        · intro tr s l s' o _ ih hbusy _ hs
          exact replayed_step ih hbusy hs
      unfold Replayed at hreplayed
      rw [hreturned] at hreplayed
      obtain ⟨calls, hlimit, hturns⟩ := hreplayed
      refine ⟨calls, hlimit, ?_⟩
      unfold handleEvents
      rw [hread, if_pos rfl, hlimit, hturns]
  | false =>
      refine ⟨answers limit [] (.error .EAGAIN), rfl, ?_⟩
      have hone : s.crashed = none ∧ s.call = .idle ∧ o.flatMap fdObs = [] := by
        refine h.invariant (I := fun o s => s.crashed = none ∧ s.call = .idle ∧
          o.flatMap fdObs = [])
          ?_ ?_
        · intro s o _ hs
          obtain ⟨hc, hstep⟩ := step_inv hs
          cases hstep with
          | called _ hyes => exact absurd (hread.symm.trans hyes) (by simp)
          | ignored hidle _ => exact ⟨hc, hidle, rfl⟩
        · intro tr s l s' o _ ih hbusy _ _
          exact absurd ih.2.1 hbusy
      unfold handleEvents
      rw [hread, if_neg (by simp), hone.1, hone.2.2]

end StreamListener

/-! ### The account -/

/-- A call of one of the functions, with what it is answered. -/
inductive DescriptorCall
  | createTimerHandle (calls : TimerCalls) (interval value : Int)
  | createStreamListenerHandle (calls : Handle.ListenCalls)
  | createStreamHandle (calls : Handle.Calls) (fd : Fd)
  | handleEvents (calls : AcceptCalls) (events : Events)

namespace DescriptorCall

/-- What a call shows. -/
def run : DescriptorCall → List FdObs
  | .createTimerHandle calls interval value => (Handle.createTimerHandle calls interval value).2
  | .createStreamListenerHandle calls => (Handle.createStreamListenerHandle calls).2
  | .createStreamHandle calls fd => (Handle.createStreamHandleFd calls fd).2
  | .handleEvents calls events => (StreamListener.handleEvents calls events).2

/-- The descriptor in the `Handle` that is returned. -/
def returned : DescriptorCall → List Fd
  | .createTimerHandle calls interval value =>
    (Handle.createTimerHandle calls interval value).1.toOption.toList
  | .createStreamListenerHandle calls => (Handle.createStreamListenerHandle calls).1.toOption.toList
  | .createStreamHandle calls fd => (Handle.createStreamHandleFd calls fd).1.toOption.toList
  | .handleEvents _ _ => []

end DescriptorCall

/-- The descriptors that were obtained, in order. -/
def obtainedFds (o : List FdObs) : List Fd :=
  o.filterMap fun
    | .obtained fd => some fd
    | _ => none

/-- What is closed, and what is passed on to `HandleNewConnection`. -/
def disposedFds (o : List FdObs) : List Fd :=
  o.filterMap fun
    | .closed fd | .handedOver fd => some fd
    | _ => none

/-- Every descriptor obtained is closed, handed over or returned, and no other. -/
def Accounted (calls : List DescriptorCall) : Prop :=
  (obtainedFds (calls.flatMap (·.run))).Perm
    (disposedFds (calls.flatMap (·.run)) ++ calls.flatMap (·.returned))

namespace DescriptorCall

/-- No failure comes between a descriptor and its owner. -/
def Careful : DescriptorCall → Prop
  | .createTimerHandle calls interval value =>
    calls.timerfdCreate.isOk = true → ¬(interval = 0 ∧ value = 0)
  | .createStreamListenerHandle calls =>
    (Handle.getSockAddr calls.inetPton).isOk = true → calls.socket.isOk = true →
      calls.bind = none ∧ calls.listen = none
  | .createStreamHandle calls _ => calls.hasSocket = true →
    ∀ e ∈ [Errno.EAFNOSUPPORT, .EALREADY, .EBADF, .EFAULT, .EISCONN, .ENOTSOCK],
      calls.connect ≠ .error e
  | .handleEvents calls events => events.has Events.Read = true → ∀ i : Nat, i < calls.limit →
    (∀ j < i, StreamListener.goesOn (calls.accept4 j) = true) → (calls.accept4 i).isOk = true →
      calls.handlerAlive i = true

end DescriptorCall

section

variable {o o' : List FdObs} {before : List DescriptorCall} {c : DescriptorCall}

@[simp] theorem obtainedFds_append : obtainedFds (o ++ o') = obtainedFds o ++ obtainedFds o' :=
  List.filterMap_append

@[simp] theorem disposedFds_append : disposedFds (o ++ o') = disposedFds o ++ disposedFds o' :=
  List.filterMap_append

theorem accounted_nil : Accounted [] := List.Perm.refl _

theorem accounted_singleton :
    Accounted [c] ↔ (obtainedFds c.run).Perm (disposedFds c.run ++ c.returned) := by
  simp [Accounted]

/-- The account of one more call is its own. -/
theorem accounted_concat (h : Accounted before) : Accounted (before ++ [c]) ↔ Accounted [c] := by
  unfold Accounted at *
  simp only [List.flatMap_append, List.flatMap_cons, List.flatMap_nil, List.append_nil,
    obtainedFds_append, disposedFds_append]
  rw [List.perm_iff_count] at *
  simp only [List.perm_iff_count, List.count_append] at *
  exact forall_congr' fun fd => by
    have hbefore := h fd
    omega

/-! ### One call -/

open StreamListener in
/-- The loop hands over no more than it accepts. -/
theorem handedOver_le (calls : AcceptCalls) (turns i : Nat) :
    (disposedFds (acceptTurns calls turns i).2).length ≤
      (obtainedFds (acceptTurns calls turns i).2).length := by
  induction turns generalizing i with
  | zero => exact Nat.le_refl _
  | succ turns ih =>
      have hrest := ih (i + 1)
      cases haccept : calls.accept4 i with
      | ok newFd =>
          rw [acceptTurns_ok haccept]
          simp only [disposedFds, obtainedFds] at hrest
          split <;> simp only [disposedFds, obtainedFds, List.filterMap_cons, List.length_cons] <;>
            omega
      | error e =>
          rw [acceptTurns_error haccept]
          split
          · exact Nat.le_refl _
          · split
            · exact Nat.le_refl _
            · exact hrest

/-- The first turn of a loop, and the others if it goes on. -/
theorem turns_succ_iff (goesOn fine : Nat → Prop) (turns i : Nat) :
    (∀ n < turns + 1, (∀ m < n, goesOn (i + m)) → fine (i + n)) ↔
      fine i ∧ (goesOn i → ∀ n < turns, (∀ m < n, goesOn (i + 1 + m)) → fine (i + 1 + n)) := by
  constructor
  · intro h
    refine ⟨h 0 (Nat.succ_pos _) (by simp), fun hfirst n hn hgo => ?_⟩
    have hn' := h (n + 1) (by omega) ?_
    · rwa [show i + (n + 1) = i + 1 + n by omega] at hn'
    · intro m hm
      cases m with
      | zero => exact hfirst
      | succ m =>
          rw [show i + (m + 1) = i + 1 + m by omega]
          exact hgo m (by omega)
  · rintro ⟨hfirst, hrest⟩ n hn hgo
    cases n with
    | zero => exact hfirst
    | succ n =>
        rw [show i + (n + 1) = i + 1 + n by omega]
        refine hrest (hgo 0 (Nat.succ_pos _)) n (by omega) fun m hm => ?_
        have hm' := hgo (m + 1) (by omega)
        rwa [show i + (m + 1) = i + 1 + m by omega] at hm'

open StreamListener in
/-- The loop hands over all it accepts, if there is somebody to take it at each of its turns. -/
theorem handedOver_iff (calls : AcceptCalls) (turns i : Nat) :
    (obtainedFds (acceptTurns calls turns i).2).Perm (disposedFds (acceptTurns calls turns i).2) ↔
      ∀ n < turns, (∀ m < n, goesOn (calls.accept4 (i + m)) = true) →
        (calls.accept4 (i + n)).isOk = true → calls.handlerAlive (i + n) = true := by
  induction turns generalizing i with
  | zero =>
      refine iff_of_true (List.Perm.refl _) ?_
      intro n hn
      exact absurd hn (Nat.not_lt_zero n)
  | succ turns ih =>
      rw [turns_succ_iff (fun i => goesOn (calls.accept4 i) = true)
        (fun i => (calls.accept4 i).isOk = true → calls.handlerAlive i = true), ← ih]
      cases haccept : calls.accept4 i with
      | ok newFd =>
          have hle := handedOver_le calls turns (i + 1)
          rw [acceptTurns_ok haccept]
          cases halive : calls.handlerAlive i with
          | true =>
              simp only [obtainedFds, disposedFds, List.filterMap_cons, List.perm_cons, if_true]
              exact ⟨fun h => ⟨fun _ => trivial, fun _ => h⟩, fun h => h.2 rfl⟩
          | false =>
              -- the descriptor is in nobody's hands
              refine iff_of_false (fun h => ?_) (fun h => absurd (h.1 rfl) (by simp))
              have hlength := h.length_eq
              simp only [obtainedFds, disposedFds, List.filterMap_cons, List.length_cons,
                Bool.false_eq_true, if_false] at hlength hle
              omega
      | error e =>
          have hfine : (Except.error e : Except Errno Fd).isOk = true →
              calls.handlerAlive i = true :=
            fun h => absurd h (by simp [Except.isOk, Except.toBool])
          rw [acceptTurns_error haccept]
          split
          · rename_i hagain
            exact iff_of_true (List.Perm.refl _) ⟨hfine, by simp [goesOn, hagain]⟩
          · rename_i hagain
            split
            · rename_i hthrows
              exact iff_of_true (List.Perm.refl _)
                ⟨hfine, by simp [goesOn, hthrows]⟩
            · rename_i hthrows
              exact ⟨fun h => ⟨hfine, fun _ => h⟩,
                fun h => h.2 (by simp [goesOn, hagain, hthrows])⟩

section

open DescriptorCall

/-- `CreateTimerHandle` loses its timerfd where both durations are 0. -/
theorem createTimerHandle_accounted_iff (calls : TimerCalls) (interval value : Int) :
    Accounted [.createTimerHandle calls interval value] ↔
      Careful (.createTimerHandle calls interval value) := by
  rw [accounted_singleton]
  obtain ⟨timerfdCreate, timerfdSettime⟩ := calls
  simp only [run, returned, Careful, Handle.createTimerHandle]
  cases timerfdCreate with
  | error e => simp [obtainedFds, disposedFds, Except.toOption, Except.isOk, Except.toBool]
  | ok fd =>
      by_cases hzero : interval = 0 ∧ value = 0
      · simp [hzero, obtainedFds, disposedFds, Except.toOption, Except.isOk, Except.toBool]
      · cases timerfdSettime <;>
          simp [hzero, obtainedFds, disposedFds, Except.toOption]

/-- `CreateStreamListenerHandle` loses its socket where `bind` or `listen` fails. -/
theorem createStreamListenerHandle_accounted_iff (calls : Handle.ListenCalls) :
    Accounted [.createStreamListenerHandle calls] ↔
      Careful (.createStreamListenerHandle calls) := by
  rw [accounted_singleton]
  obtain ⟨inetPton, socket, bind, listen⟩ := calls
  simp only [run, returned, Careful, Handle.createStreamListenerHandle]
  cases Handle.getSockAddr inetPton with
  | error ex => simp [obtainedFds, disposedFds, Except.toOption, Except.isOk, Except.toBool]
  | ok domain =>
      cases socket with
      | error e => simp [obtainedFds, disposedFds, Except.toOption, Except.isOk, Except.toBool]
      | ok fd =>
          cases bind with
          | some e => simp [obtainedFds, disposedFds, Except.toOption, Except.isOk, Except.toBool]
          | none =>
              cases listen <;>
                simp [obtainedFds, disposedFds, Except.toOption, Except.isOk, Except.toBool]

/-- `CreateStreamHandle` throws without a socket, and on the errors of `connect` it does not
take for a connection that fails later. -/
theorem createStreamHandle_isOk (calls : Handle.Calls) :
    (Handle.createStreamHandle calls).isOk = (calls.hasSocket &&
      [Errno.EAFNOSUPPORT, .EALREADY, .EBADF, .EFAULT, .EISCONN, .ENOTSOCK].all
        fun e => calls.connect != .error e) := by
  unfold Handle.createStreamHandle Handle.Calls.hasSocket
  cases hdomain : Handle.getSockAddr calls.inetPton with
  | error ex => rfl
  | ok domain =>
      cases hsocket : calls.socket with
      | error e => simp [bind, Except.bind, Except.isOk, Except.toBool]
      | ok _ =>
          cases hconnect : calls.connect with
          | ok _ => simp [bind, Except.bind, Except.isOk, Except.toBool]
          | error e => cases e <;> simp [bind, Except.bind, Except.isOk, Except.toBool]

/-- `CreateStreamHandle` loses its socket where `connect` fails in one of six ways. -/
theorem createStreamHandle_accounted_iff (calls : Handle.Calls) (fd : Fd) :
    Accounted [.createStreamHandle calls fd] ↔ Careful (.createStreamHandle calls fd) := by
  rw [accounted_singleton]
  have hok := createStreamHandle_isOk calls
  simp only [run, returned, Careful, Handle.createStreamHandleFd]
  cases hsocket : calls.hasSocket with
  | false =>
      rw [hsocket, Bool.false_and] at hok
      cases hres : Handle.createStreamHandle calls with
      | error ex => exact iff_of_true (List.Perm.refl _) (by simp)
      | ok connected => exact absurd hok (by simp [hres, Except.isOk, Except.toBool])
  | true =>
      rw [hsocket, Bool.true_and] at hok
      cases hres : Handle.createStreamHandle calls with
      | error ex =>
          rw [hres] at hok
          refine iff_of_false (fun h => absurd h.length_eq (by simp [obtainedFds, disposedFds,
            Except.map, Except.toOption])) (fun h => ?_)
          have hall := List.all_eq_true.mpr fun e he => bne_iff_ne.mpr (h rfl e he)
          exact absurd (hok.trans hall) (by simp [Except.isOk, Except.toBool])
      | ok connected =>
          rw [hres] at hok
          refine iff_of_true (List.Perm.refl _) fun _ e he => ?_
          exact bne_iff_ne.mp (List.all_eq_true.mp hok.symm e he)

/-- `StreamListener::HandleEvents` loses what it has accepted where the handler of the user is
gone. -/
theorem handleEvents_accounted_iff (calls : AcceptCalls) (events : Events) :
    Accounted [.handleEvents calls events] ↔ Careful (.handleEvents calls events) := by
  rw [accounted_singleton]
  simp only [run, returned, Careful, StreamListener.handleEvents, List.append_nil]
  cases hread : events.has Events.Read with
  | false => simp [obtainedFds, disposedFds]
  | true =>
      rw [if_pos rfl, handedOver_iff]
      simp only [Nat.zero_add, true_implies]
      refine forall_congr' fun i => ?_
      rw [show i < calls.limit.toNat ↔ (i : Int) < calls.limit by omega]

end

/-- **A single call keeps the account** if and only if it is careful. -/
theorem accounted_singleton_iff (c : DescriptorCall) : Accounted [c] ↔ c.Careful := by
  cases c with
  | createTimerHandle calls interval value =>
      exact createTimerHandle_accounted_iff calls interval value
  | createStreamListenerHandle calls => exact createStreamListenerHandle_accounted_iff calls
  | createStreamHandle calls fd => exact createStreamHandle_accounted_iff calls fd
  | handleEvents calls events => exact handleEvents_accounted_iff calls events

/-! ### Any number of calls -/

theorem accounted_of_careful {calls : List DescriptorCall} (h : ∀ c ∈ calls, c.Careful) :
    Accounted calls := by
  induction calls using List.reverseRecOn with
  | nil => exact accounted_nil
  | append_singleton before c ih =>
      have hbefore := ih fun c' hc' => h c' (List.mem_append_left _ hc')
      rw [accounted_concat hbefore, accounted_singleton_iff]
      exact h c (List.mem_append_right _ (List.mem_singleton_self c))

/-- **Every descriptor is accounted for** after each of the calls, if and only if each of them
is careful: `CreateTimerHandle` is not given two zeros, `bind`, `listen` and `connect` do not
fail in a way that throws, and whoever is to take a connection is alive when it is accepted. -/
theorem descriptors_accounted_iff (calls : List DescriptorCall) :
    (∀ before, before <+: calls → Accounted before) ↔ ∀ c ∈ calls, c.Careful := by
  constructor
  · intro h c hc
    obtain ⟨before, after, rfl⟩ := List.append_of_mem hc
    have hbefore := h before (List.prefix_append _ _)
    rw [← accounted_singleton_iff, ← accounted_concat hbefore]
    exact h (before ++ [c]) ⟨after, by simp⟩
  · rintro h before ⟨after, rfl⟩
    exact accounted_of_careful fun c hc => h c (List.mem_append_left _ hc)

/-- The port of a listener is in use: the descriptor of its socket stays open, and nobody
knows it. -/
theorem listener_descriptor_lost :
    (DescriptorCall.createStreamListenerHandle
      { inetPton := fun _ => true, socket := .ok 5, bind := some (.other 98),
        listen := none }).run =
        [.obtained 5] ∧
      (DescriptorCall.createStreamListenerHandle
        { inetPton := fun _ => true, socket := .ok 5, bind := some (.other 98),
          listen := none }).returned
        = [] ∧
      ¬∀ calls before : List DescriptorCall, before <+: calls → Accounted before := by
  refine ⟨rfl, rfl, fun h => ?_⟩
  have hone := h [.createStreamListenerHandle
    { inetPton := fun _ => true, socket := .ok 5, bind := some (.other 98), listen := none }] _
    (List.prefix_refl _)
  exact absurd (hone.length_eq) (by decide)

end

end Libael
