import Libael.Interest
import Libael.Lts.Erase

/-!
# Libael.Interrupts

System calls that return `EINTR`. A run in which some of them do is compared with the schedule
in which those calls are not made at all, which is what it would be to retry them. **Only
`accept4` is retried**, and it costs the listener a turn of its loop: `epoll_wait` throws, and
`recv` and `send` have no case for `EINTR` and close their direction of the filter.

* `Erasable` of the library compares the two runs. Two states are related if they differ in
  what an interrupted call leaves behind; a step that is left out keeps the relation on its
  own, any other keeps it in both runs and shows the same.
* For a listener that difference is the turn its loop is in (`Ahead`, `Behind`). It stays
  unnoticed until the loop comes to its limit.
* For a stream buffer no interrupted call is harmless. The first run goes on in `HandleEvents`
  behind it while the second still waits for `recv` or `send`, and no schedule leads both to
  the same state again (`Apart`).
-/

namespace Libael

open Lts

/-- A signal handler interrupted the call. -/
@[match_pattern] abbrev Errno.EINTR : Errno := .other 4

namespace Hosted

/-! ### Handlers the loop cannot tell apart -/

section

variable {σ ℓ ο : Type} {cfg : Config} {code : HandlerCode σ ℓ ο} {e : EventId} {s s' : Hosted σ}
  {l : HostedLabel ℓ} {o : List (LoopObs ⊕ ο)} {h h' : σ}

/-- What the loop and the kernel see of a handler is the same. -/
structure Alike (code : HandlerCode σ ℓ ο) (h h' : σ) : Prop where
  /-- whether its `HandleEvents` is running, and whether it may be called -/
  running : code.running h' = code.running h
  free : code.free h' = code.free h
  crashed : code.crashed h' = code.crashed h
  /-- what it asks epoll for, and what its descriptor would report -/
  getEvents : code.getEvents h' = code.getEvents h
  reports : code.reports h' = code.reports h

/-- A handler that looks the same to the kernel is reported alike. -/
theorem report_of_alike (ha : Alike code s.handler h) :
    ({ s with handler := h } : Hosted σ).report cfg code e =
      { s.report cfg code e with handler := h } := by
  have hsame : (({ s with handler := h } : Hosted σ).watched cfg e &&
      ({ s with handler := h } : Hosted σ).pollable code != 0) =
      (s.watched cfg e && s.pollable code != 0) := by
    simp only [watched, pollable, ha.reports]
  unfold report
  rw [hsame]
  by_cases hcond : (s.watched cfg e && s.pollable code != 0) = true
  · rw [if_pos hcond, if_pos hcond]
  · rw [if_neg hcond, if_neg hcond]

theorem install_of_alike (ha : Alike code s.handler h) (o : List LoopObs) :
    ({ s with handler := h } : Hosted σ).install cfg code e o =
      { s.install cfg code e o with handler := h } := by
  unfold install
  split
  · rename_i interest _
    exact report_of_alike (s := { s with interest }) ha
  · rfl

theorem userCode_of_alike (ha : Alike code s.handler h) (a : Agent) :
    ({ s with handler := h } : Hosted σ).userCode code e a = s.userCode code e a := by
  simp only [userCode, ha.running]

theorem allows_of_alike (ha : Alike code s.handler h) (l : LoopLabel) :
    ({ s with handler := h } : Hosted σ).allows cfg code e l = s.allows cfg code e l := by
  simp only [allows, userCode, pollsRight, watched, pollable, ha.running, ha.free, ha.getEvents,
    ha.reports]

theorem act_of_alike {a : Agent} {l : ℓ} {ret : Option Errno} {Q : σ → σ → Prop}
    (hQ : ∀ {h h'}, Q h h' → Alike code h h')
    (hcode : ∀ {h₁ o₁}, code.step l s.handler = some (h₁, o₁) →
      ∃ h₂, code.step l h = some (h₂, o₁) ∧ Q h₁ h₂)
    (hs : s.act cfg code e a l ret = some (s', o)) : ∃ h₂,
      ({ s with handler := h } : Hosted σ).act cfg code e a l ret =
        some ({ s' with handler := h₂ }, o) ∧ Q s'.handler h₂ := by
  unfold act at hs ⊢
  obtain ⟨⟨h₁, o₁⟩, hstep, hs⟩ := Option.bind_eq_some_iff.mp hs
  obtain ⟨h₂, hstep', hQ₂⟩ := hcode hstep
  have ha := hQ hQ₂
  rw [hstep', Option.bind_some]
  dsimp only at hs ⊢
  split at hs
  · rename_i hnone
    obtain ⟨rfl, rfl⟩ := Prod.mk.inj (Option.some.inj hs)
    exact ⟨h₂, rfl, hQ₂⟩
  · rename_i call hone
    obtain ⟨⟨loop, o₂⟩, hloop, heq⟩ := Option.map_eq_some_iff.mp hs
    obtain ⟨rfl, rfl⟩ := Prod.mk.inj heq
    refine ⟨h₂, ?_, by simpa using hQ₂⟩
    simp only [ha.getEvents, hloop, Option.map_some, Option.some.injEq, Prod.mk.injEq, and_true]
    exact install_of_alike (s := { s with loop, handler := h₁ }) ha o₂
  · exact absurd hs (by simp)

/-- **With another handler in its place, the same step is taken**, if the handlers are alike and
what is asked of the handler is answered alike. -/
theorem step_of_alike {Q : σ → σ → Prop} (hQ : ∀ {h h'}, Q h h' → Alike code h h')
    (ha : Alike code s.handler h) (hloop : ∀ l', l = .loop l' → Q s.handler h)
    (hcode : ∀ l', Takes l l' → ∀ {h₁ o₁}, code.step l' s.handler = some (h₁, o₁) →
      ∃ h₂, code.step l' h = some (h₂, o₁) ∧ Q h₁ h₂)
    (hs : step cfg code e l s = some (s', o)) : ∃ h₂,
      step cfg code e l { s with handler := h } = some ({ s' with handler := h₂ }, o) ∧
        Q s'.handler h₂ := by
  unfold step at hs ⊢
  simp only [ha.crashed]
  split at hs
  · exact absurd hs (by simp)
  rename_i hc
  rw [if_neg hc]
  cases l with
  | loop l =>
      dsimp only at hs ⊢
      rw [allows_of_alike ha]
      split at hs
      · rename_i hallows
        obtain ⟨⟨loop, o₁⟩, hstep, heq⟩ := Option.map_eq_some_iff.mp hs
        obtain ⟨rfl, rfl⟩ := Prod.mk.inj heq
        rw [if_pos hallows, hstep]
        refine ⟨h, ?_, by simpa using hloop l rfl⟩
        simp only [Option.map_some, Option.some.injEq, Prod.mk.injEq, and_true]
        exact install_of_alike (s := { s with loop }) ha o₁
      · exact absurd hs (by simp)
  | enter l =>
      dsimp only at hs ⊢
      split at hs
      · split at hs
        · rename_i hcond
          obtain ⟨⟨loop, o₁⟩, hstep, hs⟩ := Option.bind_eq_some_iff.mp hs
          obtain ⟨⟨h₁, o₂⟩, hstep', heq⟩ := Option.map_eq_some_iff.mp hs
          obtain ⟨rfl, rfl⟩ := Prod.mk.inj heq
          obtain ⟨h₂, hstep₂, hQ₂⟩ := hcode l (.enter l) hstep'
          refine ⟨h₂, ?_, hQ₂⟩
          simp only [if_pos hcond, hstep, hstep₂, Option.bind_some, Option.map_some]
        · exact absurd hs (by simp)
      · exact absurd hs (by simp)
  | handler l ret =>
      dsimp only at hs ⊢
      split at hs
      · exact absurd hs (by simp)
      · split at hs
        · rename_i hcond
          simp only [ha.running]
          rw [if_pos hcond]
          exact act_of_alike hQ (hcode l (.handler l ret)) hs
        · exact absurd hs (by simp)
      · split at hs
        · rename_i hcond
          rw [userCode_of_alike ha, if_pos hcond]
          exact act_of_alike hQ (hcode l (.handler l ret)) hs
        · exact absurd hs (by simp)
      · rename_i news _
        obtain ⟨⟨h₁, o₁⟩, hstep, heq⟩ := Option.map_eq_some_iff.mp hs
        obtain ⟨rfl, rfl⟩ := Prod.mk.inj heq
        obtain ⟨h₂, hstep₂, hQ₂⟩ := hcode l (.handler l ret) hstep
        rw [hstep₂]
        cases news with
        | false => exact ⟨h₂, rfl, hQ₂⟩
        | true =>
            refine ⟨h₂, ?_, by simpa using hQ₂⟩
            simp only [Option.map_some, if_true, Option.some.injEq, Prod.mk.injEq, and_true]
            exact report_of_alike (s := { s with handler := h₁ }) (hQ hQ₂)

end

end Hosted

/-- `epoll_wait` is interrupted. -/
def LoopLabel.interrupted : LoopLabel → Bool
  | .loop (.waitFails .EINTR) => true
  | _ => false

theorem LoopLabel.eq_of_interrupted (l : LoopLabel) (h : l.interrupted = true) :
    l = .loop (.waitFails .EINTR) := by
  unfold interrupted at h
  split at h
  · rfl
  · exact absurd h (by simp)

namespace EventLoop

/-- `epoll_wait` throws whatever error it returns. -/
theorem crashes_of_waitFails {cfg : Config} {errno : Errno} {s s' : EventLoop} {o : List LoopObs}
    (h : s.step cfg (.loop (.waitFails errno)) = some (s', o)) : s'.crashed.isSome = true := by
  unfold step at h
  split at h
  · exact absurd h (by simp)
  · dsimp only at h
    split at h
    · rename_i f rest _ _
      obtain ⟨n, hrun, heq⟩ := Option.map_eq_some_iff.mp h
      obtain ⟨rfl, -⟩ := Prod.mk.inj heq
      cases f with
      | process final =>
          simp only [runFrame, Option.some.injEq] at hrun
          rw [← hrun]
          rfl
      | finalize elements =>
          cases elements with
          | nil => exact absurd hrun (by simp [runFrame])
          | cons element elements =>
              cases element <;>
                exact absurd hrun (by simp [runFrame, finalizeElement, addFinalize, removeFinalize,
                  readyFinalize])
      | _ => exact absurd hrun (by simp [runFrame, timerRead])
    · exact absurd h (by simp)

end EventLoop

/-- The exception of `epoll_wait` is the end of the loop. -/
theorem crashes_of_interrupted {σ ℓ ο : Type} {cfg : Config} {code : HandlerCode σ ℓ ο}
    {e : EventId} {s s' : Hosted σ} {o : List (LoopObs ⊕ ο)} {l : LoopLabel}
    (hl : l.interrupted = true) (hs : Hosted.step cfg code e (.loop l) s = some (s', o)) :
    s.loop.crashed = none ∧ s'.handler = s.handler ∧ s'.loop.crashed.isSome = true := by
  obtain ⟨-, hc, hstep⟩ := Hosted.step_inv hs
  obtain rfl := l.eq_of_interrupted hl
  cases hstep with
  | @loop _ loop o _ hloop =>
      refine ⟨hc, by simp, ?_⟩
      have hcrashed := EventLoop.crashes_of_waitFails hloop
      rw [(Hosted.noted_install cfg code e { s with loop } o).crashed]
      exact hcrashed

/-- Nothing happens after an exception has left the loop. -/
theorem stuck_of_crashed {σ ℓ ο : Type} {cfg : Config} {code : HandlerCode σ ℓ ο}
    {e : EventId} {s : Hosted σ} (hc : s.loop.crashed.isSome = true) (l : HostedLabel ℓ) :
    (hostedSystem cfg code e).step l s = none := by
  show Hosted.step cfg code e l s = none
  unfold Hosted.step
  rw [if_pos (by simp [hc])]

/-! ### A listener -/

/-- `accept4` is interrupted. -/
def ListenerLabel.interrupted : ListenerLabel → Bool
  | .accept (.error .EINTR) => true
  | _ => false

theorem ListenerLabel.eq_of_interrupted (l : ListenerLabel) (h : l.interrupted = true) :
    l = .accept (.error .EINTR) := by
  unfold interrupted at h
  split at h
  · rfl
  · exact absurd h (by simp)

namespace StreamListener

/-- The two runs are in the same place, the first of them `n` turns ahead of the second. -/
inductive SameTurn (n : Nat) : ListenerCall → ListenerCall → Prop
  | idle : SameTurn n .idle .idle
  | accepting (i : Nat) : SameTurn n (.accepting (i + n)) (.accepting i)
  | accepted (i : Nat) (newFd : Fd) : SameTurn n (.accepted (i + n) newFd) (.accepted i newFd)
  | newConnection (i : Nat) : SameTurn n (.newConnection (i + n)) (.newConnection i)

/-- Two listeners that differ in the turns of their loops only. -/
inductive Ahead (n : Nat) (s : StreamListener) : StreamListener → Prop
  | turns {call} : SameTurn n s.call call → Ahead n s { s with call }

/-- How many turns have been interrupted since `HandleEvents` was called. -/
def nextTurns (n : Nat) : ListenerLabel → Nat
  | .handleEvents _ => 0
  | .accept (.error .EINTR) => n + 1
  | _ => n

section

variable {limit : Int} {n : Nat} {s s' t : StreamListener} {l : ListenerLabel}
  {o : List ListenerObs}

theorem Ahead.alike (h : Ahead n s t) : Hosted.Alike (listenerCode limit) s t := by
  obtain ⟨hturn⟩ := h
  generalize hcall : s.call = call at hturn
  refine ⟨?_, ?_, rfl, rfl, rfl⟩
  · simp only [listenerCode, hcall]
    cases hturn <;> rfl
  · funext a
    cases hturn <;> cases a <;> simp [listenerCode, hcall]

/-- What `accept4` returns keeps to its contract. -/
theorem accept_contract {i : Nat} {ret : Except Errno Fd} (hcall : s.call = .accepting i)
    (hs : step limit (.accept ret) s = some (s', o)) : acceptContract s.backlog ret = true := by
  unfold step at hs
  rw [hcall] at hs
  split at hs
  · exact absurd hs (by simp)
  · dsimp only at hs
    split at hs
    · rename_i hcond
      exact hcond.2
    · exact absurd hs (by simp)

/-- An interrupted turn of the loop, which `continue` ends. -/
theorem Ahead.interrupted (h : Ahead n s t)
    (hs : step limit (.accept (.error .EINTR)) s = some (s', o)) :
    Ahead (n + 1) s' t ∧ o = [.accept (.error .EINTR)] := by
  obtain ⟨-, hstep⟩ := step_inv hs
  obtain ⟨hturn⟩ := h
  cases hstep with
  | threw hcall _ hthrows => exact absurd hthrows (by decide)
  | @transient i _ hcall _ _ _ =>
      rw [hcall] at hturn
      cases hturn with
      | accepting j =>
          exact ⟨.turns (s := { s with call := .accepting (j + n + 1) }) (.accepting j), rfl⟩

/-- Any other step is the same in both, up to the end of the loop at its limit. The outcome of
`accept4` does not depend on the turn, and the turn is compared with the limit only there. -/
theorem Ahead.step (h : Ahead n s t) (hs : step limit l s = some (s', o))
    (hl : l.interrupted = false) (hlimit : l = .limitReached → n = 0) :
    ∃ t', StreamListener.step limit l t = some (t', o) ∧ Ahead (nextTurns n l) s' t' := by
  obtain ⟨hc, hstep⟩ := step_inv hs
  obtain ⟨hturn⟩ := h
  cases hstep with
  | @called events hcall hread =>
      rw [hcall] at hturn
      cases hturn
      exact ⟨{ s with call := .accepting 0 }, by simp [StreamListener.step, hc, hread],
        .turns (s := { s with call := .accepting 0 }) (.accepting 0)⟩
  | @ignored events hcall hno =>
      rw [hcall] at hturn
      cases hturn
      exact ⟨{ s with call := .idle }, by simp [StreamListener.step, hc, hno],
        .turns (by rw [hcall]; exact .idle)⟩
  | @accepted i newFd hcall hlt hne =>
      rw [hcall] at hturn
      cases hturn with
      | accepting j =>
          have hcontract := accept_contract hcall hs
          have hlt' : (j : Int) < limit := by omega
          exact ⟨{ s with call := .accepted j newFd, backlog := s.backlog - 1 },
            by simp [StreamListener.step, hc, hlt', hcontract, accept],
            .turns (s := { s with call := .accepted (j + n) newFd, backlog := s.backlog - 1 })
              (.accepted j newFd)⟩
  | drained hcall hlt hempty =>
      rw [hcall] at hturn
      cases hturn with
      | accepting j =>
          have hcontract := accept_contract hcall hs
          have hlt' : (j : Int) < limit := by omega
          refine ⟨{ s with call := .idle }, ?_, .turns (s := { s with call := .idle }) .idle⟩
          simp [StreamListener.step, hc, hlt', hcontract, accept]
  | @threw i e hcall hlt hthrows =>
      rw [hcall] at hturn
      cases hturn with
      | accepting j =>
          have hcontract := accept_contract hcall hs
          have hlt' : (j : Int) < limit := by omega
          have hne : e ≠ .EAGAIN := by rintro rfl; exact absurd hthrows (by decide)
          refine ⟨{ s with call := .idle, crashed := some (.systemError e "accept failed") }, ?_,
            .turns (s := { s with
              call := .idle, crashed := some (.systemError e "accept failed") }) .idle⟩
          simp [StreamListener.step, hc, hlt', hcontract, accept, hne, hthrows]
  | @transient i e hcall hlt hne hthrows =>
      rw [hcall] at hturn
      cases hturn with
      | accepting j =>
          have hcontract := accept_contract hcall hs
          have hlt' : (j : Int) < limit := by omega
          have hsame : nextTurns n (.accept (.error e)) = n := by
            unfold nextTurns
            split <;> simp_all [ListenerLabel.interrupted]
          rw [hsame, Nat.add_right_comm]
          refine ⟨{ s with call := .accepting (j + 1) }, ?_,
            .turns (s := { s with call := .accepting (j + 1 + n) }) (.accepting (j + 1))⟩
          simp [StreamListener.step, hc, hlt', hcontract, accept, hne, hthrows]
  | handed hcall halive =>
      rw [hcall] at hturn
      cases hturn with
      | accepted j newFd =>
          exact ⟨{ s with call := .newConnection j }, by simp [StreamListener.step, hc, halive],
            .turns (s := { s with call := .newConnection (j + n) }) (.newConnection j)⟩
  | dropped hcall hdead =>
      rw [hcall] at hturn
      cases hturn with
      | accepted j newFd =>
          rw [Nat.add_right_comm]
          exact ⟨{ s with call := .accepting (j + 1) }, by simp [StreamListener.step, hc, hdead],
            .turns (s := { s with call := .accepting (j + 1 + n) }) (.accepting (j + 1))⟩
  | handled hcall =>
      rw [hcall] at hturn
      cases hturn with
      | newConnection j =>
          rw [Nat.add_right_comm]
          exact ⟨{ s with call := .accepting (j + 1) }, by simp [StreamListener.step, hc],
            .turns (s := { s with call := .accepting (j + 1 + n) }) (.accepting (j + 1))⟩
  | limitReached hcall hle =>
      obtain rfl := hlimit rfl
      rw [hcall] at hturn
      cases hturn with
      | accepting j =>
          exact ⟨{ s with call := .idle }, by simpa [StreamListener.step, hc] using hle,
            .turns (s := { s with call := .idle }) .idle⟩
  | handlerDestroyed hno =>
      refine ⟨{ s with call := _, newConnectionHandler := false }, ?_,
        .turns (s := { s with newConnectionHandler := false }) hturn⟩
      generalize hcall : s.call = call at hturn
      cases hturn <;> first | exact absurd hcall (hno _) | simp [StreamListener.step, hc]
  | arrives =>
      refine ⟨{ s with call := _, backlog := s.backlog + 1 }, ?_,
        .turns (s := { s with backlog := s.backlog + 1 }) hturn⟩
      generalize s.call = call at hturn
      cases hturn <;> simp [StreamListener.step, hc]
  | aborted hne =>
      refine ⟨{ s with call := _, backlog := s.backlog - 1 }, ?_,
        .turns (s := { s with backlog := s.backlog - 1 }) hturn⟩
      generalize s.call = call at hturn
      cases hturn <;> simp [StreamListener.step, hc, hne]

end

/-- The turns of the current call of `HandleEvents` that have been interrupted. -/
def interruptedTurns (n : Nat) : HostedLabel ListenerLabel → Nat
  | .loop _ => n
  | .enter l | .handler l _ => nextTurns n l

/-- One of the calls that can be left out of the schedule. -/
def interruptedCall : HostedLabel ListenerLabel → Bool
  | .loop l => l.interrupted
  | .enter _ => false
  | .handler l _ => l.interrupted

/-- What an interrupted call shows. -/
def interruptedObs : LoopObs ⊕ ListenerObs → Bool
  | .inr (.accept (.error .EINTR)) => true
  | _ => false

/-- Nobody notices: `epoll_wait` is not interrupted, and a call of `HandleEvents` that comes to
the limit of its loop has not lost a turn. -/
def unnoticed (n : Nat) : HostedLabel ListenerLabel → Bool
  | .loop l => !l.interrupted
  | .handler .limitReached _ => n == 0
  | _ => true

/-- The same, but for the turns of the loop in `HandleEvents`. -/
def UpToTurns (s t : Hosted StreamListener) : Prop :=
  t.loop = s.loop ∧ t.interest = s.interest ∧ ∃ n, Ahead n s.handler t.handler

section

open Hosted

variable {cfg : Config} {limit : Int} {e : EventId}

/-- The second run is where the first one is, `n` turns behind. -/
structure Behind (cfg : Config) (limit : Int) (e : EventId) (n : Nat)
    (s t : Hosted StreamListener) : Prop where
  reached : ∃ tr, Run (hostedSystem cfg (listenerCode limit) e) (Hosted.init init) tr s
  same : ∃ handler, t = { s with handler } ∧ Ahead n s.handler handler

theorem withinLimit_of_behind {n : Nat} {s t : Hosted StreamListener}
    (h : Behind cfg limit e n s t) : WithinLimit limit s.handler.call := by
  obtain ⟨tr, hrun⟩ := h.reached
  have hhandler : Run ⟨step limit⟩ init (handlerTrace tr) s.handler :=
    handlerRun (fun _ _ _ _ _ => trivial) hrun
  exact (told_of_run hhandler).turns

/-- A listener that has lost a turn does not come to its limit without that. -/
theorem not_limitReached {n : Nat} {s t : StreamListener} (h : Ahead n s t) (hn : n ≠ 0)
    (hturns : WithinLimit limit s.call) : step limit .limitReached t = none := by
  obtain ⟨hturn⟩ := h
  generalize hcall : s.call = call at hturn hturns
  cases hturn with
  | accepting j =>
      have hlt : ¬limit ≤ (j : Int) := by
        simp only [WithinLimit] at hturns
        omega
      simp [step, hlt]
  | idle | accepted _ _ | newConnection _ => simp [step]

theorem erasable (cfg : Config) (limit : Int) (e : EventId) :
    Erasable (hostedSystem cfg (listenerCode limit) e) interruptedCall interruptedObs UpToTurns
      unnoticed interruptedTurns (Behind cfg limit e) where
  related := by
    intro n s t h
    obtain ⟨handler, rfl, hahead⟩ := h.same
    exact ⟨rfl, rfl, n, hahead⟩
  stutters := by
    intro n s t l s' o h hs hok herased
    obtain ⟨handler, rfl, hahead⟩ := h.same
    obtain ⟨tr, hrun⟩ := h.reached
    have hrun' : ∃ tr, Run (hostedSystem cfg (listenerCode limit) e) (Hosted.init init) tr s' :=
      ⟨_, hrun.step trivial hs⟩
    cases l with
    | loop l => exact absurd herased (by simpa [unnoticed, interruptedCall] using hok)
    | enter l => exact absurd herased (by simp [interruptedCall])
    | handler l ret =>
        obtain rfl := l.eq_of_interrupted herased
        obtain ⟨-, -, hstep⟩ := hostedSystem_inv hs
        cases hstep with
        | silent hacts hcode hasks =>
            obtain ⟨hahead', rfl⟩ := hahead.interrupted hcode
            refine ⟨⟨hrun', handler, rfl, hahead'⟩, fun x hx => ?_⟩
            rw [List.map_singleton, List.mem_singleton] at hx
            rw [hx]
            rfl
        | asks hacts hcode hasks hloop =>
            obtain ⟨-, rfl⟩ := hahead.interrupted hcode
            exact absurd (show ([] : List EventCall) = _ from hasks) (by simp)
        | surroundings hactor _ => exact absurd hactor (by simp [listenerCode, actor])
  matched := by
    intro n s t l s' o h hs hok herased
    obtain ⟨handler, rfl, hahead⟩ := h.same
    obtain ⟨tr, hrun⟩ := h.reached
    have hcode : ∀ l', Takes l l' → ∀ {h₁ o₁}, step limit l' s.handler = some (h₁, o₁) →
        ∃ h₂, step limit l' handler = some (h₂, o₁) ∧ Ahead (interruptedTurns n l) h₁ h₂ := by
      intro l' htakes h₁ o₁ hcode
      cases htakes with
      | enter =>
          obtain ⟨-, -, hstep⟩ := hostedSystem_inv hs
          cases hstep with
          | enter hactor _ _ _ _ =>
              cases l' with
              | handleEvents events => exact hahead.step hcode rfl (by simp)
              | _ => exact absurd hactor (by simp [listenerCode, actor])
      | handler _ ret =>
          refine hahead.step hcode herased ?_
          rintro rfl
          simpa [unnoticed] using hok
    obtain ⟨handler', hs', hahead'⟩ := step_of_alike
      (Q := fun h h' => Ahead (interruptedTurns n l) h h') Ahead.alike hahead.alike
      (by rintro l' rfl; exact hahead) hcode hs
    exact ⟨_, hs', ⟨_, hrun.step trivial hs⟩, handler', rfl, hahead'⟩
  parted := by
    intro n s t l s' o h hs hok ls s'' t'' tr tr' hexec hexec' halike
    have hturns := withinLimit_of_behind h
    obtain ⟨handler, rfl, hahead⟩ := h.same
    cases l with
    | enter l => exact absurd hok (by simp [unnoticed])
    | loop l =>
        have hl : l.interrupted = true := by simpa [unnoticed] using hok
        obtain ⟨hc, -, hcrashed⟩ := crashes_of_interrupted hl hs
        obtain ⟨rfl, rfl⟩ := exec_of_stuck (stuck_of_crashed hcrashed) hexec
        have herased : interruptedCall (.loop l : HostedLabel ListenerLabel) = true := hl
        rw [List.filter_cons, herased] at hexec'
        obtain ⟨rfl, -⟩ := Prod.mk.inj (Option.some.inj hexec')
        rw [← halike.1] at hcrashed
        exact absurd hcrashed (by simp [hc])
    | handler l ret =>
        cases l with
        | limitReached =>
            have hn : n ≠ 0 := by simpa [unnoticed] using hok
            have herased : interruptedCall (.handler .limitReached ret) = false := rfl
            rw [List.filter_cons, herased] at hexec'
            obtain ⟨t₁, o', tr₁, ht, -⟩ := exec_cons.mp hexec'
            obtain ⟨-, -, hstep⟩ := hostedSystem_inv ht
            have hno := not_limitReached hahead hn hturns
            cases hstep with
            | silent _ hcode _ => exact absurd hcode (by simp [listenerCode, hno])
            | asks _ hcode _ _ => exact absurd hcode (by simp [listenerCode, hno])
            | surroundings _ hcode => exact absurd hcode (by simp [listenerCode, hno])
        | _ => exact absurd hok (by simp [unnoticed])

end

end StreamListener

/-! ### A stream buffer -/

/-- `recv` or `send` is interrupted. -/
def BufferLabel.interrupted : BufferLabel SysRet → Bool
  | .answer (.recv (.error .EINTR)) | .answer (.send (.error .EINTR)) => true
  | _ => false

namespace BufferState

/-- One of the calls that would have to be left out of the schedule. -/
def interruptedCall : HostedLabel (BufferLabel SysRet) → Bool
  | .loop l => l.interrupted
  | .enter _ => false
  | .handler l _ => l.interrupted

/-- What an interrupted call shows. -/
def interruptedObs : LoopObs ⊕ Obs SysRet → Bool
  | .inr (.in _ (.recv (.error .EINTR)) _) | .inr (.out _ _ (.send (.error .EINTR)) _) => true
  | _ => false

/-- The first thread goes on in `HandleEvents`, while the second one waits for `recv` or `send`. -/
structure Apart (s t : BufferState Socket) : Prop where
  runs : ∃ fr rest, s.stack = fr :: rest ∧ waits fr = false
  waits : ∃ fr rest, t.stack = fr :: rest ∧ waits fr = true ∧ (∀ c, fr ≠ .callback c) ∧
    ∀ b : StreamBuffer, b.streamFilters = t.buffer.streamFilters →
      (b.runFrame fr : Option (Next SysRet StreamBuffer)) = none

section

variable {env : FilterEnv Socket SysRet} {s s' t t' : BufferState Socket} {l : BufferLabel SysRet}
  {o o' : List (Obs SysRet)}

theorem Apart.ne (h : Apart s t) : s ≠ t := by
  rintro rfl
  obtain ⟨fr, rest, hstack, hruns⟩ := h.runs
  obtain ⟨fr', rest', hstack', hwaits, -⟩ := h.waits
  obtain ⟨rfl, -⟩ := List.cons.inj (hstack.symm.trans hstack')
  exact absurd hwaits (by simp [hruns])

/-- A frame that waits for nobody gets no answer. -/
theorem answerFrame_none {fr : Frame} (hfr : BufferState.waits fr = false) (b : StreamBuffer)
    (r : SysRet) (k : Socket) : b.answerFrame env r k fr = none := by
  cases fr <;> first | rfl | exact absurd hfr (by simp [BufferState.waits])

/-- The first thread does not make the call a second time. -/
theorem Apart.not_interrupted (h : Apart s t) (hs : step env l s = some (s', o)) :
    l.interrupted = false := by
  obtain ⟨fr, rest, hstack, hruns⟩ := h.runs
  obtain ⟨-, hstep⟩ := step_inv hs
  cases hstep with
  | answer hstack₁ hanswer =>
      obtain ⟨rfl, -⟩ := List.cons.inj (hstack₁.symm.trans hstack)
      exact absurd (hanswer.symm.trans (answerFrame_none hruns _ _ _)) (by simp)
  | _ => rfl

/-- Where the first thread takes a step inside `HandleEvents`, the second one cannot. -/
theorem Apart.step (h : Apart s t) (hs : step env l s = some (s', o))
    (ht : step env l t = some (t', o')) : Apart s' t' := by
  obtain ⟨fr, rest, hstack, hruns⟩ := h.runs
  obtain ⟨fr', rest', hstack', hwaits, hcallback, hnone⟩ := h.waits
  have haside : Aside s s' o := by
    obtain ⟨-, hmove⟩ := move_of_step hs
    cases hmove with
    | aside ha => exact ha
    | enter hnil _ => exact absurd (hnil.symm.trans hstack) (by simp)
    | run _ _ =>
        obtain ⟨-, hstep⟩ := step_inv ht
        cases hstep with
        | run hstack₁ hrun =>
            obtain ⟨rfl, -⟩ := List.cons.inj (hstack₁.symm.trans hstack')
            exact absurd (hrun.symm.trans (hnone t.buffer rfl)) (by simp)
    | answer hstack₁ hanswer =>
        obtain ⟨rfl, -⟩ := List.cons.inj (hstack₁.symm.trans hstack)
        exact absurd (hanswer.symm.trans (answerFrame_none hruns _ _ _)) (by simp)
    | ret hstack₁ =>
        obtain ⟨rfl, -⟩ := List.cons.inj (hstack₁.symm.trans hstack)
        exact absurd hruns (by simp [BufferState.waits])
    | added hcb _ =>
        obtain ⟨c, rfl⟩ := callback_of_added hcb hstack
        exact absurd hruns (by simp [BufferState.waits])
  have haside' : Aside t t' o' := by
    obtain ⟨-, hmove⟩ := move_of_step ht
    cases hmove with
    | aside ha => exact ha
    | enter hnil _ => exact absurd (hnil.symm.trans hstack') (by simp)
    | run hstack₁ hrun =>
        obtain ⟨rfl, -⟩ := List.cons.inj (hstack₁.symm.trans hstack')
        exact absurd (hrun.symm.trans (hnone t.buffer rfl)) (by simp)
    | answer _ _ =>
        obtain ⟨-, hstep⟩ := step_inv hs
        cases hstep with
        | answer hstack₁ hanswer =>
            obtain ⟨rfl, -⟩ := List.cons.inj (hstack₁.symm.trans hstack)
            exact absurd (hanswer.symm.trans (answerFrame_none hruns _ _ _)) (by simp)
    | ret hstack₁ => exact absurd (List.cons.inj (hstack₁.symm.trans hstack')).1.symm (hcallback _)
    | added hcb _ =>
        obtain ⟨c, rfl⟩ := callback_of_added hcb hstack'
        exact absurd rfl (hcallback c)
  exact ⟨⟨fr, rest, haside.stack.trans hstack, hruns⟩, fr', rest', haside'.stack.trans hstack',
    hwaits, hcallback, fun b hb => hnone b (hb.trans haside'.filters)⟩

/-- What follows an interrupted call of `recv` or `send` in `fr`. -/
inductive Leaves (b : StreamBuffer) : Frame → List Frame → Prop
  | read {i} : Leaves b (.read i) []
  | write {i d ds} : (b.filter i).pendingOut = d :: ds → Leaves b (.write i) []
  | flush {i d ds} : (b.filter i).pendingOut = d :: ds → Leaves b (.flush i) [.flushed i]

theorem leaves_of_callOut {pendingConnect : Bool} {b : StreamBuffer} {i : Nat} {k k' : Socket}
    {again after : List Frame} {n : Next SysRet StreamBuffer}
    (h : b.callOut (tcpEnv pendingConnect) i (.send (.error .EINTR)) k again after = some (n, k')) :
    n.threw = none ∧ n.frames = after ∧ ∃ d ds, (b.filter i).pendingOut = d :: ds := by
  unfold StreamBuffer.callOut at h
  dsimp only at h
  split at h
  · exact absurd h (by simp)
  · rename_i d ds hpending
    obtain ⟨⟨res, k₁⟩, hout, heq⟩ := Option.map_eq_some_iff.mp h
    simp only [tcpEnv, TCPStreamBufferFilter.SendContract] at hout
    obtain ⟨rfl, -⟩ := Prod.mk.inj (Option.some.inj hout)
    obtain ⟨rfl, -⟩ := Prod.mk.inj heq
    exact ⟨rfl, rfl, d, ds, hpending⟩

theorem leaves_of_answer {pendingConnect : Bool} {b : StreamBuffer} {fr : Frame} {r : SysRet}
    {k k' : Socket} {n : Next SysRet StreamBuffer}
    (hr : (BufferLabel.answer r).interrupted = true)
    (h : b.answerFrame (tcpEnv pendingConnect) r k fr = some (n, k')) :
    n.threw = none ∧ Leaves b fr n.frames := by
  unfold BufferLabel.interrupted at hr
  split at hr
  · rename_i heq
    obtain rfl := BufferLabel.answer.inj heq
    cases fr with
    | read i =>
        simp only [StreamBuffer.answerFrame, tcpEnv, TCPStreamBufferFilter.in, Option.map_some,
          Option.some.injEq, Prod.mk.injEq] at h
        obtain ⟨rfl, -⟩ := h
        exact ⟨rfl, .read⟩
    | write i | flush i =>
        unfold StreamBuffer.answerFrame StreamBuffer.callOut at h
        dsimp only at h
        split at h <;> exact absurd h (by simp [tcpEnv])
    | doConnect =>
        unfold StreamBuffer.answerFrame at h
        cases hmode : b.mode <;> cases pendingConnect <;> simp [tcpEnv, hmode] at h
    | _ => exact absurd h (by simp [StreamBuffer.answerFrame, tcpEnv])
  · rename_i heq
    obtain rfl := BufferLabel.answer.inj heq
    cases fr with
    | write i =>
        obtain ⟨hthrew, hframes, d, ds, hpending⟩ := leaves_of_callOut h
        exact ⟨hthrew, hframes ▸ .write hpending⟩
    | flush i =>
        obtain ⟨hthrew, hframes, d, ds, hpending⟩ := leaves_of_callOut h
        exact ⟨hthrew, hframes ▸ .flush hpending⟩
    | doConnect =>
        unfold StreamBuffer.answerFrame at h
        cases hmode : b.mode <;> cases pendingConnect <;> simp [tcpEnv, hmode] at h
    | _ => exact absurd h (by simp [StreamBuffer.answerFrame, tcpEnv])
  · exact absurd hr (by simp)

/-- An interrupted call of `recv` or `send` closes its direction of the filter, and the thread
goes on behind its loop. -/
theorem apart_of_interrupted {pendingConnect : Bool} (hstage : StreamBuffer.Stage s.buffer s.stack)
    (hl : l.interrupted = true) (hs : step (tcpEnv pendingConnect) l s = some (s', o)) :
    Apart s' s := by
  obtain ⟨-, hstep⟩ := step_inv hs
  cases hstep with
  | @answer fr rest r n k hstack hanswer =>
      obtain ⟨hthrew, hleaves⟩ := leaves_of_answer hl hanswer
      rw [hstack] at hstage
      rw [resume_of_threw_none hthrew]
      generalize n.frames = frames at hleaves ⊢
      have hnone : ∀ b : StreamBuffer, b.streamFilters = s.buffer.streamFilters →
          (b.runFrame fr : Option (Next SysRet StreamBuffer)) = none := by
        intro b hb
        have hfilter : ∀ i, b.filter i = s.buffer.filter i := fun i => by
          rw [StreamBuffer.filter, hb, StreamBuffer.filter]
        cases hleaves with
        | read => rfl
        | write hpending | flush hpending => simp [StreamBuffer.runFrame, hfilter, hpending]
      refine ⟨?_, fr, rest, hstack, ?_, ?_, hnone⟩
      · cases hleaves with
        | read =>
            cases hstage
            exact ⟨_, _, rfl, rfl⟩
        | write _ =>
            cases hstage <;> exact ⟨_, _, rfl, rfl⟩
        | flush _ => exact ⟨_, _, rfl, rfl⟩
      · cases hleaves <;> rfl
      · cases hleaves <;> simp
  | _ => exact absurd hl (by simp [BufferLabel.interrupted])

end

section

open Hosted

variable {cfg : Config} {e : EventId} {pendingConnect : Bool} {news : SysRet → Bool}
  {reports : Socket → EPollEvents}

/-- Runs that are apart stay so. -/
theorem ne_of_apart {ls : List (HostedLabel (BufferLabel SysRet))}
    {s s' t t' : Hosted (BufferState Socket)} {tr tr' : List (LoopObs ⊕ Obs SysRet)}
    (h : Apart s.handler t.handler)
    (hexec : exec (hostedSystem cfg (bufferCode (tcpEnv pendingConnect) news reports) e)
      (fun _ _ => true) ls s = some (s', tr))
    (hexec' : exec (hostedSystem cfg (bufferCode (tcpEnv pendingConnect) news reports) e)
      (fun _ _ => true) (ls.filter fun l => !interruptedCall l) t = some (t', tr')) : t' ≠ s' := by
  have hapart : Apart s'.handler t'.handler := by
    refine apart_of_exec (D := fun s t => Apart s.handler t.handler) ?_ ?_ h hexec hexec'
    · intro s t l s' o t' o' hD hs ht
      obtain ⟨-, -, hs⟩ := hostedSystem_inv hs
      obtain ⟨-, -, ht⟩ := hostedSystem_inv ht
      cases l with
      | loop l =>
          rw [(handler_of_loop hs).1, (handler_of_loop ht).1]
          exact hD
      | enter l =>
          exact hD.step (handler_of_takes hs (.enter l)) (handler_of_takes ht (.enter l))
      | handler l ret =>
          exact hD.step (handler_of_takes hs (.handler l ret))
            (handler_of_takes ht (.handler l ret))
    · intro s t l s' o hD hs herased
      obtain ⟨-, -, hs⟩ := hostedSystem_inv hs
      cases l with
      | loop l =>
          rw [(handler_of_loop hs).1]
          exact hD
      | enter l => exact absurd herased (by simp [interruptedCall])
      | handler l ret =>
          -- the thread of the first run is past the call
          have hno := hD.not_interrupted (handler_of_takes hs (.handler l ret))
          exact absurd (herased.symm.trans hno) (by simp)
  rintro rfl
  exact hapart.ne rfl

theorem erasable (cfg : Config) (e : EventId) (pendingConnect : Bool) (news : SysRet → Bool)
    (reports : Socket → EPollEvents) (mode : StreamBufferMode) (addr : Nat) (k : Socket) :
    Erasable (hostedSystem cfg (bufferCode (tcpEnv pendingConnect) news reports) e) interruptedCall
      interruptedObs (fun s t => t = s) (fun _ l => !interruptedCall l) (fun _ _ => ())
      fun _ s t => t = s ∧ ∃ tr,
        Run (hostedSystem cfg (bufferCode (tcpEnv pendingConnect) news reports) e)
          (Hosted.init (.init mode addr k)) tr s where
  related := fun h => h.1
  stutters := by
    intro n s t l s' o _ _ hok herased
    exact absurd herased (by simpa using hok)
  matched := by
    rintro n s t l s' o ⟨rfl, tr, hrun⟩ hs _ _
    exact ⟨s', hs, rfl, _, hrun.step trivial hs⟩
  parted := by
    rintro n s t l s' o ⟨rfl, tr, hrun⟩ hs hok ls s'' t'' tr' tr'' hexec hexec'
    have herased : interruptedCall l = true := by simpa using hok
    rw [List.filter_cons, herased] at hexec'
    cases l with
    | enter l => exact absurd herased (by simp [interruptedCall])
    | loop l =>
        obtain ⟨hc, -, hcrashed⟩ := crashes_of_interrupted herased hs
        obtain ⟨rfl, rfl⟩ := exec_of_stuck (stuck_of_crashed hcrashed) hexec
        obtain ⟨rfl, -⟩ := Prod.mk.inj (Option.some.inj hexec')
        rintro rfl
        exact absurd hcrashed (by simp [hc])
    | handler l ret =>
        obtain ⟨-, -, hstep⟩ := hostedSystem_inv hs
        have hchain : Run (bufferSystem (tcpEnv pendingConnect)) (.init mode addr k)
            (handlerTrace tr) t.handler := bufferRun (fun _ _ _ _ _ => trivial) hrun
        have hstep' := handler_of_takes hstep (.handler l ret)
        have hstage := (chainInv_of_run hchain).stage (step_inv hstep').1
        exact ne_of_apart (apart_of_interrupted hstage herased hstep') hexec hexec'

end

end BufferState

/-! ### The loop -/

/-- **Interrupted system calls are transparent** to a listener exactly if `epoll_wait` is not one
of them and no call of `HandleEvents` that has lost a turn comes to the limit of its loop, and to
a stream buffer over TCP exactly if there are none. -/
theorem interrupts_transparent_iff (cfg : Config) (e : EventId) :
    (∀ (limit : Int) (ls : List (HostedLabel ListenerLabel)) (s : Hosted StreamListener)
        (tr : List (LoopObs ⊕ ListenerObs)),
      exec (hostedSystem cfg (listenerCode limit) e) (fun _ _ => true) ls (Hosted.init .init) =
        some (s, tr) →
      (AsIfErased (hostedSystem cfg (listenerCode limit) e) StreamListener.interruptedCall
          StreamListener.interruptedObs StreamListener.UpToTurns ls (Hosted.init .init) s tr ↔
        Harmless StreamListener.unnoticed StreamListener.interruptedTurns 0 ls)) ∧
    ∀ (pendingConnect : Bool) (news : SysRet → Bool) (reports : Socket → EPollEvents)
        (mode : StreamBufferMode) (addr : Nat) (k : Socket)
        (ls : List (HostedLabel (BufferLabel SysRet))) (s : Hosted (BufferState Socket))
        (tr : List (LoopObs ⊕ Obs SysRet)),
      exec (hostedSystem cfg (bufferCode (tcpEnv pendingConnect) news reports) e) (fun _ _ => true)
        ls (Hosted.init (.init mode addr k)) = some (s, tr) →
      (AsIfErased (hostedSystem cfg (bufferCode (tcpEnv pendingConnect) news reports) e)
          BufferState.interruptedCall BufferState.interruptedObs (fun s t => t = s) ls
          (Hosted.init (.init mode addr k)) s tr ↔
        ∀ l ∈ ls, BufferState.interruptedCall l = false) := by
  refine ⟨fun limit ls s tr hexec => ?_,
    fun pendingConnect news reports mode addr k ls s tr hexec => ?_⟩
  · exact (StreamListener.erasable cfg limit e).iff ⟨⟨[], .refl⟩, .init, rfl, .turns .idle⟩ hexec
  · rw [← harmless_iff_forall]
    exact (BufferState.erasable cfg e pendingConnect news reports mode addr k).iff
      ⟨rfl, [], .refl⟩ hexec

open StreamListener

/-- A connection arrives. The first call of `accept4` is interrupted, the second one returns it. -/
def acceptsInterrupted : List (HostedLabel ListenerLabel) :=
  registersListener ++ [.handler .arrives none, .loop (.loop .none),
    .loop (.loop (.wait fun _ _ => some EPollEvents.EPOLLIN)), .loop (.loop .none),
    .enter (.handleEvents Events.Read), .handler (.accept (.error .EINTR)) none,
    .handler (.accept (.ok 7)) none, .handler .lock none, .handler .handled none,
    .handler (.accept (.error .EAGAIN)) none]

/-- The listener of the schedule above takes its connection in both runs. -/
theorem interrupts_transparent_accept4 : ∃ s tr,
    exec (hostedSystem oneListener (listenerCode 5) 0) (fun _ _ => true) acceptsInterrupted
      (Hosted.init .init) = some (s, tr) ∧
    handlerTrace tr = [.handleEvents Events.Read, .accept (.error .EINTR), .accept (.ok 7),
      .newConnection 7, .accept (.error .EAGAIN)] ∧
    AsIfErased (hostedSystem oneListener (listenerCode 5) 0) interruptedCall interruptedObs
      UpToTurns
      acceptsInterrupted (Hosted.init .init) s tr := by
  have hruns : Hosted.runsTo oneListener (listenerCode 5) 0 .init (fun tr _ =>
      handlerTrace tr == [.handleEvents Events.Read, .accept (.error .EINTR), .accept (.ok 7),
        .newConnection 7, .accept (.error .EAGAIN)]) acceptsInterrupted = true := by decide +kernel
  obtain ⟨tr, s, hexec, hcheck⟩ := Hosted.exec_of_runsTo hruns
  exact ⟨s, tr, hexec, by simpa using hcheck,
    ((interrupts_transparent_iff oneListener 0).1 5 _ s tr hexec).mpr (by decide +kernel)⟩

/-- A signal arrives while the loop sleeps in `epoll_wait`, and ends it. -/
theorem interrupted_wait_noticed : ∃ s tr,
    exec (hostedSystem oneListener (listenerCode 5) 0) (fun _ _ => true)
      [.loop (.loop .none), .loop (.loop (.waitFails .EINTR))] (Hosted.init .init) = some (s, tr) ∧
    s.loop.crashed = some (.systemError .EINTR "epoll_wait failed") ∧
    ¬AsIfErased (hostedSystem oneListener (listenerCode 5) 0) interruptedCall interruptedObs
      UpToTurns
      [.loop (.loop .none), .loop (.loop (.waitFails .EINTR))] (Hosted.init .init) s tr := by
  have hruns : Hosted.runsTo oneListener (listenerCode 5) 0 .init (fun _ s =>
      s.loop.crashed == some (.systemError .EINTR "epoll_wait failed"))
      [.loop (.loop .none), .loop (.loop (.waitFails .EINTR))] = true := by decide +kernel
  obtain ⟨tr, s, hexec, hcheck⟩ := Hosted.exec_of_runsTo hruns
  have hcrashed : s.loop.crashed = some (.systemError .EINTR "epoll_wait failed") := by
    simpa using hcheck
  refine ⟨s, tr, hexec, hcrashed, ?_⟩
  rintro ⟨t, tr', hexec', halike, -⟩
  have hsleeps : Hosted.runsTo oneListener (listenerCode 5) 0 .init
      (fun _ s => s.loop.crashed.isNone) [.loop (.loop .none)] = true := by decide +kernel
  obtain ⟨tr'', t', hexec'', hcheck'⟩ := Hosted.exec_of_runsTo hsleeps
  obtain ⟨rfl, -⟩ := Prod.mk.inj (Option.some.inj (hexec'.symm.trans hexec''))
  rw [halike.1, hcrashed] at hcheck'
  exact absurd hcheck' (by simp)

end Libael
