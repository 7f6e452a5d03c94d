import Mathlib.Data.Finset.Card
import Libael.Lts.Run

/-!
# Libael.LoopTable

`EventLoop::Create` and `EventLoop::DestroyAll` (`lib/event_loop.cc`): any number of threads
create event loops and destroy all of them, and the table of the loops is the one thing they
share. **A loop is published in the table before its thread exists**, so a `DestroyAll` that
swaps the table in between stops a loop without a thread. Where none does, every loop is
stopped and joined once.

* The calls of `DestroyAll` come from threads that are not loop threads. A loop is a thread here
  that ends some time after `stop_` is set.
* `Inv` places every loop: not in the table yet, in the table, held by the one call of
  `DestroyAll` that has swapped it out, or joined. `Step` inverts the step function, and each
  clause of `Inv` has a lemma that names the steps that matter to it.
* `StopsStarted` is the condition on the state before a step under which `Inv` is kept, and
  `Published` one on the swaps alone that implies it.
* The counts of `Stop` and `join` in the trace follow from the flags they set, and a call that
  has swapped the table can go on to its end from any state of such a run (`Inv.returns`).
-/

namespace Libael

open Lts

abbrev LoopId := Nat

/-- A call of `DestroyAll`. -/
abbrev CallId := Nat

/-- How far `EventLoop::Create` is with a loop. -/
inductive CreatePhase
  | uncalled
  /-- the `EventLoop` exists -/
  | constructed
  /-- it is in the table -/
  | inserted
  /-- its thread is started, and the call returns -/
  | returned
  deriving DecidableEq

/-- `thread_` -/
inductive LoopThread
  | null
  | running
  /-- `Run` has returned -/
  | finished
  | joined
  deriving DecidableEq

/-- How far a call of `DestroyAll` is. -/
inductive DestroyPhase
  | uncalled
  /-- between two calls of `Stop`, with these loops of `table_swap` left -/
  | stopping (tableSwap : Finset LoopId)
  /-- in `Stop`, before `thread_->join()` -/
  | joining (c : LoopId) (tableSwap : Finset LoopId)
  | returned

/-- The loops that a call of `DestroyAll` has taken out of the table and not called `Stop` on. -/
def DestroyPhase.remaining : DestroyPhase → Finset LoopId
  | .stopping tableSwap | .joining _ tableSwap => tableSwap
  | .uncalled | .returned => ∅

/-- The loop whose thread a call of `DestroyAll` waits for. -/
def DestroyPhase.current : DestroyPhase → Option LoopId
  | .joining c _ => some c
  | .uncalled | .stopping _ | .returned => none

/-- The call of `DestroyAll` has taken the loop out of the table, and not joined it. -/
def DestroyPhase.Holds (p : DestroyPhase) (c : LoopId) : Prop :=
  c ∈ p.remaining ∨ p.current = some c

/-- The event loops of a process. -/
structure LoopTable where
  create : LoopId → CreatePhase
  thread : LoopId → LoopThread
  /-- `stop_` -/
  stop : LoopId → Bool
  table : Finset LoopId
  destroy : CallId → DestroyPhase
  /-- a null pointer has been dereferenced, or a thread joined twice -/
  crashed : Bool

/-- The steps of the calls, and of the threads of the loops. -/
inductive TableLabel
  | construct (c : LoopId)
  | insert (c : LoopId)
  | start (c : LoopId)
  | swap (d : CallId)
  | stop (d : CallId) (c : LoopId)
  | join (d : CallId)
  | destroyed (d : CallId)
  /-- `Run` returns -/
  | finish (c : LoopId)

/-- What is seen of the calls. -/
inductive TableObs
  /-- `Create` returns -/
  | created (c : LoopId)
  | swapped (d : CallId) (table : Finset LoopId)
  /-- `Stop` is called -/
  | stop (c : LoopId)
  /-- `thread_->join()` returns -/
  | joined (c : LoopId)
  /-- `DestroyAll` returns -/
  | destroyed (d : CallId)
  deriving DecidableEq

namespace LoopTable

/-- No loop has been created, and no call of `DestroyAll` has been made. -/
def init : LoopTable :=
  { create := fun _ => .uncalled, thread := fun _ => .null, stop := fun _ => false, table := ∅,
    destroy := fun _ => .uncalled, crashed := false }

/-- One step of one of the calls or threads. -/
def step (l : TableLabel) (s : LoopTable) : Option (LoopTable × List TableObs) :=
  if s.crashed then none
  else
    match l with
    | .construct c =>
      match s.create c with
      | .uncalled => some ({ s with create := Function.update s.create c .constructed }, [])
      | _ => none
    | .insert c =>
      match s.create c with
      | .constructed =>
        some ({ s with create := Function.update s.create c .inserted, table := insert c s.table },
          [])
      | _ => none
    | .start c =>
      match s.create c with
      | .inserted =>
        some ({ s with
          create := Function.update s.create c .returned
          thread := Function.update s.thread c .running }, [.created c])
      | _ => none
    | .swap d =>
      match s.destroy d with
      | .uncalled =>
        some ({ s with destroy := Function.update s.destroy d (.stopping s.table), table := ∅ },
          [.swapped d s.table])
      | _ => none
    | .stop d c =>
      match s.destroy d with
      | .stopping tableSwap =>
        if c ∈ tableSwap then
          some ({ s with
            stop := Function.update s.stop c true
            destroy := Function.update s.destroy d (.joining c (tableSwap.erase c)) }, [.stop c])
        else none
      | _ => none
    | .join d =>
      match s.destroy d with
      | .joining c tableSwap =>
        match s.thread c with
        | .finished =>
          some ({ s with
            thread := Function.update s.thread c .joined
            destroy := Function.update s.destroy d (.stopping tableSwap) }, [.joined c])
        | .running => none
        | .null | .joined => some ({ s with crashed := true }, [])
      | _ => none
    | .destroyed d =>
      match s.destroy d with
      | .stopping tableSwap =>
        if tableSwap = ∅ then
          some ({ s with destroy := Function.update s.destroy d .returned }, [.destroyed d])
        else none
      | _ => none
    | .finish c =>
      if s.thread c = .running ∧ s.stop c = true then
        some ({ s with thread := Function.update s.thread c .finished }, [])
      else none

end LoopTable

/-- Creation and destruction of event loops. -/
def tableSystem : System LoopTable TableLabel TableObs := ⟨LoopTable.step⟩

namespace LoopTable

section

variable {s s' : LoopTable} {l : TableLabel} {tr o : List TableObs}

/-! ### Inversion -/

/-- Everything a step can do, guards included. -/
inductive Step (s : LoopTable) : TableLabel → LoopTable → List TableObs → Prop
  /-- `Create` constructs the loop -/
  | construct {c} : s.create c = .uncalled →
      Step s (.construct c) { s with create := Function.update s.create c .constructed } []
  /-- it puts the loop into the table -/
  | insert {c} : s.create c = .constructed →
      Step s (.insert c)
        { s with create := Function.update s.create c .inserted, table := insert c s.table } []
  /-- it starts the thread, and returns -/
  | start {c} : s.create c = .inserted →
      Step s (.start c) { s with
        create := Function.update s.create c .returned
        thread := Function.update s.thread c .running } [.created c]
  /-- `DestroyAll` swaps the table for an empty one -/
  | swap {d} : s.destroy d = .uncalled →
      Step s (.swap d)
        { s with destroy := Function.update s.destroy d (.stopping s.table), table := ∅ }
        [.swapped d s.table]
  /-- it calls `Stop` on one of the loops it has got -/
  | stop {d c tableSwap} : s.destroy d = .stopping tableSwap → c ∈ tableSwap →
      Step s (.stop d c) { s with
        stop := Function.update s.stop c true
        destroy := Function.update s.destroy d (.joining c (tableSwap.erase c)) } [.stop c]
  /-- the thread of that loop has ended, and is joined -/
  | join {d c tableSwap} : s.destroy d = .joining c tableSwap → s.thread c = .finished →
      Step s (.join d) { s with
        thread := Function.update s.thread c .joined
        destroy := Function.update s.destroy d (.stopping tableSwap) } [.joined c]
  /-- there is no thread to join -/
  | crash {d c tableSwap} : s.destroy d = .joining c tableSwap →
      s.thread c = .null ∨ s.thread c = .joined → Step s (.join d) { s with crashed := true } []
  /-- `DestroyAll` has gone through its loops -/
  | destroyed {d} : s.destroy d = .stopping ∅ →
      Step s (.destroyed d) { s with destroy := Function.update s.destroy d .returned }
        [.destroyed d]
  /-- a thread sees that `stop_` is set, and ends -/
  | finish {c} : s.thread c = .running → s.stop c = true →
      Step s (.finish c) { s with thread := Function.update s.thread c .finished } []

/-- Every step is one of `Step`, and is taken before a crash. -/
theorem step_inv (h : step l s = some (s', o)) : s.crashed = false ∧ Step s l s' o := by
  unfold step at h
  split at h
  · exact absurd h (by simp)
  rename_i hc
  refine ⟨by simpa using hc, ?_⟩
  cases l with
  | construct c =>
      dsimp only at h
      split at h
      · rename_i hcreate
        obtain ⟨rfl, rfl⟩ := Prod.mk.inj (Option.some.inj h)
        exact .construct hcreate
      · exact absurd h (by simp)
  | insert c =>
      dsimp only at h
      split at h
      · rename_i hcreate
        obtain ⟨rfl, rfl⟩ := Prod.mk.inj (Option.some.inj h)
        exact .insert hcreate
      · exact absurd h (by simp)
  | start c =>
      dsimp only at h
      split at h
      · rename_i hcreate
        obtain ⟨rfl, rfl⟩ := Prod.mk.inj (Option.some.inj h)
        exact .start hcreate
      · exact absurd h (by simp)
  | swap d =>
      dsimp only at h
      split at h
      · rename_i hdestroy
        obtain ⟨rfl, rfl⟩ := Prod.mk.inj (Option.some.inj h)
        exact .swap hdestroy
      · exact absurd h (by simp)
  | stop d c =>
      dsimp only at h
      split at h
      · rename_i tableSwap hdestroy
        split at h
        · rename_i hmem
          obtain ⟨rfl, rfl⟩ := Prod.mk.inj (Option.some.inj h)
          exact .stop hdestroy hmem
        · exact absurd h (by simp)
      · exact absurd h (by simp)
  | join d =>
      dsimp only at h
      split at h
      · rename_i c tableSwap hdestroy
        split at h
        · rename_i hthread
          obtain ⟨rfl, rfl⟩ := Prod.mk.inj (Option.some.inj h)
          exact .join hdestroy hthread
        · exact absurd h (by simp)
        · rename_i hthread
          obtain ⟨rfl, rfl⟩ := Prod.mk.inj (Option.some.inj h)
          exact .crash hdestroy (.inl hthread)
        · rename_i hthread
          obtain ⟨rfl, rfl⟩ := Prod.mk.inj (Option.some.inj h)
          exact .crash hdestroy (.inr hthread)
      · exact absurd h (by simp)
  | destroyed d =>
      dsimp only at h
      split at h
      · rename_i tableSwap hdestroy
        split at h
        · rename_i hempty
          subst hempty
          obtain ⟨rfl, rfl⟩ := Prod.mk.inj (Option.some.inj h)
          exact .destroyed hdestroy
        · exact absurd h (by simp)
      · exact absurd h (by simp)
  | finish c =>
      dsimp only at h
      split at h
      · rename_i hcond
        obtain ⟨rfl, rfl⟩ := Prod.mk.inj (Option.some.inj h)
        exact .finish hcond.1 hcond.2
      · exact absurd h (by simp)

/-! ### The invariant -/

/-- `Stop` is not called on a loop that `Create` has put in the table and not started. -/
def StopsStarted (l : TableLabel) (s : LoopTable) : Prop :=
  match l with
  | .stop _ c => s.create c ≠ .inserted
  | _ => True

instance (l : TableLabel) (s : LoopTable) : Decidable (StopsStarted l s) :=
  match l with
  | .stop _ c => inferInstanceAs (Decidable (s.create c ≠ .inserted))
  | .construct _ | .insert _ | .start _ | .swap _ | .join _ | .destroyed _ | .finish _ =>
    .isTrue trivial

/-- What holds of the loops and the calls at all times, if `Stop` comes after the start. -/
structure Inv (s : LoopTable) : Prop where
  notCrashed : s.crashed = false
  thread_null : ∀ c, s.thread c = .null ↔ s.create c ≠ .returned
  thread_of_not_stop : ∀ c, s.stop c = false → s.thread c = .null ∨ s.thread c = .running
  created_of_stop : ∀ c, s.stop c = true → s.create c = .returned
  table : ∀ c ∈ s.table, (s.create c = .inserted ∨ s.create c = .returned) ∧ s.stop c = false
  remaining : ∀ d, ∀ c ∈ (s.destroy d).remaining,
    (s.create c = .inserted ∨ s.create c = .returned) ∧ s.stop c = false
  current : ∀ d c, (s.destroy d).current = some c → s.stop c = true ∧ s.thread c ≠ .joined
  /-- a loop is in one place -/
  table_holds : ∀ d, ∀ c ∈ s.table, ¬ (s.destroy d).Holds c
  current_remaining : ∀ d c, (s.destroy d).current = some c → c ∉ (s.destroy d).remaining
  holds_unique : ∀ d d' c, (s.destroy d).Holds c → (s.destroy d').Holds c → d = d'
  /-- and in none only before `insert` and after the join -/
  placed : ∀ c, s.create c = .inserted ∨ s.create c = .returned →
    c ∈ s.table ∨ (∃ d, (s.destroy d).Holds c) ∨ s.thread c = .joined

/-- The invariant holds at the beginning. -/
theorem inv_init : Inv init where
  notCrashed := rfl
  thread_null c := by simp [init]
  thread_of_not_stop c _ := .inl rfl
  created_of_stop c h := by simp [init] at h
  table c h := by simp [init] at h
  remaining d c h := by simp [init, DestroyPhase.remaining] at h
  current d c h := by simp [init, DestroyPhase.current] at h
  table_holds d c h := by simp [init] at h
  current_remaining d c h := by simp [init, DestroyPhase.current] at h
  holds_unique d d' c h := by
    simp [init, DestroyPhase.Holds, DestroyPhase.remaining, DestroyPhase.current] at h
  placed c h := by simp [init] at h

attribute [local grind] DestroyPhase.remaining DestroyPhase.current DestroyPhase.Holds
attribute [local grind =] Function.update_apply

/-- A loop that a call has taken stays with the call until it is joined. -/
theorem Inv.holds_or_joined (h : Inv s) (hstep : Step s l s' o) {d : CallId} {c : LoopId}
    (hheld : (s.destroy d).Holds c ∨ s.thread c = .joined) :
    (s'.destroy d).Holds c ∨ s'.thread c = .joined := by
  have hnull := h.thread_null c
  cases hstep with
  | @stop d' c' tableSwap hd hmem =>
      -- the loop that is stopped moves from the rest of the table to the one waited for
      by_cases hdd : d = d'
      · subst hdd
        by_cases hcc : c = c'
        · exact .inl (.inr (by simp [DestroyPhase.current, hcc]))
        · rcases hheld with hheld | hjoined
          · refine .inl (.inl ?_)
            simp only [hd, DestroyPhase.Holds, DestroyPhase.current,
              DestroyPhase.remaining] at hheld
            simpa [DestroyPhase.remaining, hcc] using hheld
          · exact .inr hjoined
      · simpa [Function.update_of_ne hdd] using hheld
  | @join d' c' tableSwap hd hfin =>
      by_cases hcc : c = c'
      · exact .inr (by simp [hcc])
      · simp only [Function.update_of_ne hcc]
        by_cases hdd : d = d'
        · subst hdd
          rcases hheld with hheld | hjoined
          · refine .inl (.inl ?_)
            simp only [hd, DestroyPhase.Holds, DestroyPhase.current, DestroyPhase.remaining,
              Option.some.injEq] at hheld
            simpa [DestroyPhase.remaining] using hheld.resolve_right fun heq => hcc heq.symm
          · exact .inr hjoined
        · simpa [Function.update_of_ne hdd] using hheld
  | swap hd => grind
  | destroyed hd => grind
  | start hc => grind
  | finish hrun hstop => grind
  | construct hc | insert hc | crash hd hbad => exact hheld

/-- Only a `Stop` of a loop without a thread ends in a crash, and no call is before one. -/
theorem Inv.notCrashed_step (h : Inv s) (hstep : Step s l s' o) : s'.crashed = false := by
  have hcrashed := h.notCrashed
  cases hstep with
  | @crash d c tableSwap hd hbad =>
      -- the thread is neither null nor joined
      have hcurrent : (s.destroy d).current = some c := by rw [hd]; rfl
      obtain ⟨hstop, hne⟩ := h.current d c hcurrent
      rcases hbad with hnull | hjoined
      · exact absurd (h.created_of_stop c hstop) ((h.thread_null c).mp hnull)
      · exact absurd hjoined hne
  | _ => exact hcrashed

/-- A loop gets its thread in the step in which its `Create` returns. -/
theorem Inv.thread_null_step (h : Inv s) (hstep : Step s l s' o) (c : LoopId) :
    s'.thread c = .null ↔ s'.create c ≠ .returned := by
  have hnull := h.thread_null c
  cases hstep with
  | @start c' hc =>
      by_cases hcc : c = c'
      · subst hcc
        simp
      · simpa [Function.update_of_ne hcc] using hnull
  | @construct c' hc | @insert c' hc =>
      by_cases hcc : c = c'
      · subst hcc
        simpa using hnull.mpr (by simp [hc])
      · simpa [Function.update_of_ne hcc] using hnull
  | @join d c' tableSwap hd hend | @finish c' hend hstop =>
      -- the thread stays one that has been started
      by_cases hcc : c = c'
      · subst hcc
        have hreturned : s.create c = .returned :=
          Decidable.byContradiction fun hne => absurd (hnull.mpr hne) (by simp [hend])
        simp [hreturned]
      · simpa [Function.update_of_ne hcc] using hnull
  | swap hd | stop hd hmem | crash hd hbad | destroyed hd => exact hnull

/-- Without `Stop`, no thread ends. -/
theorem Inv.thread_of_not_stop_step (h : Inv s) (hstep : Step s l s' o) (c : LoopId) :
    s'.stop c = false → s'.thread c = .null ∨ s'.thread c = .running := by
  have hthread := h.thread_of_not_stop c
  cases hstep with
  | @stop d c' tableSwap hd hmem =>
      by_cases hcc : c = c'
      · subst hcc
        simp
      · simpa [Function.update_of_ne hcc] using hthread
  | @join d c' tableSwap hd hfin =>
      -- the thread that is joined is one on whose loop `Stop` has been called
      have hstop := (h.current d c' (by simp [hd, DestroyPhase.current])).1
      by_cases hcc : c = c'
      · subst hcc
        simp [hstop]
      · simpa [Function.update_of_ne hcc] using hthread
  | @finish c' hrun hstop =>
      by_cases hcc : c = c'
      · subst hcc
        simp [hstop]
      · simpa [Function.update_of_ne hcc] using hthread
  | @start c' hc =>
      by_cases hcc : c = c'
      · subst hcc
        simp
      · simpa [Function.update_of_ne hcc] using hthread
  | construct hc | insert hc | swap hd | crash hd hbad | destroyed hd => exact hthread

/-- `Stop` is called on a loop that a call of `DestroyAll` holds, and that is started. -/
theorem Inv.created_of_stop_step (h : Inv s) (hok : StopsStarted l s) (hstep : Step s l s' o)
    (c : LoopId) : s'.stop c = true → s'.create c = .returned := by
  have hcreated := h.created_of_stop c
  cases hstep with
  | @stop d c' tableSwap hd hmem =>
      have hplaced := (h.remaining d c' (by simpa [hd, DestroyPhase.remaining])).1
      by_cases hcc : c = c'
      · subst hcc
        exact fun _ => hplaced.resolve_left hok
      · simpa [Function.update_of_ne hcc] using hcreated
  | @construct c' hc | @insert c' hc =>
      by_cases hcc : c = c'
      · subst hcc
        exact fun hstop => absurd (hc.symm.trans (hcreated hstop)) (by simp)
      · simpa [Function.update_of_ne hcc] using hcreated
  | @start c' hc =>
      by_cases hcc : c = c'
      · subst hcc
        simp
      · simpa [Function.update_of_ne hcc] using hcreated
  | swap hd | join hd hfin | crash hd hbad | destroyed hd | finish hrun hstop => exact hcreated

/-- A loop is in the table from `insert` on, and until the swap nobody has called `Stop`. -/
theorem Inv.table_step (h : Inv s) (hstep : Step s l s' o) (c : LoopId) (hc : c ∈ s'.table) :
    (s'.create c = .inserted ∨ s'.create c = .returned) ∧ s'.stop c = false := by
  have htable := h.table c
  cases hstep with
  | @insert c' hcreate =>
      by_cases hcc : c = c'
      · subst hcc
        refine ⟨.inl (by simp), Bool.eq_false_iff.mpr fun hstop => ?_⟩
        exact absurd (hcreate.symm.trans (h.created_of_stop c hstop)) (by simp)
      · have hin : c ∈ s.table := Finset.mem_of_mem_insert_of_ne hc hcc
        simpa [Function.update_of_ne hcc] using htable hin
  | swap hd => exact absurd hc (Finset.notMem_empty c)
  | @stop d c' tableSwap hd hmem =>
      -- the loop that is stopped is held by the call, and so not in the table
      by_cases hcc : c = c'
      · subst hcc
        exact absurd (.inl (by simpa [hd, DestroyPhase.remaining])) (h.table_holds d c hc)
      · simpa [Function.update_of_ne hcc] using htable hc
  | @construct c' hcreate =>
      by_cases hcc : c = c'
      · subst hcc
        rcases (htable hc).1 with heq | heq <;> exact absurd (hcreate.symm.trans heq) (by simp)
      · simpa [Function.update_of_ne hcc] using htable hc
  | @start c' hcreate =>
      by_cases hcc : c = c'
      · subst hcc
        exact ⟨.inr (by simp), (htable hc).2⟩
      · simpa [Function.update_of_ne hcc] using htable hc
  | join hd hfin | crash hd hbad | destroyed hd | finish hrun hstop => exact htable hc

/-- What a call of `DestroyAll` has swapped out of the table is left to it alone: the other calls
got loops of their own, and `Create` is past `insert`. -/
theorem Inv.remaining_step (h : Inv s) (hstep : Step s l s' o) (d : CallId) (c : LoopId)
    (hc : c ∈ (s'.destroy d).remaining) :
    (s'.create c = .inserted ∨ s'.create c = .returned) ∧ s'.stop c = false := by
  have hremaining := h.remaining d c
  cases hstep with
  | @swap d' hd =>
      by_cases hdd : d = d'
      · subst hdd
        exact h.table c (by simpa [DestroyPhase.remaining] using hc)
      · exact hremaining (by simpa [Function.update_of_ne hdd] using hc)
  | @stop d' c' tableSwap hd hmem =>
      have hin : c ∈ (s.destroy d).remaining ∧ c ≠ c' := by
        by_cases hdd : d = d'
        · subst hdd
          obtain ⟨hne, hin⟩ : c ≠ c' ∧ c ∈ tableSwap := by
            simpa [DestroyPhase.remaining] using hc
          exact ⟨by simpa [hd, DestroyPhase.remaining] using hin, hne⟩
        · have hin : c ∈ (s.destroy d).remaining := by
            simpa [Function.update_of_ne hdd] using hc
          refine ⟨hin, ?_⟩
          rintro rfl
          exact hdd (h.holds_unique d d' c (.inl hin)
            (.inl (by simpa [hd, DestroyPhase.remaining])))
      simpa [Function.update_of_ne hin.2] using hremaining hin.1
  | @join d' c' tableSwap hd hfin =>
      by_cases hdd : d = d'
      · subst hdd
        exact hremaining (by simpa [hd, DestroyPhase.remaining] using hc)
      · exact hremaining (by simpa [Function.update_of_ne hdd] using hc)
  | @destroyed d' hd =>
      by_cases hdd : d = d'
      · subst hdd
        exact absurd hc (by simp [DestroyPhase.remaining])
      · exact hremaining (by simpa [Function.update_of_ne hdd] using hc)
  | @construct c' hcreate =>
      by_cases hcc : c = c'
      · subst hcc
        rcases (hremaining hc).1 with heq | heq <;> exact absurd (hcreate.symm.trans heq) (by simp)
      · simpa [Function.update_of_ne hcc] using hremaining hc
  | @insert c' hcreate =>
      by_cases hcc : c = c'
      · subst hcc
        rcases (hremaining hc).1 with heq | heq <;> exact absurd (hcreate.symm.trans heq) (by simp)
      · simpa [Function.update_of_ne hcc] using hremaining hc
  | @start c' hcreate =>
      by_cases hcc : c = c'
      · subst hcc
        exact ⟨.inr (by simp), (hremaining hc).2⟩
      · simpa [Function.update_of_ne hcc] using hremaining hc
  | crash hd hbad | finish hrun hstop => exact hremaining hc

/-- The loop a call waits for has been stopped, and nobody else joins it, since no other call
holds it. -/
theorem Inv.current_step (h : Inv s) (hstep : Step s l s' o) (d : CallId) (c : LoopId)
    (hc : (s'.destroy d).current = some c) : s'.stop c = true ∧ s'.thread c ≠ .joined := by
  have hcurrent := h.current d c
  cases hstep with
  | @stop d' c' tableSwap hd hmem =>
      by_cases hdd : d = d'
      · subst hdd
        obtain rfl : c' = c := by simpa [DestroyPhase.current] using hc
        have hnew := (h.remaining d c' (by simpa [hd, DestroyPhase.remaining])).2
        refine ⟨by simp, ?_⟩
        rcases h.thread_of_not_stop c' hnew with heq | heq <;> simp [heq]
      · obtain ⟨hstop, hnot⟩ := hcurrent (by simpa [Function.update_of_ne hdd] using hc)
        refine ⟨?_, hnot⟩
        by_cases hcc : c = c'
        · simp [hcc]
        · simpa [Function.update_of_ne hcc] using hstop
  | @join d' c' tableSwap hd hfin =>
      by_cases hdd : d = d'
      · subst hdd
        exact absurd hc (by simp [DestroyPhase.current])
      · have hwaits : (s.destroy d).current = some c := by
          simpa [Function.update_of_ne hdd] using hc
        have hcc : c ≠ c' := by
          rintro rfl
          exact hdd (h.holds_unique d d' c (.inr hwaits)
            (.inr (by simp [hd, DestroyPhase.current])))
        simpa [Function.update_of_ne hcc] using hcurrent hwaits
  | @swap d' hd | @destroyed d' hd =>
      by_cases hdd : d = d'
      · subst hdd
        exact absurd hc (by simp [DestroyPhase.current])
      · exact hcurrent (by simpa [Function.update_of_ne hdd] using hc)
  | @start c' hcreate =>
      obtain ⟨hstop, hnot⟩ := hcurrent hc
      by_cases hcc : c = c'
      · subst hcc
        exact ⟨hstop, by simp⟩
      · exact ⟨hstop, by simpa [Function.update_of_ne hcc] using hnot⟩
  | @finish c' hrun hstop' =>
      obtain ⟨hstop, hnot⟩ := hcurrent hc
      by_cases hcc : c = c'
      · subst hcc
        exact ⟨hstop, by simp⟩
      · exact ⟨hstop, by simpa [Function.update_of_ne hcc] using hnot⟩
  | construct hcreate | insert hcreate | crash hd hbad => exact hcurrent hc

/-- What a call holds it has held before, or it has just swapped it out of the table. -/
theorem holds_before (hstep : Step s l s' o) {d : CallId} {c : LoopId}
    (hc : (s'.destroy d).Holds c) : (s.destroy d).Holds c ∨ l = .swap d ∧ c ∈ s.table := by
  cases hstep with
  | @swap d' hd =>
      by_cases hdd : d = d'
      · subst hdd
        exact .inr ⟨rfl, by
          simpa [DestroyPhase.Holds, DestroyPhase.remaining, DestroyPhase.current] using hc⟩
      · exact .inl (by simpa [Function.update_of_ne hdd] using hc)
  | @stop d' c' tableSwap hd hmem =>
      refine .inl ?_
      by_cases hdd : d = d'
      · subst hdd
        refine .inl ?_
        rcases hc with hc | hc
        · have hin : c ≠ c' ∧ c ∈ tableSwap := by simpa [DestroyPhase.remaining] using hc
          simpa [hd, DestroyPhase.remaining] using hin.2
        · obtain rfl : c' = c := by simpa [DestroyPhase.current] using hc
          simpa [hd, DestroyPhase.remaining] using hmem
      · simpa [Function.update_of_ne hdd] using hc
  | @join d' c' tableSwap hd hfin =>
      refine .inl ?_
      by_cases hdd : d = d'
      · subst hdd
        rcases hc with hc | hc
        · exact .inl (by simpa [hd, DestroyPhase.remaining] using hc)
        · exact absurd hc (by simp [DestroyPhase.current])
      · simpa [Function.update_of_ne hdd] using hc
  | @destroyed d' hd =>
      by_cases hdd : d = d'
      · subst hdd
        exact absurd hc (by simp [DestroyPhase.Holds, DestroyPhase.remaining, DestroyPhase.current])
      · exact .inl (by simpa [Function.update_of_ne hdd] using hc)
  | construct hc' | insert hc' | start hc' | crash hd hbad | finish hrun hstop => exact .inl hc

/-- A loop that a call holds is past `insert`. -/
theorem Inv.create_of_holds (h : Inv s) {d : CallId} {c : LoopId} (hc : (s.destroy d).Holds c) :
    s.create c = .inserted ∨ s.create c = .returned := by
  rcases hc with hc | hc
  · exact (h.remaining d c hc).1
  · exact .inr (h.created_of_stop c (h.current d c hc).1)

/-- A loop of the table is held by nobody: it leaves the table with the swap. -/
theorem Inv.table_holds_step (h : Inv s) (hstep : Step s l s' o) (d : CallId) (c : LoopId)
    (hc : c ∈ s'.table) : ¬(s'.destroy d).Holds c := by
  intro hheld
  have hbefore := holds_before hstep hheld
  cases hstep with
  | swap hd => exact Finset.notMem_empty c hc
  | @insert c' hcreate =>
      -- the loop that is put in the table is new to everybody
      have hheld : (s.destroy d).Holds c := hbefore.resolve_right (by simp)
      rcases Finset.mem_insert.mp hc with rfl | hc
      · rcases h.create_of_holds hheld with heq | heq <;>
          exact absurd (hcreate.symm.trans heq) (by simp)
      · exact h.table_holds d c hc hheld
  | construct | start | stop | join | crash | destroyed | finish =>
      exact h.table_holds d c hc (hbefore.resolve_right (by simp))

/-- The loop that a call waits for is not one of those it still has to stop. -/
theorem Inv.current_remaining_step (h : Inv s) (hstep : Step s l s' o) (d : CallId) (c : LoopId)
    (hc : (s'.destroy d).current = some c) : c ∉ (s'.destroy d).remaining := by
  have hcurrent := h.current_remaining d c
  cases hstep with
  | @stop d' c' tableSwap hd hmem =>
      -- the loop to wait for is erased from the rest
      by_cases hdd : d = d'
      · subst hdd
        obtain rfl : c' = c := by simpa [DestroyPhase.current] using hc
        simp [DestroyPhase.remaining]
      · simpa [Function.update_of_ne hdd] using
          hcurrent (by simpa [Function.update_of_ne hdd] using hc)
  | @swap d' hd | @destroyed d' hd =>
      by_cases hdd : d = d'
      · subst hdd
        exact absurd hc (by simp [DestroyPhase.current])
      · simpa [Function.update_of_ne hdd] using
          hcurrent (by simpa [Function.update_of_ne hdd] using hc)
  | @join d' c' tableSwap hd hfin =>
      by_cases hdd : d = d'
      · subst hdd
        exact absurd hc (by simp [DestroyPhase.current])
      · simpa [Function.update_of_ne hdd] using
          hcurrent (by simpa [Function.update_of_ne hdd] using hc)
  | construct | insert | start | crash | finish => exact hcurrent hc

/-- No loop is held by two calls: the table is empty behind the swap of the first. -/
theorem Inv.holds_unique_step (h : Inv s) (hstep : Step s l s' o) (d d' : CallId) (c : LoopId)
    (hd : (s'.destroy d).Holds c) (hd' : (s'.destroy d').Holds c) : d = d' := by
  rcases holds_before hstep hd with hbefore | ⟨hl, hin⟩
  · rcases holds_before hstep hd' with hbefore' | ⟨-, hin⟩
    · exact h.holds_unique d d' c hbefore hbefore'
    · exact absurd hbefore (h.table_holds d c hin)
  · rcases holds_before hstep hd' with hbefore' | ⟨hl', -⟩
    · exact absurd hbefore' (h.table_holds d' c hin)
    · exact TableLabel.swap.inj (hl.symm.trans hl')

/-- A loop that has been inserted is in one of the three places. -/
theorem Inv.placed_step (h : Inv s) (hstep : Step s l s' o) (c : LoopId)
    (hc : s'.create c = .inserted ∨ s'.create c = .returned) :
    c ∈ s'.table ∨ (∃ d, (s'.destroy d).Holds c) ∨ s'.thread c = .joined := by
  by_cases htable : c ∈ s'.table
  · exact .inl htable
  have hkept : (∃ d, (s'.destroy d).Holds c) ∨ (∃ d, (s.destroy d).Holds c) ∨
      s.thread c = .joined := by
    have hplaced := h.placed c
    cases hstep with
    | @swap d hd =>
        -- a loop of the table goes to the call that swaps it
        by_cases hin : c ∈ s.table
        · exact .inl ⟨d, .inl (by simpa [DestroyPhase.remaining] using hin)⟩
        · exact .inr ((hplaced hc).resolve_left hin)
    | construct | insert | start | stop | join | crash | destroyed | finish => grind
  rcases hkept with hheld | ⟨d, hheld⟩ | hjoined
  · exact .inr (.inl hheld)
  · exact (h.holds_or_joined hstep (.inl hheld)).elim (fun hd => .inr (.inl ⟨d, hd⟩))
      fun hj => .inr (.inr hj)
  · exact (h.holds_or_joined hstep (d := 0) (.inr hjoined)).elim (fun hd => .inr (.inl ⟨0, hd⟩))
      fun hj => .inr (.inr hj)

/-- **One step keeps the invariant**, clause by clause. -/
theorem Inv.step (h : Inv s) (hok : StopsStarted l s) (hstep : Step s l s' o) : Inv s' where
  notCrashed := h.notCrashed_step hstep
  thread_null := h.thread_null_step hstep
  thread_of_not_stop := h.thread_of_not_stop_step hstep
  created_of_stop := h.created_of_stop_step hok hstep
  table := h.table_step hstep
  remaining := h.remaining_step hstep
  current := h.current_step hstep
  table_holds := h.table_holds_step hstep
  current_remaining := h.current_remaining_step hstep
  holds_unique := h.holds_unique_step hstep
  placed := h.placed_step hstep

/-- The invariant in runs from any state. -/
theorem Inv.run {s₀ : LoopTable} (h₀ : Inv s₀) (h : GuardedRun tableSystem StopsStarted s₀ tr s) :
    Inv s := by
  induction h with
  | refl => exact h₀
  | step _ hok hs ih => exact ih.step hok (step_inv hs).2

/-! ### What a run has shown -/

/-- `Create` has returned for a loop whose thread it has started, and only for such a loop. -/
theorem created_iff {ok : TableLabel → LoopTable → Prop} (h : GuardedRun tableSystem ok init tr s)
    (c : LoopId) : .created c ∈ tr ↔ s.create c = .returned := by
  induction h with
  | refl => simp [init]
  | step _ _ hs ih =>
      have hstep := (step_inv hs).2
      cases hstep with
      | @start c' hc =>
          by_cases hcc : c = c'
          · subst hcc
            simp
          · simpa [Function.update_of_ne hcc, hcc] using ih
      | @construct c' hc | @insert c' hc =>
          by_cases hcc : c = c'
          · subst hcc
            simpa [hc] using ih
          · simpa [Function.update_of_ne hcc] using ih
      | swap | stop | join | crash | destroyed | finish => simpa using ih

/-- `Stop` has been called once on a loop whose `stop_` is set, and on no other. -/
theorem count_stop (h : GuardedRun tableSystem StopsStarted init tr s) (c : LoopId) :
    tr.count (.stop c) = if s.stop c then 1 else 0 := by
  induction h with
  | refl => simp [init]
  | step hrun _ hs ih =>
      have hinv := inv_init.run hrun
      have hstep := (step_inv hs).2
      cases hstep with
      | @stop d c' tableSwap hd hmem =>
          have hnew : _ = false := (hinv.remaining d c' (by simpa [hd, DestroyPhase.remaining])).2
          by_cases hcc : c = c'
          · subst hcc
            simp [List.count_append, ih, hnew]
          · simpa [List.count_append, Function.update_of_ne hcc, List.count_singleton,
              Ne.symm hcc] using ih
      | construct | insert | start | swap | join | crash | destroyed | finish =>
          simpa [List.count_append, List.count_singleton] using ih

/-- A thread that is joined has been joined once. -/
theorem count_joined (h : GuardedRun tableSystem StopsStarted init tr s) (c : LoopId) :
    tr.count (.joined c) = if s.thread c = .joined then 1 else 0 := by
  induction h with
  | refl => simp [init]
  | @step tr s l s' o hrun _ hs ih =>
      have hnull := (inv_init.run hrun).thread_null c
      have hstep := (step_inv hs).2
      cases hstep with
      | @join d c' tableSwap hd hfin =>
          by_cases hcc : c = c'
          · subst hcc
            simp [List.count_append, ih, hfin]
          · simpa [List.count_append, Function.update_of_ne hcc, List.count_singleton,
              Ne.symm hcc] using ih
      | @start c' hc =>
          by_cases hcc : c = c'
          · subst hcc
            simp [List.count_append, ih, hnull.mpr (by simp [hc])]
          · simpa [List.count_append, Function.update_of_ne hcc, List.count_singleton] using ih
      | @finish c' hrun hstop =>
          by_cases hcc : c = c'
          · subst hcc
            simp [ih, hrun]
          · simpa [Function.update_of_ne hcc] using ih
      | construct | insert | swap | stop | crash | destroyed =>
          simpa [List.count_append, List.count_singleton] using ih

/-- What a call has swapped out it holds until it is joined. -/
theorem swapped_held (h : GuardedRun tableSystem StopsStarted init tr s) {d : CallId}
    {table : Finset LoopId} (hswap : .swapped d table ∈ tr) :
    ∀ c ∈ table, (s.destroy d).Holds c ∨ s.thread c = .joined := by
  intro c hc
  induction h with
  | refl => exact absurd hswap List.not_mem_nil
  | step hrun _ hs ih =>
      have hinv := inv_init.run hrun
      have hstep := (step_inv hs).2
      rcases List.mem_append.mp hswap with hold | hnew
      · exact hinv.holds_or_joined hstep (ih hold)
      · cases hstep with
        | swap hd =>
            obtain ⟨rfl, rfl⟩ := TableObs.swapped.inj (List.mem_singleton.mp hnew)
            exact .inl (.inl (by simpa [DestroyPhase.remaining] using hc))
        | construct | insert | start | stop | join | crash | destroyed | finish => simp at hnew

/-- A call that has returned holds nothing. -/
theorem destroy_of_destroyed {ok : TableLabel → LoopTable → Prop}
    (h : GuardedRun tableSystem ok init tr s) {d : CallId} (hd : .destroyed d ∈ tr) :
    s.destroy d = .returned := by
  induction h with
  | refl => exact absurd hd List.not_mem_nil
  | step _ _ hs ih =>
      have hstep := (step_inv hs).2
      cases hstep with
      | @destroyed d' hd' =>
          by_cases hdd : d = d'
          · simp [hdd]
          · simpa [Function.update_of_ne hdd] using ih (by simpa [hdd] using hd)
      | @swap d' hphase | @stop d' c tableSwap hphase hmem | @join d' c tableSwap hphase hfin =>
          -- a call that takes such a step has not returned
          have hret := ih (by simpa using hd)
          by_cases hdd : d = d'
          · subst hdd
            exact absurd (hphase.symm.trans hret) (by simp)
          · simpa [Function.update_of_ne hdd] using hret
      | construct | insert | start | crash | finish => exact ih (by simpa using hd)

/-- A loop created before a swap is out of the table after it. -/
theorem held_of_created_before_swap (h : GuardedRun tableSystem StopsStarted init tr s)
    {before : List TableObs} {d : CallId} {table : Finset LoopId} {c : LoopId}
    (hpre : before ++ [.swapped d table] <+: tr) (hc : .created c ∈ before) :
    (∃ d', (s.destroy d').Holds c) ∨ s.thread c = .joined := by
  induction h with
  | refl => exact absurd (List.prefix_nil.mp hpre) (by simp)
  | @step tr s l s' o hrun hok hs ih =>
      have hinv := inv_init.run hrun
      have hstep := (step_inv hs).2
      have hold (hpre : before ++ [.swapped d table] <+: tr) :
          (∃ d', (s'.destroy d').Holds c) ∨ s'.thread c = .joined := by
        rcases ih hpre with ⟨d', hheld⟩ | hjoined
        · exact (hinv.holds_or_joined hstep (.inl hheld)).imp_left fun hd => ⟨d', hd⟩
        · exact (hinv.holds_or_joined hstep (d := d) (.inr hjoined)).imp_left fun hd => ⟨d, hd⟩
      cases hstep with
      | @swap d' hd =>
          rcases List.prefix_concat_iff.mp hpre with heq | hpre
          · obtain ⟨rfl, -⟩ := List.append_inj' heq rfl
            -- it is in a place before the step, and not in the table after it
            have hplaced := (hinv.step hok (.swap hd)).placed c (.inr ((created_iff hrun c).mp hc))
            exact hplaced.resolve_left (by simp)
          · exact hold hpre
      | construct | insert | crash | finish => exact hold (by simpa using hpre)
      | start | stop | join | destroyed =>
          exact hold ((List.prefix_concat_iff.mp hpre).resolve_left fun heq =>
            absurd (List.append_inj' heq rfl).2 (by simp))

/-- `Stop` is only called on a loop whose thread is started. -/
theorem created_before_stop (h : GuardedRun tableSystem StopsStarted init tr s)
    {before : List TableObs} {c : LoopId} (hpre : before ++ [.stop c] <+: tr) :
    .created c ∈ before := by
  induction h with
  | refl => exact absurd (List.prefix_nil.mp hpre) (by simp)
  | @step tr s l s' o hrun hok hs ih =>
      have hinv := inv_init.run hrun
      have hstep := (step_inv hs).2
      cases hstep with
      | @stop d c' tableSwap hd hmem =>
          rcases List.prefix_concat_iff.mp hpre with heq | hpre
          · obtain ⟨rfl, hlast⟩ := List.append_inj' heq rfl
            obtain rfl := TableObs.stop.inj (List.singleton_inj.mp hlast)
            have hcreate := (hinv.remaining d c (by simpa [hd, DestroyPhase.remaining])).1
            exact (created_iff hrun c).mpr (hcreate.resolve_left hok)
          · exact ih hpre
      | construct | insert | crash | finish => exact ih (by simpa using hpre)
      | start | swap | join | destroyed =>
          exact ih ((List.prefix_concat_iff.mp hpre).resolve_left fun heq =>
            absurd (List.append_inj' heq rfl).2 (by simp))

/-! ### A call of `DestroyAll` comes to its end -/

theorem step_of (hc : s.crashed = false) (h : Step s l s' o) :
    tableSystem.step l s = some (s', o) := by
  show step l s = some (s', o)
  cases h with
  | crash hd hbad => rcases hbad with hbad | hbad <;> simp [step, hc, hd, hbad]
  | construct h1 | insert h1 | start h1 | swap h1 | destroyed h1 => simp [step, hc, h1]
  | stop h1 h2 | join h1 h2 | finish h1 h2 => simp [step, hc, h1, h2]

theorem run_of (hc : s.crashed = false) (h : Step s l s' o) (hok : StopsStarted l s) :
    GuardedRun tableSystem StopsStarted s o s' := by
  have hone := GuardedRun.step .refl hok (step_of hc h)
  simpa using hone

/-- The thread that a call waits for ends, and is joined. -/
theorem Inv.joins (h : Inv s) {d : CallId} {c : LoopId} {tableSwap : Finset LoopId}
    (hd : s.destroy d = .joining c tableSwap) : ∃ tr' s',
      GuardedRun tableSystem StopsStarted s tr' s' ∧ s'.destroy d = .stopping tableSwap := by
  obtain ⟨hstop, hnot⟩ := h.current d c (by simp [hd, DestroyPhase.current])
  have hnull : s.thread c ≠ .null := fun hnull =>
    (h.thread_null c).mp hnull (h.created_of_stop c hstop)
  have hone {s₁ : LoopTable} (hc : s₁.crashed = false) (hd : s₁.destroy d = .joining c tableSwap)
      (hfin : s₁.thread c = .finished) : ∃ tr' s',
      GuardedRun tableSystem StopsStarted s₁ tr' s' ∧ s'.destroy d = .stopping tableSwap :=
    ⟨_, _, run_of hc (.join hd hfin) trivial, by simp⟩
  cases hthread : s.thread c with
  | null => exact absurd hthread hnull
  | joined => exact absurd hthread hnot
  | finished => exact hone h.notCrashed hd hthread
  | running =>
      have hfinish := run_of h.notCrashed (.finish hthread hstop) trivial
      obtain ⟨tr', s', hrest, hdone⟩ := hone (h.run hfinish).notCrashed hd (Function.update_self ..)
      exact ⟨_, s', hfinish.trans hrest, hdone⟩

/-- A loop that a call has left is started, if it was not, and `Stop` is called on it. -/
theorem Inv.stops (h : Inv s) {d : CallId} {c : LoopId} {tableSwap : Finset LoopId}
    (hd : s.destroy d = .stopping tableSwap) (hc : c ∈ tableSwap) : ∃ tr' s',
      GuardedRun tableSystem StopsStarted s tr' s' ∧
        s'.destroy d = .joining c (tableSwap.erase c) := by
  have hone {s₁ : LoopTable} (hcr : s₁.crashed = false) (hd : s₁.destroy d = .stopping tableSwap)
      (hret : s₁.create c = .returned) : ∃ tr' s',
      GuardedRun tableSystem StopsStarted s₁ tr' s' ∧
        s'.destroy d = .joining c (tableSwap.erase c) :=
    ⟨_, _, run_of hcr (.stop hd hc) (by simp [StopsStarted, hret]), by simp⟩
  rcases (h.remaining d c (by simpa [hd, DestroyPhase.remaining])).1 with hins | hret
  · have hstart := run_of h.notCrashed (.start hins) trivial
    obtain ⟨tr', s', hrest, hdone⟩ := hone (h.run hstart).notCrashed hd (Function.update_self ..)
    exact ⟨_, s', hstart.trans hrest, hdone⟩
  · exact hone h.notCrashed hd hret

/-- A call that has swapped the table can go on to its end, by itself, the threads it waits
for and the calls of `Create` it has overtaken. -/
theorem Inv.returns (h : Inv s) {d : CallId} (hd : s.destroy d ≠ .uncalled) : ∃ tr' s',
    GuardedRun tableSystem StopsStarted s tr' s' ∧ s'.destroy d = .returned := by
  -- the induction is on the number of the loops that are left
  have hstopping (n : Nat) : ∀ {s : LoopTable} {tableSwap : Finset LoopId}, Inv s →
      s.destroy d = .stopping tableSwap → tableSwap.card = n → ∃ tr' s',
        GuardedRun tableSystem StopsStarted s tr' s' ∧ s'.destroy d = .returned := by
    induction n with
    | zero =>
        intro s tableSwap h hd hcard
        obtain rfl := Finset.card_eq_zero.mp hcard
        exact ⟨_, _, run_of h.notCrashed (.destroyed hd) trivial, by simp⟩
    | succ n ih =>
        intro s tableSwap h hd hcard
        obtain ⟨c, hc⟩ := Finset.card_pos.mp (by omega : 0 < tableSwap.card)
        obtain ⟨tr₁, s₁, h₁, hd₁⟩ := h.stops hd hc
        obtain ⟨tr₂, s₂, h₂, hd₂⟩ := (h.run h₁).joins hd₁
        obtain ⟨tr₃, s₃, h₃, hd₃⟩ := ih ((h.run h₁).run h₂) hd₂
          (by rw [Finset.card_erase_of_mem hc]; omega)
        exact ⟨_, s₃, (h₁.trans h₂).trans h₃, hd₃⟩
  cases hp : s.destroy d with
  | uncalled => exact absurd hp hd
  | returned => exact ⟨[], s, .refl, hp⟩
  | stopping tableSwap => exact hstopping _ h hp rfl
  | joining c tableSwap =>
      obtain ⟨tr₁, s₁, h₁, hd₁⟩ := h.joins hp
      obtain ⟨tr₂, s₂, h₂, hd₂⟩ := hstopping _ (h.run h₁) hd₁ rfl
      exact ⟨_, s₂, h₁.trans h₂, hd₂⟩

/-! ### Where no swap overtakes a `Create` -/

/-- No loop of the table waits for its thread to be started when the table is swapped. -/
def Published (l : TableLabel) (s : LoopTable) : Prop :=
  match l with
  | .swap _ => ∀ c ∈ s.table, s.create c = .returned
  | _ => True

/-- Such a swap takes started loops only. -/
theorem stopsStarted_of_published (h : GuardedRun tableSystem Published init tr s) :
    GuardedRun tableSystem StopsStarted init tr s := by
  have hstarted : GuardedRun tableSystem StopsStarted init tr s ∧
      ∀ d, ∀ c ∈ (s.destroy d).remaining, s.create c = .returned := by
    induction h with
    | refl => exact ⟨.refl, by simp [init, DestroyPhase.remaining]⟩
    | @step tr s l s' o _ hok hs ih =>
        obtain ⟨hrun, hret⟩ := ih
        have hstep := (step_inv hs).2
        cases hstep with
        | @stop d c tableSwap hd hmem =>
            have hc := hret d c (by simpa [hd, DestroyPhase.remaining])
            refine ⟨.step hrun ?_ hs, by grind⟩
            show s.create c ≠ .inserted
            simp [hc]
        | swap hd =>
            -- what is swapped out has been started
            refine ⟨.step hrun ?_ hs, by grind [Published]⟩
            trivial
        | start hc | construct hc | insert hc =>
            refine ⟨.step hrun ?_ hs, by grind⟩
            trivial
        | join hd hfin | destroyed hd | crash hd hbad | finish hrun' hstop =>
            refine ⟨.step hrun ?_ hs, by grind⟩
            trivial
  exact hstarted.1

/-! ### Creation and destruction commute -/

/-- Creation and destruction have not got in each other's way. -/
structure Commutes (tr : List TableObs) (s : LoopTable) : Prop where
  notCrashed : s.crashed = false
  stop_started : ∀ before c, before ++ [.stop c] <+: tr → .created c ∈ before
  stop_once : ∀ c, tr.count (.stop c) ≤ 1
  joined_once : ∀ c, tr.count (.joined c) ≤ 1
  /-- a loop created before a swap is stopped and joined, or the call that has it can go on -/
  settled : ∀ before d table c, before ++ [.swapped d table] <+: tr → .created c ∈ before →
    (tr.count (.stop c) = 1 ∧ tr.count (.joined c) = 1) ∨ ∃ d', (s.destroy d').Holds c
  returns : ∀ d table, .swapped d table ∈ tr → ∃ tr' s',
    Run tableSystem s tr' s' ∧ s'.destroy d = .returned
  destroyed : ∀ d table, .swapped d table ∈ tr → .destroyed d ∈ tr →
    ∀ c ∈ table, s.thread c = .joined ∧ tr.count (.stop c) = 1 ∧ tr.count (.joined c) = 1

/-- A call that has swapped the table has been made. -/
theorem not_uncalled_of_swapped {ok : TableLabel → LoopTable → Prop}
    (h : GuardedRun tableSystem ok init tr s) {d : CallId} {table : Finset LoopId}
    (hswap : .swapped d table ∈ tr) : s.destroy d ≠ .uncalled := by
  induction h with
  | refl => exact absurd hswap List.not_mem_nil
  | step _ _ hs ih =>
      have hstep := (step_inv hs).2
      cases hstep with
      | @swap d' hphase =>
          by_cases hdd : d = d'
          · simp [hdd]
          · simpa [Function.update_of_ne hdd] using ih (by simpa [hdd] using hswap)
      | @stop d' c tableSwap hphase hmem | @join d' c tableSwap hphase hfin =>
          by_cases hdd : d = d'
          · simp [hdd]
          · simpa [Function.update_of_ne hdd] using ih (by simpa using hswap)
      | @destroyed d' hphase =>
          by_cases hdd : d = d'
          · simp [hdd]
          · simpa [Function.update_of_ne hdd] using ih (by simpa using hswap)
      | construct | insert | start | crash | finish => exact ih (by simpa using hswap)

/-- **Creation and destruction do not get in each other's way** in a run in which `Stop` comes
after the start. -/
theorem commutes (h : GuardedRun tableSystem StopsStarted init tr s) : Commutes tr s := by
  have hinv := inv_init.run h
  have hcounts {c : LoopId} (hj : s.thread c = .joined) :
      tr.count (.stop c) = 1 ∧ tr.count (.joined c) = 1 := by
    have hstop : s.stop c = true := by
      by_contra hstop
      rcases hinv.thread_of_not_stop c (by simpa using hstop) with hc | hc <;> simp [hj] at hc
    rw [count_stop h, count_joined h, if_pos hstop, if_pos hj]
    exact ⟨rfl, rfl⟩
  exact
    { notCrashed := hinv.notCrashed
      stop_started := fun before c hpre => created_before_stop h hpre
      stop_once := fun c => by rw [count_stop h]; split <;> omega
      joined_once := fun c => by rw [count_joined h]; split <;> omega
      settled := fun before d table c hpre hc =>
        (held_of_created_before_swap h hpre hc).symm.imp_left hcounts
      returns := fun d table hswap => by
        obtain ⟨tr', s', hrun, hd⟩ := hinv.returns (not_uncalled_of_swapped h hswap)
        exact ⟨tr', s', hrun.toRun, hd⟩
      destroyed := fun d table hswap hd c hc => by
        have hret := destroy_of_destroyed h hd
        have hj := (swapped_held h hswap c hc).resolve_left
          (by simp [hret, DestroyPhase.Holds, DestroyPhase.remaining, DestroyPhase.current])
        exact ⟨hj, hcounts hj⟩ }

/-- **Creation and destruction commute exactly where every `Stop` comes after the start**, and so
wherever no call of `DestroyAll` swaps the table while some `Create` has still to start its
thread. -/
theorem commutes_iff (h : Run tableSystem init tr s) :
    (Commutes tr s ↔ GuardedRun tableSystem StopsStarted init tr s) ∧
      (GuardedRun tableSystem Published init tr s → Commutes tr s) := by
  refine ⟨⟨fun hc => ?_, commutes⟩,
    fun hpublished => commutes (stopsStarted_of_published hpublished)⟩
  have hstarted := hc.stop_started
  clear hc
  induction h with
  | refl => exact .refl
  | @step tr s l s' o hrun _ hs ih =>
      have hsafe := ih fun before c hpre => hstarted before c (hpre.trans (List.prefix_append _ _))
      refine .step hsafe ?_ hs
      have hstep := (step_inv hs).2
      cases hstep with
      | @stop d c tableSwap hd hmem =>
          have hcreated := (created_iff hrun c).mp (hstarted tr c (List.prefix_refl _))
          show s.create c ≠ .inserted
          simp [hcreated]
      | construct | insert | start | swap | join | crash | destroyed | finish => trivial

/-- One loop from its creation to the end of the `DestroyAll` that joins it. -/
theorem commutes_oneLoop : ∃ tr s, .joined 0 ∈ tr ∧ TableObs.destroyed 0 ∈ tr ∧ Commutes tr s := by
  have hguarded : ∃ tr s, (.joined 0 ∈ tr ∧ TableObs.destroyed 0 ∈ tr) ∧
      GuardedRun tableSystem StopsStarted init tr s := by
    have hexec : exec tableSystem (fun l s => decide (StopsStarted l s))
      [.construct 0, .insert 0, .start 0, .swap 0, .stop 0 0, .finish 0, .join 0,
        .destroyed 0] init =
        some (_, _) := rfl
    exact ⟨_, _, by decide, .of_exec (fun _ _ hcheck => of_decide_eq_true hcheck) hexec⟩
  obtain ⟨tr, s, ⟨hj, hd⟩, hrun⟩ := hguarded
  exact ⟨tr, s, hj, hd, (commutes_iff hrun.toRun).1.mpr hrun⟩

/-- The table is swapped between `insert` and the start of the thread. -/
theorem loop_without_thread_stopped : ∃ tr s, Run tableSystem init tr s ∧
    .stop 0 ∈ tr ∧ .created 0 ∉ tr ∧ s.crashed = true ∧ ¬ Commutes tr s := by
  have hrun : ∃ tr s, Run tableSystem init tr s ∧ .stop 0 ∈ tr ∧ .created 0 ∉ tr ∧
      s.crashed = true := by
    have hexec : exec tableSystem (fun _ _ => true)
      [.construct 0, .insert 0, .swap 0, .stop 0 0, .join 0] init = some (_, _) := rfl
    exact ⟨_, _, .of_exec (fun _ _ _ => trivial) hexec, by decide, by decide, rfl⟩
  obtain ⟨tr, s, h, hstop, hcreated, hcrash⟩ := hrun
  refine ⟨tr, s, h, hstop, hcreated, hcrash, fun hc => ?_⟩
  exact absurd hc.notCrashed (by simp [hcrash])

end

end LoopTable

end Libael
