import Mathlib.Data.List.Basic
import Mathlib.Logic.Relation

/-!
# Libael.Lts.Run

**Labelled transition systems with observations.** A `System` is a partial step
function: `step l s` is the state after the transition labelled `l` together with
what that transition shows to the outside, or `none` where `l` is disabled. All
nondeterminism sits in the labels, so a concrete schedule is a list of labels and
can be evaluated (`exec`).

A run carries the trace of everything shown so far, and may be *guarded*: every
step has to satisfy a condition on the label and the state before it. Safety
properties are proved once, by `GuardedRun.invariant`, from an invariant relating
the trace to the state. A `Segment` is the part of a run from a chosen first step
for as long as a predicate (the *busy* predicate) holds.
-/

namespace Libael.Lts

/-- A transition system: `step l s` is the successor of `s` under the label `l`
and the list of observations of that transition. -/
structure System (σ ℓ ο : Type*) where
  step : ℓ → σ → Option (σ × List ο)

variable {σ ℓ ο : Type*}

/-- Runs from `s₀` whose every step satisfies `ok`, with their trace. -/
inductive GuardedRun (sys : System σ ℓ ο) (ok : ℓ → σ → Prop) (s₀ : σ) : List ο → σ → Prop
  | refl : GuardedRun sys ok s₀ [] s₀
  | step {tr s l s' o} : GuardedRun sys ok s₀ tr s → ok l s → sys.step l s = some (s', o) →
      GuardedRun sys ok s₀ (tr ++ o) s'

/-- Runs without a guard. -/
abbrev Run (sys : System σ ℓ ο) : σ → List ο → σ → Prop :=
  GuardedRun sys (fun _ _ => True)

namespace GuardedRun

variable {sys : System σ ℓ ο} {ok : ℓ → σ → Prop} {s₀ s : σ} {tr : List ο}

/-- **The invariant rule.** The step case may use that the state is reachable by
a guarded run itself. -/
theorem invariant {I : List ο → σ → Prop} (hinit : I [] s₀)
    (hstep : ∀ {tr s l s' o}, GuardedRun sys ok s₀ tr s → I tr s → ok l s →
      sys.step l s = some (s', o) → I (tr ++ o) s')
    (h : GuardedRun sys ok s₀ tr s) : I tr s := by
  induction h with
  | refl => exact hinit
  | step hrun hok hs ih => exact hstep hrun ih hok hs

/-- Weakening the guard. -/
theorem mono {ok' : ℓ → σ → Prop} (himp : ∀ l s, ok l s → ok' l s)
    (h : GuardedRun sys ok s₀ tr s) : GuardedRun sys ok' s₀ tr s := by
  induction h with
  | refl => exact .refl
  | step _ hok hs ih => exact .step ih (himp _ _ hok) hs

/-- A guarded run is a run. -/
theorem toRun (h : GuardedRun sys ok s₀ tr s) : Run sys s₀ tr s :=
  h.mono fun _ _ _ => trivial

/-- Everything a run shows is shown by one of its steps. -/
theorem exists_step_of_mem {x : ο} (h : GuardedRun sys ok s₀ tr s) (hx : x ∈ tr) :
    ∃ tr₁ s₁ l s₂ o, GuardedRun sys ok s₀ tr₁ s₁ ∧ ok l s₁ ∧
      sys.step l s₁ = some (s₂, o) ∧ x ∈ o ∧ tr₁ ++ o <+: tr := by
  induction h with
  | refl => exact absurd hx List.not_mem_nil
  | @step tr s l s' o hrun hok hs ih =>
      rcases List.mem_append.mp hx with hx | hx
      · obtain ⟨tr₁, s₁, l₁, s₂, o₁, h₁, hok₁, hs₁, hx₁, hpre⟩ := ih hx
        exact ⟨tr₁, s₁, l₁, s₂, o₁, h₁, hok₁, hs₁, hx₁, hpre.trans (List.prefix_append _ _)⟩
      · exact ⟨tr, s, l, s', o, hrun, hok, hs, hx, List.prefix_refl _⟩

/-- **The order rule.** `R` holds between everything shown and everything shown
later, if it does within a step and across a step. -/
theorem pairwise {R : ο → ο → Prop}
    (hstep : ∀ {tr s l s' o}, GuardedRun sys ok s₀ tr s → ok l s → sys.step l s = some (s', o) →
      o.Pairwise R ∧ ∀ x ∈ tr, ∀ y ∈ o, R x y)
    (h : GuardedRun sys ok s₀ tr s) : tr.Pairwise R := by
  induction h with
  | refl => exact .nil
  | step hrun hok hs ih =>
      obtain ⟨hin, hacross⟩ := hstep hrun hok hs
      exact List.pairwise_append.mpr ⟨ih, hin, hacross⟩

/-- **The precedence rule.** `y` is never shown before `x`, if no step shows it first. -/
theorem precedes {x y : ο}
    (hstep : ∀ {tr s l s' o}, GuardedRun sys ok s₀ tr s → ok l s → sys.step l s = some (s', o) →
      ∀ before later, o = before ++ y :: later → x ∈ tr ++ before)
    (h : GuardedRun sys ok s₀ tr s) : ∀ before later, tr = before ++ y :: later → x ∈ before := by
  induction h with
  | refl =>
      intro before later heq
      exact absurd heq (by simp)
  | @step tr s l s' o hrun hok hs ih =>
      intro before later heq
      rcases List.append_eq_append_iff.mp heq with ⟨mid, hbefore, ho⟩ | ⟨mid, htr, hlater⟩
      · rw [hbefore]
        exact hstep hrun hok hs mid later ho
      · cases mid with
        | nil =>
            have hx := hstep hrun hok hs [] later (by simpa using hlater.symm)
            rw [htr] at hx
            simpa using hx
        | cons z mid =>
            obtain ⟨rfl, -⟩ := List.cons.inj hlater
            exact ih before mid htr

/-- Runs compose. -/
theorem trans {s₁ s₂ : σ} {tr₁ tr₂ : List ο} (h₁ : GuardedRun sys ok s₀ tr₁ s₁)
    (h₂ : GuardedRun sys ok s₁ tr₂ s₂) : GuardedRun sys ok s₀ (tr₁ ++ tr₂) s₂ := by
  induction h₂ with
  | refl => simpa using h₁
  | step _ hok hs ih => rw [← List.append_assoc]; exact .step ih hok hs

/-- **The refinement rule.** When `abs` maps every step to steps of `R`, it maps
every run to a run of `R`. -/
theorem refines {τ : Type*} {R : τ → τ → Prop} (abs : List ο → σ → τ)
    (hstep : ∀ {tr s l s' o}, GuardedRun sys ok s₀ tr s → ok l s →
      sys.step l s = some (s', o) → Relation.ReflTransGen R (abs tr s) (abs (tr ++ o) s'))
    (h : GuardedRun sys ok s₀ tr s) : Relation.ReflTransGen R (abs [] s₀) (abs tr s) := by
  induction h with
  | refl => exact .refl
  | step hrun hok hs ih => exact ih.trans (hstep hrun hok hs)

/-- **The simulation rule.** When `proj` and `image` take every step of a system to steps of
another one, they take every run to a run of the other. -/
theorem simulates {σ' ℓ' ο' : Type*} {sys' : System σ' ℓ' ο'} {ok' : ℓ' → σ' → Prop}
    (proj : σ → σ') (image : ο → List ο')
    (hstep : ∀ {tr s l s' o}, GuardedRun sys ok s₀ tr s → ok l s → sys.step l s = some (s', o) →
      GuardedRun sys' ok' (proj s) (o.flatMap image) (proj s'))
    (h : GuardedRun sys ok s₀ tr s) :
    GuardedRun sys' ok' (proj s₀) (tr.flatMap image) (proj s) := by
  induction h with
  | refl => exact .refl
  | step hrun hok hs ih =>
      rw [List.flatMap_append]
      exact ih.trans (hstep hrun hok hs)

end GuardedRun

/-! ### Evaluating a schedule -/

/-- Take the steps labelled by a list, each of which has to pass `check`, collecting
the observations. -/
def exec (sys : System σ ℓ ο) (check : ℓ → σ → Bool) : List ℓ → σ → Option (σ × List ο)
  | [], s => some (s, [])
  | l :: ls, s =>
    if check l s then
      match sys.step l s with
      | none => none
      | some (s', o) => (exec sys check ls s').map fun r => (r.1, o ++ r.2)
    else none

/-- A schedule that evaluates is a run, guarded by what `check` decides. -/
theorem GuardedRun.of_exec {sys : System σ ℓ ο} {ok : ℓ → σ → Prop} {check : ℓ → σ → Bool}
    (hcheck : ∀ l s, check l s = true → ok l s) : ∀ {ls : List ℓ} {s s' : σ} {tr : List ο},
    exec sys check ls s = some (s', tr) → GuardedRun sys ok s tr s'
  | [], s, s', tr, h => by
      obtain ⟨rfl, rfl⟩ : s = s' ∧ [] = tr := by simpa [exec] using h
      exact .refl
  | l :: ls, s, s', tr, h => by
      unfold exec at h
      split at h
      case isFalse => exact absurd h (by simp)
      case isTrue hl =>
        cases hs : sys.step l s with
        | none => simp [hs] at h
        | some r =>
            obtain ⟨s₁, o⟩ := r
            simp only [hs, Option.map_eq_some_iff] at h
            obtain ⟨⟨s₂, tr₂⟩, hrest, heq⟩ := h
            obtain ⟨rfl, rfl⟩ : s₂ = s' ∧ o ++ tr₂ = tr := by simpa using heq
            have hone : GuardedRun sys ok s ([] ++ o) s₁ := .step .refl (hcheck l s hl) hs
            exact GuardedRun.trans (by simpa using hone) (GuardedRun.of_exec hcheck hrest)

/-! ### Segments -/

/-- The part of a guarded run that starts with a step labelled by `first` from `s₁` and
goes on for as long as the state is `busy`. -/
inductive Segment (sys : System σ ℓ ο) (ok : ℓ → σ → Prop) (busy : σ → Prop) (first : ℓ) (s₁ : σ) :
    List ο → σ → Prop
  | start {s o} : ok first s₁ → sys.step first s₁ = some (s, o) → Segment sys ok busy first s₁ o s
  | step {tr s l s' o} : Segment sys ok busy first s₁ tr s → busy s → ok l s →
      sys.step l s = some (s', o) → Segment sys ok busy first s₁ (tr ++ o) s'

namespace Segment

variable {sys : System σ ℓ ο} {ok : ℓ → σ → Prop} {busy : σ → Prop} {first : ℓ} {s₁ s : σ}
  {tr : List ο}

/-- A segment is a run. -/
theorem toRun (h : Segment sys ok busy first s₁ tr s) : GuardedRun sys ok s₁ tr s := by
  induction h with
  | start hok hs =>
      have hone : GuardedRun sys ok s₁ ([] ++ _) _ := .step .refl hok hs
      simpa using hone
  | step _ _ hok hs ih => exact .step ih hok hs

/-- A segment goes on with any run of busy states. -/
theorem extend {tr' : List ο} {s' : σ} (h : Segment sys ok busy first s₁ tr s)
    (h' : GuardedRun sys (fun l s => busy s ∧ ok l s) s tr' s') :
    Segment sys ok busy first s₁ (tr ++ tr') s' := by
  induction h' with
  | refl => simpa using h
  | step _ hok hs ih =>
      rw [← List.append_assoc]
      exact .step ih hok.1 hok.2 hs

/-- The invariant rule for segments. -/
theorem invariant {I : List ο → σ → Prop}
    (hstart : ∀ {s o}, ok first s₁ → sys.step first s₁ = some (s, o) → I o s)
    (hstep : ∀ {tr s l s' o}, Segment sys ok busy first s₁ tr s → I tr s → busy s → ok l s →
      sys.step l s = some (s', o) → I (tr ++ o) s')
    (h : Segment sys ok busy first s₁ tr s) : I tr s := by
  induction h with
  | start hok hs => exact hstart hok hs
  | step hseg hbusy hok hs ih => exact hstep hseg ih hbusy hok hs

end Segment

end Libael.Lts
