import Libael.Lts.Run

/-!
# Libael.Lts.Spec

**What a system is for**, said without its inner workings: a specification tells what may be shown
in a state and what state follows. A system implements it when each of its steps is a run of the
specification that shows the same, between the abstractions of the states before and after. What
is proved about the traces of the specification then holds of the traces of the system.
-/

namespace Libael.Lts

variable {σ ℓ ο τ α : Type*}

/-- `step r x r'`: in the state `r` the specification may show `x`, and is in `r'` afterwards. -/
structure Spec (τ α : Type*) where
  step : τ → α → τ → Prop

/-- The runs of a specification from `r₀`, with their trace. -/
inductive Spec.Run (spec : Spec τ α) (r₀ : τ) : List α → τ → Prop
  | refl : Spec.Run spec r₀ [] r₀
  | step {tr r x r'} : Spec.Run spec r₀ tr r → spec.step r x r' → Spec.Run spec r₀ (tr ++ [x]) r'

namespace Spec.Run

variable {spec : Spec τ α} {r₀ r r' : τ} {tr tr₁ tr₂ : List α} {x : α}

theorem single (h : spec.step r₀ x r) : Spec.Run spec r₀ [x] r := .step .refl h

/-- Runs compose. -/
theorem trans (h₁ : Spec.Run spec r₀ tr₁ r) (h₂ : Spec.Run spec r tr₂ r') :
    Spec.Run spec r₀ (tr₁ ++ tr₂) r' := by
  induction h₂ with
  | refl => simpa using h₁
  | step _ hs ih =>
      rw [← List.append_assoc]
      exact .step ih hs

/-- The invariant rule. -/
theorem invariant {I : List α → τ → Prop} (hinit : I [] r₀)
    (hstep : ∀ {tr r x r'}, I tr r → spec.step r x r' → I (tr ++ [x]) r')
    (h : Spec.Run spec r₀ tr r) : I tr r := by
  induction h with
  | refl => exact hinit
  | step _ hs ih => exact hstep ih hs

/-- A run passes through a step wherever its trace shows something. -/
theorem at_mem (h : Spec.Run spec r₀ tr r) : ∀ before later, tr = before ++ x :: later →
    ∃ r₁ r₂, Spec.Run spec r₀ before r₁ ∧ spec.step r₁ x r₂ ∧ Spec.Run spec r₂ later r := by
  induction h with
  | refl => exact fun before later heq => absurd heq (by simp)
  | @step tr r y r' hrun hs ih =>
      intro before later heq
      rcases List.eq_nil_or_concat later with rfl | ⟨mid, z, rfl⟩
      · -- it is what the last step shows
        obtain ⟨rfl, hxy⟩ := List.append_inj' heq rfl
        obtain rfl : y = x := by simpa using hxy
        exact ⟨r, r', hrun, hs, .refl⟩
      · rw [List.concat_eq_append, ← List.cons_append, ← List.append_assoc] at heq
        obtain ⟨htr, hyz⟩ := List.append_inj' heq rfl
        obtain rfl : y = z := by simpa using hyz
        obtain ⟨r₁, r₂, hbefore, hx, hmid⟩ := ih before mid htr
        rw [List.concat_eq_append]
        exact ⟨r₁, r₂, hbefore, hx, .step hmid hs⟩

end Spec.Run

/-- **The implementation rule.** `abs` takes each step of the system to a run of the specification
that shows the same, as long as the system is `up`. -/
theorem GuardedRun.implements {sys : System σ ℓ ο} {ok : ℓ → σ → Prop} {s₀ s : σ} {tr : List ο}
    {spec : Spec τ α} (up : σ → Prop) (image : ο → Option α) (abs : List ο → σ → τ)
    (hup : ∀ {l s s' o}, sys.step l s = some (s', o) → up s' → up s)
    (hstep : ∀ {tr s l s' o}, GuardedRun sys ok s₀ tr s → up s → ok l s →
      sys.step l s = some (s', o) → up s' →
      spec.Run (abs tr s) (o.filterMap image) (abs (tr ++ o) s'))
    (h : GuardedRun sys ok s₀ tr s) (hs : up s) :
    spec.Run (abs [] s₀) (tr.filterMap image) (abs tr s) := by
  induction h with
  | refl => exact .refl
  | step hrun hok hs' ih =>
      have hbefore := hup hs' hs
      rw [List.filterMap_append]
      exact (ih hbefore).trans (hstep hrun hbefore hok hs' hs)

end Libael.Lts
