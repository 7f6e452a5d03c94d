import Mathlib.Logic.Function.Basic
import Libael.Lts.Spec

/-!
# Libael.Lts.Lease

**Holders that take turns on a resource.** A holder acquires its resource, activates it, uses it,
is retired, deactivates the resource and disposes of it, each of these at most once but for the
uses, and in this order; and from the moment a holder acquires a resource until it disposes of it
no other holder does anything with that resource.
-/

namespace Libael.Lts

/-- Where a holder stands. -/
inductive Phase
  | idle | held | active | released | disposed
  deriving Repr, DecidableEq

namespace Phase

/-- The holder has the resource. -/
def live : Phase → Bool
  | .held | .active | .released => true
  | .idle | .disposed => false

/-- The phases in their order. -/
def rank : Phase → Nat
  | .idle => 0
  | .held => 1
  | .active => 2
  | .released => 3
  | .disposed => 4

end Phase

/-- What a holder does. -/
inductive Act (ι : Type*)
  | acquire (i : ι)
  | activate (i : ι)
  | use (i : ι)
  | retire (i : ι)
  | deactivate (i : ι)
  | dispose (i : ι)
  deriving DecidableEq

namespace Act

variable {ι : Type*}

/-- Who acts. -/
def holder : Act ι → ι
  | .acquire i | .activate i | .use i | .retire i | .deactivate i | .dispose i => i

/-- The last phase in which the holder may do this, by its rank. -/
def before : Act ι → Nat
  | .acquire _ => 0
  | .activate _ => 1
  | .use _ | .retire _ | .deactivate _ => 2
  | .dispose _ => 3

/-- The first phase in which the holder may be afterwards, by its rank. -/
def after : Act ι → Nat
  | .acquire _ | .retire _ => 1
  | .activate _ | .use _ => 2
  | .deactivate _ => 3
  | .dispose _ => 4

end Act

/-- The holders, and how far each has got. -/
@[ext]
structure Leases (ι : Type*) where
  phase : ι → Phase
  retired : ι → Bool

namespace Leases

variable {ι κ : Type*} [DecidableEq ι]

/-- Nobody has done anything. -/
def init : Leases ι := ⟨fun _ => .idle, fun _ => false⟩

/-- A holder goes on to the phase `p`. -/
def enter (r : Leases ι) (i : ι) (p : Phase) : Leases ι :=
  { r with phase := Function.update r.phase i p }

/-- A holder is retired. -/
def retire (r : Leases ι) (i : ι) : Leases ι :=
  { r with retired := Function.update r.retired i true }

/-- What a holder may do. A resource is acquired while no other holder has it, and deactivated
after its holder has been retired. -/
inductive Step (resource : ι → κ) (r : Leases ι) : Act ι → Leases ι → Prop
  | acquire {i : ι} : r.phase i = .idle →
      (∀ j, (r.phase j).live = true → resource j ≠ resource i) →
      Step resource r (.acquire i) (r.enter i .held)
  | activate {i : ι} : r.phase i = .held → Step resource r (.activate i) (r.enter i .active)
  | use {i : ι} : r.phase i = .active → Step resource r (.use i) r
  | retire {i : ι} : r.phase i = .held ∨ r.phase i = .active → r.retired i = false →
      Step resource r (.retire i) (r.retire i)
  | deactivate {i : ι} : r.phase i = .active → r.retired i = true →
      Step resource r (.deactivate i) (r.enter i .released)
  | dispose {i : ι} : r.phase i = .idle ∨ r.phase i = .released →
      Step resource r (.dispose i) (r.enter i .disposed)

/-- Leases as a specification. -/
def spec (resource : ι → κ) : Spec (Leases ι) (Act ι) := ⟨Step resource⟩

variable {resource : ι → κ} {r r' : Leases ι} {x y : Act ι} {i : ι}
  {tr before mid later : List (Act ι)}

@[simp] theorem enter_phase (r : Leases ι) (i j : ι) (p : Phase) :
    (r.enter i p).phase j = if j = i then p else r.phase j := Function.update_apply ..

@[simp] theorem retire_phase (r : Leases ι) (i : ι) : (r.retire i).phase = r.phase := rfl

@[simp] theorem retire_retired (r : Leases ι) (i j : ι) :
    (r.retire i).retired j = if j = i then true else r.retired j := Function.update_apply ..

/-! ### A step -/

/-- The other holders stand where they stood. -/
theorem Step.elsewhere (h : Step resource r x r') (hi : i ≠ x.holder) :
    r'.phase i = r.phase i := by
  cases h with
  | acquire | activate | deactivate | dispose => simpa [Act.holder] using fun heq => absurd heq hi
  | use | retire => rfl

theorem Step.rank_le_before (h : Step resource r x r') :
    (r.phase x.holder).rank ≤ x.before := by
  cases h with
  | acquire hp _ | activate hp | use hp | deactivate hp _ =>
      simp [Act.holder, hp, Phase.rank, Act.before]
  | retire hp _ | dispose hp =>
      rcases hp with hp | hp <;> simp [Act.holder, hp, Phase.rank, Act.before]

theorem Step.after_le_rank (h : Step resource r x r') :
    x.after ≤ (r'.phase x.holder).rank := by
  cases h with
  | acquire | activate | deactivate | dispose => simp [Act.holder, Phase.rank, Act.after]
  | use hp => simp [Act.holder, hp, Phase.rank, Act.after]
  | retire hp _ => rcases hp with hp | hp <;> simp [Act.holder, hp, Phase.rank, Act.after]

/-- Nobody ever goes back. -/
theorem Step.rank_mono (h : Step resource r x r') (i : ι) :
    (r.phase i).rank ≤ (r'.phase i).rank := by
  by_cases hi : i = x.holder
  · subst hi
    have hbefore := h.rank_le_before
    have hafter := h.after_le_rank
    cases h with
    | use | retire => exact Nat.le_refl _
    | _ =>
        simp only [Act.before, Act.after] at hbefore hafter
        omega
  · exact Nat.le_of_eq (congrArg Phase.rank (h.elsewhere hi).symm)

/-- Whoever does anything but acquire or dispose of a resource has it. -/
theorem Step.live (h : Step resource r x r') (hacquire : x ≠ .acquire x.holder)
    (hdispose : x ≠ .dispose x.holder) : (r.phase x.holder).live = true := by
  cases h with
  | acquire => exact absurd rfl hacquire
  | dispose => exact absurd rfl hdispose
  | activate hp | use hp | deactivate hp _ => simp [Act.holder, hp, Phase.live]
  | retire hp _ => rcases hp with hp | hp <;> simp [Act.holder, hp, Phase.live]

/-- Holders that are active may use their resources at any time. -/
theorem uses (h : ∀ x ∈ tr, ∃ i, x = .use i ∧ r.phase i = .active) :
    (spec resource).Run r tr r := by
  induction tr with
  | nil => exact .refl
  | cons x tr ih =>
      obtain ⟨i, rfl, hp⟩ := h x List.mem_cons_self
      exact (Spec.Run.single (Step.use hp)).trans (ih fun y hy => h y (List.mem_cons_of_mem _ hy))

/-! ### In order -/

theorem rank_mono (h : (spec resource).Run r tr r') (i : ι) :
    (r.phase i).rank ≤ (r'.phase i).rank :=
  h.invariant (I := fun _ r' => (r.phase i).rank ≤ (r'.phase i).rank) (Nat.le_refl _)
    fun ih hs => Nat.le_trans ih (Step.rank_mono hs i)

/-- **In order**: after what it has done a holder never does what comes earlier. -/
theorem order (h : (spec resource).Run r (before ++ x :: (mid ++ y :: later)) r')
    (hholder : x.holder = y.holder) : x.after ≤ y.before := by
  obtain ⟨r₁, r₂, -, hx, hrest⟩ := h.at_mem before (mid ++ y :: later) rfl
  obtain ⟨r₃, r₄, hmid, hy, -⟩ := hrest.at_mem mid later rfl
  calc x.after
      ≤ (r₂.phase x.holder).rank := hx.after_le_rank
    _ ≤ (r₃.phase x.holder).rank := rank_mono hmid x.holder
    _ = (r₃.phase y.holder).rank := by rw [hholder]
    _ ≤ y.before := hy.rank_le_before

end Leases

end Libael.Lts
