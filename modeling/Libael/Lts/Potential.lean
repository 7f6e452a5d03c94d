import Mathlib
import Libael.Lts.Run

/-!
# Libael.Lts.Potential

**The potential method.** A label may bring a *credit*. When every step lowers a *potential*
by one at least, what its label brings apart, the length of a schedule is bounded by the
potential it starts from and the credits of its labels. More generally labels may *cost* different
amounts, and what a step shows may pay as well. Where no label brings anything,
every schedule ends, and one of them ends where nothing is enabled.

Potentials are sums of weights, over the elements of a list or the entries of an
association list.
-/

namespace Libael.Lts

variable {σ ℓ ο : Type*}

/-! ### Weights -/

section Weight

variable {α β : Type*} (w : β → Nat)

/-- The sum of the weights of a list. -/
def weight (l : List β) : Nat := (l.map w).sum

@[simp] theorem weight_nil : weight w [] = 0 := rfl

@[simp] theorem weight_cons (x : β) (l : List β) : weight w (x :: l) = w x + weight w l := by
  unfold weight
  rw [List.map_cons, List.sum_cons]

@[simp] theorem weight_append (l l' : List β) : weight w (l ++ l') = weight w l + weight w l' := by
  unfold weight
  rw [List.map_append, List.sum_append]

/-- Elements that are left out weigh nothing. -/
theorem weight_sublist {l l' : List β} (h : l.Sublist l') : weight w l ≤ weight w l' :=
  (h.map w).sum_le_sum fun _ _ => Nat.zero_le _

/-- The sum of the weights of the entries of an association list. -/
def entriesWeight (l : AList fun _ : α => β) : Nat := weight (fun c => w c.2) l.entries

@[simp] theorem entriesWeight_empty : entriesWeight w (∅ : AList fun _ : α => β) = 0 := rfl

variable {w} [DecidableEq α] {l : AList fun _ : α => β} {a : α}

/-- What an entry weighs is what erasing it takes away. -/
theorem entriesWeight_erase {b : β} (h : l.lookup a = some b) :
    entriesWeight w (l.erase a) + w b = entriesWeight w l := by
  have hmem : (⟨a, b⟩ : Sigma fun _ : α => β) ∈ l.entries :=
    AList.mem_lookup_iff.mp (Option.mem_def.mpr h)
  obtain ⟨b', l₁, l₂, hno, heq, hrest⟩ := List.exists_of_kerase (List.mem_keys_of_mem hmem)
  have hb : b' = b := by
    have hmem' : (⟨a, b'⟩ : Sigma fun _ : α => β) ∈ l.entries := by rw [heq]; simp
    exact l.nodupKeys.eq_of_mk_mem hmem' hmem
  subst hb
  show weight _ (List.kerase a l.entries) + _ = weight _ l.entries
  rw [hrest, heq, weight_append, weight_append, weight_cons]
  dsimp only
  omega

/-- There is nothing to erase. -/
theorem entriesWeight_erase_none (h : l.lookup a = none) :
    entriesWeight w (l.erase a) = entriesWeight w l := by
  show weight _ (List.kerase a l.entries) = weight _ l.entries
  rw [List.kerase_of_notMem_keys]
  exact AList.lookup_eq_none.mp h

theorem entriesWeight_insert (b : β) :
    entriesWeight w (l.insert a b) = w b + entriesWeight w (l.erase a) := by
  show weight _ (l.insert a b).entries = _
  rw [AList.entries_insert, weight_cons]
  rfl

/-- A new entry adds its weight. -/
theorem entriesWeight_insert_new {b : β} (h : l.lookup a = none) :
    entriesWeight w (l.insert a b) = entriesWeight w l + w b := by
  rw [entriesWeight_insert, entriesWeight_erase_none h, Nat.add_comm]

/-- An entry that is replaced gives its weight back. -/
theorem entriesWeight_insert_old {b : β} (b' : β) (h : l.lookup a = some b) :
    entriesWeight w (l.insert a b') + w b = entriesWeight w l + w b' := by
  have herase := entriesWeight_erase (w := w) h
  rw [entriesWeight_insert]
  omega

@[simp] theorem weight_const (n : Nat) (l : List β) : weight (fun _ => n) l = n * l.length := by
  unfold weight
  rw [List.map_const', List.sum_replicate_nat, Nat.mul_comm]

/-- Counting is weighing. -/
theorem weight_eq_countP (n : Nat) (p : β → Bool) (l : List β) :
    weight (fun x => if p x then n else 0) l = n * l.countP p := by
  induction l with
  | nil => rfl
  | cons x l ih =>
      rw [weight_cons, ih, List.countP_cons]
      cases p x <;> simp [Nat.mul_add, Nat.add_comm]

end Weight

/-! ### Accounts -/

/-- Each step that passes `check`, from a state with the invariant `I`, *costs* what its label
says. The potential pays for it, with what the label brings and what the step shows. -/
structure Amortised (sys : System σ ℓ ο) (check : ℓ → σ → Bool) (I : σ → Prop)
    (cost credit : ℓ → Nat) (brings : ο → Nat) (Φ : σ → Nat) : Prop where
  keeps : ∀ {l s s' o}, I s → check l s = true → sys.step l s = some (s', o) → I s'
  pays : ∀ {l s s' o}, I s → check l s = true → sys.step l s = some (s', o) →
    Φ s' + cost l ≤ Φ s + credit l + weight brings o

/-- What a schedule costs has been paid for. -/
theorem Amortised.cost_le {sys : System σ ℓ ο} {check : ℓ → σ → Bool} {I : σ → Prop}
    {cost credit : ℓ → Nat} {brings : ο → Nat} {Φ : σ → Nat}
    (h : Amortised sys check I cost credit brings Φ) {ls : List ℓ} {s s' : σ} {tr : List ο}
    (hI : I s) (hexec : exec sys check ls s = some (s', tr)) :
    weight cost ls + Φ s' ≤ Φ s + weight credit ls + weight brings tr := by
  induction ls generalizing s tr with
  | nil =>
      obtain ⟨rfl, rfl⟩ : s = s' ∧ [] = tr := by simpa [exec] using hexec
      simp
  | cons l ls ih =>
      unfold exec at hexec
      split at hexec
      case isFalse => exact absurd hexec (by simp)
      case isTrue hl =>
        cases hs : sys.step l s with
        | none => simp [hs] at hexec
        | some r =>
            obtain ⟨s₁, o⟩ := r
            simp only [hs, Option.map_eq_some_iff] at hexec
            obtain ⟨⟨s₂, tr₂⟩, hrest, heq⟩ := hexec
            obtain ⟨rfl, rfl⟩ : s₂ = s' ∧ o ++ tr₂ = tr := by simpa using heq
            have hpay := h.pays hI hl hs
            have hle := ih (h.keeps hI hl hs) hrest
            rw [weight_cons, weight_cons, weight_append]
            omega

/-- Each step that passes `check`, from a state with the invariant `I`, is paid for by the
potential `Φ` and what its label brings. -/
structure Pays (sys : System σ ℓ ο) (check : ℓ → σ → Bool) (I : σ → Prop) (credit : ℓ → Nat)
    (Φ : σ → Nat) : Prop where
  keeps : ∀ {l s s' o}, I s → check l s = true → sys.step l s = some (s', o) → I s'
  pays : ∀ {l s s' o}, I s → check l s = true → sys.step l s = some (s', o) →
    Φ s' + 1 ≤ Φ s + credit l

/-- No step that passes `check` is enabled. -/
def AtRest (sys : System σ ℓ ο) (check : ℓ → σ → Bool) (s : σ) : Prop :=
  ∀ l, check l s = true → sys.step l s = none

namespace Pays

variable {sys : System σ ℓ ο} {check : ℓ → σ → Bool} {I : σ → Prop} {credit : ℓ → Nat}
  {Φ : σ → Nat}

/-- Each step costs one. -/
theorem amortised (h : Pays sys check I credit Φ) :
    Amortised sys check I (fun _ => 1) credit (fun _ => 0) Φ where
  keeps := h.keeps
  pays hI hl hs := Nat.le_trans (h.pays hI hl hs) (Nat.le_add_right _ _)

/-- The length of a schedule is bounded. -/
theorem length_le (h : Pays sys check I credit Φ) {ls : List ℓ} {s s' : σ} {tr : List ο}
    (hI : I s) (hexec : exec sys check ls s = some (s', tr)) :
    ls.length + Φ s' ≤ Φ s + weight credit ls := by
  have hle := h.amortised.cost_le hI hexec
  rwa [weight_const, weight_const, Nat.one_mul, Nat.zero_mul, Nat.add_zero] at hle

/-- Without credits, some schedule ends where nothing is enabled. -/
theorem exists_atRest (h : Pays sys check I (fun _ => 0) Φ) {s : σ} (hI : I s) :
    ∃ ls s' tr, exec sys check ls s = some (s', tr) ∧ AtRest sys check s' := by
  generalize hn : Φ s = n
  induction n using Nat.strong_induction_on generalizing s with
  | _ n ih =>
      by_cases hrest : AtRest sys check s
      · exact ⟨[], s, [], rfl, hrest⟩
      · unfold AtRest at hrest
        push Not at hrest
        obtain ⟨l, hl, hs⟩ := hrest
        obtain ⟨r, hs⟩ := Option.ne_none_iff_exists'.mp hs
        obtain ⟨s₁, o⟩ := r
        have hpay := h.pays hI hl hs
        obtain ⟨ls, s', tr, hexec, hrest⟩ := ih (Φ s₁) (by omega) (h.keeps hI hl hs) rfl
        refine ⟨l :: ls, s', o ++ tr, ?_, hrest⟩
        rw [exec, if_pos hl, hs]
        show (exec sys check ls s₁).map _ = _
        rw [hexec]
        rfl

end Pays

end Libael.Lts
