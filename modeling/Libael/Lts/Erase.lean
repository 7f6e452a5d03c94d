import Libael.Lts.Run

/-!
# Libael.Lts.Erase

**Schedules with some of their labels erased.** A schedule is run twice: as it is, and without
the labels that `erased` picks. The second run shows the same and ends alike if the erased
steps are *harmless*. What a harmless step is may depend on the labels before it, which are
summed up in an index; `Erasable` says what a harmless step keeps and what any other one breaks
for good.
-/

namespace Libael.Lts

variable {σ ℓ ο ι : Type*}

/-- The schedule without its erased labels ends alike, and shows the same. -/
def AsIfErased (sys : System σ ℓ ο) (erased : ℓ → Bool) (hidden : ο → Bool) (alike : σ → σ → Prop)
    (ls : List ℓ) (s₀ s : σ) (tr : List ο) : Prop :=
  ∃ s' tr', exec sys (fun _ _ => true) (ls.filter fun l => !erased l) s₀ = some (s', tr') ∧
    alike s s' ∧ tr.filter (fun x => !hidden x) = tr'.filter fun x => !hidden x

/-- Every label of the schedule is harmless where it stands. -/
def Harmless (ok : ι → ℓ → Bool) (next : ι → ℓ → ι) : ι → List ℓ → Prop
  | _, [] => True
  | n, l :: ls => ok n l = true ∧ Harmless ok next (next n l) ls

instance decidableHarmless (ok : ι → ℓ → Bool) (next : ι → ℓ → ι) :
    ∀ (n : ι) (ls : List ℓ), Decidable (Harmless ok next n ls)
  | _, [] => isTrue trivial
  | n, l :: ls =>
    have := decidableHarmless ok next (next n l) ls
    inferInstanceAs (Decidable (ok n l = true ∧ Harmless ok next (next n l) ls))

/-- Why harmless steps can be erased, and others cannot. -/
structure Erasable (sys : System σ ℓ ο) (erased : ℓ → Bool) (hidden : ο → Bool)
    (alike : σ → σ → Prop) (ok : ι → ℓ → Bool) (next : ι → ℓ → ι) (R : ι → σ → σ → Prop) :
    Prop where
  related : ∀ {n s t}, R n s t → alike s t
  /-- an erased step shows nothing, and leaves the other run where it is -/
  stutters : ∀ {n s t l s' o}, R n s t → sys.step l s = some (s', o) → ok n l = true →
    erased l = true → R (next n l) s' t ∧ ∀ x ∈ o, hidden x = true
  matched : ∀ {n s t l s' o}, R n s t → sys.step l s = some (s', o) → ok n l = true →
    erased l = false → ∃ t', sys.step l t = some (t', o) ∧ R (next n l) s' t'
  /-- after any other step, the runs have parted -/
  parted : ∀ {n s t l s' o}, R n s t → sys.step l s = some (s', o) → ok n l = false →
    ∀ {ls s'' t'' tr tr'}, exec sys (fun _ _ => true) ls s' = some (s'', tr) →
      exec sys (fun _ _ => true) ((l :: ls).filter fun l => !erased l) t = some (t'', tr') →
      ¬alike s'' t''

section

variable {sys : System σ ℓ ο} {s s' : σ} {tr : List ο}

/-- The first step of a schedule. -/
theorem exec_cons {l : ℓ} {ls : List ℓ} : exec sys (fun _ _ => true) (l :: ls) s = some (s', tr) ↔
    ∃ s₁ o tr', sys.step l s = some (s₁, o) ∧
      exec sys (fun _ _ => true) ls s₁ = some (s', tr') ∧ tr = o ++ tr' := by
  rw [exec, if_pos rfl]
  cases hs : sys.step l s with
  | none => simp
  | some r =>
      obtain ⟨s₁, o⟩ := r
      simp only [Option.map_eq_some_iff, Option.some.injEq, Prod.mk.injEq, Prod.exists]
      constructor
      · rintro ⟨s₂, tr', h, rfl, rfl⟩
        exact ⟨s₁, o, tr', ⟨rfl, rfl⟩, h, rfl⟩
      · rintro ⟨s₁', o', tr', ⟨rfl, rfl⟩, h, rfl⟩
        exact ⟨s', tr', h, rfl, rfl⟩

/-- Nothing follows a state without steps. -/
theorem exec_of_stuck {ls : List ℓ} (hstuck : ∀ l, sys.step l s = none)
    (h : exec sys (fun _ _ => true) ls s = some (s', tr)) : ls = [] ∧ s' = s := by
  cases ls with
  | nil =>
      obtain ⟨rfl, -⟩ := Prod.mk.inj (Option.some.inj h)
      exact ⟨rfl, rfl⟩
  | cons l ls =>
      obtain ⟨s₁, o, -, hs, -⟩ := exec_cons.mp h
      exact absurd hs (by simp [hstuck])

end

/-- Runs that are `D` apart stay so, if neither a step of both nor an erased step of the first
brings them together. -/
theorem apart_of_exec {sys : System σ ℓ ο} {erased : ℓ → Bool} {D : σ → σ → Prop}
    (hboth : ∀ {s t l s' o t' o'}, D s t → sys.step l s = some (s', o) →
      sys.step l t = some (t', o') → D s' t')
    (halone : ∀ {s t l s' o}, D s t → sys.step l s = some (s', o) → erased l = true → D s' t)
    {ls : List ℓ} {s t s' t' : σ} {tr tr' : List ο} (hD : D s t)
    (hexec : exec sys (fun _ _ => true) ls s = some (s', tr))
    (hexec' : exec sys (fun _ _ => true) (ls.filter fun l => !erased l) t = some (t', tr')) :
    D s' t' := by
  induction ls generalizing s t tr tr' with
  | nil =>
      obtain ⟨rfl, -⟩ := Prod.mk.inj (Option.some.inj hexec)
      obtain ⟨rfl, -⟩ := Prod.mk.inj (Option.some.inj hexec')
      exact hD
  | cons l ls ih =>
      obtain ⟨s₁, o, tr₁, hs, hrest, -⟩ := exec_cons.mp hexec
      cases herased : erased l with
      | true =>
          rw [List.filter_cons, herased] at hexec'
          exact ih (halone hD hs herased) hrest hexec'
      | false =>
          rw [List.filter_cons, herased] at hexec'
          obtain ⟨t₁, o', tr₂, ht, hrest', -⟩ := exec_cons.mp hexec'
          exact ih (hboth hD hs ht) hrest hrest'

/-- When no erased step is harmless, a harmless schedule has none. -/
theorem harmless_iff_forall {erased : ℓ → Bool} {ls : List ℓ} :
    Harmless (fun _ l => !erased l) (fun _ _ => ()) () ls ↔ ∀ l ∈ ls, erased l = false := by
  induction ls with
  | nil => exact ⟨fun _ _ h => absurd h List.not_mem_nil, fun _ => trivial⟩
  | cons l ls ih => rw [Harmless, ih, List.forall_mem_cons, Bool.not_eq_true']

/-- **The erasure rule.** A schedule is as if its erased labels had not been, exactly if all its
labels are harmless. -/
theorem Erasable.iff {sys : System σ ℓ ο} {erased : ℓ → Bool} {hidden : ο → Bool}
    {alike : σ → σ → Prop} {ok : ι → ℓ → Bool} {next : ι → ℓ → ι} {R : ι → σ → σ → Prop}
    (h : Erasable sys erased hidden alike ok next R) {ls : List ℓ} {n : ι} {s t s' : σ}
    {tr : List ο}
    (hR : R n s t) (hexec : exec sys (fun _ _ => true) ls s = some (s', tr)) :
    AsIfErased sys erased hidden alike ls t s' tr ↔ Harmless ok next n ls := by
  induction ls generalizing n s t tr with
  | nil =>
      obtain ⟨rfl, rfl⟩ := Prod.mk.inj (Option.some.inj hexec)
      exact ⟨fun _ => trivial, fun _ => ⟨t, [], rfl, h.related hR, rfl⟩⟩
  | cons l ls ih =>
      obtain ⟨s₁, o, tr₁, hs, hrest, rfl⟩ := exec_cons.mp hexec
      cases hok : ok n l with
      | false =>
          refine ⟨fun ⟨t', tr', herased, halike, _⟩ => ?_, fun hharmless => ?_⟩
          · exact absurd halike (h.parted hR hs hok hrest herased)
          · rw [hharmless.1] at hok
            exact absurd hok (by simp)
      | true =>
          have hcons : Harmless ok next n (l :: ls) ↔ Harmless ok next (next n l) ls :=
            ⟨fun hharmless => hharmless.2, fun hharmless => ⟨hok, hharmless⟩⟩
          rw [hcons]
          cases herased : erased l with
          | true =>
              obtain ⟨hR', hhidden⟩ := h.stutters hR hs hok herased
              rw [← ih hR' hrest]
              have hshown : o.filter (fun x => !hidden x) = [] :=
                List.filter_eq_nil_iff.mpr fun x hx => by simp [hhidden x hx]
              simp only [AsIfErased, List.filter_cons, herased, List.filter_append, hshown,
                Bool.not_true, Bool.false_eq_true, if_false, List.nil_append]
          | false =>
              obtain ⟨t₁, ht, hR'⟩ := h.matched hR hs hok herased
              rw [← ih hR' hrest]
              simp only [AsIfErased, List.filter_cons, herased, List.filter_append, Bool.not_false,
                if_true]
              constructor
              · rintro ⟨t', tr', hexec', halike, hshown⟩
                obtain ⟨t₂, o', tr₂, ht', hrest', rfl⟩ := exec_cons.mp hexec'
                obtain ⟨rfl, rfl⟩ := Prod.mk.inj (Option.some.inj (ht.symm.trans ht'))
                rw [List.filter_append] at hshown
                exact ⟨t', tr₂, hrest', halike, List.append_cancel_left hshown⟩
              · rintro ⟨t', tr', hexec', halike, hshown⟩
                refine ⟨t', o ++ tr', exec_cons.mpr ⟨t₁, o, tr', ht, hexec', rfl⟩, halike, ?_⟩
                rw [List.filter_append, hshown]

end Libael.Lts
