import Mathlib.Data.List.Basic
import Mathlib.Logic.Relation

/-!
# Libael.Lts.Pipe

**A pipe**: what a byte stream is for. Elements are put in at one end and come out
at the other in the same order, each once. A pipe may break; a broken pipe still
takes elements in but lets none out, and may drop what it holds.

`Pipe.reachable_spec` is all a user of a pipe relies on. A concrete stream is
shown to be one by mapping each of its steps to steps of the pipe.
-/

namespace Libael.Lts

/-- A pipe: what came out, what is inside, what was put in, and whether it broke. -/
structure Pipe (α : Type*) where
  sent : List α
  queued : List α
  accepted : List α
  broken : Bool

namespace Pipe

variable {α : Type*}

/-- The empty pipe. -/
def empty : Pipe α := ⟨[], [], [], false⟩

inductive Step : Pipe α → Pipe α → Prop
  /-- Elements are put in. -/
  | put (p : Pipe α) (xs : List α) :
      Step p { p with queued := p.queued ++ xs, accepted := p.accepted ++ xs }
  /-- The first `n` elements come out of an intact pipe. -/
  | send (p : Pipe α) (n : Nat) : p.broken = false →
      Step p { p with sent := p.sent ++ p.queued.take n, queued := p.queued.drop n }
  /-- The pipe breaks, or is broken and drops some of its elements. -/
  | spill (p : Pipe α) (xs : List α) : Step p { p with queued := xs, broken := true }

/-- A pipe reached from another one. -/
abbrev Reaches : Pipe α → Pipe α → Prop := Relation.ReflTransGen Step

/-- The invariant of a pipe: nothing is lost or reordered while it is intact, and
what came out is a prefix of what was put in at any time. -/
structure Sound (p : Pipe α) : Prop where
  conserved : p.broken = false → p.sent ++ p.queued = p.accepted
  inOrder : p.sent <+: p.accepted

theorem sound_empty : (empty : Pipe α).Sound := ⟨fun _ => rfl, List.prefix_refl _⟩

theorem Step.sound {p q : Pipe α} (h : Step p q) (hp : p.Sound) : q.Sound := by
  cases h with
  | put xs =>
      refine ⟨fun hb => ?_, hp.inOrder.trans (List.prefix_append _ _)⟩
      have hc := hp.conserved hb
      rw [← hc]
      simp
  | send n hb =>
      have hc := hp.conserved hb
      refine ⟨fun _ => ?_, ?_⟩
      · rw [← hc]
        simp
      · refine ⟨p.queued.drop n, ?_⟩
        rw [← hc]
        simp
  | spill xs => exact ⟨fun hb => absurd hb (by simp), hp.inOrder⟩

/-- **What a pipe guarantees**, at every moment. -/
theorem reachable_spec {p : Pipe α} (h : Reaches empty p) : p.Sound := by
  induction h with
  | refl => exact sound_empty
  | tail _ hs ih => exact hs.sound ih

/-- Nothing comes out of a broken pipe. -/
theorem Reaches.broken {p q : Pipe α} (h : Reaches p q) (hp : p.broken = true) :
    q.broken = true ∧ q.sent = p.sent := by
  induction h with
  | refl => exact ⟨hp, rfl⟩
  | tail _ hs ih =>
      cases hs with
      | put xs => exact ih
      | send n hb => exact absurd (hb.symm.trans ih.1) (by simp)
      | spill xs => exact ⟨rfl, ih.2⟩

/-- Two pipes one after the other: what comes out of `p` has been put into `q`. -/
def inSeries (p q : Pipe α) : Pipe α :=
  ⟨q.sent, q.queued ++ p.queued, p.accepted, p.broken || q.broken⟩

/-- Pipes in series are a pipe. -/
theorem Sound.inSeries {p q : Pipe α} (hp : p.Sound) (hq : q.Sound) (h : q.accepted = p.sent) :
    (p.inSeries q).Sound where
  conserved hb := by
    obtain ⟨hpb, hqb⟩ := Bool.or_eq_false_iff.mp hb
    show q.sent ++ (q.queued ++ p.queued) = p.accepted
    calc q.sent ++ (q.queued ++ p.queued) = (q.sent ++ q.queued) ++ p.queued :=
          (List.append_assoc _ _ _).symm
      _ = p.sent ++ p.queued := by rw [hq.conserved hqb, h]
      _ = p.accepted := hp.conserved hpb
  inOrder := (h ▸ hq.inOrder).trans hp.inOrder

end Pipe

end Libael.Lts
