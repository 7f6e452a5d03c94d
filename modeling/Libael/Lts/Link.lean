import Mathlib.Logic.Function.Basic
import Libael.Lts.Pipe
import Libael.Lts.Run

/-!
# Libael.Lts.Link

**Two parties and the wires between them.** A party is a system that puts elements
on a wire and takes them off another one. The wire keeps their order and loses
nothing, takes any time to deliver, and delivers in pieces of any size; the end of
a stream is delivered once its sender has closed and the wire is empty.

A run of the link is a run of each party, whatever the other does
(`run_of_link`), and for parties that account for what arrives and do not send
once they have closed, both wires are pipes (`wire_sound`) and who has been told
of the end has got everything (`nothing_missing`).
-/

namespace Libael.Lts

/-- The two sides of a link. -/
inductive Side
  | left | right
  deriving DecidableEq

namespace Side

/-- The side across the link. -/
def other : Side → Side
  | .left => .right
  | .right => .left

@[simp] theorem other_other (a : Side) : a.other.other = a := by cases a <;> rfl

@[simp] theorem other_ne (a : Side) : a.other ≠ a := by cases a <;> decide

@[simp] theorem ne_other (a : Side) : a ≠ a.other := by cases a <;> decide

theorem eq_or_other (a b : Side) : a = b ∨ a = b.other := by cases a <;> cases b <;> simp [other]

end Side

/-- What a wire delivers: some elements, or the end of the stream. -/
inductive News (α : Type*)
  | elements (xs : List α)
  | finished

/-- The elements of a delivery. -/
def News.content {α : Type*} : Option (News α) → List α
  | some (.elements xs) => xs
  | _ => []

/-- A system seen as one side of a link: what its observations put on the wire, which of them
close it, and which of its labels are deliveries. -/
structure Party (σ ℓ ο α : Type*) where
  sys : System σ ℓ ο
  sends : ο → List α
  closes : ο → Bool
  news : ℓ → Option (News α)

/-- Two parties with what each has sent and the other has not got yet. -/
structure Link (σ α : Type*) where
  ends : Side → σ
  wire : Side → List α
  closed : Side → Bool

namespace Link

variable {σ ℓ ο α : Type*}

/-- Both parties start, and the wires are empty. -/
def start (s₀ : Side → σ) : Link σ α := ⟨s₀, fun _ => [], fun _ => false⟩

variable [DecidableEq α]

/-- The delivery of `news` to the side `a`. -/
def deliver (s : Link σ α) (a : Side) : Option (News α) → Option (Link σ α)
  | none => some s
  | some (.elements xs) =>
    if xs.isPrefixOf (s.wire a.other) then
      some { s with wire := Function.update s.wire a.other ((s.wire a.other).drop xs.length) }
    else none
  | some .finished => if s.closed a.other && (s.wire a.other).isEmpty then some s else none

/-- A step of the side `a`. -/
def move (party : Side → Party σ ℓ ο α) (a : Side) (l : ℓ) (s : Link σ α) :
    Option (Link σ α × List (Side × ο)) :=
  ((party a).sys.step l (s.ends a)).map fun r =>
    ({ ends := Function.update s.ends a r.1
       wire := Function.update s.wire a (s.wire a ++ r.2.flatMap (party a).sends)
       closed := Function.update s.closed a (s.closed a || r.2.any (party a).closes) },
      r.2.map (Prod.mk a))

/-- One transition of the link: a step of one side, which may be a delivery. -/
def step (party : Side → Party σ ℓ ο α) (l : Side × ℓ) (s : Link σ α) :
    Option (Link σ α × List (Side × ο)) :=
  (s.deliver l.1 ((party l.1).news l.2)).bind (move party l.1 l.2)

end Link

/-- Two parties as one system. -/
def linkSystem {σ ℓ ο α : Type*} [DecidableEq α] (party : Side → Party σ ℓ ο α) :
    System (Link σ α) (Side × ℓ) (Side × ο) := ⟨Link.step party⟩

namespace Link

variable {σ ℓ ο α : Type*} [DecidableEq α] {party : Side → Party σ ℓ ο α}
  {ok : Side → ℓ → σ → Prop} {s₀ : Side → σ} {s s' : Link σ α} {tr o : List (Side × ο)}
  {a b : Side} {l : ℓ}

/-- Everything a step can do, guards included. -/
structure Step (party : Side → Party σ ℓ ο α) (s : Link σ α) (a : Side) (l : ℓ) (s' : Link σ α)
    (shown : List ο) : Prop where
  moves : (party a).sys.step l (s.ends a) = some (s'.ends a, shown)
  stays : s'.ends a.other = s.ends a.other
  sends : s'.wire a = s.wire a ++ shown.flatMap (party a).sends
  takes : s.wire a.other = News.content ((party a).news l) ++ s'.wire a.other
  finished : (party a).news l = some .finished → s.closed a.other = true ∧ s.wire a.other = []
  closes : s'.closed a = (s.closed a || shown.any (party a).closes)
  keeps : s'.closed a.other = s.closed a.other

/-- Every step is one of `Step`, and shows whose it is. -/
theorem step_inv (h : step party (a, l) s = some (s', o)) :
    ∃ shown, o = shown.map (Prod.mk a) ∧ Step party s a l s' shown := by
  obtain ⟨t, hdeliver, hmove⟩ := Option.bind_eq_some_iff.mp h
  obtain ⟨⟨x, shown⟩, hs, heq⟩ := Option.map_eq_some_iff.mp hmove
  obtain ⟨rfl, rfl⟩ := Prod.mk.inj heq
  -- what the delivery leaves of the wire
  have hwire : t.ends = s.ends ∧ t.closed = s.closed ∧ t.wire a = s.wire a ∧
      s.wire a.other = News.content ((party a).news l) ++ t.wire a.other ∧
      ((party a).news l = some .finished → s.closed a.other = true ∧ s.wire a.other = []) := by
    cases hnews : (party a).news l with
    | none =>
        rw [hnews] at hdeliver
        obtain rfl := Option.some.inj hdeliver
        exact ⟨rfl, rfl, rfl, rfl, fun hno => absurd hno (by simp)⟩
    | some news =>
        rw [hnews] at hdeliver
        cases news with
        | elements xs =>
            simp only [deliver] at hdeliver
            split at hdeliver
            · rename_i hprefix
              obtain rfl := Option.some.inj hdeliver
              obtain ⟨rest, hrest⟩ := List.isPrefixOf_iff_prefix.mp hprefix
              refine ⟨rfl, rfl, by simp, ?_, fun hno => absurd hno (by simp)⟩
              simp [News.content, ← hrest]
            · exact absurd hdeliver (by simp)
        | finished =>
            simp only [deliver] at hdeliver
            split at hdeliver
            · rename_i hend
              obtain rfl := Option.some.inj hdeliver
              exact ⟨rfl, rfl, rfl, rfl, fun _ => by simpa using hend⟩
            · exact absurd hdeliver (by simp)
  obtain ⟨hends, hclosed, hsame, htakes, hfinished⟩ := hwire
  refine ⟨shown, rfl, ?_, ?_, ?_, ?_, hfinished, ?_, ?_⟩
  · rw [← hends]
    simpa using hs
  · simp [hends]
  · simp [hsame]
  · simpa using htakes
  · simp [hclosed]
  · simp [hclosed]

/-- What one side has shown. -/
def shownBy (a : Side) (x : Side × ο) : List ο := if x.1 = a then [x.2] else []

/-- The trace of one side. -/
def ofSide (a : Side) (tr : List (Side × ο)) : List ο := tr.flatMap (shownBy a)

@[simp] theorem ofSide_append (a : Side) (tr o : List (Side × ο)) :
    ofSide a (tr ++ o) = ofSide a tr ++ ofSide a o := List.flatMap_append

@[simp] theorem ofSide_self (a : Side) (shown : List ο) :
    ofSide a (shown.map (Prod.mk a)) = shown := by
  induction shown with
  | nil => rfl
  | cons x shown ih =>
      rw [List.map_cons, ofSide, List.flatMap_cons, ← ofSide, ih]
      simp [shownBy]

@[simp] theorem ofSide_other (a : Side) (shown : List ο) :
    ofSide a.other (shown.map (Prod.mk a)) = [] := by
  induction shown with
  | nil => rfl
  | cons x shown ih =>
      rw [List.map_cons, ofSide, List.flatMap_cons, ← ofSide, ih]
      simp [shownBy]

/-- The guard of the sides, for the link. -/
def Guarded (ok : Side → ℓ → σ → Prop) (l : Side × ℓ) (s : Link σ α) : Prop :=
  ok l.1 l.2 (s.ends l.1)

/-- Whatever the other side does, a side runs by itself. -/
theorem run_of_link (h : GuardedRun (linkSystem party) (Guarded ok) (start s₀) tr s) (b : Side) :
    GuardedRun (party b).sys (ok b) (s₀ b) (ofSide b tr) (s.ends b) := by
  refine h.simulates (fun s => s.ends b) (shownBy b) ?_
  intro tr s l s' o _ hok hs
  obtain ⟨a, l⟩ := l
  obtain ⟨shown, rfl, hstep⟩ := step_inv hs
  show GuardedRun (party b).sys (ok b) (s.ends b) (ofSide b _) (s'.ends b)
  rcases Side.eq_or_other b a with rfl | rfl
  · rw [ofSide_self]
    exact .step .refl hok hstep.moves
  · rw [ofSide_other, hstep.stays]
    exact .refl

/-! ### The wires -/

/-- How a party accounts for its deliveries: `arrived` is everything that has been delivered to
it, `ended` says that the end has been, and it sends nothing once it has closed. -/
structure Accounts (p : Party σ ℓ ο α) (ok : ℓ → σ → Prop) (s₀ : σ)
    (arrived : List ο → σ → List α) (ended : σ → Prop) : Prop where
  start : arrived [] s₀ = [] ∧ ¬ended s₀
  arrives : ∀ {tr s l s' o}, GuardedRun p.sys ok s₀ tr s → ok l s → p.sys.step l s = some (s', o) →
    arrived (tr ++ o) s' = arrived tr s ++ News.content (p.news l)
  ends : ∀ {tr s l s' o}, GuardedRun p.sys ok s₀ tr s → ok l s → p.sys.step l s = some (s', o) →
    ended s' → ended s ∨ p.news l = some .finished
  silent : ∀ {tr s l s' o}, GuardedRun p.sys ok s₀ tr s → ok l s → p.sys.step l s = some (s', o) →
    tr.any p.closes = true → o.flatMap p.sends = []

variable {arrived : Side → List ο → σ → List α} {ended : Side → σ → Prop}

/-- The invariant of the wire from `a` to the other side. -/
structure WireInv (party : Side → Party σ ℓ ο α) (arrived : Side → List ο → σ → List α)
    (ended : Side → σ → Prop) (tr : List (Side × ο)) (s : Link σ α) (a : Side) : Prop where
  conserved : arrived a.other (ofSide a.other tr) (s.ends a.other) ++ s.wire a =
    (ofSide a tr).flatMap (party a).sends
  closed : s.closed a = (ofSide a tr).any (party a).closes
  finished : ended a.other (s.ends a.other) → s.closed a = true ∧ s.wire a = []

omit [DecidableEq α] in
/-- A step of the side that sends. -/
theorem wireInv_of_sender (haccounts : Accounts (party a) (ok a) (s₀ a) (arrived a) (ended a))
    (hrun : GuardedRun (party a).sys (ok a) (s₀ a) (ofSide a tr) (s.ends a))
    (hok : ok a l (s.ends a))
    {shown : List ο} (hstep : Step party s a l s' shown)
    (hi : WireInv party arrived ended tr s a) :
    WireInv party arrived ended (tr ++ shown.map (Prod.mk a)) s' a where
  conserved := by
    rw [ofSide_append, ofSide_append, ofSide_other, ofSide_self, List.append_nil, hstep.stays,
      hstep.sends, List.flatMap_append, ← hi.conserved, List.append_assoc]
  closed := by rw [hstep.closes, ofSide_append, ofSide_self, List.any_append, hi.closed]
  finished hended := by
    rw [hstep.stays] at hended
    obtain ⟨hclosed, hempty⟩ := hi.finished hended
    have hsilent := haccounts.silent hrun hok hstep.moves (hi.closed ▸ hclosed)
    refine ⟨?_, ?_⟩
    · rw [hstep.closes, hclosed, Bool.true_or]
    · rw [hstep.sends, hempty, hsilent, List.nil_append]

omit [DecidableEq α] in
/-- A step of the side that gets the deliveries. -/
theorem wireInv_of_receiver
    (haccounts :
    Accounts (party a.other) (ok a.other) (s₀ a.other) (arrived a.other) (ended a.other))
    (hrun : GuardedRun (party a.other).sys (ok a.other) (s₀ a.other) (ofSide a.other tr)
      (s.ends a.other))
    (hok : ok a.other l (s.ends a.other)) {shown : List ο} (hstep : Step party s a.other l s' shown)
    (hi : WireInv party arrived ended tr s a) :
    WireInv party arrived ended (tr ++ shown.map (Prod.mk a.other)) s' a := by
  have hother : ofSide a (shown.map (Prod.mk a.other)) = [] := by
    simpa using ofSide_other a.other shown
  have htakes : s.wire a = News.content ((party a.other).news l) ++ s'.wire a := by
    simpa using hstep.takes
  have hopen : s'.closed a = s.closed a := by simpa using hstep.keeps
  constructor
  · rw [ofSide_append, ofSide_append, ofSide_self, hother, List.append_nil,
      haccounts.arrives hrun hok hstep.moves, List.append_assoc, ← htakes, hi.conserved]
  · rw [hopen, ofSide_append, hother, List.append_nil, hi.closed]
  · intro hended
    rw [hopen]
    -- the wire is empty before the step, so it is after it
    have hleft : s.wire a = [] → s'.wire a = [] := by
      intro hempty
      exact (List.append_eq_nil_iff.mp (htakes.symm.trans hempty)).2
    rcases haccounts.ends hrun hok hstep.moves hended with hbefore | hnews
    · obtain ⟨hclosed, hempty⟩ := hi.finished hbefore
      exact ⟨hclosed, hleft hempty⟩
    · have hfinished := hstep.finished hnews
      rw [Side.other_other] at hfinished
      exact ⟨hfinished.1, hleft hfinished.2⟩

/-- What has been sent and not arrived is on the wire, in every run. -/
theorem wireInv_of_run
    (haccounts : ∀ b, Accounts (party b) (ok b) (s₀ b) (arrived b) (ended b))
    (h : GuardedRun (linkSystem party) (Guarded ok) (start s₀) tr s) (a : Side) :
    WireInv party arrived ended tr s a := by
  refine h.invariant (I := fun tr s => WireInv party arrived ended tr s a) ?_ ?_
  · obtain ⟨harrived, hended⟩ := (haccounts a.other).start
    refine ⟨?_, rfl, fun hno => absurd hno hended⟩
    show arrived a.other [] (s₀ a.other) ++ [] = []
    rw [harrived, List.append_nil]
  · intro tr s l s' o hrun hi hok hs
    obtain ⟨b, l⟩ := l
    obtain ⟨shown, rfl, hstep⟩ := step_inv hs
    have hside := run_of_link hrun b
    rcases Side.eq_or_other b a with rfl | rfl
    · exact wireInv_of_sender (haccounts b) hside hok hstep hi
    · exact wireInv_of_receiver (haccounts a.other) hside hok hstep hi

/-- The wire from `a` as a pipe, from what `a` has sent to what has arrived. -/
def wirePipe (party : Side → Party σ ℓ ο α) (arrived : Side → List ο → σ → List α)
    (tr : List (Side × ο)) (s : Link σ α) (a : Side) : Pipe α :=
  ⟨arrived a.other (ofSide a.other tr) (s.ends a.other), s.wire a,
    (ofSide a tr).flatMap (party a).sends, false⟩

/-- **A wire is a pipe.** -/
theorem wire_sound (haccounts : ∀ b, Accounts (party b) (ok b) (s₀ b) (arrived b) (ended b))
    (h : GuardedRun (linkSystem party) (Guarded ok) (start s₀) tr s) (a : Side) :
    (wirePipe party arrived tr s a).Sound := by
  have hconserved := (wireInv_of_run haccounts h a).conserved
  exact ⟨fun _ => hconserved, ⟨s.wire a, hconserved⟩⟩

/-- **The end comes last.** -/
theorem nothing_missing (haccounts : ∀ b, Accounts (party b) (ok b) (s₀ b) (arrived b) (ended b))
    (h : GuardedRun (linkSystem party) (Guarded ok) (start s₀) tr s) (a : Side)
    (hended : ended a.other (s.ends a.other)) :
    s.closed a = true ∧ arrived a.other (ofSide a.other tr) (s.ends a.other) =
      (ofSide a tr).flatMap (party a).sends := by
  have hi := wireInv_of_run haccounts h a
  obtain ⟨hclosed, hempty⟩ := hi.finished hended
  exact ⟨hclosed, by rw [← hi.conserved, hempty, List.append_nil]⟩

end Link

end Libael.Lts
