import Libael.EventLoop.Tokens

/-!
# Libael.EventLoop.Lifecycle

The life of one event in every reachable state. Its registration is asked for once, by the
thread that has attached its handler (`Adding`), and its removal at most once, by the first
thread through `close_flag_` (`Closing`), however many threads call `Close`. Each stage says
where the one request is, and what it means for `EventLoop::events_`.

* A request is in one of two places: with the one thread that is about to push it, or as the
  one token of its element in the queues, the frames and the trace (`tokens`).
* `stages_step` leads an event from stage to stage. Five kinds of transitions move an
  event, and each moves one; for the other events nothing has changed (`SameAdding`,
  `SameClosing`), and so they stay in their stages.
* `life_step` adds what the stages do not say themselves, and the last section reads the facts
  off them that the other modules use.
-/

namespace Libael

open Lts

namespace Progress

/-- The call is one that moves the removal of `e` on. -/
def removes (e : EventId) : Progress → Bool
  | .pushing element | .signalling element => element == .remove e
  | .erasing e' => e' == e
  | _ => false

end Progress

namespace EventLoop

/-- Nobody is about to do `p`. -/
def Nobody (s : EventLoop) (p : Progress) : Prop := ∀ a, s.calls.lookup a ≠ some p

/-- `a` is about to do `p`, and nobody else is. -/
def Only (s : EventLoop) (a : Agent) (p : Progress) : Prop :=
  ∀ b, s.calls.lookup b = some p ↔ b = a

/-- How far the registration of `e` has got. -/
inductive Adding (tr : List LoopObs) (s : EventLoop) (e : EventId) : Prop
  /-- no handler has been attached -/
  | detached : (s.handlers e).attached = false → s.Nobody (.pushing (.add e)) →
      tokens tr s (.add e) = 0 → Adding tr s e
  /-- the thread that has attached it is about to queue the registration -/
  | pushing (a : Agent) : (s.handlers e).attached = true → s.Only a (.pushing (.add e)) →
      tokens tr s (.add e) = 0 → Adding tr s e
  /-- it has been queued, and perhaps finalized -/
  | queued : (s.handlers e).attached = true → s.Nobody (.pushing (.add e)) →
      tokens tr s (.add e) = 1 → Adding tr s e

/-- How far the removal of `e` has got. -/
inductive Closing (tr : List LoopObs) (s : EventLoop) (e : EventId) : Prop
  /-- `close_flag_` has not been taken -/
  | «open» : (s.handlers e).closeFlag = .clear → (e ∈ s.events ↔ (s.handlers e).attached = true) →
      s.Nobody (.erasing e) → s.Nobody (.pushing (.remove e)) →
      s.Nobody (.signalling (.remove e)) → tokens tr s (.remove e) = 0 → Closing tr s e
  /-- the thread that has taken it is about to erase the event -/
  | erasing (a : Agent) : (s.handlers e).closeFlag ≠ .clear → (s.handlers e).attached = true →
      e ∈ s.events → s.Only a (.erasing e) → s.Nobody (.pushing (.remove e)) →
      tokens tr s (.remove e) = 0 → Closing tr s e
  /-- it has erased it, and is about to queue the removal -/
  | pushing (a : Agent) : (s.handlers e).closeFlag ≠ .clear → (s.handlers e).attached = true →
      e ∉ s.events → s.Nobody (.erasing e) → s.Only a (.pushing (.remove e)) →
      tokens tr s (.remove e) = 0 → Closing tr s e
  /-- the removal has been queued, and perhaps finalized -/
  | queued : (s.handlers e).closeFlag ≠ .clear → (s.handlers e).attached = true →
      e ∉ s.events → s.Nobody (.erasing e) → s.Nobody (.pushing (.remove e)) →
      tokens tr s (.remove e) = 1 → Closing tr s e

/-- The life of every event. -/
structure Life (tr : List LoopObs) (s : EventLoop) : Prop where
  adding : ∀ e, Adding tr s e
  closing : ∀ e, Closing tr s e
  /-- `Event::Close` is called on events that exist -/
  attached : ∀ a e, s.calls.lookup a = some (.closing e) → (s.handlers e).attached = true
  nodup : s.events.Nodup

theorem life_init : Life [] init where
  adding _ := .detached rfl (by simp [Nobody, init]) (tokens_init _)
  closing _ := .open rfl (by simp [init]) (by simp [Nobody, init]) (by simp [Nobody, init])
    (by simp [Nobody, init]) (tokens_init _)
  attached a e h := by simp [init] at h
  nodup := List.nodup_nil

/-! ### Steps that leave the event alone -/

/-- Nothing that the registration of `e` depends on has changed. -/
structure SameAdding (tr : List LoopObs) (s : EventLoop) (tr' : List LoopObs) (s' : EventLoop)
    (e : EventId) : Prop where
  attached : (s'.handlers e).attached = (s.handlers e).attached
  calls : ∀ a, s'.calls.lookup a = some (.pushing (.add e)) ↔
    s.calls.lookup a = some (.pushing (.add e))
  tokens : tokens tr' s' (.add e) = tokens tr s (.add e)

/-- Nothing that the removal of `e` depends on has changed. -/
structure SameClosing (tr : List LoopObs) (s : EventLoop) (tr' : List LoopObs) (s' : EventLoop)
    (e : EventId) : Prop where
  attached : (s'.handlers e).attached = (s.handlers e).attached
  closeFlag : (s'.handlers e).closeFlag = .clear ↔ (s.handlers e).closeFlag = .clear
  events : e ∈ s'.events ↔ e ∈ s.events
  calls : ∀ p : Progress, p.removes e = true → ∀ a,
    s'.calls.lookup a = some p ↔ s.calls.lookup a = some p
  tokens : tokens tr' s' (.remove e) = tokens tr s (.remove e)

section Same

variable {tr tr' : List LoopObs} {s s' : EventLoop} {e : EventId}

/-- The registration of the event is in the same stage as before. -/
theorem SameAdding.adding (h : SameAdding tr s tr' s' e) (hadd : Adding tr s e) :
    Adding tr' s' e := by
  cases hadd with
  | detached hatt hno ht =>
      exact .detached (h.attached.trans hatt) (fun a ha => hno a ((h.calls a).mp ha))
        (h.tokens.trans ht)
  | pushing a hatt hone ht =>
      exact .pushing a (h.attached.trans hatt) (fun b => (h.calls b).trans (hone b))
        (h.tokens.trans ht)
  | queued hatt hno ht =>
      exact .queued (h.attached.trans hatt) (fun a ha => hno a ((h.calls a).mp ha))
        (h.tokens.trans ht)

theorem SameClosing.nobody (h : SameClosing tr s tr' s' e) {p : Progress}
    (hp : p.removes e = true) (hno : s.Nobody p) : s'.Nobody p :=
  fun a ha => hno a ((h.calls p hp a).mp ha)

theorem SameClosing.only (h : SameClosing tr s tr' s' e) {p : Progress}
    (hp : p.removes e = true) {a : Agent} (hone : s.Only a p) : s'.Only a p :=
  fun b => (h.calls p hp b).trans (hone b)

/-- The removal of the event is in the same stage as before. -/
theorem SameClosing.closing (h : SameClosing tr s tr' s' e) (hclose : Closing tr s e) :
    Closing tr' s' e := by
  have herasing : (Progress.erasing e).removes e = true := by simp [Progress.removes]
  have hpushing : (Progress.pushing (.remove e)).removes e = true := by simp [Progress.removes]
  have hsignal : (Progress.signalling (.remove e)).removes e = true := by simp [Progress.removes]
  cases hclose with
  | «open» hflag hev her hpu hsi ht =>
      refine .open (h.closeFlag.mpr hflag) ?_ (h.nobody herasing her) (h.nobody hpushing hpu)
        (h.nobody hsignal hsi) (h.tokens.trans ht)
      rw [h.events, h.attached]
      exact hev
  | erasing a hflag hatt hev hone hpu ht =>
      exact .erasing a (mt h.closeFlag.mp hflag) (h.attached.trans hatt) (h.events.mpr hev)
        (h.only herasing hone) (h.nobody hpushing hpu) (h.tokens.trans ht)
  | pushing a hflag hatt hev her hone ht =>
      exact .pushing a (mt h.closeFlag.mp hflag) (h.attached.trans hatt) (mt h.events.mp hev)
        (h.nobody herasing her) (h.only hpushing hone) (h.tokens.trans ht)
  | queued hflag hatt hev her hpu ht =>
      exact .queued (mt h.closeFlag.mp hflag) (h.attached.trans hatt) (mt h.events.mp hev)
        (h.nobody herasing her) (h.nobody hpushing hpu) (h.tokens.trans ht)

/-- A call is where it was for everybody, if the one thread that has moved on was and is
elsewhere. -/
theorem lookup_iff {a : Agent} {p : Progress}
    (hothers : ∀ b, b ≠ a → s'.calls.lookup b = s.calls.lookup b)
    (h : s.calls.lookup a ≠ some p) (h' : s'.calls.lookup a ≠ some p) (b : Agent) :
    s'.calls.lookup b = some p ↔ s.calls.lookup b = some p := by
  by_cases hb : b = a
  · rw [hb]
    exact ⟨fun heq => absurd heq h', fun heq => absurd heq h⟩
  · rw [hothers b hb]

/-- The life of `e` goes on as it was when the tokens, the flag and the table are, and the
thread that has moved on has nothing to do with `e`. -/
theorem life_of_same {l : LoopLabel} {o : List LoopObs} {cfg : Config} (hmove : Move cfg s l s' o)
    (hlife : Life tr s) {a : Agent}
    (hattached : (s'.handlers e).attached = (s.handlers e).attached)
    (hflag : (s'.handlers e).closeFlag = .clear ↔ (s.handlers e).closeFlag = .clear)
    (hevents : e ∈ s'.events ↔ e ∈ s.events)
    (hothers : ∀ b, b ≠ a → s'.calls.lookup b = s.calls.lookup b)
    (hbefore : ∀ p, s.calls.lookup a = some p → p ≠ .pushing (.add e) ∧ p.removes e = false)
    (hafter : ∀ p, s'.calls.lookup a = some p → p ≠ .pushing (.add e) ∧ p.removes e = false)
    (hadd : s.pushes l ≠ some (.add e)) (hremove : s.pushes l ≠ some (.remove e)) :
    Adding (tr ++ o) s' e ∧ Closing (tr ++ o) s' e := by
  constructor
  · refine SameAdding.adding ⟨hattached, ?_, ?_⟩ (hlife.adding e)
    · exact lookup_iff hothers (fun heq => (hbefore _ heq).1 rfl) (fun heq => (hafter _ heq).1 rfl)
    · rw [tokens_step hmove, if_neg hadd, Nat.add_zero]
  · refine SameClosing.closing ⟨hattached, hflag, hevents, fun p hp => ?_, ?_⟩ (hlife.closing e)
    · refine lookup_iff hothers (fun heq => ?_) (fun heq => ?_)
      · rw [(hbefore p heq).2] at hp
        exact absurd hp (by simp)
      · rw [(hafter p heq).2] at hp
        exact absurd hp (by simp)
    · rw [tokens_step hmove, if_neg hremove, Nat.add_zero]

/-- The same for a step after which every call is where it was. -/
theorem life_of_same_calls {l : LoopLabel} {o : List LoopObs} {cfg : Config}
    (hmove : Move cfg s l s' o) (hlife : Life tr s)
    (hattached : (s'.handlers e).attached = (s.handlers e).attached)
    (hflag : (s'.handlers e).closeFlag = (s.handlers e).closeFlag)
    (hevents : s'.events = s.events) (hcalls : s'.calls = s.calls) (hpush : s.pushes l = none) :
    Adding (tr ++ o) s' e ∧ Closing (tr ++ o) s' e := by
  constructor
  · refine SameAdding.adding ⟨hattached, fun a => by rw [hcalls], ?_⟩ (hlife.adding e)
    rw [tokens_step hmove, hpush, if_neg (by simp), Nat.add_zero]
  · refine SameClosing.closing ⟨hattached, by rw [hflag], by rw [hevents],
      fun p _ a => by rw [hcalls], ?_⟩ (hlife.closing e)
    rw [tokens_step hmove, hpush, if_neg (by simp), Nat.add_zero]

end Same

theorem Starts.elsewhere {s : EventLoop} {p : Progress} (h : Starts s p) (e : EventId) :
    p ≠ .pushing (.add e) ∧ p.removes e = false := by
  cases h <;> simp [Progress.removes]

/-- A quiet step keeps the life of every event. -/
theorem life_of_quiet {cfg : Config} {l : LoopLabel} {s s' : EventLoop} {tr o : List LoopObs}
    {a : Agent} (hmove : Move cfg s l s' o) (hlife : Life tr s) (hidle : s.calls.lookup a = none)
    (hevents : s'.events = s.events)
    (hattached : ∀ e, (s'.handlers e).attached = (s.handlers e).attached)
    (hflag : ∀ e, (s'.handlers e).closeFlag = (s.handlers e).closeFlag)
    (hcalls : s'.calls = s.calls ∨ ∃ p, Starts s p ∧ s'.calls = s.calls.insert a p)
    (hpush : s.pushes l = none) (e : EventId) :
    Adding (tr ++ o) s' e ∧ Closing (tr ++ o) s' e := by
  rcases hcalls with hcalls | ⟨p, hp, hcalls⟩
  · exact life_of_same_calls hmove hlife (hattached e) (hflag e) hevents hcalls hpush
  · refine life_of_same (a := a) hmove hlife (hattached e) (by rw [hflag e]) (by rw [hevents])
      (fun b hb => ?_) (fun q hq => ?_) (fun q hq => ?_) (by simp [hpush]) (by simp [hpush])
    · rw [hcalls]
      exact AList.lookup_insert_ne hb
    · rw [hidle] at hq
      exact absurd hq (by simp)
    · rw [hcalls, AList.lookup_insert] at hq
      obtain rfl := Option.some.inj hq
      exact hp.elsewhere e

/-- The thread that is erasing or pushing is the only one that has business with `e`. -/
theorem Only.nobody_else {s s' : EventLoop} {a : Agent} {p : Progress} (h : s.Only a p)
    (hothers : ∀ b, b ≠ a → s'.calls.lookup b = s.calls.lookup b)
    (ha : s'.calls.lookup a ≠ some p) : s'.Nobody p := by
  intro b hb
  by_cases hba : b = a
  · rw [hba] at hb
    exact ha hb
  · rw [hothers b hba] at hb
    exact hba ((h b).mp hb)

/-- A thread that takes up something nobody had in hand is the only one to have it. -/
theorem Nobody.only {s s' : EventLoop} {a : Agent} {p : Progress} (h : s.Nobody p)
    (hothers : ∀ b, b ≠ a → s'.calls.lookup b = s.calls.lookup b)
    (ha : s'.calls.lookup a = some p) : s'.Only a p := by
  intro b
  constructor
  · intro hb
    by_contra hba
    rw [hothers b hba] at hb
    exact h b hb
  · rintro rfl
    exact ha

/-- Nobody is about to do `p`, if the one thread that has moved is not. -/
theorem Nobody.of_others {s s' : EventLoop} {a : Agent} {p : Progress} (h : s.Nobody p)
    (hothers : ∀ b, b ≠ a → s'.calls.lookup b = s.calls.lookup b)
    (ha : s'.calls.lookup a ≠ some p) : s'.Nobody p := by
  intro b hb
  by_cases hba : b = a
  · rw [hba] at hb
    exact ha hb
  · rw [hothers b hba] at hb
    exact h b hb

section Step

variable {cfg : Config} {s : EventLoop} {tr : List LoopObs} {a : Agent}

/-- `CreateEvent`. -/
theorem life_created {e₀ : EventId} {s' : EventLoop} {o : List LoopObs} (hlife : Life tr s)
    (hmove : Move cfg s (.proceed a) s' o) (hp : s.calls.lookup a = some (.attaching e₀))
    (hatt : (s.handlers e₀).attached = false) (hevents : s'.events = e₀ :: s.events)
    (hhandlers : ∀ e, s'.handlers e =
      if e = e₀ then { s.handlers e₀ with attached := true } else s.handlers e)
    (hothers : ∀ b, b ≠ a → s'.calls.lookup b = s.calls.lookup b)
    (hafter : s'.calls.lookup a = some (.pushing (.add e₀))) (e : EventId) :
    Adding (tr ++ o) s' e ∧ Closing (tr ++ o) s' e := by
  have hpush : s.pushes (.proceed a) = none := by simp [pushes, hp]
  have htokens : ∀ element, tokens (tr ++ o) s' element = tokens tr s element := by
    intro element
    rw [tokens_step hmove, hpush, if_neg (by simp), Nat.add_zero]
  by_cases he : e = e₀
  · subst he
    have hatt' : (s'.handlers e).attached = true := by rw [hhandlers, if_pos rfl]
    constructor
    · cases hlife.adding e with
      | detached _ hno ht => exact .pushing a hatt' (hno.only hothers hafter) ((htokens _).trans ht)
      | pushing _ hatt₁ _ _ => rw [hatt] at hatt₁; exact absurd hatt₁ (by simp)
      | queued hatt₁ _ _ => rw [hatt] at hatt₁; exact absurd hatt₁ (by simp)
    · cases hlife.closing e with
      | «open» hflag hev her hpu hsi ht =>
          refine .open (by rw [hhandlers, if_pos rfl]; exact hflag) ?_ (her.of_others hothers ?_)
            (hpu.of_others hothers ?_) (hsi.of_others hothers ?_) ((htokens _).trans ht)
          · rw [hevents, hatt']
            simp
          all_goals rw [hafter]; simp
      | erasing _ _ hatt₁ _ _ _ _ => rw [hatt] at hatt₁; exact absurd hatt₁ (by simp)
      | pushing _ _ hatt₁ _ _ _ _ => rw [hatt] at hatt₁; exact absurd hatt₁ (by simp)
      | queued _ hatt₁ _ _ _ _ => rw [hatt] at hatt₁; exact absurd hatt₁ (by simp)
  · refine life_of_same (a := a) hmove hlife ?_ ?_ ?_ hothers (fun p hp' => ?_) (fun p hp' => ?_)
      (by simp [hpush]) (by simp [hpush])
    · rw [hhandlers, if_neg he]
    · rw [hhandlers, if_neg he]
    · rw [hevents]
      simp [he]
    · obtain rfl := Option.some.inj (hp.symm.trans hp')
      simp [Progress.removes]
    · obtain rfl := Option.some.inj (hafter.symm.trans hp')
      simp [Progress.removes, Ne.symm he]

/-- `AddElement` takes the lock. The registration or the removal of one event goes from the
thread to the queue, and every other event stays in its stage. -/
theorem life_pushed (cfg : Config) {element : Element} (hlife : Life tr s)
    (hp : s.calls.lookup a = some (.pushing element)) (hlock : s.epoll.lock = none) (e : EventId) :
    Adding (tr ++ [.queued element]) (s.push a element) e ∧
      Closing (tr ++ [.queued element]) (s.push a element) e := by
  have hmove : Move cfg s (.proceed a) (s.push a element) [.queued element] := .pushed hp hlock
  obtain ⟨hothers, hafter⟩ : (∀ b, b ≠ a →
      (s.push a element).calls.lookup b = s.calls.lookup b) ∧ _ :=
    ⟨fun b hb => (lookup_push s a b element).1 hb, (lookup_push s a a element).2⟩
  have hnot : ∀ p, (∀ el, p ≠ .signalling el) → (s.push a element).calls.lookup a ≠ some p := by
    intro p hno heq
    rcases hafter with h | h
    · rw [h] at heq; exact absurd heq (by simp)
    · rw [h] at heq; exact hno element (Option.some.inj heq).symm
  have htokens : ∀ el, tokens (tr ++ [.queued element]) (s.push a element) el =
      tokens tr s el + if element = el then 1 else 0 := by
    intro el
    rw [tokens_step hmove]
    simp [pushes, hp]
  constructor
  · by_cases hel : element = .add e
    · subst hel
      cases hlife.adding e with
      | pushing a' hatt hone ht =>
          obtain rfl := (hone a).mp hp
          refine .queued (by rw [attached_push]; exact hatt) ?_ (by rw [htokens, ht, if_pos rfl])
          exact hone.nobody_else hothers (hnot _ (by simp))
      | detached _ hno _ => exact absurd hp (hno a)
      | queued _ hno _ => exact absurd hp (hno a)
    · refine SameAdding.adding ⟨attached_push .., ?_, ?_⟩ (hlife.adding e)
      · refine lookup_iff hothers ?_ (hnot _ (by simp))
        rw [hp]
        simpa using hel
      · rw [htokens, if_neg hel, Nat.add_zero]
  · by_cases hel : element = .remove e
    · subst hel
      cases hlife.closing e with
      | pushing a' hflag hatt hev her hone ht =>
          obtain rfl := (hone a).mp hp
          refine .queued ?_ (by rw [attached_push]; exact hatt) (by rw [push_events]; exact hev)
            (her.of_others hothers (hnot _ (by simp)))
            (hone.nobody_else hothers (hnot _ (by simp))) (by rw [htokens, ht, if_pos rfl])
          rcases closeFlag_push s a (.remove e) e with h | ⟨-, h⟩
          · rw [h]; exact hflag
          · rw [h]; simp
      | «open» _ _ _ hpu _ _ => exact absurd hp (hpu a)
      | erasing _ _ _ _ _ hpu _ => exact absurd hp (hpu a)
      | queued _ _ _ _ hpu _ => exact absurd hp (hpu a)
    · refine SameClosing.closing ⟨attached_push .., ?_, by rw [push_events], fun p hp' => ?_, ?_⟩
        (hlife.closing e)
      · rcases closeFlag_push s a element e with h | ⟨h, -⟩
        · rw [h]
        · exact absurd h hel
      · have hbefore : s.calls.lookup a ≠ some p := by
          rw [hp]
          rintro heq
          obtain rfl := Option.some.inj heq
          exact hel (by simpa [Progress.removes] using hp')
        refine lookup_iff hothers hbefore fun heq => ?_
        rcases hafter with h | h
        · rw [h] at heq; exact absurd heq (by simp)
        · rw [h] at heq
          obtain rfl := Option.some.inj heq
          exact hel (by simpa [Progress.removes] using hp')
      · rw [htokens, if_neg hel, Nat.add_zero]

/-- `AddElement` has written the eventfd and lets the lock go. Where it was called from `Close`,
the `call_once` ends here. -/
theorem life_signalled (cfg : Config) {element : Element} (hlife : Life tr s)
    (hp : s.calls.lookup a = some (.signalling element)) (e : EventId) :
    Adding (tr ++ [])
      ({ s with epoll := { s.epoll.wakeup with lock := none } }.complete a element) e ∧
      Closing (tr ++ [])
        ({ s with epoll := { s.epoll.wakeup with lock := none } }.complete a element) e := by
  have hmove : Move cfg s (.proceed a) _ [] := .signalled hp
  have hpush : s.pushes (.proceed a) = none := by simp [pushes, hp]
  generalize hs' : { s with epoll := { s.epoll.wakeup with lock := none } }.complete a element = s'
    at hmove ⊢
  have hothers : ∀ b, b ≠ a → s'.calls.lookup b = s.calls.lookup b := by
    intro b hb
    rw [← hs', lookup_complete, if_neg hb]
  have hnone : s'.calls.lookup a = none := by rw [← hs', lookup_complete, if_pos rfl]
  have hattached : (s'.handlers e).attached = (s.handlers e).attached := by
    rw [← hs', attached_complete]
  have hevents : s'.events = s.events := by rw [← hs', complete_events]
  have hhandlers : s'.handlers e = if element = .remove e then
      { s.handlers e with closeFlag := .done } else s.handlers e := by
    rw [← hs', handlers_complete]
  have htokens : ∀ el, tokens (tr ++ []) s' el = tokens tr s el := by
    intro el
    rw [tokens_step hmove, hpush, if_neg (by simp), Nat.add_zero]
  constructor
  · refine SameAdding.adding ⟨hattached, ?_, htokens _⟩ (hlife.adding e)
    exact lookup_iff hothers (by rw [hp]; simp) (by rw [hnone]; simp)
  · by_cases hel : element = .remove e
    · -- the removal is queued already, so the flag has been taken before
      subst hel
      cases hlife.closing e with
      | «open» _ _ _ _ hsi _ => exact absurd hp (hsi a)
      | erasing a' hflag hatt hev hone hpu ht =>
          refine .erasing a' (by rw [hhandlers, if_pos rfl]; simp) (hattached.trans hatt)
            (by rw [hevents]; exact hev) (fun b => ?_) (hpu.of_others hothers (by rw [hnone]; simp))
            ((htokens _).trans ht)
          rw [lookup_iff hothers (by rw [hp]; simp) (by rw [hnone]; simp)]
          exact hone b
      | pushing a' hflag hatt hev her hone ht =>
          refine .pushing a' (by rw [hhandlers, if_pos rfl]; simp) (hattached.trans hatt)
            (by rw [hevents]; exact hev) (her.of_others hothers (by rw [hnone]; simp)) (fun b => ?_)
            ((htokens _).trans ht)
          rw [lookup_iff hothers (by rw [hp]; simp) (by rw [hnone]; simp)]
          exact hone b
      | queued hflag hatt hev her hpu ht =>
          exact .queued (by rw [hhandlers, if_pos rfl]; simp) (hattached.trans hatt)
            (by rw [hevents]; exact hev) (her.of_others hothers (by rw [hnone]; simp))
            (hpu.of_others hothers (by rw [hnone]; simp)) ((htokens _).trans ht)
    · refine SameClosing.closing ⟨hattached, by rw [hhandlers, if_neg hel], by rw [hevents],
        fun p hp' => ?_, htokens _⟩ (hlife.closing e)
      refine lookup_iff hothers (fun heq => ?_) (by rw [hnone]; simp)
      obtain rfl := Option.some.inj (hp.symm.trans heq)
      exact hel (by simpa [Progress.removes] using hp')

/-- A thread enters the `call_once` of `Event::Close`. Nobody has before, since the flag was
clear. -/
theorem life_closeBegins (cfg : Config) {e₀ : EventId} (hlife : Life tr s)
    (hp : s.calls.lookup a = some (.closing e₀)) (hflag : (s.handlers e₀).closeFlag = .clear)
    (e : EventId) :
    Adding (tr ++ []) ((s.setHandler e₀ { s.handlers e₀ with closeFlag := .active }).setCall a
        (.erasing e₀)) e ∧
      Closing (tr ++ []) ((s.setHandler e₀ { s.handlers e₀ with closeFlag := .active }).setCall a
        (.erasing e₀)) e := by
  have hmove : Move cfg s (.proceed a) _ [] := .closeBegins hp hflag
  have hpush : s.pushes (.proceed a) = none := by simp [pushes, hp]
  generalize hs' : ((s.setHandler e₀ { s.handlers e₀ with closeFlag := .active }).setCall a
    (.erasing e₀)) = s' at hmove ⊢
  have hothers : ∀ b, b ≠ a → s'.calls.lookup b = s.calls.lookup b := by
    intro b hb
    rw [← hs', lookup_setCall, if_neg hb]
    rfl
  have hafter : s'.calls.lookup a = some (.erasing e₀) := by
    rw [← hs', lookup_setCall, if_pos rfl]
  have hhandlers : s'.handlers e = if e = e₀ then
      { s.handlers e₀ with closeFlag := .active } else s.handlers e := by
    rw [← hs']
    exact handlers_setHandler ..
  have hattached : (s'.handlers e).attached = (s.handlers e).attached := by
    rw [hhandlers]
    split
    · rename_i he; rw [he]
    · rfl
  have hevents : s'.events = s.events := by rw [← hs']; rfl
  have htokens : ∀ el, tokens (tr ++ []) s' el = tokens tr s el := by
    intro el
    rw [tokens_step hmove, hpush, if_neg (by simp), Nat.add_zero]
  by_cases he : e = e₀
  · subst he
    refine ⟨SameAdding.adding ⟨hattached, ?_, htokens _⟩ (hlife.adding e), ?_⟩
    · exact lookup_iff hothers (by rw [hp]; simp) (by rw [hafter]; simp)
    · have hatt := hlife.attached a e hp
      cases hlife.closing e with
      | «open» _ hev her hpu _ ht =>
          exact .erasing a (by rw [hhandlers, if_pos rfl]; simp) (hattached.trans hatt)
            (by rw [hevents]; exact hev.mpr hatt) (her.only hothers hafter)
            (hpu.of_others hothers (by rw [hafter]; simp)) ((htokens _).trans ht)
      | erasing _ hflag' _ _ _ _ _ => exact absurd hflag hflag'
      | pushing _ hflag' _ _ _ _ _ => exact absurd hflag hflag'
      | queued hflag' _ _ _ _ _ => exact absurd hflag hflag'
  · refine life_of_same (a := a) hmove hlife hattached (by rw [hhandlers, if_neg he])
      (by rw [hevents]) hothers (fun p hp' => ?_) (fun p hp' => ?_) (by simp [hpush])
        (by simp [hpush])
    · obtain rfl := Option.some.inj (hp.symm.trans hp')
      simp [Progress.removes]
    · obtain rfl := Option.some.inj (hafter.symm.trans hp')
      simp [Progress.removes, Ne.symm he]

/-- `EventLoop::Remove` takes the event out of `events_`. -/
theorem life_erased (cfg : Config) {e₀ : EventId} (hlife : Life tr s)
    (hp : s.calls.lookup a = some (.erasing e₀)) (hev₀ : e₀ ∈ s.events) (e : EventId) :
    Adding (tr ++ [.closed e₀])
        ({ s with events := s.events.erase e₀ }.setCall a (.pushing (.remove e₀))) e ∧
      Closing (tr ++ [.closed e₀])
        ({ s with events := s.events.erase e₀ }.setCall a (.pushing (.remove e₀))) e := by
  have hmove : Move cfg s (.proceed a) _ [.closed e₀] := .erased hp hev₀
  have hpush : s.pushes (.proceed a) = none := by simp [pushes, hp]
  generalize hs' : ({ s with events := s.events.erase e₀ }.setCall a (.pushing (.remove e₀))) = s'
    at hmove ⊢
  have hothers : ∀ b, b ≠ a → s'.calls.lookup b = s.calls.lookup b := by
    intro b hb
    rw [← hs', lookup_setCall, if_neg hb]
  have hafter : s'.calls.lookup a = some (.pushing (.remove e₀)) := by
    rw [← hs', lookup_setCall, if_pos rfl]
  have hhandlers : s'.handlers = s.handlers := by rw [← hs']; rfl
  have hevents : s'.events = s.events.erase e₀ := by rw [← hs']; rfl
  have htokens : ∀ el, tokens (tr ++ [.closed e₀]) s' el = tokens tr s el := by
    intro el
    rw [tokens_step hmove, hpush, if_neg (by simp), Nat.add_zero]
  by_cases he : e = e₀
  · subst he
    refine ⟨SameAdding.adding ⟨by rw [hhandlers], ?_, htokens _⟩ (hlife.adding e), ?_⟩
    · exact lookup_iff hothers (by rw [hp]; simp) (by rw [hafter]; simp)
    · cases hlife.closing e with
      | erasing a' hflag hatt _ hone hpu ht =>
          obtain rfl := (hone a).mp hp
          refine .pushing a (by rw [hhandlers]; exact hflag) (by rw [hhandlers]; exact hatt) ?_
            (hone.nobody_else hothers (by rw [hafter]; simp)) (hpu.only hothers hafter)
            ((htokens _).trans ht)
          rw [hevents]
          exact hlife.nodup.not_mem_erase
      | «open» _ _ her _ _ _ => exact absurd hp (her a)
      | pushing _ _ _ _ her _ _ => exact absurd hp (her a)
      | queued _ _ _ her _ _ => exact absurd hp (her a)
  · refine life_of_same (a := a) hmove hlife (by rw [hhandlers]) (by rw [hhandlers]) ?_ hothers
      (fun p hp' => ?_) (fun p hp' => ?_) (by simp [hpush]) (by simp [hpush])
    · rw [hevents]
      exact List.mem_erase_of_ne he
    · obtain rfl := Option.some.inj (hp.symm.trans hp')
      simp [Progress.removes, Ne.symm he]
    · obtain rfl := Option.some.inj (hafter.symm.trans hp')
      simp [Progress.removes, Ne.symm he]

end Step

/-- **One step in the life of an event.** Both requests of it stay in their stages or go on to
the next. -/
theorem stages_step {cfg : Config} {l : LoopLabel} {s s' : EventLoop} {tr o : List LoopObs}
    (hlife : Life tr s) (hmove : Move cfg s l s' o) (e : EventId) :
    Adding (tr ++ o) s' e ∧ Closing (tr ++ o) s' e := by
  have hmove' := hmove
  cases hmove with
  | @call a r _ _ hmay hreq hquiet hobs =>
      exact life_of_quiet hmove' hlife
        (idle_of_mayCall hmay) hquiet.events hquiet.attached hquiet.closeFlag
        hquiet.calls rfl e
  | @attachRefused a e₀ hp hatt =>
      refine life_of_same (a := a) hmove' hlife rfl .rfl .rfl (fun b hb => by simp [hb])
        (fun p hp' => ?_) (fun p hp' => ?_) (by simp [pushes, hp]) (by simp [pushes, hp])
      · obtain rfl := Option.some.inj (hp.symm.trans hp')
        simp [Progress.removes]
      · simp at hp'
  | @created a e₀ hp hatt hfresh =>
      refine life_created hlife hmove' hp hatt rfl (fun e' => handlers_setHandler ..)
        (fun b hb => ?_) (by rw [lookup_setCall, if_pos rfl]) e
      rw [lookup_setCall, if_neg hb]
      rfl
  | pushed hp hlock => exact life_pushed cfg hlife hp hlock e
  | signalled hp => exact life_signalled cfg hlife hp e
  | @woken a hp =>
      refine life_of_same (a := a) hmove' hlife rfl .rfl .rfl (fun b hb => by simp [hb])
        (fun p hp' => ?_) (fun p hp' => ?_) (by simp [pushes, hp]) (by simp [pushes, hp])
      · obtain rfl := Option.some.inj (hp.symm.trans hp')
        simp [Progress.removes]
      · simp at hp'
  | closeBegins hp hflag => exact life_closeBegins cfg hlife hp hflag e
  | @closeReturns a e₀ hp hflag =>
      refine life_of_same (a := a) hmove' hlife rfl .rfl .rfl (fun b hb => by simp [hb])
        (fun p hp' => ?_) (fun p hp' => ?_) (by simp [pushes, hp]) (by simp [pushes, hp])
      · obtain rfl := Option.some.inj (hp.symm.trans hp')
        simp [Progress.removes]
      · simp at hp'
  | erased hp hev => exact life_erased cfg hlife hp hev e
  | light hstack hidle hlight hrun hquiet hobs hframes hnested =>
      exact life_of_quiet hmove' hlife hidle hquiet.events hquiet.attached hquiet.closeFlag
        hquiet.calls rfl e
  | @finalized i element elements rest n hstack hidle hrun hthrew =>
      have hloop := (finalizeElement_spec hrun).2.1
      refine life_of_same_calls hmove' hlife ?_ ?_ ?_ ?_ rfl
      all_goals dsimp only; rw [hloop]
  | @expire e₀ =>
      refine life_of_same_calls hmove' hlife ?_ ?_ rfl rfl rfl
      all_goals
        rw [handlers_setHandler]
        split
        · rename_i he; rw [he]
        · rfl
  | _ => exact life_of_same_calls hmove' hlife rfl rfl rfl rfl rfl

/-- `event_` is never reset. -/
theorem attached_mono {cfg : Config} {l : LoopLabel} {s s' : EventLoop} {o : List LoopObs}
    (hmove : Move cfg s l s' o) {e : EventId} (h : (s.handlers e).attached = true) :
    (s'.handlers e).attached = true := by
  cases hmove with
  | call _ _ hquiet _ => exact (hquiet.attached e).trans h
  | @created a e₀ _ _ _ =>
      change (({ s with objects := e₀ :: s.objects, events := e₀ :: s.events }.setHandler e₀
        { s.handlers e₀ with attached := true }).handlers e).attached = true
      rw [handlers_setHandler]
      split
      · rfl
      · exact h
  | pushed _ _ => rw [attached_push]; exact h
  | signalled _ => rw [attached_complete]; exact h
  | @closeBegins a e₀ _ _ =>
      change ((s.setHandler e₀ { s.handlers e₀ with closeFlag := .active }).handlers e).attached =
        true
      rw [handlers_setHandler]
      split
      · rename_i he; rw [← he]; exact h
      · exact h
  | light _ _ _ _ hquiet _ _ _ => exact (hquiet.attached e).trans h
  | finalized _ _ hrun _ =>
      dsimp only
      rw [(finalizeElement_spec hrun).2.1]
      exact h
  | @expire e₀ =>
      rw [handlers_setHandler]
      split
      · rename_i he; rw [← he]; exact h
      · exact h
  | _ => exact h

/-- `Event::Close` is begun on events that exist. -/
theorem closing_call {cfg : Config} {l : LoopLabel} {s s' : EventLoop} {o : List LoopObs}
    (hmove : Move cfg s l s' o) {b : Agent} {e : EventId}
    (h : s'.calls.lookup b = some (.closing e)) :
    s.calls.lookup b = some (.closing e) ∨ (s.handlers e).attached = true := by
  rcases call_of_move hmove h with h | hnew
  · exact .inl h
  · cases hnew with
    | starts _ hp =>
        cases hp with
        | closing hatt => exact .inr hatt

/-- The events of the loop are events of attached handlers. -/
theorem Life.attached_of_mem {tr : List LoopObs} {s : EventLoop} (h : Life tr s) {e : EventId}
    (he : e ∈ s.events) : (s.handlers e).attached = true := by
  cases h.closing e with
  | «open» _ hev _ _ _ _ => exact hev.mp he
  | erasing _ _ hatt _ _ _ _ => exact hatt
  | pushing _ _ hatt _ _ _ _ => exact hatt
  | queued _ hatt _ _ _ _ => exact hatt

/-- **One step in the life of all events.** -/
theorem life_step {cfg : Config} {l : LoopLabel} {s s' : EventLoop} {tr o : List LoopObs}
    (hlife : Life tr s) (hmove : Move cfg s l s' o) : Life (tr ++ o) s' where
  adding e := (stages_step hlife hmove e).1
  closing e := (stages_step hlife hmove e).2
  attached b e hb := by
    rcases closing_call hmove hb with h | h
    · exact attached_mono hmove (hlife.attached b e h)
    · exact attached_mono hmove h
  nodup := by
    cases hmove with
    | call _ _ hquiet _ => rw [hquiet.events]; exact hlife.nodup
    | @created a e hp hatt hfresh =>
        refine List.nodup_cons.mpr ⟨fun he => ?_, hlife.nodup⟩
        rw [hlife.attached_of_mem he] at hatt
        exact absurd hatt (by simp)
    | pushed _ _ => rw [push_events]; exact hlife.nodup
    | signalled _ => rw [complete_events]; exact hlife.nodup
    | erased _ _ => exact hlife.nodup.erase _
    | light _ _ _ _ hquiet _ _ _ => dsimp only; rw [hquiet.events]; exact hlife.nodup
    | finalized _ _ hrun _ =>
        dsimp only
        rw [(finalizeElement_spec hrun).2.1]
        exact hlife.nodup
    | _ => exact hlife.nodup

/-- The life of every event, in every state that is reached without a crash. -/
theorem life_of_run {cfg : Config} {ok : LoopLabel → EventLoop → Prop} {tr : List LoopObs}
    {s : EventLoop} (h : GuardedRun (loopSystem cfg) ok init tr s) (hc : s.crashed = none) :
    Life tr s :=
  invariant_of_run (I := fun tr s => Life tr s) life_init
    (fun _ _ ih _ hmove => life_step ih hmove) h hc

/-! ### What the stages say -/

namespace Life

variable {tr : List LoopObs} {s : EventLoop} {e : EventId}

/-- No element is finalized twice. -/
theorem tokens_add_le (h : Life tr s) : tokens tr s (.add e) ≤ 1 := by
  cases h.adding e with
  | detached _ _ ht => rw [ht]; exact Nat.zero_le _
  | pushing _ _ _ ht => rw [ht]; exact Nat.zero_le _
  | queued _ _ ht => rw [ht]

theorem tokens_remove_le (h : Life tr s) : tokens tr s (.remove e) ≤ 1 := by
  cases h.closing e with
  | «open» _ _ _ _ _ ht => rw [ht]; exact Nat.zero_le _
  | erasing _ _ _ _ _ _ ht => rw [ht]; exact Nat.zero_le _
  | pushing _ _ _ _ _ _ ht => rw [ht]; exact Nat.zero_le _
  | queued _ _ _ _ _ ht => rw [ht]

/-- A removal that is asked for is the removal of an attached event that is closed. -/
theorem closed_of_tokens (h : Life tr s) (ht : 0 < tokens tr s (.remove e)) :
    (s.handlers e).attached = true ∧ e ∉ s.events := by
  cases h.closing e with
  | queued _ hatt hev _ _ _ => exact ⟨hatt, hev⟩
  | «open» _ _ _ _ _ ht' => rw [ht'] at ht; exact absurd ht (Nat.lt_irrefl _)
  | erasing _ _ _ _ _ _ ht' => rw [ht'] at ht; exact absurd ht (Nat.lt_irrefl _)
  | pushing _ _ _ _ _ _ ht' => rw [ht'] at ht; exact absurd ht (Nat.lt_irrefl _)

/-- The registration of an attached event is on its way, or asked for. -/
theorem added_of_attached (h : Life tr s) (hatt : (s.handlers e).attached = true)
    (hno : s.Nobody (.pushing (.add e))) : tokens tr s (.add e) = 1 := by
  cases h.adding e with
  | queued _ _ ht => exact ht
  | detached hatt' _ _ => rw [hatt] at hatt'; exact absurd hatt' (by simp)
  | pushing a _ hone _ => exact absurd ((hone a).mpr rfl) (hno a)

/-- The registration of an event is asked for once its handler is attached. -/
theorem attached_of_tokens (h : Life tr s) (ht : 0 < tokens tr s (.add e)) :
    (s.handlers e).attached = true := by
  cases h.adding e with
  | queued hatt _ _ => exact hatt
  | detached _ _ ht' => rw [ht'] at ht; exact absurd ht (Nat.lt_irrefl _)
  | pushing _ _ _ ht' => rw [ht'] at ht; exact absurd ht (Nat.lt_irrefl _)

/-- `EventLoop::Remove` finds its event. -/
theorem mem_of_erasing (h : Life tr s) {a : Agent}
    (ha : s.calls.lookup a = some (.erasing e)) : e ∈ s.events := by
  cases h.closing e with
  | erasing _ _ _ hev _ _ _ => exact hev
  | «open» _ _ her _ _ _ => exact absurd ha (her a)
  | pushing _ _ _ _ her _ _ => exact absurd ha (her a)
  | queued _ _ _ her _ _ => exact absurd ha (her a)

end Life

end EventLoop

end Libael
