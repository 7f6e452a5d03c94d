import Libael.EventLoop.Drain

/-!
# Libael.EventLoop.Registration

The table of `EPoll` is the history of the finalize functions: **an event is in `events_`, and
its descriptor in the interest list of the kernel, from its `AddFinalize` to its
`RemoveFinalize`**, and nothing else changes either of them.

* `TableMove` says what a transition does to the table and to the interest list: nothing, or
  what the finalize functions do, or the kernel drops a descriptor that is closed.
* `Registered` compares the two with the trace. Its step lemma needs the lifecycle of events,
  by which both finalize functions are called at most once for an event, and `Owned`, by which
  a descriptor that is closed belongs to an event that is in the table no more.
-/

namespace Libael

open Lts

namespace EventLoop

/-- `AddFinalize` has been called on the event. -/
def Added (tr : List LoopObs) (e : EventId) : Prop := .add e ∈ finalized tr

/-- `RemoveFinalize` has been called on the event. -/
def Removed (tr : List LoopObs) (e : EventId) : Prop := .remove e ∈ finalized tr

theorem Added.append {tr : List LoopObs} {e : EventId} (h : Added tr e) (o : List LoopObs) :
    Added (tr ++ o) e := by
  unfold Added
  rw [finalized_append]
  exact List.mem_append_left _ h

theorem Removed.append {tr : List LoopObs} {e : EventId} (h : Removed tr e) (o : List LoopObs) :
    Removed (tr ++ o) e := by
  unfold Removed
  rw [finalized_append]
  exact List.mem_append_left _ h

/-- What a transition can do to the table and the interest list. -/
inductive TableMove (cfg : Config) (s s' : EventLoop) (o : List LoopObs) : Prop
  | same : s'.epoll.events = s.epoll.events → s'.epoll.interest = s.epoll.interest →
      finalized o = [] → TableMove cfg s s' o
  | closed (e : EventId) : s.unreferenced cfg e = true → e ∈ s.objects → cfg.valid e = true →
      s'.epoll.events = s.epoll.events →
      s'.epoll.interest = Function.update s.epoll.interest (cfg.handle e) none →
      finalized o = [] → TableMove cfg s s' o
  | finalized (element : Element) (elements : List Element) (rest : List LoopFrame)
      (n : LoopNext) : s.stack = .finalize (element :: elements) :: rest →
      Finalizes cfg s element n → s'.epoll = n.loop.epoll → o = n.obs → TableMove cfg s s' o

/-- Every transition is one of those of `TableMove`. -/
theorem tableMove_of_move {cfg : Config} {l : LoopLabel} {s s' : EventLoop} {o : List LoopObs}
    (hmove : Move cfg s l s' o) : TableMove cfg s s' o := by
  cases hmove with
  | call _ _ hquiet hobs =>
      exact .same (by rw [hquiet.epoll]) (by rw [hquiet.epoll]) (finalized_minor hobs)
  | @pushed a element hp hlock =>
      rcases push_spec s a element with ⟨-, heq⟩ | ⟨-, heq⟩
      · rw [heq]; exact .same rfl rfl rfl
      · rw [heq]
        exact .same (by rw [complete_epoll]) (by rw [complete_epoll]) rfl
  | signalled _ =>
      refine .same ?_ ?_ rfl
      · rw [complete_epoll]; exact EPoll.wakeup_events s.epoll
      · rw [complete_epoll]; exact EPoll.wakeup_interest s.epoll
  | woken _ => exact .same (EPoll.wakeup_events s.epoll) (EPoll.wakeup_interest s.epoll) rfl
  | light _ _ _ _ hquiet hobs _ _ =>
      exact .same (by dsimp only; rw [hquiet.epoll]) (by dsimp only; rw [hquiet.epoll])
        (finalized_minor hobs)
  | finalized hstack _ hrun hthrew =>
      exact .finalized _ _ _ _ hstack (finalizes hrun hthrew) rfl rfl
  | edge _ => exact .same (EPoll.queueItem_events ..) (EPoll.queueItem_interest ..) rfl
  | @destroyed e epoll o he hun hepoll =>
      rcases hepoll with ⟨-, rfl, rfl⟩ | ⟨hvalid, rfl, rfl⟩
      · exact .same rfl rfl rfl
      · exact .closed e hun he hvalid rfl rfl rfl
  | _ => exact .same rfl rfl rfl

/-- What `Finalizes` shows. -/
theorem finalized_obs {cfg : Config} {s : EventLoop} {element : Element} {n : LoopNext}
    (h : Finalizes cfg s element n) : finalized n.obs = [element] := by
  cases h <;> rfl

/-- The table, the interest list and the history of the finalize functions agree. -/
structure Registered (cfg : Config) (tr : List LoopObs) (s : EventLoop) : Prop where
  interest : s.epoll.interest = s.epoll.events
  table : ∀ fd e, s.epoll.events fd = some e → Added tr e ∧ ¬Removed tr e
  registered : ∀ e, cfg.valid e = true → Added tr e → ¬Removed tr e →
    s.epoll.events (cfg.handle e) = some e
  order : ∀ e, cfg.valid e = true → Removed tr e → Added tr e

theorem registered_init (cfg : Config) : Registered cfg [] init where
  interest := rfl
  table fd e h := absurd h (by simp [init, EPoll.new])
  registered e _ h := absurd h (by simp [Added, Libael.finalized])
  order e _ h := absurd h (by simp [Removed, Libael.finalized])

/-- Nothing has been finalized that has a descriptor. -/
theorem Registered.of_same {cfg : Config} {tr o : List LoopObs} {s s' : EventLoop}
    (h : Registered cfg tr s) (howned : Owned cfg s) (hevents : s'.epoll.events = s.epoll.events)
    (hinterest : s'.epoll.interest = s.epoll.events)
    (ho : ∀ element ∈ finalized o, element.queue = .ready ∨ cfg.valid element.event = false) :
    Registered cfg (tr ++ o) s' := by
  have hadded : ∀ e, cfg.valid e = true → (Added (tr ++ o) e ↔ Added tr e) := fun e hvalid => by
    unfold Added
    rw [finalized_append, List.mem_append]
    refine or_iff_left fun hmem => ?_
    simpa [Element.queue, Element.event, hvalid] using ho _ hmem
  have hremoved : ∀ e, cfg.valid e = true → (Removed (tr ++ o) e ↔ Removed tr e) :=
    fun e hvalid => by
    unfold Removed
    rw [finalized_append, List.mem_append]
    refine or_iff_left fun hmem => ?_
    simpa [Element.queue, Element.event, hvalid] using ho _ hmem
  refine ⟨by rw [hevents, hinterest], ?_, ?_, ?_⟩
  · intro fd e he
    rw [hevents] at he
    have hvalid := (howned.table fd e he).2.2
    rw [hadded e hvalid, hremoved e hvalid]
    exact h.table fd e he
  · intro e hvalid hadd hrem
    rw [hadded e hvalid] at hadd
    rw [hremoved e hvalid] at hrem
    rw [hevents]
    exact h.registered e hvalid hadd hrem
  · intro e hvalid hrem
    rw [hremoved e hvalid] at hrem
    rw [hadded e hvalid]
    exact h.order e hvalid hrem

/-- An element that is being finalized has not been finalized before. -/
theorem notMem_finalized {tr : List LoopObs} {s : EventLoop} {element : Element}
    (hle : tokens tr s element ≤ 1) {elements : List Element} {rest : List LoopFrame}
    (hstack : s.stack = .finalize (element :: elements) :: rest) : element ∉ finalized tr := by
  intro hmem
  have hpos : 0 < (finalized tr).count element := List.count_pos_iff.mpr hmem
  have hdrain : 0 < (draining s.stack).count element :=
    List.count_pos_iff.mpr (by rw [hstack]; simp [LoopFrame.elements])
  unfold tokens at hle
  omega

/-- An open event is not removed. -/
theorem not_removed_of_mem {tr : List LoopObs} {s : EventLoop} (hlife : Life tr s) {e : EventId}
    (he : e ∈ s.events) : ¬Removed tr e := by
  intro hrem
  have htoken : 0 < tokens tr s (.remove e) := by
    have hpos := List.count_pos_iff.mpr hrem
    unfold tokens
    omega
  exact (hlife.closed_of_tokens htoken).2 he

section Finalized

variable {cfg : Config} {tr : List LoopObs} {s : EventLoop}

/-- `AddFinalize` of an event with a descriptor. -/
theorem Registered.add (h : Registered cfg tr s) (howned : Owned cfg s) {e : EventId}
    (he : e ∈ s.objects) (hnew : ¬Removed tr e) {o : List LoopObs}
    (ho : finalized o = [.add e]) {s' : EventLoop}
    (hevents : s'.epoll.events = Function.update s.epoll.events (cfg.handle e) (some e))
    (hinterest : s'.epoll.interest = Function.update s.epoll.interest (cfg.handle e) (some e)) :
    Registered cfg (tr ++ o) s' := by
  have hadded : ∀ e', Added (tr ++ o) e' ↔ Added tr e' ∨ e' = e := fun e' => by
    unfold Added
    rw [finalized_append, ho]
    simp
  have hremoved : ∀ e', Removed (tr ++ o) e' ↔ Removed tr e' := fun e' => by
    unfold Removed
    rw [finalized_append, ho]
    simp
  refine ⟨by rw [hevents, hinterest, h.interest], ?_, ?_, ?_⟩
  · intro fd e' he'
    rw [hadded, hremoved]
    by_cases hfd : fd = cfg.handle e
    · rw [hevents, hfd, Function.update_self] at he'
      obtain rfl := Option.some.inj he'
      exact ⟨.inr rfl, hnew⟩
    · rw [hevents, Function.update_of_ne hfd] at he'
      exact ⟨.inl (h.table fd e' he').1, (h.table fd e' he').2⟩
  · intro e' hvalid' hadd hrem
    rw [hadded] at hadd
    rw [hremoved] at hrem
    rw [hevents]
    by_cases heq : e' = e
    · rw [heq, Function.update_self]
    · have hin := h.registered e' hvalid' (hadd.resolve_right heq) hrem
      have hne : cfg.handle e' ≠ cfg.handle e := fun hfd =>
        heq (howned.distinct e' (howned.table _ _ hin).1 e he hvalid' hfd)
      rw [Function.update_of_ne hne]
      exact hin
  · intro e' hvalid' hrem
    rw [hremoved] at hrem
    rw [hadded]
    exact .inl (h.order e' hvalid' hrem)

/-- `RemoveFinalize` of an event with a descriptor that is registered. -/
theorem Registered.remove (h : Registered cfg tr s) (howned : Owned cfg s) {e : EventId}
    (he : e ∈ s.objects) (hvalid : cfg.valid e = true)
    (hsome : s.epoll.events (cfg.handle e) ≠ none) {o : List LoopObs}
    (ho : finalized o = [.remove e]) {s' : EventLoop}
    (hevents : s'.epoll.events = Function.update s.epoll.events (cfg.handle e) none)
    (hinterest : s'.epoll.interest = Function.update s.epoll.interest (cfg.handle e) none) :
    Registered cfg (tr ++ o) s' := by
  have hadded : ∀ e', Added (tr ++ o) e' ↔ Added tr e' := fun e' => by
    unfold Added
    rw [finalized_append, ho]
    simp
  have hremoved : ∀ e', Removed (tr ++ o) e' ↔ Removed tr e' ∨ e' = e := fun e' => by
    unfold Removed
    rw [finalized_append, ho]
    simp
  -- the entry for the descriptor is the event's own
  have hown : s.epoll.events (cfg.handle e) = some e := by
    obtain ⟨e', he'⟩ := Option.ne_none_iff_exists'.mp hsome
    obtain ⟨hmem, hfd, -⟩ := howned.table _ _ he'
    rw [he', howned.distinct e he e' hmem hvalid hfd.symm]
  refine ⟨by rw [hevents, hinterest, h.interest], ?_, ?_, ?_⟩
  · intro fd e' he'
    rw [hadded, hremoved]
    by_cases hfd : fd = cfg.handle e
    · rw [hevents, hfd, Function.update_self] at he'
      exact absurd he' (by simp)
    · rw [hevents, Function.update_of_ne hfd] at he'
      refine ⟨(h.table fd e' he').1, fun hrem => ?_⟩
      rcases hrem with hrem | rfl
      · exact (h.table fd e' he').2 hrem
      · exact hfd (howned.table fd e' he').2.1.symm
  · intro e' hvalid' hadd hrem
    rw [hadded] at hadd
    rw [hremoved, not_or] at hrem
    have hin := h.registered e' hvalid' hadd hrem.1
    have hne : cfg.handle e' ≠ cfg.handle e := fun hfd =>
      hrem.2 (howned.distinct e' (howned.table _ _ hin).1 e he hvalid' hfd)
    rw [hevents, Function.update_of_ne hne]
    exact hin
  · intro e' hvalid' hrem
    rw [hremoved] at hrem
    rw [hadded]
    rcases hrem with hrem | rfl
    · exact h.order e' hvalid' hrem
    · exact (h.table _ _ hown).1

end Finalized

/-- **One step keeps the table and the history in agreement.** -/
theorem registered_step {cfg : Config} {l : LoopLabel} {s s' : EventLoop} {tr o : List LoopObs}
    (h : Registered cfg tr s) (howned : Owned cfg s) (hlife : Life tr s)
    (hmove : Move cfg s l s' o) : Registered cfg (tr ++ o) s' := by
  cases tableMove_of_move hmove with
  | same hevents hinterest ho =>
      refine h.of_same howned hevents (hinterest.trans h.interest) fun element hel => ?_
      rw [ho] at hel
      exact absurd hel List.not_mem_nil
  | closed e hun he hvalid hevents hinterest ho =>
      refine h.of_same howned hevents ?_ fun element hel => ?_
      · -- nothing is registered for a descriptor whose event nobody refers to
        have hnone : s.epoll.events (cfg.handle e) = none := by
          rw [Option.eq_none_iff_forall_ne_some]
          intro e' he'
          obtain ⟨hmem, hfd, -⟩ := howned.table _ _ he'
          obtain rfl := howned.distinct e he e' hmem hvalid hfd.symm
          exact (unreferenced_spec hun).2.2.2.1 he'
        rw [hinterest, h.interest, Function.update_eq_self_iff]
        exact hnone.symm
      · rw [ho] at hel
        exact absurd hel List.not_mem_nil
  | finalized element elements rest n hstack hfin hepoll ho =>
      have hel : element.event ∈ s.objects :=
        howned.frames _ (by rw [hstack]; exact List.mem_cons_self) _ (by simp [LoopFrame.mentions])
      have hobs := finalized_obs hfin
      rw [← ho] at hobs
      cases hfin with
      | addNoHandle hvalid | removeNoHandle hvalid =>
          refine h.of_same howned (by rw [hepoll]) (by rw [hepoll]; exact h.interest) fun x hx => ?_
          rw [hobs, List.mem_singleton] at hx
          rw [hx]
          exact .inr hvalid
      | ignored _ | ready _ =>
          refine h.of_same howned (by rw [hepoll]) (by rw [hepoll]; exact h.interest) fun x hx => ?_
          rw [hobs, List.mem_singleton] at hx
          rw [hx]
          exact .inl rfl
      | @add e asked hvalid hfree =>
          have hnew : ¬Removed tr e := fun hrem =>
            notMem_finalized hlife.tokens_add_le hstack (h.order e hvalid hrem)
          exact h.add howned hel hnew hobs (by rw [hepoll]; rfl) (by rw [hepoll]; rfl)
      | @remove e hvalid hsome =>
          exact h.remove howned hel hvalid hsome hobs (by rw [hepoll]; rfl) (by rw [hepoll]; rfl)

/-- The table and the history agree in every state reached without a crash. -/
theorem registered_of_run {cfg : Config} {ok : LoopLabel → EventLoop → Prop} {tr : List LoopObs}
    {s : EventLoop} (h : GuardedRun (loopSystem cfg) ok init tr s) (hc : s.crashed = none) :
    Registered cfg tr s :=
  invariant_of_run (I := fun tr s => Registered cfg tr s) (registered_init cfg)
    (fun hrun hc ih _ hmove =>
      registered_step ih (owned_of_run hrun hc) (life_of_run hrun hc) hmove) h hc

end EventLoop

end Libael
