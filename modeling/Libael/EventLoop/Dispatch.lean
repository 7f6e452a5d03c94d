import Libael.EventLoop.Removal

/-!
# Libael.EventLoop.Dispatch

Whose handler a notification of `epoll_wait` reaches. `Process` looks the handler up by the
bare descriptor, which may have been handed out again since `epoll_wait` returned.

What keeps a stale notification from a new owner is the order inside a batch. The eventfd is
reported at most once in it (`nodup`), and behind its notification the add queue is swapped
before the remove queue. A descriptor that loses its event is therefore without one until the
batch ends: the registration of its next owner waits for the next batch.

* `Fresh` is this fact about one notification of the batch: its descriptor still belongs to
  the event it was reported for, or to none and to none until the batch ends (`NoMoreAdds`).
* `Batched` says it of all of them. Most transitions only shrink the stack (`Shrinks`); those
  that wait, read the eventfd, swap or finalize have a lemma each.
* `Running` says that a handler with a descriptor runs while its event is registered, which
  turns the state before a dispatch into a statement about the trace.
-/

namespace Libael

open Lts

namespace EPoll

/-- What `epoll_wait` hands out, and what it leaves, keeps the order of the queue. -/
theorem harvest_sublist {report : Item → Option EPollEvents} : ∀ {room : Nat} {items : List Item},
    ((harvest report room items).1.map (·.item)).Sublist items ∧
      (harvest report room items).2.Sublist items
  | 0, items => by simp [harvest]
  | _ + 1, [] => by simp [harvest]
  | room + 1, i :: items => by
      cases hi : report i with
      | none =>
          simp only [harvest, hi]
          obtain ⟨h₁, h₂⟩ := @harvest_sublist report (room + 1) items
          exact ⟨h₁.cons i, h₂.cons i⟩
      | some events =>
          simp only [harvest, hi]
          obtain ⟨h₁, h₂⟩ := @harvest_sublist report room items
          exact ⟨h₁.cons_cons i, h₂.cons i⟩

theorem nodup_queueItem {p : EPoll} (h : p.readyItems.Nodup) (i : Item) :
    (p.queueItem i).readyItems.Nodup := by
  unfold queueItem
  split
  · exact h
  · rename_i hi
    refine List.nodup_append'.mpr ⟨h, List.nodup_singleton i, ?_⟩
    simpa using hi

theorem nodup_wakeup {p : EPoll} (h : p.readyItems.Nodup) : p.wakeup.readyItems.Nodup :=
  nodup_queueItem (p := { p with counter := p.counter + 1 }) h _

theorem nodup_unregister {p : EPoll} (h : p.readyItems.Nodup) (fd : Fd) :
    (p.unregister fd).readyItems.Nodup := h.filter _

end EPoll

/-- The frame is part of `HandleEvents` of `e`. -/
def LoopFrame.runs (e : EventId) : LoopFrame → Bool
  | .handleEvents e' _ | .callback e' | .timerRead e' | .timerRun e' _ => e' == e
  | _ => false

theorem LoopFrame.level_of_runs {e : EventId} {f : LoopFrame} (h : f.runs e = true) :
    f.level = 3 := by
  cases f <;> first | rfl | exact absurd h (by simp [LoopFrame.runs])

namespace EventLoop

/-- Nothing more will be registered for `fd` before the batch ends. -/
structure NoMoreAdds (cfg : Config) (s : EventLoop) (fd : Fd) : Prop where
  /-- The loop is not about to read the eventfd, -/
  reading : LoopFrame.eventfdRead ∉ s.stack
  /-- nor to swap the add queue, -/
  swapping : LoopFrame.handleElements .add ∉ s.stack
  /-- and what has been swapped out is no registration of the descriptor. -/
  draining : ∀ e, .add e ∈ draining s.stack → cfg.handle e ≠ fd

/-- A notification of the batch is for the event that owns its descriptor, or for none. -/
def Fresh (cfg : Config) (s : EventLoop) (ns : List Notification) (fd : Fd) (e : EventId) : Prop :=
  s.epoll.events fd = some e ∨
    s.epoll.events fd = none ∧ (∀ n ∈ ns, n.item ≠ .pendingFd) ∧ NoMoreAdds cfg s fd

/-- The batch of `Process` that is on the stack. -/
structure Batched (cfg : Config) (s : EventLoop) : Prop where
  /-- The kernel queues an item once, so `epoll_wait` reports it once. -/
  items : s.epoll.readyItems.Nodup
  /-- The same of the notifications that are left: the eventfd is read once in a batch. -/
  nodup : ∀ ns final, .batch ns final ∈ s.stack → (ns.map (·.item)).Nodup
  /-- While the queues are drained, the notification of the eventfd is out of the batch. -/
  drained : ∀ ns final, .batch ns final ∈ s.stack → drainFrames s.stack ≠ [] →
    ∀ n ∈ ns, n.item ≠ .pendingFd
  /-- What a notification of a descriptor finds in the table, if anything, is its own event. -/
  fresh : ∀ ns final, .batch ns final ∈ s.stack → ∀ n ∈ ns, ∀ fd e, n.item = .descriptor fd e →
    Fresh cfg s ns fd e

theorem batched_init (cfg : Config) : Batched cfg init where
  items := List.nodup_nil
  nodup ns final h := absurd h (by simp [init])
  drained ns final h := absurd h (by simp [init])
  fresh ns final h := absurd h (by simp [init])

/-! ### Steps -/

/-- The frames of the drain, and the batches with something in them, were there before. -/
structure Shrinks (s s' : EventLoop) : Prop where
  /-- A batch that is new on the stack has nothing left to go through. -/
  batch : ∀ ns final, .batch ns final ∈ s'.stack → ns = [] ∨ .batch ns final ∈ s.stack
  /-- The draining of the queues has got no longer. -/
  frames : ∀ f ∈ s'.stack, f.inDrain = true → f ∈ s.stack

theorem Shrinks.of_eq {s s' : EventLoop} (h : s'.stack = s.stack) : Shrinks s s' where
  batch _ _ hmem := .inr (h ▸ hmem)
  frames _ hf _ := h ▸ hf

theorem drainFrames_ne_nil {stack : List LoopFrame} :
    drainFrames stack ≠ [] ↔ ∃ f ∈ stack, f.inDrain = true := by
  unfold drainFrames
  rw [ne_eq, List.filter_eq_nil_iff]
  simp

/-- The elements being drained are those of the finalize loops on the stack. -/
theorem mem_draining {stack : List LoopFrame} {element : Element} :
    element ∈ draining stack ↔ ∃ elements, .finalize elements ∈ stack ∧ element ∈ elements := by
  unfold draining
  rw [List.mem_flatMap]
  constructor
  · rintro ⟨f, hf, hmem⟩
    cases f with
    | finalize elements => exact ⟨elements, hf, hmem⟩
    | _ => exact absurd hmem List.not_mem_nil
  · rintro ⟨elements, hf, hmem⟩
    exact ⟨_, hf, hmem⟩

theorem Shrinks.noMoreAdds {cfg : Config} {s s' : EventLoop} (h : Shrinks s s') {fd : Fd}
    (hno : NoMoreAdds cfg s fd) : NoMoreAdds cfg s' fd where
  reading hf := hno.reading (h.frames _ hf rfl)
  swapping hf := hno.swapping (h.frames _ hf rfl)
  draining e he := by
    obtain ⟨elements, hf, hmem⟩ := mem_draining.mp he
    exact hno.draining e (mem_draining.mpr ⟨elements, h.frames _ hf rfl, hmem⟩)

/-- A step that neither changes the table nor begins anything. The notifications stay as fresh as
they were, since what could spoil them would have to appear on the stack. -/
theorem Batched.of_shrinks {cfg : Config} {s s' : EventLoop} (h : Batched cfg s)
    (hshrinks : Shrinks s s') (hevents : s'.epoll.events = s.epoll.events)
    (hitems : s'.epoll.readyItems.Nodup) : Batched cfg s' where
  items := hitems
  nodup ns final hmem := by
    rcases hshrinks.batch ns final hmem with rfl | hmem
    · exact List.nodup_nil
    · exact h.nodup ns final hmem
  drained ns final hmem hdrain n hn := by
    obtain ⟨f, hf, hin⟩ := drainFrames_ne_nil.mp hdrain
    rcases hshrinks.batch ns final hmem with rfl | hmem
    · exact absurd hn List.not_mem_nil
    · exact h.drained ns final hmem (drainFrames_ne_nil.mpr ⟨f, hshrinks.frames f hf hin, hin⟩) n hn
  fresh ns final hmem n hn fd e hitem := by
    rcases hshrinks.batch ns final hmem with rfl | hmem
    · exact absurd hn List.not_mem_nil
    · unfold Fresh
      rw [hevents]
      rcases h.fresh ns final hmem n hn fd e hitem with hown | ⟨hnone, hpending, hno⟩
      · exact .inl hown
      · exact .inr ⟨hnone, hpending, hshrinks.noMoreAdds hno⟩

/-- A light frame leaves no frame of the drain and no batch to go through. -/
theorem shrinks_light {s : EventLoop} {f : LoopFrame} {rest : List LoopFrame} {n : LoopNext}
    (hstack : s.stack = f :: rest) (hframes : LightFrames n) :
    Shrinks s { n.loop with stack := n.frames ++ rest } where
  batch ns final hmem := by
    rcases List.mem_append.mp hmem with hmem | hmem
    · left
      cases ns with
      | nil => rfl
      | cons n ns =>
          rcases hframes with hlight | ⟨final', hframes, -⟩
          · exact absurd (hlight _ hmem).1 (by simp [LoopFrame.light])
          · rw [hframes, List.mem_singleton] at hmem
            exact absurd hmem (by simp)
    · right
      rw [hstack]
      exact List.mem_cons_of_mem _ hmem
  frames g hg hin := by
    rcases List.mem_append.mp hg with hg | hg
    · rcases hframes with hlight | ⟨final', hframes, -⟩
      · rw [(hlight g hg).2] at hin
        exact absurd hin (by simp)
      · rw [hframes, List.mem_singleton] at hg
        rw [hg] at hin
        exact absurd hin (by simp [LoopFrame.inDrain])
    · rw [hstack]
      exact List.mem_cons_of_mem _ hg

/-- `epoll_wait` returns a batch: each notification is for the registration that made it. -/
theorem batched_wait {cfg : Config} {s : EventLoop} (h : Batched cfg s) (howned : Owned cfg s)
    (hlayered : Layered s.stack) {tr : List LoopObs} (hreg : Registered cfg tr s)
    (poll : Fd → EventId → Option EPollEvents) {final : Bool} {rest : List LoopFrame}
    (hstack : s.stack = .process final :: rest) :
    Batched cfg { s with
      epoll := (s.epoll.epollWait poll).2
      stack := (if (s.epoll.epollWait poll).1.isEmpty then .process final
        else .batch (s.epoll.epollWait poll).1 final) :: rest } := by
  rw [hstack] at hlayered
  obtain rfl : rest = [] := hlayered.eq_nil rfl
  have hbatch : ∀ ns final', .batch ns final' ∈ [if (s.epoll.epollWait poll).1.isEmpty then
      LoopFrame.process final else .batch (s.epoll.epollWait poll).1 final] →
      ns = (s.epoll.epollWait poll).1 := by
    intro ns final' hmem
    rw [List.mem_singleton] at hmem
    split at hmem
    · exact absurd hmem (by simp)
    · exact (LoopFrame.batch.inj hmem).1
  refine ⟨?_, ?_, ?_, ?_⟩
  · exact h.items.sublist EPoll.harvest_sublist.2
  · intro ns final' hmem
    rw [hbatch ns final' hmem]
    exact h.items.sublist EPoll.harvest_sublist.1
  · intro ns final' hmem hdrain
    obtain ⟨f, hf, hin⟩ := drainFrames_ne_nil.mp hdrain
    rw [List.mem_singleton] at hf
    rw [hf] at hin
    split at hin <;> exact absurd hin (by simp [LoopFrame.inDrain])
  · intro ns final' hmem n hn fd e hitem
    rw [hbatch ns final' hmem] at hn
    have hqueued := EPoll.harvest_subset.1 n hn
    rw [hitem] at hqueued
    have hinterest := howned.readyItems fd e hqueued
    rw [hreg.interest] at hinterest
    exact .inl hinterest

/-- The loop of `Process` goes on to the next notification. The rest of the batch is as fresh as
it was, and if the notification is that of the eventfd it was the only one. -/
theorem batched_notification {cfg : Config} {s : EventLoop} (h : Batched cfg s)
    (hlayered : Layered s.stack) {n : Notification} {ns : List Notification} {final : Bool}
    {rest : List LoopFrame} (hstack : s.stack = .batch (n :: ns) final :: rest) :
    Batched cfg { s with stack := s.processNotification n ++ .batch ns final :: rest } := by
  rw [hstack] at hlayered
  obtain rfl : rest = [] := hlayered.eq_nil rfl
  have hmem₀ : .batch (n :: ns) final ∈ s.stack := by rw [hstack]; exact List.mem_cons_self
  have hnodup := h.nodup _ _ hmem₀
  rw [List.map_cons, List.nodup_cons] at hnodup
  have hbatch : ∀ ns' final', .batch ns' final' ∈ s.processNotification n ++ [.batch ns final] →
      ns' = ns := by
    intro ns' final' hmem
    rcases List.mem_append.mp hmem with hmem | hmem
    · rcases processNotification_spec s n with ⟨-, heq⟩ | ⟨-, heq | ⟨fd, e, events, -, heq⟩⟩
      all_goals
        rw [heq] at hmem
        exact absurd hmem (by simp)
    · exact (LoopFrame.batch.inj (List.mem_singleton.mp hmem)).1
  have hin : ∀ f ∈ s.processNotification n ++ [.batch ns final], f.inDrain = true →
      f = .eventfdRead ∧ n.item = .pendingFd := by
    intro f hf hin
    rcases List.mem_append.mp hf with hf | hf
    · rcases processNotification_spec s n with ⟨hitem, heq⟩ | ⟨-, heq | ⟨fd, e, events, -, heq⟩⟩
      · rw [heq] at hf
        exact ⟨List.mem_singleton.mp hf, hitem⟩
      · rw [heq] at hf
        exact absurd hf List.not_mem_nil
      · rw [heq] at hf
        simp only [List.mem_cons, List.not_mem_nil, or_false] at hf
        obtain rfl | rfl := hf <;> exact absurd hin (by simp [LoopFrame.inDrain])
    · rw [List.mem_singleton.mp hf] at hin
      exact absurd hin (by simp [LoopFrame.inDrain])
  refine ⟨h.items, ?_, ?_, ?_⟩
  · intro ns' final' hmem
    rw [hbatch ns' final' hmem]
    exact hnodup.2
  · intro ns' final' hmem hdrain n' hn' hitem'
    rw [hbatch ns' final' hmem] at hn'
    obtain ⟨f, hf, hfin⟩ := drainFrames_ne_nil.mp hdrain
    -- the eventfd has just been taken out of the batch, and is not in it twice
    have hitem := (hin f hf hfin).2
    refine hnodup.1 ?_
    rw [hitem, ← hitem']
    exact List.mem_map_of_mem hn'
  · intro ns' final' hmem n' hn' fd e hitem'
    rw [hbatch ns' final' hmem] at hn' ⊢
    rcases h.fresh _ _ hmem₀ n' (List.mem_cons_of_mem _ hn') fd e hitem' with
      hown | ⟨hnone, hpending, hno⟩
    · exact .inl hown
    · have hdescriptor := hpending n List.mem_cons_self
      refine .inr ⟨hnone, fun m hm => hpending m (List.mem_cons_of_mem _ hm), ?_⟩
      have hnodrain : ∀ f ∈ s.processNotification n ++ [.batch ns final], f.inDrain = false :=
        fun f hf => by
          cases hfin : f.inDrain with
          | false => rfl
          | true => exact absurd (hin f hf hfin).2 hdescriptor
      refine ⟨fun hf => ?_, fun hf => ?_, fun e' he' => ?_⟩
      · exact absurd (hnodrain _ hf) (by simp [LoopFrame.inDrain])
      · exact absurd (hnodrain _ hf) (by simp [LoopFrame.inDrain])
      · obtain ⟨elements, hf, -⟩ := mem_draining.mp he'
        exact absurd (hnodrain _ hf) (by simp [LoopFrame.inDrain])

/-- The eventfd has been read, and the queues are to be swapped. No notification of the batch may
have relied on `NoMoreAdds` before: the frame that reads the eventfd was still on the stack, so
all of them find their own event. -/
theorem batched_drained {cfg : Config} {s : EventLoop} (h : Batched cfg s) {rest : List LoopFrame}
    (hstack : s.stack = .eventfdRead :: rest) :
    Batched cfg { s with
      stack :=
        .handleElements .add :: .handleElements .remove :: .handleElements .ready :: rest } := by
  have hbatch : ∀ ns final, .batch ns final ∈ LoopFrame.handleElements .add ::
      .handleElements .remove :: .handleElements .ready :: rest → .batch ns final ∈ s.stack := by
    intro ns final hmem
    simp only [List.mem_cons, reduceCtorEq, false_or] at hmem
    rw [hstack]
    exact List.mem_cons_of_mem _ hmem
  have hreading : LoopFrame.eventfdRead ∈ s.stack := by rw [hstack]; exact List.mem_cons_self
  have hdrain : drainFrames s.stack ≠ [] := drainFrames_ne_nil.mpr ⟨_, hreading, rfl⟩
  refine ⟨h.items, fun ns final hmem => h.nodup ns final (hbatch ns final hmem),
    fun ns final hmem _ => h.drained ns final (hbatch ns final hmem) hdrain, ?_⟩
  intro ns final hmem n hn fd e hitem
  rcases h.fresh ns final (hbatch ns final hmem) n hn fd e hitem with hown | ⟨-, -, hno⟩
  · exact .inl hown
  · exact absurd hreading hno.reading

/-- A queue has been swapped out. A notification whose descriptor is nobody's relies on
`NoMoreAdds`, so the queue is not that of the registrations, and what it holds registers nothing.
-/
theorem batched_swapped {cfg : Config} {s : EventLoop} (h : Batched cfg s)
    (hdraining : Draining s) {q : Queue} {rest : List LoopFrame}
    (hstack : s.stack = .handleElements q :: rest) :
    Batched cfg { s with
      epoll := (s.epoll.swapElements q).2
      stack :=
        .finalize (s.epoll.eventsPending q) :: .dispose (s.epoll.eventsPending q) :: rest } := by
  have hbatch : ∀ ns final, .batch ns final ∈ LoopFrame.finalize (s.epoll.eventsPending q) ::
      .dispose (s.epoll.eventsPending q) :: rest → .batch ns final ∈ s.stack := by
    intro ns final hmem
    simp only [List.mem_cons, reduceCtorEq, false_or] at hmem
    rw [hstack]
    exact List.mem_cons_of_mem _ hmem
  have hswap : LoopFrame.handleElements q ∈ s.stack := by rw [hstack]; exact List.mem_cons_self
  have hdrain : drainFrames s.stack ≠ [] := drainFrames_ne_nil.mpr ⟨_, hswap, rfl⟩
  refine ⟨h.items, fun ns final hmem => h.nodup ns final (hbatch ns final hmem),
    fun ns final hmem _ => h.drained ns final (hbatch ns final hmem) hdrain, ?_⟩
  intro ns final hmem n hn fd e hitem
  rcases h.fresh ns final (hbatch ns final hmem) n hn fd e hitem with
    hown | ⟨hnone, hpending, hno⟩
  · exact .inl hown
  · have hrest : ∀ f ∈ rest, f ∈ s.stack := fun f hf => by
      rw [hstack]
      exact List.mem_cons_of_mem _ hf
    refine .inr ⟨hnone, hpending, fun hf => ?_, fun hf => ?_, fun e' he' => ?_⟩
    · simp only [List.mem_cons, reduceCtorEq, false_or] at hf
      exact hno.reading (hrest _ hf)
    · simp only [List.mem_cons, reduceCtorEq, false_or] at hf
      exact hno.swapping (hrest _ hf)
    · simp only [draining_cons, LoopFrame.elements, List.nil_append, List.mem_append] at he'
      rcases he' with he' | he'
      · -- only the add queue holds registrations, and its swap is over
        obtain rfl : Queue.add = q := hdraining.sorted q _ he'
        exact absurd hswap hno.swapping
      · refine hno.draining e' ?_
        rw [hstack]
        exact he'

/-- While a removal is being finalized, no registration will be before the batch ends. -/
theorem noMoreAdds_of_removing {cfg : Config} {s s' : EventLoop} (hdraining : Draining s)
    {e : EventId} {elements : List Element} {rest frames : List LoopFrame}
    (hstack : s.stack = .finalize (.remove e :: elements) :: rest)
    (hstack' : s'.stack = frames ++ .finalize elements :: rest)
    (hframes : ∀ f ∈ frames, f.inDrain = false) (fd : Fd) : NoMoreAdds cfg s' fd := by
  have hstages := hdraining.stages
  rw [hstack, drainFrames_cons_of_true rfl] at hstages
  obtain ⟨q, all, hall, hsuffix, hrest⟩ := hstages.of_finalize
  obtain rfl : Queue.remove = q := hall _ (hsuffix.subset List.mem_cons_self)
  have hcases : ∀ f ∈ s'.stack, f.inDrain = true →
      f = .finalize elements ∨ f = .dispose all ∨ f = .handleElements .ready := by
    intro f hf hin
    rw [hstack'] at hf
    rcases List.mem_append.mp hf with hf | hf
    · rw [hframes f hf] at hin
      exact absurd hin (by simp)
    · rcases List.mem_cons.mp hf with rfl | hf
      · exact .inl rfl
      · have hmem : f ∈ drainFrames rest := List.mem_filter.mpr ⟨hf, hin⟩
        rw [hrest] at hmem
        simpa [Queue.following] using Or.inr hmem
  refine ⟨fun hf => ?_, fun hf => ?_, fun e' he' => ?_⟩
  · exact absurd (hcases _ hf rfl) (by simp)
  · exact absurd (hcases _ hf rfl) (by simp)
  · obtain ⟨elements', hf, hmem⟩ := mem_draining.mp he'
    have helements : elements' = elements := by simpa using hcases _ hf rfl
    rw [helements] at hmem
    have hqueue := hall _ (hsuffix.subset (List.mem_cons_of_mem _ hmem))
    exact absurd hqueue (by simp [Element.queue])

theorem batch_notMem_finalizes {cfg : Config} {s : EventLoop} {element : Element} {n : LoopNext}
    (h : Finalizes cfg s element n) {ns : List Notification} {final : Bool} :
    .batch ns final ∉ n.frames := by
  cases h with
  | addNoHandle _ | ready _ =>
      dsimp only
      split <;> simp
  | _ => exact List.not_mem_nil

/-- An element has been finalized. `AddFinalize` registers no descriptor that a notification is
about: the kernel refuses the number of a registered event, and `NoMoreAdds` keeps away from one
that is nobody's. Only `RemoveFinalize` takes an event out of the table, and it does so behind
the swap of the add queue, which is what the second half of `Fresh` asks for. -/
theorem batched_finalized {cfg : Config} {s : EventLoop} (h : Batched cfg s) {tr : List LoopObs}
    (hreg : Registered cfg tr s) (hdraining : Draining s) {element : Element}
    {elements : List Element} {rest : List LoopFrame} {n : LoopNext}
    (hstack : s.stack = .finalize (element :: elements) :: rest)
    (hfin : Finalizes cfg s element n) (hitems : n.loop.epoll.readyItems.Nodup) :
    Batched cfg { n.loop with stack := n.frames ++ .finalize elements :: rest } := by
  have hframes : ∀ f ∈ n.frames, f.inDrain = false := fun f hf => by
    cases hin : f.inDrain with
    | false => rfl
    | true =>
        have hmem : f ∈ drainFrames n.frames := List.mem_filter.mpr ⟨hf, hin⟩
        rw [drainFrames_finalizes hfin] at hmem
        exact absurd hmem List.not_mem_nil
  have hrest : ∀ f ∈ rest, f ∈ s.stack := fun f hf => by
    rw [hstack]
    exact List.mem_cons_of_mem _ hf
  have htop : LoopFrame.finalize (element :: elements) ∈ s.stack := by
    rw [hstack]
    exact List.mem_cons_self
  have hdrain : drainFrames s.stack ≠ [] := drainFrames_ne_nil.mpr ⟨_, htop, rfl⟩
  have hbatch : ∀ ns final, .batch ns final ∈ n.frames ++ .finalize elements :: rest →
      .batch ns final ∈ s.stack := by
    intro ns final hmem
    rcases List.mem_append.mp hmem with hmem | hmem
    · exact absurd hmem (batch_notMem_finalizes hfin)
    · simp only [List.mem_cons, reduceCtorEq, false_or] at hmem
      exact hrest _ hmem
  have hkeep : ∀ {fd}, NoMoreAdds cfg s fd →
      NoMoreAdds cfg { n.loop with stack := n.frames ++ .finalize elements :: rest } fd := by
    intro fd hno
    have hcases : ∀ f ∈ n.frames ++ .finalize elements :: rest, f.inDrain = true →
        f = .finalize elements ∨ f ∈ s.stack := by
      intro f hf hin
      rcases List.mem_append.mp hf with hf | hf
      · rw [hframes f hf] at hin
        exact absurd hin (by simp)
      · exact (List.mem_cons.mp hf).imp_right (hrest f)
    refine ⟨fun hf => ?_, fun hf => ?_, fun e he => ?_⟩
    · exact hno.reading ((hcases _ hf rfl).resolve_left (by simp))
    · exact hno.swapping ((hcases _ hf rfl).resolve_left (by simp))
    · obtain ⟨elements', hf, hmem⟩ := mem_draining.mp he
      rcases hcases _ hf rfl with heq | hf
      · rw [LoopFrame.finalize.inj heq] at hmem
        exact hno.draining e (mem_draining.mpr ⟨_, htop, List.mem_cons_of_mem _ hmem⟩)
      · exact hno.draining e (mem_draining.mpr ⟨_, hf, hmem⟩)
  refine ⟨hitems, fun ns final hmem => h.nodup ns final (hbatch ns final hmem),
    fun ns final hmem _ => h.drained ns final (hbatch ns final hmem) hdrain, ?_⟩
  intro ns final hmem m hm fd e hitem
  have hold := h.fresh ns final (hbatch ns final hmem) m hm fd e hitem
  have hsame : n.loop.epoll.events fd = s.epoll.events fd →
      Fresh cfg { n.loop with stack := n.frames ++ .finalize elements :: rest } ns fd e := by
    intro heq
    rcases hold with hown | ⟨hnone, hpending, hno⟩
    · exact .inl (heq.trans hown)
    · exact .inr ⟨heq.trans hnone, hpending, hkeep hno⟩
  cases hfin with
  | @add e' asked hvalid hfree =>
      by_cases hfd : fd = cfg.handle e'
      · -- the descriptor is not registered, and no batch waits for it
        rcases hold with hown | ⟨-, -, hno⟩
        · rw [hfd, ← hreg.interest, hfree] at hown
          exact absurd hown (by simp)
        · exact absurd hfd.symm (hno.draining e' (mem_draining.mpr ⟨_, htop, List.mem_cons_self⟩))
      · exact hsame (Function.update_of_ne hfd ..)
  | @remove e' hvalid hsome =>
      by_cases hfd : fd = cfg.handle e'
      · refine .inr ⟨?_, h.drained ns final (hbatch ns final hmem) hdrain, ?_⟩
        · rw [hfd]
          exact Function.update_self ..
        · exact noMoreAdds_of_removing hdraining hstack rfl hframes fd
      · exact hsame (Function.update_of_ne hfd ..)
  | addNoHandle _ => exact hsame rfl
  | removeNoHandle _ => exact hsame rfl
  | ignored _ => exact hsame rfl
  | ready _ => exact hsame rfl

/-- **One step keeps the batch right.** The calls of the threads and the light frames shrink the
stack and leave the table alone; the turns of the loop that are left each have their lemma above.
-/
theorem batched_step {cfg : Config} {l : LoopLabel} {s s' : EventLoop} {tr o : List LoopObs}
    (h : Batched cfg s) (howned : Owned cfg s) (hreg : Registered cfg tr s)
    (hdraining : Draining s) (hlayered : Layered s.stack) (hmove : Move cfg s l s' o) :
    Batched cfg s' := by
  cases hmove with
  | call _ _ hquiet _ =>
      exact h.of_shrinks (.of_eq hquiet.stack) (by rw [hquiet.epoll])
        (by rw [hquiet.epoll]; exact h.items)
  | @pushed a element _ _ =>
      refine h.of_shrinks (.of_eq (push_stack ..)) ?_ ?_
      all_goals rcases push_spec s a element with ⟨-, heq⟩ | ⟨-, heq⟩
      · rw [heq]; rfl
      · rw [heq, complete_epoll]
      · rw [heq]; exact h.items
      · rw [heq, complete_epoll]; exact h.items
  | signalled _ =>
      refine h.of_shrinks (.of_eq (complete_stack ..)) ?_ ?_
      · rw [complete_epoll]; exact EPoll.wakeup_events s.epoll
      · rw [complete_epoll]; exact EPoll.nodup_wakeup h.items
  | woken _ =>
      exact h.of_shrinks (.of_eq rfl) (EPoll.wakeup_events s.epoll) (EPoll.nodup_wakeup h.items)
  | light hstack _ _ _ hquiet _ hframes _ =>
      refine h.of_shrinks (shrinks_light hstack hframes) ?_ ?_
      · dsimp only; rw [hquiet.epoll]
      · dsimp only; rw [hquiet.epoll]; exact h.items
  | wait hstack _ => exact batched_wait h howned hlayered hreg _ hstack
  | notification hstack _ => exact batched_notification h hlayered hstack
  | drained hstack _ => exact batched_drained h hstack
  | swapped hstack _ _ => exact batched_swapped h hdraining hstack
  | finalized hstack _ hrun hthrew =>
      have hfin := finalizes hrun hthrew
      refine batched_finalized h hreg hdraining hstack hfin ?_
      cases hfin with
      | remove _ _ => exact EPoll.nodup_unregister (p := { s.epoll with events := _ }) h.items _
      | _ => exact h.items
  | edge _ =>
      exact h.of_shrinks (.of_eq rfl) (EPoll.queueItem_events ..) (EPoll.nodup_queueItem h.items _)
  | destroyed _ _ hepoll =>
      rcases hepoll with ⟨-, rfl, -⟩ | ⟨-, rfl, -⟩
      · exact h.of_shrinks (.of_eq rfl) rfl h.items
      · exact h.of_shrinks (.of_eq rfl) rfl (EPoll.nodup_unregister h.items _)
  | _ => exact h.of_shrinks (.of_eq rfl) rfl h.items

theorem batched_of_run {cfg : Config} {ok : LoopLabel → EventLoop → Prop} {tr : List LoopObs}
    {s : EventLoop} (h : GuardedRun (loopSystem cfg) ok init tr s) (hc : s.crashed = none) :
    Batched cfg s :=
  invariant_of_run (I := fun _ s => Batched cfg s) (batched_init cfg)
    (fun hrun hc ih _ hmove => batched_step ih (owned_of_run hrun hc) (registered_of_run hrun hc)
      (draining_of_run hrun hc) (layered_of_run hrun) hmove) h hc

/-! ### While a handler runs -/

/-- A light frame goes on with the `HandleEvents` it is part of. -/
theorem runFrame_runs {cfg : Config} {s : EventLoop} {rest : List LoopFrame} {i : LoopInput}
    {f : LoopFrame} {n : LoopNext} (hf : f.light = true) (h : s.runFrame cfg rest i f = some n)
    {e : EventId} {g : LoopFrame} (hg : g ∈ n.frames) (hrun : g.runs e = true) :
    f.runs e = true := by
  cases lightRun hf h with
  | user _ | timer _ _ _ | expired _ _ =>
      rw [List.mem_singleton.mp hg] at hrun
      exact hrun
  | occurrence =>
      rcases List.mem_cons.mp hg with rfl | hg
      · exact hrun
      · rw [List.mem_singleton.mp hg] at hrun
        exact hrun
  | execute _ _ =>
      -- the function runs, and what follows it only cleans up
      simp only [List.mem_cons, List.not_mem_nil, or_false] at hg
      obtain rfl | rfl | rfl := hg
      · exact hrun
      · exact absurd hrun (by simp [LoopFrame.runs])
      · exact absurd hrun (by simp [LoopFrame.runs])
  | closes _ | executeDead _ _ =>
      simp only [List.mem_cons, List.not_mem_nil, or_false] at hg
      obtain rfl | rfl := hg <;> exact absurd hrun (by simp [LoopFrame.runs])
  | observed _ | goesOn _ | copied | allClosed | wakes | passed | expiredDead _ _ | oneShot _ =>
      rw [List.mem_singleton.mp hg] at hrun
      exact absurd hrun (by simp [LoopFrame.runs])
  | _ => exact absurd hg List.not_mem_nil

/-- A handler with a descriptor runs while its event is registered. -/
def Running (cfg : Config) (s : EventLoop) : Prop :=
  ∀ f ∈ s.stack, ∀ e, f.runs e = true → cfg.valid e = true → s.epoll.events (cfg.handle e) = some e

/-- A step that leaves the table alone keeps `Running` if each handler it starts is registered.
-/
theorem Running.of_stack {cfg : Config} {s s' : EventLoop} (h : Running cfg s)
    (hevents : s'.epoll.events = s.epoll.events)
    (hframes : ∀ f ∈ s'.stack, ∀ e, f.runs e = true → cfg.valid e = true →
      f ∈ s.stack ∨ s.epoll.events (cfg.handle e) = some e) : Running cfg s' := by
  intro f hf e hrun hvalid
  rw [hevents]
  rcases hframes f hf e hrun hvalid with hf | hin
  · exact h f hf e hrun hvalid
  · exact hin

/-- **One step keeps the running handlers registered.** Only `FinalizeRemove` takes an event out
of the table, and a finalize loop at work has no handler above it. -/
theorem running_step {cfg : Config} {l : LoopLabel} {s s' : EventLoop} {o : List LoopObs}
    (h : Running cfg s) (howned : Owned cfg s) (hlayered : Layered s.stack)
    (hmove : Move cfg s l s' o) : Running cfg s' := by
  have hsame : s'.stack = s.stack → s'.epoll.events = s.epoll.events → Running cfg s' :=
    fun hstack hevents => h.of_stack hevents fun f hf _ _ _ => .inl (hstack ▸ hf)
  cases hmove with
  | call _ _ hquiet _ => exact hsame hquiet.stack (by rw [hquiet.epoll])
  | @pushed a element _ _ =>
      refine hsame (push_stack ..) ?_
      rcases push_spec s a element with ⟨-, heq⟩ | ⟨-, heq⟩
      · rw [heq]; rfl
      · rw [heq, complete_epoll]
  | signalled _ =>
      refine hsame (complete_stack ..) ?_
      rw [complete_epoll]
      exact EPoll.wakeup_events s.epoll
  | woken _ => exact hsame rfl (EPoll.wakeup_events s.epoll)
  | @light i f rest n hstack _ hlight hrun hquiet _ _ _ =>
      refine h.of_stack (by dsimp only; rw [hquiet.epoll]) fun g hg e hgrun hvalid => ?_
      rcases List.mem_append.mp hg with hg | hg
      · -- the frame it comes from has been running before
        refine .inr (h f ?_ e (runFrame_runs hlight hrun hg hgrun) hvalid)
        rw [hstack]
        exact List.mem_cons_self
      · rw [hstack]
        exact .inl (List.mem_cons_of_mem _ hg)
  | @wait poll final rest hstack _ =>
      refine h.of_stack rfl fun g hg e hgrun hvalid => ?_
      rcases List.mem_cons.mp hg with rfl | hg
      · split at hgrun <;> exact absurd hgrun (by simp [LoopFrame.runs])
      · rw [hstack]
        exact .inl (List.mem_cons_of_mem _ hg)
  | @notification n ns final rest hstack _ =>
      refine h.of_stack rfl fun g hg e hgrun hvalid => ?_
      rcases List.mem_append.mp hg with hg | hg
      · rcases processNotification_spec s n with ⟨-, heq⟩ | ⟨-, heq | ⟨fd, e', events, hin, heq⟩⟩
        · rw [heq] at hg
          rw [List.mem_singleton.mp hg] at hgrun
          exact absurd hgrun (by simp [LoopFrame.runs])
        · rw [heq] at hg
          exact absurd hg List.not_mem_nil
        · rw [heq] at hg
          simp only [List.mem_cons, List.not_mem_nil, or_false] at hg
          obtain rfl | rfl := hg
          · obtain rfl : e' = e := by simpa [LoopFrame.runs] using hgrun
            rw [(howned.table fd e' hin).2.1]
            exact .inr hin
          · exact absurd hgrun (by simp [LoopFrame.runs])
      · rcases List.mem_cons.mp hg with rfl | hg
        · exact absurd hgrun (by simp [LoopFrame.runs])
        · rw [hstack]
          exact .inl (List.mem_cons_of_mem _ hg)
  | drained hstack _ =>
      refine h.of_stack rfl fun g hg e hgrun hvalid => ?_
      simp only [List.mem_cons] at hg
      obtain rfl | rfl | rfl | hg := hg
      · exact absurd hgrun (by simp [LoopFrame.runs])
      · exact absurd hgrun (by simp [LoopFrame.runs])
      · exact absurd hgrun (by simp [LoopFrame.runs])
      · rw [hstack]
        exact .inl (List.mem_cons_of_mem _ hg)
  | swapped hstack _ _ =>
      refine h.of_stack rfl fun g hg e hgrun hvalid => ?_
      simp only [List.mem_cons] at hg
      obtain rfl | rfl | hg := hg
      · exact absurd hgrun (by simp [LoopFrame.runs])
      · exact absurd hgrun (by simp [LoopFrame.runs])
      · rw [hstack]
        exact .inl (List.mem_cons_of_mem _ hg)
  | @finalized i element elements rest n hstack _ hrun hthrew =>
      intro g hg e hgrun hvalid
      rcases List.mem_append.mp hg with hg | hg
      · have hrunning : ∀ e' events, g ∈ [LoopFrame.handleEvents e' events, .release e'] →
            e' = e := by
          intro e' events hg'
          simp only [List.mem_cons, List.not_mem_nil, or_false] at hg'
          obtain rfl | rfl := hg'
          · simpa [LoopFrame.runs] using hgrun
          · exact absurd hgrun (by simp [LoopFrame.runs])
        cases finalizes hrun hthrew with
        | addNoHandle hinvalid =>
            dsimp only at hg
            split at hg
            · rw [hrunning _ _ hg, hvalid] at hinvalid
              exact absurd hinvalid (by simp)
            · exact absurd hg List.not_mem_nil
        | ready hin =>
            dsimp only at hg
            split at hg
            · rw [hrunning _ _ hg] at hin
              exact hin
            · exact absurd hg List.not_mem_nil
        | _ => exact absurd hg List.not_mem_nil
      · -- no handler is running below a finalize loop
        rw [hstack] at hlayered
        rcases List.mem_cons.mp hg with rfl | hg
        · exact absurd hgrun (by simp [LoopFrame.runs])
        · have hle := hlayered.level_le hg
          rw [LoopFrame.level_of_runs hgrun] at hle
          exact absurd hle (by simp [LoopFrame.level])
  | edge _ => exact hsame rfl (EPoll.queueItem_events ..)
  | destroyed _ _ hepoll => rcases hepoll with ⟨-, rfl, -⟩ | ⟨-, rfl, -⟩ <;> exact hsame rfl rfl
  | _ => exact hsame rfl rfl

/-- In every state reached without a crash the running handlers are registered. -/
theorem running_of_run {cfg : Config} {ok : LoopLabel → EventLoop → Prop} {tr : List LoopObs}
    {s : EventLoop} (h : GuardedRun (loopSystem cfg) ok init tr s) (hc : s.crashed = none) :
    Running cfg s := by
  refine invariant_of_run (I := fun _ s => Running cfg s) ?_ ?_ h hc
  · intro f hf e hrun
    rw [List.mem_singleton.mp hf] at hrun
    exact absurd hrun (by simp [LoopFrame.runs])
  · intro tr s l s' o hrun hc ih _ hmove
    exact running_step ih (owned_of_run hrun hc) (layered_of_run hrun) hmove

/-! ### Whose handler is called -/

/-- A step of the loop runs its innermost frame. -/
theorem step_loop {cfg : Config} {s s' : EventLoop} {i : LoopInput} {o : List LoopObs}
    (hs : step cfg (.loop i) s = some (s', o)) {f : LoopFrame} {rest : List LoopFrame}
    (hstack : s.stack = f :: rest) : s.crashed = none ∧ s.calls.lookup .loop = none ∧
      ∃ n, s.runFrame cfg rest i f = some n ∧ s' = resume rest n ∧ o = n.obs := by
  have hc := not_crashed_of_step hs
  unfold step at hs
  rw [if_neg (by simp [hc])] at hs
  dsimp only at hs
  rw [hstack] at hs
  split at hs
  · rename_i f' rest' hframe hidle
    obtain ⟨rfl, rfl⟩ := List.cons.inj hframe
    obtain ⟨n, hn, heq⟩ := Option.map_eq_some_iff.mp hs
    obtain ⟨rfl, rfl⟩ := Prod.mk.inj heq
    exact ⟨hc, hidle, n, hn, rfl, rfl⟩
  · exact absurd hs (by simp)

/-- A notification is dispatched to the event it was made for, or skipped. `Fresh` leaves two
cases: the event is in the table, and it is its handler that is called, or the descriptor is
nobody's until the batch ends, and `Process` goes on. -/
theorem notification_dispatch {cfg : Config} {tr : List LoopObs} {s s' : EventLoop}
    (h : Run (loopSystem cfg) init tr s) {n : Notification} {ns : List Notification} {final : Bool}
    {rest : List LoopFrame} (hstack : s.stack = .batch (n :: ns) final :: rest) {fd : Fd}
    {e : EventId} (hitem : n.item = .descriptor fd e) {i : LoopInput} {o : List LoopObs}
    (hs : step cfg (.loop i) s = some (s', o)) :
    s'.stack = .batch ns final :: rest ∨
      s'.stack = .handleEvents e (getEventsFromEpollEvents n.events) :: .release e ::
        .batch ns final :: rest ∧ .finalize (.remove e) ∉ tr := by
  obtain ⟨hc, hidle, next, hrun, rfl, -⟩ := step_loop hs hstack
  have hbatched := batched_of_run h hc
  have hfresh := hbatched.fresh (n :: ns) final (by rw [hstack]; exact List.mem_cons_self) n
    List.mem_cons_self fd e hitem
  cases i <;> simp only [runFrame, reduceCtorEq] at hrun
  obtain rfl := Option.some.inj hrun
  change s.processNotification n ++ [.batch ns final] ++ rest = _ ∨
    s.processNotification n ++ [.batch ns final] ++ rest = _ ∧ _
  unfold processNotification
  rw [hitem]
  dsimp only
  rcases hfresh with hown | ⟨hnone, -, -⟩
  · rw [hown]
    dsimp only
    split
    · refine .inr ⟨rfl, fun hrem => ?_⟩
      exact ((registered_of_run h hc).table fd e hown).2 (mem_finalized.mpr hrem)
    · exact .inl rfl
  · rw [hnone]
    exact .inl rfl

/-- A ready element is dispatched to its event, or to none: `ReadyFinalize` compares the entry of
the table with the event of the element, not with its descriptor alone. -/
theorem ready_dispatch {cfg : Config} {tr : List LoopObs} {s s' : EventLoop}
    (h : Run (loopSystem cfg) init tr s) {e : EventId} {events : Events} {attached : Bool}
    {elements : List Element} {rest : List LoopFrame}
    (hstack : s.stack = .finalize (.ready e events attached :: elements) :: rest) {i : LoopInput}
    {o : List LoopObs} (hs : step cfg (.loop i) s = some (s', o)) :
    s'.stack = .finalize elements :: rest ∨
      s'.stack = .handleEvents e events :: .release e :: .finalize elements :: rest ∧
        .finalize (.remove e) ∉ tr := by
  obtain ⟨hc, hidle, next, hrun, rfl, -⟩ := step_loop hs hstack
  simp only [runFrame] at hrun
  obtain ⟨next', hfin, rfl⟩ := Option.map_eq_some_iff.mp hrun
  have hthrew : next'.threw = none := by cases finalizeRun hfin <;> rfl
  cases finalizes hfin hthrew with
  | ignored _ => exact .inl rfl
  | ready hin =>
      unfold resume
      dsimp only
      split
      · refine .inr ⟨rfl, fun hrem => ?_⟩
        exact ((registered_of_run h hc).table _ e hin).2 (mem_finalized.mpr hrem)
      · exact .inl rfl

/-- `HandleEvents` is not called on an event with a descriptor after its removal. A handler runs
while its event is registered (`Running`), and what is registered has not been removed. -/
theorem handleEvents_before_removal {cfg : Config} {tr : List LoopObs} {s : EventLoop}
    (h : Run (loopSystem cfg) init tr s) {e : EventId} (hvalid : cfg.valid e = true) :
    tr.Pairwise fun x y => x = .finalize (.remove e) → ∀ events, y ≠ .handleEvents e events := by
  refine h.pairwise ?_
  intro tr s l s' o hrun _ hs
  have hs : step cfg l s = some (s', o) := hs
  have hc := not_crashed_of_step hs
  -- a call of the handler is a step of its frame, with the event registered
  have hcall : ∀ events, .handleEvents e events ∈ o → ¬Removed tr e ∧
      ∃ rest, s.stack = .handleEvents e events :: rest := by
    intro events hmem
    cases shown_of_step hs hmem rfl with
    | @handleEvents i _ _ rest hstack hidle =>
        have hin := running_of_run hrun hc (.handleEvents e events)
          (by rw [hstack]; exact List.mem_cons_self) e (by simp [LoopFrame.runs]) hvalid
        exact ⟨((registered_of_run hrun hc).table _ e hin).2, rest, hstack⟩
  refine ⟨List.pairwise_of_forall_mem_list fun x hx y hy => ?_, fun x hx y hy => ?_⟩
  · rintro rfl events rfl
    obtain ⟨-, rest, hstack⟩ := hcall events hy
    rcases finalized_of_step hs with hnil | ⟨element, elements, rest', hstack', -⟩
    · exact absurd (mem_finalized.mpr hx) (by simp [hnil])
    · rw [hstack] at hstack'
      exact absurd hstack' (by simp)
  · rintro rfl events rfl
    exact (hcall events hy).1 (mem_finalized.mpr hx)

/-- **No misdirected dispatch.** Descriptors may be handed out again as soon as they are
closed. Still a notification of `epoll_wait` is dispatched to the event whose registration
made it or skipped, a ready element is dispatched to its own event or to none, and neither
after the removal of that event; and no handler with a descriptor is called after it. -/
theorem no_misdirected_dispatch (cfg : Config) {tr : List LoopObs} {s : EventLoop}
    (h : Run (loopSystem cfg) init tr s) :
    (∀ n ns final rest fd e i s' o, s.stack = .batch (n :: ns) final :: rest →
      n.item = .descriptor fd e → (loopSystem cfg).step (.loop i) s = some (s', o) →
      s'.stack = .batch ns final :: rest ∨
        s'.stack = .handleEvents e (getEventsFromEpollEvents n.events) :: .release e ::
          .batch ns final :: rest ∧ .finalize (.remove e) ∉ tr) ∧
    (∀ e events attached elements rest i s' o,
      s.stack = .finalize (.ready e events attached :: elements) :: rest →
      (loopSystem cfg).step (.loop i) s = some (s', o) →
      s'.stack = .finalize elements :: rest ∨
        s'.stack = .handleEvents e events :: .release e :: .finalize elements :: rest ∧
          .finalize (.remove e) ∉ tr) ∧
    (∀ e, cfg.valid e = true → ∀ before later, tr = before ++ .finalize (.remove e) :: later →
      ∀ events, .handleEvents e events ∉ later) := by
  refine ⟨?_, ?_, ?_⟩
  · intro n ns final rest fd e i s' o hstack hitem hs
    exact notification_dispatch h hstack hitem hs
  · intro e events attached elements rest i s' o hstack hs
    exact ready_dispatch h hstack hs
  · intro e hvalid before later heq events hmem
    have horder := handleEvents_before_removal h hvalid
    rw [heq, List.pairwise_append, List.pairwise_cons] at horder
    exact horder.2.1.1 _ hmem rfl events rfl

/-- Handlers that are handed the same descriptor, one after the other. -/
def sameDescriptor : Config := { handler := fun _ => .user 3, intervalOccurrencesLimit := 10 }

/-- A handler is attached and destroyed again. The batch reports the eventfd and then its
descriptor, which by then has been closed and handed out to another handler. -/
def handedOutAgain : List LoopLabel :=
  [.call (.user 0) (.attach 0), .proceed (.user 0), .proceed (.user 0), .proceed (.user 0),
    .loop .none, .loop (.wait fun _ _ => none), .loop .none, .loop .none, .loop .none,
    .loop .none, .loop (.ctl Events.Read none), .loop .none, .loop .none, .loop .none, .loop .none,
    .loop .none, .loop .none, .loop .none, .loop .none, .loop .none, .loop .none,
    .call (.user 0) (.destroyHandler 0), .proceed (.user 0), .proceed (.user 0),
    .proceed (.user 0), .proceed (.user 0), .edge 3,
    .loop (.wait fun _ _ => some EPollEvents.EPOLLIN), .loop .none, .loop .none, .loop .none,
    .loop .none, .loop .none, .loop .none, .loop .none, .loop (.ctl 0 none), .loop .none,
    .loop .none, .destroyEvent 0, .call (.user 0) (.attach 1), .proceed (.user 0),
    .proceed (.user 0), .proceed (.user 0), .loop .none, .loop .none, .loop .none]

/-- The number 3 goes from event 0 to event 1 while a notification for event 0 is in the batch. -/
theorem no_misdirected_dispatch_handedOutAgain :
    (after sameDescriptor handedOutAgain).1.objects = [1] ∧
      ((after sameDescriptor (handedOutAgain ++ [.loop .none])).1.stack = [.batch [] false] ∨
        (after sameDescriptor (handedOutAgain ++ [.loop .none])).1.stack =
          [.handleEvents 0 Events.Read, .release 0, .batch [] false] ∧
        .finalize (.remove 0) ∉ (after sameDescriptor handedOutAgain).2) := by
  have hs : (loopSystem sameDescriptor).step (.loop .none) (after sameDescriptor handedOutAgain).1 =
      some ((after sameDescriptor (handedOutAgain ++ [.loop .none])).1, []) := rfl
  exact ⟨rfl, (no_misdirected_dispatch sameDescriptor (run_after handedOutAgain rfl)).1
    ⟨.descriptor 3 0, EPollEvents.EPOLLIN⟩ [] false [] 3 0 .none _ _ rfl rfl hs⟩

end EventLoop

end Libael
