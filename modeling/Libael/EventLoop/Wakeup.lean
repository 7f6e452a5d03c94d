import Libael.EventLoop.Moves

/-!
# Libael.EventLoop.Wakeup

**No lost wakeup.** Wakeups are written for the first element of a queue only, the
eventfd is edge-triggered, and three queues share it. What holds all the time is that
a queue with elements in it is *covered*: the eventfd has an edge still to be
delivered, or somebody is about to write it, or the loop thread has the swap of this
very queue ahead of it. The last of these survives the drain because the eventfd is
read empty before the first of the three swaps.
-/

namespace Libael

open Lts

/-- The eventfd has an undelivered edge: its item is queued and it has something to read. -/
def EPoll.Edge (p : EPoll) : Prop := .pendingFd ∈ p.readyItems ∧ 0 < p.counter

namespace EPoll

theorem edge_wakeup (p : EPoll) : p.wakeup.Edge :=
  ⟨pendingFd_mem_wakeup p, by simp⟩

theorem Edge.of_same {p p' : EPoll} (h : p.Edge) (hsame : SameQueues p p') : p'.Edge :=
  ⟨hsame.pendingFd.mpr h.1, by rw [hsame.counter]; exact h.2⟩

/-- `epoll_wait` delivers an edge or leaves it. -/
theorem Edge.epollWait {p : EPoll} (h : p.Edge) (poll : Fd → EventId → Option EPollEvents) :
    (∃ n ∈ (p.epollWait poll).1, n.item = .pendingFd) ∨ (p.epollWait poll).2.Edge := by
  have hreport : pollItem p.counter poll .pendingFd = some EPollEvents.EPOLLIN := by
    simp only [pollItem]
    exact if_neg (Nat.pos_iff_ne_zero.mp h.2)
  have hmem : _ ∨ _ := @mem_harvest _ _ _ hreport maxEvents _ h.1
  rcases hmem with hmem | hmem
  · exact .inl ⟨_, hmem, rfl⟩
  · exact .inr ⟨hmem, h.2⟩

/-- `epoll_wait` does not sleep on an edge. -/
theorem Edge.epollWait_ne_nil {p : EPoll} (h : p.Edge)
    (poll : Fd → EventId → Option EPollEvents) : (p.epollWait poll).1 ≠ [] := by
  have hreport : pollItem p.counter poll .pendingFd = some EPollEvents.EPOLLIN := by
    simp only [pollItem]
    exact if_neg (Nat.pos_iff_ne_zero.mp h.2)
  exact harvest_ne_nil hreport h.1

end EPoll

/-- The frame is going to swap the queue `q`. -/
def LoopFrame.drains (q : Queue) : LoopFrame → Prop
  | .batch notifications _ => ∃ n ∈ notifications, n.item = .pendingFd
  | .eventfdRead => True
  | .handleElements q' => q' = q
  | _ => False

theorem LoopFrame.not_drains_of_light {q : Queue} {f : LoopFrame} (h : f.light = true) :
    ¬f.drains q := by
  cases f with
  | batch notifications final =>
      cases notifications with
      | nil => simp [drains]
      | cons n ns => exact absurd h (by simp [light])
  | _ => first | exact id | exact absurd h (by simp [light])

namespace EventLoop

/-- Some thread is between its push, or its store to `stop_`, and its write to the eventfd. -/
def WriteOwed (s : EventLoop) : Prop :=
  ∃ a p, s.calls.lookup a = some p ∧ p.owesWrite = true

/-- The loop thread is at `epoll_wait`. -/
def AtWait (s : EventLoop) : Prop := ∃ final rest, s.stack = .process final :: rest

/-- The invariant of the wakeups. -/
structure Awake (s : EventLoop) : Prop where
  covered : ∀ q, s.epoll.eventsPending q ≠ [] →
    s.epoll.Edge ∨ s.WriteOwed ∨ ∃ f ∈ s.stack, f.drains q
  stop : s.stop = true → s.AtWait → s.epoll.Edge ∨ s.WriteOwed

theorem awake_init : Awake init :=
  ⟨fun _ hq => absurd rfl hq, fun h => absurd h (by decide)⟩

/-- A write owed by another thread than `a`, which is not about to write, stays owed. -/
theorem WriteOwed.of_others {s s' : EventLoop} {a : Agent} (h : s.WriteOwed)
    (ha : ∀ p, s.calls.lookup a = some p → p.owesWrite = false)
    (hothers : ∀ b, b ≠ a → s'.calls.lookup b = s.calls.lookup b) : s'.WriteOwed := by
  obtain ⟨b, p, hb, hp⟩ := h
  have hne : b ≠ a := by
    intro heq
    rw [heq] at hb
    rw [ha p hb] at hp
    exact absurd hp (by simp)
  exact ⟨b, p, by rw [hothers b hne]; exact hb, hp⟩

/-- The same, for a call of which it is known what it does next. -/
theorem WriteOwed.of_call {s s' : EventLoop} {a : Agent} {p : Progress} (h : s.WriteOwed)
    (hp : s.calls.lookup a = some p) (howes : p.owesWrite = false)
    (hothers : ∀ b, b ≠ a → s'.calls.lookup b = s.calls.lookup b) : s'.WriteOwed := by
  refine h.of_others (fun p' hp' => ?_) hothers
  obtain rfl := Option.some.inj (hp.symm.trans hp')
  exact howes

/-- The same, for a thread without a call in progress. -/
theorem WriteOwed.of_idle {s s' : EventLoop} {a : Agent} (h : s.WriteOwed)
    (hidle : s.calls.lookup a = none)
    (hothers : ∀ b, b ≠ a → s'.calls.lookup b = s.calls.lookup b) : s'.WriteOwed := by
  refine h.of_others (fun p hp => ?_) hothers
  rw [hidle] at hp
  exact absurd hp (by simp)

/-- A step that leaves the queues and the stack alone. -/
theorem Awake.of_same {s s' : EventLoop} (hinv : Awake s)
    (howed : s.WriteOwed → s'.WriteOwed) (hsame : EPoll.SameQueues s.epoll s'.epoll)
    (hstack : s'.stack = s.stack) (hstop : s'.stop = s.stop ∨ s'.WriteOwed) : Awake s' where
  covered q hq := by
    rw [hsame.eventsPending] at hq
    rcases hinv.covered q hq with hedge | hw | hframe
    · exact .inl (hedge.of_same hsame)
    · exact .inr (.inl (howed hw))
    · exact .inr (.inr (by rw [hstack]; exact hframe))
  stop hs hwait := by
    rcases hstop with heq | hw
    · rw [heq] at hs
      unfold AtWait at hwait
      rw [hstack] at hwait
      exact (hinv.stop hs hwait).imp (·.of_same hsame) howed
    · exact .inr hw

/-- After a write to the eventfd everything is covered. -/
theorem Awake.of_edge {s' : EventLoop} (hedge : s'.epoll.Edge) : Awake s' where
  covered _ _ := .inl hedge
  stop _ _ := .inl hedge

/-- So it is as long as a thread owes a write. -/
theorem Awake.of_writeOwed {s' : EventLoop} (howed : s'.WriteOwed) : Awake s' where
  covered _ _ := .inr (.inl howed)
  stop _ _ := .inr howed

/-- The loop thread has replaced its innermost frame `f` by `frames`. -/
structure LoopMoved (s s' : EventLoop) (f : LoopFrame) (frames rest : List LoopFrame) : Prop where
  stack : s.stack = f :: rest
  stack' : s'.stack = frames ++ rest
  idle : s.calls.lookup .loop = none
  others : ∀ b, b ≠ .loop → s'.calls.lookup b = s.calls.lookup b

theorem LoopMoved.writeOwed {s s' : EventLoop} {f : LoopFrame} {frames rest : List LoopFrame}
    (h : LoopMoved s s' f frames rest) (howed : s.WriteOwed) : s'.WriteOwed :=
  howed.of_idle h.idle h.others

/-- A frame that drains `q` is still there, unless it was the innermost one. -/
theorem LoopMoved.drains {s s' : EventLoop} {f : LoopFrame} {frames rest : List LoopFrame}
    {q : Queue}
    (h : LoopMoved s s' f frames rest) (hdrain : ∃ g ∈ s.stack, g.drains q)
    (hf : f.drains q → ∃ g ∈ frames, g.drains q) : ∃ g ∈ s'.stack, g.drains q := by
  obtain ⟨g, hg, hdrain⟩ := hdrain
  rw [h.stack] at hg
  rw [h.stack']
  rcases List.mem_cons.mp hg with rfl | hg
  · obtain ⟨g', hg', hdrain'⟩ := hf hdrain
    exact ⟨g', List.mem_append_left _ hg', hdrain'⟩
  · exact ⟨g, List.mem_append_right _ hg, hdrain⟩

/-- `epoll_wait` is the only frame of the stack when it is innermost. -/
theorem AtWait.stack_eq {s : EventLoop} (h : s.AtWait) (hlayered : Layered s.stack) :
    ∃ final, s.stack = [.process final] := by
  obtain ⟨final, rest, hstack⟩ := h
  rw [hstack] at hlayered
  rw [hlayered.eq_nil rfl] at hstack
  exact ⟨final, hstack⟩

/-- The loop thread does not get to `epoll_wait` but from `Run`. -/
theorem LoopMoved.not_atWait {s s' : EventLoop} {f : LoopFrame} {frames rest : List LoopFrame}
    (h : LoopMoved s s' f frames rest) (hlayered : Layered s.stack)
    (hframes : ∀ g ∈ frames, ∀ final, g ≠ .process final) : ¬s'.AtWait := by
  rintro ⟨final, rest', hwait⟩
  rw [h.stack] at hlayered
  rw [h.stack'] at hwait
  have hmem : LoopFrame.process final ∈ frames ++ rest := by
    rw [hwait]; exact List.mem_cons_self
  rcases List.mem_append.mp hmem with hg | hg
  · exact hframes _ hg final rfl
  · exact hlayered.process_notMem final hg

/-- A queue is still covered when the innermost frame was not the one to drain it, or has left
one behind that does. -/
theorem LoopMoved.covered {s s' : EventLoop} {f : LoopFrame} {frames rest : List LoopFrame}
    {q : Queue} (h : LoopMoved s s' f frames rest)
    (hcov : s.epoll.Edge ∨ s.WriteOwed ∨ ∃ g ∈ s.stack, g.drains q)
    (hedge : s.epoll.Edge → s'.epoll.Edge) (hf : f.drains q → ∃ g ∈ frames, g.drains q) :
    s'.epoll.Edge ∨ s'.WriteOwed ∨ ∃ g ∈ s'.stack, g.drains q :=
  hcov.imp hedge (Or.imp h.writeOwed (h.drains · hf))

/-- A frame that keeps the queues. -/
theorem LoopMoved.awake {s s' : EventLoop} {f : LoopFrame} {frames rest : List LoopFrame}
    (h : LoopMoved s s' f frames rest) (hinv : Awake s) (hlayered : Layered s.stack)
    (hsame : EPoll.SameQueues s.epoll s'.epoll)
    (hf : ∀ q, f.drains q → ∃ g ∈ frames, g.drains q)
    (hframes : ∀ g ∈ frames, ∀ final, g ≠ .process final) : Awake s' where
  covered q hq := by
    rw [hsame.eventsPending] at hq
    exact h.covered (hinv.covered q hq) (·.of_same hsame) (hf q)
  stop _ hwait := absurd hwait (h.not_atWait hlayered hframes)

/-! ### The steps that carry the argument -/

/-- **The first element of a queue.** Whoever pushes it keeps the lock until its write; a queue
with something in it was covered before. -/
theorem Awake.push {s : EventLoop} {a : Agent} {element : Element} (hinv : Awake s)
    (hp : s.calls.lookup a = some (.pushing element)) : Awake (s.push a element) := by
  rcases push_spec s a element with ⟨-, heq⟩ | ⟨hne, heq⟩
  · refine .of_writeOwed ⟨a, .signalling element, ?_, rfl⟩
    rw [heq, lookup_setCall, if_pos rfl]
  · have hothers : ∀ b, b ≠ a → (s.push a element).calls.lookup b = s.calls.lookup b := by
      intro b hb
      rw [heq, lookup_complete, if_neg hb]
    have hstack : (s.push a element).stack = s.stack := push_stack s a element
    have hstop : (s.push a element).stop = s.stop := by rw [heq, complete_stop]
    have hedge : s.epoll.Edge → (s.push a element).epoll.Edge := by
      rw [heq, complete_epoll]
      exact id
    have howed : s.WriteOwed → (s.push a element).WriteOwed := (·.of_call hp rfl hothers)
    refine ⟨fun q hq => ?_, fun hs hwait => ?_⟩
    · have hq' : s.epoll.eventsPending q ≠ [] := by
        by_cases hqe : q = element.queue
        · rw [hqe]; exact hne
        · rw [heq, complete_epoll] at hq
          simpa [Function.update_of_ne hqe] using hq
      rw [hstack]
      exact (hinv.covered q hq').imp hedge (Or.imp howed id)
    · rw [hstop] at hs
      unfold AtWait at hwait
      rw [hstack] at hwait
      exact (hinv.stop hs hwait).imp hedge howed

/-- **`epoll_wait`.** An edge is delivered into the batch or stays, and with `stop_` set the call
only sleeps while the write of `Stop` is still to come. -/
theorem Awake.epollWait {s : EventLoop} {final : Bool} {rest : List LoopFrame} (hinv : Awake s)
    (hstack : s.stack = .process final :: rest) (poll : Fd → EventId → Option EPollEvents) :
    Awake { s with
      epoll := (s.epoll.epollWait poll).2
      stack := (if (s.epoll.epollWait poll).1.isEmpty then .process final
        else .batch (s.epoll.epollWait poll).1 final) :: rest } where
  covered q hq := by
    rcases hinv.covered q hq with hedge | howed | ⟨g, hg, hdrain⟩
    · rcases hedge.epollWait poll with hn | hedge'
      · refine .inr (.inr ⟨_, List.mem_cons_self, ?_⟩)
        rw [if_neg (by simpa using hedge.epollWait_ne_nil poll)]
        exact hn
      · exact .inl hedge'
    · exact .inr (.inl howed)
    · refine .inr (.inr ⟨g, ?_, hdrain⟩)
      rw [hstack] at hg
      rcases List.mem_cons.mp hg with rfl | hg
      · exact absurd hdrain id
      · exact List.mem_cons_of_mem _ hg
  stop hs hwait := by
    obtain ⟨final', rest', hwait⟩ := hwait
    by_cases hempty : (s.epoll.epollWait poll).1.isEmpty = true
    · rcases hinv.stop hs ⟨final, rest, hstack⟩ with hedge | howed
      · exact absurd (by simpa using hempty) (hedge.epollWait_ne_nil poll)
      · exact .inr howed
    · simp [hempty] at hwait

/-- **The drain of the eventfd.** It takes the edge, but all three swaps are still ahead, so that
everything pushed so far is swapped after it. -/
theorem Awake.drain {s : EventLoop} {rest : List LoopFrame}
    (hstack : s.stack = .eventfdRead :: rest) :
    Awake { s with epoll := { s.epoll with counter := 0 } } where
  covered q _ := by
    refine .inr (.inr ⟨.eventfdRead, ?_, trivial⟩)
    show LoopFrame.eventfdRead ∈ s.stack
    rw [hstack]
    exact List.mem_cons_self
  stop _ hwait := by
    obtain ⟨final, rest', hwait⟩ := hwait
    exact absurd (hstack.symm.trans hwait) (by simp)

/-- **A swap.** The swapped queue is empty, and the others are covered as before. -/
theorem Awake.swap {s : EventLoop} {q : Queue} {rest : List LoopFrame} (hinv : Awake s)
    (hlayered : Layered s.stack) (hstack : s.stack = .handleElements q :: rest)
    (hidle : s.calls.lookup .loop = none) :
    Awake { s with
      epoll := (s.epoll.swapElements q).2
      stack := .finalize (s.epoll.eventsPending q) ::
        .dispose (s.epoll.eventsPending q) :: rest } := by
  have hmoved : LoopMoved s { s with
        epoll := (s.epoll.swapElements q).2
        stack := .finalize (s.epoll.eventsPending q) ::
          .dispose (s.epoll.eventsPending q) :: rest }
      (.handleElements q)
      [.finalize (s.epoll.eventsPending q), .dispose (s.epoll.eventsPending q)] rest :=
    ⟨hstack, rfl, hidle, fun _ _ => rfl⟩
  refine ⟨fun q' hq' => ?_, fun _ hwait => absurd hwait (hmoved.not_atWait hlayered (by simp))⟩
  by_cases hqq : q' = q
  · rw [hqq] at hq'
    exact absurd hq' (by simp [EPoll.swapElements])
  · have hpending : s.epoll.eventsPending q' ≠ [] := by
      simpa [EPoll.swapElements, Function.update_of_ne hqq] using hq'
    exact hmoved.covered (hinv.covered q' hpending) id
      fun h => absurd (show q = q' from h).symm hqq

/-- A frame that leaves the queues alone pushes light frames, or it is `Run` going to
`epoll_wait`: then it has just seen `stop_` unset, or it is about to write itself. -/
theorem Awake.light {s : EventLoop} {f : LoopFrame} {rest : List LoopFrame} {n : LoopNext}
    (hinv : Awake s) (hlayered : Layered s.stack) (hstack : s.stack = f :: rest)
    (hidle : s.calls.lookup .loop = none) (hlight : f.light = true) (hquiet : Quiet s .loop n.loop)
    (hframes : LightFrames n) : Awake { n.loop with stack := n.frames ++ rest } := by
  have hmoved : LoopMoved s { n.loop with stack := n.frames ++ rest } f n.frames rest :=
    ⟨hstack, rfl, hidle, fun b hb => hquiet.lookup_of_ne hb⟩
  have hsame : EPoll.SameQueues s.epoll n.loop.epoll := by rw [hquiet.epoll]; exact .refl _
  have hf : ∀ q, f.drains q → ∃ g ∈ n.frames, g.drains q :=
    fun q h => absurd h (LoopFrame.not_drains_of_light hlight)
  rcases hframes with hframes | ⟨final, hframes, hwhy⟩
  · refine hmoved.awake hinv hlayered hsame hf fun g hg final heq => ?_
    have hglight := (hframes g hg).1
    rw [heq] at hglight
    exact absurd hglight (by simp [LoopFrame.light])
  · refine ⟨fun q hq => ?_, fun hs _ => ?_⟩
    · rw [hsame.eventsPending] at hq
      exact hmoved.covered (hinv.covered q hq) (·.of_same hsame) (hf q)
    · rcases hwhy with hstop | hw
      · exact absurd (hstop.symm.trans hs) (by simp)
      · exact .inr ⟨.loop, .waking, hw, rfl⟩

/-- The item of the eventfd makes room for its drain, and the rest of the batch stays. -/
theorem batch_drains (s : EventLoop) {n : Notification} {ns : List Notification} {final : Bool}
    {q : Queue} (h : (LoopFrame.batch (n :: ns) final).drains q) :
    ∃ g ∈ s.processNotification n ++ [.batch ns final], g.drains q := by
  obtain ⟨m, hm, hitem⟩ := h
  rcases List.mem_cons.mp hm with rfl | hm
  · rcases processNotification_spec s m with ⟨-, heq⟩ | ⟨hne, -⟩
    · exact ⟨.eventfdRead, by simp [heq], trivial⟩
    · exact absurd hitem hne
  · exact ⟨.batch ns final, by simp, m, hm, hitem⟩

/-- **One step keeps every queue covered.** A transition that writes the eventfd covers all of
them at once; one that does not leaves the queues alone, or has the swap ahead of it. -/
theorem awake_step {cfg : Config} {l : LoopLabel} {s s' : EventLoop} {o : List LoopObs}
    (hinv : Awake s) (hlayered : Layered s.stack) (hmove : Move cfg s l s' o) : Awake s' := by
  cases hmove with
  | @call a r _ _ hmay hreq hquiet hobs =>
      have hidle := idle_of_mayCall hmay
      refine hinv.of_same (·.of_idle hidle fun b hb => hquiet.lookup_of_ne hb) ?_ hquiet.stack ?_
      · rw [hquiet.epoll]; exact .refl _
      · exact hquiet.stop.imp id fun hw => ⟨a, .waking, hw, rfl⟩
  | @attachRefused a e hp hatt =>
      exact hinv.of_same (·.of_call hp rfl fun b hb => by simp [hb]) (.refl _) rfl (.inl rfl)
  | @created a e hp hatt hfresh =>
      refine hinv.of_same (·.of_call hp rfl fun b hb => ?_) (.refl _) rfl (.inl rfl)
      rw [lookup_setCall, if_neg hb]
      rfl
  | pushed hp hlock => exact hinv.push hp
  | @signalled a element hp =>
      refine .of_edge ?_
      rw [complete_epoll]
      exact EPoll.edge_wakeup s.epoll
  | @woken a hp => exact .of_edge (EPoll.edge_wakeup _)
  | @closeBegins a e hp hflag =>
      refine hinv.of_same (·.of_call hp rfl fun b hb => ?_) (.refl _) rfl (.inl rfl)
      rw [lookup_setCall, if_neg hb]
      rfl
  | @closeReturns a e hp hflag =>
      exact hinv.of_same (·.of_call hp rfl fun b hb => by simp [hb]) (.refl _) rfl (.inl rfl)
  | @erased a e hp he =>
      exact hinv.of_same (·.of_call hp rfl fun b hb => by simp [hb]) (.refl _) rfl (.inl rfl)
  | light hstack hidle hlight hrun hquiet hobs hframes hnested =>
      exact hinv.light hlayered hstack hidle hlight hquiet hframes
  | wait hstack hidle => exact hinv.epollWait hstack _
  | @notification n ns final rest hstack hidle =>
      have hmoved : LoopMoved s
          { s with stack := s.processNotification n ++ .batch ns final :: rest }
          (.batch (n :: ns) final) (s.processNotification n ++ [.batch ns final]) rest :=
        ⟨hstack, by simp, hidle, fun _ _ => rfl⟩
      refine hmoved.awake hinv hlayered (.refl _) (fun q => batch_drains s) ?_
      intro g hg final' heq
      subst heq
      rcases processNotification_spec s n with ⟨-, heq⟩ | ⟨-, heq | ⟨fd, e, events, -, heq⟩⟩
      all_goals simp [heq] at hg
  | drain hstack hidle => exact .drain hstack
  | @drained rest hstack hidle =>
      have hmoved : LoopMoved s { s with stack := [.handleElements .add, .handleElements .remove,
            .handleElements .ready] ++ rest }
          .eventfdRead [.handleElements .add, .handleElements .remove, .handleElements .ready]
          rest :=
        ⟨hstack, rfl, hidle, fun _ _ => rfl⟩
      refine hmoved.awake hinv hlayered (.refl _) ?_ (by simp)
      intro q _
      cases q with
      | add => exact ⟨.handleElements .add, by simp, rfl⟩
      | remove => exact ⟨.handleElements .remove, by simp, rfl⟩
      | ready => exact ⟨.handleElements .ready, by simp, rfl⟩
  | swapped hstack hidle hlock => exact hinv.swap hlayered hstack hidle
  | @finalized i element elements rest n hstack hidle hrun hthrew =>
      obtain ⟨hsame, hloop, hframes, -⟩ := finalizeElement_spec hrun
      have hcalls : n.loop.calls = s.calls := by rw [hloop]
      have hmoved : LoopMoved s { n.loop with stack := n.frames ++ .finalize elements :: rest }
          (.finalize (element :: elements)) (n.frames ++ [.finalize elements]) rest :=
        ⟨hstack, by simp, hidle, fun b _ => by rw [show _ = _ from hcalls]⟩
      refine hmoved.awake hinv hlayered hsame (fun q h => absurd h id) fun g hg final heq => ?_
      subst heq
      rcases hframes with heq | ⟨events, heq⟩
      all_goals simp [heq] at hg
  | @edge fd e he => exact hinv.of_same id (EPoll.queueItem_sameQueues ..) rfl (.inl rfl)
  | expire => exact hinv.of_same id (.refl _) rfl (.inl rfl)
  | destroyed he hun hepoll =>
      refine hinv.of_same id ?_ rfl (.inl rfl)
      rcases hepoll with ⟨-, rfl, -⟩ | ⟨-, rfl, -⟩
      · exact .refl _
      · exact EPoll.unregister_sameQueues ..

/-- Every queue is covered in every state that is reached without a crash. -/
theorem awake_of_run {cfg : Config} {ok : LoopLabel → EventLoop → Prop} {tr : List LoopObs}
    {s : EventLoop} (h : GuardedRun (loopSystem cfg) ok init tr s) (hc : s.crashed = none) :
    Awake s :=
  invariant_of_run (I := fun _ s => Awake s) awake_init
    (fun hrun _ ih _ hmove => awake_step ih (layered_of_run hrun) hmove) h hc

/-- **No lost wakeup.** With the loop thread at `epoll_wait` and no write to the eventfd
owed, a queue with elements in it, or `stop_`, has its edge in the eventfd, so that
`epoll_wait` returns. -/
theorem no_lost_wakeup (cfg : Config) {tr : List LoopObs} {s : EventLoop}
    (h : Run (loopSystem cfg) init tr s) (hwait : s.AtWait) (howed : ¬s.WriteOwed)
    (hwork : (∃ q, s.epoll.eventsPending q ≠ []) ∨ s.stop = true) :
    s.epoll.Edge ∧ ∀ poll, (s.epoll.epollWait poll).1 ≠ [] := by
  obtain ⟨final, hstack⟩ := hwait.stack_eq (layered_of_run h)
  have hc : s.crashed = none := by
    cases hc : s.crashed with
    | none => rfl
    | some ex =>
        rw [stack_of_crashed h hc] at hstack
        exact absurd hstack (by simp)
  have hinv := awake_of_run h hc
  have hedge : s.epoll.Edge := by
    rcases hwork with ⟨q, hq⟩ | hstop
    · rcases hinv.covered q hq with hedge | hw | ⟨f, hf, hdrain⟩
      · exact hedge
      · exact absurd hw howed
      · -- the only frame there is swaps nothing
        rw [hstack] at hf
        rw [List.mem_singleton.mp hf] at hdrain
        exact absurd hdrain id
    · exact (hinv.stop hstop hwait).resolve_right howed
  exact ⟨hedge, hedge.epollWait_ne_nil⟩

/-- A thread attaches a handler while the loop is on its way to `epoll_wait`. -/
def attachFirst : List LoopLabel :=
  [.call (.user 0) (.attach 0), .proceed (.user 0), .proceed (.user 0), .loop .none,
    .proceed (.user 0)]

theorem not_writeOwed_of_calls {s : EventLoop} (h : s.calls = ∅) : ¬s.WriteOwed := by
  rintro ⟨a, p, hp, -⟩
  rw [h, AList.lookup_empty] at hp
  exact absurd hp (by simp)

theorem no_lost_wakeup_attachFirst :
    (after userHandlers attachFirst).1.epoll.eventsPending .add = [.add 0] ∧
      (after userHandlers attachFirst).1.epoll.Edge :=
  ⟨rfl, (no_lost_wakeup userHandlers (run_after attachFirst rfl) ⟨false, [], rfl⟩
    (not_writeOwed_of_calls rfl) (.inl ⟨.add, List.cons_ne_nil _ _⟩)).1⟩

end EventLoop

end Libael
