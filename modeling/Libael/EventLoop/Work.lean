import Libael.Lts.Potential
import Libael.EventLoop.Dispatch

/-!
# Libael.EventLoop.Work

**The event loop does not spin.** What is still to be done in it is a number (`work`): each
frame, each call in progress, each queued element and each ready item stands for a bounded
number of transitions. Every transition lowers it, except those that come from outside: a
call into the library, an edge that the kernel sees, the end of a target instance. So all
the transitions of a run, whatever the threads and the kernel do, are paid for by the calls
and the edges.

What `Run` does for an event in its closing pass is charged to the `Attach` that has
created the event: `22` for each event, in the frames that come before the pass.
-/

namespace Libael

open Lts

/-! ### What things stand for -/

/-- A call of `HandleEvents` up to its return, for the worst of the handlers: a timer runs
its function `interval_occurrences_limit_` times at most. -/
def Config.dispatchWork (cfg : Config) : Nat := 2 * cfg.intervalOccurrencesLimit + 46

def Element.work (cfg : Config) : Element → Nat
  | .remove _ => 1
  | .add _ | .ready _ _ _ => cfg.dispatchWork

/-- An item that `epoll_wait` has handed out. -/
def Item.work (cfg : Config) : Item → Nat
  | .pendingFd => 11
  | .descriptor _ _ => cfg.dispatchWork

def Progress.work (cfg : Config) : Progress → Nat
  | .attaching _ => cfg.dispatchWork + 41
  | .pushing element => element.work cfg + 17
  | .signalling _ | .waking => 16
  | .closing _ => 20
  | .erasing _ => 19

/-- A frame, when this many events are attached. -/
def LoopFrame.work (cfg : Config) (attached : Nat) : LoopFrame → Nat
  | .whileNotStop => 21 + 22 * attached
  | .copyEvents => 20 + 22 * attached
  | .closing events => 19 + 22 * events.length
  | .wakeup => 18
  | .process false => 20 + 22 * attached
  | .process true => 1
  | .batch notifications false =>
    weight (fun n => n.item.work cfg) notifications + 22 + 22 * attached
  | .batch notifications true => weight (fun n => n.item.work cfg) notifications + 1
  | .eventfdRead => 10
  | .handleElements _ => 3
  | .finalize elements => weight (Element.work cfg) elements + 1
  | .dispose _ => 1
  | .handleEvents _ _ => 2 * cfg.intervalOccurrencesLimit + 24
  | .release _ => 21
  | .callback _ => 1
  | .closeEvent _ => 21
  | .removeInternal _ => 1
  | .timerRead _ => 2 * cfg.intervalOccurrencesLimit + 23
  | .timerRun _ occurrences => 2 * occurrences + 22

/-- The queues, the ready items and the counter of the eventfd. A ready item has to be handed
out first. -/
def EPoll.work (cfg : Config) (p : EPoll) : Nat :=
  weight (Element.work cfg) (p.eventsPending .add) +
    weight (Element.work cfg) (p.eventsPending .remove) +
    weight (Element.work cfg) (p.eventsPending .ready) +
    weight (fun i => Item.work cfg i + 3) p.readyItems + min p.counter 1

namespace EventLoop

/-- Everything but what the thread of the loop has to run. -/
def pendingWork (cfg : Config) (s : EventLoop) : Nat :=
  entriesWeight (Progress.work cfg) s.calls + s.epoll.work cfg + s.objects.length

/-- What the thread of the loop has to run. -/
def stackWork (cfg : Config) (attached : Nat) (stack : List LoopFrame) : Nat :=
  weight (LoopFrame.work cfg attached) stack

/-- What is still to be done. -/
def work (cfg : Config) (s : EventLoop) : Nat :=
  if s.crashed.isSome then 0 else s.pendingWork cfg + stackWork cfg s.events.length s.stack

/-- What comes with a label from outside. -/
def credit (cfg : Config) : LoopLabel → Nat
  | .call _ _ => 2 * cfg.intervalOccurrencesLimit + 88
  | .edge _ => 2 * cfg.intervalOccurrencesLimit + 50
  | .expire _ => 1
  | _ => 0

/-- `epoll_wait` sleeps while no item is queued. -/
def wakes (l : LoopLabel) (s : EventLoop) : Bool :=
  match l with
  | .loop (.wait _) => !s.epoll.readyItems.isEmpty
  | _ => true

end EventLoop

/-! ### The queues -/

namespace EPoll

variable (cfg : Config) (p : EPoll)

theorem work_queueItem (i : Item) : (p.queueItem i).work cfg ≤ p.work cfg + i.work cfg + 3 := by
  unfold queueItem
  split
  · omega
  · simp only [work, weight_append, weight_cons, weight_nil]
    omega

theorem work_wakeup : p.wakeup.work cfg ≤ p.work cfg + 15 := by
  have hitem := work_queueItem cfg { p with counter := p.counter + 1 } .pendingFd
  have hcounter : { p with counter := p.counter + 1 }.work cfg ≤ p.work cfg + 1 := by
    simp only [work]
    omega
  simp only [wakeup, Item.work] at hitem ⊢
  omega

/-- An element that is queued adds what it stands for. -/
theorem work_push (element : Element) (lock : Option Agent) :
    { p with
      eventsPending := Function.update p.eventsPending element.queue
        (p.eventsPending element.queue ++ [element])
      lock }.work cfg = p.work cfg + element.work cfg := by
  cases hq : element.queue <;> simp [work, weight_append] <;> omega

/-- The swap takes out what it returns. -/
theorem work_swap (q : Queue) :
    (p.swapElements q).2.work cfg + weight (Element.work cfg) (p.eventsPending q) =
      p.work cfg := by
  cases q <;> simp [swapElements, work] <;> omega

theorem work_unregister (fd : Fd) : (p.unregister fd).work cfg ≤ p.work cfg :=
  Nat.add_le_add_right (Nat.add_le_add_left (weight_sublist _ List.filter_sublist) _) _

/-- What is handed out leaves the queue; nothing is added to it. -/
theorem work_harvest (w : Item → Nat) (report : Item → Option EPollEvents) (room : Nat)
    (items : List Item) :
    weight (fun n => w n.item) (harvest report room items).1 +
      weight w (harvest report room items).2 ≤ weight w items := by
  induction items generalizing room with
  | nil => cases room <;> simp [harvest]
  | cons i items ih =>
      cases room with
      | zero => simp [harvest]
      | succ room =>
          cases hi : report i with
          | none =>
              simp only [harvest, hi, weight_cons]
              have := ih (room + 1)
              omega
          | some events =>
              simp only [harvest, hi, weight_cons]
              have := ih room
              omega

/-- When nothing is handed out, nothing stays queued. -/
theorem harvest_nil {report : Item → Option EPollEvents} (room : Nat) {items : List Item}
    (h : (harvest report (room + 1) items).1 = []) : (harvest report (room + 1) items).2 = [] := by
  induction items with
  | nil => rfl
  | cons i items ih =>
      cases hi : report i with
      | none =>
          simp only [harvest, hi] at h ⊢
          exact ih h
      | some events => simp [harvest, hi] at h

theorem epollWait_eq (poll : Fd → EventId → Option EPollEvents) :
    p.epollWait poll = ((harvest (pollItem p.counter poll) maxEvents p.readyItems).1,
      { p with readyItems := (harvest (pollItem p.counter poll) maxEvents p.readyItems).2 }) := rfl

/-- An `epoll_wait` lowers what is queued by what it hands out, and by one at least for each
notification; with an item queued it lowers it in any case. -/
theorem work_epollWait (poll : Fd → EventId → Option EPollEvents) :
    weight (fun n => n.item.work cfg) (p.epollWait poll).1 + 3 * (p.epollWait poll).1.length +
      (p.epollWait poll).2.work cfg ≤ p.work cfg ∧
    (p.readyItems ≠ [] → (p.epollWait poll).1 = [] →
      (p.epollWait poll).2.work cfg + 1 ≤ p.work cfg) := by
  have hharvest := work_harvest (fun i => Item.work cfg i + 3) (pollItem p.counter poll) maxEvents
    p.readyItems
  have hsum : ∀ ns : List Notification,
      weight (fun n => n.item.work cfg + 3) ns = weight (fun n => n.item.work cfg) ns +
        3 * ns.length := by
    intro ns
    induction ns with
    | nil => rfl
    | cons n ns ih =>
        simp only [weight_cons, List.length_cons]
        omega
  refine ⟨?_, fun hne hnil => ?_⟩
  · rw [hsum] at hharvest
    simp only [epollWait_eq, work]
    omega
  · simp only [epollWait_eq] at hnil
    have hleft : (harvest (pollItem p.counter poll) maxEvents p.readyItems).2 = [] :=
      harvest_nil 31 hnil
    obtain ⟨i, items, hitems⟩ := List.exists_cons_of_ne_nil hne
    simp only [epollWait_eq, work, hleft, weight_nil]
    rw [hitems, weight_cons]
    omega

end EPoll

/-! ### The stack -/

/-- Only `Run` and `Process` look at the attached events. -/
theorem LoopFrame.work_of_level {cfg : Config} {f : LoopFrame} (h : f.level ≠ 0) (k k' : Nat) :
    f.work cfg k = f.work cfg k' := by
  cases f with
  | whileNotStop | copyEvents | closing | wakeup | process | batch =>
      exact absurd rfl h
  | _ => rfl

theorem LoopFrame.work_le_succ (cfg : Config) (f : LoopFrame) (k : Nat) :
    f.work cfg k ≤ f.work cfg (k + 1) ∧ f.work cfg (k + 1) ≤ f.work cfg k + 22 := by
  cases f with
  | process final => cases final <;> simp only [work] <;> omega
  | batch ns final => cases final <;> simp only [work] <;> omega
  | _ =>
      simp only [work]
      omega

/-- Every frame stands for a transition of its own. -/
theorem LoopFrame.work_pos (cfg : Config) (f : LoopFrame) (k : Nat) : 1 ≤ f.work cfg k := by
  cases f with
  | process final => cases final <;> simp only [work] <;> omega
  | batch ns final => cases final <;> simp only [work] <;> omega
  | _ =>
      simp only [work]
      omega

namespace EventLoop

variable (cfg : Config) {s s' : EventLoop}

theorem stackWork_cons (k : Nat) (f : LoopFrame) (stack : List LoopFrame) :
    stackWork cfg k (f :: stack) = f.work cfg k + stackWork cfg k stack := weight_cons ..

theorem stackWork_append (k : Nat) (frames stack : List LoopFrame) :
    stackWork cfg k (frames ++ stack) = stackWork cfg k frames + stackWork cfg k stack :=
  weight_append ..

theorem stackWork_le_succ (k : Nat) (stack : List LoopFrame) :
    stackWork cfg k stack ≤ stackWork cfg (k + 1) stack := by
  induction stack with
  | nil => exact Nat.le_refl _
  | cons f stack ih =>
      rw [stackWork_cons, stackWork_cons]
      exact Nat.add_le_add (f.work_le_succ cfg k).1 ih

theorem stackWork_mono {k k' : Nat} (h : k ≤ k') (stack : List LoopFrame) :
    stackWork cfg k stack ≤ stackWork cfg k' stack := by
  induction h with
  | refl => exact Nat.le_refl _
  | step _ ih => exact Nat.le_trans ih (stackWork_le_succ cfg _ stack)

/-- A new event is closed once in the closing pass: there is only one frame of `Run`. -/
theorem stackWork_succ {stack : List LoopFrame} (h : Layered stack) (k : Nat) :
    stackWork cfg (k + 1) stack ≤ stackWork cfg k stack + 22 := by
  induction stack with
  | nil => exact Nat.zero_le _
  | cons f stack ih =>
      rw [stackWork_cons, stackWork_cons]
      by_cases hlevel : f.level = 0
      · rw [h.eq_nil hlevel]
        have hf := (f.work_le_succ cfg k).2
        simp only [stackWork, weight_nil]
        omega
      · have hrest := ih (List.pairwise_cons.mp h).2
        rw [LoopFrame.work_of_level hlevel (k + 1) k]
        omega

/-! ### The calls -/

theorem pendingWork_setCall {a : Agent} (p : Progress) (hidle : s.calls.lookup a = none) :
    (s.setCall a p).pendingWork cfg = s.pendingWork cfg + p.work cfg := by
  have hcalls := entriesWeight_insert_new (w := Progress.work cfg) (b := p) hidle
  simp only [pendingWork, setCall, hcalls]
  omega

/-- `CloseEvent` may begin an `Event::Close`. -/
theorem pendingWork_closeEvent {a : Agent} (e : EventId) (hidle : s.calls.lookup a = none) :
    (s.closeEvent a e).pendingWork cfg ≤ s.pendingWork cfg + 20 := by
  unfold closeEvent
  split
  · rw [pendingWork_setCall cfg _ hidle]
    exact Nat.le_refl _
  · omega

theorem pendingWork_destroyHandler {a : Agent} (e : EventId) (hidle : s.calls.lookup a = none) :
    (s.destroyHandler a e).pendingWork cfg ≤ s.pendingWork cfg + 20 :=
  pendingWork_closeEvent cfg (s := s.setHandler e _) e hidle

/-- What the call of `a` stood for is left when it ends. -/
theorem pendingWork_endCall {a : Agent} {p : Progress} (hp : s.calls.lookup a = some p) :
    (s.endCall a).pendingWork cfg + p.work cfg = s.pendingWork cfg := by
  have hcalls := entriesWeight_erase (w := Progress.work cfg) hp
  simp only [pendingWork, endCall]
  omega

theorem pendingWork_complete (a : Agent) (element : Element) :
    (s.complete a element).pendingWork cfg = (s.endCall a).pendingWork cfg := by
  cases element <;> rfl

/-- The call of `a` goes over to `p'`. -/
theorem pendingWork_setCall_old {a : Agent} {p : Progress} (p' : Progress)
    (hp : s.calls.lookup a = some p) :
    (s.setCall a p').pendingWork cfg + p.work cfg = s.pendingWork cfg + p'.work cfg := by
  have hcalls := entriesWeight_insert_old (w := Progress.work cfg) p' hp
  simp only [pendingWork, setCall]
  omega

/-- What a call begins with. -/
theorem work_of_starts {p : Progress} (h : Starts s p) :
    p.work cfg + 1 ≤ 2 * cfg.intervalOccurrencesLimit + 88 := by
  cases h with
  | attaching | ready _ | closing _ | waking =>
      simp only [Progress.work, Element.work, Config.dispatchWork]
      omega

/-! ### The innermost frame -/

variable {cfg}

/-- A light frame pays for what it leaves to run and for the call it begins. -/
theorem work_of_lightRun {rest : List LoopFrame} {f : LoopFrame} {i : LoopInput} {n : LoopNext}
    (h : LightRun cfg s rest f i n) (hidle : s.calls.lookup .loop = none)
    (hthrew : n.threw = none) :
    n.loop.pendingWork cfg + stackWork cfg s.events.length n.frames + 1 ≤
      s.pendingWork cfg + f.work cfg s.events.length := by
  cases h with
  | notInternal _ | readFails _ => exact absurd hthrew (by simp)
  | @closes events e he =>
      have hlength := List.length_erase_of_mem he
      have hpos := List.length_pos_of_mem he
      simp only [stackWork, weight_cons, weight_nil, LoopFrame.work]
      omega
  | wakes =>
      rw [pendingWork_setCall cfg _ hidle]
      simp only [stackWork, weight_cons, weight_nil, LoopFrame.work, Progress.work]
      omega
  | @dropped e _ _ _ =>
      have hcall := pendingWork_destroyHandler cfg e hidle
      simp only [stackWork, weight_nil, LoopFrame.work]
      exact Nat.add_le_add_right hcall 1
  | @closeEvent e =>
      have hcall := pendingWork_closeEvent cfg e hidle
      simp only [stackWork, weight_nil, LoopFrame.work]
      exact Nat.add_le_add_right hcall 1
  | expired _ _ =>
      have hmin := Nat.min_le_right
      simp only [stackWork, weight_cons, weight_nil, LoopFrame.work]
      omega
  | copied | returned | removed _ | oneShot _ =>
      show s.pendingWork cfg + _ + 1 ≤ _
      simp only [stackWork, weight_cons, weight_nil, LoopFrame.work]
      omega
  | _ =>
      simp only [stackWork, weight_cons, weight_nil, LoopFrame.work]
      omega

/-- A call of `HandleEvents`, if the handler is there. -/
theorem stackWork_dispatch (k : Nat) (e : EventId) (events : Events) (alive : Bool) :
    stackWork cfg k (if alive then [.handleEvents e events, .release e] else []) + 1 ≤
      cfg.dispatchWork := by
  cases alive with
  | true =>
      simp only [if_true, stackWork, weight_cons, weight_nil, LoopFrame.work, Config.dispatchWork]
      omega
  | false =>
      show 0 + 1 ≤ 2 * cfg.intervalOccurrencesLimit + 46
      omega

/-- A finalize function pays with what its element stands for. -/
theorem work_of_finalizes {element : Element} {n : LoopNext} (h : Finalizes cfg s element n)
    (k : Nat) :
    n.loop.pendingWork cfg + (stackWork cfg k n.frames + 1) ≤
      s.pendingWork cfg + element.work cfg := by
  cases h with
  | @addNoHandle e _ => exact Nat.add_le_add_left (stackWork_dispatch k e 0 _) _
  | add _ _ => exact Nat.add_le_add_left (Nat.succ_le_succ (Nat.zero_le _)) _
  | removeNoHandle _ => exact Nat.le_refl _
  | @remove e _ _ =>
      have hunregister := EPoll.work_unregister cfg { s.epoll with
        events := Function.update s.epoll.events (cfg.handle e) none } (cfg.handle e)
      exact Nat.add_le_add_right (Nat.add_le_add_right (Nat.add_le_add_left hunregister _) _) 1
  | ignored _ => exact Nat.add_le_add_left (Nat.succ_le_succ (Nat.zero_le _)) _
  | @ready e events _ _ => exact Nat.add_le_add_left (stackWork_dispatch k e events _) _

variable (cfg) in
/-- The body of the loop of `Process` pays with what its item stands for. -/
theorem work_processNotification (n : Notification) (k : Nat) :
    stackWork cfg k (s.processNotification n) + 1 ≤ n.item.work cfg := by
  unfold processNotification
  cases n.item with
  | pendingFd => exact Nat.le_refl _
  | descriptor fd e₀ =>
      have hnone : 0 + 1 ≤ cfg.dispatchWork := Nat.succ_le_succ (Nat.zero_le _)
      dsimp only [Item.work]
      split
      · exact hnone
      · exact stackWork_dispatch k _ _ _

/-! ### The transitions -/

theorem work_of_uncrashed (hc : s.crashed = none) :
    s.work cfg = s.pendingWork cfg + stackWork cfg s.events.length s.stack := by
  rw [work, if_neg (by simp [hc])]

variable (cfg) in
/-- The code of the user that `a` runs begins one call at most. -/
theorem work_of_quiet {a : Agent} (h : Quiet s a s') (hidle : s.calls.lookup a = none) :
    s'.pendingWork cfg + 1 ≤ s.pendingWork cfg + (2 * cfg.intervalOccurrencesLimit + 88) := by
  unfold pendingWork
  rw [h.epoll, h.objects]
  rcases h.calls with hcalls | ⟨p, hp, hcalls⟩
  · rw [hcalls]
    omega
  · have hwork := work_of_starts cfg hp
    rw [hcalls, entriesWeight_insert_new hidle]
    omega

variable (cfg) in
/-- `AddElement` pays for the element that it leaves in the queue, and for the write that
may follow. -/
theorem work_of_push {a : Agent} {element : Element}
    (hp : s.calls.lookup a = some (.pushing element)) :
    (s.push a element).pendingWork cfg + 1 ≤ s.pendingWork cfg := by
  rcases push_spec s a element with ⟨hempty, heq⟩ | ⟨-, heq⟩
  · have hqueue := EPoll.work_push cfg s.epoll element (some a)
    rw [hempty, List.nil_append] at hqueue
    have hcalls := entriesWeight_insert_old (w := Progress.work cfg) (.signalling element) hp
    rw [heq]
    simp only [pendingWork, setCall, Progress.work] at hcalls ⊢
    omega
  · have hqueue := EPoll.work_push cfg s.epoll element none
    have hcalls := entriesWeight_erase (w := Progress.work cfg) hp
    rw [heq, pendingWork_complete]
    simp only [pendingWork, endCall, Progress.work] at hcalls ⊢
    omega

/-- A write to the eventfd by a call that ends with it. -/
theorem work_of_write {a : Agent} {p : Progress} {epoll : EPoll}
    (hepoll : epoll.work cfg ≤ s.epoll.work cfg + 15) (hp : s.calls.lookup a = some p)
    (howes : p.owesWrite = true) :
    ({ s with epoll }.endCall a).pendingWork cfg + 1 ≤ s.pendingWork cfg := by
  have hcalls := entriesWeight_erase (w := Progress.work cfg) hp
  have hp : p.work cfg = 16 := by
    cases p with
    | signalling | waking => rfl
    | _ => exact absurd howes (by simp [Progress.owesWrite])
  simp only [pendingWork, endCall]
  omega

/-- While the loop around `eventfd_read` goes on, the counter has not been zero. -/
theorem counter_of_drain {rest : List LoopFrame} {o : List LoopObs}
    (hs : step cfg (.loop .none) s = some (s', o)) (hstack : s.stack = .eventfdRead :: rest)
    (hstack' : s'.stack = s.stack) : s.epoll.counter ≠ 0 := by
  intro hzero
  obtain ⟨-, -, n, hn, rfl, -⟩ := step_loop hs hstack
  simp only [runFrame, EPoll.eventfdRead, hzero, if_true] at hn
  obtain rfl := Option.some.inj hn
  rw [hstack] at hstack'
  exact absurd hstack' (by simp [resume])

variable (cfg) in
/-- `epoll_wait`: each notification brings three, two for the frame and one for the transition;
where it hands nothing out it lowers what is queued. -/
theorem work_of_wait (poll : Fd → EventId → Option EPollEvents) (final : Bool) (k : Nat)
    (hitems : s.epoll.readyItems ≠ []) :
    (s.epoll.epollWait poll).2.work cfg +
      (if (s.epoll.epollWait poll).1.isEmpty then LoopFrame.process final
        else .batch (s.epoll.epollWait poll).1 final).work cfg k + 1 ≤
      s.epoll.work cfg + (LoopFrame.process final).work cfg k := by
  obtain ⟨hsome, hnone⟩ := EPoll.work_epollWait cfg s.epoll poll
  cases hns : (s.epoll.epollWait poll).1 with
  | nil =>
      have hfalls := hnone hitems hns
      simp only [List.isEmpty_nil, if_true]
      omega
  | cons n ns =>
      rw [hns, List.length_cons] at hsome
      simp only [List.isEmpty_cons, Bool.false_eq_true, if_false]
      cases final <;> simp only [LoopFrame.work] <;> omega

/-- The end of an event pays with the event itself. -/
theorem pendingWork_destroyed {e : EventId} {epoll : EPoll} (he : e ∈ s.objects)
    (hepoll : epoll.work cfg ≤ s.epoll.work cfg) :
    { s with objects := s.objects.erase e, epoll }.pendingWork cfg + 1 ≤ s.pendingWork cfg := by
  have hlength := List.length_erase_of_mem he
  have hpos := List.length_pos_of_mem he
  simp only [pendingWork]
  omega

/-- A transition that leaves the stack and the attached events alone pays with the rest. -/
theorem work_of_aside {k : Nat} (hevents : s'.events = s.events) (hstack : s'.stack = s.stack)
    (h : s'.pendingWork cfg + 1 ≤ s.pendingWork cfg + k) :
    s'.pendingWork cfg + stackWork cfg s'.events.length s'.stack + 1 ≤
      s.pendingWork cfg + stackWork cfg s.events.length s.stack + k := by
  rw [hevents, hstack]
  omega

/-- A transition of the thread of the loop pays with its innermost frame as well. -/
theorem work_of_frame {k : Nat} {f : LoopFrame} {rest : List LoopFrame} (frames : List LoopFrame)
    (hevents : s'.events = s.events) (hstack : s.stack = f :: rest)
    (hstack' : s'.stack = frames ++ rest)
    (h : s'.pendingWork cfg + stackWork cfg s.events.length frames + 1 ≤
      s.pendingWork cfg + f.work cfg s.events.length) :
    s'.pendingWork cfg + stackWork cfg s'.events.length s'.stack + 1 ≤
      s.pendingWork cfg + stackWork cfg s.events.length s.stack + k := by
  rw [hevents, hstack, hstack', stackWork_append, stackWork_cons]
  omega

/-- **Every transition is paid for**, the state it leads to not being a crash. The calls of the
threads come first, then the frames of the loop, then the kernel and the owners of events. -/
theorem work_of_move {l : LoopLabel} {o : List LoopObs} (hlayered : Layered s.stack)
    (hwakes : wakes l s = true) (hs : step cfg l s = some (s', o)) (hc : s'.crashed = none)
    (hmove : Move cfg s l s' o) :
    s'.pendingWork cfg + stackWork cfg s'.events.length s'.stack + 1 ≤
      s.pendingWork cfg + stackWork cfg s.events.length s.stack + credit cfg l := by
  cases hmove with
  | call hmay _ hquiet _ =>
      exact work_of_aside hquiet.events hquiet.stack
        (work_of_quiet cfg hquiet (idle_of_mayCall hmay))
  | attachRefused hp _ =>
      have hcall := pendingWork_endCall cfg hp
      refine work_of_aside rfl rfl ?_
      simp only [Progress.work] at hcall
      omega
  | @created a e hp _ _ =>
      have hcalls := entriesWeight_insert_old (w := Progress.work cfg) (.pushing (.add e)) hp
      have hevent := stackWork_succ cfg hlayered s.events.length
      show entriesWeight _ (s.calls.insert a _) + s.epoll.work cfg + (e :: s.objects).length +
        stackWork cfg (e :: s.events).length s.stack + 1 ≤ _
      simp only [pendingWork, Progress.work, Element.work, credit, List.length_cons] at hcalls ⊢
      omega
  | @pushed a element hp _ =>
      refine work_of_aside (push_events s a element) (push_stack s a element) ?_
      exact Nat.le_trans (work_of_push cfg hp) (Nat.le_add_right _ _)
  | @signalled a element hp =>
      have hcall := work_of_write (EPoll.work_wakeup cfg s.epoll) hp rfl
      refine work_of_aside (by rw [complete_events]) (by rw [complete_stack]) ?_
      rw [pendingWork_complete]
      exact Nat.le_trans hcall (Nat.le_add_right _ _)
  | woken hp =>
      have hcall := work_of_write (EPoll.work_wakeup cfg s.epoll) hp rfl
      exact work_of_aside rfl rfl (Nat.le_trans hcall (Nat.le_add_right _ _))
  | @closeBegins a e hp _ =>
      have hcall := pendingWork_setCall_old cfg (.erasing e) hp
      refine work_of_aside rfl rfl ?_
      show (s.setCall a (.erasing e)).pendingWork cfg + 1 ≤ _
      simp only [Progress.work] at hcall
      omega
  | closeReturns hp _ =>
      have hcall := pendingWork_endCall cfg hp
      refine work_of_aside rfl rfl ?_
      simp only [Progress.work] at hcall
      omega
  | @erased a e hp he =>
      have hcall := pendingWork_setCall_old cfg (.pushing (.remove e)) hp
      have hevents := stackWork_mono cfg
        (List.length_erase_of_mem he ▸ Nat.sub_le _ 1 : (s.events.erase e).length ≤ _) s.stack
      show (s.setCall a _).pendingWork cfg + stackWork cfg (s.events.erase e).length s.stack + 1 ≤ _
      simp only [Progress.work, Element.work] at hcall
      omega
  | @light i f rest n hstack hidle hlight hrun hquiet _ _ _ =>
      obtain ⟨-, -, n', hrun', heq, -⟩ := step_loop hs hstack
      obtain rfl := Option.some.inj (hrun.symm.trans hrun')
      have hthrew := (resume_of_crashed_none (heq ▸ hc)).1
      exact work_of_frame _ hquiet.events hstack rfl
        (work_of_lightRun (lightRun hlight hrun) hidle hthrew)
  | @wait poll final rest hstack _ =>
      have hwait := work_of_wait cfg poll final s.events.length
        (by simpa [wakes] using hwakes)
      refine work_of_frame [_] rfl hstack rfl ?_
      simp only [pendingWork, stackWork_cons]
      show _ + _ + _ + (_ + 0) + 1 ≤ _
      omega
  | @notification n ns final rest hstack _ =>
      have hframes := work_processNotification cfg (s := s) n s.events.length
      refine work_of_frame (s.processNotification n ++ [.batch ns final]) rfl hstack
        (by simp) ?_
      show s.pendingWork cfg + _ + 1 ≤ _
      rw [stackWork_append, stackWork_cons]
      show _ + (_ + (_ + 0)) + 1 ≤ _
      cases final <;> simp only [LoopFrame.work, weight_cons] <;> omega
  | drain hstack _ =>
      have hcounter := counter_of_drain hs hstack rfl
      refine work_of_aside rfl rfl ?_
      simp only [pendingWork, EPoll.work]
      omega
  | @drained rest hstack _ =>
      refine work_of_frame [.handleElements .add, .handleElements .remove,
        .handleElements .ready] rfl hstack rfl ?_
      show s.pendingWork cfg + 9 + 1 ≤ s.pendingWork cfg + 10
      omega
  | @swapped q rest hstack _ _ =>
      have hswap := EPoll.work_swap cfg s.epoll q
      refine work_of_frame [.finalize (s.epoll.eventsPending q),
        .dispose (s.epoll.eventsPending q)] rfl hstack rfl ?_
      simp only [pendingWork, stackWork_cons, LoopFrame.work]
      show _ + _ + _ + (_ + 1 + (1 + 0)) + 1 ≤ _
      omega
  | @finalized i element elements rest n hstack _ hrun hthrew =>
      have hwork := work_of_finalizes (finalizes hrun hthrew) s.events.length
      refine work_of_frame (n.frames ++ [.finalize elements])
        (by rw [(finalizeElement_spec hrun).2.1]) hstack (by simp) ?_
      show n.loop.pendingWork cfg + _ + 1 ≤ _
      rw [stackWork_append, stackWork_cons]
      show _ + (_ + (_ + 0)) + 1 ≤ _
      simp only [LoopFrame.work, weight_cons]
      omega
  | @edge fd e _ =>
      have hitem := EPoll.work_queueItem cfg s.epoll (.descriptor fd e)
      refine work_of_aside rfl rfl ?_
      simp only [pendingWork, credit, Item.work, Config.dispatchWork] at hitem ⊢
      omega
  | expire => exact Nat.le_refl _
  | @destroyed e epoll o he _ hepoll =>
      refine work_of_aside rfl rfl (Nat.le_trans (pendingWork_destroyed he ?_)
        (Nat.le_add_right _ _))
      rcases hepoll with ⟨-, heq, -⟩ | ⟨-, heq, -⟩
      · rw [heq]
      · rw [heq]
        exact EPoll.work_unregister cfg _ _

/-- A crash is paid for by what crashes. -/
theorem work_of_crash {l : LoopLabel} {ex : Exception} {o : List LoopObs} (hc : s.crashed = none)
    (h : Crash cfg s l ex o) : 1 ≤ s.work cfg + credit cfg l := by
  rw [work_of_uncrashed hc]
  cases h with
  | modify _ =>
      simp only [credit]
      omega
  | erase hp _ =>
      have hcall := pendingWork_endCall cfg hp
      simp only [Progress.work] at hcall
      omega
  | @loop i f rest n ex hstack _ _ =>
      have hpos := f.work_pos cfg s.events.length
      rw [hstack, stackWork_cons]
      omega

/-- **The step lemma.** -/
theorem work_of_step {l : LoopLabel} {o : List LoopObs} (hlayered : Layered s.stack)
    (hwakes : wakes l s = true) (hs : step cfg l s = some (s', o)) :
    s'.work cfg + 1 ≤ s.work cfg + credit cfg l := by
  have hc := not_crashed_of_step hs
  cases hc' : s'.crashed with
  | some ex =>
      have hpaid := work_of_crash hc (crash_of_step hs hc').2
      rw [work, if_pos (by simp [hc'])]
      omega
  | none =>
      rw [work_of_uncrashed hc, work_of_uncrashed hc']
      exact work_of_move hlayered hwakes hs hc' (move_of_step hs hc')

/-! ### The bound -/

theorem pays (cfg : Config) : Pays (loopSystem cfg) wakes
    (fun s => ∃ tr, Run (loopSystem cfg) init tr s) (credit cfg) (work cfg) where
  keeps hrun _ hs := by
    obtain ⟨tr, hrun⟩ := hrun
    exact ⟨_, .step hrun trivial hs⟩
  pays hrun hwakes hs := by
    obtain ⟨tr, hrun⟩ := hrun
    exact work_of_step (layered_of_run hrun) hwakes hs

end EventLoop

namespace LoopLabel

/-- A call into the library. -/
def isCall : LoopLabel → Bool
  | .call _ _ => true
  | _ => false

/-- The kernel sees an edge. -/
def isEdge : LoopLabel → Bool
  | .edge _ => true
  | _ => false

/-- A target instance is destroyed. -/
def isExpire : LoopLabel → Bool
  | .expire _ => true
  | _ => false

end LoopLabel

namespace EventLoop

/-- What a schedule brings, counted by kind. -/
theorem weight_credit (cfg : Config) (ls : List LoopLabel) :
    weight (credit cfg) ls =
      (2 * cfg.intervalOccurrencesLimit + 88) * ls.countP LoopLabel.isCall +
      (2 * cfg.intervalOccurrencesLimit + 50) * ls.countP LoopLabel.isEdge +
      ls.countP LoopLabel.isExpire := by
  induction ls with
  | nil => rfl
  | cons l ls ih =>
      rw [weight_cons, ih, List.countP_cons, List.countP_cons, List.countP_cons]
      cases l <;> simp only [credit, LoopLabel.isCall, LoopLabel.isEdge, LoopLabel.isExpire] <;>
        simp [Nat.mul_add] <;> omega

/-- **The event loop does not spin.** However the calls of any threads, the edges of the kernel
and the thread of the loop follow each other, the transitions of everyone taken together
are bounded: 21 for a loop that is never used, a fixed number for each call, another for each edge.
No `epoll_wait` on an empty queue is counted: there the thread sleeps. -/
theorem work_bounded (cfg : Config) {ls : List LoopLabel} {s : EventLoop} {tr : List LoopObs}
    (h : exec (loopSystem cfg) wakes ls init = some (s, tr)) :
    ls.length ≤ 21 + (2 * cfg.intervalOccurrencesLimit + 88) * ls.countP LoopLabel.isCall +
      (2 * cfg.intervalOccurrencesLimit + 50) * ls.countP LoopLabel.isEdge +
      ls.countP LoopLabel.isExpire := by
  have hle := (pays cfg).length_le ⟨[], .refl⟩ h
  have hinit : init.work cfg = 21 := rfl
  rw [weight_credit, hinit] at hle
  omega

/-- An event that is attached, registered, closed and removed again. -/
theorem work_bounded_closedRegistered : ∃ s tr,
    exec (loopSystem userHandlers) wakes closedRegistered init = some (s, tr) ∧
      closedRegistered.length ≤ 21 + 108 * 2 + 70 * 0 + 0 := by
  have hsome : (exec (loopSystem userHandlers) wakes closedRegistered init).isSome = true := by
    decide
  obtain ⟨r, hr⟩ := Option.isSome_iff_exists.mp hsome
  exact ⟨r.1, r.2, hr, work_bounded userHandlers hr⟩

end EventLoop

end Libael
