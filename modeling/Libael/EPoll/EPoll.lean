import Mathlib.Logic.Function.Basic
import Libael.EPoll.Events

/-!
# Libael.EPoll.EPoll

`EPoll` (`lib/epoll.h`, `lib/epoll.cc`): its three pending queues under `lock_`, the
table `events_`, and the part of the kernel it talks to: the counter of the eventfd
`pending_fd_`, the interest list of the epoll instance and its queue of ready items.

What is assumed of the kernel is written into the operations below:

* a write to the eventfd, registered `EPOLLET`, queues its item, which stays queued
  until an `epoll_wait` returns it or finds the counter zero;
* `epoll_wait` polls the queued items in order, hands out at most `MAX_EVENTS` of those
  that have something to report, takes what it has polled off the queue, and sleeps on
  when there was nothing to hand out.

The counter is unbounded here: it is at most the number of wakeups since the last
drain, which the queues keep small.
-/

namespace Libael

/-- The id an event shares with its handler. -/
abbrev EventId := Nat

/-- The value of a `Handle`. -/
abbrev Fd := Int

/-- `Handle::operator bool` -/
def Fd.valid (fd : Fd) : Bool := 0 ≤ fd

/-- An element of one of the pending queues. `attached` of a ready element is not in the
source: it records whether `Attach` had returned when `ReadyEvent` was called. -/
inductive Element
  | add (event : EventId)
  | remove (event : EventId)
  | ready (event : EventId) (events : Events) (attached : Bool)
  deriving DecidableEq

/-- `events_pending_add_`, `events_pending_remove_` and `events_pending_ready_` -/
inductive Queue
  | add | remove | ready
  deriving Repr, DecidableEq

namespace Element

/-- The container an element is added to. -/
def queue : Element → Queue
  | .add _ => .add
  | .remove _ => .remove
  | .ready _ _ _ => .ready

def event : Element → EventId
  | .add e => e
  | .remove e => e
  | .ready e _ _ => e

end Element

/-- What the kernel queues as ready: the eventfd, or a registered descriptor. `event`
identifies the registration; user space sees only `fd`. -/
inductive Item
  | pendingFd
  | descriptor (fd : Fd) (event : EventId)
  deriving DecidableEq

/-- A `struct epoll_event` filled in by `epoll_wait`. -/
structure Notification where
  item : Item
  events : EPollEvents

/-- `EPoll`, with the kernel objects behind its two descriptors. -/
structure EPoll where
  eventsPending : Queue → List Element
  /-- the holder of `lock_` -/
  lock : Option Agent
  events : Fd → Option EventId
  /-- the counter of `pending_fd_` -/
  counter : Nat
  /-- the registered descriptors, `pending_fd_` apart -/
  interest : Fd → Option EventId
  readyItems : List Item

namespace EPoll

/-- `MAX_EVENTS` -/
def maxEvents : Nat := 32

/-- `EPoll::EPoll` -/
def new : EPoll :=
  { eventsPending := fun _ => [], lock := none, events := fun _ => none, counter := 0,
    interest := fun _ => none, readyItems := [] }

/-! ### The kernel -/

/-- The kernel has something to report for an item. -/
def queueItem (p : EPoll) (i : Item) : EPoll :=
  if i ∈ p.readyItems then p else { p with readyItems := p.readyItems ++ [i] }

/-- `EPoll::Wakeup`: `eventfd_write(pending_fd_, 1)` -/
def wakeup (p : EPoll) : EPoll := { p with counter := p.counter + 1 }.queueItem .pendingFd

/-- One `eventfd_read(pending_fd_, ..)`; `none` for `EAGAIN`. -/
def eventfdRead (p : EPoll) : Option EPoll :=
  if p.counter = 0 then none else some { p with counter := 0 }

/-- What polling an item reports. -/
def pollItem (counter : Nat) (poll : Fd → EventId → Option EPollEvents) : Item → Option EPollEvents
  | .pendingFd => if counter = 0 then none else some EPollEvents.EPOLLIN
  | .descriptor fd e => poll fd e

/-- Poll the queued items in order, for at most `room` notifications: the notifications,
and the items left in the queue. -/
def harvest (report : Item → Option EPollEvents) : Nat → List Item → List Notification × List Item
  | 0, items => ([], items)
  | _ + 1, [] => ([], [])
  | room + 1, i :: items =>
    match report i with
    | none => harvest report (room + 1) items
    | some events =>
      let (notifications, left) := harvest report room items
      (⟨i, events⟩ :: notifications, left)

/-- `epoll_wait`, once through the queue. It returns if there is a notification. -/
def epollWait (p : EPoll) (poll : Fd → EventId → Option EPollEvents) : List Notification × EPoll :=
  let (notifications, left) := harvest (pollItem p.counter poll) maxEvents p.readyItems
  (notifications, { p with readyItems := left })

/-- `EPOLL_CTL_ADD` -/
def ctlAdd (p : EPoll) (fd : Fd) (e : EventId) : Option Errno → Option EPoll
  | some _ => some p
  | none =>
    if p.interest fd = none then some { p with interest := Function.update p.interest fd (some e) }
    else none

/-- `EPOLL_CTL_MOD` -/
def ctlMod (p : EPoll) (fd : Fd) : Option Errno → Option EPoll
  | some _ => some p
  | none => if p.interest fd = none then none else some p

/-- The kernel drops a registration with its item. -/
def unregister (p : EPoll) (fd : Fd) : EPoll :=
  { p with
    interest := Function.update p.interest fd none
    readyItems := p.readyItems.filter fun i =>
      match i with
      | .pendingFd => true
      | .descriptor fd' _ => fd' != fd }

/-- `EPOLL_CTL_DEL` -/
def ctlDel (p : EPoll) (fd : Fd) : Option Errno → Option EPoll
  | some _ => some p
  | none => if p.interest fd = none then none else some (p.unregister fd)

/-! ### The pending queues -/

/-- `EPoll::AddElement` inside the lock: whether `Wakeup` is to be called, and the lock
kept until then. -/
def addElement (p : EPoll) (a : Agent) (element : Element) : Bool × EPoll :=
  let elements := p.eventsPending element.queue ++ [element]
  let first := elements.length == 1
  (first, { p with
    eventsPending := Function.update p.eventsPending element.queue elements
    lock := if first then some a else none })

/-- The swap of `EPoll::HandleElements`. -/
def swapElements (p : EPoll) (q : Queue) : List Element × EPoll :=
  (p.eventsPending q, { p with eventsPending := Function.update p.eventsPending q [] })

/-! ### What the operations leave alone -/

@[simp] theorem queueItem_eventsPending (p : EPoll) (i : Item) :
    (p.queueItem i).eventsPending = p.eventsPending := by unfold queueItem; split <;> rfl

@[simp] theorem queueItem_counter (p : EPoll) (i : Item) :
    (p.queueItem i).counter = p.counter := by unfold queueItem; split <;> rfl

@[simp] theorem queueItem_events (p : EPoll) (i : Item) :
    (p.queueItem i).events = p.events := by unfold queueItem; split <;> rfl

@[simp] theorem queueItem_lock (p : EPoll) (i : Item) :
    (p.queueItem i).lock = p.lock := by unfold queueItem; split <;> rfl

theorem mem_queueItem {p : EPoll} {i j : Item} :
    j ∈ (p.queueItem i).readyItems ↔ j ∈ p.readyItems ∨ j = i := by
  unfold queueItem
  split
  · rename_i h
    constructor
    · exact Or.inl
    · rintro (hj | rfl)
      · exact hj
      · exact h
  · simp

@[simp] theorem wakeup_eventsPending (p : EPoll) : p.wakeup.eventsPending = p.eventsPending := by
  simp [wakeup]

@[simp] theorem wakeup_counter (p : EPoll) : p.wakeup.counter = p.counter + 1 := by
  simp [wakeup]

@[simp] theorem wakeup_events (p : EPoll) : p.wakeup.events = p.events := by simp [wakeup]

@[simp] theorem wakeup_lock (p : EPoll) : p.wakeup.lock = p.lock := by simp [wakeup]

theorem pendingFd_mem_wakeup (p : EPoll) : Item.pendingFd ∈ p.wakeup.readyItems :=
  mem_queueItem.mpr (.inr rfl)

@[simp] theorem pendingFd_mem_unregister (p : EPoll) (fd : Fd) :
    Item.pendingFd ∈ (p.unregister fd).readyItems ↔ Item.pendingFd ∈ p.readyItems := by
  simp [unregister]

/-- The kernel's bookkeeping of registrations changes neither the queues nor what is known
of the eventfd. -/
structure SameQueues (p p' : EPoll) : Prop where
  eventsPending : p'.eventsPending = p.eventsPending
  lock : p'.lock = p.lock
  counter : p'.counter = p.counter
  pendingFd : Item.pendingFd ∈ p'.readyItems ↔ Item.pendingFd ∈ p.readyItems

theorem SameQueues.refl (p : EPoll) : SameQueues p p := ⟨rfl, rfl, rfl, .rfl⟩

theorem unregister_sameQueues (p : EPoll) (fd : Fd) : SameQueues p (p.unregister fd) :=
  ⟨rfl, rfl, rfl, pendingFd_mem_unregister p fd⟩

theorem queueItem_sameQueues (p : EPoll) (fd : Fd) (e : EventId) :
    SameQueues p (p.queueItem (.descriptor fd e)) :=
  ⟨queueItem_eventsPending .., queueItem_lock .., queueItem_counter .., by simp [mem_queueItem]⟩

theorem ctlAdd_spec {p p' : EPoll} {fd : Fd} {e : EventId} {ret : Option Errno}
    (h : p.ctlAdd fd e ret = some p') : SameQueues p p' ∧ p'.events = p.events := by
  cases ret with
  | some errno =>
      obtain rfl : p = p' := by simpa [ctlAdd] using h
      exact ⟨.refl p, rfl⟩
  | none =>
      simp only [ctlAdd] at h
      split at h
      · obtain rfl := Option.some.inj h
        exact ⟨⟨rfl, rfl, rfl, .rfl⟩, rfl⟩
      · exact absurd h (by simp)

theorem ctlMod_eq {p p' : EPoll} {fd : Fd} {ret : Option Errno}
    (h : p.ctlMod fd ret = some p') : p' = p := by
  cases ret with
  | some errno => simpa [ctlMod] using h.symm
  | none =>
      simp only [ctlMod] at h
      split at h
      · exact absurd h (by simp)
      · exact (Option.some.inj h).symm

theorem ctlDel_spec {p p' : EPoll} {fd : Fd} {ret : Option Errno}
    (h : p.ctlDel fd ret = some p') : SameQueues p p' ∧ p'.events = p.events := by
  cases ret with
  | some errno =>
      obtain rfl : p = p' := by simpa [ctlDel] using h
      exact ⟨.refl p, rfl⟩
  | none =>
      simp only [ctlDel] at h
      split at h
      · exact absurd h (by simp)
      · obtain rfl := Option.some.inj h
        exact ⟨unregister_sameQueues p fd, rfl⟩

/-! ### `epoll_wait` -/

/-- An item that has something to report is handed out or stays queued. -/
theorem mem_harvest {report : Item → Option EPollEvents} {i : Item} {events : EPollEvents}
    (hi : report i = some events) : ∀ {room : Nat} {items : List Item}, i ∈ items →
    ⟨i, events⟩ ∈ (harvest report room items).1 ∨ i ∈ (harvest report room items).2
  | 0, items, h => by
      have hleft : (harvest report 0 items).2 = items := by simp [harvest]
      rw [hleft]
      exact .inr h
  | _ + 1, [], h => absurd h List.not_mem_nil
  | room + 1, j :: items, h => by
      cases hj : report j with
      | none =>
          have hne : i ≠ j := fun heq => by rw [heq, hj] at hi; exact absurd hi (by simp)
          simp only [harvest, hj]
          exact mem_harvest hi ((List.mem_cons.mp h).resolve_left hne)
      | some events' =>
          simp only [harvest, hj]
          rcases List.mem_cons.mp h with rfl | h
          · obtain rfl : events' = events := Option.some.inj (hj.symm.trans hi)
            exact .inl List.mem_cons_self
          · exact (mem_harvest hi h).imp (List.mem_cons_of_mem _) id

/-- With an item to report in its queue, `epoll_wait` returns. -/
theorem harvest_ne_nil {report : Item → Option EPollEvents} {i : Item} {events : EPollEvents}
    (hi : report i = some events) : ∀ {room : Nat} {items : List Item}, i ∈ items →
    (harvest report (room + 1) items).1 ≠ []
  | _, [], h => absurd h List.not_mem_nil
  | room, j :: items, h => by
      cases hj : report j with
      | none =>
          have hne : i ≠ j := fun heq => by rw [heq, hj] at hi; exact absurd hi (by simp)
          simp only [harvest, hj]
          exact harvest_ne_nil hi ((List.mem_cons.mp h).resolve_left hne)
      | some events' => simp [harvest, hj]

end EPoll

end Libael
