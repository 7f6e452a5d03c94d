import Libael.EventLoop.References
import Libael.EventLoop.Registration

/-!
# Libael.EventLoop.Ownership

**Who owns a descriptor, and who closes it.** A handler constructed with a descriptor owns it
until it is attached; from then on its `Event` does. The destructor of the one or of the other
closes it. Loops end as well: `~EventLoop` lets go of its tables and queues at once, and from
then on the handlers that were attached to it find their weak pointer expired.

A process has any number of loops here. The kernel hands out a number again once it has been
closed, to any of them, so a descriptor that is closed twice would be somebody else's.

* In one loop, a transition leaves the descriptor of an event where it is, or closes it and
  leaves nobody to close it again (`Fate`). This is shown for a live loop and for one behind its
  destructor; `Turn` joins the two with the destructor itself.
* A handler that has not been constructed is `Untouched` in every loop, so constructing it for
  one of them disturbs none.
* `Sound` of the process counts: a descriptor that was handed to a handler is open and held, or
  has been closed once. `Happens` splits its step into the construction of a handler and a turn
  of one loop, which `sound_act` treats with the fate of each event.
-/

namespace Libael

open Lts

/-! ### Loops that end -/

namespace EventLoop

/-- `EventLoop::~EventLoop`: the members let go of what they refer to, and the epoll instance
is closed. -/
def destruct (s : EventLoop) : EventLoop :=
  { s with epoll := .new, events := [], internalEventHandlers := [], eventsToClose := [] }

/-- What is left of the public interface after that: `event_loop_` cannot be locked. -/
def requestExpired (cfg : Config) (s : EventLoop) : Request → Option (EventLoop × List LoopObs)
  | .closeEvent e | .readyEvent e _ | .modifyEvent e _ _ _ =>
    if (s.handlers e).alive then some (s, []) else none
  | .cancel e =>
    match cfg.handler e with
    | .timerHandler _ _ =>
      if (s.handlers e).alive then some (s.setHandler e { s.handlers e with canceled := true }, [])
      else none
    | _ => none
  | .destroyHandler e =>
    if (s.handlers e).alive then
      some (s.setHandler e { s.handlers e with alive := false },
        if !(s.handlers e).attached && cfg.valid e then [.closeHandle e] else [])
    else none
  | _ => none

/-- The transitions after `~EventLoop`. -/
def stepExpired (cfg : Config) (s : EventLoop) : LoopLabel → Option (EventLoop × List LoopObs)
  | .call _ r => s.requestExpired cfg r
  | .expire e => s.step cfg (.expire e)
  | .destroyEvent e => s.step cfg (.destroyEvent e)
  | _ => none

end EventLoop

/-- An `EventLoop`, and whether it has been destroyed. -/
structure Lifetime where
  loop : EventLoop := .init
  destroyed : Bool := false

namespace Lifetime

/-- The thread of the loop has been joined, and no call holds a reference to the loop. -/
def mayEnd (s : Lifetime) : Bool :=
  !s.destroyed && s.loop.crashed.isNone && s.loop.stack.isEmpty && s.loop.calls.entries.isEmpty

/-- A transition of a loop, or `none` for `~EventLoop`. -/
def step (cfg : Config) (s : Lifetime) : Option LoopLabel → Option (Lifetime × List LoopObs)
  | none => if s.mayEnd then some ({ loop := s.loop.destruct, destroyed := true }, []) else none
  | some l =>
    (if s.destroyed then s.loop.stepExpired cfg l else s.loop.step cfg l).map fun r =>
      ({ s with loop := r.1 }, r.2)

end Lifetime

/-! ### A process -/

/-- The handler that a transition takes from outside of the loop. -/
def LoopLabel.handler : LoopLabel → Option EventId
  | .call _ r => r.handler
  | .expire e => some e
  | _ => none

/-- `Handle::Close` has been called for the descriptor of `e`. -/
def LoopObs.closes (e : EventId) : LoopObs → Bool
  | .closeHandle e' => e' == e
  | _ => false

/-- The loops of a process, its handlers, and the descriptors that are open for them. -/
structure Owners (ι : Type) where
  loops : ι → Lifetime := fun _ => {}
  /-- the handlers that have been constructed -/
  constructed : List EventId := []
  /-- the handler that an open descriptor has been handed to -/
  owner : Fd → Option EventId := fun _ => none

/-- A handler is constructed, or something happens in a loop. -/
inductive OwnersLabel (ι : Type)
  | construct (e : EventId)
  | act (c : ι) (l : Option LoopLabel)

namespace Owners

variable {ι : Type} [DecidableEq ι]

/-- The kernel closes what destructors ask it to close, whoever owns it now. -/
def closeHandles (cfg : Config) (owner : Fd → Option EventId) : List LoopObs → Fd → Option EventId
  | [] => owner
  | .closeHandle e :: o => closeHandles cfg (Function.update owner (cfg.handle e) none) o
  | _ :: o => closeHandles cfg owner o

/-- The handlers that `l` takes from outside have been constructed, for the loop `c`. -/
def permits (home : EventId → ι) (s : Owners ι) (c : ι) (l : Option LoopLabel) : Bool :=
  match l.bind LoopLabel.handler with
  | some e => s.constructed.contains e && home e == c
  | none => true

/-- One transition of a process, in which a handler `e` is only ever attached to `home e`. -/
def step (cfg : Config) (home : EventId → ι) :
    OwnersLabel ι → Owners ι → Option (Owners ι × List (ι × LoopObs))
  | .construct e, s =>
    if s.constructed.contains e then none
    else if cfg.valid e then
      -- the kernel hands out a descriptor that is not open
      if (s.owner (cfg.handle e)).isNone then
        some ({ s with
          constructed := e :: s.constructed
          owner := Function.update s.owner (cfg.handle e) (some e) }, [])
      else none
    else some ({ s with constructed := e :: s.constructed }, [])
  | .act c l, s =>
    if s.permits home c l then
      ((s.loops c).step cfg l).map fun r =>
        ({ s with
          loops := Function.update s.loops c r.1
          owner := closeHandles cfg s.owner r.2 }, r.2.map fun x => (c, x))
    else none

/-- How often the descriptor of `e` has been closed. -/
def closings (e : EventId) (tr : List (ι × LoopObs)) : Nat := tr.countP fun x => x.2.closes e

/-- What the loop `c` has shown. -/
def ofLoop (c : ι) (tr : List (ι × LoopObs)) : List LoopObs :=
  tr.filterMap fun x => if x.1 = c then some x.2 else none

end Owners

/-- A process with its loops as a transition system. -/
def ownersSystem {ι : Type} [DecidableEq ι] (cfg : Config) (home : EventId → ι) :
    System (Owners ι) (OwnersLabel ι) (ι × LoopObs) := ⟨Owners.step cfg home⟩

/-! ### What a step does to the owner of a descriptor -/

namespace EventLoop

variable {cfg : Config} {l : LoopLabel} {s s' : EventLoop} {o : List LoopObs} {e : EventId}

/-- The descriptor of a handler is owned by the handler, or by its event. -/
def Holds (s : EventLoop) (e : EventId) : Prop :=
  if (s.handlers e).attached then e ∈ s.objects else (s.handlers e).alive = true

instance (s : EventLoop) (e : EventId) : Decidable (s.Holds e) := by
  unfold Holds
  infer_instance

/-- The descriptor stays where it is, or is closed. -/
inductive Fate (cfg : Config) (s s' : EventLoop) (o : List LoopObs) (e : EventId) : Prop
  | kept : (s'.Holds e ↔ s.Holds e) → .closeHandle e ∉ o → Fate cfg s s' o e
  | closed : s.Holds e → ¬s'.Holds e → (o = if cfg.valid e then [.closeHandle e] else []) →
      Fate cfg s s' o e

theorem holds_congr (halive : (s'.handlers e).alive = (s.handlers e).alive)
    (hattached : (s'.handlers e).attached = (s.handlers e).attached)
    (hobjects : e ∈ s'.objects ↔ e ∈ s.objects) : s'.Holds e ↔ s.Holds e := by
  unfold Holds
  rw [halive, hattached, hobjects]

@[simp] theorem push_objects (s : EventLoop) (a : Agent) (element : Element) :
    (s.push a element).objects = s.objects := by
  rcases push_spec s a element with ⟨-, heq⟩ | ⟨-, heq⟩ <;> rw [heq]
  · rfl
  · exact complete_objects ..

/-- A step that closes no descriptor and leaves the objects alone keeps every descriptor where
it is: a handler that is destroyed leaves its descriptor to its event. -/
theorem fate_of_same (howned : Owned cfg s) (hmove : Move cfg s l s' o)
    (hattached : (s'.handlers e).attached = (s.handlers e).attached)
    (hobjects : s'.objects = s.objects) (hno : .closeHandle e ∉ o)
    (hlabel : ∀ a, l ≠ .call a (.destroyHandler e)) : Fate cfg s s' o e := by
  cases halive : (s.handlers e).alive with
  | false =>
      have hdead : (s'.handlers e).alive = false :=
        eq_false_of_ne_true fun h => by simp [alive_of_move hmove h] at halive
      exact .kept (holds_congr (hdead.trans halive.symm) hattached (by rw [hobjects])) hno
  | true =>
      rcases alive_or_dies hmove halive with halive' | hdies
      · exact .kept (holds_congr (halive'.trans halive.symm) hattached (by rw [hobjects])) hno
      · cases hdies with
        | dropped _ _ => exact absurd rfl (hlabel _)
        | @released rest hstack _ _ =>
            -- the caller of `HandleEvents` was the last one to let the handler go
            have hobj : e ∈ s.objects :=
              howned.frames _ (by rw [hstack]; exact List.mem_cons_self) e
                (by simp [LoopFrame.mentions])
            have hatt : (s.handlers e).attached = true := howned.attached e hobj
            refine .kept ?_ hno
            unfold Holds
            rw [hattached, hatt, hobjects]
            simp

/-- Only destructors close descriptors. -/
theorem not_closed_of_step (h : step cfg l s = some (s', o))
    (hhandler : ∀ a, l ≠ .call a (.destroyHandler e)) (hevent : l ≠ .destroyEvent e) :
    .closeHandle e ∉ o := by
  intro hmem
  cases shown_of_step h hmem rfl with
  | handler _ _ _ => exact hhandler _ rfl
  | event _ _ _ => exact hevent rfl

/-- What `~EventHandler` does to the descriptor. -/
theorem fate_of_destroyHandler {h : EventHandler}
    (halive : (s.handlers e).alive = true) (hh : s'.handlers e = h) (hdead : h.alive = false)
    (hattached : h.attached = (s.handlers e).attached) (hobjects : s'.objects = s.objects)
    (ho : o = if !(s.handlers e).attached && cfg.valid e then [.closeHandle e] else []) :
    Fate cfg s s' o e := by
  cases hatt : (s.handlers e).attached with
  | true =>
      rw [hatt] at ho hattached
      refine .kept ?_ (by rw [ho]; simp)
      unfold Holds
      rw [hh, hattached, hatt, hobjects]
      simp
  | false =>
      rw [hatt] at ho hattached
      refine .closed ?_ ?_ (by rw [ho]; simp)
      · unfold Holds
        simp [hatt, halive]
      · unfold Holds
        simp [hh, hattached, hdead]

/-- Every transition of a loop leaves a descriptor alone or closes it for good. -/
theorem fate_of_step (howned : Owned cfg s) (href : Referenced s)
    (h : step cfg l s = some (s', o)) (hc : s'.crashed = none) (e : EventId) :
    Fate cfg s s' o e := by
  have hmove : Move cfg s l s' o := move_of_step h hc
  by_cases hdrop : ∃ a, l = .call a (.destroyHandler e)
  · obtain ⟨a, rfl⟩ := hdrop
    cases hmove with
    | call _ hreq _ _ =>
        cases requested hreq with
        | destroyed halive _ _ =>
            refine fate_of_destroyHandler halive rfl ?_ ?_ ?_ rfl
            · rw [destroyHandler, handlers_closeEvent, handlers_setHandler, if_pos rfl]
            · rw [destroyHandler, handlers_closeEvent, handlers_setHandler, if_pos rfl]
            · exact (Quiet.destroyHandler s a e).objects
  · have hlabel : ∀ a, l ≠ .call a (.destroyHandler e) := fun a heq => hdrop ⟨a, heq⟩
    by_cases hevent : l = .destroyEvent e
    · subst hevent
      cases hmove with
      | destroyed hobj hun hepoll =>
          have hatt : (s.handlers e).attached = true := howned.attached e hobj
          refine .closed ?_ ?_ ?_
          · unfold Holds
            rw [hatt]
            simpa using hobj
          · unfold Holds
            dsimp only
            rw [hatt]
            simpa using howned.nodup.not_mem_erase
          · rcases hepoll with ⟨hvalid, -, ho⟩ | ⟨hvalid, -, ho⟩ <;> rw [ho, hvalid] <;> rfl
    · have hno : .closeHandle e ∉ o := not_closed_of_step h hlabel hevent
      cases hmove with
      | call hmay hreq hquiet hminor =>
          exact fate_of_same howned (.call hmay hreq hquiet hminor) (hquiet.attached e)
            hquiet.objects hno hlabel
      | light h₁ h₂ h₃ h₄ hquiet h₅ h₆ h₇ =>
          exact fate_of_same howned (.light h₁ h₂ h₃ h₄ hquiet h₅ h₆ h₇) (hquiet.attached e)
            hquiet.objects hno hlabel
      | @created a e' hp hatt hfresh =>
          by_cases he : e = e'
          · -- the handler hands its descriptor over to its new event
            subst he
            refine .kept ?_ hno
            have halive := href.calls a _ hp e (by simp [Progress.usesHandler])
            unfold Holds
            simp [hatt, halive, setCall, setHandler]
          · refine .kept (holds_congr ?_ ?_ ?_) hno
            · simp [setCall, he]
            · simp [setCall, he]
            · simp [setCall, setHandler, he]
      | @destroyed e' epoll _ hobj hun hepoll =>
          have he : e ≠ e' := fun heq => hevent (by rw [heq])
          refine .kept (holds_congr rfl rfl ?_) hno
          exact List.mem_erase_of_ne he
      | pushed hp hlock =>
          exact fate_of_same howned (.pushed hp hlock) (attached_push ..)
            (push_objects ..) hno hlabel
      | signalled hp =>
          exact fate_of_same howned (.signalled hp) (attached_complete ..) (complete_objects ..) hno
            hlabel
      | @closeBegins a e' hp hflag =>
          refine fate_of_same howned (.closeBegins hp hflag) ?_ rfl hno hlabel
          simp only [setCall, handlers_setHandler]
          split <;> simp_all
      | @expire e' =>
          refine fate_of_same howned .expire ?_ rfl hno hlabel
          rw [handlers_setHandler]
          split <;> simp_all
      | @finalized i element elements rest n hstack hidle hrun hthrew =>
          have hloop := (finalizeElement_spec hrun).2.1
          refine fate_of_same howned (.finalized hstack hidle hrun hthrew) ?_ ?_ hno hlabel
          · dsimp only
            rw [hloop]
          · dsimp only
            rw [hloop]
      | attachRefused h₁ h₂ => exact fate_of_same howned (.attachRefused h₁ h₂) rfl rfl hno hlabel
      | woken h₁ => exact fate_of_same howned (.woken h₁) rfl rfl hno hlabel
      | closeReturns h₁ h₂ => exact fate_of_same howned (.closeReturns h₁ h₂) rfl rfl hno hlabel
      | erased h₁ h₂ => exact fate_of_same howned (.erased h₁ h₂) rfl rfl hno hlabel
      | _ => exact .kept (holds_congr rfl rfl .rfl) hno

/-- Once the descriptor of a handler has been closed, the handler does not exist any more. -/
theorem dead_of_closed {ok : LoopLabel → EventLoop → Prop} {tr : List LoopObs}
    (h : GuardedRun (loopSystem cfg) ok init tr s) (hc : s.crashed = none)
    (hclosed : .closeHandle e ∈ tr) : (s.handlers e).alive = false := by
  have hgone : ¬s.Holds e := by
    refine h.invariant (I := fun tr s => s.crashed = none → .closeHandle e ∈ tr → ¬s.Holds e) ?_ ?_
      hc hclosed
    · exact fun _ hno => absurd hno List.not_mem_nil
    · intro tr s l s' o hrun ih _ hs hc' hmem
      have hc := not_crashed_of_step hs
      have hfate := fate_of_step (owned_of_run hrun hc) (referenced_of_run hrun hc) hs hc' e
      cases hfate with
      | kept hsame hno =>
          rw [hsame]
          exact ih hc ((List.mem_append.mp hmem).resolve_right hno)
      | closed _ hno _ => exact hno
  unfold Holds at hgone
  split at hgone
  · -- an attached handler that is alive has its event
    rename_i hatt
    by_contra halive
    exact hgone ((owned_of_run h hc).handlers e (by simpa using halive) hatt)
  · simpa using hgone

/-! ### A handler that has not been constructed -/

/-- Nothing has happened to the handler of `e` in this loop. -/
structure Untouched (s : EventLoop) (e : EventId) : Prop where
  attached : (s.handlers e).attached = false
  alive : (s.handlers e).alive = true
  notMem : e ∉ s.objects
  idle : ∀ a p, s.calls.lookup a = some p → p.usesHandler e = false

theorem untouched_init (e : EventId) : Untouched init e where
  attached := rfl
  alive := rfl
  notMem := List.not_mem_nil
  idle a p h := absurd h (by simp [init])

/-- An `Event` is made for a handler that is being attached. -/
theorem objects_of_move (hmove : Move cfg s l s' o) (h : e ∈ s'.objects) :
    e ∈ s.objects ∨ ∃ a, s.calls.lookup a = some (.attaching e) := by
  cases hmove with
  | call _ _ hquiet _ | light _ _ _ _ hquiet _ _ _ => exact .inl (hquiet.objects ▸ h)
  | @created a e' hp _ _ =>
      rcases List.mem_cons.mp h with rfl | h
      · exact .inr ⟨a, hp⟩
      · exact .inl h
  | pushed _ _ => exact .inl (by rw [push_objects] at h; exact h)
  | signalled _ => exact .inl (by rw [complete_objects] at h; exact h)
  | finalized _ _ hrun _ =>
      dsimp only at h
      rw [(finalizeElement_spec hrun).2.1] at h
      exact .inl h
  | destroyed _ _ _ => exact .inl (List.mem_of_mem_erase h)
  | _ => exact .inl h

/-- A handler that nobody constructs stays untouched. -/
theorem untouched_of_move (h : Untouched s e) (howned : Owned cfg s) (hmove : Move cfg s l s' o)
    (hl : l.handler ≠ some e) : Untouched s' e := by
  have hattaching : ∀ a, s.calls.lookup a ≠ some (.attaching e) := fun a ha => by
    simpa [Progress.usesHandler] using h.idle a _ ha
  refine ⟨?_, ?_, ?_, fun a p hp => ?_⟩
  · refine eq_false_of_ne_true fun hatt => ?_
    rcases attached_of_move hmove hatt with hatt | ⟨a, ha, -⟩
    · exact absurd hatt (by simp [h.attached])
    · exact hattaching a ha
  · rcases alive_or_dies hmove h.alive with halive | hdies
    · exact halive
    · cases hdies with
      | dropped _ _ => exact absurd rfl hl
      | released hstack _ _ =>
          exact absurd (howned.frames _ (by rw [hstack]; exact List.mem_cons_self) e
            (by simp [LoopFrame.mentions])) h.notMem
  · intro hobj
    rcases objects_of_move hmove hobj with hobj | ⟨a, ha⟩
    · exact h.notMem hobj
    · exact hattaching a ha
  · refine eq_false_of_ne_true fun huse => ?_
    rcases uses_of_move hmove hp huse with ⟨p₀, hp₀, huse₀⟩ | ⟨r, rfl, hr, -⟩
    · exact absurd huse₀ (by simp [h.idle a p₀ hp₀])
    · exact hl hr

/-! ### After `~EventLoop` -/

/-- Nothing is left in the members of a loop. -/
structure Emptied (s : EventLoop) : Prop where
  events : s.events = []
  eventsToClose : s.eventsToClose = []
  table : ∀ fd, s.epoll.events fd = none
  pending : ∀ q, s.epoll.eventsPending q = []
  stack : s.stack = []
  calls : ∀ a, s.calls.lookup a = none

theorem Emptied.referenced (h : Emptied s) : Referenced s where
  frames e hmem := absurd hmem (by simp [h.stack])
  calls a p hp := absurd hp (by simp [h.calls])

theorem owned_destruct (h : Owned cfg s) : Owned cfg s.destruct :=
  { h with
    events := fun e he => absurd he List.not_mem_nil
    eventsToClose := fun e he => absurd he List.not_mem_nil
    table := fun fd e he => absurd he (by simp [destruct, EPoll.new])
    pending := fun q element hel => absurd hel (by simp [destruct, EPoll.new])
    interest := fun fd e he => absurd he (by simp [destruct, EPoll.new])
    readyItems := fun fd e he => absurd he (by simp [destruct, EPoll.new]) }

/-- What a transition after `~EventLoop` can do: nothing, to a handler, or what it would have
done before. -/
inductive ExpiredMove (cfg : Config) (s : EventLoop) :
    LoopLabel → EventLoop → List LoopObs → Prop
  | ignored {a : Agent} {r : Request} : ExpiredMove cfg s (.call a r) s []
  | canceled {a : Agent} {e : EventId} : ExpiredMove cfg s (.call a (.cancel e))
      (s.setHandler e { s.handlers e with canceled := true }) []
  | dropped {a : Agent} {e : EventId} : (s.handlers e).alive = true →
      ExpiredMove cfg s (.call a (.destroyHandler e))
      (s.setHandler e { s.handlers e with alive := false })
      (if !(s.handlers e).attached && cfg.valid e then [.closeHandle e] else [])
  | expired {e : EventId} {s' : EventLoop} {o : List LoopObs} :
      s.step cfg (.expire e) = some (s', o) → ExpiredMove cfg s (.expire e) s' o
  | destroyed {e : EventId} {s' : EventLoop} {o : List LoopObs} :
      s.step cfg (.destroyEvent e) = some (s', o) → ExpiredMove cfg s (.destroyEvent e) s' o

/-- Every transition behind the destructor is one of `ExpiredMove`. -/
theorem expiredMove (h : s.stepExpired cfg l = some (s', o)) : ExpiredMove cfg s l s' o := by
  cases l with
  | call a r =>
      cases r with
      | closeEvent e | readyEvent e _ | modifyEvent e _ _ _ =>
          simp only [stepExpired, requestExpired] at h
          split at h
          · obtain ⟨rfl, rfl⟩ := Prod.mk.inj (Option.some.inj h)
            exact .ignored
          · exact absurd h (by simp)
      | cancel e =>
          simp only [stepExpired, requestExpired] at h
          split at h
          · split at h
            · obtain ⟨rfl, rfl⟩ := Prod.mk.inj (Option.some.inj h)
              exact .canceled
            · exact absurd h (by simp)
          · exact absurd h (by simp)
      | destroyHandler e =>
          simp only [stepExpired, requestExpired] at h
          split at h
          · rename_i halive
            obtain ⟨rfl, rfl⟩ := Prod.mk.inj (Option.some.inj h)
            exact .dropped halive
          · exact absurd h (by simp)
      | _ => exact absurd h (by simp [stepExpired, requestExpired])
  | expire e => exact .expired h
  | destroyEvent e => exact .destroyed h
  | _ => exact absurd h (by simp [stepExpired])

theorem Emptied.setHandler (h : Emptied s) (e : EventId) (handler : EventHandler) :
    Emptied (s.setHandler e handler) :=
  ⟨h.events, h.eventsToClose, h.table, h.pending, h.stack, h.calls⟩

/-- Nothing gets into the members of a loop any more. -/
theorem emptied_of_expired (h : Emptied s) (hmove : ExpiredMove cfg s l s' o)
    (hc : s'.crashed = none) : Emptied s' := by
  cases hmove with
  | ignored => exact h
  | canceled => exact h.setHandler _ _
  | dropped _ => exact h.setHandler _ _
  | expired hstep =>
      cases move_of_step hstep hc with
      | expire => exact h.setHandler _ _
  | destroyed hstep =>
      cases move_of_step hstep hc with
      | destroyed _ _ hepoll =>
          rcases hepoll with ⟨-, rfl, -⟩ | ⟨-, rfl, -⟩
          · exact ⟨h.events, h.eventsToClose, h.table, h.pending, h.stack, h.calls⟩
          · exact ⟨h.events, h.eventsToClose, h.table, h.pending, h.stack, h.calls⟩

theorem owned_of_expired (h : Owned cfg s) (hmove : ExpiredMove cfg s l s' o)
    (hc : s'.crashed = none) : Owned cfg s' := by
  cases hmove with
  | ignored => exact h
  | canceled => exact h.setHandler rfl id
  | dropped _ => exact h.setHandler rfl (by simp)
  | expired hstep | destroyed hstep => exact owned_step h (move_of_step hstep hc)

/-- Behind the destructor a descriptor is left alone or closed for good, too. -/
theorem fate_of_expired (howned : Owned cfg s) (href : Referenced s)
    (hmove : ExpiredMove cfg s l s' o) (hc : s'.crashed = none) (e : EventId) :
    Fate cfg s s' o e := by
  cases hmove with
  | ignored => exact .kept .rfl List.not_mem_nil
  | @canceled a e' =>
      refine .kept (holds_congr ?_ ?_ .rfl) List.not_mem_nil
      · rw [handlers_setHandler]
        split <;> simp_all
      · rw [handlers_setHandler]
        split <;> simp_all
  | @dropped a e' halive =>
      by_cases he : e = e'
      · subst he
        refine fate_of_destroyHandler halive
          (h := { s.handlers e with alive := false }) ?_ rfl rfl rfl rfl
        simp
      · refine .kept (holds_congr ?_ ?_ .rfl) ?_
        · simp [he]
        · simp [he]
        · intro hmem
          split at hmem
          · exact he (by simpa using hmem)
          · exact absurd hmem List.not_mem_nil
  | expired hstep | destroyed hstep => exact fate_of_step howned href hstep hc e

/-- And a handler that nobody constructs stays untouched. -/
theorem untouched_of_expired (h : Untouched s e) (howned : Owned cfg s)
    (hmove : ExpiredMove cfg s l s' o) (hc : s'.crashed = none) (hl : l.handler ≠ some e) :
    Untouched s' e := by
  have hset : ∀ (e' : EventId) (handler : EventHandler), e ≠ e' →
      Untouched (s.setHandler e' handler) e := fun e' handler he =>
    ⟨by simp [he, h.attached], by simp [he, h.alive], h.notMem, h.idle⟩
  cases hmove with
  | ignored => exact h
  | canceled => exact hset _ _ fun he => hl (by rw [he]; rfl)
  | dropped _ => exact hset _ _ fun he => hl (by rw [he]; rfl)
  | expired hstep | destroyed hstep => exact untouched_of_move h howned (move_of_step hstep hc) hl

end EventLoop

/-! ### One loop -/

namespace Lifetime

variable {cfg : Config} {s s' : Lifetime} {l : Option LoopLabel} {tr o : List LoopObs} {e : EventId}

/-- A loop is in a state that it can reach, or it is over. -/
structure Sound (cfg : Config) (tr : List LoopObs) (s : Lifetime) : Prop where
  live : s.destroyed = false → Run (loopSystem cfg) .init tr s.loop
  gone : s.destroyed = true → EventLoop.Owned cfg s.loop ∧ s.loop.Emptied

theorem sound_init (cfg : Config) : Sound cfg [] {} where
  live _ := .refl
  gone h := absurd h (by simp)

theorem Sound.owned (h : Sound cfg tr s) (hc : s.loop.crashed = none) :
    EventLoop.Owned cfg s.loop := by
  cases hd : s.destroyed with
  | false => exact EventLoop.owned_of_run (h.live hd) hc
  | true => exact (h.gone hd).1

theorem Sound.referenced (h : Sound cfg tr s) (hc : s.loop.crashed = none) :
    s.loop.Referenced := by
  cases hd : s.destroyed with
  | false => exact EventLoop.referenced_of_run (h.live hd) hc
  | true => exact (h.gone hd).2.referenced

/-- What a transition of a loop can be. -/
inductive Turn (cfg : Config) (s : Lifetime) :
    Option LoopLabel → Lifetime → List LoopObs → Prop
  | ends : s.destroyed = false → s.loop.crashed = none → s.loop.stack = [] →
      (∀ a, s.loop.calls.lookup a = none) →
      Turn cfg s none { loop := s.loop.destruct, destroyed := true } []
  | live {l : LoopLabel} {loop' : EventLoop} {o : List LoopObs} : s.destroyed = false →
      s.loop.step cfg l = some (loop', o) →
      Turn cfg s (some l) { s with loop := loop' } o
  | gone {l : LoopLabel} {loop' : EventLoop} {o : List LoopObs} : s.destroyed = true →
      EventLoop.ExpiredMove cfg s.loop l loop' o →
      Turn cfg s (some l) { s with loop := loop' } o

/-- Every transition of a lifetime is a `Turn`. -/
theorem turn_of_step (h : s.step cfg l = some (s', o)) : Turn cfg s l s' o := by
  cases l with
  | none =>
      simp only [step] at h
      split at h
      · rename_i hend
        obtain ⟨rfl, rfl⟩ := Prod.mk.inj (Option.some.inj h)
        unfold mayEnd at hend
        rw [Bool.and_eq_true, Bool.and_eq_true, Bool.and_eq_true] at hend
        obtain ⟨⟨⟨hlive, hc⟩, hstack⟩, hcalls⟩ := hend
        refine .ends (by simpa using hlive) (by simpa using hc) (by simpa using hstack) fun a => ?_
        cases hp : s.loop.calls.lookup a with
        | none => rfl
        | some p =>
            have hmem := AList.mem_lookup_iff.mp hp
            rw [List.isEmpty_iff.mp hcalls] at hmem
            exact absurd hmem List.not_mem_nil
      · exact absurd h (by simp)
  | some l =>
      simp only [step] at h
      obtain ⟨⟨loop', o'⟩, hs, heq⟩ := Option.map_eq_some_iff.mp h
      obtain ⟨rfl, rfl⟩ := Prod.mk.inj heq
      split at hs
      · rename_i hd
        exact .gone hd (EventLoop.expiredMove hs)
      · rename_i hd
        exact .live (by simpa using hd) hs

/-- A loop in which an exception has escaped takes no further step. -/
theorem not_crashed_of_turn (h : Turn cfg s l s' o) (hc : s'.loop.crashed = none) :
    s.loop.crashed = none := by
  cases h with
  | ends _ hc _ _ => exact hc
  | live _ hs => exact EventLoop.not_crashed_of_step hs
  | gone _ hmove =>
      cases hmove with
      | expired hs | destroyed hs => exact EventLoop.not_crashed_of_step hs
      | _ => exact hc

/-- A turn leads to a state that the loop can reach, or to a loop that is over. -/
theorem sound_of_turn (h : Sound cfg tr s) (hturn : Turn cfg s l s' o)
    (hc : s'.loop.crashed = none) : Sound cfg (tr ++ o) s' := by
  have howned := h.owned (not_crashed_of_turn hturn hc)
  cases hturn with
  | ends _ _ hstack hcalls =>
      refine ⟨fun hd => absurd hd (by simp), fun _ => ⟨EventLoop.owned_destruct howned, ?_⟩⟩
      exact ⟨rfl, rfl, fun _ => rfl, fun _ => rfl, hstack, hcalls⟩
  | live hd hs =>
      exact ⟨fun _ => .step (h.live hd) trivial hs, fun hd' => absurd (hd.symm.trans hd') (by simp)⟩
  | gone hd hmove =>
      refine ⟨fun hd' => absurd (hd.symm.trans hd') (by simp), fun _ => ⟨?_, ?_⟩⟩
      · exact EventLoop.owned_of_expired howned hmove hc
      · exact EventLoop.emptied_of_expired (h.gone hd).2 hmove hc

theorem fate_of_turn (h : Sound cfg tr s) (hturn : Turn cfg s l s' o)
    (hc : s'.loop.crashed = none) (e : EventId) : EventLoop.Fate cfg s.loop s'.loop o e := by
  have hc₀ := not_crashed_of_turn hturn hc
  cases hturn with
  | ends _ _ _ _ => exact .kept .rfl List.not_mem_nil
  | live _ hs => exact EventLoop.fate_of_step (h.owned hc₀) (h.referenced hc₀) hs hc e
  | gone _ hmove => exact EventLoop.fate_of_expired (h.owned hc₀) (h.referenced hc₀) hmove hc e

/-- A turn leaves an untouched handler untouched, unless it is about it. -/
theorem untouched_of_turn (h : Sound cfg tr s) (hturn : Turn cfg s l s' o)
    (hc : s'.loop.crashed = none) (he : s.loop.Untouched e)
    (hl : l.bind LoopLabel.handler ≠ some e) : s'.loop.Untouched e := by
  have howned := h.owned (not_crashed_of_turn hturn hc)
  cases hturn with
  | ends _ _ _ _ => exact ⟨he.attached, he.alive, he.notMem, he.idle⟩
  | live _ hs =>
      exact EventLoop.untouched_of_move he howned (EventLoop.move_of_step hs hc) hl
  | gone _ hmove => exact EventLoop.untouched_of_expired he howned hmove hc hl

theorem Untouched.holds {loop : EventLoop} (h : loop.Untouched e) : loop.Holds e := by
  unfold EventLoop.Holds
  rw [h.attached]
  simpa using h.alive

/-- A step closes at most one descriptor, one that its owner had until then. -/
theorem closes_of_turn (h : Sound cfg tr s) (hturn : Turn cfg s l s' o)
    (hc : s'.loop.crashed = none) :
    (∀ e, .closeHandle e ∉ o) ∨ ∃ e, cfg.valid e = true ∧ o = [.closeHandle e] ∧ s.loop.Holds e ∧
      ¬s'.loop.Holds e := by
  by_cases hex : ∃ e, .closeHandle e ∈ o
  · obtain ⟨e, hmem⟩ := hex
    cases fate_of_turn h hturn hc e with
    | kept _ hno => exact absurd hmem hno
    | closed hbefore hafter ho =>
        split at ho
        · rename_i hvalid
          exact .inr ⟨e, hvalid, ho, hbefore, hafter⟩
        · exact absurd hmem (by simp [ho])
  · exact .inl fun e hmem => hex ⟨e, hmem⟩

/-- A step that does not close the descriptor of `e` leaves it to its owner. -/
theorem holds_of_turn (h : Sound cfg tr s) (hturn : Turn cfg s l s' o)
    (hc : s'.loop.crashed = none) (hvalid : cfg.valid e = true) (hno : .closeHandle e ∉ o) :
    s'.loop.Holds e ↔ s.loop.Holds e := by
  cases fate_of_turn h hturn hc e with
  | kept hsame _ => exact hsame
  | closed _ _ ho => exact absurd (by rw [ho, hvalid]; simp) hno

/-- The table of a loop does not change while a descriptor is closed. -/
theorem table_of_turn (h : Sound cfg tr s) (hturn : Turn cfg s l s' o)
    (hc : s'.loop.crashed = none) (ho : o = [.closeHandle e]) :
    s'.loop.epoll.events = s.loop.epoll.events := by
  cases hturn with
  | ends _ _ _ _ => exact absurd ho (by simp)
  | live _ hs =>
      cases EventLoop.tableMove_of_move (EventLoop.move_of_step hs hc) with
      | same hevents _ _ => exact hevents
      | closed _ _ _ _ hevents _ _ => exact hevents
      | finalized element _ _ n _ hfin _ hobs =>
          have hel : .finalize element ∈ o := by
            rw [hobs, ← mem_finalized, EventLoop.finalized_obs hfin]
            exact List.mem_singleton_self _
          exact absurd hel (by simp [ho])
  | gone hd hmove =>
      have hempty := (h.gone hd).2
      have hempty' := EventLoop.emptied_of_expired hempty hmove hc
      funext fd
      exact (hempty'.table fd).trans (hempty.table fd).symm

end Lifetime

/-! ### All loops -/

namespace Owners

variable {ι : Type}

@[simp] theorem closings_append (e : EventId) (tr o : List (ι × LoopObs)) :
    closings e (tr ++ o) = closings e tr + closings e o := List.countP_append

theorem closings_map (c : ι) (e : EventId) (o : List LoopObs) :
    closings e (o.map fun x => (c, x)) = o.countP (LoopObs.closes e) := by
  unfold closings
  rw [List.countP_map]
  rfl

theorem countP_closes {e : EventId} {o : List LoopObs} (h : .closeHandle e ∉ o) :
    o.countP (LoopObs.closes e) = 0 := by
  refine List.countP_eq_zero.mpr fun x hx hcloses => ?_
  cases x with
  | closeHandle e' =>
      obtain rfl : e' = e := by simpa [LoopObs.closes] using hcloses
      exact h hx
  | _ => exact absurd hcloses (by simp [LoopObs.closes])

variable [DecidableEq ι] {cfg : Config} {home : EventId → ι}

@[simp] theorem ofLoop_append (c : ι) (tr o : List (ι × LoopObs)) :
    ofLoop c (tr ++ o) = ofLoop c tr ++ ofLoop c o := List.filterMap_append

theorem ofLoop_map_self (c : ι) (o : List LoopObs) : ofLoop c (o.map fun x => (c, x)) = o := by
  unfold ofLoop
  simp [List.filterMap_map]

theorem ofLoop_map_of_ne {c c' : ι} (h : c' ≠ c) (o : List LoopObs) :
    ofLoop c (o.map fun x => (c', x)) = [] := by
  unfold ofLoop
  simp [h]

/-- If nothing is closed, everybody keeps what he owns. -/
theorem closeHandles_of_none (owner : Fd → Option EventId) {o : List LoopObs}
    (h : ∀ e, .closeHandle e ∉ o) : closeHandles cfg owner o = owner := by
  induction o with
  | nil => rfl
  | cons x o ih =>
      have htail := ih fun e he => h e (List.mem_cons_of_mem _ he)
      cases x with
      | closeHandle e => exact absurd List.mem_cons_self (h e)
      | _ => exact htail

/-- Every descriptor that has been handed to a handler is open and held, by the handler or by
its event, or has been closed once. -/
structure Sound (cfg : Config) (home : EventId → ι) (tr : List (ι × LoopObs)) (s : Owners ι) :
    Prop where
  loops : ∀ c, (s.loops c).Sound cfg (ofLoop c tr)
  elsewhere : ∀ c e, home e ≠ c ∨ e ∉ s.constructed → (s.loops c).loop.Untouched e
  owner : ∀ fd e, s.owner fd = some e →
    e ∈ s.constructed ∧ cfg.valid e = true ∧ cfg.handle e = fd
  holds : ∀ e ∈ s.constructed, cfg.valid e = true →
    (s.owner (cfg.handle e) = some e ↔ (s.loops (home e)).loop.Holds e)
  unclosed : ∀ e, cfg.valid e = true → (s.loops (home e)).loop.Holds e → closings e tr = 0
  closed : ∀ e, cfg.valid e = true → ¬(s.loops (home e)).loop.Holds e → closings e tr = 1

theorem sound_init (cfg : Config) (home : EventId → ι) : Sound cfg home [] {} where
  loops c := Lifetime.sound_init cfg
  elsewhere c e _ := EventLoop.untouched_init e
  owner fd e h := absurd h (by simp)
  holds e h := absurd h List.not_mem_nil
  unclosed e _ _ := rfl
  closed e _ h := absurd (Lifetime.Untouched.holds (EventLoop.untouched_init e)) h

variable {s s' : Owners ι} {tr o : List (ι × LoopObs)} {e : EventId} {c : ι}

/-- Only the loop that a handler was constructed for holds its descriptor. -/
theorem Sound.home_of_not_untouched (h : Sound cfg home tr s) (he : ¬(s.loops c).loop.Untouched e) :
    home e = c ∧ e ∈ s.constructed := by
  refine ⟨?_, ?_⟩
  · exact Decidable.byContradiction fun hne => he (h.elsewhere c e (.inl hne))
  · exact Decidable.byContradiction fun hnot => he (h.elsewhere c e (.inr hnot))

/-- A handler is constructed with a descriptor that was not open. -/
theorem sound_construct (h : Sound cfg home tr s) (hnew : e ∉ s.constructed)
    {owner : Fd → Option EventId}
    (howner : cfg.valid e = true ∧ s.owner (cfg.handle e) = none ∧
        owner = Function.update s.owner (cfg.handle e) (some e) ∨
      cfg.valid e = false ∧ owner = s.owner) :
    Sound cfg home tr { s with constructed := e :: s.constructed, owner } := by
  have hheld : (s.loops (home e)).loop.Holds e :=
    Lifetime.Untouched.holds (h.elsewhere (home e) e (.inr hnew))
  refine ⟨h.loops, fun c e' he' => h.elsewhere c e' ?_, fun fd e' he' => ?_,
    fun e' he' hvalid => ?_,
    h.unclosed, h.closed⟩
  · exact he'.imp id fun hnot hmem => hnot (List.mem_cons_of_mem _ hmem)
  · rcases howner with ⟨hvalid, -, rfl⟩ | ⟨-, rfl⟩
    · dsimp only at he'
      by_cases hfd : fd = cfg.handle e
      · rw [hfd, Function.update_self] at he'
        obtain rfl := Option.some.inj he'
        exact ⟨List.mem_cons_self, hvalid, hfd.symm⟩
      · rw [Function.update_of_ne hfd] at he'
        obtain ⟨hmem, hrest⟩ := h.owner fd e' he'
        exact ⟨List.mem_cons_of_mem _ hmem, hrest⟩
    · obtain ⟨hmem, hrest⟩ := h.owner fd e' he'
      exact ⟨List.mem_cons_of_mem _ hmem, hrest⟩
  · rcases List.mem_cons.mp he' with rfl | hmem
    · rcases howner with ⟨-, -, rfl⟩ | ⟨hinvalid, -⟩
      · simpa using hheld
      · exact absurd hvalid (by simp [hinvalid])
    · rcases howner with ⟨-, hfree, rfl⟩ | ⟨-, rfl⟩
      · have hne : e' ≠ e := fun heq => hnew (heq ▸ hmem)
        by_cases hfd : cfg.handle e' = cfg.handle e
        · -- the number was free: whoever had it before has closed it
          have hbefore := h.holds e' hmem hvalid
          dsimp only
          rw [hfd, Function.update_self]
          rw [hfd, hfree] at hbefore
          simpa [hne.symm] using hbefore
        · dsimp only
          rw [Function.update_of_ne hfd]
          exact h.holds e' hmem hvalid
      · exact h.holds e' hmem hvalid

section Act

variable {l : Option LoopLabel} {t : Lifetime} {o : List LoopObs}

/-- A handler that is not of the loop in which something happens stays untouched there. -/
theorem Sound.elsewhere_of_turn (h : Sound cfg home tr s)
    (hpermits : ∀ e, l.bind LoopLabel.handler = some e → e ∈ s.constructed ∧ home e = c)
    (hturn : (s.loops c).Turn cfg l t o) (hc : t.loop.crashed = none) (c' : ι) (e : EventId)
    (he : home e ≠ c' ∨ e ∉ s.constructed) :
    ((Function.update s.loops c t) c').loop.Untouched e := by
  by_cases hcc : c' = c
  · subst hcc
    rw [Function.update_self]
    refine Lifetime.untouched_of_turn (h.loops c') hturn hc (h.elsewhere c' e he) fun hl => ?_
    obtain ⟨hmem, hhome⟩ := hpermits e hl
    exact he.elim (fun hne => hne hhome) fun hnot => hnot hmem
  · rw [Function.update_of_ne hcc]
    exact h.elsewhere c' e he

/-- What is not closed is held by whoever held it. -/
theorem Sound.holds_of_turn (h : Sound cfg home tr s) (hturn : (s.loops c).Turn cfg l t o)
    (hc : t.loop.crashed = none) (hvalid : cfg.valid e = true) (hno : .closeHandle e ∉ o) :
    ((Function.update s.loops c t) (home e)).loop.Holds e ↔ (s.loops (home e)).loop.Holds e := by
  by_cases hcc : home e = c
  · rw [hcc, Function.update_self]
    exact Lifetime.holds_of_turn (h.loops c) hturn hc hvalid hno
  · rw [Function.update_of_ne hcc]

/-- The descriptor that is closed is still its own, and there is one at most: what closes a
descriptor closes the one of a handler that this loop holds. -/
theorem Sound.closed_of_turn (h : Sound cfg home tr s)
    (hpermits : ∀ e, l.bind LoopLabel.handler = some e → e ∈ s.constructed ∧ home e = c)
    (hturn : (s.loops c).Turn cfg l t o) (hc : t.loop.crashed = none)
    (hmem : .closeHandle e ∈ o) : o = [.closeHandle e] ∧
      s.owner (cfg.handle e) = some e ∧ (s.loops (home e)).loop.Holds e ∧
      ¬((Function.update s.loops c t) (home e)).loop.Holds e := by
  rcases Lifetime.closes_of_turn (h.loops c) hturn hc with
    hnone | ⟨e', hvalid, ho, hbefore, hafter⟩
  · exact absurd hmem (hnone e)
  obtain rfl : e = e' := by simpa [ho] using hmem
  have hhome : home e = c ∧ e ∈ s.constructed := by
    refine ⟨Decidable.byContradiction fun hne => ?_, Decidable.byContradiction fun hnot => ?_⟩
    · have hun := h.elsewhere_of_turn hpermits hturn hc c e (.inl hne)
      rw [Function.update_self] at hun
      exact hafter (Lifetime.Untouched.holds hun)
    · have hun := h.elsewhere_of_turn hpermits hturn hc c e (.inr hnot)
      rw [Function.update_self] at hun
      exact hafter (Lifetime.Untouched.holds hun)
  obtain ⟨rfl, hmem'⟩ := hhome
  refine ⟨ho, (h.holds e hmem' hvalid).mpr hbefore, hbefore, ?_⟩
  rw [Function.update_self]
  exact hafter

/-- Something happens in a loop. At most one descriptor is closed, that of a handler which this
loop held, so it was still open and its own; the fate of every other is to be kept. -/
theorem sound_act (h : Sound cfg home tr s)
    (hpermits : ∀ e, l.bind LoopLabel.handler = some e → e ∈ s.constructed ∧ home e = c)
    (hturn : (s.loops c).Turn cfg l t o) (hc : t.loop.crashed = none) :
    Sound cfg home (tr ++ o.map fun x => (c, x)) { s with
      loops := Function.update s.loops c t
      owner := closeHandles cfg s.owner o } := by
  have hclosed := fun e => h.closed_of_turn (e := e) hpermits hturn hc
  have hcount : ∀ e, .closeHandle e ∉ o →
      closings e (tr ++ o.map fun x => (c, x)) = closings e tr := by
    intro e hno
    rw [closings_append, closings_map, countP_closes hno, Nat.add_zero]
  have howner : (∀ e, .closeHandle e ∉ o) ∧ closeHandles cfg s.owner o = s.owner ∨
      ∃ e, o = [.closeHandle e] ∧
        closeHandles cfg s.owner o = Function.update s.owner (cfg.handle e) none := by
    by_cases hex : ∃ e, .closeHandle e ∈ o
    · obtain ⟨e, hmem⟩ := hex
      have ho := (hclosed e hmem).1
      exact .inr ⟨e, ho, by rw [ho]; rfl⟩
    · have hnone : ∀ e, .closeHandle e ∉ o := fun e hmem => hex ⟨e, hmem⟩
      exact .inl ⟨hnone, closeHandles_of_none s.owner hnone⟩
  refine ⟨fun c' => ?_, h.elsewhere_of_turn hpermits hturn hc, fun fd e he => ?_,
    fun e hmem hvalid => ?_, fun e hvalid hheld => ?_, fun e hvalid hheld => ?_⟩
  · by_cases hcc : c' = c
    · subst hcc
      dsimp only
      rw [Function.update_self, ofLoop_append, ofLoop_map_self]
      exact Lifetime.sound_of_turn (h.loops c') hturn hc
    · dsimp only
      rw [Function.update_of_ne hcc, ofLoop_append, ofLoop_map_of_ne (Ne.symm hcc),
        List.append_nil]
      exact h.loops c'
  · dsimp only at he
    rcases howner with ⟨-, heq⟩ | ⟨e₀, -, heq⟩ <;> rw [heq] at he
    · exact h.owner fd e he
    · by_cases hfd : fd = cfg.handle e₀
      · rw [hfd, Function.update_self] at he
        exact absurd he (by simp)
      · rw [Function.update_of_ne hfd] at he
        exact h.owner fd e he
  · dsimp only
    rcases howner with ⟨hnone, heq⟩ | ⟨e₀, ho, heq⟩ <;> rw [heq]
    · rw [h.holds_of_turn hturn hc hvalid (hnone e)]
      exact h.holds e hmem hvalid
    · obtain ⟨-, hown, hbefore, hafter⟩ := hclosed e₀ (by rw [ho]; exact List.mem_singleton_self _)
      by_cases he : e = e₀
      · subst he
        simpa using hafter
      · rw [h.holds_of_turn hturn hc hvalid (by simp [ho, he])]
        by_cases hfd : cfg.handle e = cfg.handle e₀
        · -- two handlers that were handed the same number: only one of them still has it
          have hholds := h.holds e hmem hvalid
          rw [hfd, hown] at hholds
          rw [hfd, Function.update_self]
          simpa [Ne.symm he] using hholds
        · rw [Function.update_of_ne hfd]
          exact h.holds e hmem hvalid
  · by_cases hmem : .closeHandle e ∈ o
    · exact absurd hheld (hclosed e hmem).2.2.2
    · rw [hcount e hmem]
      exact h.unclosed e hvalid ((h.holds_of_turn hturn hc hvalid hmem).mp hheld)
  · by_cases hmem : .closeHandle e ∈ o
    · obtain ⟨ho, -, hbefore, -⟩ := hclosed e hmem
      rw [closings_append, closings_map, h.unclosed e hvalid hbefore, ho]
      simp [LoopObs.closes]
    · rw [hcount e hmem]
      exact h.closed e hvalid fun hbefore =>
        hheld ((h.holds_of_turn hturn hc hvalid hmem).mpr hbefore)

end Act

/-- What a transition of a process can be. -/
inductive Happens (cfg : Config) (home : EventId → ι) (s : Owners ι) :
    OwnersLabel ι → Owners ι → List (ι × LoopObs) → Prop
  | constructed {e : EventId} {owner : Fd → Option EventId} : e ∉ s.constructed →
      (cfg.valid e = true ∧ s.owner (cfg.handle e) = none ∧
          owner = Function.update s.owner (cfg.handle e) (some e) ∨
        cfg.valid e = false ∧ owner = s.owner) →
      Happens cfg home s (.construct e) { s with constructed := e :: s.constructed, owner } []
  | acted {c : ι} {l : Option LoopLabel} {t : Lifetime} {o : List LoopObs} :
      (∀ e, l.bind LoopLabel.handler = some e → e ∈ s.constructed ∧ home e = c) →
      (s.loops c).Turn cfg l t o →
      Happens cfg home s (.act c l)
        { s with loops := Function.update s.loops c t, owner := closeHandles cfg s.owner o }
        (o.map fun x => (c, x))

/-- Every transition of a process is one of `Happens`. -/
theorem happens_of_step {l : OwnersLabel ι} (h : step cfg home l s = some (s', o)) :
    Happens cfg home s l s' o := by
  cases l with
  | construct e =>
      simp only [step] at h
      split at h
      · exact absurd h (by simp)
      · rename_i hnew
        have hnew : e ∉ s.constructed := by simpa using hnew
        split at h
        · rename_i hvalid
          split at h
          · rename_i hfree
            obtain ⟨rfl, rfl⟩ := Prod.mk.inj (Option.some.inj h)
            exact .constructed hnew (.inl ⟨hvalid, by simpa using hfree, rfl⟩)
          · exact absurd h (by simp)
        · rename_i hinvalid
          obtain ⟨rfl, rfl⟩ := Prod.mk.inj (Option.some.inj h)
          exact .constructed hnew (.inr ⟨by simpa using hinvalid, rfl⟩)
  | act c l =>
      simp only [step] at h
      split at h
      · rename_i hpermits
        obtain ⟨⟨t, o'⟩, hs, heq⟩ := Option.map_eq_some_iff.mp h
        obtain ⟨rfl, rfl⟩ := Prod.mk.inj heq
        refine .acted (fun e he => ?_) (Lifetime.turn_of_step hs)
        unfold permits at hpermits
        rw [he] at hpermits
        simpa using hpermits
      · exact absurd h (by simp)

/-- No exception has escaped from the thread of any loop. -/
def Uncrashed (s : Owners ι) : Prop := ∀ c, (s.loops c).loop.crashed = none

/-- A loop that has crashed stays crashed. -/
theorem uncrashed_of_happens {l : OwnersLabel ι} (h : Happens cfg home s l s' o)
    (hc : s'.Uncrashed) : s.Uncrashed := by
  intro c'
  cases h with
  | constructed _ _ => exact hc c'
  | @acted c l t o _ hturn =>
      have hc' := hc c'
      dsimp only at hc'
      by_cases hcc : c' = c
      · subst hcc
        rw [Function.update_self] at hc'
        exact Lifetime.not_crashed_of_turn hturn hc'
      · rw [Function.update_of_ne hcc] at hc'
        exact hc'

/-- **One transition of a process keeps the count.** -/
theorem sound_of_happens (h : Sound cfg home tr s) {l : OwnersLabel ι}
    (hs : Happens cfg home s l s' o) (hc : s'.Uncrashed) : Sound cfg home (tr ++ o) s' := by
  cases hs with
  | constructed hnew howner =>
      rw [List.append_nil]
      exact sound_construct h hnew howner
  | @acted c l t o hpermits hturn =>
      have hct := hc c
      dsimp only at hct
      rw [Function.update_self] at hct
      exact sound_act h hpermits hturn hct

theorem sound_of_run (h : Run (ownersSystem cfg home) {} tr s) (hc : s.Uncrashed) :
    Sound cfg home tr s := by
  refine (h.invariant (I := fun tr s => s.Uncrashed → Sound cfg home tr s)
    (fun _ => sound_init cfg home) fun _ ih _ hs hc' => ?_) hc
  have hs := happens_of_step hs
  exact sound_of_happens (ih (uncrashed_of_happens hs hc')) hs hc'

/-! ### Closed once -/

/-- An entry in the table of a loop is for a descriptor that is open, and owned by the event
of the entry. -/
theorem Sound.owner_of_table (h : Sound cfg home tr s) (hc : s.Uncrashed) {fd : Fd}
    (htable : (s.loops c).loop.epoll.events fd = some e) : s.owner fd = some e ∧ home e = c := by
  have howned := (h.loops c).owned (hc c)
  obtain ⟨hobj, rfl, hvalid⟩ := howned.table fd e htable
  have htouched : ¬(s.loops c).loop.Untouched e := fun hun => hun.notMem hobj
  obtain ⟨rfl, hmem⟩ := h.home_of_not_untouched htouched
  refine ⟨(h.holds e hmem hvalid).mpr ?_, rfl⟩
  unfold EventLoop.Holds
  rw [howned.attached e hobj]
  exact hobj

/-- A descriptor is closed while it is open and owned by the one that closes it, and while no
loop has an entry for it. -/
theorem closed_unregistered (h : Sound cfg home tr s) {l : OwnersLabel ι}
    (hs : Happens cfg home s l s' o) (hc : s'.Uncrashed) (hmem : (c, .closeHandle e) ∈ o) :
    s.owner (cfg.handle e) = some e ∧
      ∀ c', (s.loops c').loop.epoll.events (cfg.handle e) = none := by
  have hsound' := sound_of_happens h hs hc
  have hc₀ := uncrashed_of_happens hs hc
  cases hs with
  | constructed _ _ => exact absurd hmem List.not_mem_nil
  | @acted c₀ l t o hpermits hturn =>
      have hct := hc c₀
      dsimp only at hct
      rw [Function.update_self] at hct
      obtain ⟨x, hx, heq⟩ := List.mem_map.mp hmem
      obtain ⟨rfl, rfl⟩ := Prod.mk.inj heq
      rcases Lifetime.closes_of_turn (h.loops c₀) hturn hct with
        hnone | ⟨e', hvalid, ho, hbefore, hafter⟩
      · exact absurd hx (hnone e)
      · obtain rfl : e = e' := by simpa [ho] using hx
        have hhome : home e = c₀ ∧ e ∈ s.constructed := by
          refine hsound'.home_of_not_untouched fun hun => hafter ?_
          dsimp only at hun
          rw [Function.update_self] at hun
          exact Lifetime.Untouched.holds hun
        obtain ⟨rfl, hcon⟩ := hhome
        have hown : s.owner (cfg.handle e) = some e := (h.holds e hcon hvalid).mpr hbefore
        refine ⟨hown, fun c' => ?_⟩
        cases htable : (s.loops c').loop.epoll.events (cfg.handle e) with
        | none => rfl
        | some e' =>
            -- the entry would be the event's own, and would still be there afterwards
            obtain ⟨hown', rfl⟩ := h.owner_of_table hc₀ htable
            obtain rfl : e = e' := Option.some.inj (hown.symm.trans hown')
            have htable' : t.loop.epoll.events (cfg.handle e) = some e := by
              rw [Lifetime.table_of_turn (h.loops (home e)) hturn hct ho]
              exact htable
            have howned' : EventLoop.Owned cfg t.loop := by
              have howned := (hsound'.loops (home e)).owned (by simpa using hct)
              dsimp only at howned
              rwa [Function.update_self] at howned
            have hobj := (howned'.table _ e htable').1
            refine absurd ?_ hafter
            unfold EventLoop.Holds
            rw [howned'.attached e hobj]
            exact hobj

/-- The loop is through with the event of `e`: it was never given one, the removal has been
finalized and neither a queue nor a local variable refers to the event, or the loop is gone. -/
inductive Finished (tr : List LoopObs) (s : Lifetime) (e : EventId) : Prop
  | neverAttached : (s.loop.handlers e).attached = false → Finished tr s e
  | removed : .finalize (.remove e) ∈ tr → (∀ q, s.loop.epoll.eventsPending q = []) →
      (∀ f ∈ s.loop.stack, f.mentions e = false) →
      (∀ a p, s.loop.calls.lookup a = some p → p.mentions e = false) →
      e ∉ s.loop.eventsToClose → Finished tr s e
  | destroyed : s.destroyed = true → Finished tr s e

/-- When a loop is through with an event, nothing refers to it. -/
theorem unreferenced_of_finished {tr : List LoopObs} {t : Lifetime} (h : t.Sound cfg tr)
    (hc : t.loop.crashed = none) (halive : (t.loop.handlers e).alive = false)
    (hobj : e ∈ t.loop.objects)
    (hfin : Finished tr t e) : t.loop.unreferenced cfg e = true := by
  cases hd : t.destroyed with
  | true =>
      have hempty := (h.gone hd).2
      exact EventLoop.unreferenced_of halive (by simp [hempty.events])
        (by simp [hempty.eventsToClose])
        (by simp [hempty.table]) hempty.pending (by simp [hempty.stack]) (by simp [hempty.calls])
  | false =>
      cases hfin with
      | neverAttached hatt =>
          exact absurd ((h.owned hc).attached e hobj) (by simp [hatt])
      | destroyed hd' => exact absurd (hd.symm.trans hd') (by simp)
      | removed hremoved hpending hframes hcalls hclose =>
          have hrun := h.live hd
          have hfinal : Element.remove e ∈ finalized tr := mem_finalized.mpr hremoved
          have htokens : 0 < EventLoop.tokens tr t.loop (.remove e) := by
            have hcount := List.count_pos_iff.mpr hfinal
            unfold EventLoop.tokens
            omega
          have hevents := ((EventLoop.life_of_run hrun hc).closed_of_tokens htokens).2
          have htable : t.loop.epoll.events (cfg.handle e) ≠ some e := fun htab =>
            ((EventLoop.registered_of_run hrun hc).table _ e htab).2 hfinal
          exact EventLoop.unreferenced_of halive hevents hclose htable hpending hframes hcalls

/-- **Each descriptor is closed once, and never while it is registered.** For any number of
loops, any order of construction, attachment, destruction and of the ends of loops: the
descriptor of a handler is closed at most once, by its owner, and while no loop has an entry
for it. Once the handler is destroyed and its loop is through with the event, the descriptor has
been closed, or the destructor that closes it is the one that is due. -/
theorem descriptors_closed_once (cfg : Config) (home : EventId → ι) {tr : List (ι × LoopObs)}
    {s : Owners ι} (h : Run (ownersSystem cfg home) {} tr s) (hc : s.Uncrashed) :
    (∀ e, cfg.valid e = true → closings e tr ≤ 1) ∧
    (∀ c fd e, (s.loops c).loop.epoll.events fd = some e → s.owner fd = some e) ∧
    (∀ l s' o c e, (ownersSystem cfg home).step l s = some (s', o) → s'.Uncrashed →
      (c, .closeHandle e) ∈ o → s.owner (cfg.handle e) = some e ∧
        ∀ c', (s.loops c').loop.epoll.events (cfg.handle e) = none) ∧
    ∀ e ∈ s.constructed, cfg.valid e = true →
      ((s.loops (home e)).loop.handlers e).alive = false →
      Finished (ofLoop (home e) tr) (s.loops (home e)) e →
      closings e tr = 1 ∨ ∃ s', (ownersSystem cfg home).step
        (.act (home e) (some (.destroyEvent e))) s = some (s', [(home e, .closeHandle e)]) := by
  have hsound : Sound cfg home tr s := sound_of_run h hc
  refine ⟨fun e hvalid => ?_, fun c fd e htable => (hsound.owner_of_table hc htable).1,
    fun l s' o c e hs hc' hmem => closed_unregistered hsound (happens_of_step hs) hc' hmem,
    fun e hcon hvalid halive hfin => ?_⟩
  · by_cases hheld : (s.loops (home e)).loop.Holds e
    · rw [hsound.unclosed e hvalid hheld]
      exact Nat.zero_le 1
    · rw [hsound.closed e hvalid hheld]
  · by_cases hheld : (s.loops (home e)).loop.Holds e
    · -- the event still exists, and nothing is left that could refer to it
      refine .inr ?_
      have hobj : e ∈ (s.loops (home e)).loop.objects := by
        unfold EventLoop.Holds at hheld
        split at hheld
        · exact hheld
        · exact absurd hheld (by simp [halive])
      have hun := unreferenced_of_finished (hsound.loops (home e)) (hc (home e)) halive hobj
        hfin
      obtain ⟨loop', hstep⟩ : ∃ loop', (s.loops (home e)).loop.step cfg (.destroyEvent e) =
          some (loop', [.closeHandle e]) := by
        simp [EventLoop.step, hc (home e), hobj, hun, hvalid]
      have hturn : (s.loops (home e)).step cfg (some (.destroyEvent e)) =
          some ({ s.loops (home e) with loop := loop' }, [.closeHandle e]) := by
        simp only [Lifetime.step, EventLoop.stepExpired, ite_self, hstep, Option.map_some]
      refine ⟨{ s with
        loops := Function.update s.loops (home e) { s.loops (home e) with loop := loop' }
        owner := closeHandles cfg s.owner [.closeHandle e] }, ?_⟩
      simp only [ownersSystem, step, permits, Option.bind_some, LoopLabel.handler, if_true, hturn,
        Option.map_some, List.map_cons, List.map_nil]
    · exact .inl (hsound.closed e hvalid hheld)

/-- Handlers that are all handed the same descriptor, one after the other. -/
def oneDescriptor : Config := { handler := fun _ => .user 3, intervalOccurrencesLimit := 10 }

/-- A handler is attached, its loop is stopped and destroyed, and it is destroyed after that. -/
def loopFirst : List (OwnersLabel Bool) :=
  .construct 0 :: (([.call (.user 0) (.attach 0), .proceed (.user 0), .proceed (.user 0),
    .proceed (.user 0), .call (.user 0) .stop, .proceed (.user 0), .loop .none, .loop .none,
    .loop (.close 0), .loop .none, .proceed .loop, .proceed .loop, .proceed .loop, .proceed .loop,
    .loop .none, .loop .none, .proceed .loop, .loop (.wait fun _ _ => none), .loop .none,
    .loop .none, .loop .none, .loop .none, .loop (.ctl Events.Read none), .loop .none, .loop .none,
    .loop .none, .loop (.ctl 0 none), .loop .none, .loop .none, .loop .none, .loop .none,
    .loop .none, .loop .none] : List LoopLabel).map fun l => .act true (some l)) ++
    [.act true none, .act true (some (.call (.user 0) (.destroyHandler 0)))]

/-- With the loop destroyed first, the event closes the descriptor, once. -/
theorem descriptors_closed_once_loopFirst : ∃ tr s s',
    Run (ownersSystem oneDescriptor fun _ => true) {} tr s ∧
      (ownersSystem oneDescriptor fun _ => true).step (.act true (some (.destroyEvent 0))) s =
        some (s', [(true, .closeHandle 0)]) := by
  have hexec : (exec (ownersSystem oneDescriptor fun _ => true) (fun _ _ => true) loopFirst {}).any
      (fun r => r.1.constructed.contains 0 && (r.1.loops true).destroyed &&
        (r.1.loops true).loop.crashed.isNone && (r.1.loops false).loop.crashed.isNone &&
        !((r.1.loops true).loop.handlers 0).alive && closings 0 r.2 == 0) = true := by
    decide +kernel
  obtain ⟨r, hr, htest⟩ := (Option.any_eq_true _ _).mp hexec
  simp only [Bool.and_eq_true, Bool.not_eq_true', Option.isNone_iff_eq_none, List.contains_iff_mem,
    beq_iff_eq] at htest
  obtain ⟨⟨⟨⟨⟨hcon, hd⟩, hc₁⟩, hc₂⟩, halive⟩, hopen⟩ := htest
  have hrun : Run (ownersSystem oneDescriptor fun _ => true) {} r.2 r.1 :=
    .of_exec (fun _ _ _ => trivial) hr
  have hc : r.1.Uncrashed := fun c => by cases c <;> assumption
  have hclosed := (descriptors_closed_once oneDescriptor (fun _ => true) hrun hc).2.2.2 0 hcon rfl
    halive (.destroyed hd)
  rcases hclosed with hone | ⟨s', hs⟩
  · exact absurd hone (by simp [hopen])
  · exact ⟨r.2, r.1, s', hrun, hs⟩

end Owners

end Libael
