import Libael.EventLoop.Dispatch
import Libael.EventLoop.Ownership
import Libael.Lts.Lease

/-!
# Libael.EventLoop.Registry

**What the event loop does with descriptors, told from outside**: its events take turns on
them. An event gets the descriptor of its handler when it is created, epoll reports it from
`AddFinalize` to `RemoveFinalize`, only meanwhile is the handler called or the interest
changed, and the descriptor is closed last of all. Queues, locks, calls and frames have no
part in this; the loop implements it through all of them.

* `Config.act` is the view: what an observation tells about a descriptor, if anything.
  `leases` is the abstraction of a state. It reads the stage of an event off the objects, the
  table and the history of the finalize functions.
* `implements_step` is the simulation: a step of the loop is a run of the leases that shows
  the same. Most steps move no event and at most use an active one (`run_of_quiet`); the
  creation, the registration, the removal and the end of an event have a lemma each.
* The step is taken from a state in which the five invariants of `Known` hold.
-/

namespace Libael

open Lts

/-- What an observation tells about the descriptor of an event. -/
def LoopObs.act : LoopObs → Option (Act EventId)
  | .created e => some (.acquire e)
  | .ctlAdd e _ => some (.activate e)
  | .handleEvents e _ | .func e | .ctlMod e _ none => some (.use e)
  | .closed e => some (.retire e)
  | .ctlDel e => some (.deactivate e)
  | .closeHandle e => some (.dispose e)
  | _ => none

/-- The same for the events that have a descriptor. -/
def Config.act (cfg : Config) (x : LoopObs) : Option (Act EventId) :=
  x.act.filter fun a => cfg.valid a.holder

namespace EventLoop

variable {cfg : Config} {l : LoopLabel} {s s' : EventLoop} {tr o : List LoopObs} {e : EventId}

instance (tr : List LoopObs) (e : EventId) : Decidable (Removed tr e) :=
  inferInstanceAs (Decidable (.remove e ∈ finalized tr))

/-- Where an event stands with its descriptor: the objects tell whether it has one, the table
whether it is active, and the trace whether it has been active already. -/
def phase (cfg : Config) (tr : List LoopObs) (s : EventLoop) (e : EventId) : Phase :=
  if cfg.valid e = false then .idle
  else if ¬s.Holds e then .disposed
  else if (s.handlers e).attached = false then .idle
  else if s.epoll.events (cfg.handle e) = some e then .active
  else if Removed tr e then .released
  else .held

/-- The loop as its events and how far they have got. -/
def leases (cfg : Config) (tr : List LoopObs) (s : EventLoop) : Leases EventId where
  phase := s.phase cfg tr
  retired e := cfg.valid e && (s.handlers e).attached && !s.events.contains e

theorem leases_phase : (s.leases cfg tr).phase e = s.phase cfg tr e := rfl

theorem leases_retired : (s.leases cfg tr).retired e =
    (cfg.valid e && (s.handlers e).attached && !s.events.contains e) := rfl

/-! ### Where an event stands -/

theorem holds_of_mem (howned : Owned cfg s) (he : e ∈ s.objects) : s.Holds e := by
  unfold Holds
  rw [if_pos (howned.attached e he)]
  exact he

theorem mem_of_holds (hatt : (s.handlers e).attached = true) (h : s.Holds e) : e ∈ s.objects := by
  unfold Holds at h
  rwa [if_pos hatt] at h

/-- What is in the table under the descriptor of an event is the event. -/
theorem entry_of_ne_none (howned : Owned cfg s) (hvalid : cfg.valid e = true)
    (he : e ∈ s.objects) (hsome : s.epoll.events (cfg.handle e) ≠ none) :
    s.epoll.events (cfg.handle e) = some e := by
  obtain ⟨e', he'⟩ := Option.ne_none_iff_exists'.mp hsome
  obtain ⟨hmem, hfd, -⟩ := howned.table _ _ he'
  rw [he', howned.distinct e he e' hmem hvalid hfd.symm]

/-- An event with a descriptor is active while it is in the table. -/
theorem phase_active_iff (howned : Owned cfg s) (tr : List LoopObs) (hvalid : cfg.valid e = true) :
    s.phase cfg tr e = .active ↔ s.epoll.events (cfg.handle e) = some e := by
  unfold phase
  rw [if_neg (by simp [hvalid])]
  constructor
  · intro h
    split at h
    · exact absurd h (by simp)
    · split at h
      · exact absurd h (by simp)
      · split at h
        · assumption
        · split at h <;> exact absurd h (by simp)
  · intro h
    have he : e ∈ s.objects := (howned.table _ _ h).1
    rw [if_neg (not_not_intro (holds_of_mem howned he)),
      if_neg (by simp [howned.attached e he]), if_pos h]

/-- An event has its descriptor while its object exists. -/
theorem phase_live_iff (howned : Owned cfg s) (tr : List LoopObs) :
    (s.phase cfg tr e).live = true ↔ cfg.valid e = true ∧ e ∈ s.objects := by
  unfold phase
  split
  · rename_i hvalid
    simp [hvalid, Phase.live]
  · rename_i hvalid
    split
    · rename_i hno
      simpa [Phase.live] using fun _ h => hno (holds_of_mem howned h)
    · rename_i hholds
      split
      · rename_i hatt
        have hno : e ∉ s.objects := fun h => by
          rw [howned.attached e h] at hatt
          exact absurd hatt (by simp)
        simp [Phase.live, hno]
      · rename_i hatt
        have he : e ∈ s.objects := mem_of_holds (by simpa using hatt) (not_not.mp hholds)
        have hvalid : cfg.valid e = true := by simpa using hvalid
        split
        · simp [Phase.live, he, hvalid]
        · split <;> simp [Phase.live, he, hvalid]

theorem phase_open (howned : Owned cfg s) (hvalid : cfg.valid e = true) (he : e ∈ s.objects)
    (htable : s.epoll.events (cfg.handle e) ≠ some e) :
    s.phase cfg tr e = if Removed tr e then .released else .held := by
  unfold phase
  rw [if_neg (by simp [hvalid]), if_neg (not_not_intro (holds_of_mem howned he)),
    if_neg (by simp [howned.attached e he]), if_neg htable]

theorem phase_invalid (hvalid : cfg.valid e = false) : s.phase cfg tr e = .idle := if_pos hvalid

theorem phase_detached (hatt : (s.handlers e).attached = false) (hholds : s.Holds e) :
    s.phase cfg tr e = .idle := by
  unfold phase
  rw [if_neg (not_not_intro hholds), if_pos hatt, ite_self]

theorem removed_append : Removed (tr ++ o) e ↔ Removed tr e ∨ .remove e ∈ finalized o := by
  unfold Removed
  rw [finalized_append, List.mem_append]

/-- An event stands where it stood when nothing has happened to it. -/
theorem phase_of_step (hfate : Fate cfg s s' o e) (hno : .closeHandle e ∉ o)
    (hatt : (s'.handlers e).attached = (s.handlers e).attached)
    (htable : s'.epoll.events (cfg.handle e) = some e ↔ s.epoll.events (cfg.handle e) = some e)
    (hremove : cfg.valid e = true → .remove e ∉ finalized o) :
    s'.phase cfg (tr ++ o) e = s.phase cfg tr e := by
  unfold phase
  cases hvalid : cfg.valid e with
  | false => rw [if_pos rfl, if_pos rfl]
  | true =>
      have hholds : s'.Holds e ↔ s.Holds e := by
        cases hfate with
        | kept hsame _ => exact hsame
        | closed _ _ ho =>
            rw [hvalid] at ho
            exact absurd (by rw [ho]; simp) hno
      have hremoved : Removed (tr ++ o) e ↔ Removed tr e :=
        removed_append.trans (or_iff_left (hremove hvalid))
      simp only [hholds, hatt, htable, hremoved]

theorem leases_eq (hphase : ∀ e, s'.phase cfg (tr ++ o) e = s.phase cfg tr e)
    (hattached : ∀ e, (s'.handlers e).attached = (s.handlers e).attached)
    (hevents : s'.events = s.events) : s'.leases cfg (tr ++ o) = s.leases cfg tr := by
  unfold leases
  simp only [hattached, hevents, funext hphase]

theorem leases_enter {p : Phase}
    (hothers : ∀ e', e' ≠ e → s'.phase cfg (tr ++ o) e' = s.phase cfg tr e')
    (hphase : s'.phase cfg (tr ++ o) e = p)
    (hretired : ∀ e', (s'.leases cfg (tr ++ o)).retired e' = (s.leases cfg tr).retired e') :
    s'.leases cfg (tr ++ o) = (s.leases cfg tr).enter e p := by
  refine Leases.ext (funext fun e' => ?_) (funext hretired)
  rw [Leases.enter_phase]
  split
  · rename_i heq
    rw [heq]
    exact hphase
  · rename_i hne
    exact hothers e' hne

/-! ### The work of the handlers -/

theorem act_spec {x : LoopObs} {a : Act EventId} (h : cfg.act x = some a) :
    x.act = some a ∧ cfg.valid a.holder = true := by
  unfold Config.act at h
  exact Option.filter_eq_some_iff.mp h

/-- The acts of an event with a descriptor. -/
theorem acts_of_valid {x : LoopObs} {a : Act EventId} (h : x.act = some a)
    (hvalid : cfg.valid a.holder = true) : [x].filterMap cfg.act = [a] :=
  List.filterMap_cons_some (Option.filter_eq_some_iff.mpr ⟨h, hvalid⟩)

theorem acts_of_invalid {x : LoopObs} {a : Act EventId} (h : x.act = some a)
    (hvalid : cfg.valid a.holder = false) : [x].filterMap cfg.act = [] := by
  refine List.filterMap_cons_none ?_
  unfold Config.act
  rw [h, Option.filter_some, if_neg (by simp [hvalid])]

/-- What is shown by a frame that runs no finalize function is the work of a handler. -/
theorem effect_of_light {f : LoopFrame} {rest : List LoopFrame} {i : LoopInput} {n : LoopNext}
    (hlight : f.light = true) (h : s.runFrame cfg rest i f = some n) {x : LoopObs}
    (hx : x ∈ n.obs) : effect x = true := by
  cases lightRun hlight h with
  | execute _ _ =>
      rcases List.mem_cons.mp hx with rfl | hx
      · rfl
      · rw [List.mem_singleton.mp hx]
        rfl
  | user _ | executeDead _ _ | timer _ _ _ | timerIgnored _ | occurrence =>
      rw [List.mem_singleton.mp hx]
      rfl
  | _ => exact absurd hx List.not_mem_nil

/-- A handler works while its event is active. What is shown by a call of `HandleEvents`, by
`func_` or by `Modify` is shown by a frame of a running handler, and `Running` has its event in
the table. -/
theorem used_of_effect (howned : Owned cfg s) (hrunning : Running cfg s)
    (hinterest : s.epoll.interest = s.epoll.events) (hs : step cfg l s = some (s', o))
    {x : LoopObs} (hx : x ∈ o) (heffect : effect x = true) (hno : ∀ e, x ≠ .closeHandle e)
    {a : Act EventId} (ha : cfg.act x = some a) (tr : List LoopObs) :
    ∃ e, a = .use e ∧ s.phase cfg tr e = .active := by
  obtain ⟨hact, hvalid⟩ := act_spec ha
  cases shown_of_step hs hx heffect with
  | @handleEvents i e events rest hstack _ =>
      obtain rfl := Option.some.inj hact
      have hmem : LoopFrame.handleEvents e events ∈ s.stack := by simp [hstack]
      refine ⟨e, rfl, (phase_active_iff howned tr hvalid).mpr ?_⟩
      exact hrunning _ hmem e (by simp [LoopFrame.runs]) hvalid
  | execute _ _ hclass _ =>
      obtain rfl := Option.some.inj hact
      -- the handlers of `ExecuteOnce` have no descriptor
      simp [Act.holder, Config.valid, Config.handle, hclass, HandlerClass.handle,
        Fd.valid] at hvalid
  | @timer i e k rest hstack _ =>
      obtain rfl := Option.some.inj hact
      have hmem : LoopFrame.timerRun e (k + 1) ∈ s.stack := by simp [hstack]
      refine ⟨e, rfl, (phase_active_iff howned tr hvalid).mpr ?_⟩
      exact hrunning _ hmem e (by simp [LoopFrame.runs]) hvalid
  | @ctlMod e asked ret caught interest _ halive hatt hin =>
      cases ret with
      | some errno => exact absurd hact (by simp [LoopObs.act])
      | none =>
          obtain rfl := Option.some.inj hact
          have hvalid : cfg.valid e = true := hvalid
          refine ⟨e, rfl, (phase_active_iff howned tr hvalid).mpr ?_⟩
          -- the registration the kernel has found is the one of the event
          refine entry_of_ne_none howned hvalid (howned.handlers e halive hatt) ?_
          rw [← hinterest]
          exact hin rfl
  | handler _ _ _ => exact absurd rfl (hno _)
  | event _ _ _ => exact absurd rfl (hno _)

/-! ### One step -/

/-- A step in which handlers are at work, and nothing else is done to a descriptor. -/
theorem run_of_quiet (hfate : ∀ e, Fate cfg s s' o e) (hno : ∀ e, .closeHandle e ∉ o)
    (hattached : ∀ e, (s'.handlers e).attached = (s.handlers e).attached)
    (hevents : s'.events = s.events) (htable : s'.epoll.events = s.epoll.events)
    (hremove : ∀ e, cfg.valid e = true → .remove e ∉ finalized o)
    (huse : ∀ x ∈ o, ∀ a, cfg.act x = some a → ∃ e, a = .use e ∧ s.phase cfg tr e = .active) :
    (Leases.spec cfg.handle).Run (s.leases cfg tr) (o.filterMap cfg.act)
      (s'.leases cfg (tr ++ o)) := by
  have hphase : ∀ e, s'.phase cfg (tr ++ o) e = s.phase cfg tr e := fun e =>
    phase_of_step (hfate e) (hno e) (hattached e) (by rw [htable]) (hremove e)
  rw [leases_eq hphase hattached hevents]
  refine Leases.uses fun a ha => ?_
  obtain ⟨x, hx, hact⟩ := List.mem_filterMap.mp ha
  exact huse x hx a hact

/-- A step that shows nothing about descriptors. -/
theorem run_of_silent (hfate : ∀ e, Fate cfg s s' o e) (ho : o.filterMap LoopObs.act = [])
    (hattached : ∀ e, (s'.handlers e).attached = (s.handlers e).attached)
    (hevents : s'.events = s.events) (htable : s'.epoll.events = s.epoll.events)
    (hremove : ∀ e, cfg.valid e = true → .remove e ∉ finalized o) :
    (Leases.spec cfg.handle).Run (s.leases cfg tr) (o.filterMap cfg.act)
      (s'.leases cfg (tr ++ o)) := by
  have hnone : ∀ x ∈ o, x.act = none := List.filterMap_eq_nil_iff.mp ho
  refine run_of_quiet hfate (fun e hmem => ?_) hattached hevents htable hremove fun x hx a ha => ?_
  · exact absurd (hnone _ hmem) (by simp [LoopObs.act])
  · exact absurd ((hnone x hx).symm.trans (act_spec ha).1) (by simp)

/-- A step in which an event enters another phase: it shows one act, and all other events stand
where they stood. -/
theorem run_of_enter {a : Act EventId} {p : Phase} (hact : o.filterMap cfg.act = [a])
    (hstep : Leases.Step cfg.handle (s.leases cfg tr) a ((s.leases cfg tr).enter e p))
    (hothers : ∀ e', e' ≠ e → s'.phase cfg (tr ++ o) e' = s.phase cfg tr e')
    (hphase : s'.phase cfg (tr ++ o) e = p)
    (hretired : ∀ e', (s'.leases cfg (tr ++ o)).retired e' = (s.leases cfg tr).retired e') :
    (Leases.spec cfg.handle).Run (s.leases cfg tr) (o.filterMap cfg.act)
      (s'.leases cfg (tr ++ o)) := by
  rw [hact, leases_enter hothers hphase hretired]
  exact .single hstep

theorem retired_of_same (hattached : ∀ e, (s'.handlers e).attached = (s.handlers e).attached)
    (hevents : s'.events = s.events) (tr tr' : List LoopObs) (e : EventId) :
    (s'.leases cfg tr').retired e = (s.leases cfg tr).retired e := by
  rw [leases_retired, leases_retired, hattached, hevents]

/-- The table of the others is not changed when an event enters or leaves it. -/
theorem table_of_ne (howned : Owned cfg s) (hvalid : cfg.valid e = true) (he : e ∈ s.objects)
    {entry : Option EventId} (hentry : entry = some e ∨ entry = none) {e' : EventId}
    (hne : e' ≠ e) :
    Function.update s.epoll.events (cfg.handle e) entry (cfg.handle e') = some e' ↔
      s.epoll.events (cfg.handle e') = some e' := by
  by_cases hfd : cfg.handle e' = cfg.handle e
  · rw [hfd, Function.update_self]
    constructor
    · intro h
      rw [h] at hentry
      exact absurd hentry (by simp [hne])
    · intro h
      exact absurd (howned.distinct e he e' (howned.table _ _ h).1 hvalid hfd.symm) (Ne.symm hne)
  · rw [Function.update_of_ne hfd]

/-- The event of the element that is being finalized exists. -/
theorem mem_of_finalizing (howned : Owned cfg s) {element : Element} {elements : List Element}
    {rest : List LoopFrame} (hstack : s.stack = .finalize (element :: elements) :: rest) :
    element.event ∈ s.objects := by
  have hmem : LoopFrame.finalize (element :: elements) ∈ s.stack := by simp [hstack]
  exact howned.frames _ hmem _ (by simp [LoopFrame.mentions])

section Step

variable {ok : LoopLabel → EventLoop → Prop} {e₀ : EventId}

/-- What is known before a step. -/
structure Known (cfg : Config) (tr : List LoopObs) (s : EventLoop) : Prop where
  /-- The references, from which the descriptor of an event is its own. -/
  owned : Owned cfg s
  /-- A handler with a descriptor runs while its event is registered. -/
  running : Running cfg s
  /-- What the trace tells of each event, and in which order. -/
  life : Life tr s
  /-- The table and the interest list agree, and hold what was added and not removed. -/
  registered : Registered cfg tr s
  /-- An event that has not been removed is still held by somebody. -/
  referenced : Referenced s

/-- All of it holds in every state that a run reaches without a crash. -/
theorem known_of_run (h : GuardedRun (loopSystem cfg) ok init tr s) (hc : s.crashed = none) :
    Known cfg tr s :=
  ⟨owned_of_run h hc, running_of_run h hc, life_of_run h hc, registered_of_run h hc,
    referenced_of_run h hc⟩

/-- `CreateEvent`: the handler gets its descriptor and hands it to its event, an `acquire` if
nobody else has it. -/
theorem run_of_created (h : Known cfg tr s) (howned' : Owned cfg s')
    (hfate : ∀ e, Fate cfg s s' [.created e₀] e) (halive : (s.handlers e₀).alive = true)
    (hatt : (s.handlers e₀).attached = false) (hfresh : s.freshHandle cfg e₀ = true)
    (hevents : s'.events = e₀ :: s.events) (hobjects : s'.objects = e₀ :: s.objects)
    (htable : s'.epoll.events = s.epoll.events)
    (hothers : ∀ e, e ≠ e₀ → s'.handlers e = s.handlers e) :
    (Leases.spec cfg.handle).Run (s.leases cfg tr) ([LoopObs.created e₀].filterMap cfg.act)
      (s'.leases cfg (tr ++ [.created e₀])) := by
  have he₀ : e₀ ∈ s'.objects := by simp [hobjects]
  have hretired : ∀ e, (s'.leases cfg (tr ++ [.created e₀])).retired e =
      (s.leases cfg tr).retired e := by
    intro e
    rw [leases_retired, leases_retired, hevents]
    by_cases he : e = e₀
    · simp [he, hatt]
    · simp [hothers e he, he]
  have hphase : ∀ e, e ≠ e₀ → s'.phase cfg (tr ++ [.created e₀]) e = s.phase cfg tr e :=
    fun e he => phase_of_step (hfate e) (by simp) (by rw [hothers e he]) (by rw [htable])
      fun _ => List.not_mem_nil
  cases hvalid : cfg.valid e₀ with
  | false =>
      have hall : ∀ e, s'.phase cfg (tr ++ [.created e₀]) e = s.phase cfg tr e := by
        intro e
        by_cases he : e = e₀
        · rw [he, phase_invalid hvalid, phase_invalid hvalid]
        · exact hphase e he
      have hsame : s'.leases cfg (tr ++ [.created e₀]) = s.leases cfg tr :=
        Leases.ext (funext hall) (funext hretired)
      rw [acts_of_invalid rfl hvalid, hsame]
      exact .refl
  | true =>
      have hentry : s'.epoll.events (cfg.handle e₀) ≠ some e₀ := by
        intro hin
        rw [htable] at hin
        rw [h.owned.attached e₀ (h.owned.table _ _ hin).1] at hatt
        exact absurd hatt (by simp)
      have hnew : ¬Removed (tr ++ [.created e₀]) e₀ := by
        intro hrem
        have hremoved : Removed tr e₀ := (removed_append.mp hrem).resolve_right List.not_mem_nil
        have hadded : Added tr e₀ := h.registered.order e₀ hvalid hremoved
        have htoken : 0 < tokens tr s (.add e₀) := by
          have hpos := List.count_pos_iff.mpr hadded
          unfold tokens
          omega
        rw [h.life.attached_of_tokens htoken] at hatt
        exact absurd hatt (by simp)
      refine run_of_enter (acts_of_valid rfl hvalid) (.acquire ?_ ?_) hphase ?_ hretired
      · refine phase_detached hatt ?_
        unfold Holds
        simpa [hatt] using halive
      · -- no other event has the descriptor
        intro e he
        obtain ⟨-, hmem⟩ := (phase_live_iff h.owned tr).mp he
        unfold freshHandle at hfresh
        rw [hvalid, Bool.not_true, Bool.false_or, List.all_eq_true] at hfresh
        simpa using hfresh e hmem
      · rw [phase_open howned' hvalid he₀ hentry, if_neg hnew]

/-- `EventLoop::Remove` takes the event out of `events_`. It is retired now, and stays active
until `RemoveFinalize`. -/
theorem run_of_closed (h : Known cfg tr s) (hfate : ∀ e, Fate cfg s s' [.closed e₀] e)
    (he₀ : e₀ ∈ s.events) (hevents : s'.events = s.events.erase e₀)
    (htable : s'.epoll.events = s.epoll.events)
    (hattached : ∀ e, (s'.handlers e).attached = (s.handlers e).attached) :
    (Leases.spec cfg.handle).Run (s.leases cfg tr) ([LoopObs.closed e₀].filterMap cfg.act)
      (s'.leases cfg (tr ++ [.closed e₀])) := by
  have hatt : (s.handlers e₀).attached = true := h.life.attached_of_mem he₀
  have hphase : ∀ e, s'.phase cfg (tr ++ [.closed e₀]) e = s.phase cfg tr e := fun e =>
    phase_of_step (hfate e) (by simp) (hattached e) (by rw [htable]) fun _ => List.not_mem_nil
  have hothers : ∀ e, e ≠ e₀ → s'.events.contains e = s.events.contains e := by
    intro e he
    rw [hevents, Bool.eq_iff_iff, List.contains_iff_mem, List.contains_iff_mem,
      List.mem_erase_of_ne he]
  have hgone : e₀ ∉ s'.events := by
    rw [hevents]
    exact h.life.nodup.not_mem_erase
  cases hvalid : cfg.valid e₀ with
  | false =>
      have hsame : s'.leases cfg (tr ++ [.closed e₀]) = s.leases cfg tr := by
        refine Leases.ext (funext hphase) (funext fun e => ?_)
        rw [leases_retired, leases_retired, hattached]
        by_cases he : e = e₀
        · simp [he, hvalid]
        · rw [hothers e he]
      rw [acts_of_invalid rfl hvalid, hsame]
      exact .refl
  | true =>
      have hretire : s'.leases cfg (tr ++ [.closed e₀]) = (s.leases cfg tr).retire e₀ := by
        refine Leases.ext (funext hphase) (funext fun e => ?_)
        rw [Leases.retire_retired, leases_retired, leases_retired, hattached]
        by_cases he : e = e₀
        · simp [he, hvalid, hatt, hgone]
        · rw [if_neg he, hothers e he]
      rw [acts_of_valid rfl hvalid, hretire]
      refine .single (.retire ?_ ?_)
      · by_cases hentry : s.epoll.events (cfg.handle e₀) = some e₀
        · exact .inr ((phase_active_iff h.owned tr hvalid).mpr hentry)
        · refine .inl ?_
          rw [leases_phase, phase_open h.owned hvalid (h.owned.events e₀ he₀) hentry,
            if_neg (not_removed_of_mem h.life he₀)]
      · rw [leases_retired]
        simp [he₀]

/-- `AddFinalize` of an event with a descriptor: it was held and becomes active, and the kernel
has found nobody else registered under the number. -/
theorem run_of_added (h : Known cfg tr s) (howned' : Owned cfg s') {interest : EPollEvents}
    (hfate : ∀ e, Fate cfg s s' [.finalize (.add e₀), .ctlAdd e₀ interest] e)
    (hvalid : cfg.valid e₀ = true) (hfree : s.epoll.interest (cfg.handle e₀) = none)
    {elements : List Element} {rest : List LoopFrame}
    (hstack : s.stack = .finalize (.add e₀ :: elements) :: rest)
    (hattached : ∀ e, (s'.handlers e).attached = (s.handlers e).attached)
    (hevents : s'.events = s.events)
    (htable : s'.epoll.events = Function.update s.epoll.events (cfg.handle e₀) (some e₀)) :
    (Leases.spec cfg.handle).Run (s.leases cfg tr)
      ([LoopObs.finalize (.add e₀), .ctlAdd e₀ interest].filterMap cfg.act)
      (s'.leases cfg (tr ++ [.finalize (.add e₀), .ctlAdd e₀ interest])) := by
  have he₀ : e₀ ∈ s.objects := mem_of_finalizing h.owned hstack
  have hentry : s.epoll.events (cfg.handle e₀) ≠ some e₀ := by
    rw [← h.registered.interest, hfree]
    simp
  have hnew : ¬Removed tr e₀ := fun hrem =>
    notMem_finalized h.life.tokens_add_le hstack (h.registered.order e₀ hvalid hrem)
  have hact : [LoopObs.finalize (.add e₀), .ctlAdd e₀ interest].filterMap cfg.act =
      [.activate e₀] := acts_of_valid rfl hvalid
  refine run_of_enter hact (.activate ?_) ?_ ?_ (retired_of_same hattached hevents tr _)
  · rw [leases_phase, phase_open h.owned hvalid he₀ hentry, if_neg hnew]
  · intro e hne
    refine phase_of_step (hfate e) (by simp) (hattached e) ?_ fun _ => by simp [finalized]
    rw [htable]
    exact table_of_ne h.owned hvalid he₀ (.inl rfl) hne
  · rw [phase_active_iff howned' _ hvalid, htable, Function.update_self]

/-- `RemoveFinalize` of an event with a descriptor: it was active, and was retired by the call of
`Remove` that queued the element. -/
theorem run_of_removed (h : Known cfg tr s) (howned' : Owned cfg s')
    (hfate : ∀ e, Fate cfg s s' [.finalize (.remove e₀), .ctlDel e₀] e)
    (hvalid : cfg.valid e₀ = true) (hsome : s.epoll.events (cfg.handle e₀) ≠ none)
    {elements : List Element} {rest : List LoopFrame}
    (hstack : s.stack = .finalize (.remove e₀ :: elements) :: rest)
    (hattached : ∀ e, (s'.handlers e).attached = (s.handlers e).attached)
    (hevents : s'.events = s.events) (hobjects : s'.objects = s.objects)
    (htable : s'.epoll.events = Function.update s.epoll.events (cfg.handle e₀) none) :
    (Leases.spec cfg.handle).Run (s.leases cfg tr)
      ([LoopObs.finalize (.remove e₀), .ctlDel e₀].filterMap cfg.act)
      (s'.leases cfg (tr ++ [.finalize (.remove e₀), .ctlDel e₀])) := by
  have he₀ : e₀ ∈ s.objects := mem_of_finalizing h.owned hstack
  have hentry : s.epoll.events (cfg.handle e₀) = some e₀ :=
    entry_of_ne_none h.owned hvalid he₀ hsome
  have hclosed : e₀ ∉ s.events := by
    refine (h.life.closed_of_tokens ?_).2
    have hdraining : 0 < (draining s.stack).count (.remove e₀) :=
      List.count_pos_iff.mpr (by rw [hstack]; simp [LoopFrame.elements])
    unfold tokens
    omega
  have hact : [LoopObs.finalize (.remove e₀), .ctlDel e₀].filterMap cfg.act =
      [.deactivate e₀] := acts_of_valid rfl hvalid
  refine run_of_enter hact
    (.deactivate ((phase_active_iff h.owned tr hvalid).mpr hentry) ?_) ?_ ?_
    (retired_of_same hattached hevents tr _)
  · rw [leases_retired]
    simp [hvalid, h.owned.attached e₀ he₀, hclosed]
  · intro e hne
    refine phase_of_step (hfate e) (by simp) (hattached e) ?_ fun _ => by simp [finalized, hne]
    rw [htable]
    exact table_of_ne h.owned hvalid he₀ (.inr rfl) hne
  · have hout : s'.epoll.events (cfg.handle e₀) ≠ some e₀ := by
      rw [htable, Function.update_self]
      simp
    rw [phase_open howned' hvalid (hobjects ▸ he₀) hout]
    exact if_pos (by simp [Removed, finalized])

/-- An event that nobody refers to any more has been through `RemoveFinalize`. -/
theorem removed_of_unreferenced (h : Known cfg tr s) (he : e ∈ s.objects)
    (hun : s.unreferenced cfg e = true) : Removed tr e := by
  obtain ⟨-, hclosed, -, -, hpending, hframes, hcalls⟩ := unreferenced_spec hun
  have hatt : (s.handlers e).attached = true := h.owned.attached e he
  cases h.life.closing e with
  | «open» _ hopen _ _ _ _ => exact absurd (hopen.mpr hatt) hclosed
  | erasing a _ _ hmem _ _ _ => exact absurd hmem hclosed
  | pushing a _ _ _ _ honly _ =>
      exact absurd (hcalls a _ ((honly a).mpr rfl)) (by simp [Progress.mentions, Element.event])
  | queued _ _ _ _ _ htokens =>
      have hnotPending : ∀ q, (s.epoll.eventsPending q).count (.remove e) = 0 := fun q =>
        List.count_eq_zero.mpr fun hmem => hpending q _ hmem rfl
      have hnotDraining : (draining s.stack).count (.remove e) = 0 := by
        refine List.count_eq_zero.mpr fun hmem => ?_
        obtain ⟨f, hf, hel⟩ := List.mem_flatMap.mp hmem
        have hno := hframes f hf
        cases f with
        | finalize elements =>
            simp only [LoopFrame.mentions, List.any_eq_false] at hno
            exact hno _ hel (by simp [Element.event])
        | _ => exact absurd hel (by simp [LoopFrame.elements])
      unfold tokens queuedCount at htokens
      rw [hnotPending, hnotPending, hnotPending, hnotDraining] at htokens
      exact List.count_pos_iff.mp (by omega)

/-- The destructor of a handler that was never attached, and the destructor of an event. The
first has had no event, so it is idle; the second has been removed. -/
theorem run_of_disposed (hfate : ∀ e, Fate cfg s s' [.closeHandle e₀] e)
    (hvalid : cfg.valid e₀ = true)
    (hbefore : s.phase cfg tr e₀ = .idle ∨ s.phase cfg tr e₀ = .released)
    (hattached : ∀ e, (s'.handlers e).attached = (s.handlers e).attached)
    (hevents : s'.events = s.events) (htable : s'.epoll.events = s.epoll.events) :
    (Leases.spec cfg.handle).Run (s.leases cfg tr) ([LoopObs.closeHandle e₀].filterMap cfg.act)
      (s'.leases cfg (tr ++ [.closeHandle e₀])) := by
  refine run_of_enter (acts_of_valid rfl hvalid) (.dispose hbefore) ?_ ?_
    (retired_of_same hattached hevents tr _)
  · intro e hne
    exact phase_of_step (hfate e) (by simpa using hne) (hattached e) (by rw [htable])
      fun _ => List.not_mem_nil
  · cases hfate e₀ with
    | kept _ hno => exact absurd List.mem_cons_self hno
    | closed _ hgone _ =>
        unfold phase
        rw [if_neg (by simp [hvalid]), if_pos hgone]

theorem implements_closeHandle (h : Known cfg tr s) (hfate : ∀ e, Fate cfg s s' o e)
    (hs : step cfg l s = some (s', o)) (hc : s'.crashed = none) (hmem : .closeHandle e₀ ∈ o) :
    (Leases.spec cfg.handle).Run (s.leases cfg tr) (o.filterMap cfg.act)
      (s'.leases cfg (tr ++ o)) := by
  have hmove : Move cfg s l s' o := move_of_step hs hc
  have hvalid : cfg.valid e₀ = true := by
    cases shown_of_step hs hmem rfl with
    | handler _ _ hvalid => exact hvalid
    | event _ _ hvalid => exact hvalid
  obtain rfl : o = [.closeHandle e₀] := by
    cases hfate e₀ with
    | kept _ hno => exact absurd hmem hno
    | closed _ _ ho => rwa [hvalid] at ho
  cases shown_of_step hs hmem rfl with
  | handler halive hatt _ =>
      cases hmove with
      | call _ _ hquiet _ =>
          refine run_of_disposed hfate hvalid (.inl ?_) hquiet.attached hquiet.events
            (by rw [hquiet.epoll])
          refine phase_detached hatt ?_
          unfold Holds
          simpa [hatt] using halive
  | event he hun _ =>
      obtain ⟨-, -, -, hentry, -⟩ := unreferenced_spec hun
      cases hmove with
      | destroyed _ _ hepoll =>
          refine run_of_disposed hfate hvalid (.inr ?_) (fun _ => rfl) rfl ?_
          · rw [phase_open h.owned hvalid he hentry, if_pos (removed_of_unreferenced h he hun)]
          · rcases hepoll with ⟨-, rfl, -⟩ | ⟨-, rfl, -⟩ <;> rfl

/-- What a call of the public interface tells about a descriptor is an effect. -/
theorem effect_of_request {r : Request} (h : s.request cfg a r = some (s', o)) {x : LoopObs}
    (hx : x ∈ o) (hact : x.act ≠ none) : effect x = true := by
  cases requested h with
  | modifyOutside _ _ _ =>
      rw [List.mem_singleton.mp hx] at hact
      exact absurd rfl hact
  | modify _ _ _ _ =>
      rw [List.mem_singleton.mp hx]
      rfl
  | modifyThrows _ _ _ | modifyFails _ _ _ =>
      rcases List.mem_cons.mp hx with rfl | hx
      · rfl
      · rw [List.mem_singleton.mp hx] at hact
        exact absurd rfl hact
  | destroyed _ _ _ =>
      split at hx
      · rw [List.mem_singleton.mp hx]
        rfl
      · exact absurd hx List.not_mem_nil
  | _ => exact absurd hx List.not_mem_nil

/-- The finalize functions. -/
theorem implements_finalize (h : Known cfg tr s) {element : Element} {elements : List Element}
    {rest frames : List LoopFrame} {n : LoopNext}
    (hstack : s.stack = .finalize (element :: elements) :: rest) (hfin : Finalizes cfg s element n)
    (hloop : s' = { n.loop with stack := frames }) (howned' : Owned cfg s')
    (hfate : ∀ e, Fate cfg s s' n.obs e) :
    (Leases.spec cfg.handle).Run (s.leases cfg tr) (n.obs.filterMap cfg.act)
      (s'.leases cfg (tr ++ n.obs)) := by
  subst hloop
  cases hfin with
  | add hvalid hfree =>
      exact run_of_added h howned' hfate hvalid hfree hstack (fun _ => rfl) rfl rfl
  | remove hvalid hsome =>
      exact run_of_removed h howned' hfate hvalid hsome hstack (fun _ => rfl) rfl rfl rfl
  | removeNoHandle hinvalid =>
      refine run_of_silent hfate rfl (fun _ => rfl) rfl rfl fun e hvalid hmem => ?_
      obtain rfl : e = _ := by simpa [finalized] using hmem
      rw [hvalid] at hinvalid
      exact absurd hinvalid (by simp)
  | addNoHandle _ | ignored _ | ready _ =>
      exact run_of_silent hfate rfl (fun _ => rfl) rfl rfl fun e _ => by simp [finalized]

/-- **One step of the loop** is a run of the leases that shows the same. The descriptors that are
closed come first, then the four transitions that move an event, and what is left is quiet. -/
theorem implements_step (h : Known cfg tr s) (howned' : Owned cfg s')
    (hs : step cfg l s = some (s', o)) (hc : s'.crashed = none) :
    (Leases.spec cfg.handle).Run (s.leases cfg tr) (o.filterMap cfg.act)
      (s'.leases cfg (tr ++ o)) := by
  have hfate : ∀ e, Fate cfg s s' o e := fate_of_step h.owned h.referenced hs hc
  by_cases hclose : ∃ e, .closeHandle e ∈ o
  · obtain ⟨e₀, hmem⟩ := hclose
    exact implements_closeHandle h hfate hs hc hmem
  · have hno : ∀ e, .closeHandle e ∉ o := fun e hmem => hclose ⟨e, hmem⟩
    have huse : ∀ x ∈ o, effect x = true → ∀ a, cfg.act x = some a →
        ∃ e, a = .use e ∧ s.phase cfg tr e = .active := fun x hx heffect a ha =>
      used_of_effect h.owned h.running h.registered.interest hs hx heffect
        (fun e heq => hno e (heq ▸ hx)) ha tr
    cases move_of_step hs hc with
    | call _ hreq hquiet hminor =>
        refine run_of_quiet hfate hno hquiet.attached hquiet.events (by rw [hquiet.epoll])
          (fun e _ => by simp [finalized_minor hminor]) fun x hx a ha => huse x hx ?_ a ha
        exact effect_of_request hreq hx (by simp [(act_spec ha).1])
    | light _ _ hlight hrun hquiet hminor _ _ =>
        exact run_of_quiet hfate hno hquiet.attached hquiet.events
          (by dsimp only; rw [hquiet.epoll]) (fun e _ => by simp [finalized_minor hminor])
          fun x hx a ha => huse x hx (effect_of_light hlight hrun hx) a ha
    | created hp hatt hfresh =>
        refine run_of_created h howned' hfate
          (h.referenced.calls _ _ hp _ (by simp [Progress.usesHandler])) hatt hfresh rfl rfl rfl ?_
        intro e he
        simp [setCall, he]
    | erased _ hmem => exact run_of_closed h hfate hmem rfl rfl fun _ => rfl
    | finalized hstack _ hrun hthrew =>
        exact implements_finalize h hstack (finalizes hrun hthrew) rfl howned' hfate
    | @pushed a element _ _ =>
        refine run_of_silent hfate rfl (attached_push s a element) (push_events s a element) ?_
          fun _ _ => List.not_mem_nil
        rcases push_spec s a element with ⟨-, heq⟩ | ⟨-, heq⟩
        · rw [heq]
          rfl
        · rw [heq, complete_epoll]
    | signalled _ =>
        refine run_of_silent hfate rfl (fun _ => attached_complete ..) (complete_events ..) ?_
          fun _ _ => List.not_mem_nil
        rw [complete_epoll]
        exact EPoll.wakeup_events s.epoll
    | woken _ =>
        exact run_of_silent hfate rfl (fun _ => rfl) rfl (EPoll.wakeup_events s.epoll)
          fun _ _ => List.not_mem_nil
    | edge _ =>
        exact run_of_silent hfate rfl (fun _ => rfl) rfl (EPoll.queueItem_events ..)
          fun _ _ => List.not_mem_nil
    | closeBegins _ _ =>
        refine run_of_silent hfate rfl (fun e => ?_) rfl rfl fun _ _ => List.not_mem_nil
        simp only [setCall, handlers_setHandler]
        split <;> simp_all
    | expire =>
        refine run_of_silent hfate rfl (fun e => ?_) rfl rfl fun _ _ => List.not_mem_nil
        rw [handlers_setHandler]
        split <;> simp_all
    | destroyed _ _ hepoll =>
        rcases hepoll with ⟨-, rfl, rfl⟩ | ⟨-, rfl, rfl⟩
        · exact run_of_silent hfate rfl (fun _ => rfl) rfl rfl fun _ _ => List.not_mem_nil
        · exact absurd List.mem_cons_self (hno _)
    | _ =>
        exact run_of_silent hfate rfl (fun _ => rfl) rfl rfl fun _ _ => List.not_mem_nil

end Step

/-! ### Whole runs -/

theorem leases_init (cfg : Config) : init.leases cfg [] = Leases.init := by
  refine Leases.ext (funext fun e => ?_) (funext fun e => ?_)
  · rw [leases_phase]
    exact phase_detached rfl (by simp [Holds, init])
  · rw [leases_retired]
    simp [init, Leases.init]

/-- Every run of the loop is one of the leases. -/
theorem leases_of_run {ok : LoopLabel → EventLoop → Prop}
    (h : GuardedRun (loopSystem cfg) ok init tr s) (hc : s.crashed = none) :
    (Leases.spec cfg.handle).Run Leases.init (tr.filterMap cfg.act) (s.leases cfg tr) := by
  rw [← leases_init cfg]
  refine h.implements (fun s => s.crashed = none) cfg.act (fun tr s => s.leases cfg tr) ?_ ?_ hc
  · intro l s s' o hs _
    exact not_crashed_of_step hs
  · intro tr s l s' o hrun hc hok hs hc'
    exact implements_step (known_of_run hrun hc) (owned_of_run (hrun.step hok hs) hc') hs hc'

/-- **The loop implements the leases**, and its tables are those of the active events: what
`EPoll::Process` looks up and what the kernel reports is what the leases allow. -/
theorem implements_leases (cfg : Config) {tr : List LoopObs} {s : EventLoop}
    (h : Run (loopSystem cfg) init tr s) (hc : s.crashed = none) :
    ∃ r : Leases EventId, (Leases.spec cfg.handle).Run Leases.init (tr.filterMap cfg.act) r ∧
      (∀ fd e, s.epoll.events fd = some e ↔
        cfg.valid e = true ∧ cfg.handle e = fd ∧ r.phase e = .active) ∧
      (∀ fd e, s.epoll.interest fd = some e ↔
        cfg.valid e = true ∧ cfg.handle e = fd ∧ r.phase e = .active) ∧
      ∀ e, (r.phase e).live = true ↔ cfg.valid e = true ∧ e ∈ s.objects := by
  have howned : Owned cfg s := owned_of_run h hc
  have htable : ∀ fd e, s.epoll.events fd = some e ↔
      cfg.valid e = true ∧ cfg.handle e = fd ∧ (s.leases cfg tr).phase e = .active := by
    intro fd e
    constructor
    · intro hin
      obtain ⟨-, hfd, hvalid⟩ := howned.table fd e hin
      refine ⟨hvalid, hfd, (phase_active_iff howned tr hvalid).mpr ?_⟩
      rw [hfd]
      exact hin
    · intro hactive
      obtain ⟨hvalid, hfd, hp⟩ := hactive
      rw [← hfd]
      exact (phase_active_iff howned tr hvalid).mp hp
  refine ⟨s.leases cfg tr, leases_of_run h hc, htable, ?_, fun e => phase_live_iff howned tr⟩
  rw [(registered_of_run h hc).interest]
  exact htable

theorem implements_leases_handedOutAgain :
    ∃ r : Leases EventId, (Leases.spec sameDescriptor.handle).Run Leases.init
        ((after sameDescriptor handedOutAgain).2.filterMap sameDescriptor.act) r ∧
      (r.phase 1).live = true := by
  obtain ⟨r, hrun, -, -, hlive⟩ :=
    implements_leases sameDescriptor (run_after handedOutAgain rfl) rfl
  exact ⟨r, hrun, (hlive 1).mpr ⟨rfl, by decide⟩⟩

end EventLoop

end Libael
