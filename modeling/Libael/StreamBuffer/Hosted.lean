import Libael.EventLoop.Attended
import Libael.StreamBuffer.Chain

/-!
# Libael.StreamBuffer.Hosted

A stream buffer **on an event loop**: its code is one of the handlers of
`Libael.EventLoop.Hosted`. The loop calls `HandleEvents`, which does not look at the events it
is given; `Write` and `Close` call `ReadyEvent`, `DoConnect` calls `ModifyEvent`, and the end of
the stream calls `CloseEvent`.
-/

namespace Libael

open Lts

/-- The events that `ReadyEvent` is called with. -/
def ReadyKind.events : ReadyKind → Events
  | .write => Events.Write
  | .close => Events.Close

/-- `StreamBufferFilter::GetEvents` -/
def Filter.getEvents (f : Filter) : Events :=
  if f.connected || decide (0 < f.order) then Events.Read ||| Events.Write ||| Events.Stream
  else Events.Write ||| Events.Stream

/-- `StreamBuffer::GetEvents` -/
def StreamBuffer.getEvents (b : StreamBuffer) : Events := b.back.getEvents

namespace BufferState

variable {κ ρ : Type}

/-- Who takes a step of a stream buffer; `news` tells which of the steps of its surroundings the
kernel has something to report after. -/
def actor (news : ρ → Bool) : BufferLabel ρ → Actor
  | .handleEvents _ => .entry none
  | .run | .answer _ | .ret => .body
  | .write a _ | .push a | .notify a | .close a => .method a
  | .addFilter _ => .surroundings false
  | .tick r => .surroundings (news r)

/-- What a stream buffer asks of its event. -/
def asks : Obs ρ → Option EventCall
  | .readyEvent k => some (.readyEvent k.events)
  | .modifyEvent => some .modifyEvent
  | .closeEvent => some .closeEvent
  | _ => none

end BufferState

/-- The code of a stream buffer. -/
def bufferCode {κ ρ : Type} (env : FilterEnv κ ρ) (news : ρ → Bool) (reports : κ → EPollEvents) :
    HandlerCode (BufferState κ) (BufferLabel ρ) (Obs ρ) where
  step := BufferState.step env
  actor := BufferState.actor news
  running s := !s.stack.isEmpty
  free s a := s.mayCall a
  crashed s := s.crashed.isSome
  asks := BufferState.asks
  getEvents s := s.buffer.getEvents
  reports s := reports s.env

section

variable {κ ρ : Type} {env : FilterEnv κ ρ} {news : ρ → Bool} {reports : κ → EPollEvents}
  {s s' : BufferState κ} {l : BufferLabel ρ} {o tr : List (Obs ρ)}

namespace BufferState

/-! ### Hosting -/

/-- A stream buffer gets to run with a call of `HandleEvents`. -/
theorem buffer_starts : Hosted.Starts (bufferCode env news reports) := by
  intro l s s' o hs hrunning
  obtain ⟨-, hmove⟩ := move_of_step hs
  have hrunning : s'.stack ≠ [] := by simpa [bufferCode] using hrunning
  rcases Classical.em (s.stack = []) with hnil | hne
  · refine .inr ?_
    cases hmove with
    | enter _ _ => exact ⟨none, rfl⟩
    | run hstack _ | answer hstack _ | ret hstack => exact absurd (hstack.symm.trans hnil) (by simp)
    | added _ _ => exact absurd hnil hrunning
    | aside ha => exact absurd (ha.stack.trans hnil) hrunning
  · exact .inl (by simpa [bufferCode] using hne)

/-- The stream buffer of a hosted run is a run of a stream buffer. -/
theorem bufferRun {cfg : Config} {e : EventId} {ok : HostedLabel (BufferLabel ρ) →
    Hosted (BufferState κ) → Prop} {ok' : BufferLabel ρ → BufferState κ → Prop}
    (hok : ∀ l l' s, Hosted.Takes l l' → ok l s → ok' l' s.handler) {handler : BufferState κ}
    {tr : List (LoopObs ⊕ Obs ρ)} {s : Hosted (BufferState κ)}
    (h : GuardedRun (hostedSystem cfg (bufferCode env news reports) e) ok
      (Hosted.init handler) tr s) :
    GuardedRun (bufferSystem env) ok' handler (handlerTrace tr) s.handler :=
  Hosted.handlerRun hok h

end BufferState

end

/-! ### What a stream buffer is interested in -/

namespace StreamBuffer

/-- `GetEvents` asks to read once the last filter is connected, or is not the first one. -/
theorem getEvents_read (b : StreamBuffer) :
    b.getEvents.has Events.Read = (b.back.connected || decide (0 < b.back.order)) := by
  unfold getEvents Filter.getEvents
  cases b.back.connected || decide (0 < b.back.order) <;> decide

/-- With `Stream` in it, every answer of `GetEvents` is taken for `Close`. -/
theorem mask_getEvents (b : StreamBuffer) : getEPollEventsFromEvents b.getEvents =
    EPollEvents.EPOLLIN ||| EPollEvents.EPOLLOUT ||| EPollEvents.EPOLLRDHUP := by
  unfold getEvents Filter.getEvents
  split <;> decide

/-- In other words: the filter at the bottom is connected, or another one is stacked on it. -/
theorem Chain.getEvents_read {b : StreamBuffer} (hc : Chain b) (hne : b.streamFilters ≠ [])
    (hlength : b.streamFilters.length ≤ 2 ^ 32) : b.getEvents.has Events.Read = true ↔
      (b.filter 0).connected = true ∨ 1 < b.streamFilters.length := by
  have hpos := List.length_pos_iff.mpr hne
  have horder := (hc.linked b.backIndex (by simp only [backIndex]; omega)).order
  rw [b.getEvents_read, Bool.or_eq_true, decide_eq_true_eq]
  rcases Nat.lt_or_ge 1 b.streamFilters.length with hmany | hone
  · have hstacked : 0 < b.back.order := by
      unfold back
      rw [horder, UInt32.lt_iff_toNat_lt, UInt32.toNat_ofNat', Nat.mod_eq_of_lt
        (by simp only [backIndex]; omega)]
      show 0 < b.backIndex
      simp only [backIndex]
      omega
    exact ⟨fun _ => .inr hmany, fun _ => .inr hstacked⟩
  · have hback : b.backIndex = 0 := by simp only [backIndex]; omega
    have hzero : b.back.order = 0 := by
      unfold back
      rw [horder, hback]
      rfl
    rw [hzero, back, hback]
    exact ⟨fun h => h.imp_right fun hno => absurd hno (by decide),
      fun h => .inl (h.resolve_right (by omega))⟩

end StreamBuffer

/-- One handler, a stream buffer. -/
def oneBuffer : Config := { handler := fun _ => .user 3, intervalOccurrencesLimit := 10 }

end Libael
