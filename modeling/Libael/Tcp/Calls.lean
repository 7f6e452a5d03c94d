import Libael.StreamBuffer.Moves
import Libael.Tcp.Integrity

/-!
# Libael.Tcp.Calls

One `HandleEvents` call of a stream buffer over the TCP filter, from its first step to
its return, and the part its two ways of sending share: the loops of
`StreamBufferFilter::Write` and of `StreamBufferFilter::Close` end with nothing left to
send, with the filter closed, or **blocked** on the head of `pending_out_`.
-/

namespace Libael

open Lts

/-- A part of one `HandleEvents` call of the TCP buffer in `s₁`: everything that happens
from its first step on, as long as the call has not returned. -/
abbrev TcpCall (pendingConnect alive : Bool) (s₁ : BufferState Socket) :
    List (Obs SysRet) → BufferState Socket → Prop :=
  Segment (bufferSystem (tcpEnv pendingConnect)) TcpOnly (fun s => s.stack ≠ [])
    (.handleEvents alive) s₁

/-- A call from a schedule that runs it up to its return. -/
theorem TcpCall.of_exec {pendingConnect alive : Bool} {s₁ s s' : BufferState Socket}
    {o c : List (Obs SysRet)} (ls : List (BufferLabel SysRet))
    (hfirst : BufferState.step (tcpEnv pendingConnect) (.handleEvents alive) s₁ = some (s, o))
    (h : exec (bufferSystem (tcpEnv pendingConnect))
      (fun l s => !s.stack.isEmpty && tcpOnly l s) ls s = some (s', c)) :
    TcpCall pendingConnect alive s₁ (o ++ c) s' := by
  have hcheck : ∀ l (s : BufferState Socket), (!s.stack.isEmpty && tcpOnly l s) = true →
      s.stack ≠ [] ∧ TcpOnly l s := by
    intro l s hl
    obtain ⟨hbusy, hok⟩ := Bool.and_eq_true_iff.mp hl
    exact ⟨by simpa using hbusy, tcpOnly_iff.mp hok⟩
  exact Segment.extend (.start (fun addr hl => by simp at hl) hfirst) (.of_exec hcheck h)

/-- The observation of a call of `Out`. -/
def Obs.isOut {ρ : Type} : Obs ρ → Bool
  | .out _ _ _ _ => true
  | _ => false

theorem Obs.isOut_of_aside {ρ : Type} {x : Obs ρ} (h : x.aside = true) : x.isOut = false := by
  cases x <;> simp_all [Obs.aside, Obs.isOut]

theorem Obs.isOut_of_not_isData {ρ : Type} {x : Obs ρ} (h : x.isData = false) :
    x.isOut = false := by
  cases x <;> simp_all [Obs.isData, Obs.isOut]

namespace BufferState

/-- The last `send` of `o` returned `EAGAIN` or was partial, and what it left of its view
is still the head of `pending_out_`. -/
def LastBlocked (o : List (Obs SysRet)) (s : BufferState Socket) : Prop :=
  ∃ o₁ d ret d' o₂, o = o₁ ++ .out 0 d (.send ret) (.ok (⟨false⟩, some d')) :: o₂ ∧
    (∀ x ∈ o₂, x.isOut = false) ∧
    (ret = .error .EAGAIN ∨ ∃ m : Nat, ret = .ok m ∧ (m : Int) < d.dataLength) ∧
    s.tcp.pendingOut.head? = some d'

variable {pendingConnect : Bool} {l : BufferLabel SysRet} {s s' : BufferState Socket}
  {tr o c : List (Obs SysRet)} {fr : Frame} {rest : List Frame}

theorem LastBlocked.append (h : LastBlocked c s) (ho : ∀ x ∈ o, x.isOut = false)
    (hp : s'.tcp.pendingOut = s.tcp.pendingOut) : LastBlocked (c ++ o) s' := by
  obtain ⟨o₁, d, ret, d', o₂, rfl, hno, hret, hhead⟩ := h
  refine ⟨o₁, d, ret, d', o₂ ++ o, by simp, ?_, hret, by rw [hp]; exact hhead⟩
  intro x hx
  exact (List.mem_append.mp hx).elim (hno x) (ho x)

theorem LastBlocked.ne_nil (h : LastBlocked c s) : s.tcp.pendingOut ≠ [] := by
  obtain ⟨o₁, d, ret, d', o₂, -, -, -, hhead⟩ := h
  intro hnil
  simp [hnil] at hhead

theorem tcp_of_filters (h : s'.buffer.streamFilters = s.buffer.streamFilters) : s'.tcp = s.tcp := by
  simp only [tcp, StreamBuffer.filter, h]

theorem Aside.tcp (h : Aside s s' o) : s'.tcp = s.tcp := tcp_of_filters h.filters

theorem Aside.isOut (h : Aside s s' o) : ∀ x ∈ o, x.isOut = false :=
  fun x hx => Obs.isOut_of_aside (h.obs x hx)

theorem back_eq_tcp (h : s.buffer.streamFilters.length = 1) : s.buffer.back = s.tcp := by
  simp [StreamBuffer.back, BufferState.tcp, StreamBuffer.backIndex, h]

theorem filters_eq (h : s.buffer.streamFilters.length = 1) : s.buffer.streamFilters = [s.tcp] := by
  obtain ⟨f, hf⟩ := List.length_eq_one_iff.mp h
  simp [BufferState.tcp, StreamBuffer.filter, hf]

theorem isWriteClosed_eq (h : s.buffer.streamFilters.length = 1) :
    s.buffer.isWriteClosed = s.tcp.writeClosed := by
  simp [StreamBuffer.isWriteClosed, filters_eq h]

theorem isReadClosed_eq (h : s.buffer.streamFilters.length = 1) :
    s.buffer.isReadClosed = s.tcp.readClosed := by
  simp [StreamBuffer.isReadClosed, filters_eq h]

/-- What is left of an `Out` loop when it is done. -/
def afterLoop : Frame → List Frame
  | .flush i => [.flushed i]
  | _ => []

/-- One step of a call that is in an `Out` loop. -/
theorem outLoop_step (h : step (tcpEnv pendingConnect) l s = some (s', o)) (hi : StreamInv tr s)
    (hstack : s.stack = fr :: rest) (hfr : fr = .write 0 ∨ fr = .flush 0) :
    Aside s s' o ∨ s'.crashed ≠ none ∨ s'.stack = fr :: rest ∨
      (s'.stack = afterLoop fr ++ rest ∧
        (s'.tcp.pendingOut = [] ∨ s'.tcp.writeClosed = true ∨ LastBlocked (c ++ o) s')) := by
  obtain ⟨hcrashed, hmove⟩ := move_of_step h
  cases hmove with
  | enter hnil => rw [hnil] at hstack; exact absurd hstack (by simp)
  | ret hcb =>
      rw [hcb] at hstack
      rcases hfr with rfl | rfl <;> simp at hstack
  | added hcb =>
      obtain ⟨c, rfl⟩ := callback_of_added hcb hstack
      rcases hfr with hc | hc <;> exact absurd hc (by simp)
  | aside ha => exact .inl ha
  | @run f rest' n hf hrun =>
      obtain ⟨rfl, rfl⟩ : f = fr ∧ rest' = rest := by simpa [hf] using hstack
      -- the loop ends because there is nothing left
      have hdone : s.tcp.pendingOut = [] ∧ n = { buffer := s.buffer, frames := afterLoop f } := by
        rcases hfr with rfl | rfl <;> simp only [StreamBuffer.runFrame] at hrun <;>
          split at hrun <;> simp_all [afterLoop, tcp]
      obtain ⟨hnil, rfl⟩ := hdone
      exact .inr (.inr (.inr ⟨by simp [resume], .inl (by simpa [tcp] using hnil)⟩))
  | @answer f rest' r n k hf hans =>
      obtain ⟨rfl, rfl⟩ : f = fr ∧ rest' = rest := by simpa [hf] using hstack
      obtain ⟨again, hagain, hcall⟩ : ∃ again, again = [f] ∧
          s.buffer.callOut (tcpEnv pendingConnect) 0 r s.env again (afterLoop f) = some (n, k) := by
        rcases hfr with rfl | rfl
        · exact ⟨_, rfl, hans⟩
        · exact ⟨_, rfl, hans⟩
      obtain ⟨d, ds, ret, hpend, hobs, hres⟩ := callOut_tcp hi.length hi.pendingOut hcall
      have htcp :
          ({ s.resume rest' n with env := k } : BufferState Socket).tcp = n.buffer.filter 0 := by
        simp [tcp]
      rcases hres with ⟨e, hthrew⟩ | ⟨hthrew, hframes, hclosed, -⟩ |
        ⟨hthrew, hframes, d', hpend', hout, hret⟩ | ⟨hthrew, hframes, -⟩
      · exact .inr (.inl (by simp [resume_of_threw hthrew]))
      · refine .inr (.inr (.inr ⟨?_, .inr (.inl (by rw [htcp]; exact hclosed))⟩))
        simp [resume_of_threw_none hthrew, hframes]
      · refine .inr (.inr (.inr ⟨by simp [resume_of_threw_none hthrew, hframes], .inr (.inr ?_)⟩))
        refine ⟨c, d, ret, d', [], ?_, by simp, hret, by rw [htcp, hpend']; rfl⟩
        rw [hobs, hout]
      · exact .inr (.inr (.inl (by simp [resume_of_threw_none hthrew, hframes, hagain])))

end BufferState

end Libael
