import Libael.Lts.Pipe
import Libael.StreamBuffer.Frames
import Libael.Tcp.Filter

/-!
# Libael.Tcp.Stream

A stream buffer over the TCP filter **is a pipe** (`Libael.Lts.Pipe`): the bytes
`send` has accepted came out of it, `pending_out_` followed by `pending_writes_` is
what it holds, the views `Write` has queued went in, and it is broken by the first
failure of `send` that is not `EAGAIN`.

The data flow of a step is said once, in `DataStep`: a step queues a view, moves
`pending_writes_` behind `pending_out_`, calls `send` on the head of `pending_out_`,
or does nothing to either list.
-/

namespace Libael

open Lts

/-! ### `Out` -/

namespace TCPStreamBufferFilter

/-- What `Out` does with a non-empty view, by what `send` returned: it keeps the
view, fails, keeps the unsent suffix, or consumes the view. -/
theorem out_cases {d : DataView} {ret : Except Errno Nat} (hpos : 0 < d.dataLength)
    (hret : SendContract d.dataLength ret) :
    (ret = .error .EAGAIN ∧ out ret d = .ok (⟨false⟩, some d)) ∨
    (∃ e, ret = .error e ∧ e ≠ .EAGAIN ∧
      ((∃ ex, out ret d = .error ex) ∨ out ret d = .ok (⟨true⟩, some d))) ∨
    (∃ n suffix, ret = .ok n ∧ 0 < n ∧ (n : Int) < d.dataLength ∧
      out ret d = .ok (⟨false⟩, some suffix) ∧ suffix.bytes = d.bytes.drop n ∧
      suffix.dataLength = d.dataLength - n) ∨
    (∃ n, ret = .ok n ∧ (n : Int) = d.dataLength ∧ out ret d = .ok (⟨false⟩, none)) := by
  cases ret with
  | error e =>
      by_cases he : e = .EAGAIN
      · exact .inl ⟨by rw [he], by rw [he]; rfl⟩
      · refine .inr (.inl ⟨e, rfl, he, ?_⟩)
        cases e <;> simp_all [out]
  | ok n =>
      obtain ⟨hle, hn⟩ := hret
      have hn0 := hn hpos
      by_cases hlt : (n : Int) < d.dataLength
      · obtain ⟨suffix, saved, hs, hsave, hbytes, hlen⟩ := DataView.slice_save hlt
        refine .inr (.inr (.inl ⟨n, saved, rfl, hn0, hlt, ?_, hbytes, hlen⟩))
        simp only [out, if_neg (show n ≠ 0 by omega), if_pos hlt, hs, hsave, bind, Except.bind,
          pure, Except.pure]
      · refine .inr (.inr (.inr ⟨n, rfl, by omega, ?_⟩))
        simp only [out, if_neg (show n ≠ 0 by omega), if_neg hlt]

end TCPStreamBufferFilter

/-! ### What the trace says about the stream -/

namespace Obs

/-- The bytes the kernel accepted in this observation. -/
def sentBytes : Obs SysRet → List UInt8
  | .out _ d (.send (.ok n)) _ => d.bytes.take n
  | _ => []

/-- The payload of the `Write` call that queued its view in this observation. -/
def acceptedBytes {ρ : Type} : Obs ρ → List UInt8
  | .accepted d => d.bytes
  | _ => []

/-- A `send` has failed, and not with `EAGAIN`. -/
def sendFailed : Obs SysRet → Bool
  | .out _ _ (.send (.error e)) _ => e ≠ .EAGAIN
  | _ => false

end Obs

/-- The bytes on the wire. -/
def sentBytes (tr : List (Obs SysRet)) : List UInt8 := tr.flatMap Obs.sentBytes

/-- The payloads of the accepted `Write` calls, in the order of the lock. -/
def acceptedBytes {ρ : Type} (tr : List (Obs ρ)) : List UInt8 := tr.flatMap Obs.acceptedBytes

/-- Some `send` has failed non-retryably. -/
def sendFailed (tr : List (Obs SysRet)) : Bool := tr.any Obs.sendFailed

@[simp] theorem sentBytes_append (tr o : List (Obs SysRet)) :
    sentBytes (tr ++ o) = sentBytes tr ++ sentBytes o := by simp [sentBytes]

@[simp] theorem acceptedBytes_append {ρ : Type} (tr o : List (Obs ρ)) :
    acceptedBytes (tr ++ o) = acceptedBytes tr ++ acceptedBytes o := by simp [acceptedBytes]

@[simp] theorem sendFailed_append (tr o : List (Obs SysRet)) :
    sendFailed (tr ++ o) = (sendFailed tr || sendFailed o) := by simp [sendFailed]

/-- Observations that carry no data add nothing to what was sent or accepted. -/
theorem sentBytes_of_not_isData {o : List (Obs SysRet)} (h : ∀ x ∈ o, x.isData = false) :
    sentBytes o = [] ∧ acceptedBytes o = [] ∧ sendFailed o = false := by
  refine ⟨?_, ?_, ?_⟩
  · refine List.flatMap_eq_nil_iff.mpr fun x hx => ?_
    have := h x hx
    cases x <;> simp_all [Obs.isData, Obs.sentBytes]
  · refine List.flatMap_eq_nil_iff.mpr fun x hx => ?_
    have := h x hx
    cases x <;> simp_all [Obs.isData, Obs.acceptedBytes]
  · refine List.any_eq_false.mpr fun x hx => ?_
    have := h x hx
    cases x <;> simp_all [Obs.isData, Obs.sendFailed]

/-! ### The data flow of a step -/

namespace BufferState

/-- The TCP filter of a buffer that has no other. -/
def tcp (s : BufferState Socket) : Filter := s.buffer.filter 0

/-- What a step does to `pending_out_` and `pending_writes_`. -/
inductive DataStep (s s' : BufferState Socket) : List (Obs SysRet) → Prop
  | keep {o} : s'.tcp.pendingOut = s.tcp.pendingOut →
      s'.buffer.pendingWrites = s.buffer.pendingWrites → (∀ x ∈ o, x.isData = false) →
      DataStep s s' o
  | accept {a d saved} : s.calls a = .writing d saved → s'.tcp.pendingOut = s.tcp.pendingOut →
      s'.buffer.pendingWrites = s.buffer.pendingWrites ++ [saved] → DataStep s s' [.accepted d]
  | swap {rest} : s.stack = .doWrite :: rest →
      s'.tcp.pendingOut = s.tcp.pendingOut ++ s.buffer.pendingWrites →
      s'.buffer.pendingWrites = [] → DataStep s s' [.swapped s.buffer.pendingWrites]
  | send {fr rest d ds ret} : s.stack = fr :: rest → fr.sends = true →
      s.tcp.pendingOut = d :: ds → TCPStreamBufferFilter.SendContract d.dataLength ret →
      s'.buffer.pendingWrites = s.buffer.pendingWrites →
      (match TCPStreamBufferFilter.out ret d with
        | .error e => s'.crashed = some e ∧ s'.tcp.pendingOut = ds
        | .ok res => s'.tcp = (s.tcp.afterOut ds res).1 ∧
            ((s.tcp.afterOut ds res).2 ≠ .consumed →
              ∃ fs, s'.stack = fs ++ rest ∧ ∀ fr ∈ fs, fr.sends = false)) →
      DataStep s s' [.out 0 d (.send ret) (TCPStreamBufferFilter.out ret d)]

variable {pendingConnect : Bool} {l : BufferLabel SysRet} {s s' : BufferState Socket}
  {o : List (Obs SysRet)}

/-- The TCP filter stays alone. -/
theorem length_step (hok : TcpOnly l s) (h : step (tcpEnv pendingConnect) l s = some (s', o))
    (hlen : s.buffer.streamFilters.length = 1) : s'.buffer.streamFilters.length = 1 := by
  obtain ⟨-, hstep⟩ := step_inv h
  cases hstep with
  | handleEvents hstack hidle hn =>
      subst hn
      rw [resume_buffer]
      unfold StreamBuffer.handleEvents
      split_ifs <;> exact hlen
  | @run fr rest n hstack hrun =>
      rw [resume_buffer]
      by_cases hfr : fr = .doWrite
      · subst hfr
        rcases StreamBuffer.doWrite_cases s.buffer n (Option.some.inj hrun).symm with
          ⟨-, rfl⟩ | ⟨-, -, -, -, hn⟩
        · exact hlen
        · simpa [hn] using hlen
      · rw [(StreamBuffer.runFrame_filters hrun hfr).1]
        exact hlen
  | @answer fr rest r n k hstack hans =>
      change (s.resume rest n).buffer.streamFilters.length = 1
      rw [resume_buffer]
      by_cases hfr : fr.sends = true
      · cases fr with
        | write i =>
            obtain ⟨d, ds, res, -, -, -, hres⟩ := StreamBuffer.callOut_cases hans
            rcases hres with ⟨e, -, -, -, hb⟩ | ⟨_, f', _, -, -, -, hb, -⟩ <;> simpa [hb] using hlen
        | flush i =>
            obtain ⟨d, ds, res, -, -, -, hres⟩ := StreamBuffer.callOut_cases hans
            rcases hres with ⟨e, -, -, -, hb⟩ | ⟨_, f', _, -, -, -, hb, -⟩ <;> simpa [hb] using hlen
        | _ => simp [Frame.sends] at hfr
      · rw [(StreamBuffer.answerFrame_dataKept hans (by simpa using hfr)).length]
        exact hlen
  | filterAdded hmay hfresh hadd =>
      have hrefused := hok _ rfl
      simp [StreamBuffer.addStreamBufferFilter, hrefused] at hadd
  | write =>
      unfold write
      split_ifs
      · exact hlen
      · exact hlen
      · split <;> exact hlen
  | _ => exact hlen

/-- What `Out` on the head of `pending_out_` can do to the loop around it: it throws,
closes the filter for writing, keeps a rest of the head, or consumes it. -/
theorem callOut_tcp {i : Nat} {again after : List Frame} {n : Next SysRet StreamBuffer}
    {r : SysRet} {k : Socket} (hlen : s.buffer.streamFilters.length = 1)
    (hpos : ∀ d ∈ s.tcp.pendingOut, 0 < d.dataLength)
    (h : s.buffer.callOut (tcpEnv pendingConnect) i r s.env again after = some (n, k)) :
    ∃ d ds ret, s.tcp.pendingOut = d :: ds ∧
      n.obs = [.out 0 d (.send ret) (TCPStreamBufferFilter.out ret d)] ∧
      ((∃ e, n.threw = some e) ∨
        (n.threw = none ∧ n.frames = after ∧ (n.buffer.filter 0).writeClosed = true ∧
          TCPStreamBufferFilter.out ret d = .ok (⟨true⟩, some d)) ∨
        (n.threw = none ∧ n.frames = after ∧ ∃ d', (n.buffer.filter 0).pendingOut = d' :: ds ∧
          TCPStreamBufferFilter.out ret d = .ok (⟨false⟩, some d') ∧
          (ret = .error .EAGAIN ∨ ∃ m : Nat, ret = .ok m ∧ (m : Int) < d.dataLength)) ∨
        (n.threw = none ∧ n.frames = again ∧ (n.buffer.filter 0).pendingOut = ds ∧
          TCPStreamBufferFilter.out ret d = .ok (⟨false⟩, none))) := by
  obtain ⟨d, ds, res, hpend, hout, hobs, hres⟩ := StreamBuffer.callOut_cases h
  have hi : i = 0 := by
    have := StreamBuffer.lt_length_of_pendingOut (b := s.buffer) (i := i) (by simp [hpend])
    omega
  subst hi
  obtain ⟨ret, rfl, hcontract, rfl⟩ : ∃ ret, r = .send ret ∧
      TCPStreamBufferFilter.SendContract d.dataLength ret ∧
      res = TCPStreamBufferFilter.out ret d := by
    cases r with
    | send ret =>
        simp only [tcpEnv] at hout
        split at hout
        · rename_i hc
          exact ⟨ret, rfl, hc, by simp_all⟩
        · exact absurd hout (by simp)
    | _ => simp [tcpEnv] at hout
  have hd : 0 < d.dataLength := hpos d (by
    change d ∈ (s.buffer.filter 0).pendingOut
    rw [hpend]
    exact List.mem_cons_self)
  refine ⟨d, ds, ret, hpend, hobs, ?_⟩
  rcases hres with ⟨e, he, hthrew, -, -⟩ | ⟨res', f', drain, hok, hafter, hthrew, hb, hframes⟩
  · exact .inl ⟨e, hthrew⟩
  · have hf : n.buffer.filter 0 = f' := by
      rw [hb, StreamBuffer.filter_setFilter, if_pos ⟨rfl, by omega⟩]
    rcases TCPStreamBufferFilter.out_cases hd hcontract with
      ⟨rfl, ho⟩ | ⟨e, -, -, ⟨ex, ho⟩ | ho⟩ | ⟨m, suffix, rfl, -, hlt, ho, -⟩ | ⟨m, -, -, ho⟩ <;>
      rw [ho] at hok
    · obtain rfl := Except.ok.inj hok
      obtain ⟨rfl, rfl⟩ := Prod.mk.inj hafter
      exact .inr (.inr (.inl ⟨hthrew, by simpa using hframes, d, by rw [hf], ho, .inl rfl⟩))
    · exact absurd hok (by simp)
    · obtain rfl := Except.ok.inj hok
      obtain ⟨rfl, rfl⟩ := Prod.mk.inj hafter
      exact .inr (.inl ⟨hthrew, by simpa using hframes, by rw [hf], ho⟩)
    · obtain rfl := Except.ok.inj hok
      obtain ⟨rfl, rfl⟩ := Prod.mk.inj hafter
      exact .inr (.inr (.inl ⟨hthrew, by simpa using hframes, suffix, by rw [hf], ho,
        .inr ⟨m, rfl, hlt⟩⟩))
    · obtain rfl := Except.ok.inj hok
      obtain ⟨rfl, rfl⟩ := Prod.mk.inj hafter
      exact .inr (.inr (.inr ⟨hthrew, by simpa using hframes, by rw [hf], ho⟩))

/-- The data flow of `Out` on a sending frame. -/
theorem dataStep_of_callOut {i : Nat} {again after : List Frame} {n : Next SysRet StreamBuffer}
    {r : SysRet} {k : Socket} {fr : Frame} {rest : List Frame}
    (hafter : ∀ fr' ∈ after, fr'.sends = false)
    (hlen : s.buffer.streamFilters.length = 1) (hstack : s.stack = fr :: rest)
    (hfr : fr.sends = true)
    (h : s.buffer.callOut (tcpEnv pendingConnect) i r s.env again after = some (n, k)) :
    DataStep s { s.resume rest n with env := k } n.obs := by
  obtain ⟨d, ds, res, hpend, hout, hobs, hres⟩ := StreamBuffer.callOut_cases h
  have hi : i = 0 := by
    have := StreamBuffer.lt_length_of_pendingOut (b := s.buffer) (i := i) (by simp [hpend])
    omega
  subst hi
  have hr : ∃ ret, r = .send ret ∧ TCPStreamBufferFilter.SendContract d.dataLength ret ∧
      res = TCPStreamBufferFilter.out ret d := by
    cases r with
    | send ret =>
        simp only [tcpEnv] at hout
        split at hout
        · rename_i hc
          exact ⟨ret, rfl, hc, by simp_all⟩
        · exact absurd hout (by simp)
    | _ => simp [tcpEnv] at hout
  obtain ⟨ret, rfl, hcontract, rfl⟩ := hr
  rw [hobs]
  have htcp : ∀ f, (s.buffer.setFilter 0 f).filter 0 = f := fun f => by
    rw [StreamBuffer.filter_setFilter, if_pos ⟨rfl, by omega⟩]
  refine .send hstack hfr hpend hcontract ?_ ?_
  · change (s.resume rest n).buffer.pendingWrites = _
    rcases hres with ⟨e, -, -, -, hb⟩ | ⟨_, f', _, -, -, -, hb, -⟩ <;>
      simp [hb, StreamBuffer.setFilter]
  · rcases hres with ⟨e, he, hthrew, -, hb⟩ | ⟨res', f', drain, hok, hout', hthrew, hb, hframes⟩
    · rw [he]
      simp only [resume_of_threw hthrew, tcp, hb, htcp, and_self]
    · rw [hok]
      have hout'' : s.tcp.afterOut ds res' = (f', drain) := hout'
      refine ⟨by simp only [resume_of_threw_none hthrew, tcp, hb, htcp]; rw [hout'], ?_⟩
      intro hdrain
      rw [hout''] at hdrain
      refine ⟨after, ?_, hafter⟩
      simp only [resume_of_threw_none hthrew, hframes, if_neg hdrain]

/-- **The data flow of every step.** All of them keep both lists but three, and each of these is a
constructor. -/
theorem dataStep (hok : TcpOnly l s) (h : step (tcpEnv pendingConnect) l s = some (s', o))
    (hlen : s.buffer.streamFilters.length = 1) : DataStep s s' o := by
  obtain ⟨-, hstep⟩ := step_inv h
  cases hstep with
  | handleEvents hstack hidle hn =>
      subst hn
      refine .keep ?_ ?_ ?_ <;> simp only [tcp, resume_buffer, StreamBuffer.handleEvents] <;>
        split_ifs <;> simp [Obs.isData]
  | @run fr rest n hstack hrun =>
      by_cases hfr : fr = .doWrite
      · subst hfr
        have hback : s.buffer.backIndex = 0 := by simp [StreamBuffer.backIndex, hlen]
        rcases StreamBuffer.doWrite_cases s.buffer n (Option.some.inj hrun).symm with
          ⟨-, rfl⟩ | ⟨-, hobs, -, -, hb⟩
        · exact .keep (by simp [tcp]) (by simp) (by simp)
        · rw [hobs]
          refine .swap hstack ?_ (by simp [hb])
          simp only [tcp, resume_buffer, hb]
          change ((s.buffer.setFilter _ _).filter 0).pendingOut = _
          rw [StreamBuffer.filter_setFilter, if_pos ⟨hback, by omega⟩, StreamBuffer.back, hback]
      · obtain ⟨hp, hd⟩ := StreamBuffer.runFrame_dataKept hrun hfr
        exact .keep (by simpa [tcp] using hd 0) (by simpa using hp)
          (StreamBuffer.runFrame_isData hrun)
  | @answer fr rest r n k hstack hans =>
      by_cases hfr : fr.sends = true
      · cases fr with
        | write i => exact dataStep_of_callOut (by simp) hlen hstack hfr hans
        | flush i => exact dataStep_of_callOut (by simp [Frame.sends]) hlen hstack hfr hans
        | _ => simp [Frame.sends] at hfr
      · have hkept := StreamBuffer.answerFrame_dataKept hans (by simpa using hfr)
        refine .keep ?_ ?_ hkept.obs
        · change ((s.resume rest n).buffer.filter 0).pendingOut = _
          simpa [tcp] using hkept.pendingOut 0
        · change (s.resume rest n).buffer.pendingWrites = _
          simpa using hkept.pendingWrites
  | push hcall => exact .accept hcall rfl rfl
  | filterAdded hmay hfresh hadd =>
      have hrefused := hok _ rfl
      simp [StreamBuffer.addStreamBufferFilter, hrefused] at hadd
  | write =>
      unfold write
      split_ifs
      · exact .keep rfl rfl (by simp)
      · exact .keep rfl rfl (by simp)
      · split
        · exact .keep rfl rfl (by simp [Obs.isData])
        · exact .keep rfl rfl (by simp)
  | _ => exact .keep rfl rfl (by simp [close, Obs.isData])

end BufferState

end Libael
