import Libael.StreamBuffer.Machine

/-!
# Libael.StreamBuffer.Strings

A view of a `std::string` carries **exactly that string**, and `Write` queues it, as long as
the size of the string is an `int`. The constructor narrows the size without looking, so a
view of a longer string has another length: a negative one, or that of some prefix.
-/

namespace Libael

namespace DataView

/-- A size is kept by the conversion to `int` exactly if it is one. -/
theorem toInt_eq_self_iff (size : Nat) : toInt size = size ↔ size < 2 ^ 31 := by
  refine ⟨fun h => ?_, toInt_eq_self⟩
  unfold toInt at h
  rw [Int.bmod_eq_emod] at h
  split at h <;> omega

/-- A slice in range. -/
theorem slice_eq {d : DataView} {n : Int} (hnonneg : 0 ≤ n) (hle : n ≤ d.dataLength) :
    ∃ view, d.slice n = .ok view ∧ view.dataLength = d.dataLength - n ∧ view.saved = false ∧
      (n = d.dataLength → view = empty) ∧
      (n < d.dataLength → view.data = d.data.map (List.drop n.toNat)) := by
  unfold slice
  rw [dif_neg (by omega)]
  split
  · exact ⟨_, rfl, by simp only [empty]; omega, rfl, fun _ => rfl, by omega⟩
  · exact ⟨_, rfl, rfl, rfl, by omega, fun _ => rfl⟩

/-- Slicing twice is slicing once. -/
theorem slice_slice (d : DataView) {i j : Int} (hi : 0 ≤ i) (hj : 0 ≤ j)
    (hle : i + j ≤ d.dataLength) : (d.slice i).bind (·.slice j) = d.slice (i + j) := by
  obtain ⟨first, hfirst, hfirstLength, hfirstSaved, hfirstEnd, hfirstData⟩ :=
    slice_eq hi (d := d) (by omega)
  obtain ⟨second, hsecond, hsecondLength, hsecondSaved, hsecondEnd, hsecondData⟩ :=
    slice_eq hj (d := first) (by omega)
  obtain ⟨both, hboth, hbothLength, hbothSaved, hbothEnd, hbothData⟩ :=
    slice_eq (n := i + j) (by omega) hle
  rw [hfirst, hboth]
  change first.slice j = _
  rw [hsecond]
  congr 1
  by_cases hend : i + j = d.dataLength
  · rw [hbothEnd hend, hsecondEnd (by omega)]
  · have hdata : second.data = both.data := by
      rw [hsecondData (by omega), hfirstData (by omega), hbothData (by omega), Option.map_map]
      congr 1
      funext bs
      simp only [Function.comp_apply, List.drop_drop]
      congr 1
      omega
    cases second
    cases both
    simp only [mk.injEq] at *
    exact ⟨hdata, by omega, by rw [hsecondSaved, hbothSaved]⟩

/-- A view appends the bytes it stands for, however it has come by them. -/
theorem appendToString_eq (d : DataView) (str : List UInt8) :
    d.appendToString str = str ++ d.bytes := by
  unfold appendToString
  split
  · have hnil : d.bytes = [] := List.eq_nil_of_length_eq_zero (by rw [length_bytes]; omega)
    rw [hnil, List.append_nil]
  · rfl

theorem dataLength_ofString (data : List UInt8) :
    (ofString data).dataLength = toInt data.length := by
  simp only [ofString]

theorem bytes_ofString {data : List UInt8} (h : data.length < 2 ^ 31) :
    (ofString data).bytes = data := by
  simp only [bytes, ofString, Option.getD_some, toInt_eq_self h, Int.toNat_natCast,
    List.take_length]

/-- A view of non-negative length can be saved. -/
theorem save_ok {d : DataView} (h : 0 ≤ d.dataLength) : ∃ saved, d.save = .ok saved := by
  unfold save
  split
  · exact ⟨d, rfl⟩
  · rw [dif_neg (by omega)]
    exact ⟨_, rfl⟩

end DataView

open BufferState

/-- `Write(data)` on an open buffer queues exactly `data`: after it has made its copy, and
whatever happens before it takes the lock. Nothing is queued for the empty string. -/
def QueuesString (data : List UInt8) : Prop :=
  ∀ (κ ρ : Type) (env : FilterEnv κ ρ) (s : BufferState κ) (a : Agent), s.crashed = none →
    s.mayCall a = true → s.buffer.shouldClose = false →
    if data = [] then step env (.write a (.ofString data)) s = some (s, [])
    else ∃ saved, saved.bytes = data ∧
      step env (.write a (.ofString data)) s =
        some (s.setCall a (.writing (.ofString data) saved), []) ∧
      ∀ s₁ s₂ o, s₁.calls a = .writing (.ofString data) saved →
        step env (.push a) s₁ = some (s₂, o) →
        s₂.buffer.pendingWrites = s₁.buffer.pendingWrites ++ [saved]

/-- A view of the string carries exactly the string. -/
structure CarriesString (data : List UInt8) : Prop where
  length : (DataView.ofString data).dataLength = data.length
  slice : ∀ k ≤ data.length, ∃ view saved,
    (DataView.ofString data).slice (DataView.toInt k) = .ok view ∧ view.save = .ok saved ∧
      ∀ str, view.appendToString str = str ++ data.drop k ∧
        saved.appendToString str = str ++ data.drop k
  compose : ∀ i j, i + j ≤ data.length →
    ((DataView.ofString data).slice (DataView.toInt i)).bind (·.slice (DataView.toInt j)) =
      (DataView.ofString data).slice (DataView.toInt (i + j))
  write : QueuesString data

/-- A string whose size is an `int` is queued as it is. -/
theorem queuesString {data : List UInt8} (h : data.length < 2 ^ 31) : QueuesString data := by
  intro κ ρ env s a hc hmay hopen
  have hlength : (DataView.ofString data).dataLength = data.length := by
    rw [DataView.dataLength_ofString, DataView.toInt_eq_self h]
  have hstep : step env (.write a (.ofString data)) s = some (s.write a (.ofString data)) := by
    unfold step
    rw [if_neg (by simp [hc])]
    simp only [hmay, if_true]
  split
  · rename_i hempty
    rw [hstep]
    subst hempty
    rfl
  · rename_i hne
    have hpos : 0 < data.length := List.length_pos_iff.mpr hne
    obtain ⟨saved, hsave⟩ := DataView.save_ok (d := .ofString data) (by omega)
    refine ⟨saved, ?_, ?_, ?_⟩
    · rw [DataView.save_bytes hsave, DataView.bytes_ofString h]
    · rw [hstep]
      unfold BufferState.write
      rw [if_neg (by omega), if_neg (by simp [hopen]), hsave]
    · intro s₁ s₂ o hcall hpush
      obtain ⟨-, hstep⟩ := step_inv hpush
      cases hstep with
      | @push a d saved' hcall' =>
          obtain ⟨-, rfl⟩ := ApiCall.writing.inj (hcall'.symm.trans hcall)
          rfl

/-- **A string view carries exactly its string** if and only if the size of the string is an
`int`. -/
theorem carriesString_iff (data : List UInt8) : CarriesString data ↔ data.length < 2 ^ 31 := by
  constructor
  · intro h
    have hlength := h.length
    rw [DataView.dataLength_ofString] at hlength
    exact (DataView.toInt_eq_self_iff _).mp hlength
  intro h
  have hlength : (DataView.ofString data).dataLength = data.length := by
    rw [DataView.dataLength_ofString, DataView.toInt_eq_self h]
  refine ⟨hlength, fun k hk => ?_, fun i j hij => ?_, queuesString h⟩
  · rw [DataView.toInt_eq_self (by omega)]
    obtain ⟨view, hview, hviewLength, -⟩ :=
      DataView.slice_eq (d := .ofString data) (n := k) (by omega) (by omega)
    obtain ⟨saved, hsave⟩ := DataView.save_ok (d := view) (by omega)
    have hbytes : view.bytes = data.drop k := by
      rw [DataView.slice_bytes hview, DataView.bytes_ofString h]
    refine ⟨view, saved, hview, hsave, fun str => ⟨?_, ?_⟩⟩
    · rw [DataView.appendToString_eq, hbytes]
    · rw [DataView.appendToString_eq, DataView.save_bytes hsave, hbytes]
  · rw [DataView.toInt_eq_self (by omega), DataView.toInt_eq_self (by omega),
      DataView.toInt_eq_self (by omega), DataView.slice_slice _ (by omega) (by omega) (by omega)]
    push_cast
    rfl

/-- A string of `2 ^ 32 + 1` bytes is taken for one of a single byte, and one of `2 ^ 31`
bytes for one of negative length. -/
theorem long_string_not_carried :
    (DataView.ofString (List.replicate (2 ^ 32 + 1) 0)).dataLength = 1 ∧
      (DataView.ofString (List.replicate (2 ^ 31) 0)).dataLength = -2 ^ 31 ∧
      ¬∀ data, CarriesString data := by
  have hlength : ∀ n, (DataView.ofString (List.replicate n 0)).dataLength = DataView.toInt n := by
    intro n
    rw [DataView.dataLength_ofString, List.length_replicate]
  refine ⟨by rw [hlength]; decide, by rw [hlength]; decide, fun h => ?_⟩
  have hnot := (h (List.replicate (2 ^ 31) 0)).length
  rw [hlength, List.length_replicate] at hnot
  exact absurd hnot (by decide)

end Libael
