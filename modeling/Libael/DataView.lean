import Mathlib.Algebra.Group.Int.Defs
import Mathlib.Algebra.Group.Nat.Defs
import Mathlib.Data.List.Basic
import Libael.Base

/-!
# Libael.DataView

`DataView` (`include/data_view.h`, `lib/data_view.cc`): a pointer, a length of
type `int` and a flag telling whether the view owns its bytes.

The memory behind `data_` is the list of bytes that may be read from it. That a
view never promises more than is readable is the precondition of its two
constructors, and is carried as a field; the length itself may be negative (it is
an `int`, and a string's size is narrowed to it), except in a view that owns its
bytes, which only `Save` makes.
-/

namespace Libael

/-- `DataView`. `data` is `none` for `nullptr`, else the bytes readable from
`data_` on. -/
structure DataView where
  data : Option (List UInt8)
  dataLength : Int
  saved : Bool
  readable : dataLength ≤ (data.getD []).length
  owned : saved = true → 0 ≤ dataLength
  deriving DecidableEq

namespace DataView

/-- `DataView::DataView()` -/
def empty : DataView := ⟨none, 0, false, by simp, by simp⟩

/-- `static_cast<int>` of a size: the low 32 bits, read as a signed number. -/
def toInt (size : Nat) : Int := (size : Int).bmod (2 ^ 32)

theorem toInt_le (size : Nat) : toInt size ≤ size := by
  unfold toInt
  rw [Int.bmod_eq_emod]
  split <;> omega

theorem toInt_eq_self {size : Nat} (h : size < 2 ^ 31) : toInt size = size := by
  unfold toInt
  rw [Int.bmod_eq_emod]
  split <;> omega

/-- `DataView::DataView(const std::string &data)` -/
def ofString (data : List UInt8) : DataView :=
  ⟨some data, toInt data.length, false, by simpa using toInt_le data.length, by simp⟩

/-- The bytes a view stands for. -/
def bytes (d : DataView) : List UInt8 := (d.data.getD []).take d.dataLength.toNat

@[simp] theorem length_bytes (d : DataView) : d.bytes.length = d.dataLength.toNat := by
  have h := d.readable
  simp only [bytes, List.length_take]
  omega

/-- `DataView::Slice`: the suffix `[suffix_index, data_length_)`. -/
def slice (d : DataView) (suffixIndex : Int) : Except Exception DataView :=
  if h : suffixIndex < 0 ∨ suffixIndex > d.dataLength then
    .error (.outOfRange "the suffix index is larger than data length")
  else if suffixIndex = d.dataLength then .ok empty
  else .ok
    { data := d.data.map (List.drop suffixIndex.toNat)
      dataLength := d.dataLength - suffixIndex
      saved := false
      readable := by
        have hr := d.readable
        cases hd : d.data <;> simp only [hd, Option.getD_some, Option.getD_none, Option.map_some,
          Option.map_none, List.length_drop, List.length_nil] at hr ⊢ <;> omega
      owned := by simp }

/-- `DataView::Save`: the view itself when it owns its bytes, else a copy. The
allocation `new std::uint8_t[data_length_]` throws on a negative length. The exception is of the
type the standard gives, which is derived from `std::bad_alloc`; nothing in the library looks at
the type. -/
def save (d : DataView) : Except Exception DataView :=
  if d.saved then .ok d
  else if h : d.dataLength < 0 then .error .badArrayNewLength
  else .ok
    { data := some d.bytes
      dataLength := d.dataLength
      saved := true
      readable := by simp only [Option.getD_some, length_bytes]; omega
      owned := fun _ => by omega }

/-- `DataView::AppendToString` -/
def appendToString (d : DataView) (str : List UInt8) : List UInt8 :=
  if d.dataLength ≤ 0 then str else str ++ d.bytes

theorem save_bytes {d d' : DataView} (h : d.save = .ok d') : d'.bytes = d.bytes := by
  unfold save at h
  split at h
  · rw [Except.ok.inj h]
  · split at h
    · exact absurd h (by simp)
    · rw [← Except.ok.inj h]
      simp [bytes, List.take_take]

theorem save_dataLength {d d' : DataView} (h : d.save = .ok d') : d'.dataLength = d.dataLength := by
  unfold save at h
  split at h
  · rw [Except.ok.inj h]
  · split at h
    · exact absurd h (by simp)
    · rw [← Except.ok.inj h]

/-- `Save` throws on a negative length, and nothing else builds a view that owns its bytes. -/
theorem save_nonneg {d d' : DataView} (h : d.save = .ok d') : 0 ≤ d.dataLength := by
  unfold save at h
  split at h
  case isTrue hs => exact d.owned hs
  case isFalse =>
      split at h
      · exact absurd h (by simp)
      · omega

/-- A slice in range carries the remaining bytes. -/
theorem slice_bytes {d d' : DataView} {n : Nat} (h : d.slice n = .ok d') :
    d'.bytes = d.bytes.drop n := by
  unfold slice at h
  split at h
  · exact absurd h (by simp)
  · split at h
    case isTrue heq =>
      rw [← Except.ok.inj h, List.drop_of_length_le (by rw [length_bytes]; omega)]
      rfl
    case isFalse hne =>
      have hdata : ((d.data.map (List.drop n)).getD []) = (d.data.getD []).drop n := by
        cases d.data <;> simp
      rw [← Except.ok.inj h]
      simp only [bytes, Int.toNat_natCast, hdata, List.drop_take]
      congr 1
      omega

/-- A proper prefix can be cut off: the suffix view exists and is shorter. -/
theorem slice_save {d : DataView} {n : Nat} (h : (n : Int) < d.dataLength) :
    ∃ suffix saved, d.slice n = .ok suffix ∧ suffix.save = .ok saved ∧
      saved.bytes = d.bytes.drop n ∧ saved.dataLength = d.dataLength - n := by
  have hslice : ∃ suffix, d.slice n = .ok suffix ∧ suffix.dataLength = d.dataLength - n ∧
      suffix.saved = false := by
    unfold slice
    rw [dif_neg (by omega), if_neg (by omega)]
    exact ⟨_, rfl, rfl, rfl⟩
  obtain ⟨suffix, hs, hlen, hsaved⟩ := hslice
  obtain ⟨saved, hsave⟩ : ∃ saved, suffix.save = .ok saved := by
    unfold save
    rw [hsaved, if_neg (by simp), dif_neg (by omega)]
    exact ⟨_, rfl⟩
  exact ⟨suffix, saved, hs, hsave, (save_bytes hsave).trans (slice_bytes hs),
    (save_dataLength hsave).trans hlen⟩

end DataView

/-- The bytes of a list of views, in order. -/
def viewBytes (ds : List DataView) : List UInt8 := ds.flatMap DataView.bytes

@[simp] theorem viewBytes_nil : viewBytes [] = [] := rfl

@[simp] theorem viewBytes_cons (d : DataView) (ds : List DataView) :
    viewBytes (d :: ds) = d.bytes ++ viewBytes ds := rfl

@[simp] theorem viewBytes_append (ds es : List DataView) :
    viewBytes (ds ++ es) = viewBytes ds ++ viewBytes es := by
  simp [viewBytes]

end Libael
