import Lidar.Proofs.Success
import Lidar.Text.Field

/-!
# Text fields on the wire

A text that fits a field is read back from the field that is written for it, and what is read from
a field fits it.
-/
namespace Lidar.Text

theorem length_bytes (s : String) : (bytes s).length = s.utf8ByteSize := by
  simp [bytes]

theorem toList_encode (width : Nat) (s : String) :
    (encode width s).toList = (bytes s).resize width := by
  apply List.ext_getElem
  · simp
  · intro i hi hj
    have hw : i < width := by simpa using hi
    simp only [encode, Vector.toList_ofFn, List.getElem_ofFn, Bytes.resize, Bytes.fill]
    by_cases h : i < (bytes s).length
    · rw [List.getElem_append_left (by rw [List.length_take]; omega)]
      simp [h]
    · rw [List.getElem_append_right (by simp; omega)]
      simp [h]

theorem toField_of_fits {field : TextField} {width : Nat} {s : String} (fits : Fits s width) :
    toField field width s = .ok (encode width s) := by
  rw [toField, check_eq_ok_iff.2 fits]
  rfl

theorem decode_eq_ok {field : TextField} {b : Bytes} {s : String} :
    decode field b = .ok s ↔ beforeNul b = bytes s := by
  unfold decode
  constructor
  · intro h
    cases hs : ofBytes (beforeNul b) with
    | error e => simp [hs, Except.mapError] at h
    | ok t =>
      rw [hs] at h
      cases h
      exact (bytes_of_ofBytes hs).symm
  · intro h
    rw [h, ofBytes_bytes]
    rfl

theorem beforeNul_resize {b : Bytes} {width : Nat} (noNul : 0 ∉ b) (fits : b.length ≤ width) :
    beforeNul (b.resize width) = b := by
  rw [Bytes.resize, List.take_of_length_le fits, beforeNul,
    List.takeWhile_append_of_pos fun x hx => by simpa using ne_of_mem_of_not_mem hx noNul]
  cases width - b.length <;> simp [Bytes.fill, List.replicate_succ]

theorem getElem?_resize_beforeNul {b : Bytes} {width i : Nat} (length : b.length = width)
    (inside : i < width) :
    ((beforeNul b).resize width)[i]? = if 0 ∈ b.take i then some 0 else b[i]? := by
  subst length
  induction b generalizing i with
  | nil => cases inside
  | cons x b ih =>
    by_cases zero : x = 0
    · subst zero
      have zeros : (beforeNul (0 :: b)).resize (0 :: b).length =
          List.replicate (0 :: b).length 0 := rfl
      rw [zeros, List.getElem?_replicate_of_lt inside]
      cases i <;> simp
    · have front : (beforeNul (x :: b)).resize (x :: b).length =
          x :: (beforeNul b).resize b.length := by
        simp [beforeNul, zero, Bytes.resize]
      rw [front]
      cases i with
      | zero => simp
      | succ i =>
        rw [List.getElem?_cons_succ, List.getElem?_cons_succ, ih (Nat.lt_of_succ_lt_succ inside)]
        simp [Ne.symm zero]

theorem decode_encode {field : TextField} {s : String} {width : Nat} (h : Fits s width) :
    decode field (encode width s).toList = .ok s := by
  rw [decode_eq_ok, toList_encode]
  exact beforeNul_resize h.2 (length_bytes s ▸ h.1)

theorem fits_of_decode {field : TextField} {b : Bytes} {s : String} (h : decode field b = .ok s) :
    Fits s b.length := by
  have hb := decode_eq_ok.1 h
  constructor
  · rw [← length_bytes, ← hb]
    exact (List.takeWhile_sublist _).length_le
  · rw [← hb]
    intro mem
    have nonzero := List.all_eq_true.1 (List.all_takeWhile (p := (· != 0)) (l := b)) 0 mem
    simp at nonzero

def IsText (b : Bytes) : Prop := (beforeNul b).toByteArray.IsValidUTF8

instance (b : Bytes) : Decidable (IsText b) := inferInstanceAs (Decidable (ByteArray.IsValidUTF8 _))

theorem isText_iff {b : Bytes} : IsText b ↔ ∃ s, beforeNul b = bytes s := by
  constructor
  · intro valid
    refine ⟨⟨(beforeNul b).toByteArray, valid⟩, ?_⟩
    rw [bytes, Bytes.ofPacked_toByteArray]
  · rintro ⟨s, same⟩
    rw [IsText, same, toByteArray_bytes]
    exact s.isValidUTF8

theorem isText_iff_decode {field : TextField} {b : Bytes} :
    IsText b ↔ ∃ s, decode field b = .ok s := by
  simp only [decode_eq_ok, isText_iff]

end Lidar.Text
