import Mathlib.Algebra.GroupWithZero.Nat
import Mathlib.Data.List.TakeWhile
import Lidar.Proofs.Text.Field

/-!
# Texts as characters

The bytes of a text are the bytes of its characters, one to four each, and only the nul has a zero
among them. So a text that is ended by a nul is read up to its own first nul, and a text that is
filled up to a number of characters has as many bytes only if each of its characters has one byte.
-/
namespace Lidar.Text

theorem bytes_eq_flatMap (s : String) : bytes s = s.toList.flatMap String.utf8EncodeChar := by
  rw [bytes, ← String.utf8Encode_toList, List.utf8Encode, Bytes.ofPacked_toByteArray]

theorem zero_mem_utf8EncodeChar {c : Char} : 0 ∈ String.utf8EncodeChar c ↔ c = '\x00' := by
  have last : c.val.toNat < 0x110000 := by
    have := c.valid
    simp only [UInt32.isValidChar, Nat.isValidChar] at this
    omega
  have nul : c = '\x00' ↔ c.val.toNat = 0 := by
    rw [Char.ext_iff, ← UInt32.toNat_inj]
    rfl
  have zero (n : Nat) : 0 = UInt8.ofNat n ↔ n % 256 = 0 := by
    rw [← UInt8.toNat_inj, UInt8.toNat_ofNat']
    exact eq_comm
  rw [nul]
  simp only [String.utf8EncodeChar]
  split_ifs
  all_goals
    simp only [List.mem_cons, List.not_mem_nil, or_false, zero]
    omega

def upToNul (s : String) : String := String.ofList (s.toList.takeWhile (· != '\x00'))

theorem beforeNul_flatMap (chars : List Char) (rest : Bytes) :
    beforeNul (chars.flatMap String.utf8EncodeChar ++ 0 :: rest) =
      (chars.takeWhile (· != '\x00')).flatMap String.utf8EncodeChar := by
  induction chars with
  | nil => simp [beforeNul]
  | cons c chars ih =>
    rw [List.flatMap_cons, List.append_assoc]
    by_cases nul : c = '\x00'
    · subst nul
      rfl
    · have nonzero : ∀ b ∈ String.utf8EncodeChar c, (b != 0) = true := by
        intro b mem
        have := ne_of_mem_of_not_mem mem (zero_mem_utf8EncodeChar.not.2 nul)
        simpa using this
      rw [beforeNul, List.takeWhile_append_of_pos nonzero, List.takeWhile_cons_of_pos (by simpa),
        List.flatMap_cons, ← ih]
      rfl

theorem decode_bytes_append {field : TextField} (s : String) (rest : Bytes) :
    decode field (bytes s ++ 0 :: rest) = .ok (upToNul s) := by
  rw [decode_eq_ok, bytes_eq_flatMap, beforeNul_flatMap, bytes_eq_flatMap, upToNul,
    String.toList_ofList]

theorem upToNul_eq_self {s : String} : upToNul s = s ↔ '\x00' ∉ s.toList := by
  rw [upToNul, ← String.toList_inj, String.toList_ofList, List.takeWhile_eq_self_iff]
  constructor
  · intro all mem
    simpa using all _ mem
  · intro free c mem
    simpa using ne_of_mem_of_not_mem mem free

def IsAscii (s : String) : Prop := ∀ c ∈ s.toList, c.utf8Size = 1

instance (s : String) : Decidable (IsAscii s) := inferInstanceAs (Decidable (∀ c ∈ _, _))

theorem utf8ByteSize_eq_sum (s : String) : s.utf8ByteSize = (s.toList.map Char.utf8Size).sum := by
  rw [← length_bytes, bytes_eq_flatMap, List.length_flatMap]
  simp

theorem length_le_sum_utf8Size (chars : List Char) :
    chars.length ≤ (chars.map Char.utf8Size).sum := by
  induction chars with
  | nil => simp
  | cons c chars ih =>
    have := c.utf8Size_pos
    simp
    omega

theorem length_le_utf8ByteSize (s : String) : s.length ≤ s.utf8ByteSize := by
  rw [utf8ByteSize_eq_sum, ← String.length_toList]
  exact length_le_sum_utf8Size s.toList

theorem sum_utf8Size_eq_length {chars : List Char} :
    (chars.map Char.utf8Size).sum = chars.length ↔ ∀ c ∈ chars, c.utf8Size = 1 := by
  induction chars with
  | nil => simp
  | cons c chars ih =>
    have := c.utf8Size_pos
    have := length_le_sum_utf8Size chars
    rw [List.forall_mem_cons, ← ih, List.map_cons, List.sum_cons, List.length_cons]
    omega

theorem utf8ByteSize_eq_length {s : String} : s.utf8ByteSize = s.length ↔ IsAscii s := by
  rw [utf8ByteSize_eq_sum, ← String.length_toList]
  exact sum_utf8Size_eq_length

/-- A field that is a text and spaces behind it, up to so many characters. It has as many bytes
exactly when each character of the text has one. -/
structure FilledUp (width : Nat) (s field : String) : Prop where
  spaces : field = s ++ String.ofList (List.replicate (width - s.length) ' ')
  characters : field.length = width
  bytes : field.utf8ByteSize = width + (s.utf8ByteSize - s.length)
  exact : field.utf8ByteSize = width ↔ IsAscii s

theorem filledUp_padded {width : Nat} {s : String} (fits : Fits s width) :
    FilledUp width s (padded width s) := by
  have characters := length_le_utf8ByteSize s
  have room := fits.1
  have spaces : (String.ofList (List.replicate (width - s.length) ' ')).utf8ByteSize =
      width - s.length := by
    rw [utf8ByteSize_eq_sum]
    simp [show ' '.utf8Size = 1 from rfl]
  have bytes : (padded width s).utf8ByteSize = s.utf8ByteSize + (width - s.length) := by
    rw [padded, String.utf8ByteSize_append, spaces]
  constructor
  · rfl
  · rw [padded, String.length_append, String.length_ofList, List.length_replicate]
    omega
  · omega
  · rw [bytes, ← utf8ByteSize_eq_length]
    omega

end Lidar.Text
