import Lidar.Error

/-!
# Text fields of fixed width

A text field has a fixed number of bytes, of which those from the first nul on mean nothing. A text
that fits and has no nul is written with nuls after it, so it is read back as it was.
-/
namespace Lidar.Text

def beforeNul (b : Bytes) : Bytes := b.takeWhile (· != 0)

def decode (field : TextField) (b : Bytes) : Except Error String :=
  (ofBytes (beforeNul b)).mapError (.notUtf8 field)

def Fits (s : String) (width : Nat) : Prop := s.utf8ByteSize ≤ width ∧ 0 ∉ bytes s

instance (s : String) (width : Nat) : Decidable (Fits s width) :=
  inferInstanceAs (Decidable (_ ∧ _))

/-- Refuses a text that does not fit; the length is looked at first. -/
def check (field : TextField) (s : String) (width : Nat) : Except Error Unit :=
  if width < s.utf8ByteSize then refuse (.textTooLong field s width)
  else if (bytes s).contains 0 then refuse (.textWithNul field)
  else .ok ()

/-- The bytes of a text with nuls after them, up to the width; a longer text is cut. -/
def encode (width : Nat) (s : String) : Vector UInt8 width :=
  let b := bytes s
  Vector.ofFn fun i => b.getD i 0

def toField (field : TextField) (width : Nat) (s : String) : Except Error (Vector UInt8 width) := do
  check field s width
  return encode width s

/-- The text with spaces after it until it has `width` characters. -/
def padded (width : Nat) (s : String) : String :=
  s ++ String.ofList (List.replicate (width - s.length) ' ')

theorem check_eq_ok_iff {field : TextField} {s : String} {width : Nat} :
    check field s width = .ok () ↔ Fits s width := by
  unfold check Fits
  split
  · next h => simp [refuse]; omega
  · next h =>
    split
    · next h0 => simp_all [refuse]
    · next h0 => simp_all

end Lidar.Text
