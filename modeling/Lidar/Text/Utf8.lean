import Lidar.Bytes

/-!
# Text as UTF-8

A text field holds UTF-8. When it does not, the fault says how many bytes were well formed and how
many of the bytes after them make up the broken sequence.
-/
namespace Lidar

structure Utf8Fault where
  /-- The number of bytes before the fault. -/
  validUpTo : Nat
  /-- The size of the broken sequence; none when the bytes end inside a sequence. -/
  size? : Option Nat
  deriving DecidableEq, Repr

namespace Utf8Fault

def text (f : Utf8Fault) : String :=
  match f.size? with
  | some n => s!"invalid utf-8 sequence of {n} bytes from index {f.validUpTo}"
  | none => s!"incomplete utf-8 byte sequence from index {f.validUpTo}"

/-- The ranges of the bytes that follow a first byte; none for a byte that starts no sequence. Only
the first of them is narrower than the range of all continuation bytes: it keeps out overlong
forms, surrogates and numbers past the last code point. -/
def following (first : UInt8) : Option (List (UInt8 × UInt8)) :=
  let any : UInt8 × UInt8 := (0x80, 0xbf)
  if first < 0x80 then some []
  else if first < 0xc2 then none
  else if first < 0xe0 then some [any]
  else if first = 0xe0 then some [(0xa0, 0xbf), any]
  else if first = 0xed then some [(0x80, 0x9f), any]
  else if first < 0xf0 then some [any, any]
  else if first = 0xf0 then some [(0x90, 0xbf), any, any]
  else if first < 0xf4 then some [any, any, any]
  else if first = 0xf4 then some [(0x80, 0x8f), any, any]
  else none

/-- Follows a sequence of which `n` bytes have been seen. The size of the whole sequence, or of its
well-formed start when the next byte is out of range. -/
def follow : List (UInt8 × UInt8) → Bytes → Nat → Except (Option Nat) Nat
  | [], _, n => .ok n
  | _ :: _, [], _ => .error none
  | (low, high) :: ranges, b :: bytes, n =>
    if low ≤ b ∧ b ≤ high then follow ranges bytes (n + 1) else .error (some n)

def sequence (first : UInt8) (rest : Bytes) : Except (Option Nat) Nat :=
  match following first with
  | some ranges => follow ranges rest 1
  | none => .error (some 1)

/-- The first fault in bytes that come after `n` well-formed ones. -/
def locate (n : Nat) : Bytes → Utf8Fault
  | [] => ⟨n, none⟩
  | b :: rest =>
    match sequence b rest with
    | .ok size => locate (n + size) (rest.drop (size - 1))
    | .error size? => ⟨n, size?⟩
termination_by bytes => bytes.length
decreasing_by simp only [List.length_drop, List.length_cons]; omega

end Utf8Fault

namespace Text

def bytes (s : String) : Bytes := .ofPacked s.toByteArray

def ofBytes (b : Bytes) : Except Utf8Fault String :=
  match String.fromUTF8? b.toByteArray with
  | some s => .ok s
  | none => .error (Utf8Fault.locate 0 b)

theorem toByteArray_bytes (s : String) : (bytes s).toByteArray = s.toByteArray := by
  simp [bytes]

theorem ofBytes_bytes (s : String) : ofBytes (bytes s) = .ok s := by
  have h : s.toByteArray.IsValidUTF8 := s.isValidUTF8
  simp [ofBytes, toByteArray_bytes, String.fromUTF8?, h, String.fromUTF8]

/-- Only the bytes of a text are read as that text. -/
theorem bytes_of_ofBytes {b : Bytes} {s : String} (h : ofBytes b = .ok s) : bytes s = b := by
  unfold ofBytes at h
  split at h
  · next t ht =>
    cases h
    unfold String.fromUTF8? at ht
    split at ht
    · cases ht
      simp [bytes, String.fromUTF8]
    · cases ht
  · cases h

end Text

end Lidar
