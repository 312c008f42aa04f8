/-!
# Bytes and little-endian words

Every multi-byte word of a file is little-endian. `ofNat` and `toNat` are inverse to each other on
words of a fixed width.
-/
namespace Lidar

abbrev Bytes := List UInt8

namespace Bytes

/-- The lowest `width` bytes of a number, lowest first. -/
def ofNat : Nat → Nat → Bytes
  | 0, _ => []
  | width + 1, n => UInt8.ofNat n :: ofNat width (n / 256)

def span : Nat → Nat
  | 0 => 1
  | width + 1 => 256 * span width

def toNat : Bytes → Nat
  | [] => 0
  | b :: rest => b.toNat + 256 * toNat rest

def fill (n : Nat) (b : UInt8) : Bytes := List.replicate n b

def ofPacked (packed : ByteArray) : Bytes := packed.data.toList

/-- The field of `width` bytes at a place. It is shorter when the bytes end in it. -/
def part (s : Bytes) (place width : Nat) : Bytes := (s.drop place).take width

def number (s : Bytes) (place width : Nat) : Nat := toNat (part s place width)

def resize (bytes : Bytes) (n : Nat) : Bytes := bytes.take n ++ fill (n - bytes.length) 0

@[simp] theorem length_ofNat (width n : Nat) : (ofNat width n).length = width := by
  induction width generalizing n with
  | zero => rfl
  | succ width ih => simp [ofNat, ih]

theorem toNat_ofNat (width n : Nat) : toNat (ofNat width n) = n % span width := by
  induction width generalizing n with
  | zero => simp [ofNat, toNat, span, Nat.mod_one]
  | succ width ih =>
    rw [ofNat, toNat, ih, span, Nat.mod_mul]
    simp

theorem ofNat_toNat (bytes : Bytes) : ofNat bytes.length (toNat bytes) = bytes := by
  induction bytes with
  | nil => rfl
  | cons b rest ih =>
    have h : b.toNat < 256 := b.toNat_lt
    have low : UInt8.ofNat (b.toNat + 256 * toNat rest) = b := by
      apply UInt8.toNat.inj
      simp
    have high : (b.toNat + 256 * toNat rest) / 256 = toNat rest := by omega
    simp [ofNat, toNat, low, high, ih]

theorem toNat_lt (bytes : Bytes) : toNat bytes < span bytes.length := by
  induction bytes with
  | nil => simp [toNat, span]
  | cons b rest ih =>
    have h : b.toNat < 256 := b.toNat_lt
    rw [toNat, List.length_cons, span]
    omega

@[simp] theorem length_resize (bytes : Bytes) (n : Nat) : (bytes.resize n).length = n := by
  simp [resize, fill]; omega

theorem resize_of_length_eq {bytes : Bytes} {n : Nat} (h : bytes.length = n) :
    bytes.resize n = bytes := by
  subst h
  simp [resize, fill]

theorem resize_resize (bytes : Bytes) (n : Nat) : (bytes.resize n).resize n = bytes.resize n :=
  resize_of_length_eq (length_resize bytes n)

@[simp] theorem ofPacked_toByteArray (bytes : Bytes) : ofPacked bytes.toByteArray = bytes := by
  simp [ofPacked, List.data_toByteArray]

@[simp] theorem toByteArray_ofPacked (packed : ByteArray) :
    (ofPacked packed).toByteArray = packed := by
  apply ByteArray.ext
  simp [ofPacked, List.data_toByteArray]

@[simp] theorem ofPacked_append (a b : ByteArray) : ofPacked (a ++ b) = ofPacked a ++ ofPacked b := by
  simp [ofPacked]

@[simp] theorem length_ofPacked (packed : ByteArray) : (ofPacked packed).length = packed.size := rfl

@[simp] theorem ofPacked_extract (packed : ByteArray) (first last : Nat) :
    ofPacked (packed.extract first last) = ((ofPacked packed).take last).drop first := by
  simp [ofPacked, Array.toList_extract, List.extract_eq_take_drop, List.drop_take]

theorem length_part {s : Bytes} {place width : Nat} (inside : place + width ≤ s.length) :
    (part s place width).length = width := by
  simp [part]
  omega

theorem part_add (s : Bytes) (place first second : Nat) :
    part s place (first + second) = part s place first ++ part s (place + first) second := by
  rw [part, part, part, List.take_add, List.drop_drop]

theorem part_drop (s : Bytes) (front place width : Nat) :
    part (s.drop front) place width = part s (front + place) width := by
  simp [part]

theorem number_drop (s : Bytes) (front place width : Nat) :
    number (s.drop front) place width = number s (front + place) width := by
  rw [number, part_drop, number]

theorem part_append_left {s : Bytes} {place width : Nat} (inside : place + width ≤ s.length)
    (more : Bytes) : part (s ++ more) place width = part s place width := by
  rw [part, part, List.drop_append_of_le_length (by omega), List.take_append_of_le_length]
  rw [List.length_drop]
  omega

theorem number_append_left {s : Bytes} {place width : Nat} (inside : place + width ≤ s.length)
    (more : Bytes) : number (s ++ more) place width = number s place width := by
  rw [number, part_append_left inside, number]

@[simp] theorem part_append_of_le {front : Bytes} {place : Nat} (h : front.length ≤ place)
    (s : Bytes) (width : Nat) :
    part (front ++ s) place width = part s (place - front.length) width := by
  rw [part, part, List.drop_append, List.drop_eq_nil_of_le h, List.nil_append]

@[simp] theorem part_append_of_length {field : Bytes} {width : Nat} (h : field.length = width)
    (s : Bytes) : part (field ++ s) 0 width = field := by
  rw [part, List.drop_zero, ← h, List.take_left]

end Bytes

end Lidar
