import Lidar.Binary64
import Lidar.Bytes

/-!
# Fields on the wire

A field has an encoder to bytes and a decoder that reads it from the front of a run of bytes. A
decoder gives the value with the bytes after it, or nothing when the bytes end before the field
does. `Inverts` pairs the two: what was encoded is decoded whatever follows, and what was decoded
is the encoding of its value.
-/
namespace Lidar

/-- Reads a value from the front of bytes and leaves those after it; fails when they end early. -/
abbrev Decoder (α : Type) := StateT Bytes Option α

/-- The decoder reads exactly what the encoder writes. -/
structure Inverts (decode : Decoder α) (encode : α → Bytes) : Prop where
  append : ∀ a rest, decode (encode a ++ rest) = some (a, rest)
  complete : ∀ {s a rest}, decode s = some (a, rest) → s = encode a ++ rest

namespace Decoder

def take (n : Nat) : Decoder Bytes := fun s =>
  let head := s.take n
  if head.length = n then some (head, s.drop n) else none

def bytes (n : Nat) : Decoder (Vector UInt8 n) := fun s =>
  let head := s.take n
  if h : head.length = n then some (⟨head.toArray, by simpa using h⟩, s.drop n) else none

def word (width : Nat) : Decoder Nat := do return (← take width).toNat

def u8 : Decoder UInt8 := do return UInt8.ofNat (← word 1)
def u16 : Decoder UInt16 := do return UInt16.ofNat (← word 2)
def u32 : Decoder UInt32 := do return UInt32.ofNat (← word 4)
def u64 : Decoder UInt64 := do return UInt64.ofNat (← word 8)

def i8 : Decoder Int8 := do return (← u8).toInt8

def i32 : Decoder Int32 := do return (← u32).toInt32

def binary64 : Decoder Binary64 := do return ⟨← u64⟩

def vector (n : Nat) (element : Decoder α) : Decoder (Vector α n) :=
  match n with
  | 0 => pure #v[]
  | n + 1 => do
    let start ← vector n element
    return start.push (← element)

def when (condition : Bool) (value : Decoder α) : Decoder (Option α) :=
  if condition then some <$> value else pure none

end Decoder

namespace Wire

def u8 (x : UInt8) : Bytes := .ofNat 1 x.toNat
def u16 (x : UInt16) : Bytes := .ofNat 2 x.toNat
def u32 (x : UInt32) : Bytes := .ofNat 4 x.toNat
def u64 (x : UInt64) : Bytes := .ofNat 8 x.toNat

def i8 (x : Int8) : Bytes := u8 x.toUInt8

def i32 (x : Int32) : Bytes := u32 x.toUInt32

def binary64 (x : Binary64) : Bytes := u64 x.bits

def vector (element : α → Bytes) (v : Vector α n) : Bytes := v.toList.flatMap element

/-- A value, or zeros in its place, where the layout has it. -/
def when (condition : Bool) (value : α → Bytes) (absent : α) (a? : Option α) : Bytes :=
  if condition then value (a?.getD absent) else []

end Wire

theorem Decoder.pure_apply (a : α) (s : Bytes) : (pure a : Decoder α) s = some (a, s) := rfl

theorem Decoder.bind_apply (decode : Decoder α) (next : α → Decoder β) (s : Bytes) :
    (decode >>= next) s = (decode s).bind fun found => next found.1 found.2 := rfl

theorem Decoder.take_append {n : Nat} {bytes : Bytes} (width : bytes.length = n) (rest : Bytes) :
    Decoder.take n (bytes ++ rest) = some (bytes, rest) := by
  subst width
  simp [Decoder.take]

theorem Decoder.take_complete {n : Nat} {s bytes rest : Bytes}
    (h : Decoder.take n s = some (bytes, rest)) : s = bytes ++ rest ∧ bytes.length = n := by
  simp only [Decoder.take] at h
  split at h
  · next hl =>
    cases h
    exact ⟨(List.take_append_drop n s).symm, hl⟩
  · cases h

theorem Decoder.word_inverts (width : Nat) :
    (∀ n rest, n < Bytes.span width →
      Decoder.word width (Bytes.ofNat width n ++ rest) = some (n, rest)) ∧
    ∀ {s n rest}, Decoder.word width s = some (n, rest) →
      s = Bytes.ofNat width n ++ rest ∧ n < Bytes.span width := by
  constructor
  · intro n rest h
    have ht := Decoder.take_append (Bytes.length_ofNat width n) rest
    simp [Decoder.word, Decoder.bind_apply, Decoder.pure_apply, ht, Bytes.toNat_ofNat,
      Nat.mod_eq_of_lt h]
  · intro s n rest h
    simp only [Decoder.word, Decoder.bind_apply, Decoder.pure_apply, Option.bind_eq_some_iff,
      Option.some.injEq, Prod.mk.injEq, Prod.exists] at h
    obtain ⟨bytes, rest', ht, hn, hr⟩ := h
    obtain ⟨hs, hl⟩ := Decoder.take_complete ht
    subst hn hr hl
    exact ⟨by rw [Bytes.ofNat_toNat, hs], Bytes.toNat_lt bytes⟩

/-- A decoder that reads a word and wraps it inverts the encoder that writes the word. -/
private theorem inverts_word (width : Nat) (ofNat : Nat → α) (toNat : α → Nat)
    (lt : ∀ a, toNat a < Bytes.span width) (left : ∀ a, ofNat (toNat a) = a)
    (right : ∀ n, n < Bytes.span width → toNat (ofNat n) = n) :
    Inverts (do return ofNat (← Decoder.word width)) fun a => Bytes.ofNat width (toNat a) where
  append a rest := by
    simp [Decoder.bind_apply, Decoder.pure_apply, (Decoder.word_inverts width).1 _ rest (lt a), left]
  complete {s a rest} h := by
    simp only [Decoder.bind_apply, Decoder.pure_apply, Option.bind_eq_some_iff,
      Option.some.injEq, Prod.mk.injEq, Prod.exists] at h
    obtain ⟨n, rest', hw, ha, hr⟩ := h
    obtain ⟨hs, hn⟩ := (Decoder.word_inverts width).2 hw
    subst ha hr
    rw [right n hn, hs]

theorem inverts_u8 : Inverts Decoder.u8 Wire.u8 :=
  inverts_word 1 UInt8.ofNat UInt8.toNat (fun a => a.toNat_lt) (fun a => by simp)
    (fun n h => UInt8.toNat_ofNat_of_lt h)

theorem inverts_u16 : Inverts Decoder.u16 Wire.u16 :=
  inverts_word 2 UInt16.ofNat UInt16.toNat (fun a => a.toNat_lt) (fun a => by simp)
    (fun n h => UInt16.toNat_ofNat_of_lt h)

theorem inverts_u32 : Inverts Decoder.u32 Wire.u32 :=
  inverts_word 4 UInt32.ofNat UInt32.toNat (fun a => a.toNat_lt) (fun a => by simp)
    (fun n h => UInt32.toNat_ofNat_of_lt h)

theorem inverts_u64 : Inverts Decoder.u64 Wire.u64 :=
  inverts_word 8 UInt64.ofNat UInt64.toNat (fun a => a.toNat_lt) (fun a => by simp)
    (fun n h => UInt64.toNat_ofNat_of_lt h)

theorem Inverts.map {decode : Decoder α} {encode : α → Bytes} (h : Inverts decode encode)
    (f : α → β) (g : β → α) (left : ∀ b, f (g b) = b) (right : ∀ a, g (f a) = a) :
    Inverts (do return f (← decode)) fun b => encode (g b) where
  append b rest := by
    simp [Decoder.bind_apply, Decoder.pure_apply, h.append, left]
  complete {s b rest} hs := by
    simp only [Decoder.bind_apply, Decoder.pure_apply, Option.bind_eq_some_iff,
      Option.some.injEq, Prod.mk.injEq, Prod.exists] at hs
    obtain ⟨a, rest', ha, hb, hr⟩ := hs
    subst hb hr
    rw [right, h.complete ha]

theorem inverts_i8 : Inverts Decoder.i8 Wire.i8 :=
  inverts_u8.map UInt8.toInt8 Int8.toUInt8 (fun b => by simp) fun a => by simp

theorem inverts_i32 : Inverts Decoder.i32 Wire.i32 :=
  inverts_u32.map UInt32.toInt32 Int32.toUInt32 (fun b => by simp) fun a => by simp

theorem inverts_binary64 : Inverts Decoder.binary64 Wire.binary64 :=
  inverts_u64.map Binary64.mk Binary64.bits (fun _ => rfl) fun _ => rfl

theorem inverts_bytes (n : Nat) : Inverts (Decoder.bytes n) Vector.toList where
  append v rest := by
    simp [Decoder.bytes, Vector.toList]
  complete {s v rest} h := by
    simp only [Decoder.bytes] at h
    split at h
    · cases h
      simp
    · cases h

theorem Decoder.bind_eq_some {decode : Decoder α} {next : α → Decoder β} {s : Bytes} {b : β}
    {rest : Bytes} (h : (decode >>= next) s = some (b, rest)) :
    ∃ a behind, decode s = some (a, behind) ∧ next a behind = some (b, rest) := by
  obtain ⟨⟨a, behind⟩, ha, hb⟩ := Option.bind_eq_some_iff.1 h
  exact ⟨a, behind, ha, hb⟩

end Lidar
