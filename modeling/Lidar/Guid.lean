import Lidar.Bytes

/-!
# Project ids

A file holds a project id as sixteen bytes: three little-endian words, then eight bytes in order.
Its text shows the words high byte first, so four, two and two bytes change places between the two.
-/
namespace Lidar

structure Guid where
  bytes : Vector UInt8 16
  deriving DecidableEq, Repr

namespace Guid

def nil : Guid := ⟨Vector.replicate 16 0⟩

/-- The place in the file of each byte of the text, and of the text of each byte in the file. -/
def places : Vector (Fin 16) 16 := #v[3, 2, 1, 0, 5, 4, 7, 6, 8, 9, 10, 11, 12, 13, 14, 15]

def exchange (bytes : Vector UInt8 16) : Vector UInt8 16 := places.map fun i => bytes[i]

def hexByte (b : UInt8) : List Char := [(b.toNat / 16).digitChar, (b.toNat % 16).digitChar]

def text (g : Guid) : String :=
  let digits (i n : Nat) := (((exchange g.bytes).toList.drop i).take n).flatMap hexByte
  let groups := [digits 0 4, digits 4 2, digits 6 2, digits 8 2, digits 10 6]
  "-".intercalate (groups.map String.ofList)

def hexValue? (c : Char) : Option Nat :=
  if '0' ≤ c ∧ c ≤ '9' then some (c.toNat - '0'.toNat)
  else if 'a' ≤ c ∧ c ≤ 'f' then some (c.toNat - 'a'.toNat + 10)
  else if 'A' ≤ c ∧ c ≤ 'F' then some (c.toNat - 'A'.toNat + 10)
  else none

def hexBytes? : List Char → Option Bytes
  | [] => some []
  | [_] => none
  | high :: low :: rest => do
    let h ← hexValue? high
    let l ← hexValue? low
    return UInt8.ofNat (16 * h + l) :: (← hexBytes? rest)

def withoutHyphens (digits : List Char) : List Char :=
  if digits.length = 36 ∧ [8, 13, 18, 23].all (fun i => digits[i]? == some '-') then
    digits.take 8 ++ (digits.drop 9).take 4 ++ (digits.drop 14).take 4 ++
      (digits.drop 19).take 4 ++ digits.drop 24
  else digits

def withoutFrame (text : List Char) : List Char :=
  let scheme := "urn:uuid:".toList
  if text.take scheme.length = scheme then text.drop scheme.length
  else if text.head? = some '{' ∧ text.getLast? = some '}' then (text.drop 1).dropLast
  else text

/-- The id of a text of 32 hexadecimal digits of either case, with or without hyphens. -/
def ofText? (text : String) : Option Guid := do
  let bytes ← hexBytes? (withoutHyphens (withoutFrame text.toList))
  if h : bytes.length = 16 then some ⟨exchange ⟨bytes.toArray, by simpa using h⟩⟩ else none

theorem exchange_exchange (bytes : Vector UInt8 16) : exchange (exchange bytes) = bytes := by
  have h : ∀ i : Fin 16, places[places[i]] = i := by decide
  apply Vector.ext
  intro i hi
  have hi' := h ⟨i, hi⟩
  simp only [exchange, Vector.getElem_map, Fin.getElem_fin] at *
  simp [hi']

end Guid

end Lidar
