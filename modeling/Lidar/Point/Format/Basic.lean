/-!
# Point formats

The four classic formats share a core of twenty bytes, followed by a gps time, a color, both or
neither. Whatever a record holds after its standard fields is carried as extra bytes.
-/
namespace Lidar

/-- Which optional fields a point record has, and how many bytes follow its standard fields. -/
structure Format where
  hasGpsTime : Bool
  hasColor : Bool
  extraBytes : UInt16
  deriving DecidableEq, Repr, Inhabited

namespace Format

def coreLength : Nat := 20

def maxLength : Nat := 65535

def ofId? : UInt8 → Option Format
  | 0 => some ⟨false, false, 0⟩
  | 1 => some ⟨true, false, 0⟩
  | 2 => some ⟨false, true, 0⟩
  | 3 => some ⟨true, true, 0⟩
  | _ => none

/-- The number of the format: one for a gps time and two for a color. -/
def id (f : Format) : UInt8 := (if f.hasGpsTime then 1 else 0) + (if f.hasColor then 2 else 0)

def standardLength (f : Format) : Nat :=
  coreLength + (if f.hasGpsTime then 8 else 0) + (if f.hasColor then 6 else 0)

def checkedLength? (f : Format) : Option Nat :=
  let length := f.standardLength + f.extraBytes.toNat
  if length ≤ maxLength then some length else none

/-- The size of a record. A format with more extra bytes than a header can declare has the
longest. -/
def length (f : Format) : Nat := f.checkedLength?.getD maxLength

def text (f : Format) : String :=
  let standard := s!"point format {f.id}"
  if 0 < f.extraBytes then s!"{standard} with {f.extraBytes} extra bytes" else standard

theorem ofId?_id {n : UInt8} {f : Format} (h : ofId? n = some f) : f.id = n := by
  unfold ofId? at h
  split at h <;> simp_all <;> subst h <;> rfl

end Format

end Lidar
