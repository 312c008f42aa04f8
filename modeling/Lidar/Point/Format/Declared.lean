import Lidar.Error

/-!
# Formats as a header declares them
-/
namespace Lidar.Format

def ofId (n : UInt8) : Except Error Format :=
  match ofId? n with
  | some f => .ok f
  | none => .error (.unsupportedPointFormat n)

def validate (f : Format) : Except Error Unit :=
  if f.checkedLength?.isSome then .ok () else refuse (.recordTooLong f)

/-- The format with as many extra bytes as its records have after the standard fields. -/
def withRecordLength (f : Format) (length : UInt16) : Except Error Format :=
  if length.toNat < f.standardLength then
    .error (.malformedHeader (.recordLength length.toNat f))
  else .ok { f with extraBytes := UInt16.ofNat (length.toNat - f.standardLength) }

theorem validate_eq_ok_iff {f : Format} :
    f.validate = .ok () ↔ f.standardLength + f.extraBytes.toNat ≤ maxLength := by
  unfold validate checkedLength?
  by_cases h : f.standardLength + f.extraBytes.toNat ≤ maxLength <;> simp [h, refuse]

end Lidar.Format
