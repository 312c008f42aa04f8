import Lidar.Vlr.Basic

/-!
# The variable length records of a header

An ordered collection in which duplicates are allowed. Nothing enters it that could not be written.
-/
namespace Lidar.Vlr

/-- The variable length records of a header, in order. Each of them can be written. -/
@[ext]
structure Store where
  toList : List Vlr
  valid : ∀ v ∈ toList, v.Valid
  deriving DecidableEq, Repr

namespace Store

def empty : Store := ⟨[], by simp⟩

instance : Inhabited Store := ⟨empty⟩

def size (s : Store) : Nat := s.toList.length

def isEmpty (s : Store) : Bool := s.toList.isEmpty

def append (s : Store) (v : Vlr) (valid : v.Valid) : Store where
  toList := s.toList ++ [v]
  valid := List.forall_mem_append.2 ⟨s.valid, List.forall_mem_singleton.2 valid⟩

def push (s : Store) (v : Vlr) : Except Error Store :=
  match checked : v.validate with
  | .ok () => .ok (s.append v (validate_eq_ok_iff.1 checked))
  | .error e => .error e

def get (s : Store) (index : Nat) : Except Error Vlr :=
  match s.toList[index]? with
  | some v => .ok v
  | none => .error (.indexOutOfRange index s.size)

def eraseIdx (s : Store) (index : Nat) : Store where
  toList := s.toList.eraseIdx index
  valid v mem := s.valid v (List.mem_of_mem_eraseIdx mem)

def remove (s : Store) (index : Nat) : Except Error (Vlr × Store) := do
  return (← s.get index, s.eraseIdx index)

def filter (s : Store) (p : Vlr → Bool) : Store where
  toList := s.toList.filter p
  valid v mem := s.valid v (List.mem_filter.1 mem).1

def removeWhere (s : Store) (p : Vlr → Bool) : Nat × Store :=
  (s.toList.countP p, s.filter (!p ·))

def removeMatching (s : Store) (userId : String) (recordId : UInt16) : Nat × Store :=
  s.removeWhere (·.is userId recordId)

def find? (s : Store) (userId : String) (recordId : UInt16) : Option Vlr :=
  s.toList.find? (·.is userId recordId)

def blockSize (s : Store) : Nat := totalSize s.toList

theorem push_of_valid (s : Store) {v : Vlr} (valid : v.Valid) :
    s.push v = .ok (s.append v valid) := by
  unfold push
  split
  · rfl
  · next e refused =>
    rw [validate_eq_ok_iff.2 valid] at refused
    cases refused

theorem push_of_error (s : Store) {v : Vlr} {e : Error} (refused : v.validate = .error e) :
    s.push v = .error e := by
  unfold push
  split
  · next checked =>
    rw [refused] at checked
    cases checked
  · next e' refused' =>
    rw [refused] at refused'
    cases refused'
    rfl

theorem push_eq_ok {s s' : Store} {v : Vlr} :
    s.push v = .ok s' ↔ ∃ valid : v.Valid, s.append v valid = s' := by
  by_cases valid : v.Valid
  · simp [push_of_valid s valid, valid]
  · cases checked : v.validate with
    | ok _ => exact absurd (validate_eq_ok_iff.1 checked) valid
    | error e => simp [push_of_error s checked, valid]

end Store

end Lidar.Vlr
