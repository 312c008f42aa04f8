import Lidar.Text.Field
import Lidar.Vlr.Record

/-!
# Variable length records

Metadata that the header has no field for. A record can be built by hand with anything in it; it is
`Valid` when its texts fit their fields and its payload fits the 16-bit length, and then it is read
back from the record that is written for it.
-/
namespace Lidar

structure Vlr where
  reserved : UInt16
  userId : String
  recordId : UInt16
  description : String
  data : Bytes
  deriving DecidableEq, Repr, Inhabited

namespace Vlr

def userIdWidth : Nat := 16

def descriptionWidth : Nat := 32

def maxData : Nat := 65535

def Valid (v : Vlr) : Prop :=
  Text.Fits v.userId userIdWidth ∧ Text.Fits v.description descriptionWidth ∧
    v.data.length ≤ maxData

instance (v : Vlr) : Decidable v.Valid := inferInstanceAs (Decidable (_ ∧ _ ∧ _))

def dataLength (v : Vlr) : Except Error UInt16 :=
  if maxData < v.data.length then throw (.recordTooLarge v.data.length)
  else return UInt16.ofNat v.data.length

/-- Refuses a record that cannot be written: the user id is looked at first, then the description,
then the payload. -/
def validate (v : Vlr) : Except Error Unit := do
  Text.check .userId v.userId userIdWidth
  Text.check .description v.description descriptionWidth
  let _ ← v.dataLength

def ofRecord (r : Record) : Except Error Vlr := do
  let userId ← Text.decode .userId r.userId.toList
  let description ← Text.decode .description r.description.toList
  return { reserved := r.reserved, userId, recordId := r.recordId, description, data := r.data }

/-- The record that is written for a valid one. Each field is checked again when it is made. -/
def toRecord (v : Vlr) : Except Error Record := do
  v.validate
  let declaredLength ← v.dataLength
  let userId ← Text.toField .userId userIdWidth v.userId
  let description ← Text.toField .description descriptionWidth v.description
  return {
    reserved := v.reserved
    userId
    recordId := v.recordId
    declaredLength
    description
    data := v.data }

def size (v : Vlr) : Nat := headSize + v.data.length

def totalSize (records : List Vlr) : Nat := records.foldr (fun v n => v.size + n) 0

@[simp] theorem totalSize_nil : totalSize [] = 0 := rfl

@[simp] theorem totalSize_cons (v : Vlr) (records : List Vlr) :
    totalSize (v :: records) = v.size + totalSize records := rfl

@[simp] theorem totalSize_append (records more : List Vlr) :
    totalSize (records ++ more) = totalSize records + totalSize more := by
  induction records with
  | nil => simp
  | cons v records ih => rw [List.cons_append, totalSize_cons, totalSize_cons, ih, Nat.add_assoc]

def paddedUserId (v : Vlr) : String := Text.padded userIdWidth v.userId

def paddedDescription (v : Vlr) : String := Text.padded descriptionWidth v.description

def is (v : Vlr) (userId : String) (recordId : UInt16) : Bool :=
  v.userId == userId && v.recordId == recordId

theorem dataLength_eq_ok {v : Vlr} {n : UInt16} :
    v.dataLength = .ok n ↔ v.data.length ≤ maxData ∧ UInt16.ofNat v.data.length = n := by
  unfold dataLength
  split
  · next h => simp [throw, throwThe, MonadExceptOf.throw]; omega
  · next h => simp [pure, Except.pure]; omega

theorem validate_eq_ok_iff {v : Vlr} : v.validate = .ok () ↔ v.Valid := by
  unfold validate Valid
  rw [← @Text.check_eq_ok_iff .userId, ← @Text.check_eq_ok_iff .description]
  cases Text.check .userId v.userId userIdWidth with
  | error e => simp [bind, Except.bind]
  | ok _ =>
    cases Text.check .description v.description descriptionWidth with
    | error e => simp [bind, Except.bind]
    | ok _ =>
      by_cases h : v.data.length ≤ maxData
      · rw [dataLength_eq_ok.2 ⟨h, rfl⟩]
        simp [bind, Except.bind, pure, Except.pure, h]
      · rw [dataLength, if_pos (Nat.lt_of_not_le h)]
        simp [bind, Except.bind, throw, throwThe, MonadExceptOf.throw, h]

end Vlr

end Lidar
