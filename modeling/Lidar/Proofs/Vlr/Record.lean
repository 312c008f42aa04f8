import Lidar.Proofs.Text.Field
import Lidar.Proofs.Wire
import Lidar.Vlr.Store

/-!
# Variable length records on the wire

A record whose payload has its declared length is read back from its bytes. A valid record has such
a form in the file, from which it is read as it was, and what is read from a file is valid, so that
a header read from a file can be written again.
-/
namespace Lidar.Vlr

namespace Record

def Complete (r : Record) : Prop := r.data.length = r.declaredLength.toNat

theorem inverts : InvertsOn Complete decoder encode := by
  show InvertsOn Complete decoder fun r => encode r
  simp only [encode, List.append_assoc]
  refine InvertsOn.field inverts_u16 Record.reserved fun reserved => ?_
  refine InvertsOn.field (inverts_bytes 16) Record.userId fun userId => ?_
  refine InvertsOn.field inverts_u16 Record.recordId fun recordId => ?_
  refine InvertsOn.field inverts_u16 Record.declaredLength fun declaredLength => ?_
  refine InvertsOn.field (inverts_bytes 32) Record.description fun description => ?_
  simp only [and_assoc]
  refine (InvertsOn.take declaredLength.toNat).last Record.data ?_ fun data length r => ?_
  · rintro r ⟨complete, -, -, -, rfl, -⟩
    exact complete
  · constructor
    · intro hr
      cases r
      simp_all
    · rintro rfl
      exact ⟨⟨length, rfl, rfl, rfl, rfl, rfl⟩, rfl⟩

open Decoder in
theorem suffices_decoder : Suffices 65589 decoder := by
  have fields : Suffices _ decoder :=
    takes_u16.suffices.bind fun _ => (takes_bytes 16).suffices.bind fun _ =>
    takes_u16.suffices.bind fun _ => takes_u16.suffices.bind fun declared =>
    (takes_bytes 32).suffices.bind fun _ =>
    ((takes_take declared.toNat).map _).suffices.mono (Nat.le_of_lt_succ declared.toNat_lt)
  exact fields

end Record

def written (v : Vlr) : Record where
  reserved := v.reserved
  userId := Text.encode userIdWidth v.userId
  recordId := v.recordId
  declaredLength := UInt16.ofNat v.data.length
  description := Text.encode descriptionWidth v.description
  data := v.data

/-- The checks that are made again refuse nothing more. -/
theorem toRecord_eq_ok {v : Vlr} {r : Record} : v.toRecord = .ok r ↔ v.Valid ∧ v.written = r := by
  unfold toRecord
  rw [Success.unit_bind_eq_ok, validate_eq_ok_iff]
  apply and_congr_right
  intro valid
  rw [dataLength_eq_ok.2 ⟨valid.2.2, rfl⟩, Success.ok_bind, Text.toField_of_fits valid.1,
    Success.ok_bind, Text.toField_of_fits valid.2.1, Success.ok_bind, Success.pure_eq_ok]
  rfl

theorem size_written (v : Vlr) : v.written.size = v.size := rfl

theorem ofRecord_eq_ok {r : Record} {v : Vlr} :
    ofRecord r = .ok v ↔ Text.decode .userId r.userId.toList = .ok v.userId ∧
      Text.decode .description r.description.toList = .ok v.description ∧
      v.reserved = r.reserved ∧ v.recordId = r.recordId ∧ v.data = r.data := by
  unfold ofRecord
  simp only [Success.bind_eq_ok, Success.pure_eq_ok]
  constructor
  · rintro ⟨userId, hu, description, hd, rfl⟩
    exact ⟨hu, hd, rfl, rfl, rfl⟩
  · rintro ⟨hu, hd, h1, h2, h3⟩
    refine ⟨v.userId, hu, v.description, hd, ?_⟩
    cases v
    simp_all

theorem ofRecord_written {v : Vlr} (h : v.Valid) : ofRecord v.written = .ok v :=
  ofRecord_eq_ok.2 ⟨Text.decode_encode h.1, Text.decode_encode h.2.1, rfl, rfl, rfl⟩

theorem written_complete {v : Vlr} (h : v.Valid) : v.written.Complete := by
  have small : v.data.length < 65536 := Nat.lt_succ_of_le h.2.2
  exact (UInt16.toNat_ofNat_of_lt small).symm

theorem valid_of_ofRecord {r : Record} {v : Vlr} (h : ofRecord r = .ok v) (complete : r.Complete) :
    v.Valid ∧ r.size = v.size := by
  obtain ⟨userId, description, -, -, data⟩ := ofRecord_eq_ok.1 h
  have hu := Text.fits_of_decode userId
  have hd := Text.fits_of_decode description
  rw [Vector.length_toList] at hu hd
  have small := r.declaredLength.toNat_lt
  refine ⟨⟨hu, hd, ?_⟩, ?_⟩
  · rw [data, complete]
    exact Nat.le_of_lt_succ small
  · rw [Record.size, size, data]

end Lidar.Vlr
