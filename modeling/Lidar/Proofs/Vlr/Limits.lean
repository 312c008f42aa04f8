import Lidar.Proofs.Header.InPlace
import Lidar.Proofs.Text.Characters

/-!
# What a file can hold of a record

A record built by hand is looked at when it is validated, when it enters a store and when it is put
into bytes. The three agree, on limits that are plain to state. What comes from a file is within
them, and only what stands behind the nul of a text is lost of it.
-/
namespace Lidar

namespace Text

variable {width : Nat}

def zeroed (field : Vector UInt8 width) : Vector UInt8 width :=
  Vector.ofFn fun i => if 0 ∈ field.toList.take i then 0 else field[i]

theorem zero_mem_bytes {s : String} : 0 ∈ bytes s ↔ '\x00' ∈ s.toList := by
  rw [bytes_eq_flatMap, List.mem_flatMap]
  constructor
  · intro ⟨c, mem, zero⟩
    rwa [← zero_mem_utf8EncodeChar.1 zero]
  · intro mem
    exact ⟨_, mem, zero_mem_utf8EncodeChar.2 rfl⟩

theorem fits_iff {s : String} : Fits s width ↔ s.utf8ByteSize ≤ width ∧ '\x00' ∉ s.toList := by
  rw [Fits, zero_mem_bytes]

theorem encode_of_decode {name : TextField} {field : Vector UInt8 width} {s : String}
    (decoded : decode name field.toList = .ok s) : encode width s = zeroed field := by
  have length : field.toList.length = width := field.length_toList
  rw [← Vector.toList_inj, toList_encode, ← decode_eq_ok.1 decoded]
  apply List.ext_getElem?
  intro i
  by_cases inside : i < width
  · rw [getElem?_resize_beforeNul length inside]
    split
    · next nul => simp [zeroed, inside, nul]
    · next noNul => simp [zeroed, inside, noNul]
  · simp [inside]

end Text

namespace Vlr

/-- What a file can hold of a record. -/
structure Storable (v : Vlr) : Prop where
  userId : v.userId.utf8ByteSize ≤ 16 ∧ '\x00' ∉ v.userId.toList
  description : v.description.utf8ByteSize ≤ 32 ∧ '\x00' ∉ v.description.toList
  data : v.data.length ≤ 65535

theorem valid_iff {v : Vlr} : v.Valid ↔ v.Storable := by
  unfold Valid
  rw [Text.fits_iff, Text.fits_iff]
  constructor
  · intro ⟨userId, description, data⟩
    exact ⟨userId, description, data⟩
  · intro h
    exact ⟨h.userId, h.description, h.data⟩

def Record.zeroed (r : Record) : Record :=
  { r with userId := Text.zeroed r.userId, description := Text.zeroed r.description }

theorem written_of_ofRecord {r : Record} {v : Vlr} (read : ofRecord r = .ok v)
    (complete : r.Complete) : v.written = r.zeroed := by
  obtain ⟨userId, description, reserved, recordId, data⟩ := ofRecord_eq_ok.1 read
  have length : UInt16.ofNat v.data.length = r.declaredLength := by
    rw [data, complete, UInt16.ofNat_toNat]
  show Record.mk v.reserved (Text.encode 16 v.userId) v.recordId (UInt16.ofNat v.data.length)
    (Text.encode 32 v.description) v.data = r.zeroed
  rw [Text.encode_of_decode userId, Text.encode_of_decode description, reserved, recordId, length,
    data]
  rfl

theorem ofRecord_isOk_iff {r : Record} :
    (∃ v, ofRecord r = .ok v) ↔ Text.IsText r.userId.toList ∧ Text.IsText r.description.toList := by
  rw [@Text.isText_iff_decode .userId, @Text.isText_iff_decode .description]
  constructor
  · intro ⟨v, read⟩
    obtain ⟨userId, description, -⟩ := ofRecord_eq_ok.1 read
    exact ⟨⟨_, userId⟩, ⟨_, description⟩⟩
  · intro ⟨⟨userId, hu⟩, ⟨description, hd⟩⟩
    exact ⟨⟨r.reserved, userId, r.recordId, description, r.data⟩,
      ofRecord_eq_ok.2 ⟨hu, hd, rfl, rfl, rfl⟩⟩

theorem perform_pushRecord_eq_ok {h left : Header} {v : Vlr} :
    Header.perform (.pushRecord v) h = .ok () left ↔
      v.Storable ∧ left = { h with records := left.records } ∧
        left.records.toList = h.records.toList ++ [v] := by
  rw [Header.perform_eq_ok, ← valid_iff]
  show (h.records.push v >>= fun records => pure { h with records }) = .ok left ↔ _
  simp only [Success.bind_eq_ok, Success.pure_eq_ok, Store.push_eq_ok]
  constructor
  · rintro ⟨_, ⟨valid, rfl⟩, rfl⟩
    exact ⟨valid, rfl, rfl⟩
  · rintro ⟨valid, same, records⟩
    have pushed : h.records.append v valid = left.records := Store.ext records.symm
    refine ⟨_, ⟨valid, rfl⟩, ?_⟩
    rw [pushed]
    exact same.symm

theorem perform_pushRecord_eq_error {h left : Header} {v : Vlr} :
    (∃ cause, Header.perform (.pushRecord v) h = .error cause left) ↔ ¬v.Storable ∧ left = h := by
  rw [← valid_iff, Header.perform_eq]
  show (∃ cause, h.atomically (h.records.push v >>= fun records => pure { h with records }) =
    .error cause left) ↔ _
  by_cases valid : v.Valid
  · rw [Store.push_of_valid _ valid]
    simp [Header.atomically, valid]
  · cases checked : v.validate with
    | ok _ => exact absurd (validate_eq_ok_iff.1 checked) valid
    | error e =>
      rw [Store.push_of_error _ checked]
      simp [Header.atomically, valid, eq_comm]

/-- A record built by hand is accepted by the three checks within the same limits. A store that
refuses it stays as it was, and an accepted record is read as it was from what is written for it. A
record from a file is accepted by all of them, and what is written for it differs only behind the
nuls of its texts. -/
theorem checks_agree :
    (∀ (v : Vlr) (h : Header),
      (v.validate = .ok () ↔ v.Storable) ∧
      ((∃ s, h.records.push v = .ok s) ↔ v.Storable) ∧
      ((∃ r, v.toRecord = .ok r) ↔ v.Storable) ∧
      (∀ left, Header.perform (.pushRecord v) h = .ok () left ↔
        v.Storable ∧ left = { h with records := left.records } ∧
          left.records.toList = h.records.toList ++ [v]) ∧
      (∀ left, (∃ cause, Header.perform (.pushRecord v) h = .error cause left) ↔
        ¬v.Storable ∧ left = h) ∧
      ∀ r, v.toRecord = .ok r → ofRecord r = .ok v ∧ r.encode.length = v.size) ∧
    ∀ r : Record, r.data.length = r.declaredLength.toNat →
      ((∃ v, ofRecord r = .ok v) ↔
        Text.IsText r.userId.toList ∧ Text.IsText r.description.toList) ∧
      ∀ v, ofRecord r = .ok v → v.validate = .ok () ∧ v.toRecord = .ok r.zeroed := by
  constructor
  · intro v h
    refine ⟨validate_eq_ok_iff.trans valid_iff, ?_, ?_, fun left => perform_pushRecord_eq_ok,
      fun left => perform_pushRecord_eq_error, ?_⟩
    · rw [← valid_iff]
      constructor
      · rintro ⟨s, pushed⟩
        obtain ⟨valid, -⟩ := Store.push_eq_ok.1 pushed
        exact valid
      · intro valid
        exact ⟨_, Store.push_of_valid _ valid⟩
    · simp only [toRecord_eq_ok, exists_and_left, exists_eq', and_true, valid_iff]
    · intro r made
      obtain ⟨hv, rfl⟩ := toRecord_eq_ok.1 made
      exact ⟨ofRecord_written hv, Record.length_encode v.written⟩
  · intro r complete
    refine ⟨ofRecord_isOk_iff, fun v read => ?_⟩
    have hv := (valid_of_ofRecord read complete).1
    exact ⟨validate_eq_ok_iff.2 hv, toRecord_eq_ok.2 ⟨hv, written_of_ofRecord read complete⟩⟩

def full : Vlr := ⟨0, "äöüäöüäö", 7, "", [1, 2, 3]⟩

def overfull : Vlr := { full with userId := "äöüäöüäö1" }

def stale : Record := ⟨0, Text.encode 16 "user\x00old", 7, 2, Text.encode 32 "", [4, 5]⟩

theorem checks_agree_full :
    (∃ r, full.toRecord = .ok r ∧ ofRecord r = .ok full ∧ r.encode.length = 57) ∧
    (∃ cause, Header.perform (.pushRecord overfull) (.empty 2017 1) =
      .error cause (.empty 2017 1)) ∧
    ∃ v, ofRecord stale = .ok v ∧ v.toRecord = .ok stale.zeroed ∧ stale.zeroed ≠ stale := by
  obtain ⟨-, -, made, -, -, kept⟩ := checks_agree.1 full (.empty 2017 1)
  obtain ⟨-, -, -, -, refused, -⟩ := checks_agree.1 overfull (.empty 2017 1)
  obtain ⟨legible, accepted⟩ := checks_agree.2 stale (by decide)
  refine ⟨?_, (refused _).2 ⟨?_, rfl⟩, ?_⟩
  · obtain ⟨r, ok⟩ := made.2 ⟨by decide +kernel, by decide +kernel, by decide⟩
    exact ⟨r, ok, (kept r ok).1, (kept r ok).2⟩
  · intro storable
    have long : ¬overfull.userId.utf8ByteSize ≤ 16 := by decide +kernel
    exact long storable.userId.1
  · obtain ⟨v, read⟩ := legible.2 (by decide +kernel)
    exact ⟨v, read, (accepted v read).2, by decide +kernel⟩

end Vlr

end Lidar
