import Lidar.Proofs.Header.InPlace
import Lidar.Proofs.Header.ReadBack
import Lidar.Proofs.Text.Characters

/-!
# The texts of a header

A coordinate system is put into a record as it is and ended by a nul, and it is read up to the
first nul: what stands behind a nul of its own is lost. An identifier is given out filled up with
spaces, and the filling counts characters where the field counts bytes.
-/
namespace Lidar.Header

variable {h : Header}

theorem coordinateSystemRecord_is (text : String) :
    (coordinateSystemRecord text).is projectionUserId coordinateSystemId = true := by
  simp [coordinateSystemRecord, Vlr.is]

theorem valid_coordinateSystemRecord {text : String} :
    (coordinateSystemRecord text).Valid ↔ text.utf8ByteSize < Vlr.maxData := by
  have ids : Text.Fits (coordinateSystemRecord text).userId Vlr.userIdWidth := by
    show Text.Fits projectionUserId Vlr.userIdWidth
    decide
  have about : Text.Fits (coordinateSystemRecord text).description Vlr.descriptionWidth := by
    show Text.Fits "OGC Coordinate System WKT" Vlr.descriptionWidth
    decide
  have size : (coordinateSystemRecord text).data.length = text.utf8ByteSize + 1 := by
    simp [coordinateSystemRecord, Text.length_bytes]
  simp only [Vlr.Valid, ids, about, size, true_and, Nat.succ_le_iff]

def referring (h : Header) (text : String) (short : text.utf8ByteSize < Vlr.maxData) : Header :=
  { h with
    records := (h.records.removeMatching projectionUserId coordinateSystemId).2.append
      (coordinateSystemRecord text) (valid_coordinateSystemRecord.2 short) }

theorem setSpatialReference_eq_ok {h' : Header} {text : String} :
    h.setSpatialReference text = .ok h' ↔
      ∃ short : text.utf8ByteSize < Vlr.maxData, h.referring text short = h' := by
  rw [setSpatialReference, Success.unit_bind_eq_ok, Vlr.validate_eq_ok_iff,
    valid_coordinateSystemRecord, ← exists_prop]
  refine exists_congr fun short => ?_
  dsimp only
  rw [Vlr.Store.push_of_valid _ (valid_coordinateSystemRecord.2 short)]
  exact Success.pure_eq_ok

theorem spatialReference?_referring (h : Header) {text : String}
    (short : text.utf8ByteSize < Vlr.maxData) :
    (h.referring text short).spatialReference? = some (Text.upToNul text) := by
  have others : (h.records.removeMatching projectionUserId coordinateSystemId).2.toList.find?
      (·.is projectionUserId coordinateSystemId) = none := by
    rw [List.find?_eq_none]
    intro v mem
    simpa using (List.mem_filter.1 mem).2
  have found : (h.referring text short).records.find? projectionUserId coordinateSystemId =
      some (coordinateSystemRecord text) := by
    show ((_ : List Vlr) ++ [coordinateSystemRecord text]).find? _ = _
    rw [List.find?_append, others, List.find?_singleton, coordinateSystemRecord_is]
    rfl
  rw [spatialReference?, found]
  show (Text.decode .coordinateSystem (Text.bytes text ++ 0 :: [])).toOption = _
  rw [Text.decode_bytes_append]
  rfl

/-- The text of a coordinate system is read up to its first nul, from the header and from what is
written for it. It is accepted when it is shorter than the longest payload, and an error changes
nothing. -/
theorem spatialReference_of_perform (made : h.Made) (text : String) :
    (∀ cause left, perform (.spatialReference text) h = .error cause left → left = h) ∧
    ((∃ h', perform (.spatialReference text) h = .ok () h') ↔ text.utf8ByteSize < Vlr.maxData) ∧
    ∀ h', perform (.spatialReference text) h = .ok () h' →
      h'.spatialReference? = some (Text.upToNul text) ∧
      (h'.spatialReference? = some text ↔ '\x00' ∉ text.toList) ∧
      (h.Reachable ∨ h.HasRoom → ∀ m, Medium.writeInTurn h' (.ofBytes []) = .ok () m → ∀ tail, ∃ back,
        (decode (m.bytes ++ tail)).result = .ok (back, tail) ∧
          back.spatialReference? = h'.spatialReference?) := by
  have performed (h' : Header) : perform (.spatialReference text) h = .ok () h' ↔
      h.setSpatialReference text = .ok h' := by
    rw [perform_eq]
    show h.atomically (h.setSpatialReference text) = _ ↔ _
    cases h.setSpatialReference text with
    | ok changed => simp [atomically]
    | error cause => simp [atomically]
  refine ⟨fun cause left => eq_of_perform_error, ?_, ?_⟩
  · simp [performed, setSpatialReference_eq_ok]
  intro h' accepted
  have edited := (performed h').1 accepted
  obtain ⟨short, rfl⟩ := setSpatialReference_eq_ok.1 edited
  have reference := spatialReference?_referring h short
  refine ⟨reference, ?_, ?_⟩
  · rw [reference, Option.some_inj, Text.upToNul_eq_self]
  · intro known m written tail
    have room : h.HasRoom := known.elim (fun reachable => reachable.sound.2) id
    obtain ⟨hw, room⟩ : (h.referring text short).WellFormed ∧ (h.referring text short).HasRoom :=
      ⟨{ made.wellFormed with }, room⟩
    obtain ⟨writable, bytes⟩ := Medium.bytes_of_writeInTurn hw written
    rw [bytes]
    exact ⟨_, decode_front hw room writable tail, rfl⟩

theorem spatialReference_of_perform_nul :
    ∃ h', perform (.spatialReference "a\x00b") (Header.empty 2017 1) = .ok () h' ∧
      h'.spatialReference? = some "a" := by
  obtain ⟨-, accepted, read⟩ := spatialReference_of_perform (.reachable (.empty 2017 1)) "a\x00b"
  obtain ⟨h', made⟩ := accepted.2 (by decide)
  refine ⟨h', made, ?_⟩
  rw [(read h' made).1]
  decide

theorem spatialReference_lost :
    ∃ h text h', Reachable h ∧ perform (.spatialReference text) h = .ok () h' ∧
      h'.spatialReference? ≠ some text := by
  let text := "a\x00b"
  have short : text.utf8ByteSize < Vlr.maxData := by decide
  have edited : (Header.empty 2017 1).setSpatialReference text =
      .ok (referring (.empty 2017 1) text short) :=
    setSpatialReference_eq_ok.2 ⟨short, rfl⟩
  refine ⟨.empty 2017 1, text, referring (.empty 2017 1) text short, .empty 2017 1, ?_, ?_⟩
  · rw [perform_eq]
    exact congrArg _ edited
  · rw [spatialReference?_referring]
    decide

/-- The texts of a header and of a record fit their fields, and each is given out with spaces up to
as many characters as its field has bytes. These are as many bytes exactly when each character of
the text has one. -/
theorem filledUp_of_reachable (made : h.Made) {v : Vlr} (valid : v.validate = .ok ()) :
    Text.FilledUp 32 h.systemIdentifier h.paddedSystemIdentifier ∧
      Text.FilledUp 32 h.generatingSoftware h.paddedGeneratingSoftware ∧
      Text.FilledUp 16 v.userId v.paddedUserId ∧
      Text.FilledUp 32 v.description v.paddedDescription := by
  have hw := made.wellFormed
  obtain ⟨userId, description, -⟩ := Vlr.validate_eq_ok_iff.1 valid
  exact ⟨Text.filledUp_padded hw.systemIdentifier, Text.filledUp_padded hw.generatingSoftware,
    Text.filledUp_padded userId, Text.filledUp_padded description⟩

def accented : Header := tryEdit (.empty 2017 1) (.systemIdentifier "éééééééééééééééé")

theorem accented_reachable : Reachable accented := (Reachable.empty 2017 1).tryEdits [_]

def marked : Vlr := ⟨0, "測量", 1, "survey", []⟩

theorem filledUp_of_reachable_accented :
    accented.paddedSystemIdentifier.utf8ByteSize = 48 ∧
      accented.paddedGeneratingSoftware.utf8ByteSize = 32 ∧
      marked.paddedUserId.utf8ByteSize = 20 ∧ marked.paddedDescription.utf8ByteSize = 32 := by
  have valid : marked.validate = .ok () := Vlr.validate_eq_ok_iff.2 (by decide)
  obtain ⟨system, software, userId, description⟩ :=
    filledUp_of_reachable (.reachable accented_reachable) valid
  exact ⟨system.bytes, software.bytes, userId.bytes, description.bytes⟩

theorem padded_too_long :
    ∃ h, Reachable h ∧ h.paddedSystemIdentifier.utf8ByteSize ≠ 32 := by
  refine ⟨accented, accented_reachable, ?_⟩
  decide +kernel

end Lidar.Header
