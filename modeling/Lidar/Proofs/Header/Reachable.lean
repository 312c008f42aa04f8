import Lidar.Header.Edit
import Lidar.Proofs.Header.Stream

/-!
# Headers that can be made

A header begins empty, is read from a stream or is made of a block, and it changes by edits that
succeed. All that a header needs to be written holds of every header that is made so, its counts and
its size apart. Only a block can bring more padding than the size can count.
-/
namespace Lidar.Header

/-- The headers that reading and editing make. -/
inductive Reachable : Header → Prop where
  | empty (year day : UInt16) : Reachable (Header.empty year day)
  | decode {s : Bytes} {h : Header} {rest : Bytes} (read : (Header.decode s).result = .ok (h, rest)) :
    Reachable h
  | edit {h h' : Header} {e : Edit} (reachable : Reachable h) (edited : h.edit e = .ok h') :
    Reachable h'

/-- All headers that there are: those of blocks as well. -/
inductive Made : Header → Prop where
  | reachable {h : Header} (reachable : Reachable h) : Made h
  | ofBlock {b : Block} {h : Header} (made : (Header.ofBlock b).result = .ok h) : Made h
  | edit {h h' : Header} {e : Edit} (made : Made h) (edited : h.edit e = .ok h') : Made h'

/-- The size of the header block counts all of the padding. -/
def HasRoom (h : Header) : Prop := h.version.headerSize + h.padding.length ≤ maxSize

def Block.HasRoom (b : Block) : Prop := b.version.headerSize + b.padding.length ≤ maxSize

structure WellFormed (h : Header) : Prop where
  version : h.version.isSupported = true
  format : h.format.standardLength + h.format.extraBytes.toNat ≤ Format.maxLength
  transforms : h.transforms.x.Usable ∧ h.transforms.y.Usable ∧ h.transforms.z.Usable
  systemIdentifier : Text.Fits h.systemIdentifier identifierWidth
  generatingSoftware : Text.Fits h.generatingSoftware identifierWidth

variable {h h' : Header}

theorem HasRoom.size_eq (room : h.HasRoom) : h.size = h.version.headerSize + h.padding.length := by
  unfold HasRoom at room
  rw [size, sizeWith?, if_pos room]
  rfl

theorem size_of_not_hasRoom (full : ¬h.HasRoom) : h.size = maxSize := by
  unfold HasRoom at full
  rw [size, sizeWith?, if_neg full]
  rfl

theorem size_le (h : Header) : h.size ≤ maxSize := by
  by_cases room : h.HasRoom
  · rw [room.size_eq]
    exact room
  · exact Nat.le_of_eq (size_of_not_hasRoom room)

theorem hasRoom_iff : h.HasRoom ↔ h.size = h.version.headerSize + h.padding.length := by
  refine ⟨HasRoom.size_eq, fun size => ?_⟩
  rw [HasRoom, ← size]
  exact h.size_le

theorem sizeWith?_isNone_iff {version : Version} {n : Nat} :
    (sizeWith? version n).isNone = true ↔ maxSize < version.headerSize + n := by
  unfold sizeWith?
  by_cases h : version.headerSize + n ≤ maxSize
  · simp [h]
  · simp [h, Nat.lt_of_not_le h]

theorem empty_wellFormed (year day : UInt16) : (Header.empty year day).WellFormed where
  version := rfl
  format := by
    show (⟨false, false, 0⟩ : Format).standardLength + 0 ≤ Format.maxLength
    decide
  transforms := by
    show Transform.default.Usable ∧ Transform.default.Usable ∧ Transform.default.Usable
    decide
  systemIdentifier := by
    show Text.Fits "lasio" identifierWidth
    decide
  generatingSoftware := by
    show Text.Fits "lasio 0.1.0" identifierWidth
    decide

theorem empty_hasRoom (year day : UInt16) : (Header.empty year day).HasRoom := by
  show Version.default.headerSize + ([] : Bytes).length ≤ maxSize
  decide

theorem edit_sound {e : Edit} (hw : h.WellFormed) (edited : h.edit e = .ok h') :
    h'.WellFormed ∧ (h.HasRoom → h'.HasRoom) := by
  cases e with
  | fileSourceId source => cases edited; exact ⟨{ hw with }, id⟩
  | globalEncoding bits => cases edited; exact ⟨{ hw with }, id⟩
  | guid guid => cases edited; exact ⟨{ hw with }, id⟩
  | version version =>
    change h.setVersion version = .ok h' at edited
    unfold setVersion at edited
    split at edited
    · cases edited
    split at edited
    · cases edited
    rename_i supported room
    rw [sizeWith?_isNone_iff, Nat.not_lt] at room
    cases edited
    exact ⟨{ hw with version := by simpa using supported }, fun _ => room⟩
  | systemIdentifier text =>
    obtain ⟨fits, edited⟩ := Success.unit_bind_eq_ok.1 edited
    cases edited
    exact ⟨{ hw with systemIdentifier := Text.check_eq_ok_iff.1 fits }, id⟩
  | generatingSoftware text =>
    obtain ⟨fits, edited⟩ := Success.unit_bind_eq_ok.1 edited
    cases edited
    exact ⟨{ hw with generatingSoftware := Text.check_eq_ok_iff.1 fits }, id⟩
  | creationDay day =>
    change h.setCreationDay day = .ok h' at edited
    unfold setCreationDay at edited
    split at edited
    · cases edited
    · cases edited
      exact ⟨{ hw with }, id⟩
  | creationYear year =>
    change h.setCreationYear year = .ok h' at edited
    unfold setCreationYear at edited
    split at edited
    · cases edited
    · cases edited
      exact ⟨{ hw with }, id⟩
  | date date =>
    change h.setDate date = .ok h' at edited
    unfold setDate at edited
    split at edited
    · cases edited
    · cases edited
      exact ⟨{ hw with }, id⟩
  | format format =>
    obtain ⟨fits, edited⟩ := Success.unit_bind_eq_ok.1 edited
    cases edited
    exact ⟨{ hw with format := Format.validate_eq_ok_iff.1 fits }, id⟩
  | compressed compressed => cases edited; exact ⟨{ hw with }, id⟩
  | transforms transforms =>
    obtain ⟨hx, edited⟩ := Success.unit_bind_eq_ok.1 edited
    obtain ⟨hy, edited⟩ := Success.unit_bind_eq_ok.1 edited
    obtain ⟨hz, edited⟩ := Success.unit_bind_eq_ok.1 edited
    cases edited
    exact ⟨{ hw with
      transforms := ⟨Transform.validate_eq_ok_iff.1 hx, Transform.validate_eq_ok_iff.1 hy,
        Transform.validate_eq_ok_iff.1 hz⟩ }, id⟩
  | padding bytes =>
    change h.setPadding bytes = .ok h' at edited
    unfold setPadding at edited
    split at edited
    · cases edited
    rename_i room
    rw [sizeWith?_isNone_iff, Nat.not_lt] at room
    cases edited
    exact ⟨{ hw with }, fun _ => room⟩
  | recordPadding bytes => cases edited; exact ⟨{ hw with }, id⟩
  | spatialReference text =>
    obtain ⟨_, edited⟩ := Success.unit_bind_eq_ok.1 edited
    obtain ⟨records, -, edited⟩ := Success.bind_eq_ok.1 edited
    cases edited
    exact ⟨{ hw with }, id⟩
  | finalize points byReturn bounds => cases edited; exact ⟨{ hw with }, id⟩
  | pushRecord record =>
    obtain ⟨records, -, edited⟩ := Success.bind_eq_ok.1 edited
    cases edited
    exact ⟨{ hw with }, id⟩
  | removeRecord index =>
    obtain ⟨removed, -, edited⟩ := Success.bind_eq_ok.1 edited
    cases edited
    exact ⟨{ hw with }, id⟩
  | removeMatching userId recordId => cases edited; exact ⟨{ hw with }, id⟩
  | clearRecords => cases edited; exact ⟨{ hw with }, id⟩

theorem Block.hasRoom_of_declared {b : Block}
    (declared : b.headerSize.toNat = b.version.headerSize + b.padding.length) : b.HasRoom := by
  unfold HasRoom
  rw [← declared]
  exact Nat.le_of_lt_succ b.headerSize.toNat_lt

theorem hasRoom_ofBlock_iff {b : Block} (made : (ofBlock b).result = .ok h) :
    h.HasRoom ↔ b.HasRoom := by
  obtain ⟨-, -, -, -, -, -, -, -, rfl⟩ := result_ofBlock_eq_ok.1 made
  exact Iff.rfl

theorem ofBlock_wellFormed {b : Block} (made : (ofBlock b).result = .ok h) : h.WellFormed := by
  obtain ⟨laidOut, usable, format, hf, software, hg, system, hs, rfl⟩ := result_ofBlock_eq_ok.1 made
  have fitsSoftware := Text.fits_of_decode hg
  have fitsSystem := Text.fits_of_decode hs
  rw [Vector.length_toList] at fitsSoftware fitsSystem
  constructor
  · exact laidOut.supported
  · show format.standardLength + format.extraBytes.toNat ≤ 65535
    rw [hf.length]
    exact Nat.le_of_lt_succ b.pointRecordLength.toNat_lt
  · exact usable
  · exact fitsSystem
  · exact fitsSoftware

/-- A header that is read is well formed and counts its padding, and reading takes the bytes up to
its point data. -/
theorem decode_sound {s rest : Bytes} (read : (decode s).result = .ok (h, rest)) :
    h.WellFormed ∧ h.HasRoom ∧ ∃ front, s = front ++ rest ∧ front.length = h.pointDataStart := by
  obtain ⟨b, behind, block, first, made, position, records, left, recordsRead, -, padding, hp, rfl⟩ :=
    result_decode_eq_ok.1 read
  obtain ⟨complete, head, rfl, size⟩ := Block.complete_of_decoder block
  have declared : b.headerSize.toNat = b.version.headerSize + b.padding.length := by
    rw [complete.padding, Nat.add_sub_cancel' (result_ofBlock_eq_ok.1 made).1.headerSize]
  have hw := ofBlock_wellFormed made
  have room := (hasRoom_ofBlock_iff made).2 (Block.hasRoom_of_declared declared)
  obtain ⟨found, whole, taken, -⟩ := takenFrom_of_decodeRecords recordsRead
  obtain ⟨front, rfl, length⟩ := taken.front
  obtain ⟨rfl, -⟩ := Decoder.take_complete hp
  refine ⟨{ hw with }, room, head ++ front ++ padding, by simp, ?_⟩
  have same : first.version = b.version ∧ first.padding = b.padding := by
    obtain ⟨-, -, -, -, -, -, -, -, rfl⟩ := result_ofBlock_eq_ok.1 made
    exact ⟨rfl, rfl⟩
  rw [List.length_append, List.length_append, size, length, ← same.1, ← same.2, ← room.size_eq]
  rw [pointDataStart, Vlr.Store.blockSize, whole]
  rfl

theorem Reachable.sound (reachable : h.Reachable) : h.WellFormed ∧ h.HasRoom := by
  induction reachable with
  | empty year day => exact ⟨empty_wellFormed year day, empty_hasRoom year day⟩
  | decode read => exact ⟨(decode_sound read).1, (decode_sound read).2.1⟩
  | edit _ edited ih => exact ⟨(edit_sound ih.1 edited).1, (edit_sound ih.1 edited).2 ih.2⟩

theorem Made.wellFormed (made : h.Made) : h.WellFormed := by
  induction made with
  | reachable reachable => exact reachable.sound.1
  | ofBlock made => exact ofBlock_wellFormed made
  | edit _ edited ih => exact (edit_sound ih edited).1

theorem sound_of_made (made : h.Reachable ∨ h.Made ∧ h.HasRoom) : h.WellFormed ∧ h.HasRoom := by
  rcases made with reachable | ⟨made, room⟩
  · exact reachable.sound
  · exact ⟨made.wellFormed, room⟩

/-- Edits that are refused change nothing, so what every successful edit keeps is kept when any
edits are tried. -/
theorem tryEdits_induction {P : Header → Prop}
    (keeps : ∀ {h h' e}, P h → edit h e = .ok h' → P h') (start : P h) (edits : List Edit) :
    P (edits.foldl tryEdit h) := by
  induction edits generalizing h with
  | nil => exact start
  | cons e edits ih =>
    refine ih ?_
    unfold tryEdit
    cases edited : h.edit e with
    | ok changed => exact keeps start edited
    | error _ => exact start

theorem Reachable.tryEdits (reachable : h.Reachable) (edits : List Edit) :
    Reachable (edits.foldl tryEdit h) :=
  tryEdits_induction Reachable.edit reachable edits

end Lidar.Header
