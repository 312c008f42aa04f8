import Lidar.Proofs.Header.Grammar
import Lidar.Proofs.Header.ReadBack

/-!
# Files written again

A header that is read from a file and written again gives the bytes before the points back, whoever
wrote the file. What changes is named: what stands behind the nul of a text, what the header has no
place for, and counts.
-/
namespace Lidar.Header

variable {s : Bytes}

inductive Rewritten (s : Bytes) (i : Nat) : Prop where
  /-- Version 1.0 reserves the field of the file source id. -/
  | fileSourceId (version : Declared.version s = ⟨1, 0⟩) (place : 4 ≤ i ∧ i < 6)
  /-- The byte stands behind the first nul of a text. -/
  | text {field : Nat × Nat} (mem : field ∈ textFields s)
    (place : field.1 ≤ i ∧ i < field.1 + field.2) (nul : 0 ∈ s.part field.1 (i - field.1))
  | recordCount (place : 100 ≤ i ∧ i < 104)
  | waveforms (has : (Declared.version s).supports .waveforms = true) (place : 227 ≤ i ∧ i < 235)
  | extendedRecords (has : (Declared.version s).supports .extendedRecords = true)
    (place : 235 ≤ i ∧ i < 247)
  /-- Version 1.4 has each count in two places. -/
  | counts (version : Declared.version s = ⟨1, 4⟩)
    (place : 107 ≤ i ∧ i < 131 ∨ 247 ≤ i ∧ i < 375)

/-- The bytes are those of a file up to its points, except where they may change. -/
structure RewrittenAs (s out : Bytes) : Prop where
  length : out.length = Declared.start s
  kept : ∀ i < Declared.start s, ¬Rewritten s i → out[i]? = s[i]?
  fileSourceId : Declared.version s = ⟨1, 0⟩ → out.part 4 2 = [0, 0]
  texts : ∀ field ∈ textFields s, out.part field.1 field.2 =
    (Text.beforeNul (s.part field.1 field.2)).resize field.2
  recordCount : out.number 100 4 = (recordPlaces s).length
  waveforms : (Declared.version s).supports .waveforms = true → out.part 227 8 = Bytes.fill 8 0
  extendedRecords : (Declared.version s).supports .extendedRecords = true →
    out.part 235 12 = Bytes.fill 12 0
  bounds : out.part 179 48 = s.part 179 48
  padding : let front := (Declared.version s).headerSize
    out.part front (Declared.size s - front) = s.part front (Declared.size s - front)
  data : ∀ place ∈ recordPlaces s,
    out.part (place + Vlr.headSize) (s.number (place + 20) 2) =
      s.part (place + Vlr.headSize) (s.number (place + 20) 2)
  recordPadding : out.part (recordsEnd s) (Declared.start s - recordsEnd s) =
    s.part (recordsEnd s) (Declared.start s - recordsEnd s)

/-- A run of bytes is replaced by as many, which differ from it only where bytes may change. -/
structure Kept (s : Bytes) (place : Nat) (old new : Bytes) : Prop where
  length : new.length = old.length
  bytes : ∀ i < old.length, ¬Rewritten s (place + i) → new[i]? = old[i]?

namespace Kept

variable {place width : Nat} {old new olds news : Bytes}

theorem same (old : Bytes) : Kept s place old old where
  length := rfl
  bytes _ _ _ := rfl

theorem free (length : new.length = old.length)
    (all : ∀ i < old.length, Rewritten s (place + i)) : Kept s place old new where
  length := length
  bytes i inside keep := absurd (all i inside) keep

theorem append (own : old.length = width) (first : Kept s place old new)
    (later : Kept s (place + width) olds news) : Kept s place (old ++ olds) (new ++ news) where
  length := by
    rw [List.length_append, List.length_append, first.length, later.length]
  bytes i inside keep := by
    subst own
    by_cases inFirst : i < old.length
    · rw [List.getElem?_append_left (first.length ▸ inFirst), List.getElem?_append_left inFirst]
      exact first.bytes i inFirst keep
    · have behind := Nat.not_lt.1 inFirst
      rw [List.length_append] at inside
      rw [List.getElem?_append_right (first.length ▸ behind), List.getElem?_append_right behind,
        first.length]
      refine later.bytes _ (by omega) ?_
      rwa [Nat.add_assoc, Nat.add_sub_cancel' behind]

end Kept

theorem Kept.text {place width : Nat} {old : Vector UInt8 width} {text : String}
    (mem : (place, width) ∈ textFields s) (stands : s.part place width = old.toList)
    (decoded : Text.beforeNul old.toList = Text.bytes text) :
    Kept s place old.toList (Text.encode width text).toList := by
  have length : old.toList.length = width := old.length_toList
  rw [Text.toList_encode, ← decoded]
  constructor
  · rw [Bytes.length_resize, length]
  · intro i inside keep
    rw [length] at inside
    rw [Text.getElem?_resize_beforeNul length inside, if_neg fun nul => keep ?_]
    refine .text mem ⟨Nat.le_add_right place i, Nat.add_lt_add_left inside place⟩ ?_
    rw [Nat.add_sub_cancel_left, Bytes.part, ← Nat.min_eq_left (Nat.le_of_lt inside),
      ← List.take_take, ← Bytes.part, stands]
    exact nul

private theorem formatByte_id : ∀ byte : Fin 256,
    let byte := UInt8.ofNat byte
    let id := byte &&& ~~~Block.compressedBit
    (if byte &&& Block.compressedBit == Block.compressedBit then id ||| Block.compressedBit
      else id) = byte := by
  decide +kernel

theorem formatByte_of_hasFormat {b : Block} {h : Header} (format : b.HasFormat h.format)
    (compressed : h.compressed = b.isCompressed) : h.formatByte = b.pointFormat := by
  have id : ({ h.format with extraBytes := 0 } : Format).id =
      b.pointFormat &&& ~~~Block.compressedBit := Format.ofId?_id format.id
  change h.format.id = _ at id
  have byte := formatByte_id ⟨b.pointFormat.toNat, b.pointFormat.toNat_lt⟩
  rw [UInt8.ofNat_toNat] at byte
  rw [formatByte, id, compressed]
  exact byte

theorem shortCount_toUInt64 (n : UInt32) : shortCount n.toUInt64 = n := by
  have small := n.toNat_lt
  have fits : n.toUInt64.toNat ≤ maxCount := by
    rw [UInt32.toNat_toUInt64, maxCount]
    omega
  rw [shortCount, if_pos fits]
  simp

def Block.rewritten (b : Block) (h : Header) : Block :=
  { b with
    fileSourceId := b.sourceId
    systemIdentifier := Text.encode identifierWidth h.systemIdentifier
    generatingSoftware := Text.encode identifierWidth h.generatingSoftware
    recordCount := UInt32.ofNat h.records.size
    points := shortCount b.numberOfPoints
    pointsByReturn := b.numberOfPointsByReturn.map shortCount
    waveformStart? := if b.version.supports .waveforms then some 0 else none
    extendedRecords? := if b.version.supports .extendedRecords then some ⟨0, 0⟩ else none
    largeCounts? := if b.version.supports .largeFiles then some h.largeCounts else none }

theorem block_of_ofBlock {b : Block} {first : Header} {records : Vlr.Store} {recordPadding : Bytes}
    (complete : b.Complete) (made : (ofBlock b).result = .ok first)
    (start : ({ first with records, recordPadding } : Header).pointDataStart =
      b.pointDataStart.toNat) :
    ({ first with records, recordPadding } : Header).block =
      b.rewritten { first with records, recordPadding } := by
  have hw := ofBlock_wellFormed made
  have size : UInt16.ofNat first.size = b.headerSize := by
    rw [size_of_ofBlock complete made, UInt16.ofNat_toNat]
  have place : UInt32.ofNat ({ first with records, recordPadding } : Header).pointDataStart =
      b.pointDataStart := by
    rw [start, UInt32.ofNat_toNat]
  obtain ⟨laidOut, -, format, hasFormat, software, -, system, -, found⟩ :=
    result_ofBlock_eq_ok.1 made
  have hasFormat : b.HasFormat first.format := found ▸ hasFormat
  have byte : first.formatByte = b.pointFormat :=
    formatByte_of_hasFormat hasFormat (by rw [← found])
  have length : UInt16.ofNat first.format.length = b.pointRecordLength := by
    rw [(format_length hw).trans hasFormat.length, UInt16.ofNat_toNat]
  subst found
  unfold block Block.rewritten
  refine (Block.mk.injEq ..).mpr ?_
  exact ⟨laidOut.signature.symm, rfl, rfl, rfl, rfl, rfl, rfl, rfl, rfl, size, place, rfl, byte,
    length, rfl, rfl, rfl, rfl, rfl, rfl, rfl, rfl, rfl⟩

namespace Block

variable {b : Block} {h : Header}

theorem kept_when {α : Type} {encode : α → Bytes} {place width : Nat}
    (length : ∀ a, (encode a).length = width) (condition : Bool) (absent : α) (old? new? : Option α)
    (free : condition = true → ∀ i < width, Rewritten s (place + i)) :
    Kept s place (Wire.when condition encode absent old?) (Wire.when condition encode absent new?) := by
  have old := Wire.length_when length condition absent old?
  have new := Wire.length_when length condition absent new?
  refine .free (new.trans old.symm) fun i inside => ?_
  rw [old] at inside
  cases condition with
  | false => cases inside
  | true => exact free rfl i inside

theorem kept_fileSourceId (stands : b.StandsIn s) (supported : b.version.isSupported = true) :
    Kept s 4 (Wire.u16 b.fileSourceId) (Wire.u16 b.sourceId) := by
  by_cases version : b.version = ⟨1, 0⟩
  · refine .free (by simp) fun i inside => ?_
    rw [Wire.length_u16] at inside
    exact .fileSourceId (stands.version.trans version) (by omega)
  · have free : b.hasReservedSourceId = false := by
      rw [hasReservedSourceId, (Version.supports_fileSourceId_iff supported).2 version]
      simp
    rw [sourceId, free]
    exact .same _

theorem points_eq (complete : b.Complete) (version : b.version ≠ ⟨1, 4⟩) :
    shortCount b.numberOfPoints = b.points ∧
      b.numberOfPointsByReturn.map shortCount = b.pointsByReturn := by
  have none : b.largeCounts? = none := by
    rw [← Option.not_isSome_iff_eq_none, complete.largeFiles, Version.supports_largeFiles_iff]
    exact version
  constructor
  · unfold numberOfPoints
    rw [none]
    by_cases some : 0 < b.points
    · rw [if_pos some, shortCount_toUInt64]
    · rw [if_neg some, UInt32.le_zero_iff.1 (UInt32.not_lt.1 some)]
      rfl
  · unfold numberOfPointsByReturn
    rw [none]
    simp [Function.comp_def, shortCount_toUInt64]

theorem kept_points (complete : b.Complete) (stands : b.StandsIn s) :
    Kept s 107 (Wire.u32 b.points) (Wire.u32 (shortCount b.numberOfPoints)) := by
  by_cases version : b.version = ⟨1, 4⟩
  · refine .free (by simp) fun i inside => ?_
    rw [Wire.length_u32] at inside
    exact .counts (stands.version.trans version) (by omega)
  · rw [(points_eq complete version).1]
    exact .same _

theorem kept_pointsByReturn (complete : b.Complete) (stands : b.StandsIn s) :
    Kept s 111 (Wire.vector Wire.u32 b.pointsByReturn)
      (Wire.vector Wire.u32 (b.numberOfPointsByReturn.map shortCount)) := by
  by_cases version : b.version = ⟨1, 4⟩
  · refine .free ?_ fun i inside => ?_
    · rw [Wire.length_vector Wire.length_u32, Wire.length_vector Wire.length_u32]
    · rw [Wire.length_vector Wire.length_u32] at inside
      exact .counts (stands.version.trans version) (by omega)
  · rw [(points_eq complete version).2]
    exact .same _

theorem kept_encode (complete : b.Complete) (stands : b.StandsIn s)
    (supported : b.version.isSupported = true)
    (system : Text.beforeNul b.systemIdentifier.toList = Text.bytes h.systemIdentifier)
    (software : Text.beforeNul b.generatingSoftware.toList = Text.bytes h.generatingSoftware) :
    Kept s 0 b.encode (b.rewritten h).encode := by
  have identifier {place : Nat} (mem : place = 26 ∨ place = 58) :
      (place, identifierWidth) ∈ textFields s := by
    rcases mem with rfl | rfl <;> simp [textFields]
  unfold encode
  simp only [List.append_assoc]
  refine .append Vector.length_toList (.same _) ?_
  refine .append (Wire.length_u16 _) (kept_fileSourceId stands supported) ?_
  refine .append (Wire.length_u16 _) (.same _) ?_
  refine .append Vector.length_toList (.same _) ?_
  refine .append (length_encodeVersion _) (.same _) ?_
  refine .append Vector.length_toList
    (.text (identifier (.inl rfl)) stands.systemIdentifier system) ?_
  refine .append Vector.length_toList
    (.text (identifier (.inr rfl)) stands.generatingSoftware software) ?_
  refine .append (Wire.length_u16 _) (.same _) ?_
  refine .append (Wire.length_u16 _) (.same _) ?_
  refine .append (Wire.length_u16 _) (.same _) ?_
  refine .append (Wire.length_u32 _) (.same _) ?_
  refine .append (Wire.length_u32 _) ?_ ?_
  · refine .free (by simp) fun i inside => .recordCount ?_
    rw [Wire.length_u32] at inside
    omega
  refine .append (Wire.length_u8 _) (.same _) ?_
  refine .append (Wire.length_u16 _) (.same _) ?_
  refine .append (Wire.length_u32 _) (kept_points complete stands) ?_
  refine .append (Wire.length_vector Wire.length_u32 _) (kept_pointsByReturn complete stands) ?_
  refine .append (length_encodeAxes _) (.same _) ?_
  refine .append (length_encodeAxes _) (.same _) ?_
  refine .append (length_encodeBounds _) (.same _) ?_
  refine .append (Wire.length_when Wire.length_u64 _ _ _) (kept_when Wire.length_u64 _ _ _ _ ?_) ?_
  · intro has i inside
    exact .waveforms (stands.version ▸ has) (by omega)
  refine .append (Wire.length_when length_encodeExtended _ _ _)
    (kept_when length_encodeExtended _ _ _ _ ?_) ?_
  · intro has i inside
    rw [if_pos (Version.supports_waveforms has)]
    exact .extendedRecords (stands.version ▸ has) (by omega)
  refine .append (Wire.length_when length_encodeLarge _ _ _)
    (kept_when length_encodeLarge _ _ _ _ ?_) (.same _)
  intro has i inside
  have version := Version.supports_largeFiles_iff.1 has
  rw [if_pos (by rw [version]; rfl), if_pos (by rw [version]; rfl)]
  exact .counts (stands.version.trans version) (by omega)

end Block

theorem part_eq_encode {place : Nat} {v : Vlr} (stands : v.StandsAt s place) :
    ∃ r, s.part place (Vlr.sizeAt s place) = r.encode ∧ r.Complete ∧ r.StandsAt s place ∧
      Vlr.ofRecord r = .ok v := by
  obtain ⟨r, read, made⟩ := Vlr.read_iff.2 ⟨stands, rfl⟩
  obtain ⟨complete, found⟩ := Vlr.Record.inverts.complete read
  refine ⟨r, ?_, complete, Vlr.Record.standsAt_of_drop found, made⟩
  rw [Bytes.part, found, ← Vlr.Record.size_of_read read, ← r.length_encode, List.take_left]

theorem kept_record {place : Nat} {v : Vlr} (stands : v.StandsAt s place)
    (mem : place ∈ recordPlaces s) :
    Kept s place (s.part place (Vlr.sizeAt s place)) v.written.encode := by
  obtain ⟨r, part, complete, fields, made⟩ := part_eq_encode stands
  obtain ⟨userId, description, reserved, recordId, data⟩ := Vlr.ofRecord_eq_ok.1 made
  have field {front width : Nat}
      (one : (front, width) = (2, Vlr.userIdWidth) ∨ (front, width) = (22, Vlr.descriptionWidth)) :
      (place + front, width) ∈ textFields s := by
    refine List.mem_cons_of_mem _ (List.mem_cons_of_mem _ (List.mem_flatMap.2 ⟨place, mem, ?_⟩))
    simpa using one
  have length : UInt16.ofNat v.data.length = r.declaredLength := by
    rw [data, complete, UInt16.ofNat_toNat]
  have written : v.written = ⟨r.reserved, Text.encode Vlr.userIdWidth v.userId, r.recordId,
      r.declaredLength, Text.encode Vlr.descriptionWidth v.description, r.data⟩ := by
    rw [Vlr.written, reserved, recordId, length, data]
  rw [part, written]
  unfold Vlr.Record.encode
  simp only [List.append_assoc]
  refine .append (Wire.length_u16 _) (.same _) ?_
  refine .append Vector.length_toList
    (.text (field (.inl rfl)) fields.userId (Text.decode_eq_ok.1 userId)) ?_
  refine .append (Wire.length_u16 _) (.same _) ?_
  refine .append (Wire.length_u16 _) (.same _) ?_
  refine .append Vector.length_toList
    (.text (field (.inr rfl)) fields.description (Text.decode_eq_ok.1 description)) ?_
  exact .same _

theorem kept_records {place : Nat} {places : List Nat} {found : List Vlr} (row : Row s place places)
    (stand : List.Forall₂ (Vlr.StandsAt s) places found)
    (mem : ∀ p ∈ places, p ∈ recordPlaces s) :
    Kept s place (s.part place (endOf s place places - place)) (encodeRecords found) := by
  induction row generalizing found with
  | nil =>
    cases stand
    rw [endOf, List.foldl_nil, Nat.sub_self]
    exact .same []
  | @cons place places row ih =>
    obtain ⟨v, others, own, later, rfl⟩ := List.forall₂_cons_left_iff.1 stand
    obtain ⟨here, behind⟩ := List.forall_mem_cons.1 mem
    have le := row.le_endOf.1
    have split : endOf s (place + Vlr.sizeAt s place) places - place = Vlr.sizeAt s place +
        (endOf s (place + Vlr.sizeAt s place) places - (place + Vlr.sizeAt s place)) := by
      omega
    rw [endOf, List.foldl_cons, ← endOf, split, Bytes.part_add, encodeRecords, List.flatMap_cons]
    exact .append (Bytes.length_part own.inside) (kept_record own here) (ih later behind)

theorem length_written {place : Nat} {v : Vlr} (stands : v.StandsAt s place) :
    v.data.length = s.number (place + 20) 2 ∧
      v.written.encode.length = Vlr.sizeAt s place := by
  have inside := stands.inside
  have length : v.data.length = s.number (place + 20) 2 := by
    rw [← stands.data, Bytes.length_part]
    rw [Vlr.sizeAt] at inside
    omega
  refine ⟨length, ?_⟩
  rw [v.written.length_encode, Vlr.size_written, Vlr.size, Vlr.sizeAt, length]

theorem standsAt_encodeRecords {out rest : Bytes} {place : Nat} {places : List Nat}
    {found : List Vlr} (row : Row s place places)
    (stand : List.Forall₂ (Vlr.StandsAt s) places found)
    (written : out.drop place = encodeRecords found ++ rest) :
    List.Forall₂ (fun place v => v.StandsAt s place ∧ v.written.StandsAt out place) places found ∧
      out.drop (endOf s place places) = rest := by
  induction row generalizing found with
  | nil =>
    cases stand
    exact ⟨.nil, written⟩
  | @cons place places _ ih =>
    obtain ⟨v, others, own, later, rfl⟩ := List.forall₂_cons_left_iff.1 stand
    rw [encodeRecords, List.flatMap_cons, ← encodeRecords, List.append_assoc] at written
    have next : out.drop (place + Vlr.sizeAt s place) = encodeRecords others ++ rest := by
      rw [← List.drop_drop, written, ← (length_written own).2, List.drop_left]
    obtain ⟨stands, last⟩ := ih later next
    exact ⟨.cons ⟨own, Vlr.Record.standsAt_of_drop written⟩ stands, last⟩

structure ReadFrom (s : Bytes) (b : Block) (h : Header) : Prop where
  block : Block.decoder s = some (b, s.drop (Declared.size s))
  laidOut : b.LaidOut
  written : h.block = b.rewritten h
  systemIdentifier : Text.beforeNul b.systemIdentifier.toList = Text.bytes h.systemIdentifier
  generatingSoftware : Text.beforeNul b.generatingSoftware.toList = Text.bytes h.generatingSoftware
  records : List.Forall₂ (Vlr.StandsAt s) (recordPlaces s) h.records.toList
  recordPadding : h.recordPadding = s.part (recordsEnd s) (Declared.start s - recordsEnd s)
  before : recordsEnd s ≤ Declared.start s
  inside : Declared.start s ≤ s.length

theorem exists_readFrom {h : Header} {rest : Bytes} (read : (decode s).result = .ok (h, rest)) :
    ∃ b, ReadFrom s b h := by
  have start := pointDataStart_of_decode read
  obtain ⟨b, block, first, made, found, stand, before, inside, -, rfl⟩ := decode_iff.1 read
  have complete := (Block.inverts.complete block).1
  have place := start.trans (Block.standsIn_of_decoder block).start
  have written := block_of_ofBlock complete made place
  obtain ⟨laidOut, -, format, -, software, hg, system, hs, rfl⟩ := result_ofBlock_eq_ok.1 made
  exact ⟨b, block, laidOut, written, Text.decode_eq_ok.1 hs, Text.decode_eq_ok.1 hg, stand, rfl,
    before, inside⟩

namespace ReadFrom

variable {b : Block} {h : Header}

theorem complete (f : ReadFrom s b h) : b.Complete := (Block.inverts.complete f.block).1

theorem stands (f : ReadFrom s b h) : b.StandsIn s := Block.standsIn_of_decoder f.block

theorem length_encode (f : ReadFrom s b h) : b.encode.length = Declared.size s := by
  rw [b.length_encode, f.complete.padding, Nat.add_sub_cancel' f.laidOut.headerSize, f.stands.size]

theorem take_size (f : ReadFrom s b h) : s.take (Declared.size s) = b.encode := by
  have front := congrArg (List.take b.encode.length) (Block.inverts.complete f.block).2
  rwa [List.take_left, f.length_encode] at front

theorem version_le (f : ReadFrom s b h) :
    (Declared.version s).headerSize + b.padding.length = Declared.size s := by
  rw [← f.length_encode, b.length_encode, f.stands.version]

theorem front_eq (f : ReadFrom s b h) :
    h.front = (b.rewritten h).encode ++ (encodeRecords h.records.toList ++ h.recordPadding) := by
  rw [Header.front_eq, f.written]

theorem kept_block (f : ReadFrom s b h) : Kept s 0 b.encode (b.rewritten h).encode :=
  Block.kept_encode f.complete f.stands f.laidOut.supported f.systemIdentifier f.generatingSoftware

theorem kept (f : ReadFrom s b h) : Kept s 0 (s.take (Declared.start s)) h.front := by
  have size : Declared.size s ≤ recordsEnd s := row_recordPlaces.le_endOf.1
  have split : Declared.start s = Declared.size s +
      ((recordsEnd s - Declared.size s) + (Declared.start s - recordsEnd s)) := by
    have before := f.before
    omega
  have whole : s.take (Declared.start s) = b.encode ++
      (s.part (Declared.size s) (recordsEnd s - Declared.size s) ++ h.recordPadding) := by
    show s.part 0 (Declared.start s) = _
    rw [split, Bytes.part_add, Bytes.part_add, Nat.zero_add, Nat.add_sub_cancel' size,
      f.recordPadding, ← f.take_size]
    rfl
  rw [whole, f.front_eq]
  refine .append f.length_encode f.kept_block ?_
  rw [Nat.zero_add]
  exact .append rfl (kept_records row_recordPlaces f.records fun _ => id) (.same _)

theorem standsIn_front (f : ReadFrom s b h) : (b.rewritten h).StandsIn h.front := by
  rw [f.front_eq]
  exact Block.standsIn_encode _ _

theorem standsAt_front (f : ReadFrom s b h) :
    List.Forall₂ (fun place v => v.StandsAt s place ∧ v.written.StandsAt h.front place)
        (recordPlaces s) h.records.toList ∧
      h.front.drop (recordsEnd s) = h.recordPadding := by
  refine standsAt_encodeRecords row_recordPlaces f.records ?_
  have length := f.kept_block.length.trans f.length_encode
  rw [f.front_eq, ← length, List.drop_left]

theorem texts (f : ReadFrom s b h) : ∀ field ∈ textFields s, h.front.part field.1 field.2 =
    (Text.beforeNul (s.part field.1 field.2)).resize field.2 := by
  refine forall_textFields.2 ⟨?_, ?_, fun place hp => ?_⟩ <;> dsimp only
  · rw [f.standsIn_front.systemIdentifier, f.stands.systemIdentifier, f.systemIdentifier]
    exact Text.toList_encode _ _
  · rw [f.standsIn_front.generatingSoftware, f.stands.generatingSoftware, f.generatingSoftware]
    exact Text.toList_encode _ _
  · obtain ⟨v, own, out⟩ := exists_forall₂.1 ⟨_, f.standsAt_front.1⟩ place hp
    rw [out.userId, own.userId, out.description, own.description]
    exact ⟨Text.toList_encode _ _, Text.toList_encode _ _⟩

theorem data (f : ReadFrom s b h) : ∀ place ∈ recordPlaces s,
    h.front.part (place + Vlr.headSize) (s.number (place + 20) 2) =
      s.part (place + Vlr.headSize) (s.number (place + 20) 2) := by
  intro place hp
  obtain ⟨v, own, out⟩ := exists_forall₂.1 ⟨_, f.standsAt_front.1⟩ place hp
  have length : v.written.data.length = s.number (place + 20) 2 := (length_written own).1
  rw [← length, out.data, length, own.data]
  rfl

theorem padding (f : ReadFrom s b h) :
    let front := (Declared.version s).headerSize
    h.front.part front (Declared.size s - front) = s.part front (Declared.size s - front) := by
  have length : Declared.size s - (Declared.version s).headerSize = b.padding.length := by
    have size := f.version_le
    omega
  have own := b.part_padding (s.drop (Declared.size s))
  have out := (b.rewritten h).part_padding (encodeRecords h.records.toList ++ h.recordPadding)
  rw [← f.take_size, List.take_append_drop] at own
  show h.front.part _ _ = _
  rw [length, f.stands.version, own, f.front_eq]
  exact out

end ReadFrom

theorem rewrittenAs_front {h : Header} {rest : Bytes} (read : (decode s).result = .ok (h, rest)) :
    RewrittenAs s h.front := by
  have writable := writable_of_decode read
  have length := (length_front (decode_sound read).2.1).trans (pointDataStart_of_decode read)
  obtain ⟨b, f⟩ := exists_readFrom read
  have place (i : Nat) (hi : i < Declared.start s) : (s.take (Declared.start s))[i]? = s[i]? :=
    List.getElem?_take_of_lt hi
  constructor
  · exact length
  · intro i hi keep
    rw [← place i hi]
    refine f.kept.bytes i ?_ ?_
    · rw [← f.kept.length, length]
      exact hi
    · rwa [Nat.zero_add]
  · intro version
    have none : b.sourceId = 0 := by
      refine b.sourceId_eq_zero_or.resolve_right ?_
      rw [← f.stands.version, version]
      decide
    rw [f.standsIn_front.fileSourceId]
    show Wire.u16 b.sourceId = _
    rw [none]
    rfl
  · exact f.texts
  · have count := recordCount_block writable
    rw [f.written] at count
    exact f.standsIn_front.records.trans (count.trans f.records.length_eq.symm)
  · intro has
    rw [f.stands.version] at has
    have zero : (b.rewritten h).waveformStart?.getD 0 = 0 := by
      show (if b.version.supports .waveforms then some 0 else none).getD (0 : UInt64) = 0
      rw [if_pos has, Option.getD_some]
    rw [f.front_eq, (b.rewritten h).part_waveforms has, zero]
    decide
  · intro has
    rw [f.stands.version] at has
    have zero : (b.rewritten h).extendedRecords?.getD ⟨0, 0⟩ = ⟨0, 0⟩ := by
      show (if b.version.supports .extendedRecords then some _ else none).getD _ = _
      rw [if_pos has, Option.getD_some]
    rw [f.front_eq, (b.rewritten h).part_extendedRecords has, zero]
    decide
  · exact f.standsIn_front.bounds.trans f.stands.bounds.symm
  · exact f.padding
  · exact f.data
  · rw [← f.recordPadding, Bytes.part, f.standsAt_front.2, List.take_of_length_le]
    rw [f.recordPadding, Bytes.part, List.length_take]
    exact Nat.min_le_left _ _

/-- A header that is read from any bytes can be written, and what is written for it are these bytes
up to the points, except where they may change. -/
theorem rewrittenAs_of_decode {h : Header} {rest : Bytes}
    (read : (decode s).result = .ok (h, rest)) :
    ∃ m, Medium.writeInTurn h (.ofBytes []) = .ok () m ∧ RewrittenAs s m.bytes := by
  have hw := (decode_sound read).1
  have writable := writable_of_decode read
  obtain ⟨m, written, -⟩ := Medium.writeInTurn_eq (Medium.reliable_ofBytes []) hw writable
  refine ⟨m, written, ?_⟩
  rw [(Medium.bytes_of_writeInTurn hw written).2]
  exact rewrittenAs_front read

theorem rewrittenAs_of_decode_foreign :
    ∃ h m, (decode foreign).result = .ok (h, []) ∧
      Medium.writeInTurn h (.ofBytes []) = .ok () m ∧ RewrittenAs foreign m.bytes ∧
      m.bytes.part 26 identifierWidth = (Text.bytes "scanner").resize identifierWidth ∧
      m.bytes.number 100 4 = 1 := by
  obtain ⟨h, rest, read⟩ := exists_decode_of_legible foreign_legible
  obtain ⟨-, -, -, -, -, -, -, -, left, -⟩ := decode_iff.1 read
  have none : foreign.drop (Declared.start foreign) = [] := by decide +kernel
  obtain rfl : [] = rest := none.symm.trans left
  obtain ⟨m, written, as⟩ := rewrittenAs_of_decode read
  have text := as.texts (26, identifierWidth) (by simp [textFields])
  have old : Text.beforeNul (foreign.part 26 identifierWidth) = Text.bytes "scanner" := by
    decide +kernel
  have places : (recordPlaces foreign).length = 1 := by decide +kernel
  rw [old] at text
  exact ⟨h, m, read, written, as, text, as.recordCount.trans places⟩

end Lidar.Header
