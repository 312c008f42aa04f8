import Mathlib.Algebra.GroupWithZero.Nat
import Lidar.Proofs.Header.Block
import Lidar.Proofs.Header.FromBlock
import Lidar.Proofs.Vlr.Record

/-!
# Where the fields of a file stand

The fields of a header block stand at fixed places from the start of the file. What a file declares
is read off these places, whether or not the file can be read otherwise. The variable length records
stand one behind the other after the block, each with its own length in its head, so their places
are found by walking over them.
-/
namespace Lidar

theorem Bytes.part_flatten {fields : List Bytes} {widths : List Nat}
    (known : fields.map List.length = widths) (rest : Bytes) (i : Nat) {field : Bytes}
    {place width : Nat} (found : fields[i]? = some field) (before : (widths.take i).sum = place)
    (own : widths[i]? = some width) : part (fields.flatten ++ rest) place width = field := by
  subst known before
  obtain ⟨inside, rfl⟩ := List.getElem?_eq_some_iff.1 found
  have length : fields[i].length = width := by simpa [found] using own
  have row : fields = fields.take i ++ fields[i] :: fields.drop (i + 1) := by
    rw [← List.drop_eq_getElem_cons inside, List.take_append_drop]
  have split : fields.flatten ++ rest =
      (fields.take i).flatten ++ (fields[i] ++ ((fields.drop (i + 1)).flatten ++ rest)) := by
    rw [← List.append_assoc fields[i], ← List.flatten_cons, ← List.append_assoc,
      ← List.flatten_append, ← row]
  rw [split, ← List.map_take, ← List.length_flatten, part_append_of_le (Nat.le_refl _), Nat.sub_self,
    part_append_of_length length]

theorem Version.le_headerSize (v : Version) : 227 ≤ v.headerSize := by
  rw [headerSize]
  omega

theorem Version.supports_waveforms {v : Version} (has : v.supports .extendedRecords = true) :
    v.supports .waveforms = true := by
  cases v
  simp_all [supports]

namespace Header

namespace Declared

variable (s : Bytes)

def version : Version := ⟨UInt8.ofNat (s.number 24 1), UInt8.ofNat (s.number 25 1)⟩

def size : Nat := s.number 94 2

def start : Nat := s.number 96 4

def records : Nat := s.number 100 4

def format : Nat := s.number 104 1 % 128

def recordLength : Nat := s.number 105 2

def double (place : Nat) : Binary64 := ⟨UInt64.ofNat (s.number place 8)⟩

/-- The three scales stand before the three offsets. -/
def transforms : Axes Transform :=
  ⟨⟨double s 131, double s 155⟩, ⟨double s 139, double s 163⟩, ⟨double s 147, double s 171⟩⟩

theorem version_append {s : Bytes} (inside : 26 ≤ s.length) (more : Bytes) :
    version (s ++ more) = version s := by
  rw [version, Bytes.number_append_left (by omega), Bytes.number_append_left (by omega), version]

theorem size_append {s : Bytes} (inside : 96 ≤ s.length) (more : Bytes) :
    size (s ++ more) = size s :=
  Bytes.number_append_left inside more

end Declared

namespace Block

def fixed (b : Block) : List Bytes :=
  [b.signature.toList, Wire.u16 b.fileSourceId, Wire.u16 b.globalEncoding, b.guid.toList,
    Wire.u8 b.version.major, Wire.u8 b.version.minor, b.systemIdentifier.toList,
    b.generatingSoftware.toList, Wire.u16 b.creationDay, Wire.u16 b.creationYear,
    Wire.u16 b.headerSize, Wire.u32 b.pointDataStart, Wire.u32 b.recordCount,
    Wire.u8 b.pointFormat, Wire.u16 b.pointRecordLength, Wire.u32 b.points,
    Wire.vector Wire.u32 b.pointsByReturn, Wire.binary64 b.scale.x, Wire.binary64 b.scale.y,
    Wire.binary64 b.scale.z, Wire.binary64 b.offset.x, Wire.binary64 b.offset.y,
    Wire.binary64 b.offset.z, encodeBounds b.bounds]

def fixedWidths : List Nat :=
  [4, 2, 2, 16, 1, 1, 32, 32, 2, 2, 2, 4, 4, 1, 2, 4, 20, 8, 8, 8, 8, 8, 8, 48]

def tail (b : Block) : Bytes :=
  Wire.when (b.version.supports .waveforms) Wire.u64 0 b.waveformStart? ++
    (Wire.when (b.version.supports .extendedRecords) encodeExtended ⟨0, 0⟩ b.extendedRecords? ++
      (Wire.when (b.version.supports .largeFiles) encodeLarge .zero b.largeCounts? ++ b.padding))

theorem encode_eq (b : Block) : b.encode = b.fixed.flatten ++ b.tail := by
  unfold encode encodeVersion encodeAxes
  simp only [fixed, tail, List.flatten_cons, List.flatten_nil, List.append_nil, List.append_assoc]

theorem map_length_fixed (b : Block) : b.fixed.map List.length = fixedWidths := by
  simp only [fixed, fixedWidths, List.map_cons, List.map_nil, Wire.length_u8, Wire.length_u16,
    Wire.length_u32, Wire.length_binary64, Vector.length_toList, length_encodeBounds,
    Wire.length_vector Wire.length_u32]

theorem part_encode (b : Block) (rest : Bytes) (i : Nat) {field : Bytes} {place width : Nat}
    (found : b.fixed[i]? = some field) (before : (fixedWidths.take i).sum = place)
    (own : fixedWidths[i]? = some width) : (b.encode ++ rest).part place width = field := by
  rw [encode_eq, List.append_assoc]
  exact Bytes.part_flatten b.map_length_fixed _ i found before own

structure StandsIn (b : Block) (s : Bytes) : Prop where
  signature : s.part 0 4 = b.signature.toList
  fileSourceId : s.part 4 2 = Wire.u16 b.fileSourceId
  version : Declared.version s = b.version
  systemIdentifier : s.part 26 identifierWidth = b.systemIdentifier.toList
  generatingSoftware : s.part 58 identifierWidth = b.generatingSoftware.toList
  size : Declared.size s = b.headerSize.toNat
  start : Declared.start s = b.pointDataStart.toNat
  records : Declared.records s = b.recordCount.toNat
  pointFormat : s.number 104 1 = b.pointFormat.toNat
  recordLength : Declared.recordLength s = b.pointRecordLength.toNat
  transforms : Declared.transforms s = b.transforms
  bounds : s.part 179 48 = encodeBounds b.bounds

theorem standsIn_encode (b : Block) (rest : Bytes) : b.StandsIn (b.encode ++ rest) := by
  have stands := b.part_encode rest
  have double {place : Nat} {x : Binary64}
      (field : (b.encode ++ rest).part place 8 = Wire.binary64 x) :
      Declared.double (b.encode ++ rest) place = x := by
    rw [Declared.double, Bytes.number, field, Wire.binary64, Wire.toNat_u64, UInt64.ofNat_toNat]
  constructor
  · exact stands 0 rfl (by decide) rfl
  · exact stands 1 rfl (by decide) rfl
  · have major : (b.encode ++ rest).part 24 1 = _ := stands 4 rfl (by decide) rfl
    have minor : (b.encode ++ rest).part 25 1 = _ := stands 5 rfl (by decide) rfl
    rw [Declared.version, Bytes.number, Bytes.number, major, minor]
    simp
  · exact stands 6 rfl (by decide) rfl
  · exact stands 7 rfl (by decide) rfl
  · exact (congrArg Bytes.toNat (stands 10 rfl (by decide) rfl)).trans (Wire.toNat_u16 _)
  · exact (congrArg Bytes.toNat (stands 11 rfl (by decide) rfl)).trans (Wire.toNat_u32 _)
  · exact (congrArg Bytes.toNat (stands 12 rfl (by decide) rfl)).trans (Wire.toNat_u32 _)
  · exact (congrArg Bytes.toNat (stands 13 rfl (by decide) rfl)).trans (Wire.toNat_u8 _)
  · exact (congrArg Bytes.toNat (stands 14 rfl (by decide) rfl)).trans (Wire.toNat_u16 _)
  · rw [Declared.transforms, double (stands 17 rfl (by decide) rfl),
      double (stands 20 rfl (by decide) rfl), double (stands 18 rfl (by decide) rfl),
      double (stands 21 rfl (by decide) rfl), double (stands 19 rfl (by decide) rfl),
      double (stands 22 rfl (by decide) rfl)]
    rfl
  · exact stands 23 rfl (by decide) rfl

theorem encode_tail (b : Block) (rest : Bytes) {place : Nat} (behind : 227 ≤ place) (width : Nat) :
    (b.encode ++ rest).part place width = (b.tail ++ rest).part (place - 227) width := by
  have length : b.fixed.flatten.length = 227 := by
    rw [List.length_flatten, map_length_fixed]
    decide
  rw [encode_eq, List.append_assoc, Bytes.part_append_of_le (by omega), length]

theorem part_waveforms (b : Block) (has : b.version.supports .waveforms = true) (rest : Bytes) :
    (b.encode ++ rest).part 227 8 = Wire.u64 (b.waveformStart?.getD 0) := by
  rw [encode_tail b rest (by decide), tail, has, List.append_assoc]
  exact Bytes.part_append_of_length (Wire.length_u64 _) _

theorem part_extendedRecords (b : Block) (has : b.version.supports .extendedRecords = true)
    (rest : Bytes) :
    (b.encode ++ rest).part 235 12 = encodeExtended (b.extendedRecords?.getD ⟨0, 0⟩) := by
  have first : (Wire.when true Wire.u64 0 b.waveformStart?).length = 8 := Wire.length_u64 _
  rw [encode_tail b rest (by decide), tail, has, Version.supports_waveforms has, List.append_assoc,
    List.append_assoc, Bytes.part_append_of_le (by omega), first]
  exact Bytes.part_append_of_length (length_encodeExtended _) _

theorem part_padding (b : Block) (rest : Bytes) :
    (b.encode ++ rest).part b.version.headerSize b.padding.length = b.padding := by
  obtain ⟨front, split⟩ : ∃ front, b.encode = front ++ b.padding := ⟨_, rfl⟩
  have length := length_encode b
  rw [split, List.length_append] at length
  have front : b.version.headerSize - front.length = 0 := by omega
  rw [split, List.append_assoc, Bytes.part_append_of_le (by omega), front]
  exact Bytes.part_append_of_length rfl rest

theorem standsIn_of_decoder {b : Block} {s behind : Bytes} (read : decoder s = some (b, behind)) :
    b.StandsIn s := by
  rw [(inverts.complete read).2]
  exact b.standsIn_encode behind

theorem exists_decoder {s : Bytes} (covers : (Declared.version s).headerSize ≤ Declared.size s)
    (inside : Declared.size s ≤ s.length) :
    ∃ b, decoder s = some (b, s.drop (Declared.size s)) := by
  have long := (Declared.version s).le_headerSize
  obtain ⟨b, more, rest, complete, same, read⟩ := inverts.begins suffices_decoder s
  have stands := b.standsIn_encode rest
  rw [← same] at stands
  have version := stands.version
  have size := stands.size
  rw [Declared.version_append (by omega)] at version
  rw [Declared.size_append (by omega)] at size
  have length : b.encode.length = Declared.size s := by
    rw [length_encode, complete.padding, ← version, ← size]
    omega
  rw [length] at read
  exact ⟨b, read inside⟩

end Block

end Header

namespace Vlr

def sizeAt (s : Bytes) (place : Nat) : Nat := headSize + s.number (place + 20) 2

structure StandsAt (s : Bytes) (place : Nat) (v : Vlr) : Prop where
  inside : place + sizeAt s place ≤ s.length
  reserved : s.number place 2 = v.reserved.toNat
  userId : Text.beforeNul (s.part (place + 2) userIdWidth) = Text.bytes v.userId
  recordId : s.number (place + 18) 2 = v.recordId.toNat
  description : Text.beforeNul (s.part (place + 22) descriptionWidth) = Text.bytes v.description
  data : s.part (place + headSize) (s.number (place + 20) 2) = v.data

namespace Record

structure StandsAt (s : Bytes) (place : Nat) (r : Record) : Prop where
  reserved : s.number place 2 = r.reserved.toNat
  userId : s.part (place + 2) userIdWidth = r.userId.toList
  recordId : s.number (place + 18) 2 = r.recordId.toNat
  declaredLength : s.number (place + 20) 2 = r.declaredLength.toNat
  description : s.part (place + 22) descriptionWidth = r.description.toList
  data : s.part (place + headSize) r.data.length = r.data

theorem standsAt_of_drop {r : Record} {s rest : Bytes} {place : Nat}
    (found : s.drop place = r.encode ++ rest) : r.StandsAt s place := by
  let fields := [Wire.u16 r.reserved, r.userId.toList, Wire.u16 r.recordId,
    Wire.u16 r.declaredLength, r.description.toList, r.data]
  have row : s.drop place = fields.flatten ++ rest := by
    rw [found]
    simp [fields, encode]
  have known : fields.map List.length = [2, 16, 2, 2, 32, r.data.length] := by
    simp [fields]
  have stands (i : Nat) {field : Bytes} {front width : Nat} (found : fields[i]? = some field)
      (before : (([2, 16, 2, 2, 32, r.data.length] : List Nat).take i).sum = front)
      (own : ([2, 16, 2, 2, 32, r.data.length] : List Nat)[i]? = some width) :
      s.part (place + front) width = field := by
    rw [← Bytes.part_drop, row]
    exact Bytes.part_flatten known rest i found before own
  constructor
  · exact (congrArg Bytes.toNat (stands 0 rfl rfl rfl)).trans (Wire.toNat_u16 _)
  · exact stands 1 rfl rfl rfl
  · exact (congrArg Bytes.toNat (stands 2 rfl rfl rfl)).trans (Wire.toNat_u16 _)
  · exact (congrArg Bytes.toNat (stands 3 rfl rfl rfl)).trans (Wire.toNat_u16 _)
  · exact stands 4 rfl rfl rfl
  · exact stands 5 rfl rfl rfl

theorem size_of_read {r : Record} {s behind : Bytes} {place : Nat}
    (read : decoder (s.drop place) = some (r, behind)) : r.size = sizeAt s place := by
  obtain ⟨complete, found⟩ := inverts.complete read
  rw [size, sizeAt, complete, (standsAt_of_drop found).declaredLength]

end Record

variable {s : Bytes} {place : Nat} {v : Vlr}

theorem read_iff {behind : Bytes} :
    (∃ r, Record.decoder (s.drop place) = some (r, behind) ∧ ofRecord r = .ok v) ↔
      v.StandsAt s place ∧ behind = s.drop (place + sizeAt s place) := by
  constructor
  · rintro ⟨r, read, made⟩
    obtain ⟨complete, found⟩ := Record.inverts.complete read
    have stands := Record.standsAt_of_drop found
    have size := Record.size_of_read read
    obtain ⟨userId, description, reserved, recordId, data⟩ := ofRecord_eq_ok.1 made
    have length := congrArg List.length found
    rw [List.length_drop, List.length_append, Record.length_encode, size] at length
    have front : 0 < sizeAt s place := Nat.lt_of_lt_of_le (by decide) (Nat.le_add_right headSize _)
    refine ⟨⟨by omega, ?_, ?_, ?_, ?_, ?_⟩, ?_⟩
    · rw [stands.reserved, reserved]
    · rw [stands.userId, Text.decode_eq_ok.1 userId]
    · rw [stands.recordId, recordId]
    · rw [stands.description, Text.decode_eq_ok.1 description]
    · rw [stands.declaredLength, ← complete, stands.data, data]
    · rw [← List.drop_drop, found, ← size, ← r.length_encode, List.drop_left]
  · rintro ⟨stands, rfl⟩
    have inside := stands.inside
    have head : headSize ≤ sizeAt s place := Nat.le_add_right _ _
    have length : sizeAt s place ≤ (s.drop place).length := by
      rw [List.length_drop]
      omega
    have whole : 54 ≤ (s.drop place).length := Nat.le_trans head length
    obtain ⟨r, more, rest, complete, same, read⟩ :=
      Record.inverts.begins Record.suffices_decoder (s.drop place)
    have found : r.StandsAt (s.drop place ++ more) 0 := Record.standsAt_of_drop same
    have declared := found.declaredLength
    rw [Bytes.number_append_left (by omega), Bytes.number_drop] at declared
    have size : r.encode.length = sizeAt s place := by
      rw [r.length_encode, Record.size, complete, ← declared]
      rfl
    rw [size, List.drop_drop] at read
    have read := read length
    have fields := Record.standsAt_of_drop (Record.inverts.complete read).2
    refine ⟨r, read, ofRecord_eq_ok.2 ⟨?_, ?_, ?_, ?_, ?_⟩⟩
    · rw [Text.decode_eq_ok, ← fields.userId, stands.userId]
    · rw [Text.decode_eq_ok, ← fields.description, stands.description]
    · exact UInt16.toNat.inj (stands.reserved.symm.trans fields.reserved)
    · exact UInt16.toNat.inj (stands.recordId.symm.trans fields.recordId)
    · rw [← stands.data, fields.declaredLength, ← complete, fields.data]

theorem exists_standsAt :
    (∃ v : Vlr, v.StandsAt s place) ↔ place + sizeAt s place ≤ s.length ∧
      Text.IsText (s.part (place + 2) userIdWidth) ∧
      Text.IsText (s.part (place + 22) descriptionWidth) := by
  constructor
  · rintro ⟨v, stands⟩
    exact ⟨stands.inside, Text.isText_iff.2 ⟨_, stands.userId⟩,
      Text.isText_iff.2 ⟨_, stands.description⟩⟩
  · rintro ⟨inside, user, text⟩
    obtain ⟨userId, user⟩ := Text.isText_iff.1 user
    obtain ⟨description, text⟩ := Text.isText_iff.1 text
    have head : headSize ≤ sizeAt s place := Nat.le_add_right _ _
    have word {front : Nat} (h : front + 2 ≤ headSize) :
        s.number (place + front) 2 = (UInt16.ofNat (s.number (place + front) 2)).toNat := by
      have small := Bytes.toNat_lt (s.part (place + front) 2)
      rw [Bytes.length_part (by omega)] at small
      exact (UInt16.toNat_ofNat_of_lt' small).symm
    have first : 0 + 2 ≤ headSize := by decide
    exact ⟨⟨_, userId, _, description, _⟩, inside, word first, user, word (by decide), text, rfl⟩

end Vlr

end Lidar
