import Lidar.Proofs.Header.Places
import Lidar.Proofs.Header.Reachable

/-!
# Which bytes are a header

A header is read from exactly those bytes that are legible: what the block declares is in order, the
texts are UTF-8, the records that are found by walking over their heads end before the points, and
the bytes go on to where the points start. The header then has the records that stand at these
places, and the bytes between the last of them and the points.
-/
namespace Lidar.Header

variable (s : Bytes)

/-- The places of at most `left` records in a row, up to where no head fits any more before the
points. -/
def walk (start : Nat) : Nat → Nat → List Nat
  | 0, _ => []
  | left + 1, place =>
    if start < place + Vlr.headSize then []
    else place :: walk start left (place + Vlr.sizeAt s place)

def endOf (first : Nat) (places : List Nat) : Nat :=
  places.foldl (fun _ place => place + Vlr.sizeAt s place) first

def recordPlaces : List Nat := walk s (Declared.start s) (Declared.records s) (Declared.size s)

def recordsEnd : Nat := endOf s (Declared.size s) (recordPlaces s)

/-- The place and the width of each field that holds a text: the two identifiers of the block, then
the user id and the description of each record. -/
def textFields : List (Nat × Nat) :=
  (26, identifierWidth) :: (58, identifierWidth) :: (recordPlaces s).flatMap fun place =>
    [(place + 2, Vlr.userIdWidth), (place + 22, Vlr.descriptionWidth)]

structure Legible (s : Bytes) : Prop where
  complete : (Declared.version s).headerSize ≤ s.length
  signature : s.part 0 4 = Text.bytes "LASF"
  supported : (Declared.version s).major = 1 ∧ (Declared.version s).minor ≤ 4
  size : (Declared.version s).headerSize ≤ Declared.size s
  start : Declared.size s ≤ Declared.start s
  /-- The format has a number below four and records of at least these lengths. -/
  format : ∃ length ∈ [20, 28, 26, 34][Declared.format s]?, length ≤ Declared.recordLength s
  transforms : (Declared.transforms s).x.Usable ∧ (Declared.transforms s).y.Usable ∧
    (Declared.transforms s).z.Usable
  texts : ∀ field ∈ textFields s, Text.IsText (s.part field.1 field.2)
  records : ∀ place ∈ recordPlaces s, place + Vlr.sizeAt s place ≤ Declared.start s
  inside : Declared.start s ≤ s.length

variable {s}

theorem legible_iff :
    ((Declared.version s).headerSize ≤ s.length ∧ s.part 0 4 = Text.bytes "LASF" ∧
      ((Declared.version s).major = 1 ∧ (Declared.version s).minor ≤ 4) ∧
      (Declared.version s).headerSize ≤ Declared.size s ∧ Declared.size s ≤ Declared.start s ∧
      (∃ length ∈ [20, 28, 26, 34][Declared.format s]?, length ≤ Declared.recordLength s) ∧
      ((Declared.transforms s).x.Usable ∧ (Declared.transforms s).y.Usable ∧
        (Declared.transforms s).z.Usable) ∧
      (∀ field ∈ textFields s, Text.IsText (s.part field.1 field.2)) ∧
      (∀ place ∈ recordPlaces s, place + Vlr.sizeAt s place ≤ Declared.start s) ∧
      Declared.start s ≤ s.length) ↔ Legible s :=
  ⟨fun ⟨complete, signature, supported, size, start, format, transforms, texts, records, inside⟩ =>
    ⟨complete, signature, supported, size, start, format, transforms, texts, records, inside⟩,
    fun l => ⟨l.complete, l.signature, l.supported, l.size, l.start, l.format, l.transforms,
      l.texts, l.records, l.inside⟩⟩

instance (s : Bytes) : Decidable (Legible s) := decidable_of_decidable_of_iff legible_iff

namespace Block

variable {b : Block}

theorem laidOut_iff (stands : b.StandsIn s) :
    b.LaidOut ↔ s.part 0 4 = Text.bytes "LASF" ∧
      ((Declared.version s).major = 1 ∧ (Declared.version s).minor ≤ 4) ∧
      (Declared.version s).headerSize ≤ Declared.size s ∧ Declared.size s ≤ Declared.start s := by
  have letters : Text.bytes "LASF" = magic.toList := by decide
  rw [stands.signature, letters, Vector.toList_inj, ← Version.isSupported_iff, stands.version,
    stands.size, stands.start]
  exact ⟨fun ⟨signature, supported, size, start⟩ => ⟨signature, supported, size, start⟩,
    fun ⟨signature, supported, size, start⟩ => ⟨signature, supported, size, start⟩⟩

private theorem standardLength_table : ∀ byte : Fin 256,
    (Format.ofId? (UInt8.ofNat byte &&& ~~~compressedBit)).map Format.standardLength =
      [20, 28, 26, 34][byte.val % 128]? := by
  decide +kernel

theorem exists_hasFormat :
    (∃ f, b.HasFormat f) ↔ ∃ length ∈ [20, 28, 26, 34][b.pointFormat.toNat % 128]?,
      length ≤ b.pointRecordLength.toNat := by
  have table := standardLength_table ⟨b.pointFormat.toNat, b.pointFormat.toNat_lt⟩
  rw [UInt8.ofNat_toNat] at table
  rw [← table]
  simp only [Option.mem_def, Option.map_eq_some_iff, ← format_eq_ok, format, Success.bind_eq_ok,
    Format.ofId_eq_ok, Format.withRecordLength_eq_ok]
  constructor
  · rintro ⟨_, f, known, long, -⟩
    exact ⟨_, ⟨f, known, rfl⟩, long⟩
  · rintro ⟨_, ⟨f, known, rfl⟩, long⟩
    exact ⟨_, f, known, long, rfl⟩

theorem exists_ofBlock :
    (∃ first, (ofBlock b).result = .ok first) ↔
      b.LaidOut ∧ (b.transforms.x.Usable ∧ b.transforms.y.Usable ∧ b.transforms.z.Usable) ∧
      (∃ f, b.HasFormat f) ∧ Text.IsText b.systemIdentifier.toList ∧
      Text.IsText b.generatingSoftware.toList := by
  rw [@Text.isText_iff_decode .systemIdentifier, @Text.isText_iff_decode .generatingSoftware]
  constructor
  · rintro ⟨first, made⟩
    obtain ⟨laidOut, usable, f, format, software, hg, system, hs, -⟩ := result_ofBlock_eq_ok.1 made
    exact ⟨laidOut, usable, ⟨f, format⟩, ⟨system, hs⟩, software, hg⟩
  · rintro ⟨laidOut, usable, ⟨f, format⟩, ⟨system, hs⟩, software, hg⟩
    exact ⟨_, result_ofBlock_eq_ok.2 ⟨laidOut, usable, f, format, software, hg, system, hs, rfl⟩⟩

end Block

theorem endOf_le {start first : Nat} {places : List Nat} (begins : first ≤ start)
    (ends : ∀ place ∈ places, place + Vlr.sizeAt s place ≤ start) :
    endOf s first places ≤ start := by
  induction places generalizing first with
  | nil => exact begins
  | cons place places ih =>
    obtain ⟨own, later⟩ := List.forall_mem_cons.1 ends
    exact ih own later

inductive Row (s : Bytes) : Nat → List Nat → Prop
  | nil {place : Nat} : Row s place []
  | cons {place : Nat} {places : List Nat} (later : Row s (place + Vlr.sizeAt s place) places) :
    Row s place (place :: places)

theorem row_walk (start left place : Nat) : Row s place (walk s start left place) := by
  induction left generalizing place with
  | zero => exact .nil
  | succ left ih =>
    unfold walk
    split
    · exact .nil
    · exact .cons (ih _)

theorem row_recordPlaces : Row s (Declared.size s) (recordPlaces s) := row_walk _ _ _

theorem Row.le_endOf {first : Nat} {places : List Nat} (row : Row s first places) :
    first ≤ endOf s first places ∧
      ∀ place ∈ places, place + Vlr.sizeAt s place ≤ endOf s first places := by
  induction row with
  | nil => simp [endOf]
  | @cons place places _ ih =>
    obtain ⟨le, later⟩ := ih
    exact ⟨Nat.le_trans (Nat.le_add_right _ _) le, List.forall_mem_cons.2 ⟨le, later⟩⟩

theorem exists_forall₂ {α β : Type} {R : α → β → Prop} {items : List α} :
    (∃ found, List.Forall₂ R items found) ↔ ∀ a ∈ items, ∃ b, R a b := by
  induction items with
  | nil => simp
  | cons a items ih =>
    simp only [List.forall₂_cons_left_iff, List.forall_mem_cons, ← ih]
    constructor
    · rintro ⟨_, b, found, own, others, rfl⟩
      exact ⟨⟨b, own⟩, found, others⟩
    · rintro ⟨⟨b, own⟩, found, others⟩
      exact ⟨_, b, found, own, others, rfl⟩

theorem valid_of_standsAt {place : Nat} {v : Vlr} (stands : v.StandsAt s place) : v.Valid := by
  obtain ⟨r, read, made⟩ := Vlr.read_iff.2 ⟨stands, rfl⟩
  exact (Vlr.valid_of_ofRecord made (Vlr.Record.inverts.complete read).1).1

theorem exists_store {places : List Nat} {found : List Vlr}
    (stand : List.Forall₂ (Vlr.StandsAt s) places found) :
    ∃ records : Vlr.Store, records.toList = found := by
  refine ⟨⟨found, fun v mem => ?_⟩, rfl⟩
  obtain ⟨place, -, stands⟩ := exists_of_mem_right stand v mem
  exact valid_of_standsAt stands

theorem decodeRecords_iff {declared start left place : Nat} {before all : Vlr.Store} {last : Nat}
    {rest : Bytes} :
    (decodeRecords declared start left place before (s.drop place)).result =
        .ok (last, all, rest) ↔
      ∃ found, List.Forall₂ (Vlr.StandsAt s) (walk s start left place) found ∧
        last = endOf s place (walk s start left place) ∧ all.toList = before.toList ++ found ∧
        rest = s.drop last := by
  have stopped {place : Nat} {before : Vlr.Store} :
      (Except.ok (place, before, s.drop place) : Except Error _) = .ok (last, all, rest) ↔
        ∃ found, List.Forall₂ (Vlr.StandsAt s) [] found ∧ last = place ∧
          all.toList = before.toList ++ found ∧ rest = s.drop last := by
    constructor
    · rintro ⟨⟩
      exact ⟨[], .nil, rfl, by simp, rfl⟩
    · rintro ⟨_, ⟨⟩, rfl, whole, rfl⟩
      rw [List.append_nil] at whole
      rw [Vlr.Store.ext whole]
  induction left generalizing place before with
  | zero => exact stopped
  | succ left ih =>
    unfold decodeRecords walk
    by_cases fits : start < place + Vlr.headSize
    · rw [if_pos fits, if_pos fits]
      exact stopped
    · rw [if_neg fits, if_neg fits]
      simp only [Traced.result_bind, Traced.result_liftM, Success.bind_eq_ok, Prod.exists,
        result_decodeNext_eq_ok]
      constructor
      · rintro ⟨r, behind, read, v, made, more, pushed, later⟩
        obtain ⟨valid, rfl⟩ := Vlr.Store.push_eq_ok.1 pushed
        obtain ⟨stands, rfl⟩ := Vlr.read_iff.1 ⟨r, read, made⟩
        rw [Vlr.Record.size_of_read read] at later
        obtain ⟨found, others, hl, whole, rest⟩ := ih.1 later
        refine ⟨v :: found, .cons stands others, hl, ?_, rest⟩
        rw [whole, Vlr.Store.append, List.append_assoc, List.singleton_append]
      · rintro ⟨_, stand, hl, whole, rest⟩
        obtain ⟨v, found, stands, others, rfl⟩ := List.forall₂_cons_left_iff.1 stand
        obtain ⟨r, read, made⟩ := Vlr.read_iff.2 ⟨stands, rfl⟩
        have valid := valid_of_standsAt stands
        refine ⟨r, _, read, v, made, _, before.push_of_valid valid, ?_⟩
        rw [Vlr.Record.size_of_read read]
        refine ih.2 ⟨found, others, hl, ?_, rest⟩
        rw [whole, Vlr.Store.append, List.append_assoc, List.singleton_append]

theorem decodeRecords_recordPlaces {all : Vlr.Store} {last : Nat} {rest : Bytes} :
    (decodeRecords (Declared.records s) (Declared.start s) (Declared.records s) (Declared.size s)
        .empty (s.drop (Declared.size s))).result = .ok (last, all, rest) ↔
      List.Forall₂ (Vlr.StandsAt s) (recordPlaces s) all.toList ∧ last = recordsEnd s ∧
        rest = s.drop last := by
  rw [decodeRecords_iff]
  constructor
  · rintro ⟨found, stand, hl, whole, rest⟩
    rw [whole]
    exact ⟨stand, hl, rest⟩
  · intro ⟨stand, hl, rest⟩
    exact ⟨_, stand, hl, rfl, rest⟩

theorem size_of_ofBlock {b : Block} {first : Header} (complete : b.Complete)
    (made : (ofBlock b).result = .ok first) : first.size = b.headerSize.toNat := by
  have laidOut := (result_ofBlock_eq_ok.1 made).1
  have declared : b.headerSize.toNat = b.version.headerSize + b.padding.length := by
    rw [complete.padding, Nat.add_sub_cancel' laidOut.headerSize]
  have room := (hasRoom_ofBlock_iff made).2 (Block.hasRoom_of_declared declared)
  rw [room.size_eq, declared]
  obtain ⟨-, -, _, -, _, -, _, -, rfl⟩ := result_ofBlock_eq_ok.1 made
  rfl

theorem drop_of_decoder {b : Block} {behind : Bytes} (read : Block.decoder s = some (b, behind))
    (covers : b.version.headerSize ≤ b.headerSize.toNat) :
    behind = s.drop (Declared.size s) ∧ Declared.size s ≤ s.length := by
  obtain ⟨complete, found⟩ := Block.inverts.complete read
  have length : b.encode.length = Declared.size s := by
    rw [b.length_encode, complete.padding, Nat.add_sub_cancel' covers,
      (Block.standsIn_of_decoder read).size]
  rw [← length]
  constructor
  · rw [found, List.drop_left]
  · rw [found, List.length_append]
    exact Nat.le_add_right _ _

theorem take_drop_iff {place n : Nat} {found rest : Bytes} (inside : place ≤ s.length) :
    Decoder.take n (s.drop place) = some (found, rest) ↔
      place + n ≤ s.length ∧ s.part place n = found ∧ s.drop (place + n) = rest := by
  have enough : ((s.drop place).take n).length = n ↔ place + n ≤ s.length := by
    rw [List.length_take, List.length_drop]
    omega
  rw [← enough, Decoder.take, List.drop_drop, Bytes.part]
  by_cases long : ((s.drop place).take n).length = n <;> simp [long]

theorem recordsEnd_le {bound : Nat} {found : List Vlr} (begins : Declared.size s ≤ bound)
    (stand : List.Forall₂ (Vlr.StandsAt s) (recordPlaces s) found) (whole : s.length ≤ bound) :
    recordsEnd s ≤ bound := by
  refine endOf_le begins fun place hp => ?_
  obtain ⟨v, stands⟩ := exists_forall₂.1 ⟨found, stand⟩ place hp
  exact Nat.le_trans stands.inside whole

theorem decode_iff {h : Header} {rest : Bytes} :
    (decode s).result = .ok (h, rest) ↔
      ∃ b, Block.decoder s = some (b, s.drop (Declared.size s)) ∧
      ∃ first, (ofBlock b).result = .ok first ∧
      ∃ records : Vlr.Store, List.Forall₂ (Vlr.StandsAt s) (recordPlaces s) records.toList ∧
        recordsEnd s ≤ Declared.start s ∧ Declared.start s ≤ s.length ∧
        s.drop (Declared.start s) = rest ∧
        { first with
          records
          recordPadding := s.part (recordsEnd s) (Declared.start s - recordsEnd s) } = h := by
  rw [result_decode_eq_ok]
  constructor
  · rintro ⟨b, behind, block, first, made, position, records, left, read, before, padding, hp, rfl⟩
    have stands := Block.standsIn_of_decoder block
    have complete := (Block.inverts.complete block).1
    obtain ⟨rfl, inside⟩ := drop_of_decoder block (result_ofBlock_eq_ok.1 made).1.headerSize
    rw [size_of_ofBlock complete made, ← stands.records, ← stands.start, ← stands.size,
      decodeRecords_recordPlaces] at read
    obtain ⟨stand, rfl, rfl⟩ := read
    rw [← stands.start] at before hp
    obtain ⟨more, rfl, rfl⟩ := (take_drop_iff (recordsEnd_le inside stand (Nat.le_refl _))).1 hp
    rw [Nat.add_sub_cancel' before] at more
    refine ⟨b, block, first, made, records, stand, before, more, ?_, rfl⟩
    rw [Nat.add_sub_cancel' before]
  · rintro ⟨b, block, first, made, records, stand, before, more, rfl, rfl⟩
    have stands := Block.standsIn_of_decoder block
    have complete := (Block.inverts.complete block).1
    have inside := (drop_of_decoder block (result_ofBlock_eq_ok.1 made).1.headerSize).2
    refine ⟨b, _, block, first, made, recordsEnd s, records, s.drop (recordsEnd s), ?_, ?_, _, ?_, rfl⟩
    · rw [size_of_ofBlock complete made, ← stands.records, ← stands.start, ← stands.size,
        decodeRecords_recordPlaces]
      exact ⟨stand, rfl, rfl⟩
    · rw [← stands.start]
      exact before
    · rw [← stands.start, take_drop_iff (recordsEnd_le inside stand (Nat.le_refl _)),
        Nat.add_sub_cancel' before]
      exact ⟨more, rfl, rfl⟩

theorem forall_textFields {P : Nat × Nat → Prop} :
    (∀ field ∈ textFields s, P field) ↔ P (26, identifierWidth) ∧ P (58, identifierWidth) ∧
      ∀ place ∈ recordPlaces s, P (place + 2, Vlr.userIdWidth) ∧
        P (place + 22, Vlr.descriptionWidth) := by
  simp only [textFields, List.forall_mem_cons, List.forall_mem_flatMap, List.not_mem_nil,
    false_implies, implies_true, and_true]

theorem pointDataStart_of_decode {h : Header} {rest : Bytes}
    (read : (decode s).result = .ok (h, rest)) : h.pointDataStart = Declared.start s := by
  obtain ⟨-, -, -, -, -, -, -, inside, left, -⟩ := decode_iff.1 read
  obtain ⟨-, -, front, found, length⟩ := decode_sound read
  have lengths := congrArg List.length found
  rw [← left, List.length_append, List.length_drop] at lengths
  omega

theorem legible_of_decode {h : Header} {rest : Bytes} (read : (decode s).result = .ok (h, rest)) :
    Legible s := by
  obtain ⟨b, block, first, made, found, stand, before, inside, -, -⟩ := decode_iff.1 read
  have stands := Block.standsIn_of_decoder block
  obtain ⟨laidOut, usable, format, system, software⟩ := Block.exists_ofBlock.1 ⟨first, made⟩
  have inBlock := (drop_of_decoder block laidOut.headerSize).2
  obtain ⟨signature, supported, size, start⟩ := (Block.laidOut_iff stands).1 laidOut
  have records := exists_forall₂.1 ⟨_, stand⟩
  rw [Block.exists_hasFormat, ← stands.pointFormat, ← stands.recordLength] at format
  rw [← stands.transforms] at usable
  rw [← stands.systemIdentifier] at system
  rw [← stands.generatingSoftware] at software
  exact {
    complete := Nat.le_trans size inBlock
    signature
    supported
    size
    start
    format
    transforms := usable
    texts := forall_textFields.2 ⟨system, software, fun place hp =>
      (Vlr.exists_standsAt.1 (records place hp)).2⟩
    records := fun place hp => Nat.le_trans (row_recordPlaces.le_endOf.2 place hp) before
    inside }

theorem exists_decode_of_legible (legible : Legible s) :
    ∃ h rest, (decode s).result = .ok (h, rest) := by
  obtain ⟨system, software, texts⟩ := forall_textFields.1 legible.texts
  obtain ⟨b, block⟩ :=
    Block.exists_decoder legible.size (Nat.le_trans legible.start legible.inside)
  have stands := Block.standsIn_of_decoder block
  obtain ⟨first, made⟩ : ∃ first, (ofBlock b).result = .ok first := by
    refine Block.exists_ofBlock.2 ⟨?_, ?_, ?_, ?_, ?_⟩
    · exact (Block.laidOut_iff stands).2
        ⟨legible.signature, legible.supported, legible.size, legible.start⟩
    · rw [← stands.transforms]
      exact legible.transforms
    · rw [Block.exists_hasFormat, ← stands.pointFormat, ← stands.recordLength]
      exact legible.format
    · rw [← stands.systemIdentifier]
      exact system
    · rw [← stands.generatingSoftware]
      exact software
  obtain ⟨found, stand⟩ := exists_forall₂.2 fun place hp => Vlr.exists_standsAt.2
    ⟨Nat.le_trans (legible.records place hp) legible.inside, texts place hp⟩
  obtain ⟨records, rfl⟩ := exists_store stand
  exact ⟨_, _, decode_iff.2 ⟨b, block, first, made, records, stand,
    endOf_le legible.start legible.records, legible.inside, rfl, rfl⟩⟩

/-- A header is read from the legible bytes and from no others. It has the records that stand at the
places of the walk, in order, and the bytes between the last of them and the points. -/
theorem decode_iff_legible :
    ((∃ h rest, (decode s).result = .ok (h, rest)) ↔ Legible s) ∧
      ∀ h rest, (decode s).result = .ok (h, rest) →
        List.Forall₂ (Vlr.StandsAt s) (recordPlaces s) h.records.toList ∧
        h.recordPadding = s.part (recordsEnd s) (Declared.start s - recordsEnd s) := by
  refine ⟨⟨fun ⟨h, rest, read⟩ => legible_of_decode read, exists_decode_of_legible⟩, ?_⟩
  intro h rest read
  obtain ⟨b, block, first, made, found, stand, before, inside, -, rfl⟩ := decode_iff.1 read
  exact ⟨stand, rfl⟩

/-- A 1.4 file of another writer. Its header has padding, texts with bytes behind their nul, fields
for waveforms and extended records that are in use and bounds that are no numbers. It declares nine
records, of which one fits before the points, and has four more bytes there. -/
def foreign : Bytes :=
  Block.encode { Block.default with
    fileSourceId := 7
    version := ⟨1, 4⟩
    systemIdentifier := Text.encode identifierWidth "scanner\x00left over"
    headerSize := 378
    pointDataStart := 438
    recordCount := 9
    points := 1
    bounds := ⟨.all ⟨0x7ff8000000000001⟩, .all ⟨0xfff8000000000000⟩⟩
    waveformStart? := some 5
    extendedRecords? := some ⟨5, 5⟩
    largeCounts? := some .zero
    padding := [1, 2, 3] } ++
  Vlr.Record.encode ⟨0, Text.encode 16 "user\x00old", 7, 2, Text.encode 32 "", [4, 5]⟩ ++
  [6, 7, 8, 9]

theorem foreign_legible : Legible foreign := by decide +kernel

theorem decode_iff_legible_foreign :
    ∃ h rest, (decode foreign).result = .ok (h, rest) ∧
      List.Forall₂ (Vlr.StandsAt foreign) [378] h.records.toList ∧ h.recordPadding = [6, 7, 8, 9] := by
  obtain ⟨h, rest, read⟩ := decode_iff_legible.1.2 foreign_legible
  obtain ⟨stand, padding⟩ := decode_iff_legible.2 h rest read
  have places : recordPlaces foreign = [378] := by decide +kernel
  have between : foreign.part (recordsEnd foreign) (Declared.start foreign - recordsEnd foreign) =
      [6, 7, 8, 9] := by decide +kernel
  rw [places] at stand
  exact ⟨h, rest, read, stand, padding.trans between⟩

end Lidar.Header
