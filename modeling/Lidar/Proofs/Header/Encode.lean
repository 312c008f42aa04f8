import Lidar.Proofs.Header.Reachable

/-!
# When a header can be written

A well formed header is refused only for its file source id, for a count that its version cannot
hold, or for a start of the point data past what 32 bits can hold. Otherwise its bytes are those of
its block, of its records and of the padding before the points, and they end where the points start.
-/
namespace Lidar.Header

def Countable (version : Version) (n : UInt64) : Prop :=
  n.toNat ≤ maxCount ∨ version.supports .largeFiles = true

instance (version : Version) (n : UInt64) : Decidable (Countable version n) :=
  inferInstanceAs (Decidable (_ ∨ _))

theorem countable_zero (version : Version) :
    ∀ n ∈ (Vector.replicate 5 (0 : UInt64)).toList, Countable version n := by
  intro n hn
  rw [Vector.toList_replicate] at hn
  rw [List.eq_of_mem_replicate hn]
  exact .inl (Nat.zero_le _)

def shortCount (n : UInt64) : UInt32 := if n.toNat ≤ maxCount then n.toUInt32 else 0

theorem legacyCount_eq_ok (version : Version) (n : UInt64) (c : UInt32) :
    legacyCount version n = .ok c ↔ Countable version n ∧ shortCount n = c := by
  unfold legacyCount Countable shortCount
  by_cases small : n.toNat ≤ maxCount
  · simp [small]
  · cases version.supports .largeFiles <;> simp [small]

def block (h : Header) : Block where
  signature := Block.magic
  fileSourceId := h.fileSourceId
  globalEncoding := h.globalEncoding
  guid := h.guid.bytes
  version := h.version
  systemIdentifier := Text.encode identifierWidth h.systemIdentifier
  generatingSoftware := Text.encode identifierWidth h.generatingSoftware
  creationDay := h.creationDay
  creationYear := h.creationYear
  headerSize := UInt16.ofNat h.size
  pointDataStart := UInt32.ofNat h.pointDataStart
  recordCount := UInt32.ofNat h.records.size
  pointFormat := h.formatByte
  pointRecordLength := UInt16.ofNat h.format.length
  points := shortCount h.numberOfPoints
  pointsByReturn := h.numberOfPointsByReturn.map shortCount
  scale := ⟨h.transforms.x.scale, h.transforms.y.scale, h.transforms.z.scale⟩
  offset := ⟨h.transforms.x.offset, h.transforms.y.offset, h.transforms.z.offset⟩
  bounds := h.bounds
  waveformStart? := if h.version.supports .waveforms then some 0 else none
  extendedRecords? := if h.version.supports .extendedRecords then some ⟨0, 0⟩ else none
  largeCounts? := if h.version.supports .largeFiles then some h.largeCounts else none
  padding := h.padding

/-- What a well formed header needs besides to be written. -/
structure Writable (h : Header) : Prop where
  sourceId : h.fileSourceId = 0 ∨ h.version.supports .fileSourceId = true
  points : Countable h.version h.numberOfPoints
  pointsByReturn : ∀ n ∈ h.numberOfPointsByReturn.toList, Countable h.version n
  pointDataStart : h.pointDataStart ≤ maxCount

theorem writable_iff {h : Header} :
    ((h.fileSourceId = 0 ∨ h.version.supports .fileSourceId = true) ∧
      Countable h.version h.numberOfPoints ∧
      (∀ n ∈ h.numberOfPointsByReturn.toList, Countable h.version n) ∧
      h.pointDataStart ≤ maxCount) ↔ Writable h :=
  ⟨fun ⟨sourceId, points, byReturn, start⟩ => ⟨sourceId, points, byReturn, start⟩,
    fun w => ⟨w.sourceId, w.points, w.pointsByReturn, w.pointDataStart⟩⟩

instance (h : Header) : Decidable (Writable h) :=
  -- a search may find the instance that goes through all 64-bit numbers
  let _ := List.decidableBAll (Countable h.version) h.numberOfPointsByReturn.toList
  decidable_of_decidable_of_iff writable_iff

theorem toBlock_eq_ok {h : Header} (hw : h.WellFormed) {b : Block} :
    h.toBlock = .ok b ↔ h.Writable ∧ h.block = b := by
  have system := @Text.check_eq_ok_iff .systemIdentifier h.systemIdentifier identifierWidth
  have software := @Text.check_eq_ok_iff .generatingSoftware h.generatingSoftware identifierWidth
  unfold toBlock
  simp only [Success.refuse_guard_eq_ok, Success.bind_eq_ok, Success.pure_eq_ok, legacyCount_eq_ok,
    Success.vector_mapM_eq_ok_map (legacyCount_eq_ok h.version)]
  constructor
  · rintro ⟨sourceId, _, ⟨points, rfl⟩, _, ⟨byReturn, rfl⟩, start, -, -, -, -, rfl⟩
    refine ⟨⟨?_, points, byReturn, Nat.le_of_not_lt start⟩, rfl⟩
    by_cases zero : h.fileSourceId = 0
    · exact .inl zero
    · exact .inr (by simpa [zero] using sourceId)
  · rintro ⟨⟨sourceId, points, byReturn, start⟩, rfl⟩
    refine ⟨?_, _, ⟨points, rfl⟩, _, ⟨byReturn, rfl⟩, Nat.not_lt.2 start, (),
      system.2 hw.systemIdentifier, (), software.2 hw.generatingSoftware, rfl⟩
    rcases sourceId with zero | supported
    · simp [zero]
    · simp [supported]

def parts (h : Header) : List (Operation × Bytes) :=
  (.writingHeader, h.block.encode) ::
    (h.records.toList.map fun v => (.writingRecord, v.written.encode)) ++
      [(.writingRecordPadding, h.recordPadding)]

theorem sections_of_toBlock {h : Header} {b : Block} (made : h.toBlock = .ok b) :
    h.sections = .ok ((.writingHeader, b.encode) ::
      (h.records.toList.map fun v => (.writingRecord, v.written.encode)) ++
        [(.writingRecordPadding, h.recordPadding)]) := by
  unfold sections
  rw [made]
  simp only [Success.ok_bind, Success.bind_eq_ok, Success.pure_eq_ok,
    Success.list_mapM_eq_ok_map fun v r => Vlr.toRecord_eq_ok (v := v) (r := r)]
  exact ⟨_, ⟨h.records.valid, rfl⟩, by simp⟩

theorem sections_eq_ok {h : Header} (hw : h.WellFormed) {parts : List (Operation × Bytes)} :
    h.sections = .ok parts ↔ h.Writable ∧ h.parts = parts := by
  constructor
  · intro found
    obtain ⟨b, made, -⟩ := Success.bind_eq_ok.1 found
    obtain ⟨writable, rfl⟩ := (toBlock_eq_ok hw).1 made
    exact ⟨writable, Except.ok.inj ((sections_of_toBlock made).symm.trans found)⟩
  · rintro ⟨writable, rfl⟩
    exact sections_of_toBlock ((toBlock_eq_ok hw).2 ⟨writable, rfl⟩)

def front (h : Header) : Bytes := h.parts.flatMap (·.2)

theorem encode_eq_ok {h : Header} (hw : h.WellFormed) {bytes : Bytes} :
    h.encode = .ok bytes ↔ h.Writable ∧ h.front = bytes := by
  unfold encode
  simp only [Success.bind_eq_ok, Success.pure_eq_ok, sections_eq_ok hw]
  constructor
  · rintro ⟨_, ⟨writable, rfl⟩, rfl⟩
    exact ⟨writable, rfl⟩
  · rintro ⟨writable, rfl⟩
    exact ⟨_, ⟨writable, rfl⟩, rfl⟩

def encodeRecords (records : List Vlr) : Bytes := records.flatMap (·.written.encode)

theorem front_eq (h : Header) :
    h.front = h.block.encode ++ (encodeRecords h.records.toList ++ h.recordPadding) := by
  simp [front, parts, encodeRecords, List.flatMap_map]

theorem length_encodeRecords (records : List Vlr) :
    (encodeRecords records).length = Vlr.totalSize records := by
  induction records with
  | nil => rfl
  | cons v records ih =>
    rw [encodeRecords, List.flatMap_cons, List.length_append, Vlr.Record.length_encode,
      Vlr.size_written, Vlr.totalSize_cons, ← ih]
    rfl

theorem length_block (h : Header) :
    h.block.encode.length = h.version.headerSize + h.padding.length :=
  Block.length_encode h.block

theorem front_ne_nil (h : Header) : h.front ≠ [] := by
  have length := h.length_block
  rw [Version.headerSize] at length
  rw [front_eq]
  apply List.append_ne_nil_of_left_ne_nil
  apply List.ne_nil_of_length_pos
  omega

/-- The bytes end where the points start just when the size counts all of the padding. -/
theorem length_front_iff {h : Header} : h.front.length = h.pointDataStart ↔ h.HasRoom := by
  rw [front_eq, List.length_append, List.length_append, length_block, length_encodeRecords,
    pointDataStart, Vlr.Store.blockSize, ← Nat.add_assoc, hasRoom_iff, Nat.add_right_cancel_iff,
    Nat.add_right_cancel_iff, eq_comm]

theorem length_front {h : Header} (room : h.HasRoom) : h.front.length = h.pointDataStart :=
  length_front_iff.2 room

section Emit

variable {m : Type → Type} [Monad m] [LawfulMonad m] [MonadExcept Error m]
  (write : Operation → Bytes → m Unit)

theorem emit_records {records : List Vlr} (valid : ∀ v ∈ records, v.Valid) :
    (forM records fun v => ofExcept v.toRecord >>= fun record =>
        write .writingRecord record.encode) =
      forM (records.map fun v => (Operation.writingRecord, v.written.encode)) fun part =>
        write part.1 part.2 := by
  induction records with
  | nil => rfl
  | cons v records ih =>
    obtain ⟨hv, later⟩ := List.forall_mem_cons.1 valid
    have checked : v.toRecord = .ok v.written := Vlr.toRecord_eq_ok.2 ⟨hv, rfl⟩
    rw [List.forM_cons, List.map_cons, List.forM_cons, ih later, checked]
    simp [ofExcept]

/-- All records can be written, so it makes no difference that each is looked at only when its turn
comes. -/
theorem emit_eq (stops : ∀ {α β : Type} (e : Error) (f : α → m β), (throw e >>= f : m β) = throw e)
    (h : Header) :
    h.emit write =
      ofExcept h.sections >>= fun parts => forM parts fun part => write part.1 part.2 := by
  unfold emit
  cases made : h.toBlock with
  | error e =>
    have failed : h.sections = .error e := by
      unfold sections
      rw [made]
      rfl
    rw [failed]
    simp only [ofExcept, stops]
  | ok b =>
    rw [sections_of_toBlock made, emit_records write h.records.valid]
    simp only [ofExcept, pure_bind, List.cons_append, List.forM_cons, List.forM_append,
      List.forM_nil, bind_pure_unit]

end Emit

namespace Block

variable {b : Block}

theorem sourceId_eq_zero_or (b : Block) :
    b.sourceId = 0 ∨ b.version.supports .fileSourceId = true := by
  unfold sourceId hasReservedSourceId
  cases b.version.supports .fileSourceId with
  | true => exact .inr rfl
  | false =>
    by_cases zero : b.fileSourceId = 0
    · exact .inl (by simp [zero])
    · exact .inl (by simp [zero])

private theorem countable_short (version : Version) (n : UInt32) :
    Countable version n.toUInt64 := by
  have small := n.toNat_lt
  refine .inl ?_
  rw [UInt32.toNat_toUInt64]
  unfold maxCount
  omega

theorem countable_numberOfPoints (complete : b.Complete) :
    Countable b.version b.numberOfPoints := by
  unfold numberOfPoints
  split
  · exact countable_short _ _
  · cases large : b.largeCounts? with
    | none => exact .inl (Nat.zero_le _)
    | some counts =>
      rw [Countable, ← complete.largeFiles, large]
      exact .inr rfl

theorem countable_numberOfPointsByReturn (complete : b.Complete) :
    ∀ n ∈ b.numberOfPointsByReturn.toList, Countable b.version n := by
  intro n hn
  cases large : b.largeCounts? with
  | some counts =>
    rw [Countable, ← complete.largeFiles, large]
    exact .inr rfl
  | none =>
    unfold numberOfPointsByReturn at hn
    rw [large, Vector.toList_map] at hn
    obtain ⟨short, -, rfl⟩ := List.mem_map.1 hn
    exact countable_short _ _

end Block

theorem writable_of_decode {s rest : Bytes} {h : Header}
    (read : (decode s).result = .ok (h, rest)) : h.Writable := by
  obtain ⟨b, behind, block, first, made, position, records, left, recordsRead, inside, padding, hp,
    rfl⟩ := result_decode_eq_ok.1 read
  have complete := (Block.complete_of_decoder block).1
  obtain ⟨found, whole, -, rfl⟩ := takenFrom_of_decodeRecords recordsRead
  have start : first.size + records.blockSize + padding.length ≤ maxCount := by
    have found : records.blockSize = Vlr.totalSize found := congrArg Vlr.totalSize whole
    rw [found, (Decoder.take_complete hp).2, Nat.add_sub_cancel' inside]
    exact Nat.le_of_lt_succ b.pointDataStart.toNat_lt
  obtain ⟨-, -, format, -, software, -, system, -, rfl⟩ := result_ofBlock_eq_ok.1 made
  exact ⟨b.sourceId_eq_zero_or, b.countable_numberOfPoints complete,
    b.countable_numberOfPointsByReturn complete, start⟩

end Lidar.Header
