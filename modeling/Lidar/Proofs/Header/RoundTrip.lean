import Lidar.Proofs.Header.Encode

/-!
# Headers read back

The bytes of a header, whatever follows them, are read as the header itself, except for its counts
by return: those are what the block of the header makes of them.
-/
namespace Lidar.Header

variable {h : Header}

theorem headerSize_block (h : Header) : h.block.headerSize.toNat = h.size :=
  UInt16.toNat_ofNat_of_lt' (Nat.lt_succ_of_le h.size_le)

theorem pointDataStart_block (writable : h.Writable) :
    h.block.pointDataStart.toNat = h.pointDataStart :=
  UInt32.toNat_ofNat_of_lt' (Nat.lt_succ_of_le writable.pointDataStart)

theorem length_le_blockSize (records : List Vlr) : records.length ≤ Vlr.totalSize records := by
  induction records with
  | nil => simp
  | cons v records ih =>
    rw [Vlr.totalSize_cons, List.length_cons, Vlr.size, Vlr.headSize]
    omega

theorem recordCount_block (writable : h.Writable) :
    h.block.recordCount.toNat = h.records.toList.length := by
  have start := writable.pointDataStart
  have count := length_le_blockSize h.records.toList
  refine UInt32.toNat_ofNat_of_lt' (Nat.lt_succ_of_le ?_)
  unfold pointDataStart Vlr.Store.blockSize at start
  unfold Vlr.Store.size
  exact Nat.le_trans count (Nat.le_trans (by omega) start)

private theorem isSome_if {α : Type} (c : Bool) (a : α) : (if c then some a else none).isSome = c := by
  cases c <;> rfl

theorem block_complete (room : h.HasRoom) : h.block.Complete where
  waveforms := isSome_if _ _
  extendedRecords := isSome_if _ _
  largeFiles := isSome_if _ _
  padding := by
    rw [headerSize_block, room.size_eq]
    exact (Nat.add_sub_cancel_left _ _).symm

theorem block_laidOut (hw : h.WellFormed) (room : h.HasRoom) (writable : h.Writable) :
    h.block.LaidOut where
  signature := rfl
  supported := hw.version
  headerSize := by
    rw [headerSize_block, room.size_eq]
    exact Nat.le_add_right _ _
  pointDataStart := by
    rw [headerSize_block, pointDataStart_block writable, Header.pointDataStart]
    omega

private theorem formatByte_bits : ∀ hasGpsTime hasColor compressed : Bool,
    let id := (⟨hasGpsTime, hasColor, 0⟩ : Format).id
    let byte := if compressed then id ||| Block.compressedBit else id
    Format.ofId? (byte &&& ~~~Block.compressedBit) = some ⟨hasGpsTime, hasColor, 0⟩ ∧
      (byte &&& Block.compressedBit == Block.compressedBit) = compressed := by
  decide

theorem format_length (hw : h.WellFormed) :
    h.format.length = h.format.standardLength + h.format.extraBytes.toNat := by
  rw [Format.length, Format.checkedLength?, if_pos hw.format]
  rfl

theorem block_hasFormat (hw : h.WellFormed) : h.block.HasFormat h.format where
  id := (formatByte_bits h.format.hasGpsTime h.format.hasColor h.compressed).1
  length := by
    show _ = (UInt16.ofNat h.format.length).toNat
    rw [format_length hw, UInt16.toNat_ofNat_of_lt' (Nat.lt_succ_of_le hw.format)]

theorem isCompressed_block (h : Header) : h.block.isCompressed = h.compressed :=
  (formatByte_bits h.format.hasGpsTime h.format.hasColor h.compressed).2

theorem sourceId_block (writable : h.Writable) : h.block.sourceId = h.fileSourceId := by
  have free : h.block.hasReservedSourceId = false := by
    show (h.fileSourceId != 0 && !h.version.supports .fileSourceId) = false
    rcases writable.sourceId with zero | supported
    · simp [zero]
    · simp [supported]
  rw [Block.sourceId, free]
  rfl

theorem shortCount_of_le {n : UInt64} (small : n.toNat ≤ maxCount) :
    (shortCount n).toUInt64 = n := by
  apply UInt64.toNat.inj
  rw [shortCount, if_pos small]
  simp only [UInt32.toNat_toUInt64, UInt64.toNat_toUInt32]
  exact Nat.mod_eq_of_lt (Nat.lt_succ_of_le small)

theorem shortCount_of_gt {n : UInt64} (large : maxCount < n.toNat) : shortCount n = 0 :=
  if_neg (Nat.not_le.2 large)

theorem largeCounts_block (h : Header) :
    h.block.largeCounts? = if h.version.supports .largeFiles then some h.largeCounts else none :=
  rfl

theorem numberOfPoints_block (writable : h.Writable) :
    h.block.numberOfPoints = h.numberOfPoints := by
  unfold Block.numberOfPoints
  rw [largeCounts_block]
  show (if 0 < shortCount h.numberOfPoints then (shortCount h.numberOfPoints).toUInt64 else _) = _
  by_cases small : h.numberOfPoints.toNat ≤ maxCount
  · have same := shortCount_of_le small
    by_cases some : 0 < shortCount h.numberOfPoints
    · rw [if_pos some, same]
    · have zero : shortCount h.numberOfPoints = 0 := UInt32.le_zero_iff.1 (UInt32.not_lt.1 some)
      have none : h.numberOfPoints = 0 := by
        rw [← same, zero]
        rfl
      rw [if_neg some]
      cases h.version.supports .largeFiles with
      | false => exact none.symm
      | true => rfl
  · have zero := shortCount_of_gt (Nat.lt_of_not_le small)
    have supported := writable.points.resolve_left small
    rw [zero, if_neg (by decide), supported]
    rfl

theorem decodeRecords_encodeRecords {declared start position : Nat} {records : List Vlr}
    {before all : Vlr.Store} (whole : all.toList = before.toList ++ records) (rest : Bytes)
    (room : position + Vlr.totalSize records ≤ start) :
    (decodeRecords declared start records.length position before
        (encodeRecords records ++ rest)).result =
      .ok (position + Vlr.totalSize records, all, rest) := by
  induction records generalizing position before with
  | nil =>
    rw [List.append_nil] at whole
    rw [Vlr.Store.ext whole]
    simp [decodeRecords, encodeRecords]
  | cons v records ih =>
    have hv : v.Valid := by
      apply all.valid
      simp [whole]
    rw [Vlr.totalSize_cons, ← Nat.add_assoc] at room
    have fits : ¬start < position + Vlr.headSize := by
      rw [Vlr.size] at room
      omega
    have bytes : encodeRecords (v :: records) ++ rest =
        v.written.encode ++ (encodeRecords records ++ rest) := by
      rw [encodeRecords, List.flatMap_cons, List.append_assoc]
      rfl
    have head := Vlr.Record.inverts.append v.written (encodeRecords records ++ rest)
      (Vlr.written_complete hv)
    rw [bytes, List.length_cons]
    unfold decodeRecords
    rw [if_neg fits]
    simp only [Traced.result_bind, Traced.result_liftM, Success.bind_eq_ok, Prod.exists,
      result_decodeNext_eq_ok]
    refine ⟨_, _, head, v, Vlr.ofRecord_written hv, _, Vlr.Store.push_eq_ok.2 ⟨hv, rfl⟩, ?_⟩
    have whole' : all.toList = (before.append v hv).toList ++ records := by
      rw [whole, Vlr.Store.append, List.append_assoc, List.singleton_append]
    rw [Vlr.size_written, ih whole' room, Vlr.totalSize_cons, Nat.add_assoc]

/-- The counts by return that a reader of the header finds. -/
def countsReadBack (h : Header) : Vector UInt64 5 := h.block.numberOfPointsByReturn

theorem result_ofBlock_block (hw : h.WellFormed) (room : h.HasRoom) (writable : h.Writable) :
    (ofBlock h.block).result = .ok { h with
      numberOfPointsByReturn := h.countsReadBack
      records := .empty
      recordPadding := [] } := by
  rw [result_ofBlock_eq_ok]
  refine ⟨block_laidOut hw room writable, hw.transforms, h.format, block_hasFormat hw,
    h.generatingSoftware, Text.decode_encode hw.generatingSoftware, h.systemIdentifier,
    Text.decode_encode hw.systemIdentifier, ?_⟩
  rw [sourceId_block writable, isCompressed_block, numberOfPoints_block writable]
  rfl

/-- A header is read back from its bytes, except for its counts by return. -/
theorem decode_front (hw : h.WellFormed) (room : h.HasRoom) (writable : h.Writable)
    (rest : Bytes) :
    (decode (h.front ++ rest)).result =
      .ok ({ h with numberOfPointsByReturn := h.countsReadBack }, rest) := by
  have made := result_ofBlock_block hw room writable
  have start : h.size + Vlr.totalSize h.records.toList + h.recordPadding.length =
      h.block.pointDataStart.toNat := (pointDataStart_block writable).symm
  have inside : h.size + Vlr.totalSize h.records.toList ≤ h.block.pointDataStart.toNat :=
    start ▸ Nat.le_add_right _ _
  have left : h.recordPadding.length =
      h.block.pointDataStart.toNat - (h.size + Vlr.totalSize h.records.toList) := by
    rw [← start, Nat.add_sub_cancel_left]
  rw [result_decode_eq_ok, front_eq, List.append_assoc, List.append_assoc]
  refine ⟨h.block, _, Block.inverts.append _ _ (block_complete room), _, made,
    h.size + Vlr.totalSize h.records.toList, h.records, h.recordPadding ++ rest, ?_, inside,
    h.recordPadding, Decoder.take_append left rest, rfl⟩
  rw [recordCount_block writable]
  have whole : h.records.toList = Vlr.Store.empty.toList ++ h.records.toList := rfl
  exact decodeRecords_encodeRecords whole (h.recordPadding ++ rest) inside

end Lidar.Header
