import Lidar.Proofs.Header.RoundTrip

/-!
# Headers with more padding than their size

The size of a header goes no further than the largest one, but all of its padding is written. A
reader takes as much for padding as the size says, and what is left for the first of the records, or
of the points. So it finds another header, and everything behind that one too late.
-/
namespace Lidar.Header

variable {g : Header} {records : Vlr.Store} {extra tail : Bytes}

/-- A header with bytes behind its padding, and with other records. -/
def overrun (g : Header) (extra : Bytes) (records : Vlr.Store) : Header :=
  { g with padding := g.padding ++ extra, records }

theorem overrun_wellFormed (hg : g.WellFormed) (extra : Bytes) (records : Vlr.Store) :
    (g.overrun extra records).WellFormed := { hg with }

theorem not_hasRoom_overrun (full : g.version.headerSize + g.padding.length = maxSize)
    (more : extra ≠ []) : ¬(g.overrun extra records).HasRoom := by
  have length := List.length_pos_of_ne_nil more
  show ¬g.version.headerSize + (g.padding ++ extra).length ≤ maxSize
  rw [List.length_append]
  omega

theorem size_overrun (full : g.version.headerSize + g.padding.length = maxSize) :
    (g.overrun extra records).size = g.size := by
  by_cases more : extra = []
  · rw [size, size, overrun, more, List.append_nil]
  · have room : g.HasRoom := Nat.le_of_eq full
    rw [size_of_not_hasRoom (not_hasRoom_overrun full more), room.size_eq, full]

theorem pointDataStart_overrun (full : g.version.headerSize + g.padding.length = maxSize)
    (blockSize : records.blockSize = g.records.blockSize) :
    (g.overrun extra records).pointDataStart = g.pointDataStart := by
  rw [pointDataStart, size_overrun full, pointDataStart, ← blockSize]
  rfl

theorem overrun_writable (writable : g.Writable)
    (full : g.version.headerSize + g.padding.length = maxSize)
    (blockSize : records.blockSize = g.records.blockSize) :
    (g.overrun extra records).Writable :=
  { writable with
    pointDataStart := by
      rw [pointDataStart_overrun full blockSize]
      exact writable.pointDataStart }

theorem Block.encode_append_padding (b : Block) (extra : Bytes) :
    ({ b with padding := b.padding ++ extra } : Block).encode = b.encode ++ extra :=
  (List.append_assoc _ b.padding extra).symm

theorem block_overrun (full : g.version.headerSize + g.padding.length = maxSize)
    (count : records.size = g.records.size) (blockSize : records.blockSize = g.records.blockSize) :
    (g.overrun extra records).block = { g.block with padding := g.block.padding ++ extra } := by
  unfold block
  rw [size_overrun full, pointDataStart_overrun full blockSize]
  show _ = Block.mk _ _ _ _ _ _ _ _ _ _ _ (UInt32.ofNat g.records.size) _ _ _ _ _ _ _ _ _ _ _
  rw [← count]
  rfl

/-- A header of the largest size, with bytes behind its padding that do not count, begins like one
without them when the records are as many and as long. -/
theorem front_overrun (full : g.version.headerSize + g.padding.length = maxSize)
    (count : records.size = g.records.size) (blockSize : records.blockSize = g.records.blockSize)
    (shifted : extra ++ (encodeRecords records.toList ++ g.recordPadding) =
      encodeRecords g.records.toList ++ g.recordPadding ++ tail) :
    (g.overrun extra records).front = g.front ++ tail := by
  rw [front_eq, block_overrun full count blockSize, Block.encode_append_padding, front_eq,
    List.append_assoc, List.append_assoc, ← shifted]
  rfl

/-- The default block with one byte of padding more than a size can count. -/
def crowded : Block := { Block.default with padding := Bytes.fill 65309 0 }

def padded (padding : Bytes) (records : Vlr.Store) : Header :=
  { Header.empty 0 0 with systemIdentifier := "", generatingSoftware := "", padding, records }

theorem padded_wellFormed (padding : Bytes) (records : Vlr.Store) :
    (padded padding records).WellFormed :=
  { empty_wellFormed 0 0 with
    systemIdentifier := by
      show Text.Fits "" identifierWidth
      decide
    generatingSoftware := by
      show Text.Fits "" identifierWidth
      decide }

theorem padded_writable (padding : Bytes) (records : Vlr.Store)
    (small : records.blockSize ≤ maxSize) : (padded padding records).Writable where
  sourceId := .inl rfl
  points := .inl (Nat.zero_le _)
  pointsByReturn := countable_zero _
  pointDataStart := by
    have size := (padded padding records).size_le
    show (padded padding records).size + records.blockSize + 0 ≤ maxCount
    unfold maxSize at size small
    unfold maxCount
    omega

theorem overrun_padded_sound {padding : Bytes}
    (full : Version.default.headerSize + padding.length = maxSize) :
    ((padded padding .empty).overrun [0] .empty).WellFormed ∧
      ((padded padding .empty).overrun [0] .empty).Writable :=
  ⟨overrun_wellFormed (padded_wellFormed padding .empty) [0] .empty,
    overrun_writable (padded_writable padding .empty (Nat.zero_le _)) full rfl⟩

theorem result_ofBlock_default (padding : Bytes) (largeCounts? : Option LargeCounts) :
    let b := { Block.default with padding, largeCounts? }
    (ofBlock b).result = .ok { padded padding .empty with
      compressed := b.isCompressed
      numberOfPoints := b.numberOfPoints
      numberOfPointsByReturn := b.numberOfPointsByReturn } := by
  have blank : ∀ field, Text.decode field (Vector.replicate 32 0).toList = .ok "" := fun _ =>
    Text.decode_eq_ok.2 (by decide)
  refine result_ofBlock_eq_ok.2 ⟨⟨rfl, rfl, ?_, ?_⟩, ?_, ⟨false, false, 0⟩, ⟨?_, rfl⟩,
    "", blank _, "", blank _, rfl⟩
  · show Version.default.headerSize ≤ (227 : UInt16).toNat
    decide
  · show (227 : UInt16).toNat ≤ (227 : UInt32).toNat
    decide
  · show Transform.default.Usable ∧ Transform.default.Usable ∧ Transform.default.Usable
    decide
  · show Format.ofId? (0 &&& ~~~Block.compressedBit) = some ⟨false, false, 0⟩
    decide

theorem result_ofBlock_padding (padding : Bytes) :
    (ofBlock { Block.default with padding }).result = .ok (padded padding .empty) := by
  have compressed : Block.default.isCompressed = false := by decide
  have points : Block.default.numberOfPoints = 0 := by decide
  have byReturn : Block.default.numberOfPointsByReturn = Vector.replicate 5 0 := by
    decide +kernel
  refine (result_ofBlock_default padding none).trans ?_
  show Except.ok { padded padding .empty with
    compressed := Block.default.isCompressed
    numberOfPoints := Block.default.numberOfPoints
    numberOfPointsByReturn := Block.default.numberOfPointsByReturn } = _
  rw [compressed, points, byReturn]
  rfl

theorem result_ofBlock_crowded :
    ∃ padding : Bytes, Version.default.headerSize + padding.length = maxSize ∧
      (ofBlock crowded).result = .ok ((padded padding .empty).overrun [0] .empty) := by
  refine ⟨Bytes.fill 65308 0, ?_, ?_⟩
  · rw [Bytes.fill, List.length_replicate]
    decide
  · have split : Bytes.fill 65309 0 = Bytes.fill 65308 0 ++ [0] := List.replicate_succ'
    rw [crowded, split]
    exact result_ofBlock_padding _

end Lidar.Header
