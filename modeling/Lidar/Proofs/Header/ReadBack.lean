import Lidar.Proofs.Header.RoundTrip
import Lidar.Proofs.Medium

/-!
# What of a written header is read back

Everything is, except that a count by return may be lost. The writer looks at each of the five
counts on its own and leaves zero in the 32-bit field of one that is too large; the reader takes
the 32-bit fields as they are unless all of them are zero.
-/
namespace Lidar.Header

variable {h : Header}

/-- Some counts are too large for 32 bits, and others are neither that nor zero. -/
def Mixed (counts : Vector UInt64 5) : Prop :=
  (∃ n ∈ counts.toList, maxCount < n.toNat) ∧ ∃ n ∈ counts.toList, n ≠ 0 ∧ n.toNat ≤ maxCount

instance (counts : Vector UInt64 5) : Decidable (Mixed counts) :=
  @instDecidableAnd _ _ (List.decidableBEx _ _) (List.decidableBEx _ _)

theorem shortCount_eq_zero {n : UInt64} :
    (shortCount n).toUInt64 = 0 ↔ n = 0 ∨ maxCount < n.toNat := by
  by_cases small : n.toNat ≤ maxCount
  · rw [shortCount_of_le small]
    exact ⟨.inl, fun either => either.resolve_right (Nat.not_lt.2 small)⟩
  · rw [shortCount_of_gt (Nat.lt_of_not_le small)]
    exact ⟨fun _ => .inr (Nat.lt_of_not_le small), fun _ => rfl⟩

def shortCounts (counts : Vector UInt64 5) : Vector UInt64 5 :=
  counts.map fun n => (shortCount n).toUInt64

theorem shortCounts_of_le {counts : Vector UInt64 5}
    (small : ∀ n ∈ counts.toList, n.toNat ≤ maxCount) : shortCounts counts = counts := by
  apply Vector.ext
  intro i hi
  rw [shortCounts, Vector.getElem_map, shortCount_of_le (small _ (by simp))]

theorem shortCounts_all_zero {counts : Vector UInt64 5} :
    (shortCounts counts).toList.all (· == 0) = true ↔
      ∀ n ∈ counts.toList, n = 0 ∨ maxCount < n.toNat := by
  rw [shortCounts, Vector.toList_map, List.all_eq_true, List.forall_mem_map]
  simp only [beq_iff_eq, shortCount_eq_zero]

theorem take_largeCounts (h : Header) :
    h.largeCounts.byReturn.take 5 = h.numberOfPointsByReturn := by
  apply Vector.ext
  intro i hi
  have inside : i < h.numberOfPointsByReturn.toList.length := by simp; omega
  rw [Vector.getElem_take]
  simp only [largeCounts, Vector.getElem_ofFn]
  rw [← List.getElem_eq_getD _ (h := inside), Vector.getElem_toList]

theorem countsReadBack_eq (h : Header) :
    h.countsReadBack =
      if h.version.supports .largeFiles &&
          (shortCounts h.numberOfPointsByReturn).toList.all (· == 0) then
        h.numberOfPointsByReturn
      else shortCounts h.numberOfPointsByReturn := by
  have counts : h.block.pointsByReturn.map UInt32.toUInt64 =
      shortCounts h.numberOfPointsByReturn := by
    rw [shortCounts]
    show (h.numberOfPointsByReturn.map shortCount).map UInt32.toUInt64 = _
    rw [Vector.map_map]
    rfl
  unfold countsReadBack Block.numberOfPointsByReturn
  rw [counts, largeCounts_block]
  cases h.version.supports .largeFiles with
  | false => simp
  | true =>
    simp only [if_true, Bool.true_and]
    rw [take_largeCounts]

theorem shortCounts_getElem (counts : Vector UInt64 5) (i : Nat) (hi : i < 5) :
    (shortCounts counts)[i] = if maxCount < counts[i].toNat then 0 else counts[i] := by
  rw [shortCounts, Vector.getElem_map]
  by_cases large : maxCount < counts[i].toNat
  · rw [if_pos large, shortCount_of_gt large]
    rfl
  · rw [if_neg large, shortCount_of_le (Nat.le_of_not_lt large)]

theorem shortCounts_ne {counts : Vector UInt64 5} {n : UInt64} (mem : n ∈ counts.toList)
    (large : maxCount < n.toNat) : shortCounts counts ≠ counts := by
  intro same
  have lists := congrArg Vector.toList same
  rw [shortCounts, Vector.toList_map] at lists
  have kept := List.map_inj_left.1 (lists.trans (List.map_id _).symm) n mem
  rw [shortCount_of_gt large] at kept
  rw [← show 0 = n from kept] at large
  exact Nat.not_lt_zero _ large

theorem countsReadBack_of_not_mixed (writable : h.Writable)
    (same : ¬Mixed h.numberOfPointsByReturn) : h.countsReadBack = h.numberOfPointsByReturn := by
  rw [countsReadBack_eq]
  split
  · rfl
  · next short =>
    refine shortCounts_of_le fun n hn => Nat.le_of_not_lt fun large => ?_
    have supported := (writable.pointsByReturn n hn).resolve_left (Nat.not_le.2 large)
    rw [supported, Bool.true_and, shortCounts_all_zero] at short
    refine short fun k hk => ?_
    by_cases zero : k = 0
    · exact .inl zero
    · exact .inr (Nat.lt_of_not_le fun small => same ⟨⟨n, hn, large⟩, k, hk, zero, small⟩)

theorem countsReadBack_of_mixed (mixed : Mixed h.numberOfPointsByReturn) :
    h.countsReadBack = shortCounts h.numberOfPointsByReturn := by
  obtain ⟨-, n, hn, some, small⟩ := mixed
  rw [countsReadBack_eq, if_neg]
  intro hidden
  rw [Bool.and_eq_true] at hidden
  have all := shortCounts_all_zero.1 hidden.2
  exact (all n hn).elim some fun large => absurd small (Nat.not_le.2 large)

theorem countsReadBack_of_le (writable : h.Writable)
    (small : ∀ n ∈ h.numberOfPointsByReturn.toList, n.toNat ≤ maxCount) :
    h.countsReadBack = h.numberOfPointsByReturn := by
  apply countsReadBack_of_not_mixed writable
  rintro ⟨⟨n, mem, large⟩, -⟩
  exact Nat.not_le.2 large (small n mem)

theorem decode_front_of_le (hw : h.WellFormed) (room : h.HasRoom) (writable : h.Writable)
    (small : ∀ n ∈ h.numberOfPointsByReturn.toList, n.toNat ≤ maxCount) (rest : Bytes) :
    (decode (h.front ++ rest)).result = .ok (h, rest) := by
  have read := decode_front hw room writable rest
  rwa [countsReadBack_of_le writable small] at read

/-- What is written for a header is as long as the header says, and whatever follows, the header is
read back from it up to the counts by return. Only a header that was made of a block might have no
room for its padding. -/
theorem decode_of_writeHeader (made : h.Reachable ∨ h.Made ∧ h.HasRoom) {m : Medium}
    (written : Medium.writeInTurn h (.ofBytes []) = .ok () m) :
    m.bytes.length = h.pointDataStart ∧
      ∀ tail, ∃ h', (decode (m.bytes ++ tail)).result = .ok (h', tail) ∧
        { h' with numberOfPointsByReturn := h.numberOfPointsByReturn } = h := by
  obtain ⟨hw, room⟩ := sound_of_made made
  obtain ⟨writable, bytes⟩ := Medium.bytes_of_writeInTurn hw written
  rw [bytes]
  refine ⟨length_front room, fun tail => ⟨_, decode_front hw room writable tail, rfl⟩⟩

def laden : Header :=
  [Edit.version ⟨1, 4⟩, .padding [1, 2, 3], .recordPadding [0xdd, 0xcc],
    .pushRecord ⟨0, "user", 7, "a record", [4, 5, 6, 7]⟩,
    .finalize 4294967301 #v[4294967296, 5, 0, 0, 0]
      ⟨.all ⟨0x7ff8000000000001⟩, .all ⟨0xfff8000000000000⟩⟩].foldl tryEdit (.empty 2017 1)

theorem laden_reachable : Reachable laden := (Reachable.empty 2017 1).tryEdits _

theorem laden_writable : Writable laden := by decide +kernel

theorem decode_of_writeHeader_laden :
    ∃ m, Medium.writeInTurn laden (.ofBytes []) = .ok () m ∧ m.bytes.length = 438 ∧
      ∀ tail, ∃ h', (decode (m.bytes ++ tail)).result = .ok (h', tail) ∧
        { h' with numberOfPointsByReturn := laden.numberOfPointsByReturn } = laden := by
  obtain ⟨m, written, -⟩ := Medium.writeInTurn_eq (Medium.reliable_ofBytes [])
    laden_reachable.sound.1 laden_writable
  obtain ⟨length, back⟩ := decode_of_writeHeader (.inl laden_reachable) written
  refine ⟨m, written, ?_, back⟩
  rw [length]
  decide +kernel

/-- The counts by return are read back as they were unless they are mixed. Then those that are too
large for 32 bits are read as zero. -/
theorem decode_byReturn_of_writeHeader (made : h.Made) (room : h.HasRoom) {m : Medium}
    (written : Medium.writeInTurn h (.ofBytes []) = .ok () m) (tail : Bytes) :
    ∃ h', (decode (m.bytes ++ tail)).result = .ok (h', tail) ∧
      (h'.numberOfPointsByReturn = h.numberOfPointsByReturn ↔ ¬Mixed h.numberOfPointsByReturn) ∧
      (Mixed h.numberOfPointsByReturn → ∀ (i : Nat) (hi : i < 5), h'.numberOfPointsByReturn[i] =
        if maxCount < h.numberOfPointsByReturn[i].toNat then 0 else h.numberOfPointsByReturn[i]) := by
  have hw := made.wellFormed
  obtain ⟨writable, bytes⟩ := Medium.bytes_of_writeInTurn hw written
  rw [bytes]
  refine ⟨_, decode_front hw room writable tail, ⟨fun same mixed => ?_, fun same => ?_⟩,
    fun mixed i hi => ?_⟩
  · obtain ⟨n, hn, large⟩ := mixed.1
    exact shortCounts_ne hn large ((countsReadBack_of_mixed mixed).symm.trans same)
  · exact countsReadBack_of_not_mixed writable same
  · show h.countsReadBack[i] = _
    rw [countsReadBack_of_mixed mixed, shortCounts_getElem]

def mixed : Header :=
  [Edit.version ⟨1, 4⟩, .finalize 4294967297 #v[4294967296, 1, 0, 0, 0] .zero].foldl tryEdit
    (.empty 2017 1)

theorem mixed_reachable : Reachable mixed := (Reachable.empty 2017 1).tryEdits _

theorem mixed_writable : Writable mixed := by decide +kernel

theorem decode_byReturn_of_writeHeader_mixed :
    ∃ m h', Medium.writeInTurn mixed (.ofBytes []) = .ok () m ∧
      (decode (m.bytes ++ [7])).result = .ok (h', [7]) ∧
      h'.numberOfPointsByReturn[0] = 0 ∧ h'.numberOfPointsByReturn[1] = 1 := by
  obtain ⟨m, written, -⟩ := Medium.writeInTurn_eq (Medium.reliable_ofBytes [])
    mixed_reachable.sound.1 mixed_writable
  obtain ⟨h', read, -, lost⟩ := decode_byReturn_of_writeHeader (.reachable mixed_reachable)
    mixed_reachable.sound.2 written [7]
  have slots := lost (by decide +kernel)
  exact ⟨m, h', written, read, slots 0 (by decide), slots 1 (by decide)⟩

/-- A count by return can be lost. -/
theorem byReturn_lost :
    ∃ h m h', Reachable h ∧ Medium.writeInTurn h (.ofBytes []) = .ok () m ∧
      (decode m.bytes).result = .ok (h', []) ∧
      h'.numberOfPointsByReturn ≠ h.numberOfPointsByReturn := by
  obtain ⟨hw, room⟩ := mixed_reachable.sound
  obtain ⟨m, written, -⟩ := Medium.writeInTurn_eq (Medium.reliable_ofBytes []) hw mixed_writable
  have read := decode_front hw room mixed_writable []
  rw [List.append_nil, ← (Medium.bytes_of_writeInTurn hw written).2] at read
  refine ⟨mixed, m, _, mixed_reachable, written, read, ?_⟩
  show mixed.countsReadBack ≠ mixed.numberOfPointsByReturn
  decide +kernel

end Lidar.Header
