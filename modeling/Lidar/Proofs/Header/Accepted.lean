import Lidar.Proofs.Header.InPlace
import Lidar.Proofs.Header.Overlong
import Lidar.Proofs.Header.ReadBack

/-!
# Blocks that are accepted

A block that is made by hand may hold more padding than any size can count, and counts for which its
version has no fields. Neither is looked at when the block becomes a header. Such a header is not as
long as it says, or cannot be written; all others are written and read back, and no block that was
read is such a block.
-/
namespace Lidar.Header

variable {b : Block} {h : Header}

def Block.HasCounts (b : Block) : Prop :=
  Countable b.version b.numberOfPoints ∧
    ∀ n ∈ b.numberOfPointsByReturn.toList, Countable b.version n

instance (b : Block) : Decidable b.HasRoom := inferInstanceAs (Decidable (_ ≤ _))

instance (b : Block) : Decidable b.HasCounts :=
  @instDecidableAnd _ _ _ (List.decidableBAll (Countable b.version) _)

/-- A header is read back from the bytes that are written for it, which are as many as it says. -/
structure Rewrites (h : Header) : Prop where
  size : h.size = h.version.headerSize + h.padding.length
  back : ∃ m, Medium.writeInTurn h (.ofBytes []) = .ok () m ∧ m.bytes.length = h.pointDataStart ∧
    ∃ h', (decode m.bytes).result = .ok (h', []) ∧ h'.size = h.size ∧ h'.padding = h.padding ∧
      h'.numberOfPoints = h.numberOfPoints ∧ h'.format = h.format ∧
      h'.transforms = h.transforms ∧ h'.version = h.version

theorem rewrites_iff_writable (hw : h.WellFormed) (room : h.HasRoom) :
    h.Rewrites ↔ h.Writable := by
  constructor
  · intro rewrites
    obtain ⟨m, written, -⟩ := rewrites.back
    exact Medium.writable_of_writeInTurn hw written
  · intro writable
    obtain ⟨m, written, -⟩ := Medium.writeInTurn_eq (Medium.reliable_ofBytes []) hw writable
    have read := decode_front hw room writable []
    rw [List.append_nil, ← (Medium.bytes_of_writeInTurn hw written).2] at read
    refine ⟨room.size_eq, m, written, ?_, _, read, rfl, rfl, rfl, rfl, rfl, rfl⟩
    rw [(Medium.bytes_of_writeInTurn hw written).2, length_front room]

theorem writable_iff_of_ofBlock (made : (ofBlock b).result = .ok h) :
    h.Writable ↔ b.HasCounts := by
  obtain ⟨-, -, format, -, software, -, system, -, rfl⟩ := result_ofBlock_eq_ok.1 made
  refine ⟨fun writable => ⟨writable.points, writable.pointsByReturn⟩,
    fun counts => ⟨b.sourceId_eq_zero_or, counts.1, counts.2, ?_⟩⟩
  exact Nat.le_trans (size_le _) (by decide : maxSize ≤ maxCount)

theorem rewrites_iff (made : (ofBlock b).result = .ok h) :
    h.Rewrites ↔ b.HasRoom ∧ b.HasCounts := by
  have hw := ofBlock_wellFormed made
  rw [← hasRoom_ofBlock_iff made, ← writable_iff_of_ofBlock made]
  constructor
  · intro rewrites
    have room := hasRoom_iff.2 rewrites.size
    exact ⟨room, (rewrites_iff_writable hw room).1 rewrites⟩
  · rintro ⟨room, writable⟩
    exact (rewrites_iff_writable hw room).2 writable

/-- An accepted block makes a header that is written and read back if its padding can be counted and
its version counts its points. A block that was read does. -/
theorem rewrites_of_ofBlock (made : (ofBlock b).result = .ok h) :
    (h.Rewrites ↔ b.HasRoom ∧ b.HasCounts) ∧
      ∀ s rest, Block.decoder s = some (b, rest) → h.Rewrites := by
  refine ⟨rewrites_iff made, fun s rest read => (rewrites_iff made).2 ⟨?_, ?_⟩⟩
  · obtain ⟨complete, -⟩ := Block.complete_of_decoder read
    refine Block.hasRoom_of_declared ?_
    rw [complete.padding, Nat.add_sub_cancel' (result_ofBlock_eq_ok.1 made).1.headerSize]
  · obtain ⟨complete, -⟩ := Block.complete_of_decoder read
    exact ⟨b.countable_numberOfPoints complete, b.countable_numberOfPointsByReturn complete⟩

theorem rewrites_of_ofBlock_undeclared :
    ∃ h, (ofBlock { Block.default with padding := [1, 2, 3] }).result = .ok h ∧ h.Rewrites := by
  have made := result_ofBlock_padding [1, 2, 3]
  exact ⟨_, made, (rewrites_of_ofBlock made).1.2 ⟨by decide, by decide +kernel⟩⟩

def miscounted : Block :=
  { Block.default with largeCounts? := some ⟨4294967296, Vector.replicate 15 0⟩ }

theorem accepted_not_rewritten :
    (∃ h, (ofBlock crowded).result = .ok h ∧ ¬h.Rewrites) ∧
      ∃ h, (ofBlock miscounted).result = .ok h ∧ ¬h.Rewrites := by
  constructor
  · obtain ⟨padding, full, made⟩ := result_ofBlock_crowded
    refine ⟨_, made, fun rewrites => ?_⟩
    have room := hasRoom_iff.2 rewrites.size
    exact not_hasRoom_overrun full (List.cons_ne_nil 0 []) room
  · have made := result_ofBlock_default [] (some ⟨4294967296, Vector.replicate 15 0⟩)
    exact ⟨_, made, fun rewrites => absurd ((rewrites_iff made).1 rewrites).2.1 (by decide)⟩

end Lidar.Header
