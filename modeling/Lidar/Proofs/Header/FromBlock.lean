import Lidar.Header.FromBlock
import Lidar.Proofs.Success

/-!
# Blocks that are headers

What the checks of a block establish: a block makes a header exactly when its sizes are in order,
its format is known and short enough, its transforms are usable and its texts are UTF-8. The header
then has the format and the texts that were found and copies the rest of the block.
-/
namespace Lidar

namespace Format

theorem ofId_eq_ok {n : UInt8} {f : Format} : ofId n = .ok f ↔ ofId? n = some f := by
  unfold ofId
  cases ofId? n <;> simp

theorem extraBytes_ofId? {n : UInt8} {f : Format} (h : ofId? n = some f) :
    f.extraBytes = 0 := by
  unfold ofId? at h
  split at h <;> cases h <;> rfl

theorem withRecordLength_eq_ok {f g : Format} {length : UInt16} :
    f.withRecordLength length = .ok g ↔ f.standardLength ≤ length.toNat ∧
      g = { f with extraBytes := UInt16.ofNat (length.toNat - f.standardLength) } := by
  unfold withRecordLength
  by_cases short : length.toNat < f.standardLength
  · simp [short, Nat.not_le.2 short]
  · simp [short, Nat.not_lt.1 short, eq_comm]

end Format

namespace Header

theorem rejectIf_eq_ok {c : Bool} {defect : HeaderDefect} :
    rejectIf c defect = .ok () ↔ c = false := by
  cases c <;> simp [rejectIf]

theorem checkTransform_eq_ok {t : Transform} : checkTransform t = .ok () ↔ t.Usable := by
  rw [← Transform.validate_eq_ok_iff]
  unfold checkTransform
  cases t.validate with
  | ok u => simp
  | error e => cases e <;> simp

namespace Block

variable {b : Block}

structure LaidOut (b : Block) : Prop where
  signature : b.signature = magic
  supported : b.version.isSupported = true
  headerSize : b.version.headerSize ≤ b.headerSize.toNat
  pointDataStart : b.headerSize.toNat ≤ b.pointDataStart.toNat

theorem checkLayout_eq_ok : b.checkLayout = .ok () ↔ b.LaidOut := by
  unfold checkLayout
  simp only [Success.unit_bind_eq_ok, Success.throw_guard_eq_ok, rejectIf_eq_ok]
  constructor
  · rintro ⟨signature, supported, headerSize, pointDataStart⟩
    exact ⟨by simpa using signature, by simpa using supported, by simpa using headerSize,
      by simpa using pointDataStart⟩
  · rintro ⟨signature, supported, headerSize, pointDataStart⟩
    exact ⟨by simpa using signature, by simpa using supported, by simpa using headerSize,
      by simpa using pointDataStart⟩

structure HasFormat (b : Block) (f : Format) : Prop where
  id : Format.ofId? (b.pointFormat &&& ~~~compressedBit) = some { f with extraBytes := 0 }
  length : f.standardLength + f.extraBytes.toNat = b.pointRecordLength.toNat

theorem format_eq_ok {f : Format} : b.format = .ok f ↔ b.HasFormat f := by
  unfold format
  rw [Success.bind_eq_ok]
  constructor
  · rintro ⟨standard, known, found⟩
    rw [Format.ofId_eq_ok] at known
    have plain := Format.extraBytes_ofId? known
    rw [Format.withRecordLength_eq_ok] at found
    obtain ⟨long, rfl⟩ := found
    have small := b.pointRecordLength.toNat_lt
    refine ⟨known.trans ?_, ?_⟩
    · rw [← plain]
    · show standard.standardLength + (UInt16.ofNat _).toNat = _
      rw [UInt16.toNat_ofNat_of_lt' (Nat.lt_of_le_of_lt (Nat.sub_le _ _) small)]
      omega
  · rintro ⟨id, length⟩
    refine ⟨_, Format.ofId_eq_ok.2 id, Format.withRecordLength_eq_ok.2 ⟨?_, ?_⟩⟩
    · show f.standardLength ≤ _
      omega
    · have extra : f.extraBytes = UInt16.ofNat (b.pointRecordLength.toNat - f.standardLength) := by
        rw [← length, Nat.add_sub_cancel_left, UInt16.ofNat_toNat]
      show _ = { f with extraBytes := UInt16.ofNat (b.pointRecordLength.toNat - f.standardLength) }
      rw [← extra]

theorem checkTransforms_eq_ok :
    b.checkTransforms = .ok () ↔
      b.transforms.x.Usable ∧ b.transforms.y.Usable ∧ b.transforms.z.Usable := by
  unfold checkTransforms
  simp only [Success.unit_bind_eq_ok, checkTransform_eq_ok]

theorem result_sayIgnored (b : Block) : b.sayIgnored.result = .ok () := by
  unfold sayIgnored
  simp only [Traced.result_bind, Traced.result_sayIf]
  rfl

end Block

theorem result_ofBlock_eq_ok {b : Block} {h : Header} :
    (ofBlock b).result = .ok h ↔
      b.LaidOut ∧ (b.transforms.x.Usable ∧ b.transforms.y.Usable ∧ b.transforms.z.Usable) ∧
      ∃ format, b.HasFormat format ∧
      ∃ generatingSoftware,
        Text.decode .generatingSoftware b.generatingSoftware.toList = .ok generatingSoftware ∧
      ∃ systemIdentifier,
        Text.decode .systemIdentifier b.systemIdentifier.toList = .ok systemIdentifier ∧
      { version := b.version
        fileSourceId := b.sourceId
        globalEncoding := b.globalEncoding
        guid := ⟨b.guid⟩
        systemIdentifier
        generatingSoftware
        creationDay := b.creationDay
        creationYear := b.creationYear
        format
        compressed := b.isCompressed
        transforms := b.transforms
        bounds := b.bounds
        numberOfPoints := b.numberOfPoints
        numberOfPointsByReturn := b.numberOfPointsByReturn
        padding := b.padding
        records := .empty
        recordPadding := [] } = h := by
  unfold ofBlock
  simp only [Traced.result_bind, Traced.result_liftM, Block.result_sayIgnored, Traced.result_pure,
    Success.bind_eq_ok, Block.format_eq_ok]
  constructor
  · rintro ⟨_, layout, format, hf, _, usable, _, -, software, hg, system, hs, ⟨⟩⟩
    exact ⟨Block.checkLayout_eq_ok.1 layout, Block.checkTransforms_eq_ok.1 usable, format, hf,
      software, hg, system, hs, rfl⟩
  · rintro ⟨layout, usable, format, hf, software, hg, system, hs, rfl⟩
    exact ⟨(), Block.checkLayout_eq_ok.2 layout, format, hf, (),
      Block.checkTransforms_eq_ok.2 usable, (), trivial, software, hg, system, hs, rfl⟩

end Header

end Lidar
