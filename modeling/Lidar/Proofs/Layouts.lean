import Lidar.Proofs.Header.Block
import Lidar.Proofs.Point.Record
import Lidar.Proofs.Vlr.Record

/-!
# Bytes and values one to one

The header block, the variable length record and the point record each stand one to one for their
bytes. Nothing of the bytes that were read is lost, nothing behind them is looked at, and the size
is known from the value.
-/
namespace Lidar

/-- A value that is read is within the layout and is written as the bytes that were taken. A value
that is within the layout is read back, whatever stands behind its bytes. -/
structure OneToOne {α : Type} (P : α → Prop) (size : α → Nat) (decode : Decoder α)
    (encode : α → Bytes) : Prop where
  within : ∀ s a rest, decode s = some (a, rest) → P a
  taken : ∀ s a rest, decode s = some (a, rest) → size a ≤ s.length ∧ rest = s.drop (size a)
  rewritten : ∀ s a p, p ≤ s.length → decode s = some (a, s.drop p) → encode a = s.take p
  readBack : ∀ a tail, P a → decode (encode a ++ tail) = some (a, tail)

theorem InvertsOn.oneToOne {α : Type} {P : α → Prop} {size : α → Nat} {decode : Decoder α}
    {encode : α → Bytes} (h : InvertsOn P decode encode)
    (length : ∀ a, P a → (encode a).length = size a) : OneToOne P size decode encode where
  within s a rest read := (h.complete read).1
  taken s a rest read := by
    obtain ⟨ha, rfl⟩ := h.complete read
    rw [← length a ha, List.drop_left, List.length_append]
    exact ⟨Nat.le_add_right _ _, rfl⟩
  rewritten s a p inside read := by
    have front := (h.complete read).2
    have count : (encode a).length = p := by
      have lengths := congrArg List.length front
      rw [List.length_append, List.length_drop] at lengths
      omega
    rw [front, ← count, List.take_left]
  readBack a tail ha := h.append a tail ha

namespace Header.Block

def size (b : Block) : Nat := max b.version.headerSize b.headerSize.toNat

theorem Complete.length_encode {b : Block} (h : b.Complete) : b.encode.length = b.size := by
  rw [Block.length_encode, h.padding, size]
  omega

end Header.Block

theorem Format.length_eq {f : Format} (declarable : f.checkedLength?.isSome = true) :
    f.length = f.standardLength + f.extraBytes.toNat := by
  obtain ⟨n, declared⟩ := Option.isSome_iff_exists.1 declarable
  rw [length, declared]
  rw [checkedLength?, Option.ite_none_right_eq_some] at declared
  exact (Option.some.inj declared.2).symm

/-- All three layouts stand one to one for their bytes. The block does in every version, supported
or not, and a point record takes as many bytes as its format says. -/
theorem layouts_oneToOne :
    OneToOne Header.Block.Complete Header.Block.size Header.Block.decoder Header.Block.encode ∧
    OneToOne Vlr.Record.Complete Vlr.Record.size Vlr.Record.decoder Vlr.Record.encode ∧
    ∀ f : Format, f.checkedLength?.isSome = true →
      OneToOne (Point.Record.Fits f) (fun _ => f.length) (Point.Record.decoder f)
        (Point.Record.encode f) := by
  refine ⟨?_, ?_, fun f declarable => ?_⟩
  · exact Header.Block.inverts.oneToOne fun b complete => complete.length_encode
  · exact Vlr.Record.inverts.oneToOne fun r _ => r.length_encode
  · apply (Point.Record.inverts f).oneToOne
    intro r _
    rw [Point.Record.length_encode, Format.length_eq declarable]

def Header.Block.foreign : Header.Block :=
  { Header.Block.default with version := ⟨2, 0⟩, headerSize := 229, padding := [1, 2] }

def Point.Record.untimed : Point.Record where
  x := -1
  y := 2
  z := 3
  intensity := 4
  flags := 5
  classification := 6
  scanAngle := -7
  userData := 8
  pointSourceId := 9
  gpsTime? := some ⟨0x7ff0000000000001⟩
  color? := some ⟨10, 11, 12⟩
  extraBytes := [13, 14]

theorem layouts_oneToOne_foreign :
    Header.Block.decoder (Header.Block.foreign.encode ++ [9]) = some (.foreign, [9]) ∧
    Vlr.Record.decoder ((Vlr.written ⟨0, "user", 7, "", [4, 5]⟩).encode ++ [9]) =
      some (Vlr.written ⟨0, "user", 7, "", [4, 5]⟩, [9]) ∧
    Point.Record.decoder ⟨true, true, 2⟩ (Point.Record.untimed.encode ⟨true, true, 2⟩ ++ [9]) =
      some (.untimed, [9]) := by
  obtain ⟨block, record, point⟩ := layouts_oneToOne
  refine ⟨?_, ?_, ?_⟩
  · exact block.readBack _ _ ⟨by decide, by decide, by decide, by decide⟩
  · exact record.readBack _ _ rfl
  · exact (point ⟨true, true, 2⟩ (by decide)).readBack _ _ ⟨by decide, by decide, by decide⟩

end Lidar
