import Lidar.Point.Basic
import Lidar.Proofs.Wire

/-!
# Point records on the wire

A record of a format is read back from its bytes whatever follows, and the bytes of every record
are those that writing it gives. Records take as many bytes as the format says, and writing fills
up or cuts the extra bytes, so that a record which the format has room for is read back with zeros
after its own extra bytes.
-/
namespace Lidar

theorem Color.inverts : Inverts Color.decoder Color.encode := by
  refine InvertsOn.inverts ?_
  show InvertsOn _ decoder fun c => encode c
  simp only [encode, List.append_assoc]
  refine InvertsOn.field inverts_u16 Color.red fun red => ?_
  refine InvertsOn.field inverts_u16 Color.green fun green => ?_
  refine InvertsOn.last inverts_u16.on Color.blue (fun _ _ => trivial) fun blue _ c => ?_
  cases c
  simp [and_assoc]

theorem Color.length_encode (c : Color) : c.encode.length = 6 := by simp [encode]

theorem Color.takes : Decoder.Takes Color.decoder 6 :=
  Decoder.takes_u16.bind fun _ => Decoder.takes_u16.bind fun _ => Decoder.takes_u16.map _

namespace Point.Record

structure Fits (f : Format) (r : Record) : Prop where
  gpsTime : r.gpsTime?.isSome = f.hasGpsTime
  color : r.color?.isSome = f.hasColor
  extraBytes : r.extraBytes.length = f.extraBytes.toNat

theorem inverts (f : Format) : InvertsOn (Fits f) (decoder f) (encode f) := by
  show InvertsOn (Fits f) (decoder f) fun r => encode f r
  simp only [encode, List.append_assoc]
  refine InvertsOn.field inverts_i32 Record.x fun x => ?_
  refine InvertsOn.field inverts_i32 Record.y fun y => ?_
  refine InvertsOn.field inverts_i32 Record.z fun z => ?_
  refine InvertsOn.field inverts_u16 Record.intensity fun intensity => ?_
  refine InvertsOn.field inverts_u8 Record.flags fun flags => ?_
  refine InvertsOn.field inverts_u8 Record.classification fun classification => ?_
  refine InvertsOn.field inverts_i8 Record.scanAngle fun scanAngle => ?_
  refine InvertsOn.field inverts_u8 Record.userData fun userData => ?_
  refine InvertsOn.field inverts_u16 Record.pointSourceId fun pointSourceId => ?_
  simp only [and_assoc]
  refine (InvertsOn.when f.hasGpsTime inverts_binary64 .zero).bind Record.gpsTime?
    (fun r hr => hr.1.gpsTime) (fun _ _ => rfl) fun gpsTime? hasGpsTime => ?_
  simp only [and_assoc]
  refine (InvertsOn.when f.hasColor Color.inverts ⟨0, 0, 0⟩).bind Record.color?
    (fun r hr => hr.1.color) (fun _ _ => rfl) fun color? hasColor => ?_
  simp only [and_assoc]
  refine (InvertsOn.resized f.extraBytes.toNat).last Record.extraBytes
    (fun r hr => hr.1.extraBytes) fun extraBytes length r => ?_
  constructor
  · intro hr
    cases r
    simp_all
  · rintro rfl
    exact ⟨⟨⟨hasGpsTime, hasColor, length⟩, rfl, rfl, rfl, rfl, rfl, rfl, rfl, rfl, rfl, rfl, rfl⟩, rfl⟩

theorem length_encode (f : Format) (r : Record) :
    (encode f r).length = f.standardLength + f.extraBytes.toNat := by
  have gpsTime := Wire.length_when Wire.length_binary64 f.hasGpsTime .zero r.gpsTime?
  have color := Wire.length_when Color.length_encode f.hasColor ⟨0, 0, 0⟩ r.color?
  simp only [encode, List.length_append, gpsTime, color]
  simp [Format.standardLength, Format.coreLength]

theorem takes (f : Format) :
    Decoder.Takes (decoder f) (f.standardLength + f.extraBytes.toNat) := by
  have fields := Decoder.takes_i32.bind fun x => Decoder.takes_i32.bind fun y =>
    Decoder.takes_i32.bind fun z => Decoder.takes_u16.bind fun intensity =>
    Decoder.takes_u8.bind fun flags => Decoder.takes_u8.bind fun classification =>
    Decoder.takes_i8.bind fun scanAngle => Decoder.takes_u8.bind fun userData =>
    Decoder.takes_u16.bind fun pointSourceId =>
    (Decoder.takes_when f.hasGpsTime Decoder.takes_binary64).bind fun gpsTime? =>
    (Decoder.takes_when f.hasColor Color.takes).bind fun color? =>
    (Decoder.takes_take f.extraBytes.toNat).map fun extraBytes =>
      (⟨x, y, z, intensity, flags, classification, scanAngle, userData, pointSourceId, gpsTime?,
        color?, extraBytes⟩ : Record)
  refine Decoder.Takes.of_eq fields ?_
  simp only [Format.standardLength, Format.coreLength]
  omega

theorem length_of_decoder {f : Format} {b rest : Bytes} {r : Record}
    (h : decoder f b = some (r, rest)) : f.standardLength + f.extraBytes.toNat ≤ b.length := by
  obtain ⟨-, rfl⟩ := (inverts f).complete h
  rw [List.length_append, length_encode]
  exact Nat.le_add_right _ _

theorem decoder_encode {f : Format} {r : Record} (gpsTime : r.gpsTime?.isSome = f.hasGpsTime)
    (color : r.color?.isSome = f.hasColor) (rest : Bytes) :
    decoder f (encode f r ++ rest) =
      some ({ r with extraBytes := r.extraBytes.resize f.extraBytes.toNat }, rest) := by
  have same : encode f r = encode f { r with extraBytes := r.extraBytes.resize f.extraBytes.toNat } := by
    simp only [encode, Bytes.resize_resize]
  rw [same]
  exact (inverts f).append _ rest ⟨gpsTime, color, Bytes.length_resize _ _⟩

end Point.Record

end Lidar
