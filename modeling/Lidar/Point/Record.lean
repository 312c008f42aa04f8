import Lidar.Point.Format.Basic
import Lidar.Wire

/-!
# Point records

A record is a point as a file holds it: integer coordinates, and bit fields still packed. Its
layout is that of the format. Writing always takes as many bytes as the format says; a field the
record lacks is written as zeros, and extra bytes are cut or filled up with zeros.
-/
namespace Lidar

structure Color where
  red : UInt16
  green : UInt16
  blue : UInt16
  deriving DecidableEq, Repr, Inhabited

namespace Color

def encode (c : Color) : Bytes := Wire.u16 c.red ++ Wire.u16 c.green ++ Wire.u16 c.blue

def decoder : Decoder Color := do
  let red ← Decoder.u16
  let green ← Decoder.u16
  let blue ← Decoder.u16
  return ⟨red, green, blue⟩

end Color

namespace Point

structure Record where
  x : Int32
  y : Int32
  z : Int32
  intensity : UInt16
  /-- Return number (bits 0 to 2), number of returns (3 to 5), scan direction (6) and edge of
  flight line (7). -/
  flags : UInt8
  /-- Class (bits 0 to 4), synthetic (5), key point (6) and withheld (7). -/
  classification : UInt8
  scanAngle : Int8
  userData : UInt8
  pointSourceId : UInt16
  gpsTime? : Option Binary64
  color? : Option Color
  extraBytes : Bytes
  deriving DecidableEq, Repr

namespace Record

def decoder (f : Format) : Decoder Record := do
  let x ← Decoder.i32
  let y ← Decoder.i32
  let z ← Decoder.i32
  let intensity ← Decoder.u16
  let flags ← Decoder.u8
  let classification ← Decoder.u8
  let scanAngle ← Decoder.i8
  let userData ← Decoder.u8
  let pointSourceId ← Decoder.u16
  let gpsTime? ← Decoder.when f.hasGpsTime Decoder.binary64
  let color? ← Decoder.when f.hasColor Color.decoder
  let extraBytes ← Decoder.take f.extraBytes.toNat
  return { x, y, z, intensity, flags, classification, scanAngle, userData, pointSourceId,
           gpsTime?, color?, extraBytes }

def encode (f : Format) (r : Record) : Bytes :=
  Wire.i32 r.x ++ Wire.i32 r.y ++ Wire.i32 r.z ++ Wire.u16 r.intensity ++ Wire.u8 r.flags ++
  Wire.u8 r.classification ++ Wire.i8 r.scanAngle ++ Wire.u8 r.userData ++
  Wire.u16 r.pointSourceId ++
  Wire.when f.hasGpsTime Wire.binary64 .zero r.gpsTime? ++
  Wire.when f.hasColor Color.encode ⟨0, 0, 0⟩ r.color? ++
  r.extraBytes.resize f.extraBytes.toNat

end Record

end Point

end Lidar
