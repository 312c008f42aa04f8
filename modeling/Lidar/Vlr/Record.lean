import Lidar.Wire

/-!
# Variable length records as a file holds them

A record has a head of 54 bytes and a payload, of which the head declares the length. Reading takes
as many payload bytes as declared. Writing takes the payload whole, so a record is read back only if
the two agree.
-/
namespace Lidar.Vlr

def headSize : Nat := 54

structure Record where
  reserved : UInt16
  userId : Vector UInt8 16
  recordId : UInt16
  declaredLength : UInt16
  description : Vector UInt8 32
  data : Bytes
  deriving DecidableEq, Repr

namespace Record

/-- The head of a record, then as many bytes of payload as it declares. -/
def decoder : Decoder Record := do
  let reserved ← Decoder.u16
  let userId ← Decoder.bytes 16
  let recordId ← Decoder.u16
  let declaredLength ← Decoder.u16
  let description ← Decoder.bytes 32
  let data ← Decoder.take declaredLength.toNat
  return { reserved, userId, recordId, declaredLength, description, data }

def encode (r : Record) : Bytes :=
  Wire.u16 r.reserved ++ r.userId.toList ++ Wire.u16 r.recordId ++ Wire.u16 r.declaredLength ++
  r.description.toList ++ r.data

def size (r : Record) : Nat := headSize + r.data.length

theorem length_encode (r : Record) : r.encode.length = r.size := by
  simp [encode, size, headSize, Wire.u16]
  omega

end Record

end Lidar.Vlr
