import Lidar.Bounds
import Lidar.Transform.Basic
import Lidar.Version
import Lidar.Wire

/-!
# The header block

The block at the start of a file, field by field and unchecked. Which fields follow the first 227
bytes depends on the version, and padding fills the block up to its declared size.
-/
namespace Lidar.Header

structure ExtendedRecords where
  start : UInt64
  count : UInt32
  deriving DecidableEq, Repr, Inhabited

structure LargeCounts where
  points : UInt64
  byReturn : Vector UInt64 15
  deriving DecidableEq, Repr

def LargeCounts.zero : LargeCounts := ⟨0, Vector.replicate 15 0⟩

/-- The fields of a header block, unchecked. -/
structure Block where
  signature : Vector UInt8 4
  fileSourceId : UInt16
  globalEncoding : UInt16
  guid : Vector UInt8 16
  version : Version
  systemIdentifier : Vector UInt8 32
  generatingSoftware : Vector UInt8 32
  creationDay : UInt16
  creationYear : UInt16
  headerSize : UInt16
  pointDataStart : UInt32
  recordCount : UInt32
  /-- The number of the point format, with the high bit set when the points are compressed. -/
  pointFormat : UInt8
  pointRecordLength : UInt16
  points : UInt32
  pointsByReturn : Vector UInt32 5
  scale : Axes Binary64
  offset : Axes Binary64
  bounds : Bounds
  waveformStart? : Option UInt64
  extendedRecords? : Option ExtendedRecords
  largeCounts? : Option LargeCounts
  padding : Bytes
  deriving DecidableEq, Repr

namespace Block

def magic : Vector UInt8 4 := #v[0x4c, 0x41, 0x53, 0x46]

def compressedBit : UInt8 := 0x80

def default : Block where
  signature := magic
  fileSourceId := 0
  globalEncoding := 0
  guid := Vector.replicate 16 0
  version := .default
  systemIdentifier := Vector.replicate 32 0
  generatingSoftware := Vector.replicate 32 0
  creationDay := 0
  creationYear := 0
  headerSize := 227
  pointDataStart := 227
  recordCount := 0
  pointFormat := 0
  pointRecordLength := 20
  points := 0
  pointsByReturn := Vector.replicate 5 0
  scale := .all Transform.default.scale
  offset := .all .zero
  bounds := .zero
  waveformStart? := none
  extendedRecords? := none
  largeCounts? := none
  padding := []

instance : Inhabited Block := ⟨default⟩

def isCompressed (b : Block) : Bool := b.pointFormat &&& compressedBit == compressedBit

def axesDecoder : Decoder (Axes Binary64) := do
  let x ← Decoder.binary64
  let y ← Decoder.binary64
  let z ← Decoder.binary64
  return ⟨x, y, z⟩

def encodeAxes (a : Axes Binary64) : Bytes :=
  Wire.binary64 a.x ++ Wire.binary64 a.y ++ Wire.binary64 a.z

/-- The bounds, axis by axis, the maximum before the minimum. -/
def boundsDecoder : Decoder Bounds := do
  let maxX ← Decoder.binary64
  let minX ← Decoder.binary64
  let maxY ← Decoder.binary64
  let minY ← Decoder.binary64
  let maxZ ← Decoder.binary64
  let minZ ← Decoder.binary64
  return ⟨⟨minX, minY, minZ⟩, ⟨maxX, maxY, maxZ⟩⟩

def encodeBounds (b : Bounds) : Bytes :=
  Wire.binary64 b.max.x ++ Wire.binary64 b.min.x ++ Wire.binary64 b.max.y ++
  Wire.binary64 b.min.y ++ Wire.binary64 b.max.z ++ Wire.binary64 b.min.z

def versionDecoder : Decoder Version := do
  let major ← Decoder.u8
  let minor ← Decoder.u8
  return ⟨major, minor⟩

def encodeVersion (v : Version) : Bytes := Wire.u8 v.major ++ Wire.u8 v.minor

def extendedDecoder : Decoder ExtendedRecords := do
  let start ← Decoder.u64
  let count ← Decoder.u32
  return ⟨start, count⟩

def encodeExtended (e : ExtendedRecords) : Bytes := Wire.u64 e.start ++ Wire.u32 e.count

def largeDecoder : Decoder LargeCounts := do
  let points ← Decoder.u64
  let byReturn ← Decoder.vector 15 Decoder.u64
  return ⟨points, byReturn⟩

def encodeLarge (c : LargeCounts) : Bytes := Wire.u64 c.points ++ Wire.vector Wire.u64 c.byReturn

/-- The fields in their order. A version's optional fields are read when the version has them, and
padding up to the declared size. -/
def decoder : Decoder Block := do
  let signature ← Decoder.bytes 4
  let fileSourceId ← Decoder.u16
  let globalEncoding ← Decoder.u16
  let guid ← Decoder.bytes 16
  let version ← versionDecoder
  let systemIdentifier ← Decoder.bytes 32
  let generatingSoftware ← Decoder.bytes 32
  let creationDay ← Decoder.u16
  let creationYear ← Decoder.u16
  let headerSize ← Decoder.u16
  let pointDataStart ← Decoder.u32
  let recordCount ← Decoder.u32
  let pointFormat ← Decoder.u8
  let pointRecordLength ← Decoder.u16
  let points ← Decoder.u32
  let pointsByReturn ← Decoder.vector 5 Decoder.u32
  let scale ← axesDecoder
  let offset ← axesDecoder
  let bounds ← boundsDecoder
  let waveformStart? ← Decoder.when (version.supports .waveforms) Decoder.u64
  let extendedRecords? ← Decoder.when (version.supports .extendedRecords) extendedDecoder
  let largeCounts? ← Decoder.when (version.supports .largeFiles) largeDecoder
  let padding ← Decoder.take (headerSize.toNat - version.headerSize)
  return { signature, fileSourceId, globalEncoding, guid, version, systemIdentifier,
           generatingSoftware, creationDay, creationYear, headerSize, pointDataStart, recordCount,
           pointFormat, pointRecordLength, points, pointsByReturn, scale, offset, bounds,
           waveformStart?, extendedRecords?, largeCounts?, padding }

/-- The bytes of a block. Optional fields are written when the version has them, as zeros if the
block lacks them, and the padding is written whole. -/
def encode (b : Block) : Bytes :=
  b.signature.toList ++ Wire.u16 b.fileSourceId ++ Wire.u16 b.globalEncoding ++ b.guid.toList ++
  encodeVersion b.version ++ b.systemIdentifier.toList ++ b.generatingSoftware.toList ++
  Wire.u16 b.creationDay ++ Wire.u16 b.creationYear ++ Wire.u16 b.headerSize ++
  Wire.u32 b.pointDataStart ++ Wire.u32 b.recordCount ++ Wire.u8 b.pointFormat ++
  Wire.u16 b.pointRecordLength ++ Wire.u32 b.points ++ Wire.vector Wire.u32 b.pointsByReturn ++
  encodeAxes b.scale ++ encodeAxes b.offset ++ encodeBounds b.bounds ++
  Wire.when (b.version.supports .waveforms) Wire.u64 0 b.waveformStart? ++
  Wire.when (b.version.supports .extendedRecords) encodeExtended ⟨0, 0⟩ b.extendedRecords? ++
  Wire.when (b.version.supports .largeFiles) encodeLarge .zero b.largeCounts? ++
  b.padding

end Block

end Lidar.Header
