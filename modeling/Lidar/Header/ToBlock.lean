import Lidar.Header.Basic
import Lidar.Header.Block

/-!
# The block of a header

A header has a block unless a count, the start of the point data or the file source id does not fit
the fields of its version.
-/
namespace Lidar.Header

def maxCount : Nat := 4294967295

/-- A count in its 32-bit field. A version with 64-bit counts has zero there for a count that does
not fit; another version cannot hold it. -/
def legacyCount (version : Version) (n : UInt64) : Except Error UInt32 :=
  if n.toNat ≤ maxCount then .ok n.toUInt32
  else if version.supports .largeFiles then .ok 0
  else .error (.tooManyPoints n.toNat version)

/-- The 64-bit counts, of which the returns past the fifth are not counted. -/
def largeCounts (h : Header) : LargeCounts :=
  ⟨h.numberOfPoints, Vector.ofFn fun i => h.numberOfPointsByReturn.toList.getD i 0⟩

def formatByte (h : Header) : UInt8 :=
  if h.compressed then h.format.id ||| Block.compressedBit else h.format.id

/-- The block of a header. The file source id is looked at first, then the counts, then the start of
the point data. -/
def toBlock (h : Header) : Except Error Block := do
  if h.fileSourceId != 0 && !h.version.supports .fileSourceId then
    refuse (.reservedFileSourceId h.version)
  let points ← legacyCount h.version h.numberOfPoints
  let pointsByReturn ← h.numberOfPointsByReturn.mapM (legacyCount h.version)
  if maxCount < h.pointDataStart then refuse (.pointDataStart h.pointDataStart)
  Text.check .systemIdentifier h.systemIdentifier identifierWidth
  Text.check .generatingSoftware h.generatingSoftware identifierWidth
  return {
    signature := Block.magic
    fileSourceId := h.fileSourceId
    globalEncoding := h.globalEncoding
    guid := h.guid.bytes
    version := h.version
    systemIdentifier := Text.encode identifierWidth h.systemIdentifier
    generatingSoftware := Text.encode identifierWidth h.generatingSoftware
    creationDay := h.creationDay
    creationYear := h.creationYear
    headerSize := UInt16.ofNat h.size
    pointDataStart := UInt32.ofNat h.pointDataStart
    recordCount := UInt32.ofNat h.records.size
    pointFormat := h.formatByte
    pointRecordLength := UInt16.ofNat h.format.length
    points
    pointsByReturn
    scale := ⟨h.transforms.x.scale, h.transforms.y.scale, h.transforms.z.scale⟩
    offset := ⟨h.transforms.x.offset, h.transforms.y.offset, h.transforms.z.offset⟩
    bounds := h.bounds
    waveformStart? := if h.version.supports .waveforms then some 0 else none
    extendedRecords? := if h.version.supports .extendedRecords then some ⟨0, 0⟩ else none
    largeCounts? := if h.version.supports .largeFiles then some h.largeCounts else none
    padding := h.padding }

end Lidar.Header
