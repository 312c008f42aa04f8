import Lidar.Event
import Lidar.Header.Basic
import Lidar.Header.Block
import Lidar.Point.Format.Declared

/-!
# The header of a block

A block is checked field by field in a fixed order, and the first defect is the error. What a header
has no place for is ignored, and the events say so.
-/
namespace Lidar.Header

def rejectIf (condition : Bool) (defect : HeaderDefect) : Except Error Unit :=
  if condition then .error (.malformedHeader defect) else .ok ()

def checkTransform (t : Transform) : Except Error Unit :=
  match t.validate with
  | .error (.invalidArgument refusal) => .error (.malformedHeader (.transform refusal))
  | .error e => .error e
  | .ok () => .ok ()

namespace Block

def transforms (b : Block) : Axes Transform := b.scale.zipWith Transform.mk b.offset

def checkLayout (b : Block) : Except Error Unit := do
  rejectIf (b.signature != magic) (.signature b.signature.toList)
  if !b.version.isSupported then throw (.unsupportedVersion b.version)
  rejectIf (decide (b.headerSize.toNat < b.version.headerSize))
    (.headerSize b.headerSize.toNat b.version)
  rejectIf (decide (b.pointDataStart.toNat < b.headerSize.toNat))
    (.pointDataStart b.pointDataStart.toNat b.headerSize.toNat)

def format (b : Block) : Except Error Format := do
  let f ← Format.ofId (b.pointFormat &&& ~~~compressedBit)
  f.withRecordLength b.pointRecordLength

def checkTransforms (b : Block) : Except Error Unit := do
  checkTransform b.transforms.x
  checkTransform b.transforms.y
  checkTransform b.transforms.z

def hasReservedSourceId (b : Block) : Bool :=
  b.fileSourceId != 0 && !b.version.supports .fileSourceId

/-- The file source id, or zero where the version reserves the field. -/
def sourceId (b : Block) : UInt16 := if b.hasReservedSourceId then 0 else b.fileSourceId

/-- The number of points: the 32-bit count unless it is zero, then the 64-bit one if there is
one. -/
def numberOfPoints (b : Block) : UInt64 :=
  if 0 < b.points then b.points.toUInt64 else (b.largeCounts?.map (·.points)).getD 0

/-- The points by return: the 32-bit counts unless all are zero, then the first of the 64-bit ones
if there are any. -/
def numberOfPointsByReturn (b : Block) : Vector UInt64 5 :=
  let counts := b.pointsByReturn.map UInt32.toUInt64
  match b.largeCounts? with
  | some large => if counts.toList.all (· == 0) then large.byReturn.take 5 else counts
  | none => counts

def sayIgnored (b : Block) : Traced Unit := do
  Traced.sayIf (b.waveformStart?.any (· != 0)) .ignoredWaveforms
  let extended := (b.extendedRecords?.map (·.count)).getD 0
  Traced.sayIf (extended != 0) (.ignoredExtendedRecords extended)
  Traced.sayIf b.hasReservedSourceId (.ignoredFileSourceId b.fileSourceId b.version)

end Block

/-- The header of a block, without the records that follow the block. -/
def ofBlock (b : Block) : Traced Header := do
  b.checkLayout
  let format ← b.format
  b.checkTransforms
  b.sayIgnored
  let generatingSoftware ← Text.decode .generatingSoftware b.generatingSoftware.toList
  let systemIdentifier ← Text.decode .systemIdentifier b.systemIdentifier.toList
  return {
    version := b.version
    fileSourceId := b.sourceId
    globalEncoding := b.globalEncoding
    guid := ⟨b.guid⟩
    systemIdentifier
    generatingSoftware
    creationDay := b.creationDay
    creationYear := b.creationYear
    format
    compressed := b.isCompressed
    transforms := b.transforms
    bounds := b.bounds
    numberOfPoints := b.numberOfPoints
    numberOfPointsByReturn := b.numberOfPointsByReturn
    padding := b.padding
    records := .empty
    recordPadding := [] }

end Lidar.Header
