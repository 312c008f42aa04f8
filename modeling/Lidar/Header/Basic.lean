import Lidar.Bounds
import Lidar.Guid
import Lidar.Transform.Stored
import Lidar.Vlr.Store

/-!
# Headers

A header says how the points of a file are laid out and what they mean. It holds no sizes of its
own: the size of the header block and the start of the point data follow from the version, the
paddings and the variable length records.
-/
namespace Lidar

structure Header where
  version : Version
  fileSourceId : UInt16
  globalEncoding : UInt16
  guid : Guid
  systemIdentifier : String
  generatingSoftware : String
  creationDay : UInt16
  creationYear : UInt16
  format : Format
  compressed : Bool
  transforms : Axes Transform
  bounds : Bounds
  numberOfPoints : UInt64
  numberOfPointsByReturn : Vector UInt64 5
  /-- The bytes of the header block after its fields. -/
  padding : Bytes
  records : Vlr.Store
  /-- The bytes between the variable length records and the points. -/
  recordPadding : Bytes
  deriving DecidableEq, Repr, BEq

namespace Header

def identifierWidth : Nat := 32

def maxSize : Nat := 65535

def empty (year day : UInt16) : Header where
  version := .default
  fileSourceId := 0
  globalEncoding := 0
  guid := .nil
  systemIdentifier := "lasio"
  generatingSoftware := "lasio 0.1.0"
  creationDay := day
  creationYear := year
  format := ⟨false, false, 0⟩
  compressed := false
  transforms := .all .default
  bounds := .zero
  numberOfPoints := 0
  numberOfPointsByReturn := Vector.replicate 5 0
  padding := []
  records := .empty
  recordPadding := []

/-- The size of the header block of a version with padding, if it can be declared. -/
def sizeWith? (version : Version) (padding : Nat) : Option Nat :=
  let size := version.headerSize + padding
  if size ≤ maxSize then some size else none

def size (h : Header) : Nat := (sizeWith? h.version h.padding.length).getD maxSize

/-- Where the first point starts, from the start of the header. -/
def pointDataStart (h : Header) : Nat := h.size + h.records.blockSize + h.recordPadding.length

def date? (h : Header) : Option Date := Date.ofDayOfYear? h.creationYear.toNat h.creationDay.toNat

def paddedSystemIdentifier (h : Header) : String := Text.padded identifierWidth h.systemIdentifier

def paddedGeneratingSoftware (h : Header) : String :=
  Text.padded identifierWidth h.generatingSoftware

def projectionUserId : String := "LASF_Projection"

def coordinateSystemId : UInt16 := 2112

def spatialReference? (h : Header) : Option String := do
  let v ← h.records.find? projectionUserId coordinateSystemId
  (Text.decode .coordinateSystem v.data).toOption

/-- Replaces the point counts and the bounds. Without points, or with an inverted box, the bounds
are zero. -/
def finalize (h : Header) (points : UInt64) (byReturn : Vector UInt64 5) (bounds : Bounds) :
    Header :=
  { h with
    numberOfPoints := points
    numberOfPointsByReturn := byReturn
    bounds := if points == 0 || bounds.isEmpty then .zero else bounds }

end Header

end Lidar
