import Lidar.Point.Class
import Lidar.Point.Format.Declared
import Lidar.Point.Record
import Lidar.Point.Scan
import Lidar.Transform.Stored

/-!
# Points

A point has world coordinates and unpacked attributes. It becomes a record under the transforms and
the format of a header, and is refused when it does not fit them.
-/
namespace Lidar

structure Point where
  position : Axes Binary64
  intensity : UInt16
  returnNumber : UInt8
  numberOfReturns : UInt8
  scanDirection : ScanDirection
  isEdgeOfFlightLine : Bool
  classification : Classification
  scanAngle : ScanAngle
  userData : UInt8
  pointSourceId : UInt16
  gpsTime? : Option Binary64
  color? : Option Color
  extraBytes : Bytes
  deriving DecidableEq, Repr

namespace Point

def gpsTime (p : Point) : Except Error Binary64 :=
  match p.gpsTime? with
  | some t => .ok t
  | none => .error (.fieldNotApplicable "gps_time")

def color (p : Point) : Except Error Color :=
  match p.color? with
  | some c => .ok c
  | none => .error (.fieldNotApplicable "color")

/-- Whether a point has exactly the optional fields of a format and no more extra bytes. -/
def matchesFormat (p : Point) (f : Format) : Bool :=
  p.gpsTime?.isSome == f.hasGpsTime && p.color?.isSome == f.hasColor &&
    decide (p.extraBytes.length ≤ f.extraBytes.toNat)

def checkReturn (field : ReturnField) (n : UInt8) : Except Error Unit :=
  if 7 < n then refuse (.returnTooBig field n) else .ok ()

def flagBits (mask : UInt8) (on : Bool) : UInt8 := if on then mask else 0

def flags (p : Point) : UInt8 :=
  (p.returnNumber &&& (0x07 : UInt8)) ||| ((p.numberOfReturns <<< (3 : UInt8)) &&& (0x38 : UInt8)) |||
    flagBits 0x40 p.scanDirection.toBool ||| flagBits 0x80 p.isEdgeOfFlightLine

/-- The record of a point. The format is looked at first, then the return counters, then the
coordinates. -/
def toRecord (p : Point) (transforms : Axes Transform) (f : Format) : Except Error Record := do
  if !p.matchesFormat f then throw (.schemaMismatch f)
  checkReturn .returnNumber p.returnNumber
  checkReturn .numberOfReturns p.numberOfReturns
  let x ← transforms.x.inverse p.position.x
  let y ← transforms.y.inverse p.position.y
  let z ← transforms.z.inverse p.position.z
  return {
    x, y, z
    intensity := p.intensity
    flags := p.flags
    classification := p.classification.byte
    scanAngle := p.scanAngle.rank
    userData := p.userData
    pointSourceId := p.pointSourceId
    gpsTime? := p.gpsTime?
    color? := p.color?
    extraBytes := p.extraBytes }

def Record.position (r : Record) (transforms : Axes Transform) : Axes Binary64 :=
  transforms.zipWith Transform.direct ⟨r.x, r.y, r.z⟩

/-- The point of a record, unless its scan angle is out of range. -/
def Record.toPoint (r : Record) (transforms : Axes Transform) : Except Error Point := do
  let scanAngle ← ScanAngle.ofRank r.scanAngle
  return {
    position := r.position transforms
    intensity := r.intensity
    returnNumber := r.flags &&& 0x07
    numberOfReturns := (r.flags &&& 0x38) >>> 3
    scanDirection := .ofBool (r.flags &&& 0x40 != 0)
    isEdgeOfFlightLine := r.flags &&& 0x80 != 0
    classification := ⟨r.classification⟩
    scanAngle
    userData := r.userData
    pointSourceId := r.pointSourceId
    gpsTime? := r.gpsTime?
    color? := r.color?
    extraBytes := r.extraBytes }

end Point

end Lidar
