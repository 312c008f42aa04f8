import Lidar.Header.Basic
import Lidar.Point.Format.Declared

/-!
# Editing a header

Every change of a header is an `Edit`. An edit that would leave a header that cannot be written is
refused, and the header stays as it was.
-/
namespace Lidar.Header

inductive Edit where
  | fileSourceId (id : UInt16)
  | globalEncoding (bits : UInt16)
  | guid (guid : Guid)
  | version (version : Version)
  | systemIdentifier (text : String)
  | generatingSoftware (text : String)
  | creationDay (day : UInt16)
  | creationYear (year : UInt16)
  | date (date : Date)
  | format (format : Format)
  | compressed (compressed : Bool)
  | transforms (transforms : Axes Transform)
  | padding (bytes : Bytes)
  | recordPadding (bytes : Bytes)
  | spatialReference (text : String)
  | finalize (points : UInt64) (byReturn : Vector UInt64 5) (bounds : Bounds)
  | pushRecord (record : Vlr)
  | removeRecord (index : Nat)
  | removeMatching (userId : String) (recordId : UInt16)
  | clearRecords
  deriving Repr

def lastDay : UInt16 := 366

def lastYear : UInt16 := 9999

def setVersion (h : Header) (version : Version) : Except Error Header :=
  if !version.isSupported then refuse (.unsupportedVersion version)
  else if (sizeWith? version h.padding.length).isNone then
    refuse (.paddingForVersion h.padding.length version)
  else .ok { h with version }

def setSystemIdentifier (h : Header) (text : String) : Except Error Header := do
  Text.check .systemIdentifier text identifierWidth
  return { h with systemIdentifier := text }

def setGeneratingSoftware (h : Header) (text : String) : Except Error Header := do
  Text.check .generatingSoftware text identifierWidth
  return { h with generatingSoftware := text }

def setCreationDay (h : Header) (day : UInt16) : Except Error Header :=
  if lastDay < day then refuse (.dayOfYear day) else .ok { h with creationDay := day }

def setCreationYear (h : Header) (year : UInt16) : Except Error Header :=
  if lastYear < year then refuse (.year year) else .ok { h with creationYear := year }

def setDate (h : Header) (date : Date) : Except Error Header :=
  if date.year < 0 ∨ (lastYear.toNat : Int) < date.year then refuse (.date date)
  else .ok { h with
    creationYear := UInt16.ofNat date.year.toNat
    creationDay := UInt16.ofNat date.dayOfYear }

def setFormat (h : Header) (format : Format) : Except Error Header := do
  format.validate
  return { h with format }

def setTransforms (h : Header) (transforms : Axes Transform) : Except Error Header := do
  transforms.x.validate
  transforms.y.validate
  transforms.z.validate
  return { h with transforms }

def setPadding (h : Header) (bytes : Bytes) : Except Error Header :=
  if (sizeWith? h.version bytes.length).isNone then refuse (.padding bytes.length)
  else .ok { h with padding := bytes }

/-- The record that holds a coordinate system, its text ended by a nul. -/
def coordinateSystemRecord (text : String) : Vlr where
  reserved := 0
  userId := projectionUserId
  recordId := coordinateSystemId
  description := "OGC Coordinate System WKT"
  data := Text.bytes text ++ [0]

def setSpatialReference (h : Header) (text : String) : Except Error Header := do
  let record := coordinateSystemRecord text
  record.validate
  let kept := (h.records.removeMatching projectionUserId coordinateSystemId).2
  return { h with records := ← kept.push record }

def edit (h : Header) : Edit → Except Error Header
  | .fileSourceId id => .ok { h with fileSourceId := id }
  | .globalEncoding bits => .ok { h with globalEncoding := bits }
  | .guid guid => .ok { h with guid }
  | .version version => h.setVersion version
  | .systemIdentifier text => h.setSystemIdentifier text
  | .generatingSoftware text => h.setGeneratingSoftware text
  | .creationDay day => h.setCreationDay day
  | .creationYear year => h.setCreationYear year
  | .date date => h.setDate date
  | .format format => h.setFormat format
  | .compressed compressed => .ok { h with compressed }
  | .transforms transforms => h.setTransforms transforms
  | .padding bytes => h.setPadding bytes
  | .recordPadding bytes => .ok { h with recordPadding := bytes }
  | .spatialReference text => h.setSpatialReference text
  | .finalize points byReturn bounds => .ok (h.finalize points byReturn bounds)
  | .pushRecord record => return { h with records := ← h.records.push record }
  | .removeRecord index => return { h with records := (← h.records.remove index).2 }
  | .removeMatching userId recordId =>
    .ok { h with records := (h.records.removeMatching userId recordId).2 }
  | .clearRecords => .ok { h with records := .empty }

/-- Makes a change, or leaves the header as it was when the change is refused. -/
def tryEdit (h : Header) (e : Edit) : Header :=
  match h.edit e with
  | .ok edited => edited
  | .error _ => h

end Lidar.Header
