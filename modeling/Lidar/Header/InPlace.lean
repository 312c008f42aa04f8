import Lidar.Header.Edit

/-!
# Editing a header in place

An edit in place looks at what it was given and at the header, and then changes the fields one
after the other. An error leaves the header as far as the edit got.
-/
namespace Lidar.Header

abbrev Action (α : Type) := EStateM Error Header α

def rejectWhen (condition : Bool) (refusal : Refusal) : Action Unit :=
  if condition then throw (.invalidArgument refusal) else pure ()

def pushRecord (record : Vlr) : Action Unit := do
  let records ← ofExcept ((← get).records.push record)
  modify ({ · with records })

def removeMatching (userId : String) (recordId : UInt16) : Action Unit :=
  modify fun h => { h with records := (h.records.removeMatching userId recordId).2 }

def putSpatialReference (text : String) : Action Unit := do
  let record := coordinateSystemRecord text
  ofExcept record.validate
  removeMatching projectionUserId coordinateSystemId
  pushRecord record

def takeRecord (index : Nat) : Action Unit := do
  let (_, records) ← ofExcept ((← get).records.remove index)
  modify ({ · with records })

def perform : Edit → Action Unit
  | .fileSourceId id => modify ({ · with fileSourceId := id })
  | .globalEncoding bits => modify ({ · with globalEncoding := bits })
  | .guid guid => modify ({ · with guid })
  | .version version => do
    rejectWhen (!version.isSupported) (.unsupportedVersion version)
    let size := (← get).padding.length
    rejectWhen (sizeWith? version size).isNone (.paddingForVersion size version)
    modify ({ · with version })
  | .systemIdentifier text => do
    ofExcept (Text.check .systemIdentifier text identifierWidth)
    modify ({ · with systemIdentifier := text })
  | .generatingSoftware text => do
    ofExcept (Text.check .generatingSoftware text identifierWidth)
    modify ({ · with generatingSoftware := text })
  | .creationDay day => do
    rejectWhen (decide (lastDay < day)) (.dayOfYear day)
    modify ({ · with creationDay := day })
  | .creationYear year => do
    rejectWhen (decide (lastYear < year)) (.year year)
    modify ({ · with creationYear := year })
  | .date date => do
    rejectWhen (decide (date.year < 0 ∨ (lastYear.toNat : Int) < date.year)) (.date date)
    modify ({ · with creationYear := UInt16.ofNat date.year.toNat })
    modify ({ · with creationDay := UInt16.ofNat date.dayOfYear })
  | .format format => do
    ofExcept format.validate
    modify ({ · with format })
  | .compressed compressed => modify ({ · with compressed })
  | .transforms transforms => do
    ofExcept transforms.x.validate
    ofExcept transforms.y.validate
    ofExcept transforms.z.validate
    modify ({ · with transforms })
  | .padding bytes => do
    let version := (← get).version
    rejectWhen (sizeWith? version bytes.length).isNone (.padding bytes.length)
    modify ({ · with padding := bytes })
  | .recordPadding bytes => modify ({ · with recordPadding := bytes })
  | .spatialReference text => putSpatialReference text
  | .finalize points byReturn bounds => do
    modify ({ · with numberOfPoints := points })
    modify ({ · with numberOfPointsByReturn := byReturn })
    modify ({ · with bounds := if points == 0 || bounds.isEmpty then .zero else bounds })
  | .pushRecord record => pushRecord record
  | .removeRecord index => takeRecord index
  | .removeMatching userId recordId => removeMatching userId recordId
  | .clearRecords => modify ({ · with records := .empty })

/-- The header that edits leave, whether or not some of them stop with an error. -/
def performAll (h : Header) : List Edit → Header
  | [] => h
  | e :: edits =>
    match perform e h with
    | .ok _ edited => edited.performAll edits
    | .error _ left => left.performAll edits

end Lidar.Header
