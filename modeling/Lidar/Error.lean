import Lidar.Calendar
import Lidar.Point.Format.Basic
import Lidar.Text.Utf8
import Lidar.Transform.Basic
import Lidar.Version

/-!
# Errors

Each error holds its cause, and `Error.message` words it. A value that a field cannot hold is a
`Refusal`, which knows the field; a header block that is no header has a `HeaderDefect`; a fault of
the medium is reported together with the operation that met it.
-/
namespace Lidar

inductive TextField where
  | userId
  | description
  | systemIdentifier
  | generatingSoftware
  | coordinateSystem
  deriving DecidableEq, Repr

namespace TextField

def name : TextField → String
  | .userId => "user_id"
  | .description => "description"
  | .systemIdentifier => "system_identifier"
  | .generatingSoftware => "generating_software"
  | .coordinateSystem => "wkt"

end TextField

inductive ReturnField where
  | returnNumber
  | numberOfReturns
  deriving DecidableEq, Repr

def ReturnField.name : ReturnField → String
  | .returnNumber => "return_number"
  | .numberOfReturns => "number_of_returns"

/-- Why a value cannot go into the field it was meant for. -/
inductive Refusal where
  /-- A text has more bytes than its field. -/
  | textTooLong (field : TextField) (text : String) (width : Nat)
  /-- A text with a nul would end early when read back. -/
  | textWithNul (field : TextField)
  /-- A class has five bits. -/
  | classTooBig (code : UInt8)
  /-- A reserved class must not hold the code of a named one. -/
  | classNotReserved (code : UInt8)
  | scanAngle (rank : Int8)
  /-- A return counter has three bits. -/
  | returnTooBig (field : ReturnField) (n : UInt8)
  /-- A record of this format is longer than a header can declare. -/
  | recordTooLong (format : Format)
  | scale (value : Binary64)
  | offset (value : Binary64)
  | unsupportedVersion (version : Version)
  /-- The padding a header has is too long for the header block of another version. -/
  | paddingForVersion (size : Nat) (version : Version)
  | padding (size : Nat)
  | dayOfYear (day : UInt16)
  | year (year : UInt16)
  | date (date : Date)
  /-- The version reserves the field of a nonzero file source id. -/
  | reservedFileSourceId (version : Version)
  /-- The point data would start past what 32 bits can address. -/
  | pointDataStart (offset : Nat)
  deriving DecidableEq, Repr

namespace Refusal

def field : Refusal → String
  | .textTooLong field _ _ => field.name
  | .textWithNul field => field.name
  | .classTooBig _ => "class"
  | .classNotReserved _ => "class"
  | .scanAngle _ => "scan_angle_rank"
  | .returnTooBig field _ => field.name
  | .recordTooLong _ => "extra_bytes"
  | .scale _ => "scale"
  | .offset _ => "offset"
  | .unsupportedVersion _ => "version"
  | .paddingForVersion _ _ => "version"
  | .padding _ => "padding"
  | .dayOfYear _ => "file_creation_day_of_year"
  | .year _ => "file_creation_year"
  | .date _ => "date"
  | .reservedFileSourceId _ => "file_source_id"
  | .pointDataStart _ => "vlrs"

def reason : Refusal → String
  | .textTooLong _ text width =>
    s!"'{text}' is {text.utf8ByteSize} bytes, the limit is {width}"
  | .textWithNul _ => "strings can't contain nul bytes"
  | .classTooBig code => s!"{code} doesn't fit in five bits"
  | .classNotReserved code => s!"{code} is not a reserved code"
  | .scanAngle rank => s!"{rank.toInt} is outside of [-90, 90]"
  | .returnTooBig _ n => s!"{n} doesn't fit in three bits"
  | .recordTooLong format =>
    s!"{format.extraBytes} extra bytes make a {format.text} record longer than {Format.maxLength} bytes"
  | .scale x => s!"{x.text} is not a finite nonzero number"
  | .offset x => s!"{x.text} is not finite"
  | .unsupportedVersion version => s!"las {version} is not supported"
  | .paddingForVersion size version =>
    s!"{size} bytes of padding don't fit in a las {version} header"
  | .padding n => s!"{n} bytes of padding don't fit in the header"
  | .dayOfYear n => s!"{n} is after day 366"
  | .year y => s!"{y} has more than four digits"
  | .date d => s!"the year of {d.text} doesn't fit in four digits"
  | .reservedFileSourceId version => s!"las {version} reserves the file source id"
  | .pointDataStart start => s!"the point data would start at byte {start}"

def message (r : Refusal) : String := s!"invalid value for {r.field}: {r.reason}"

end Refusal

inductive HeaderDefect where
  | signature (bytes : Bytes)
  | headerSize (declared : Nat) (version : Version)
  /-- The point data would start inside the header block. -/
  | pointDataStart (offset headerSize : Nat)
  | recordLength (length : Nat) (format : Format)
  | transform (refusal : Refusal)
  /-- The last variable length record ends past the start of the point data. -/
  | recordsEnd (position offset : Nat)
  deriving DecidableEq, Repr

def HeaderDefect.message : HeaderDefect → String
  | .signature bytes =>
    let list := ", ".intercalate (bytes.map fun b => toString b.toNat)
    s!"the file signature is [{list}], not LASF"
  | .headerSize declared version =>
    s!"the header size {declared} is smaller than the {version.headerSize} bytes of las {version}"
  | .pointDataStart start size =>
    s!"the offset to point data {start} is inside the {size} byte header"
  | .recordLength length format =>
    s!"point record length {length} is shorter than the {format.standardLength} bytes of point format {format.id}"
  | .transform refusal => refusal.message
  | .recordsEnd position start =>
    s!"the vlrs end at byte {position}, after the point data offset {start}"

/-- What was being done when the medium failed. -/
inductive Operation where
  | readingHeader
  | readingRecord
  | readingRecordPadding
  | writingHeader
  | writingRecord
  | writingRecordPadding
  | findingStart
  | findingPoints
  | seekingHeader
  | seekingPoint
  | flushing
  | readingPoint
  | writingPoint
  | writingCompressedPoints
  | openingFile
  | creatingFile
  deriving DecidableEq, Repr

def Operation.text : Operation → String
  | .readingHeader => "reading the header"
  | .readingRecord => "reading a vlr"
  | .readingRecordPadding => "reading the bytes between the vlrs and the points"
  | .writingHeader => "writing the header"
  | .writingRecord => "writing a vlr"
  | .writingRecordPadding => "writing the bytes between the vlrs and the points"
  | .findingStart => "finding the start of the las data"
  | .findingPoints => "finding the start of the points"
  | .seekingHeader => "seeking to the header"
  | .seekingPoint => "seeking to a point"
  | .flushing => "flushing the las data"
  | .readingPoint => "reading a point"
  | .writingPoint => "writing a point"
  | .writingCompressedPoints => "writing compressed points"
  | .openingFile => "opening a las file"
  | .creatingFile => "creating a las file"

inductive Fault where
  /-- The data end before a field does. -/
  | shortField
  /-- The data end before the points start. -/
  | shortPadding
  /-- The medium takes no more bytes. -/
  | full
  | missing
  | position
  | seek
  | flush
  deriving DecidableEq, Repr

inductive FaultKind where
  | unexpectedEnd
  | writeZero
  | notFound
  | other
  deriving DecidableEq, Repr

namespace Fault

def kind : Fault → FaultKind
  | .shortField => .unexpectedEnd
  | .shortPadding => .unexpectedEnd
  | .full => .writeZero
  | .missing => .notFound
  | .position => .other
  | .seek => .other
  | .flush => .other

def text : Fault → String
  | .shortField => "failed to fill whole buffer"
  | .shortPadding => "unexpected end of file"
  | .full => "failed to write whole buffer"
  | .missing => "No such file or directory (os error 2)"
  | .position => "position failed"
  | .seek => "seek failed"
  | .flush => "flush failed"

end Fault

inductive Error where
  | malformedHeader (defect : HeaderDefect)
  | unsupportedPointFormat (id : UInt8)
  | unsupportedVersion (version : Version)
  /-- The point data are compressed and there is no codec. -/
  | compressionUnsupported
  | invalidArgument (refusal : Refusal)
  /-- The payload of a variable length record does not fit its 16-bit length. -/
  | recordTooLarge (size : Nat)
  | indexOutOfRange (index length : Nat)
  /-- The optional fields of a point are not those of the format. -/
  | schemaMismatch (format : Format)
  /-- A coordinate has no stored integer. -/
  | invalidCoordinate (value : Binary64) (transform : Transform)
  | notUtf8 (field : TextField) (fault : Utf8Fault)
  | fieldNotApplicable (field : String)
  | readerClosed
  | writerClosed
  /-- The version cannot count this many points. -/
  | tooManyPoints (n : Nat) (version : Version)
  /-- A codec gave a different number of bytes than the points take. -/
  | decodedLength (expected actual : Nat)
  | medium (operation : Operation) (fault : Fault)
  deriving DecidableEq, Repr

def Error.message : Error → String
  | .malformedHeader defect => s!"malformed header: {defect.message}"
  | .unsupportedPointFormat id => s!"unsupported point format: {id}"
  | .unsupportedVersion version => s!"unsupported las version: {version}"
  | .compressionUnsupported => "the point data are compressed, but no codec is available"
  | .invalidArgument refusal => refusal.message
  | .recordTooLarge size => s!"the vlr payload is {size} bytes, which is too large for a vlr"
  | .indexOutOfRange index length => s!"index {index} is out of range (length {length})"
  | .schemaMismatch format => s!"the point's attributes do not match {format.text}"
  | .invalidCoordinate value transform =>
    s!"{value.text} cannot be encoded with transform {transform.text}"
  | .notUtf8 field _ => s!"the {field.name} field is not valid utf-8"
  | .fieldNotApplicable field => s!"the {field} field is not defined for this point"
  | .readerClosed => "the reader is closed"
  | .writerClosed => "the writer is closed"
  | .tooManyPoints n version => s!"too many points for version {version}: {n}"
  | .decodedLength expected actual =>
    s!"the codec decoded {actual} bytes, but the points require {expected}"
  | .medium operation fault => s!"i/o error while {operation.text}: {fault.text}"

def refuse (r : Refusal) : Except Error α := .error (.invalidArgument r)

end Lidar
