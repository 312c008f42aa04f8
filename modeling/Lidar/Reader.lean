import Lidar.Codec
import Lidar.Medium
import Lidar.Point.Basic

/-!
# Reading points

An open reader has a cursor: the number of the next point, and the medium positioned at its record.
Reading a point moves on by one also when the record is there but makes no point. A closed reader
keeps its header and refuses everything else.
-/
namespace Lidar

structure Cursor where
  medium : Medium
  start : Nat
  index : Nat

structure Batch where
  points : List Point
  error? : Option Error
  deriving Repr

structure Reader where
  header : Header
  /-- None once the reader is closed. -/
  cursor? : Option Cursor

namespace Cursor

/-- The first number that a 64-bit position does not reach. -/
def positionLimit : Nat := UInt64.size

abbrev Action (α : Type) := EStateM Error Cursor α

def onMedium (action : Medium.Action α) : Action α := fun c =>
  match action c.medium with
  | .ok a medium => .ok a { c with medium }
  | .error e medium => .error e { c with medium }

/-- A cursor at the first point, whose record is where the medium is. -/
def ofMedium (m : Medium) : Except Error Cursor :=
  match Medium.tell .findingPoints m with
  | .ok start medium => .ok ⟨medium, start, 0⟩
  | .error e _ => .error e

def readPoint (h : Header) : Action (Option Point) := do
  if h.numberOfPoints.toNat ≤ (← get).index then return none
  let record ← onMedium (Medium.read .readingPoint h.format.length (Point.Record.decoder h.format))
  modify fun c => { c with index := c.index + 1 }
  return some (← ofExcept (record.toPoint h.transforms))

/-- Moves to a record, whose position must be a 64-bit number. -/
def seek (h : Header) (index : Nat) : Action Unit := do
  let position := index * h.format.length + (← get).start
  if positionLimit ≤ position then throw (.indexOutOfRange index h.numberOfPoints.toNat)
  onMedium (Medium.seek .seekingPoint position)
  modify fun c => { c with index }

/-- The next points, at most `n`, up to the last one or an error. -/
def readUpTo (h : Header) : Nat → Cursor → Batch × Cursor
  | 0, c => (⟨[], none⟩, c)
  | n + 1, c =>
    match readPoint h c with
    | .error e c => (⟨[], some e⟩, c)
    | .ok none c => (⟨[], none⟩, c)
    | .ok (some p) c =>
      let (later, c) := readUpTo h n c
      (⟨p :: later.points, later.error?⟩, c)

def remaining (h : Header) (c : Cursor) : Nat := h.numberOfPoints.toNat - c.index

end Cursor

namespace Reader

abbrev Action (α : Type) := EStateM Error Reader α

def decompress (h : Header) (codec? : Option Codec) (data : Bytes) : Traced Bytes := do
  let some codec := codec? | throw .compressionUnsupported
  let records ← codec.decode h data
  let expected := h.numberOfPoints.toNat * h.format.length
  if Cursor.positionLimit ≤ expected then
    throw (.tooManyPoints h.numberOfPoints.toNat h.version)
  if records.length ≠ expected then throw (.decodedLength expected records.length)
  Traced.say (.decoded data.length h.numberOfPoints)
  return records

def findRecords (m : Medium) (h : Header) (codec? : Option Codec) (data : Bytes) : Traced Medium :=
  if h.compressed then Medium.ofBytes <$> decompress h codec? data
  else pure { m with position := m.position + (m.rest.length - data.length) }

def ofMedium (m : Medium) (codec? : Option Codec) : Traced Reader := do
  let (header, data) ← Header.decode m.rest
  let source ← findRecords m header codec? data
  let cursor ← Cursor.ofMedium source
  Traced.say (.opened header.version header.numberOfPoints header.format)
  return ⟨header, some cursor⟩

def isClosed (r : Reader) : Bool := r.cursor?.isNone

def onCursor (action : Header → Cursor.Action α) : Action α := fun r =>
  match r.cursor? with
  | none => .error .readerClosed r
  | some c =>
    match action r.header c with
    | .ok a c => .ok a { r with cursor? := some c }
    | .error e c => .error e { r with cursor? := some c }

def readPoint : Action (Option Point) := onCursor Cursor.readPoint

/-- The point with a number; the next one read is the one after it. -/
def readPointAt (index : Nat) : Action Point := onCursor fun h => do
  let outside := Error.indexOutOfRange index h.numberOfPoints.toNat
  if h.numberOfPoints.toNat ≤ index then throw outside
  Cursor.seek h index
  match ← Cursor.readPoint h with
  | some p => return p
  | none => throw outside

def seek (index : Nat) : Action Unit := onCursor fun h => do
  if h.numberOfPoints.toNat < index then
    throw (.indexOutOfRange index h.numberOfPoints.toNat)
  Cursor.seek h index

def readPoints (r : Reader) (n : Nat) : Batch × Reader :=
  match r.cursor? with
  | none => (⟨[], some .readerClosed⟩, r)
  | some c =>
    let (batch, c) := Cursor.readUpTo r.header (min (c.remaining r.header) n) c
    (batch, { r with cursor? := some c })

def readAll (r : Reader) : Batch × Reader := r.readPoints r.header.numberOfPoints.toNat

def close (r : Reader) : List Event × Reader :=
  (if r.isClosed then [] else [.closedReader], { r with cursor? := none })

end Reader

end Lidar
