import Lidar.Codec
import Lidar.Medium
import Lidar.Point.Basic

/-!
# Writing points

A writer puts a header of no points before the first record, so that the file is readable from the
start, and puts the final header in its place when it closes. Closing takes the output away before
it does anything else: it happens at most once, and after it nothing is written, however it ended.
-/
namespace Lidar

inductive Output where
  | plain
  /-- To a buffer that the codec encodes when the writer closes. -/
  | compressed (codec : Codec) (records : ByteArray)

structure Tally where
  points : UInt64
  byReturn : Vector UInt64 5
  bounds : Bounds
  deriving DecidableEq, Repr

namespace Tally

def zero : Tally := ⟨0, Vector.replicate 5 0, .inverted⟩

/-- Counts a record. Return numbers other than one to five have no count, and the box grows by the
coordinates that a reader will see. -/
def add (t : Tally) (r : Point.Record) (transforms : Axes Transform) : Tally :=
  let n := (r.flags &&& 0x07).toNat
  { points := t.points + 1
    byReturn := Vector.ofFn fun i => if n = i.val + 1 then t.byReturn[i] + 1 else t.byReturn[i]
    bounds := t.bounds.grow (r.position transforms) }

end Tally

structure Writer where
  header : Header
  medium : Medium
  start : Nat
  tally : Tally
  /-- None once the writer is closed. -/
  output? : Option Output

namespace Writer

abbrev Action (α : Type) := EStateM Error Writer α

/-- Puts the record of a codec in the place of all that describe data of the codec. -/
def applyCodec (codec : Codec) (h : Header) : Traced Header := do
  let record ← codec.vlr h.format
  record.validate
  let (removed, kept) := h.records.removeWhere codec.describes
  Traced.sayIf (removed != 0) (.replacedCodecRecords removed)
  return { h with records := ← kept.push record }

def dropCodec (codec? : Option Codec) (h : Header) : Traced Header :=
  match codec? with
  | none => pure h
  | some codec => do
    let (removed, kept) := h.records.removeWhere codec.describes
    Traced.sayIf (removed != 0) (.droppedCodecRecords removed)
    return { h with records := kept }

def prepare (h : Header) (codec? : Option Codec) : Traced (Header × Output) := do
  let h := h.finalize 0 (Vector.replicate 5 0) .zero
  if h.compressed then
    let some codec := codec? | throw .compressionUnsupported
    return (← applyCodec codec h, .compressed codec .empty)
  else
    return (← dropCodec codec? h, .plain)

/-- Starts a file at the position of a medium, which is given back as the attempt leaves it. -/
def onMedium (m : Medium) (h : Header) (codec? : Option Codec) : Traced Writer × Medium :=
  match Medium.tell .findingStart m with
  | .error e m => (throw e, m)
  | .ok start m =>
    let prepared := prepare h codec?
    match prepared.result with
    | .error e => (⟨.error e, prepared.events⟩, m)
    | .ok (h, output) =>
      match Medium.writeInTurn h m with
      | .error e m => (⟨.error e, prepared.events⟩, m)
      | .ok () m => (⟨.ok ⟨h, m, start, .zero, some output⟩, prepared.events⟩, m)

def isClosed (w : Writer) : Bool := w.output?.isNone

def checkOpen (w : Writer) : Except Error Unit :=
  if w.isClosed then .error .writerClosed else .ok ()

def checkCapacity (w : Writer) (n : Nat) : Except Error Unit :=
  let total := min (w.tally.points.toNat + n) (UInt64.size - 1)
  if !w.header.version.supports .largeFiles && decide (Header.maxCount < total) then
    .error (.tooManyPoints total w.header.version)
  else .ok ()

def recordOf (w : Writer) (p : Point) : Except Error Point.Record :=
  p.toRecord w.header.transforms w.header.format

def output (bytes : Bytes) : Action Unit := fun w =>
  match w.output? with
  | none => .error .writerClosed w
  | some .plain =>
    match Medium.write .writingPoint bytes w.medium with
    | .error e medium => .error e { w with medium }
    | .ok () medium => .ok () { w with medium }
  | some (.compressed codec records) =>
    .ok () { w with output? := some (.compressed codec (records ++ bytes.toByteArray)) }

def writeRecord (r : Point.Record) : Action Unit := do
  output (r.encode (← get).header.format)
  modify fun w => { w with tally := w.tally.add r w.header.transforms }

def writeRecords : List Point.Record → Action Unit
  | [] => pure ()
  | r :: later => do
    writeRecord r
    writeRecords later

/-- Writes a point. One that does not fit the header changes nothing. -/
def writePoint (p : Point) : Action Unit := do
  let w ← get
  ofExcept w.checkOpen
  ofExcept (w.checkCapacity 1)
  writeRecord (← ofExcept (w.recordOf p))

def writePoints (ps : List Point) : Action Unit := do
  let w ← get
  ofExcept w.checkOpen
  ofExcept (w.checkCapacity ps.length)
  writeRecords (← ofExcept (ps.mapM w.recordOf))

def release (h : Header) : Output → Medium.Action (List Event)
  | .plain => pure []
  | .compressed codec records => do
    let encoded ← ofExcept (codec.encode h (.ofPacked records))
    Medium.write .writingCompressedPoints encoded
    return [.encoded records.size encoded.length]

def replaceHeader (h : Header) (start : Nat) : Medium.Action Unit := do
  Medium.seek .seekingHeader start
  Medium.writeInTurn h
  Medium.flush .flushing
  Medium.seek .seekingHeader start

/-- Writes what is held back, and the final header over the first one. Closing a closed writer does
nothing. -/
def close (w : Writer) : Traced Unit × Writer :=
  match w.output? with
  | none => (pure (), w)
  | some output =>
    let h := w.header.finalize w.tally.points w.tally.byReturn w.tally.bounds
    let w := { w with header := h, output? := none }
    match release h output w.medium with
    | .error e medium => (throw e, { w with medium })
    | .ok events medium =>
      match replaceHeader h w.start medium with
      | .error e medium => (⟨.error e, events⟩, { w with medium })
      | .ok () medium =>
        (⟨.ok (), events ++ [.finalized h.version w.tally.points]⟩, { w with medium })

def intoMedium (w : Writer) : Traced Medium × Writer :=
  if w.isClosed then (throw .writerClosed, w)
  else
    let (closed, w) := w.close
    (closed >>= fun _ => pure w.medium, w)

def drop (w : Writer) : List Event × Writer :=
  let (closed, w) := w.close
  match closed.result with
  | .ok () => (closed.events, w)
  | .error e => (closed.events ++ [.closingFailed e], w)

end Writer

end Lidar
