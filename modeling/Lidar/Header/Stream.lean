import Lidar.Header.FromBlock
import Lidar.Header.ToBlock

/-!
# Headers in a stream

A stream holds the header block, the variable length records, and bytes of no meaning up to the
start of the point data. Reading stops there, and writing ends there.
-/
namespace Lidar.Header

/-- The end of the bytes before the points in files of some 1.0 writers. -/
def startSignature : Bytes := [0xdd, 0xcc]

def decodeNext (operation : Operation) (decode : Decoder α) (s : Bytes) : Traced (α × Bytes) :=
  match decode s with
  | some found => pure found
  | none => throw (.medium operation .shortField)

/-- Reads up to `left` more of the `declared` records, and stops when no head fits any more before
the point data. The position is that of the next byte, from the start of the header. -/
def decodeRecords (declared start : Nat) :
    Nat → Nat → Vlr.Store → Bytes → Traced (Nat × Vlr.Store × Bytes)
  | 0, position, records, s => pure (position, records, s)
  | left + 1, position, records, s =>
    if start < position + Vlr.headSize then do
      Traced.say (.missingRecords declared (declared - (left + 1)))
      return (position, records, s)
    else do
      let (record, rest) ← decodeNext .readingRecord Vlr.Record.decoder s
      let records ← records.push (← Vlr.ofRecord record)
      decodeRecords declared start left (position + record.size) records rest

/-- Reads a header from the front of a stream and gives what follows, which is the point data. -/
def decode (s : Bytes) : Traced (Header × Bytes) := do
  let (block, rest) ← decodeNext .readingHeader Block.decoder s
  let header ← ofBlock block
  let declared := block.recordCount.toNat
  let start := block.pointDataStart.toNat
  let (position, records, rest) ← decodeRecords declared start declared header.size .empty rest
  if start < position then throw (.malformedHeader (.recordsEnd position start))
  match Decoder.take (start - position) rest with
  | some (recordPadding, points) =>
    Traced.sayIf (startSignature.isSuffixOf recordPadding) .startSignature
    return ({ header with records, recordPadding }, points)
  | none => throw (.medium .readingRecordPadding .shortPadding)

/-- Writes the block of a header, its records, each of which is looked at when its turn comes, and
the padding before the points. -/
def emit {m : Type → Type} [Monad m] [MonadExcept Error m] (write : Operation → Bytes → m Unit)
    (h : Header) : m Unit := do
  let block ← ofExcept h.toBlock
  write .writingHeader block.encode
  forM h.records.toList fun v => do
    let record ← ofExcept v.toRecord
    write .writingRecord record.encode
  write .writingRecordPadding h.recordPadding

def sections (h : Header) : Except Error (List (Operation × Bytes)) := do
  let block ← h.toBlock
  let records ← h.records.toList.mapM Vlr.toRecord
  return (.writingHeader, block.encode) ::
    (records.map fun r => (.writingRecord, r.encode)) ++ [(.writingRecordPadding, h.recordPadding)]

def encode (h : Header) : Except Error Bytes :=
  return (← h.sections).flatMap (·.2)

end Lidar.Header
