import Lidar.Proofs.Success
import Lidar.Reader.Points

/-!
# Reading by number

A reader of points that are not compressed is a machine whose state is the number of the next
point, or nothing once it is closed. The records lie one behind the other from the start of the
point data, and what a call gives depends on that number and on the bytes alone. Calls that a
caller can make are listed as `Call`, with their answers both by the reader and by the machine.
-/
namespace Lidar

namespace Batch

def collected (b : Batch) : Except Error (List Point) :=
  match b.error? with
  | some e => .error e
  | none => .ok b.points

def appended (b : Batch) (buffer : List Point) : List Point × Except Error Nat :=
  (buffer ++ b.points, match b.error? with
    | some e => .error e
    | none => .ok b.points.length)

end Batch

namespace Reader

inductive Call where
  | readPoint
  | readPointAt (index : Nat)
  | seek (index : Nat)
  | readPoints (n : Nat)
  | readPointsInto (n : Nat) (buffer : List Point)
  | readAllPointsInto (buffer : List Point)
  /-- The points are iterated over, and the next one is asked for this many times. -/
  | points (nexts : Nat)
  | close

inductive Answer where
  | next (result : Except Error (Option Point))
  | point (result : Except Error Point)
  | moved (result : Except Error Unit)
  | collected (result : Except Error (List Point))
  | appended (result : List Point × Except Error Nat)
  | items (items : List (Option (Except Error Point)))
  | closed (events : List Event)

def Points.nexts : Nat → Points → List (Option (Except Error Point)) × Points
  | 0, ps => ([], ps)
  | n + 1, ps =>
    let (item, ps) := ps.next
    let (items, ps) := nexts n ps
    (item :: items, ps)

def answer (r : Reader) : Call → Answer × Reader
  | .readPoint => (settle (readPoint r)).map .next id
  | .readPointAt index => (settle (readPointAt index r)).map .point id
  | .seek index => (settle (seek index r)).map .moved id
  | .readPoints n => (r.readPoints n).map (.collected ·.collected) id
  | .readPointsInto n buffer => (r.readPoints n).map (fun b => .appended (b.appended buffer)) id
  | .readAllPointsInto buffer => r.readAll.map (fun b => .appended (b.appended buffer)) id
  | .points nexts => (r.points.nexts nexts).map .items Points.reader
  | .close => r.close.map .closed id

def answers (r : Reader) : List Call → List Answer × Reader
  | [] => ([], r)
  | call :: calls =>
    let (first, r) := r.answer call
    let (later, r) := r.answers calls
    (first :: later, r)

end Reader

/-- The records that a header describes, from a place in a stream on. -/
structure Source where
  header : Header
  stream : Bytes
  start : Nat

namespace Source

def count (s : Source) : Nat := s.header.numberOfPoints.toNat

def width (s : Source) : Nat := s.header.format.length

def place (s : Source) (index : Nat) : Nat := s.start + index * s.width

def Present (s : Source) (index : Nat) : Prop := s.place index + s.width ≤ s.stream.length

instance (s : Source) (index : Nat) : Decidable (s.Present index) :=
  inferInstanceAs (Decidable (_ ≤ _))

def bytes (s : Source) (index : Nat) : Bytes := (s.stream.drop (s.place index)).take s.width

def record? (s : Source) (index : Nat) : Option Point.Record :=
  if s.Present index then (Point.Record.decoder s.header.format (s.bytes index)).map (·.1) else none

def ended : Error := .medium .readingPoint .shortField

def outside (s : Source) (index : Nat) : Error := .indexOutOfRange index s.count

def Reachable (s : Source) (index : Nat) : Prop := s.place index < Cursor.positionLimit

instance (s : Source) (index : Nat) : Decidable (s.Reachable index) :=
  inferInstanceAs (Decidable (_ < _))

def take (s : Source) (index : Nat) : Except Error Point × Nat :=
  match s.record? index with
  | none => (.error ended, index)
  | some r => (r.toPoint s.header.transforms, index + 1)

def next (s : Source) (index : Nat) : Except Error (Option Point) × Nat :=
  if s.count ≤ index then (.ok none, index) else (s.take index).map (·.map some) id

def takeAt (s : Source) (wanted index : Nat) : Except Error Point × Nat :=
  if wanted < s.count ∧ s.Reachable wanted then s.take wanted else (.error (s.outside wanted), index)

def seek (s : Source) (wanted index : Nat) : Except Error Unit × Nat :=
  if wanted ≤ s.count ∧ s.Reachable wanted then (.ok (), wanted)
  else (.error (s.outside wanted), index)

def nextUpTo (s : Source) : Nat → Nat → Batch × Nat
  | 0, index => (⟨[], none⟩, index)
  | n + 1, index =>
    match s.next index with
    | (.error e, index) => (⟨[], some e⟩, index)
    | (.ok none, index) => (⟨[], none⟩, index)
    | (.ok (some p), index) =>
      let (later, index) := s.nextUpTo n index
      (⟨p :: later.points, later.error?⟩, index)

/-- The state of a machine: the number of the next point, or nothing once it is closed. -/
abbrev State := Option Nat

def whenOpen {α : Type} (step : Nat → Except Error α × Nat) : State → Except Error α × State
  | none => (.error .readerClosed, none)
  | some index => (step index).map id some

def batch (s : Source) (n : Nat) : State → Batch × State
  | none => (⟨[], some .readerClosed⟩, none)
  | some index => (s.nextUpTo n index).map id some

def items (s : Source) : Nat → Bool → State → List (Option (Except Error Point)) × State
  | 0, _, state => ([], state)
  | n + 1, failed, state =>
    if failed then (s.items n true state).map (none :: ·) id
    else
      match whenOpen s.next state with
      | (.ok (some p), state) => (s.items n false state).map (some (.ok p) :: ·) id
      | (.ok none, state) => (s.items n false state).map (none :: ·) id
      | (.error e, state) => (s.items n true state).map (some (.error e) :: ·) id

def answer (s : Source) (state : State) : Reader.Call → Reader.Answer × State
  | .readPoint => (whenOpen s.next state).map .next id
  | .readPointAt index => (whenOpen (s.takeAt index) state).map .point id
  | .seek index => (whenOpen (s.seek index) state).map .moved id
  | .readPoints n => (s.batch n state).map (.collected ·.collected) id
  | .readPointsInto n buffer => (s.batch n state).map (fun b => .appended (b.appended buffer)) id
  | .readAllPointsInto buffer =>
    (s.batch s.count state).map (fun b => .appended (b.appended buffer)) id
  | .points nexts => (s.items nexts false state).map .items id
  | .close => (.closed (if state.isSome then [.closedReader] else []), none)

def answers (s : Source) (state : State) : List Reader.Call → List Reader.Answer × State
  | [] => ([], state)
  | call :: calls =>
    let (first, state) := s.answer state call
    let (later, state) := s.answers state calls
    (first :: later, state)

theorem answers_readPoint {s : Source} {k k' : Nat}
    {result : Except Error (Option Point)}
    (read : s.next k = (result, k')) (calls : List Reader.Call) :
    (s.answers (some k) (.readPoint :: calls)).1 =
      .next result :: (s.answers (some k') calls).1 := by
  have first : s.answer (some k) .readPoint = (.next result, some k') := by
    show ((s.next k).map id some).map Reader.Answer.next id = _
    rw [read]
    rfl
  rw [answers, first]

end Source

end Lidar
