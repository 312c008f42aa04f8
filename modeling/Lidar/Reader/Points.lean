import Lidar.Reader

/-!
# Points one by one

The points that are left in a reader, taken one at a time. An error is the last item: after it
nothing more is read, although the reader itself could go on.
-/
namespace Lidar.Reader

def remaining (r : Reader) : Nat :=
  match r.cursor? with
  | some c => c.remaining r.header
  | none => 0

structure Points where
  reader : Reader
  failed : Bool

def points (r : Reader) : Points := ⟨r, false⟩

namespace Points

def next (ps : Points) : Option (Except Error Point) × Points :=
  if ps.failed then (none, ps)
  else
    match Reader.readPoint ps.reader with
    | .ok (some p) r => (some (.ok p), ⟨r, false⟩)
    | .ok none r => (none, ⟨r, false⟩)
    | .error e r => (some (.error e), ⟨r, true⟩)

def take : Nat → Points → List (Except Error Point) × Points
  | 0, ps => ([], ps)
  | n + 1, ps =>
    match ps.next with
    | (none, ps) => ([], ps)
    | (some item, ps) =>
      let (items, ps) := take n ps
      (item :: items, ps)

/-- The most items there can be: each point takes the reader one on, and one error may follow. -/
def limit (ps : Points) : Nat := ps.reader.remaining + 1

def takeAll (ps : Points) : List (Except Error Point) × Points := ps.take ps.limit

theorem next_of_failed {ps : Points} (h : ps.failed = true) : ps.next = (none, ps) := by
  simp [next, h]

end Points

end Lidar.Reader
