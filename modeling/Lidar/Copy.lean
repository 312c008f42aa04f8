import Lidar.Reader.Points
import Lidar.Writer

/-!
# Copying points

The points of a reader go to a writer one by one, until the reader has no more or either of the two
fails.
-/
namespace Lidar

structure Copied where
  count : Nat
  error? : Option Error
  reader : Reader
  writer : Writer

namespace Reader

def Points.copyUpTo : Nat → Points → Writer → Copied
  | 0, ps, w => ⟨0, none, ps.reader, w⟩
  | n + 1, ps, w =>
    match ps.next with
    | (none, ps) => ⟨0, none, ps.reader, w⟩
    | (some (.error e), ps) => ⟨0, some e, ps.reader, w⟩
    | (some (.ok p), ps) =>
      match Writer.writePoint p w with
      | .error e w => ⟨0, some e, ps.reader, w⟩
      | .ok () w =>
        let later := copyUpTo n ps w
        { later with count := later.count + 1 }

def copyTo (r : Reader) (w : Writer) : Copied := r.points.copyUpTo r.points.limit w

end Reader

end Lidar
