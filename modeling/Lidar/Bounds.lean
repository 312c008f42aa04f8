import Lidar.Axes
import Lidar.Binary64

/-!
# Bounding boxes
-/
namespace Lidar

structure Bounds where
  min : Axes Binary64
  max : Axes Binary64
  deriving DecidableEq, Repr, BEq

namespace Bounds

def zero : Bounds := ⟨.all .zero, .all .zero⟩

/-- The box that every point enlarges: its least corner is past everything, and its greatest before
everything. -/
def inverted : Bounds := ⟨.all .infinity, .all .negInfinity⟩

/-- The lesser of a bound and a coordinate. The bound stays if the coordinate is not a number. -/
def lower (bound c : Binary64) : Binary64 := if c < bound then c else bound

def upper (bound c : Binary64) : Binary64 := if bound < c then c else bound

def grow (b : Bounds) (p : Axes Binary64) : Bounds :=
  ⟨b.min.zipWith lower p, b.max.zipWith upper p⟩

def isEmpty (b : Bounds) : Bool :=
  decide (b.max.x < b.min.x) || decide (b.max.y < b.min.y) || decide (b.max.z < b.min.z)

end Bounds

end Lidar
