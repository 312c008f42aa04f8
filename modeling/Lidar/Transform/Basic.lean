import Lidar.Axes
import Lidar.Decimal.Positional

/-!
# Stored integers and world coordinates
-/
namespace Lidar

/-- A scale and an offset: a stored integer `n` stands for `n * scale + offset`. -/
structure Transform where
  scale : Binary64
  offset : Binary64
  deriving DecidableEq, Repr, BEq

namespace Transform

def default : Transform := ⟨⟨0x3f847ae147ae147b⟩, .zero⟩

instance : Inhabited Transform := ⟨default⟩

def direct (t : Transform) (n : Int32) : Binary64 := t.scale * .ofInt32 n + t.offset

def inverse? (t : Transform) (value : Binary64) : Option Int32 :=
  match ((value - t.offset) / t.scale).nearestInt? with
  | some n =>
    if Int32.minValue.toInt ≤ n ∧ n ≤ Int32.maxValue.toInt then some (Int32.ofInt n) else none
  | none => none

def text (t : Transform) : String := s!"`{t.scale.text} * x + {t.offset.text}`"

end Transform

end Lidar
