/-!
# One value for each axis
-/
namespace Lidar

structure Axes (α : Type) where
  x : α
  y : α
  z : α
  deriving DecidableEq, Repr, BEq

inductive Axis where
  | x
  | y
  | z
  deriving DecidableEq, Repr

namespace Axes

def all (a : α) : Axes α := ⟨a, a, a⟩

def zipWith (f : α → β → γ) (a : Axes α) (b : Axes β) : Axes γ := ⟨f a.x b.x, f a.y b.y, f a.z b.z⟩

def along (a : Axes α) : Axis → α
  | .x => a.x
  | .y => a.y
  | .z => a.z

@[simp] theorem along_all (a : α) (i : Axis) : (all a).along i = a := by
  cases i <;> rfl

@[simp] theorem along_zipWith (f : α → β → γ) (a : Axes α) (b : Axes β) (i : Axis) :
    (a.zipWith f b).along i = f (a.along i) (b.along i) := by
  cases i <;> rfl

theorem ext_along {a b : Axes α} (h : ∀ i, a.along i = b.along i) : a = b := by
  have x : a.x = b.x := h .x
  have y : a.y = b.y := h .y
  have z : a.z = b.z := h .z
  cases a
  cases b
  simp_all

end Axes

end Lidar
