import Lidar.Error

/-!
# Storing coordinates
-/
namespace Lidar.Transform

def Usable (t : Transform) : Prop :=
  t.scale.isFinite = true ∧ t.scale.isZero = false ∧ t.offset.isFinite = true

instance (t : Transform) : Decidable t.Usable := inferInstanceAs (Decidable (_ ∧ _ ∧ _))

/-- Refuses a transform that cannot store coordinates; the scale is looked at first. -/
def validate (t : Transform) : Except Error Unit :=
  if !t.scale.isFinite || t.scale.isZero then refuse (.scale t.scale)
  else if !t.offset.isFinite then refuse (.offset t.offset)
  else .ok ()

def inverse (t : Transform) (value : Binary64) : Except Error Int32 :=
  match t.inverse? value with
  | some n => .ok n
  | none => .error (.invalidCoordinate value t)

theorem validate_eq_ok_iff {t : Transform} : t.validate = .ok () ↔ t.Usable := by
  unfold validate Usable
  cases t.scale.isFinite <;> cases t.scale.isZero <;> cases t.offset.isFinite <;>
    simp [refuse]

end Lidar.Transform
