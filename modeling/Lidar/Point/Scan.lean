import Lidar.Error

/-!
# The scanner's beam
-/
namespace Lidar

inductive ScanDirection where
  | rightToLeft
  | leftToRight
  deriving DecidableEq, Repr, Inhabited

namespace ScanDirection

def ofBool (leftToRight : Bool) : ScanDirection :=
  if leftToRight then .leftToRight else .rightToLeft

def toBool (d : ScanDirection) : Bool := d == .leftToRight

theorem toBool_ofBool (b : Bool) : (ofBool b).toBool = b := by cases b <;> rfl

theorem ofBool_toBool (d : ScanDirection) : ofBool d.toBool = d := by cases d <;> rfl

end ScanDirection

def ScanAngle.InRange (rank : Int8) : Prop := -90 ≤ rank ∧ rank ≤ 90

instance (rank : Int8) : Decidable (ScanAngle.InRange rank) :=
  inferInstanceAs (Decidable (_ ∧ _))

/-- The angle of the beam in whole degrees, from -90 to 90. -/
structure ScanAngle where
  rank : Int8
  inRange : ScanAngle.InRange rank
  deriving DecidableEq, Repr

namespace ScanAngle

def nadir : ScanAngle := ⟨0, by decide⟩

instance : Inhabited ScanAngle := ⟨nadir⟩

def ofRank (rank : Int8) : Except Error ScanAngle :=
  if h : InRange rank then .ok ⟨rank, h⟩ else refuse (.scanAngle rank)

theorem ofRank_rank (a : ScanAngle) : ofRank a.rank = .ok a := by
  simp [ofRank, a.inRange]

theorem rank_of_ofRank {rank : Int8} {a : ScanAngle} (h : ofRank rank = .ok a) : a.rank = rank := by
  unfold ofRank at h
  split at h
  · cases h; rfl
  · cases h

end ScanAngle

end Lidar
