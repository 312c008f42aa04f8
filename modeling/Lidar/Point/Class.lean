import Lidar.Error

/-!
# Classes of points

A point's class is a code of five bits. Eleven codes have names and the others are reserved. One
byte holds the class with three flags.
-/
namespace Lidar

inductive Class where
  | createdNeverClassified
  | unclassified
  | ground
  | lowVegetation
  | mediumVegetation
  | highVegetation
  | building
  | lowPoint
  | modelKeyPoint
  | water
  | overlapPoints
  | reserved (code : UInt8)
  deriving DecidableEq, Repr, Inhabited

namespace Class

def mask : UInt8 := 0x1f

/-- The class with this code, of which only the five low bits are looked at. -/
def ofLowBits (code : UInt8) : Class :=
  match (code &&& mask).toNat with
  | 0 => createdNeverClassified
  | 1 => unclassified
  | 2 => ground
  | 3 => lowVegetation
  | 4 => mediumVegetation
  | 5 => highVegetation
  | 6 => building
  | 7 => lowPoint
  | 8 => modelKeyPoint
  | 9 => water
  | 12 => overlapPoints
  | _ => reserved (code &&& mask)

def ofCode (code : UInt8) : Except Error Class :=
  if mask < code then refuse (.classTooBig code) else .ok (ofLowBits code)

/-- The code of a class. A reserved class has one only if its number is a reserved code. -/
def code (c : Class) : Except Error UInt8 :=
  match c with
  | createdNeverClassified => .ok 0
  | unclassified => .ok 1
  | ground => .ok 2
  | lowVegetation => .ok 3
  | mediumVegetation => .ok 4
  | highVegetation => .ok 5
  | building => .ok 6
  | lowPoint => .ok 7
  | modelKeyPoint => .ok 8
  | water => .ok 9
  | overlapPoints => .ok 12
  | reserved n =>
    match ofCode n with
    | .error e => .error e
    | .ok known => if known = reserved n then .ok n else refuse (.classNotReserved n)

def name : Class → String
  | createdNeverClassified => "Created, never classified"
  | unclassified => "Unclassified"
  | ground => "Ground"
  | lowVegetation => "Low Vegetation"
  | mediumVegetation => "Medium Vegetation"
  | highVegetation => "High Vegetation"
  | building => "Building"
  | lowPoint => "Low Point (noise)"
  | modelKeyPoint => "Model Key-point (mass point)"
  | water => "Water"
  | overlapPoints => "Overlap Points"
  | reserved _ => "Reserved"

end Class

/-- The classification byte of a point: the class in its low five bits and three flags. -/
structure Classification where
  byte : UInt8
  deriving DecidableEq, Repr, Inhabited

inductive ClassFlag where
  /-- Made by other means than scanning. -/
  | synthetic
  /-- A key point of the model, to be kept when points are thinned out. -/
  | keyPoint
  /-- To be left out of processing. -/
  | withheld
  deriving DecidableEq, Repr

def ClassFlag.mask : ClassFlag → UInt8
  | .synthetic => 0x20
  | .keyPoint => 0x40
  | .withheld => 0x80

namespace Classification

def kind (c : Classification) : Class := .ofLowBits c.byte

def ofClass (c : Class) : Except Error Classification := return ⟨← c.code⟩

def withClass (c : Classification) (k : Class) : Except Error Classification :=
  return ⟨(c.byte &&& ~~~Class.mask) ||| (← k.code)⟩

def has (c : Classification) (f : ClassFlag) : Bool := c.byte &&& f.mask == f.mask

def withFlag (c : Classification) (f : ClassFlag) (on : Bool) : Classification :=
  ⟨if on then c.byte ||| f.mask else c.byte &&& ~~~f.mask⟩

end Classification

end Lidar
