/-!
# Double-precision numbers as words

A file carries double-precision numbers as 64-bit words, and a word that is not a number must come
out again with the payload it went in with. `Binary64` is therefore the word itself. Order,
equality and rounding to an integer are exact and read the fields of the word; the four operations
round to nearest even.
-/
namespace Lidar

structure Binary64 where
  bits : UInt64
  deriving DecidableEq, Repr

namespace Binary64

def zero : Binary64 := ⟨0⟩

def infinity : Binary64 := ⟨0x7ff0000000000000⟩

def negInfinity : Binary64 := ⟨0xfff0000000000000⟩

instance : Inhabited Binary64 := ⟨zero⟩

def isNegative (x : Binary64) : Bool := decide (1 <<< 63 ≤ x.bits.toNat)

/-- The word without its sign bit. Words of one sign are ordered as these naturals are. -/
def magnitude (x : Binary64) : Nat := x.bits.toNat % (1 <<< 63)

def isNaN (x : Binary64) : Bool := decide (infinity.bits.toNat < x.magnitude)

def isFinite (x : Binary64) : Bool := decide (x.magnitude < infinity.bits.toNat)

def isZero (x : Binary64) : Bool := x.magnitude == 0

/-- The place of a number among all numbers; both zeros are at place zero. -/
def place (x : Binary64) : Int :=
  if x.isNegative then -(x.magnitude : Int) else x.magnitude

def lt (x y : Binary64) : Bool :=
  !x.isNaN && !y.isNaN && decide (x.place < y.place)

instance : LT Binary64 := ⟨fun x y => x.lt y = true⟩

instance (x y : Binary64) : Decidable (x < y) :=
  inferInstanceAs (Decidable (x.lt y = true))

/-- Numeric equality: the two zeros are equal, and a word that is not a number equals nothing. -/
def eq (x y : Binary64) : Bool :=
  !x.isNaN && !y.isNaN && x.place == y.place

instance : BEq Binary64 := ⟨eq⟩

def exponentField (x : Binary64) : Nat := x.magnitude / (1 <<< 52)

/-- The integer factor `m` of the magnitude `m * 2 ^ q`, with the implicit bit of a normal number. -/
def significand (x : Binary64) : Nat :=
  let fraction := x.magnitude % (1 <<< 52)
  if x.exponentField = 0 then fraction else 1 <<< 52 + fraction

def exponent (x : Binary64) : Int :=
  if x.exponentField = 0 then -1074 else (x.exponentField : Int) - 1075

/-- The nearest integer, a half going away from zero; none for an infinity or a word that is not a
number. -/
def nearestInt? (x : Binary64) : Option Int :=
  if x.isFinite then
    let m := x.significand
    let magnitude : Nat :=
      if 0 ≤ x.exponent then m <<< x.exponent.toNat
      else
        let unit := 1 <<< (-x.exponent).toNat
        (2 * m + unit) / (2 * unit)
    some (if x.isNegative then -(magnitude : Int) else magnitude)
  else none

def toFloat (x : Binary64) : Float := Float.ofBits x.bits

def ofFloat (x : Float) : Binary64 := ⟨x.toBits⟩

def ofInt32 (n : Int32) : Binary64 := ofFloat (Float.ofInt n.toInt)

instance : Add Binary64 := ⟨fun x y => ofFloat (x.toFloat + y.toFloat)⟩
instance : Sub Binary64 := ⟨fun x y => ofFloat (x.toFloat - y.toFloat)⟩
instance : Mul Binary64 := ⟨fun x y => ofFloat (x.toFloat * y.toFloat)⟩
instance : Div Binary64 := ⟨fun x y => ofFloat (x.toFloat / y.toFloat)⟩

theorem lt_iff {x y : Binary64} :
    x < y ↔ x.isNaN = false ∧ y.isNaN = false ∧ x.place < y.place := by
  show x.lt y = true ↔ _
  simp [lt, and_assoc]

theorem lt_irrefl (x : Binary64) : ¬ x < x := by
  simp [lt_iff]

theorem lt_trans {x y z : Binary64} (h : x < y) (k : y < z) : x < z := by
  rw [lt_iff] at *
  exact ⟨h.1, k.2.1, by omega⟩

end Binary64

end Lidar
