import Lidar.Binary64

/-!
# The shortest decimal that reads back

A finite nonzero double is `m * 2 ^ q`. The reals that round to it form an interval around it, and
of the decimals in that interval the coarsest grid `10 ^ p` that has one gives the fewest digits. On
that grid the one nearest to the number is taken, and of two equally near the larger. All
comparisons are between naturals, so nothing is rounded on the way.
-/
namespace Lidar.Decimal

structure Scaled where
  digits : Nat
  power : Int
  deriving DecidableEq, Repr

/-- A positive number with the interval of reals that round to it, all in quarters of the unit
`2 ^ q`: the number is `4 * m`, the interval reaches down `below` and up two quarters, and its ends
belong to it when `closed`. -/
structure Rounding where
  m : Nat
  q : Int
  below : Nat
  closed : Bool
  deriving Repr

namespace Rounding

/-- The interval of a finite nonzero double. Below a power of two the next number is half as far,
and an even significand wins both of its ties. -/
def ofBinary64 (x : Binary64) : Rounding where
  m := x.significand
  q := x.exponent
  below := if x.significand = 1 <<< 52 then 1 else 2
  closed := x.significand % 2 == 0

def quarter (r : Rounding) (p : Int) : Nat := Nat.pow 10 (-p).toNat <<< (r.q - 2).toNat

def step (r : Rounding) (p : Int) : Nat := Nat.pow 10 p.toNat <<< (2 - r.q).toNat

/-- Whether the grid point `c * 10 ^ p` rounds to the number. -/
def contains (r : Rounding) (c : Nat) (p : Int) : Bool :=
  let low := (4 * r.m - r.below) * r.quarter p
  let high := (4 * r.m + 2) * r.quarter p
  let point := c * r.step p
  if r.closed then decide (low ≤ point) && decide (point ≤ high)
  else decide (low < point) && decide (point < high)

def onGrid? (r : Rounding) (p : Int) : Option Nat :=
  let value := 4 * r.m * r.quarter p
  let step := r.step p
  let lower := value / step
  let upper := lower + 1
  match lower != 0 && r.contains lower p, r.contains upper p with
  | true, true => some (if 2 * (value % step) < step then lower else upper)
  | true, false => some lower
  | false, true => some upper
  | false, false => none

def finest (r : Rounding) : Int := min r.q 0

def exact (r : Rounding) : Scaled where
  digits := r.m <<< r.q.toNat * Nat.pow 5 (-r.q).toNat
  power := r.finest

def search (r : Rounding) : Nat → Scaled
  | 0 => r.exact
  | n + 1 =>
    match r.onGrid? (r.finest + (n + 1 : Nat)) with
    | some c => ⟨c, r.finest + (n + 1 : Nat)⟩
    | none => search r n

/-- A grid that is coarser than the number: the number has at most `log2 m + 1 + q` bits before
the point, and a bit is less than `30103 / 100000` of a decimal place. -/
def coarsest (r : Rounding) : Int := ((r.m.log2 : Int) + 1 + r.q) * 30103 / 100000 + 1

def shortest (r : Rounding) : Scaled := r.search (r.coarsest - r.finest).toNat

end Rounding

end Lidar.Decimal
