import Lidar.Decimal.Shortest

/-!
# Positional text of a double

Numbers in messages are written in full, without an exponent: `0.01`, `100`, `-0`, and for the three
kinds of word that are not finite numbers `NaN`, `inf` and `-inf`.
-/
namespace Lidar.Decimal

/-- The decimal digits of `digits * 10 ^ power` with the point in its place. -/
def Scaled.positional (d : Scaled) : String :=
  let digits := (toString d.digits).toList
  if 0 ≤ d.power then String.ofList (digits ++ List.replicate d.power.toNat '0')
  else
    let places := (-d.power).toNat
    let filled := List.replicate (places + 1 - digits.length) '0' ++ digits
    let whole := filled.length - places
    String.ofList (filled.take whole ++ '.' :: filled.drop whole)

def magnitudeText (x : Binary64) : String :=
  if x.isZero then "0" else (Rounding.ofBinary64 x).shortest.positional

end Lidar.Decimal

namespace Lidar.Binary64

def text (x : Binary64) : String :=
  if x.isNaN then "NaN"
  else
    let magnitude := if x.isFinite then Decimal.magnitudeText x else "inf"
    if x.isNegative then "-" ++ magnitude else magnitude

end Lidar.Binary64
