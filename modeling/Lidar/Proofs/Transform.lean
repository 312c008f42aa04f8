import Lidar.Proofs.Binary64.Arithmetic
import Lidar.Proofs.Point.Stored
import Lidar.Proofs.Reader.Refinement
import Lidar.Proofs.Writer.Run

/-!
# Stored integers that come back

A stored integer is made into a coordinate with two roundings, and is found again with two more.
The offset decides how much of the integer they leave: a coordinate is no finer than its neighbours
among the words, which are far apart where the offset is large. As long as the offset is less than
`2 ^ 52` times the scale, a little less, the integer comes back.
-/
namespace Lidar

namespace Transform

open Binary64

variable {t : Transform}

/-- The coordinates of neighbouring stored integers can be told from each other, and none of them is
out of range. -/
structure Resolves (t : Transform) : Prop where
  offset : |t.offset.value| ≤ (2 ^ 52 - 2 ^ 34) * |t.scale.value|
  range : 2 ^ 31 * |t.scale.value| + |t.offset.value| ≤ 2 ^ 1023

instance (t : Transform) : Decidable t.Resolves :=
  decidable_of_iff
    (|t.offset.value| ≤ (2 ^ 52 - 2 ^ 34) * |t.scale.value| ∧
      2 ^ 31 * |t.scale.value| + |t.offset.value| ≤ 2 ^ 1023)
    ⟨fun ⟨offset, range⟩ => ⟨offset, range⟩, fun resolves => ⟨resolves.offset, resolves.range⟩⟩

theorem abs_toInt_le (n : Int32) : |(n.toInt : ℚ)| ≤ 2 ^ 31 := by
  have low := n.le_toInt
  have high := n.toInt_lt
  have : |n.toInt| ≤ 2 ^ 31 := abs_le.2 (by omega)
  exact_mod_cast this

theorem abs_product_le (t : Transform) (n : Int32) :
    |t.scale.value * n.toInt| ≤ 2 ^ 31 * |t.scale.value| := by
  rw [abs_mul, mul_comm]
  exact mul_le_mul_of_nonneg_right (abs_toInt_le n) (abs_nonneg _)

/-- The three roundings that lead to a coordinate and back to its part without the offset. -/
structure Passes (t : Transform) (n : Int32) (p : Binary64) : Prop where
  product : Nearest (t.scale.value * n.toInt) p
  coordinate : Nearest (p.value + t.offset.value) (t.direct n)
  difference : Nearest ((t.direct n).value - t.offset.value) (t.direct n - t.offset)

theorem passes (usable : t.Usable) (resolves : t.Resolves) (n : Int32) :
    t.Passes n (t.scale * ofInt32 n) := by
  obtain ⟨finite, -, offsetFinite⟩ := usable
  have size := t.abs_product_le n
  have scale := abs_nonneg t.scale.value
  have offset := abs_nonneg t.offset.value
  have range : 2 ^ 31 * |t.scale.value| + |t.offset.value| ≤ 2 * 2 ^ 1022 :=
    resolves.range.trans_eq (pow_succ' 2 1022)
  have product : Nearest (t.scale.value * n.toInt) (t.scale * ofInt32 n) := by
    rw [← value_ofInt32] at size ⊢
    apply nearest_mul finite (isFinite_ofInt32 n)
    generalize (2 : ℚ) ^ 1022 = bound at range ⊢
    linarith
  have first := product.near ((onGrid_value _).mul_int _)
  have size₁ := abs_sub_abs_le_abs_sub (t.scale * ofInt32 n).value (t.scale.value * n.toInt)
  have size₂ := abs_add_le (t.scale * ofInt32 n).value t.offset.value
  have coordinate : Nearest ((t.scale * ofInt32 n).value + t.offset.value) (t.direct n) := by
    apply nearest_add product.finite offsetFinite
    generalize (2 : ℚ) ^ 1022 = bound at range ⊢
    linarith
  have second := coordinate.near ((onGrid_value _).add (onGrid_value _))
  refine ⟨product, coordinate, nearest_sub coordinate.finite offsetFinite ?_⟩
  -- the offset is taken away again before it can count a second time
  have size₃ := abs_add_le (t.scale * ofInt32 n).value
    ((t.direct n).value - ((t.scale * ofInt32 n).value + t.offset.value))
  rw [← add_sub_assoc, add_sub_add_left_eq_sub] at size₃
  generalize (2 : ℚ) ^ 1022 = bound at range ⊢
  linarith

/-- How far the three roundings lead away, for an offset `o` that is not too large. -/
theorem drift_le {s o x p w d : ℚ} (far : |o| ≤ (2 ^ 52 - 2 ^ 34) * |s|)
    (size : |x| ≤ 2 ^ 31 * |s|) (first : |p - x| ≤ |x| / 2 ^ 53)
    (second : |w - (p + o)| ≤ |p + o| / 2 ^ 53) (third : |d - (w - o)| ≤ |w - o| / 2 ^ 53) :
    |d - x| ≤ (1 / 2 - 1 / 2 ^ 20) * |s| := by
  have scale := abs_nonneg s
  have product : |p| ≤ |x| + |p - x| := by linarith [abs_sub_abs_le_abs_sub p x]
  have coordinate : |p + o| ≤ |p| + |o| := abs_add_le p o
  have rest : |w - o| ≤ |p| + |w - (p + o)| := by
    have := abs_add_le p (w - (p + o))
    rwa [← add_sub_assoc, add_sub_add_left_eq_sub] at this
  calc |d - x| = |d - (w - o) + (w - (p + o)) + (p - x)| := by ring_nf
    _ ≤ |d - (w - o)| + |w - (p + o)| + |p - x| := abs_add_three _ _ _
    _ ≤ (1 / 2 - 1 / 2 ^ 20) * |s| := by linarith

theorem drift (usable : t.Usable) (resolves : t.Resolves) (n : Int32) :
    |(t.direct n - t.offset).value - t.scale.value * n.toInt| ≤
      (1 / 2 - 1 / 2 ^ 20) * |t.scale.value| := by
  have passes := passes usable resolves n
  exact drift_le resolves.offset (t.abs_product_le n)
    (passes.product.near ((onGrid_value _).mul_int _))
    (passes.coordinate.near ((onGrid_value _).add (onGrid_value _)))
    (passes.difference.near ((onGrid_value _).sub (onGrid_value _)))

theorem inverse_direct (usable : t.Usable) (resolves : t.Resolves) (n : Int32) :
    t.inverse (t.direct n) = .ok n := by
  have near := drift usable resolves n
  have finite := (passes usable resolves n).difference.finite
  obtain ⟨scaleFinite, some, -⟩ := usable
  have some := value_ne_zero some
  have ratio : |(t.direct n - t.offset).value / t.scale.value - n.toInt| ≤ 1 / 2 - 1 / 2 ^ 20 := by
    rw [div_sub' some, abs_div, div_le_iff₀ (abs_pos.2 some)]
    exact near
  have size : |(t.direct n - t.offset).value / t.scale.value| ≤ 2 ^ 31 + 1 := by
    have := abs_sub_abs_le_abs_sub ((t.direct n - t.offset).value / t.scale.value) n.toInt
    linarith [abs_toInt_le n]
  have quotient : Nearest ((t.direct n - t.offset).value / t.scale.value)
      ((t.direct n - t.offset) / t.scale) := by
    apply nearest_div finite scaleFinite some
    apply small_of_few
    linarith
  have close := quotient.close
  have found : ((t.direct n - t.offset) / t.scale).nearestInt? = Option.some n.toInt := by
    apply nearestInt?_eq quotient.finite
    have least : (2 : ℚ) ^ (-1074 : ℤ) ≤ 2 ^ (-53 : ℤ) :=
      zpow_le_zpow_right₀ (by norm_num) (by norm_num)
    have := abs_sub_le ((t.direct n - t.offset) / t.scale).value
      ((t.direct n - t.offset).value / t.scale.value) n.toInt
    generalize (2 : ℚ) ^ (-1074 : ℤ) = unit at least close
    norm_num at least
    linarith
  have inside : Int32.minValue.toInt ≤ n.toInt ∧ n.toInt ≤ Int32.maxValue.toInt :=
    ⟨n.minValue_le_toInt, n.toInt_le⟩
  unfold inverse inverse?
  simp only [found, inside, and_self, if_true, Int32.ofInt_toInt]

end Transform

theorem Medium.fits_of_read {operation : Operation} {f : Format} {m m' : Medium} {r : Point.Record}
    (taken : Medium.read operation f.length (Point.Record.decoder f) m = .ok r m') : r.Fits f := by
  unfold Medium.read at taken
  split at taken
  · next found decoded =>
    cases taken
    exact ((Point.Record.inverts f).complete decoded).1
  · cases taken

theorem Cursor.readPoint_eq_ok {h : Header} {c c' : Cursor} {p : Point}
    (read : readPoint h c = .ok (some p) c') :
    ∃ r, Medium.read .readingPoint h.format.length (Point.Record.decoder h.format) c.medium =
        .ok r c'.medium ∧
      r.toPoint h.transforms = .ok p := by
  by_cases last : h.numberOfPoints.toNat ≤ c.index
  · rw [readPoint_last last] at read
    cases read
  · have more := Nat.lt_of_not_le last
    cases taken : Medium.read .readingPoint h.format.length (Point.Record.decoder h.format)
        c.medium with
    | error e m =>
      rw [readPoint_error more taken] at read
      cases read
    | ok r m =>
      have settled := settle_readPoint more taken
      rw [read] at settled
      cases made : r.toPoint h.transforms with
      | error e =>
        rw [made] at settled
        cases settled
      | ok q =>
        rw [made] at settled
        cases settled
        exact ⟨r, rfl, made⟩

namespace Transform

variable {t : Axes Transform}

theorem toRecord_of_toPoint (usable : ∀ i, (t.along i).Usable) (resolves : ∀ i, (t.along i).Resolves)
    {f : Format} {r : Point.Record} {p : Point} (fits : r.Fits f) (made : r.toPoint t = .ok p) :
    p.toRecord t f = .ok r := by
  have exact : r.Exact t := {
    scanAngle := Point.Record.inRange_of_toPoint made
    x := inverse_direct (usable .x) (resolves .x) r.x
    y := inverse_direct (usable .y) (resolves .y) r.y
    z := inverse_direct (usable .z) (resolves .z) r.z }
  obtain ⟨q, made', stored⟩ := Point.toRecord_toPoint fits exact
  cases made.symm.trans made'
  exact stored

/-- Under transforms that are not too coarse every stored integer comes back from its coordinate, and
a point that is read from a file goes into another one as the record it was made of. -/
theorem exact_of_resolves (accepted : ∀ i, (t.along i).validate = .ok ())
    (resolves : ∀ i, (t.along i).Resolves) :
    (∀ i n, (t.along i).inverse ((t.along i).direct n) = .ok n) ∧
      ∀ (h : Header) (c c' : Cursor) (p : Point), h.transforms = t →
        Cursor.readPoint h c = .ok (some p) c' →
        ∃ r, Medium.read .readingPoint h.format.length (Point.Record.decoder h.format) c.medium =
            .ok r c'.medium ∧
          ∀ w : Writer, w.header.transforms = t → w.header.format = h.format →
            w.isClosed = false → Writer.Room w.header.version (w.tally.points.toNat + 1) →
            Writer.writePoint p w = Writer.writeRecord r w := by
  have usable (i : Axis) : (t.along i).Usable := validate_eq_ok_iff.1 (accepted i)
  refine ⟨fun i => inverse_direct (usable i) (resolves i), ?_⟩
  rintro h c c' p rfl read
  obtain ⟨r, taken, made⟩ := Cursor.readPoint_eq_ok read
  refine ⟨r, taken, ?_⟩
  intro w transforms format isOpen room
  have stored : w.recordOf p = .ok r := by
    rw [Writer.recordOf, transforms, format]
    exact toRecord_of_toPoint usable resolves (Medium.fits_of_read taken) made
  unfold Writer.writePoint
  rw [Success.run_get_bind, Success.run_ofExcept_bind_ok (Writer.checkOpen_eq_ok.2 isOpen),
    Success.run_ofExcept_bind_ok ((Writer.checkCapacity_eq_ok_iff 1).2 room),
    Success.run_ofExcept_bind_ok stored]

def metric : Transform := ⟨⟨0x3f50624dd2f1a9fc⟩, ⟨0x411e848000000000⟩⟩

def surveyed : Header :=
  { Header.empty 2017 1 with transforms := .all metric, numberOfPoints := 1 }

def surveyedRecord : Point.Record :=
  ⟨84910666, -63678474, -1, 0, 0, 0, 0, 0, 0, none, none, []⟩

def atRecord : Cursor := ⟨.ofBytes (surveyedRecord.encode surveyed.format), 0, 0⟩

theorem exact_of_resolves_metric :
    (∀ n, metric.inverse (metric.direct n) = .ok n) ∧
      ∃ p c', Cursor.readPoint surveyed atRecord = .ok (some p) c' ∧
        Writer.writePoint p ⟨surveyed, .ofBytes [], 0, .zero, some .plain⟩ =
          Writer.writeRecord surveyedRecord ⟨surveyed, .ofBytes [], 0, .zero, some .plain⟩ := by
  have accepted : metric.validate = .ok () := validate_eq_ok_iff.2 (by decide +kernel)
  have resolves : metric.Resolves := by decide +kernel
  obtain ⟨exact, writes⟩ := @exact_of_resolves (.all metric)
    (fun i => by rwa [Axes.along_all]) (fun i => by rwa [Axes.along_all])
  refine ⟨exact .x, ?_⟩
  have there : (match Cursor.readPoint surveyed atRecord with
      | .ok found _ => found.isSome
      | .error _ _ => false) = true := by decide +kernel
  have known : (match Medium.read .readingPoint surveyed.format.length
        (Point.Record.decoder surveyed.format) atRecord.medium with
      | .ok r _ => some r
      | .error _ _ => none) = some surveyedRecord := by decide +kernel
  cases read : Cursor.readPoint surveyed atRecord with
  | error e c' =>
    rw [read] at there
    cases there
  | ok found c' =>
    rw [read] at there
    obtain ⟨p, rfl⟩ := Option.isSome_iff_exists.1 there
    obtain ⟨r, taken, written⟩ := writes surveyed atRecord c' p rfl read
    rw [taken] at known
    cases known
    exact ⟨p, c', rfl, written _ rfl rfl rfl (.inr (by decide))⟩

/-- An integer can be lost although its transform was accepted. -/
theorem stored_integer_lost :
    ∃ (t : Transform) (n : Int32), t.validate = .ok () ∧ t.inverse (t.direct n) ≠ .ok n := by
  let t : Transform := ⟨⟨0x3ff0000000000000⟩, ⟨0x4340000000000000⟩⟩
  have found : t.inverse? (t.direct 1) = some 0 := by decide +kernel
  refine ⟨t, 1, validate_eq_ok_iff.2 (by decide +kernel), ?_⟩
  unfold inverse
  rw [found]
  decide

/-- Neither bound can be raised by much: with an offset of `2 ^ 52` scales, or with coordinates up
to `2 ^ 1024`, an integer can be lost. -/
theorem resolves_sharp :
    (∃ (t : Transform) (n : Int32), t.validate = .ok () ∧
      |t.offset.value| < 2 ^ 52 * |t.scale.value| ∧
      2 ^ 31 * |t.scale.value| + |t.offset.value| ≤ 2 ^ 1023 ∧
      t.inverse (t.direct n) ≠ .ok n) ∧
    ∃ (t : Transform) (n : Int32), t.validate = .ok () ∧
      |t.offset.value| ≤ (2 ^ 52 - 2 ^ 34) * |t.scale.value| ∧
      2 ^ 31 * |t.scale.value| + |t.offset.value| ≤ 2 ^ 1024 ∧
      t.inverse (t.direct n) ≠ .ok n := by
  constructor
  · let t : Transform := ⟨⟨0x3ff0000000100000⟩, ⟨0x4330000000000000⟩⟩
    have found : t.inverse? (t.direct Int32.maxValue) = none := by decide +kernel
    refine ⟨t, Int32.maxValue, validate_eq_ok_iff.2 (by decide +kernel), by decide +kernel,
      by decide +kernel, ?_⟩
    unfold inverse
    rw [found]
    nofun
  · let t : Transform := ⟨⟨0x7e00000000000000⟩, .zero⟩
    have found : t.inverse? (t.direct Int32.minValue) = none := by decide +kernel
    refine ⟨t, Int32.minValue, validate_eq_ok_iff.2 (by decide +kernel), by decide +kernel,
      by decide +kernel, ?_⟩
    unfold inverse
    rw [found]
    nofun

end Transform

end Lidar
