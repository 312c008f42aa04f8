import Lidar.Proofs.Point.Record
import Lidar.Proofs.Success

/-!
# Points and their records

A point that fits a header becomes a record, and its record is read as the same point, except that
its coordinates are those of the stored integers and that zeros follow its extra bytes. Nothing is
asked of the arithmetic of transforms for that.
-/
namespace Lidar.Point

/-- How a point is read that was written under these transforms in this format. -/
structure ReadsAs (t : Axes Transform) (f : Format) (p q : Point) : Prop where
  x : ∃ n, t.x.inverse p.position.x = .ok n ∧ q.position.x = t.x.direct n
  y : ∃ n, t.y.inverse p.position.y = .ok n ∧ q.position.y = t.y.direct n
  z : ∃ n, t.z.inverse p.position.z = .ok n ∧ q.position.z = t.z.direct n
  extraBytes : q.extraBytes =
    p.extraBytes ++ Bytes.fill (f.extraBytes.toNat - p.extraBytes.length) 0
  others : q = { p with position := q.position, extraBytes := q.extraBytes }

def recordAt (p : Point) (n : Axes Int32) : Record where
  x := n.x
  y := n.y
  z := n.z
  intensity := p.intensity
  flags := p.flags
  classification := p.classification.byte
  scanAngle := p.scanAngle.rank
  userData := p.userData
  pointSourceId := p.pointSourceId
  gpsTime? := p.gpsTime?
  color? := p.color?
  extraBytes := p.extraBytes

theorem checkReturn_eq_ok {field : ReturnField} {n : UInt8} :
    checkReturn field n = .ok () ↔ n ≤ 7 := by
  unfold checkReturn
  by_cases h : 7 < n
  · simp [h, refuse, UInt8.not_le.2 h]
  · simp [h, UInt8.not_lt.1 h]

theorem toRecord_eq_ok {p : Point} {t : Axes Transform} {f : Format} {r : Record} :
    p.toRecord t f = .ok r ↔
      p.matchesFormat f = true ∧ p.returnNumber ≤ 7 ∧ p.numberOfReturns ≤ 7 ∧
      ∃ n : Axes Int32, t.x.inverse p.position.x = .ok n.x ∧ t.y.inverse p.position.y = .ok n.y ∧
        t.z.inverse p.position.z = .ok n.z ∧ p.recordAt n = r := by
  unfold toRecord
  simp only [Success.throw_guard_eq_ok, Success.bind_eq_ok, Success.pure_eq_ok, Bool.not_eq_true,
    Bool.not_eq_false']
  constructor
  · rintro ⟨fits, _, hr, _, hn, x, hx, y, hy, z, hz, rfl⟩
    exact ⟨fits, checkReturn_eq_ok.1 hr, checkReturn_eq_ok.1 hn, ⟨x, y, z⟩, hx, hy, hz, rfl⟩
  · rintro ⟨fits, hr, hn, n, hx, hy, hz, rfl⟩
    exact ⟨fits, (), checkReturn_eq_ok.2 hr, (), checkReturn_eq_ok.2 hn, n.x, hx, n.y, hy, n.z, hz,
      rfl⟩

private theorem unpack_flags : ∀ (r n : Fin 8) (direction edge : Bool),
    let returnNumber : UInt8 := UInt8.ofNat r.val
    let numberOfReturns : UInt8 := UInt8.ofNat n.val
    let flags : UInt8 := (returnNumber &&& (0x07 : UInt8)) |||
      ((numberOfReturns <<< (3 : UInt8)) &&& (0x38 : UInt8)) |||
      flagBits 0x40 direction ||| flagBits 0x80 edge
    flags &&& 0x07 = returnNumber ∧ (flags &&& 0x38) >>> 3 = numberOfReturns ∧
      (flags &&& 0x40 != 0) = direction ∧ (flags &&& 0x80 != 0) = edge := by
  decide +kernel

theorem unpack_pack {p : Point} (hr : p.returnNumber ≤ 7) (hn : p.numberOfReturns ≤ 7) :
    p.flags &&& 0x07 = p.returnNumber ∧ (p.flags &&& 0x38) >>> 3 = p.numberOfReturns ∧
      ScanDirection.ofBool (p.flags &&& 0x40 != 0) = p.scanDirection ∧
      (p.flags &&& 0x80 != 0) = p.isEdgeOfFlightLine := by
  have hr : p.returnNumber.toNat < 8 := Nat.lt_succ_of_le (UInt8.le_iff_toNat_le.1 hr)
  have hn : p.numberOfReturns.toNat < 8 := Nat.lt_succ_of_le (UInt8.le_iff_toNat_le.1 hn)
  obtain ⟨h1, h2, h3, h4⟩ := unpack_flags ⟨_, hr⟩ ⟨_, hn⟩ p.scanDirection.toBool p.isEdgeOfFlightLine
  simp only [UInt8.ofNat_toNat] at h1 h2 h3 h4
  refine ⟨h1, h2, ?_, h4⟩
  rw [← ScanDirection.ofBool_toBool p.scanDirection]
  exact congrArg ScanDirection.ofBool h3

theorem decode_encode {p : Point} {t : Axes Transform} {f : Format} {r : Record}
    (h : p.toRecord t f = .ok r) (rest : Bytes) :
    ∃ s q, Record.decoder f (r.encode f ++ rest) = some (s, rest) ∧ s.toPoint t = .ok q ∧
      p.ReadsAs t f q := by
  obtain ⟨fits, hr, hn, n, hx, hy, hz, rfl⟩ := toRecord_eq_ok.1 h
  simp only [matchesFormat, Bool.and_eq_true, beq_iff_eq, decide_eq_true_eq] at fits
  obtain ⟨⟨gpsTime, color⟩, length⟩ := fits
  obtain ⟨returnNumber, numberOfReturns, direction, edge⟩ := unpack_pack hr hn
  refine ⟨_, { p with
    position := t.zipWith Transform.direct n
    extraBytes := p.extraBytes.resize f.extraBytes.toNat },
    Record.decoder_encode gpsTime color rest, ?_, ?_⟩
  · simp [Record.toPoint, recordAt, ScanAngle.ofRank_rank, returnNumber, numberOfReturns,
      direction, edge, Record.position, bind, Except.bind, pure, Except.pure]
  · exact {
      x := ⟨n.x, hx, rfl⟩
      y := ⟨n.y, hy, rfl⟩
      z := ⟨n.z, hz, rfl⟩
      extraBytes := by simp [Bytes.resize, List.take_of_length_le length]
      others := rfl }

def StoredAt (t : Axes Transform) (p : Point) (c : Axes Binary64) : Prop :=
  ∀ i, ∃ n, (t.along i).inverse (p.position.along i) = .ok n ∧ c.along i = (t.along i).direct n

theorem ReadsAs.storedAt {p q : Point} {t : Axes Transform} {f : Format} (reads : p.ReadsAs t f q) :
    p.StoredAt t q.position
  | .x => reads.x
  | .y => reads.y
  | .z => reads.z

theorem storedAt_of_toRecord {p : Point} {t : Axes Transform} {f : Format} {r : Record}
    (stored : p.toRecord t f = .ok r) : p.StoredAt t (r.position t) := by
  obtain ⟨-, -, -, n, x, y, z, rfl⟩ := toRecord_eq_ok.1 stored
  intro i
  cases i with
  | x => exact ⟨n.x, x, rfl⟩
  | y => exact ⟨n.y, y, rfl⟩
  | z => exact ⟨n.z, z, rfl⟩

theorem StoredAt.unique {p : Point} {t : Axes Transform} {c d : Axes Binary64}
    (first : p.StoredAt t c) (second : p.StoredAt t d) : c = d := by
  apply Axes.ext_along
  intro i
  obtain ⟨n, stored, place⟩ := first i
  obtain ⟨k, same, place'⟩ := second i
  cases stored.symm.trans same
  rw [place, place']

theorem ReadsAs.unique {p q q' : Point} {t : Axes Transform} {f : Format}
    (first : p.ReadsAs t f q) (second : p.ReadsAs t f q') : q = q' := by
  have position := first.storedAt.unique second.storedAt
  rw [first.others, second.others, position, first.extraBytes, second.extraBytes]

theorem Record.toPoint_error {t : Axes Transform} {r : Record} {e : Error}
    (failed : r.toPoint t = .error e) :
    ¬ScanAngle.InRange r.scanAngle ∧ e = .invalidArgument (.scanAngle r.scanAngle) := by
  unfold Record.toPoint ScanAngle.ofRank at failed
  by_cases inRange : ScanAngle.InRange r.scanAngle
  · rw [dif_pos inRange] at failed
    cases failed
  · rw [dif_neg inRange] at failed
    cases failed
    exact ⟨inRange, rfl⟩

theorem Record.inRange_of_toPoint {t : Axes Transform} {r : Record} {p : Point}
    (made : r.toPoint t = .ok p) : ScanAngle.InRange r.scanAngle := by
  by_contra outside
  unfold Record.toPoint ScanAngle.ofRank at made
  rw [dif_neg outside] at made
  cases made

/-- The record makes a point whose coordinates are stored as they were. -/
structure Record.Exact (t : Axes Transform) (r : Record) : Prop where
  scanAngle : ScanAngle.InRange r.scanAngle
  x : t.x.inverse (t.x.direct r.x) = .ok r.x
  y : t.y.inverse (t.y.direct r.y) = .ok r.y
  z : t.z.inverse (t.z.direct r.z) = .ok r.z

instance (t : Axes Transform) (r : Record) : Decidable (r.Exact t) :=
  decidable_of_iff
    (ScanAngle.InRange r.scanAngle ∧ t.x.inverse (t.x.direct r.x) = .ok r.x ∧
      t.y.inverse (t.y.direct r.y) = .ok r.y ∧ t.z.inverse (t.z.direct r.z) = .ok r.z)
    ⟨fun ⟨scanAngle, x, y, z⟩ => ⟨scanAngle, x, y, z⟩,
      fun exact => ⟨exact.scanAngle, exact.x, exact.y, exact.z⟩⟩

def Repacks (flags : UInt8) : Prop :=
  let returnNumber := flags &&& 0x07
  let numberOfReturns := (flags &&& 0x38) >>> 3
  returnNumber ≤ 7 ∧ numberOfReturns ≤ 7 ∧
    (returnNumber &&& (0x07 : UInt8)) ||| ((numberOfReturns <<< (3 : UInt8)) &&& (0x38 : UInt8)) |||
      flagBits 0x40 (flags &&& 0x40 != 0) ||| flagBits 0x80 (flags &&& 0x80 != 0) = flags

instance (flags : UInt8) : Decidable (Repacks flags) := inferInstanceAs (Decidable (_ ∧ _ ∧ _))

private theorem repacks_ofNat : ∀ n : Fin 256, Repacks (UInt8.ofNat n.val) := by decide +kernel

theorem repacks (flags : UInt8) : Repacks flags := by
  have known := repacks_ofNat ⟨flags.toNat, flags.toNat_lt⟩
  rwa [UInt8.ofNat_toNat] at known

theorem toRecord_toPoint {t : Axes Transform} {f : Format} {r : Record} (fits : r.Fits f)
    (exact : r.Exact t) : ∃ p, r.toPoint t = .ok p ∧ p.toRecord t f = .ok r := by
  obtain ⟨returnNumber, numberOfReturns, flags⟩ := repacks r.flags
  have angle : ScanAngle.ofRank r.scanAngle = .ok ⟨r.scanAngle, exact.scanAngle⟩ :=
    dif_pos exact.scanAngle
  unfold Record.toPoint
  rw [angle]
  refine ⟨_, rfl, toRecord_eq_ok.2 ⟨?_, returnNumber, numberOfReturns, ⟨r.x, r.y, r.z⟩, exact.x,
    exact.y, exact.z, ?_⟩⟩
  · simp only [matchesFormat, fits.gpsTime, fits.color, fits.extraBytes, beq_self_eq_true,
      Nat.le_refl, decide_true, Bool.and_self]
  · simp only [recordAt, Point.flags, ScanDirection.toBool_ofBool, flags]

end Lidar.Point
