import Lidar.Proofs.Bounds
import Lidar.Proofs.Writer.Compressed
import Lidar.Proofs.Writer.Interrupted

/-!
# The bounds of a file

A tally grows its box by the coordinates that the integers of a record stand for, which are those
that a reader makes of it, and not by the ones that the caller has given. So the bounds that a writer
closes with are the least box around the points that are read.
-/
namespace Lidar

namespace Tally

variable {transforms : Axes Transform} {records : List Point.Record}

theorem bounds_counted :
    (counted transforms records).bounds = .around (records.map (·.position transforms)) := by
  rw [counted, Bounds.around, List.foldl_map]
  exact (List.foldl_hom Tally.bounds fun _ _ => rfl).symm

theorem points_counted_ne_zero (some : records ≠ []) (small : records.length < UInt64.size) :
    (counted transforms records).points ≠ 0 := by
  intro zero
  rw [points_counted] at zero
  have length := congrArg UInt64.toNat zero
  rw [UInt64.toNat_ofNat_of_lt' small] at length
  exact some (List.eq_nil_of_length_eq_zero length)

theorem bounds_finalize (h : Header) {positions : List (Axes Binary64)} (some : records ≠ [])
    (small : records.length < UInt64.size) (any : positions ≠ [])
    (tight : (counted transforms records).bounds.Tight positions) :
    (h.finalize (counted transforms records).points (counted transforms records).byReturn
      (counted transforms records).bounds).bounds = (counted transforms records).bounds := by
  have points := beq_eq_false_iff_ne.2 (@points_counted_ne_zero transforms records some small)
  unfold Header.finalize
  simp only [points, tight.isEmpty any, Bool.or_self, Bool.false_eq_true, if_false]

end Tally

namespace Writer

variable {m : Medium} {h : Header} {codec? : Option Codec} {w : Writer}
  {records : List Point.Record} {points : List Point}

/-- The bounds are the box of the points as they are read: they hold all of them, each end is the
coordinate of one, and without any they are zero. -/
structure Boxes (t : Axes Transform) (accepted : List Point) (b : Bounds) : Prop where
  none : accepted = [] → b = .zero
  tight : accepted ≠ [] → ∃ seen, List.Forall₂ (Point.StoredAt t) accepted seen ∧ b.Tight seen

def Numeric (t : Axes Transform) (accepted : List Point) : Prop :=
  ∀ p ∈ accepted, ∀ c, p.StoredAt t c → ∀ i, (c.along i).isNaN = false

theorem Boxes.holds {t : Axes Transform} {f : Format} {b : Bounds} {qs : List Point}
    (boxes : Boxes t points b) (reads : List.Forall₂ (Point.ReadsAs t f) points qs) :
    ∀ q ∈ qs, b.Holds q.position := by
  cases reads with
  | nil => simp
  | @cons p q points qs first later =>
    obtain ⟨seen, stored, tight⟩ := boxes.tight (List.cons_ne_nil _ _)
    have same : (q :: qs).map Point.position = seen := by
      have placed : List.Forall₂ (Point.StoredAt t) (p :: points) ((q :: qs).map Point.position) :=
        List.forall₂_map_right_iff.2
          ((List.Forall₂.cons first later).imp fun _ _ reads => reads.storedAt)
      exact List.right_unique_forall₂' (fun _ _ _ one other => one.unique other) placed stored
    intro q' mem
    apply tight.holds
    rw [← same]
    exact List.mem_map_of_mem mem

theorem Stored.storedAt (stored : Stored h points records) :
    List.Forall₂ (Point.StoredAt h.transforms) points
      (records.map (·.position h.transforms)) :=
  List.forall₂_map_right_iff.2 (stored.imp fun _ _ record => Point.storedAt_of_toRecord record)

theorem Stored.tight (stored : Stored h points records) (some : records ≠ [])
    (numeric : Numeric h.transforms points) :
    (Tally.counted h.transforms records).bounds.Tight (records.map (·.position h.transforms)) := by
  rw [Tally.bounds_counted]
  apply Bounds.tight_around (by simpa using some)
  intro c mem
  obtain ⟨p, accepted, place⟩ := exists_of_mem_right stored.storedAt c mem
  exact numeric p accepted c place

theorem boxes_finalHeader (stored : Stored h points records) (small : points.length < UInt64.size)
    (numeric : Numeric h.transforms points) :
    Boxes h.transforms points (finalHeader h records).bounds := by
  have length := stored.length_eq
  rw [length] at small
  constructor
  · intro none
    rw [none] at stored
    cases stored
    rfl
  · intro filled
    have some : records ≠ [] := by
      apply List.ne_nil_of_length_pos
      rw [← length]
      exact List.length_pos_of_ne_nil filled
    have tight := stored.tight some numeric
    refine ⟨_, stored.storedAt, ?_⟩
    rw [finalHeader, Tally.bounds_finalize h some small (by simpa using some) tight]
    exact tight

theorem boxes_of_turns (hw : h.WellFormed) (opened : (onMedium m h codec?).1.result = .ok w)
    (turns : List Turn) (small : (w.turns turns).1.length < UInt64.size)
    (numeric : Numeric h.transforms (w.turns turns).1) :
    Boxes h.transforms (w.turns turns).1 (w.turns turns).2.close.2.header.bounds := by
  have transforms : w.header.transforms = h.transforms := by
    rw [header_of_onMedium hw opened]
    rfl
  obtain ⟨hw', writable, -, before⟩ := counted_of_onMedium hw opened
  obtain ⟨records, stored, counted⟩ := turns_counted before turns
  rw [(close_counted counted hw' writable).1]
  rw [← transforms] at numeric ⊢
  exact boxes_finalHeader stored small numeric

def ReadsInside (m : Medium) (codec? : Option Codec) (b : Bounds) (n : Nat) : Prop :=
  ∃ (r : Reader) (qs : List Point), (Reader.ofMedium m codec?).result = .ok r ∧
    r.header.bounds = b ∧ qs.length = n ∧
    (r.answers (List.replicate (n + 1) .readPoint)).1 =
      qs.map (fun q => .next (.ok (some q))) ++ [.next (.ok none)] ∧
    ∀ q ∈ qs, b.Holds q.position

theorem readsInside_of_calls (hw : h.WellFormed) (room : h.HasRoom) (plain : h.compressed = false)
    (opened : (onMedium m h codec?).1.result = .ok w) (calls : List Call)
    (small : (w.turns (calls.map .call)).1.length < UInt64.size)
    (numeric : Numeric h.transforms (w.turns (calls.map .call)).1) {left : Medium}
    (closed : (w.turns (calls.map .call)).2.intoMedium.1.result = .ok left)
    (codec'? : Option Codec) :
    ReadsInside { Medium.ofBytes left.bytes with position := left.position } codec'?
      (w.turns (calls.map .call)).2.close.2.header.bounds
      (w.turns (calls.map .call)).1.length := by
  have hw' := plainHeader_wellFormed hw codec?
  obtain ⟨writable, records, torn, stored, counted, holds⟩ :=
    holds_of_calls hw room plain opened calls small
  have boxes := boxes_finalHeader stored small numeric
  have small' := small
  rw [stored.length_eq] at small'
  have opens := opens_of_holds hw' room writable plain holds counted small' closed
  obtain ⟨qs, same, answers⟩ := opens.answers stored
  rw [(close_counted counted hw' writable).1]
  exact ⟨_, qs, opens.opened codec'?, rfl, same.length_eq.symm, answers, boxes.holds same⟩

theorem readsInside_of_compressed {codec : Codec} (lawful : codec.Lawful) (reliable : m.Reliable)
    (fresh : m.rest = []) (hw : h.WellFormed) (room : h.HasRoom) (compressed : h.compressed = true)
    (opened : (onMedium m h (some codec)).1.result = .ok w) (calls : List Call)
    (small : (w.turns (calls.map .call)).1.length ≤ Header.maxCount)
    (numeric : Numeric h.transforms (w.turns (calls.map .call)).1) :
    ∃ left, (w.turns (calls.map .call)).2.intoMedium.1.result = .ok left ∧
      ReadsInside left (some codec) (w.turns (calls.map .call)).2.close.2.header.bounds
        (w.turns (calls.map .call)).1.length := by
  obtain ⟨v, valid, made, writable, held⟩ := held_of_onMedium reliable hw compressed opened
  have hw' := codedHeader_wellFormed hw codec valid
  rw [held_keeps.turns_calls held] at small numeric ⊢
  obtain ⟨records, stored, held⟩ := held_keeps.run held calls
  rw [List.nil_append] at held
  have boxes := boxes_finalHeader stored (Nat.lt_of_le_of_lt small (by decide)) numeric
  obtain ⟨data, encoded, decoded⟩ :=
    lawful.decode (finalHeader (codedHeader h codec v valid) records) (encodeAll h.format records)
  obtain ⟨left, leaves⟩ := held.leaves hw' writable fresh encoded
  have small' := small
  rw [stored.length_eq] at small'
  obtain ⟨qs, same, r, read, header, answers⟩ :=
    leaves.reads_coded held.toCounted hw' room writable compressed small' stored decoded
  rw [leaves.header, same.length_eq]
  exact ⟨left, leaves.closed, r, qs, read, congrArg Header.bounds header, rfl, answers,
    boxes.holds same⟩

/-- A writer closes with the box of the points that it has accepted, whatever else it was called
with and whatever its medium has refused. As long as the size of the header counts all of its
padding, a reader of what the writer leaves has these bounds and finds all points inside; if they are
compressed, it is the codec and the medium that must not fail. -/
theorem bounds_of_calls {h : Header} (made : h.Made) {m : Medium} {codec? : Option Codec}
    {w : Writer} (opened : (onMedium m h codec?).1.result = .ok w) (calls : List Call)
    (small : (w.turns (calls.map .call)).1.length < UInt64.size)
    (numeric : Numeric h.transforms (w.turns (calls.map .call)).1) :
    let accepted := (w.turns (calls.map .call)).1
    let last := (w.turns (calls.map .call)).2
    let bounds := last.close.2.header.bounds
    Boxes h.transforms accepted bounds ∧
      (h.HasRoom → h.compressed = false → ∀ left, last.intoMedium.1.result = .ok left → ∀ codec'?,
        ReadsInside { Medium.ofBytes left.bytes with position := left.position } codec'? bounds
          accepted.length) ∧
      (h.HasRoom → h.compressed = true → ∀ codec, codec? = some codec → codec.Lawful → m.Reliable →
        m.rest = [] → accepted.length ≤ Header.maxCount →
        ∃ left, last.intoMedium.1.result = .ok left ∧
          ReadsInside left codec? bounds accepted.length) := by
  intro accepted last bounds
  have hw := made.wellFormed
  refine ⟨boxes_of_turns hw opened _ small numeric, ?_, ?_⟩
  · intro room plain left closed codec'?
    exact readsInside_of_calls hw room plain opened calls small numeric closed codec'?
  · rintro room compressed codec rfl lawful reliable fresh few
    exact readsInside_of_compressed lawful reliable fresh hw room compressed opened calls few numeric

def aside : Point :=
  { sample with position := ⟨⟨0x4014000000000000⟩, ⟨0xbff0000000000000⟩, ⟨0xc008000000000000⟩⟩ }

theorem aside_stored : aside.toRecord (.all .default) ⟨false, false, 0⟩ =
    .ok (aside.recordAt ⟨500, -100, -300⟩) := by
  rfl

theorem bounds_of_calls_sample :
    ∃ (w : Writer) (calls : List Call) (left : Medium),
      (onMedium (.ofBytes []) (.empty 2017 1) none).1.result = .ok w ∧
      (w.turns (calls.map .call)).1 = [sample, aside] ∧
      (w.turns (calls.map .call)).1.length < UInt64.size ∧
      Numeric (.all .default) (w.turns (calls.map .call)).1 ∧
      (w.turns (calls.map .call)).2.intoMedium.1.result = .ok left ∧
      let bounds := (w.turns (calls.map .call)).2.close.2.header.bounds
      bounds = ⟨⟨⟨0x3ff0000000000000⟩, ⟨0xbff0000000000000⟩, ⟨0xc008000000000000⟩⟩,
        ⟨⟨0x4014000000000000⟩, ⟨0x4000000000000000⟩, ⟨0xc008000000000000⟩⟩⟩ ∧
      Boxes (.all .default) [sample, aside] bounds ∧
      ReadsInside { Medium.ofBytes left.bytes with position := left.position } none bounds 2 := by
  let far : Axes Binary64 := ⟨.infinity, .zero, .zero⟩
  let high : Axes Binary64 := ⟨.zero, .zero, ⟨0x4059000000000000⟩⟩
  let calls : List Call := [.writePoint { sample with position := far }, .writePoint sample,
    .writePoints [sample, { sample with position := high, gpsTime? := some .zero }],
    .writePoint aside]
  have ran : ((onMedium (.ofBytes []) (.empty 2017 1) none).1.result.toOption.map fun w =>
      ((w.turns (calls.map .call)).1, (w.turns (calls.map .call)).2.close.2.header.bounds,
        (w.turns (calls.map .call)).2.intoMedium.1.result.toOption.isSome)) =
      some ([sample, aside], ⟨⟨⟨0x3ff0000000000000⟩, ⟨0xbff0000000000000⟩, ⟨0xc008000000000000⟩⟩,
        ⟨⟨0x4014000000000000⟩, ⟨0x4000000000000000⟩, ⟨0xc008000000000000⟩⟩⟩, true) := by
    decide +kernel
  obtain ⟨w, opened, found⟩ := Option.map_eq_some_iff.1 ran
  simp only [Prod.mk.injEq, Option.isSome_iff_exists, Success.toOption_eq_some] at opened found
  obtain ⟨accepted, bounds, left, closed⟩ := found
  have small : (w.turns (calls.map .call)).1.length < UInt64.size := by
    rw [accepted]
    decide
  have numeric : Numeric (.all .default) (w.turns (calls.map .call)).1 := by
    rw [accepted, Numeric, List.forall_mem_cons, List.forall_mem_singleton]
    constructor
    · intro c place i
      rw [place.unique (Point.storedAt_of_toRecord sample_stored)]
      cases i <;> decide +kernel
    · intro c place i
      rw [place.unique (Point.storedAt_of_toRecord aside_stored)]
      cases i <;> decide +kernel
  obtain ⟨boxes, reads, -⟩ := bounds_of_calls (.reachable (.empty 2017 1)) opened calls small numeric
  have inside := reads (Header.empty_hasRoom 2017 1) rfl left closed none
  rw [accepted] at boxes inside
  exact ⟨w, calls, left, opened, accepted, small, numeric, closed, bounds, boxes, inside⟩

/-- The padding has one byte more than the size can count, so that the point of a box is read outside
of it. -/
theorem outside_behind_padding :
    ∃ (h : Header) (w : Writer) (calls : List Call) (left : Medium) (r : Reader) (q : Point),
      (Header.ofBlock Header.crowded).result = .ok h ∧ h.compressed = false ∧
      (onMedium (.ofBytes []) h none).1.result = .ok w ∧
      (w.turns (calls.map .call)).1 = [sample] ∧
      Numeric h.transforms (w.turns (calls.map .call)).1 ∧
      (w.turns (calls.map .call)).2.intoMedium.1.result = .ok left ∧
      (Reader.ofMedium { Medium.ofBytes left.bytes with position := left.position } none).result =
        .ok r ∧
      (r.answers [.readPoint, .readPoint]).1 = [.next (.ok (some q)), .next (.ok none)] ∧
      ¬(w.turns (calls.map .call)).2.close.2.header.bounds.Holds q.position := by
  obtain ⟨padding, full, made⟩ := Header.result_ofBlock_crowded
  let h := (Header.padded padding .empty).overrun [0] .empty
  obtain ⟨w, w₁, opened, taken, ran, taken₁⟩ := run_overrun full (Medium.reliable_ofBytes [])
  rw [← taken_keeps.turns_calls taken] at ran
  have numeric : Numeric (.all .default) [sample] := by
    rw [Numeric, List.forall_mem_singleton]
    intro c place i
    rw [place.unique (Point.storedAt_of_toRecord sample_stored)]
    cases i <;> decide +kernel
  obtain ⟨left, closed, reliable, read⟩ := misread_of_taken full taken₁
  let source : Medium := { Medium.ofBytes left.bytes with position := left.position }
  obtain ⟨r, q, opens, -, answers, -, place⟩ :=
    read source ((Medium.reliable_ofBytes _).put _ _) (Medium.bytes_ofBytes left.bytes) rfl
  obtain ⟨hw, writable⟩ := Header.overrun_padded_sound full
  have bounds : w₁.close.2.header.bounds =
      (finalHeader (.empty 2017 1) [sample.recordAt ⟨100, 200, -300⟩]).bounds := by
    rw [(close_counted taken₁.counted hw writable).1]
    rfl
  refine ⟨h, w, [.writePoint sample], left, r, q, made, rfl, opened, by rw [ran], ?_, ?_, opens none,
    answers, ?_⟩
  · rw [ran]
    exact numeric
  · rw [ran]
    exact closed
  · rw [ran, bounds, place]
    intro inside
    have high := (inside .x).2
    revert high
    decide +kernel

end Writer

end Lidar
