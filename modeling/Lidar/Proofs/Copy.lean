import Lidar.Copy
import Lidar.Proofs.Writer.Layout

/-!
# Copying a file

A header that was read can be written again, and a point that was read is accepted under the header
of its file when its coordinates come back from the arithmetic as they were stored. Then its new
record is the old one, byte for byte.
-/
namespace Lidar

namespace Source

variable {s : Source} {k n : Nat} {r : Reader} {w : Writer} {points : List Point}

theorem next_exact (regular : s.Regular) (more : k < s.count) (present : s.Present k)
    (exact : ∀ record, s.record? k = some record → record.Exact s.header.transforms) :
    ∃ p record, s.next k = (.ok (some p), k + 1) ∧
      p.toRecord s.header.transforms s.header.format = .ok record ∧
      s.bytes k = record.encode s.header.format := by
  obtain ⟨record, found, read⟩ := record?_of_present regular present
  obtain ⟨fits, bytes⟩ := (Point.Record.inverts s.header.format).complete read
  obtain ⟨p, made, stored⟩ := Point.toRecord_toPoint fits (exact record found)
  refine ⟨p, record, ?_, stored, ?_⟩
  · rw [next_of_lt more, take, found]
    simp only [made]
    rfl
  · rwa [List.drop_of_length_le (Nat.le_of_eq (length_bytes present)), List.append_nil] at bytes

theorem yields_exact (regular : s.Regular) (present : ∀ i < s.count, s.Present i)
    (exact : ∀ i < s.count, ∀ record, s.record? i = some record →
      record.Exact s.header.transforms) (left : k + n = s.count) :
    ∃ points records, s.Yields k points ∧ Writer.Stored s.header points records ∧
      records.length = n ∧
      Writer.encodeAll s.header.format records = (s.stream.drop (s.place k)).take (n * s.width) := by
  induction n generalizing k with
  | zero =>
    refine ⟨[], [], if_pos (Nat.le_of_eq left.symm), .nil, rfl, ?_⟩
    rw [Nat.zero_mul, List.take_zero]
    rfl
  | succ n ih =>
    have more : k < s.count := by omega
    obtain ⟨p, record, first, stored, bytes⟩ :=
      next_exact regular more (present k more) (exact k more)
    obtain ⟨points, records, later, storedLater, length, row⟩ := ih (k := k + 1) (by omega)
    refine ⟨p :: points, record :: records, ⟨first, later⟩, .cons stored storedLater,
      congrArg (· + 1) length, ?_⟩
    rw [Nat.succ_mul, Nat.add_comm, List.take_add, List.drop_drop, ← place_succ, ← row]
    show record.encode _ ++ _ = s.bytes k ++ _
    rw [bytes]
    rfl

theorem readPoint_of_next (regular : s.Regular) (agrees : s.Agrees r (some k))
    {found : Option Point} {k' : Nat} (next : s.next k = (.ok found, k')) :
    ∃ r', Reader.readPoint r = .ok found r' ∧ s.Agrees r' (some k') := by
  obtain ⟨result, after⟩ := agrees_readPoint regular agrees
  rw [whenOpen, next] at result after
  cases read : Reader.readPoint r with
  | error e r' =>
    rw [read] at result
    cases result
  | ok a r' =>
    rw [read] at result after
    cases result
    exact ⟨r', rfl, after⟩

theorem copyUpTo_of_yields (regular : s.Regular) (agrees : s.Agrees r (some k))
    (yields : s.Yields k points) (enough : points.length < n)
    (accepts : w.Accepts (points.map .writePoint)) :
    ∃ r', Reader.Points.copyUpTo n ⟨r, false⟩ w =
      ⟨points.length, none, r', (w.run (points.map .writePoint)).2⟩ := by
  induction points generalizing k n r w with
  | nil =>
    -- The place that is left over is for the read that finds no more points.
    obtain ⟨n, rfl⟩ := Nat.exists_eq_succ_of_ne_zero (Nat.ne_of_gt enough)
    obtain ⟨r', read, -⟩ := readPoint_of_next regular agrees yields
    simp only [Reader.Points.copyUpTo, Reader.Points.next, Bool.false_eq_true, if_false, read]
    exact ⟨r', rfl⟩
  | cons p points ih =>
    obtain ⟨n, rfl⟩ := Nat.exists_eq_succ_of_ne_zero (Nat.ne_of_gt (Nat.zero_lt_of_lt enough))
    obtain ⟨r', read, agrees'⟩ := readPoint_of_next regular agrees yields.1
    obtain ⟨accepted, acceptsLater⟩ := accepts
    cases wrote : Writer.writePoint p w with
    | error e w' =>
      change (settle (Writer.writePoint p w)).1 = .ok () at accepted
      rw [wrote] at accepted
      cases accepted
    | ok _ w' =>
      have answer : w.answer (.writePoint p) = (.ok (), w') := congrArg settle wrote
      change ((w.answer (.writePoint p)).2).Accepts _ at acceptsLater
      rw [answer] at acceptsLater
      obtain ⟨r'', later⟩ := ih agrees' yields.2 (Nat.lt_of_succ_lt_succ enough) acceptsLater
      refine ⟨r'', ?_⟩
      simp only [Reader.Points.copyUpTo, Reader.Points.next, Bool.false_eq_true, if_false, read,
        wrote, later]
      rw [List.map_cons, Writer.run, answer]
      rfl

end Source

namespace Writer

variable {h : Header} {records : List Point.Record} {w : Writer}

theorem finalHeader_plainHeader (count : records.length = h.numberOfPoints.toNat) :
    { finalHeader (plainHeader h none) records with
      numberOfPointsByReturn := h.numberOfPointsByReturn
      bounds := h.bounds } = h := by
  have points := @Tally.points_counted h.transforms records
  rw [count, UInt64.ofNat_toNat] at points
  unfold finalHeader plainHeader Header.finalize
  simp only [points]

theorem intoMedium_copy (hw : h.WellFormed) (room : h.HasRoom) (writable : h.Writable)
    (plain : h.compressed = false)
    (taken : Taken (.ofBytes []) (plainHeader h none) records w)
    (count : records.length = h.numberOfPoints.toNat) :
    ∃ m' r', w.intoMedium.1.result = .ok m' ∧
      (∀ codec?, (Reader.ofMedium m' codec?).result = .ok r') ∧
      { r'.header with
        numberOfPointsByReturn := h.numberOfPointsByReturn
        bounds := h.bounds } = h ∧
      m'.bytes.drop r'.header.pointDataStart = encodeAll h.format records := by
  have hw' := plainHeader_wellFormed hw none
  have writable' := plainHeader_writable writable
  have small : records.length < UInt64.size := by
    rw [count]
    exact h.numberOfPoints.toNat_lt
  obtain ⟨m', closed, opens⟩ := opens_of_taken taken hw' room writable' plain small
  have once := taken.onceClosed hw' writable'
  have same := once.intoMedium.1
  rw [closed] at same
  cases same
  refine ⟨_, _, closed, opens.opened, ?_, ?_⟩
  · exact finalHeader_plainHeader count
  · have start : (finalHeader (plainHeader h none) records).front.length =
        (plainHeader h none).pointDataStart :=
      once.length.trans (Header.length_front (h := plainHeader h none) room)
    have place : ∀ found : Header, found.pointDataStart = (plainHeader h none).pointDataStart →
        w.close.2.medium.bytes.drop found.pointDataStart = encodeAll h.format records := by
      intro found same
      rw [same, ← start, once.bytes, Medium.spliced_empty, List.drop_left]
      rfl
    exact place _ rfl

/-- A copy of a file that could be read, made by any calls that write the points in their order, is
accepted whole. It has the records of the file byte for byte, and a header that differs only in the
counts by return and in the bounds. -/
theorem copy_of_calls {m : Medium} (reliable : m.Reliable) {codec? : Option Codec} {r : Reader}
    (opened : (Reader.ofMedium m codec?).result = .ok r) (plain : r.header.compressed = false)
    (present : ∀ i < r.header.numberOfPoints.toNat, (Source.ofMedium m r.header).Present i)
    (exact : ∀ i < r.header.numberOfPoints.toNat, ∀ record,
      (Source.ofMedium m r.header).record? i = some record →
        record.Exact r.header.transforms) :
    ∃ points w,
      (r.answers (List.replicate (r.header.numberOfPoints.toNat + 1) .readPoint)).1 =
        points.map (fun p => .next (.ok (some p))) ++ [.next (.ok none)] ∧
      (onMedium (.ofBytes []) r.header none).1.result = .ok w ∧
      (∃ r', r.copyTo w = ⟨points.length, none, r', (w.run (points.map .writePoint)).2⟩) ∧
      ∀ calls : List Call, calls.flatMap Call.points = points →
        w.Accepts calls ∧
        ∃ m' r', (w.run calls).2.intoMedium.1.result = .ok m' ∧
          (∀ codec'?, (Reader.ofMedium m' codec'?).result = .ok r') ∧
          { r'.header with
            numberOfPointsByReturn := r.header.numberOfPointsByReturn
            bounds := r.header.bounds } = r.header ∧
          m'.bytes.drop r'.header.pointDataStart =
            (m.bytes.drop (m.position + r.header.pointDataStart)).take
              (r.header.numberOfPoints.toNat * r.header.format.length) := by
  obtain ⟨-, data, read, same⟩ := (Reader.result_ofMedium_eq_ok plain).1 opened
  obtain ⟨hw, room, -⟩ := Header.decode_sound read
  have writable := Header.writable_of_decode read
  have regular := Source.ofMedium_regular (m := m) hw
  have agrees := Source.agrees_plain reliable r.header
  rw [← same] at agrees
  obtain ⟨points, records, yields, stored, count, row⟩ :=
    Source.yields_exact regular present exact (Nat.zero_add _)
  obtain ⟨w, opened'⟩ := onMedium_of_writable (Medium.reliable_ofBytes []) hw plain
    (plainHeader_writable writable)
  have taken := (taken_of_onMedium (Medium.reliable_ofBytes []) hw plain opened').2
  have countable : Room r.header.version records.length := by
    rw [count]
    exact writable.points.symm
  have accepted (calls : List Call) (all : calls.flatMap Call.points = points) :
      w.Accepts calls ∧
        Taken (.ofBytes []) (plainHeader r.header none) records (w.run calls).2 := by
    have stored' : Stored (plainHeader r.header none) (calls.flatMap Call.points) records := by
      rw [all]
      exact stored
    rw [← List.nil_append records]
    exact accepts_of_stored taken calls (by rwa [List.length_nil, Nat.zero_add]) stored'
  have length : points.length = r.header.numberOfPoints.toNat := stored.length_eq.trans count
  refine ⟨points, w, ?_, opened', ?_, ?_⟩
  · have answers := yields.answers
    rw [length] at answers
    exact (Source.agrees_answers regular agrees _).1.trans answers
  · have one : (points.map Call.writePoint).flatMap Call.points = points := by
      rw [List.flatMap_map]
      exact List.flatMap_singleton' points
    refine Source.copyUpTo_of_yields regular agrees yields ?_ (accepted _ one).1
    rw [same, length]
    exact Nat.lt_succ_self _
  · intro calls all
    obtain ⟨accepts, taken'⟩ := accepted calls all
    obtain ⟨m', r', closed, opens, header, bytes⟩ :=
      intoMedium_copy hw room writable plain taken' count
    refine ⟨accepts, m', r', closed, opens, header, bytes.trans (row.trans ?_)⟩
    rw [Source.place, Nat.zero_mul]
    rfl

theorem copy_of_calls_promised :
    ∃ m r points w m', Medium.Reliable m ∧ (Reader.ofMedium m none).result = .ok r ∧
      r.header.compressed = false ∧
      (∀ i < r.header.numberOfPoints.toNat, (Source.ofMedium m r.header).Present i) ∧
      (∀ i < r.header.numberOfPoints.toNat, ∀ record,
        (Source.ofMedium m r.header).record? i = some record →
          record.Exact r.header.transforms) ∧
      (onMedium (.ofBytes []) r.header none).1.result = .ok w ∧
      w.Accepts [.writePoints points] ∧
      (w.run [.writePoints points]).2.intoMedium.1.result = .ok m' ∧
      m'.bytes.drop 227 = encodeAll ⟨false, false, 0⟩
        [sample.recordAt ⟨100, 200, -300⟩,
          { sample.recordAt ⟨-100, 0, 7⟩ with flags := 0xfe, scanAngle := -90 }] := by
  let records := [sample.recordAt ⟨100, 200, -300⟩,
    { sample.recordAt ⟨-100, 0, 7⟩ with flags := 0xfe, scanAngle := -90 }]
  let data := encodeAll ⟨false, false, 0⟩ records ++ [1, 2, 3]
  let bytes : Bytes := [7] ++ (Source.promised.front ++ data)
  let m : Medium := { Medium.ofBytes bytes with position := 1 }
  let h : Header := { Source.promised with
    numberOfPointsByReturn := Source.promised.countsReadBack }
  have reliable : m.Reliable := ⟨rfl, rfl, rfl, rfl⟩
  have stream : m.bytes = bytes := Medium.bytes_ofBytes bytes
  have rest : m.rest = Source.promised.front ++ data := by rw [Medium.rest_eq, stream]; rfl
  have read := Header.decode_front Source.promised_sound.1 Source.promised_sound.2
    Source.promised_writable data
  rw [← rest] at read
  have opened : (Reader.ofMedium m none).result = .ok (Reader.plain m h) :=
    (Reader.result_ofMedium_eq_ok rfl).2 ⟨rfl, data, read, rfl⟩
  have start : h.pointDataStart = 227 := by decide +kernel
  have source : Source.ofMedium m h = ⟨h, bytes, 228⟩ := by rw [Source.ofMedium, stream, start]
  have present : ∀ i < h.numberOfPoints.toNat, (Source.ofMedium m h).Present i := by
    rw [source]
    decide +kernel
  have exact : ∀ i < h.numberOfPoints.toNat, ∀ record,
      (Source.ofMedium m h).record? i = some record → record.Exact h.transforms := by
    rw [source]
    show ∀ i < _, ∀ record ∈ Source.record? _ i, record.Exact h.transforms
    decide +kernel
  obtain ⟨points, w, -, opened', -, copies⟩ := copy_of_calls reliable opened rfl present exact
  obtain ⟨accepts, m', r', closed, -, header, copied⟩ :=
    copies [.writePoints points] (List.flatMap_singleton _ _)
  have start' : r'.header.pointDataStart = 227 :=
    (congrArg Header.pointDataStart header).trans start
  have row : (m.bytes.drop (m.position + h.pointDataStart)).take
      (h.numberOfPoints.toNat * h.format.length) = encodeAll ⟨false, false, 0⟩ records := by
    rw [stream, start]
    decide +kernel
  rw [start'] at copied
  exact ⟨m, Reader.plain m h, points, w, m', reliable, opened, rfl, present, exact, opened',
    accepts, closed, copied.trans row⟩

end Writer

end Lidar
