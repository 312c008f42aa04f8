import Lidar.Proofs.Header.Overlong
import Lidar.Proofs.Point.Stored
import Lidar.Proofs.Reader.Opening
import Lidar.Proofs.Writer.Closing

/-!
# What is written is read

The points that a writer has accepted, whichever others it has rejected, are the points that are
read from its medium: as many, in the same order, each as its record says.
-/
namespace Lidar

namespace Source

variable {s : Source} {k : Nat} {h : Header}

theorem present_of_stream {before b back : Bytes} (stream : s.stream = before ++ (b ++ back))
    (place : s.place k = before.length) (width : b.length = s.width) :
    s.Present k ∧ s.bytes k = b := by
  constructor
  · unfold Present
    rw [stream, place, ← width, List.length_append, List.length_append]
    omega
  · rw [bytes, stream, place, List.drop_left, ← width, List.take_left]

theorem length_encode (regular : s.Regular) (format : s.header.format = h.format)
    (r : Point.Record) : (r.encode h.format).length = s.width := by
  rw [regular, format]
  exact Point.Record.length_encode h.format r

def Yields (s : Source) : Nat → List Point → Prop
  | k, [] => s.next k = (.ok none, k)
  | k, p :: later => s.next k = (.ok (some p), k + 1) ∧ s.Yields (k + 1) later

theorem Yields.answers {points : List Point} (yields : s.Yields k points) :
    (s.answers (some k) (List.replicate (points.length + 1) .readPoint)).1 =
      points.map (fun p => .next (.ok (some p))) ++ [.next (.ok none)] := by
  induction points generalizing k with
  | nil => exact answers_readPoint yields []
  | cons p points ih =>
    rw [List.length_cons, List.replicate_succ, answers_readPoint yields.1, ih yields.2]
    rfl

theorem next_stored (regular : s.Regular) (transforms : s.header.transforms = h.transforms)
    (format : s.header.format = h.format) {p : Point} {r : Point.Record}
    (stored : p.toRecord h.transforms h.format = .ok r) {before back : Bytes}
    (stream : s.stream = before ++ (r.encode h.format ++ back))
    (place : s.place k = before.length) (more : k < s.count) :
    ∃ q, s.next k = (.ok (some q), k + 1) ∧ p.ReadsAs h.transforms h.format q := by
  have width := length_encode regular format r
  obtain ⟨present, bytes⟩ := present_of_stream stream place width
  obtain ⟨r', q, read, made, same⟩ := Point.decode_encode stored []
  rw [List.append_nil] at read
  refine ⟨q, ?_, same⟩
  rw [next_of_lt more, take, record?, if_pos present, bytes, format, read]
  simp only [Option.map_some, transforms, made]
  rfl

theorem yields_stored (regular : s.Regular) (transforms : s.header.transforms = h.transforms)
    (format : s.header.format = h.format) {points : List Point} {records : List Point.Record}
    (stored : Writer.Stored h points records) {before back : Bytes}
    (stream : s.stream = before ++ (Writer.encodeAll h.format records ++ back))
    (place : s.place k = before.length) (count : s.count = k + records.length) :
    ∃ qs, List.Forall₂ (Point.ReadsAs h.transforms h.format) points qs ∧ s.Yields k qs := by
  induction stored generalizing k before with
  | nil => exact ⟨[], .nil, if_pos (Nat.le_of_eq count)⟩
  | @cons p r points records first later ih =>
    rw [List.length_cons] at count
    have row : Writer.encodeAll h.format (r :: records) ++ back =
        r.encode h.format ++ (Writer.encodeAll h.format records ++ back) := by
      rw [Writer.encodeAll, List.flatMap_cons, List.append_assoc]
      rfl
    rw [row] at stream
    obtain ⟨q, read, same⟩ := next_stored regular transforms format first stream place (by omega)
    have width := length_encode regular format r
    have stream' : s.stream =
        (before ++ r.encode h.format) ++ (Writer.encodeAll h.format records ++ back) := by
      rw [stream, List.append_assoc]
    have place' : s.place (k + 1) = (before ++ r.encode h.format).length := by
      rw [place_succ, place, ← width, List.length_append]
    obtain ⟨qs, all, yields⟩ := ih stream' place' (by omega)
    exact ⟨q :: qs, .cons same all, read, yields⟩

theorem reads_stored {r : Reader} (regular : s.Regular) (agrees : s.Agrees r (some 0))
    (transforms : s.header.transforms = h.transforms) (format : s.header.format = h.format)
    {points : List Point} {records : List Point.Record} (stored : Writer.Stored h points records)
    {before back : Bytes} (stream : s.stream = before ++ (Writer.encodeAll h.format records ++ back))
    (start : s.start = before.length) (count : s.count = records.length) :
    ∃ qs, List.Forall₂ (Point.ReadsAs h.transforms h.format) points qs ∧
      (r.answers (List.replicate (points.length + 1) .readPoint)).1 =
        qs.map (fun q => .next (.ok (some q))) ++ [.next (.ok none)] := by
  have place : s.place 0 = before.length := by
    rw [Source.place, Nat.zero_mul, start]
    rfl
  obtain ⟨qs, same, yields⟩ := yields_stored regular transforms format stored stream place
    (by rw [count, Nat.zero_add])
  refine ⟨qs, same, ?_⟩
  rw [(agrees_answers regular agrees _).1, same.length_eq]
  exact yields.answers

end Source

namespace Writer

theorem length_le_encodeAll (f : Format) (records : List Point.Record) :
    records.length ≤ (encodeAll f records).length := by
  rw [length_encodeAll, Format.standardLength, Format.coreLength]
  apply Nat.le_mul_of_pos_right
  omega

/-- A medium that a reader opens, with these records behind one another where it finds points. -/
structure Opens (m : Medium) (h found : Header) (records : List Point.Record) : Prop where
  reliable : m.Reliable
  opened : ∀ codec?, (Reader.ofMedium m codec?).result = .ok (Reader.plain m found)
  regular : (Source.ofMedium m found).Regular
  transforms : found.transforms = h.transforms
  format : found.format = h.format
  count : found.numberOfPoints.toNat = records.length
  stream : ∃ before back, m.bytes = before ++ (encodeAll h.format records ++ back) ∧
    m.position + found.pointDataStart = before.length

theorem opens_of_bytes {m : Medium} {h : Header} {records : List Point.Record}
    (reliable : m.Reliable) (hw : h.WellFormed) (room : h.HasRoom) (writable : h.Writable)
    (plain : h.compressed = false) (count : h.numberOfPoints.toNat = records.length)
    {front back : Bytes}
    (bytes : m.bytes = front ++ (h.front ++ (encodeAll h.format records ++ back)))
    (position : m.position = front.length) :
    Opens m h { h with numberOfPointsByReturn := h.countsReadBack } records := by
  have rest := (Medium.split_eq bytes position).2.1
  have read := Header.decode_front hw room writable (encodeAll h.format records ++ back)
  rw [← rest] at read
  exact {
    reliable := reliable
    opened := fun codec? =>
      (Reader.result_ofMedium_eq_ok plain).2 ⟨reliable.position, _, read, rfl⟩
    regular := Source.ofMedium_regular (Header.decode_sound read).1
    transforms := rfl
    format := rfl
    count := count
    stream := by
      refine ⟨front ++ h.front, back, ?_, ?_⟩
      · rw [bytes, List.append_assoc]
      · rw [List.length_append, Header.length_front room, position]
        rfl }

theorem Counted.opens {m : Medium} {h : Header} {w : Writer} {records : List Point.Record}
    (counted : Counted h records w) (hw : h.WellFormed) (room : h.HasRoom)
    (writable : h.Writable) (plain : h.compressed = false) (small : records.length < UInt64.size)
    (reliable : m.Reliable) {front back : Bytes}
    (bytes : m.bytes =
      front ++ ((finalHeader h records).front ++ (encodeAll h.format records ++ back)))
    (position : m.position = front.length) :
    Opens m h { finalHeader h records with
      numberOfPointsByReturn := (finalHeader h records).countsReadBack } records := by
  have count : (finalHeader h records).numberOfPoints.toNat = records.length := by
    show (Tally.counted h.transforms records).points.toNat = _
    rw [Tally.points_counted, UInt64.toNat_ofNat_of_lt' small]
  have opens := opens_of_bytes reliable (Header.finalize_wellFormed hw _ _ _)
    (room.finalize _ _ _) (finalHeader_writable writable counted.room) plain count bytes position
  exact { opens with }

theorem opens_of_taken {m : Medium} {h : Header} {w : Writer} {records : List Point.Record}
    (taken : Taken m h records w) (hw : h.WellFormed) (room : h.HasRoom) (writable : h.Writable)
    (plain : h.compressed = false) (small : records.length < UInt64.size) :
    ∃ m', w.intoMedium.1.result = .ok m' ∧
      Opens m' h { finalHeader h records with
        numberOfPointsByReturn := (finalHeader h records).countsReadBack } records := by
  obtain ⟨m', back, closed, reliable, -, rest, inside⟩ := intoMedium_eq taken hw writable
  have bytes := inside.bytes_eq
  rw [rest] at bytes
  exact ⟨m', closed, taken.counted.opens hw room writable plain small reliable bytes
    (Medium.length_before m').symm⟩

/-- What a writer leaves for a header of the largest size, with bytes behind its padding that do not
count, is opened as if these were the first bytes of what is behind the padding. -/
theorem opens_of_overrun (seen : List Point.Record) {m : Medium} {g : Header} {w : Writer}
    {records : List Point.Record} {extra tail back : Bytes} {others : Vlr.Store}
    (taken : Taken m (g.overrun extra others) records w) (hg : g.WellFormed)
    (writable : g.Writable) (plain : g.compressed = false)
    (full : g.version.headerSize + g.padding.length = Header.maxSize)
    (count : others.size = g.records.size) (blockSize : others.blockSize = g.records.blockSize)
    (start : extra ++ (Header.encodeRecords others.toList ++ g.recordPadding) =
      Header.encodeRecords g.records.toList ++ g.recordPadding ++ tail)
    (small : records.length < UInt64.size) (length : seen.length = records.length)
    (shifted : tail ++ encodeAll g.format records = encodeAll g.format seen ++ back) :
    ∃ m', w.intoMedium.1.result = .ok m' ∧ m'.Reliable ∧
      ∀ source : Medium, source.Reliable → source.bytes = m'.bytes →
        source.position = m'.position →
        Opens source (finalHeader g records) { finalHeader g records with
          numberOfPointsByReturn := (finalHeader g records).countsReadBack } seen := by
  obtain ⟨m', behind, closed, reliable, -, rest, inside⟩ := intoMedium_eq taken
    (Header.overrun_wellFormed hg extra others) (Header.overrun_writable writable full blockSize)
  have front : (finalHeader (g.overrun extra others) records).front =
      (finalHeader g records).front ++ tail :=
    Header.front_overrun (g := finalHeader g records) full count blockSize start
  refine ⟨m', closed, reliable, fun source reliable same position => ?_⟩
  have bytes : source.bytes = m'.before ++ ((finalHeader g records).front ++
      (encodeAll (finalHeader g records).format seen ++ (back ++ behind))) := by
    have row := congrArg (· ++ behind) shifted
    simp only [List.append_assoc] at row
    rw [same, inside.bytes_eq, rest, front, List.append_assoc]
    exact congrArg (fun data => m'.before ++ ((finalHeader g records).front ++ data)) row
  have points : (finalHeader g records).numberOfPoints.toNat = seen.length := by
    show (Tally.counted g.transforms records).points.toNat = _
    rw [Tally.points_counted, UInt64.toNat_ofNat_of_lt' small, length]
  have room : g.HasRoom := Nat.le_of_eq full
  exact opens_of_bytes reliable (Header.finalize_wellFormed hg _ _ _) (room.finalize _ _ _)
    (finalHeader_writable writable taken.room) plain points bytes
    (position.trans (Medium.length_before m').symm)

theorem Opens.answers {m : Medium} {h found : Header} {records : List Point.Record}
    (opens : Opens m h found records) {points : List Point} (stored : Stored h points records) :
    ∃ qs, List.Forall₂ (Point.ReadsAs h.transforms h.format) points qs ∧
      ((Reader.plain m found).answers (List.replicate (points.length + 1) .readPoint)).1 =
        qs.map (fun q => .next (.ok (some q))) ++ [.next (.ok none)] := by
  obtain ⟨before, back, stream, start⟩ := opens.stream
  exact Source.reads_stored opens.regular (Source.agrees_plain opens.reliable found)
    opens.transforms opens.format stored stream start opens.count

/-- A writer that opens on a medium that never fails, with a header of points that are not
compressed, can be closed after any calls as long as places in the medium are 64-bit numbers. What
it leaves is read to the end without an error, as the points that were accepted. -/
theorem read_of_run {h : Header} (made : h.Made) (room : h.HasRoom) (plain : h.compressed = false)
    {m : Medium} (reliable : m.Reliable) {codec? : Option Codec} {w : Writer}
    (opened : (onMedium m h codec?).1.result = .ok w) (calls : List Call)
    (addressable : (w.run calls).2.medium.position < Cursor.positionLimit)
    (codec'? : Option Codec) :
    ∃ m' r qs, (w.run calls).2.intoMedium.1.result = .ok m' ∧
      (Reader.ofMedium m' codec'?).result = .ok r ∧
      r.header.numberOfPoints.toNat = (w.run calls).1.length ∧
      List.Forall₂ (Point.ReadsAs h.transforms h.format) (w.run calls).1 qs ∧
      (r.answers (List.replicate ((w.run calls).1.length + 1) .readPoint)).1 =
        qs.map (fun q => .next (.ok (some q))) ++ [.next (.ok none)] := by
  have hw := plainHeader_wellFormed made.wellFormed codec?
  obtain ⟨writable, taken⟩ := taken_of_onMedium reliable made.wellFormed plain opened
  obtain ⟨records, stored, taken⟩ := run_taken taken calls
  rw [List.nil_append] at taken
  have small : records.length < UInt64.size := by
    have position := taken.wrote.position
    have records := length_le_encodeAll (plainHeader h codec?).format records
    rw [List.length_append] at position
    unfold Cursor.positionLimit at addressable
    omega
  obtain ⟨m', closed, opens⟩ := opens_of_taken taken hw room writable plain small
  obtain ⟨qs, same, answers⟩ := opens.answers stored
  exact ⟨m', _, qs, closed, opens.opened codec'?, opens.count.trans stored.length_eq.symm, same,
    answers⟩

/-- A point whose coordinates have the stored integers 100, 200 and -300 under the default
transforms. -/
def sample : Point where
  position := ⟨⟨0x3ff0000000000000⟩, ⟨0x4000000000000000⟩, ⟨0xc008000000000000⟩⟩
  intensity := 7
  returnNumber := 1
  numberOfReturns := 2
  scanDirection := .leftToRight
  isEdgeOfFlightLine := true
  classification := ⟨0xe2⟩
  scanAngle := .nadir
  userData := 3
  pointSourceId := 4
  gpsTime? := none
  color? := none
  extraBytes := []

theorem sample_stored : sample.toRecord (.all .default) ⟨false, false, 0⟩ =
    .ok (sample.recordAt ⟨100, 200, -300⟩) := by
  rfl

theorem taken_empty {m : Medium} (reliable : m.Reliable) :
    ∃ w, (onMedium m (.empty 2017 1) none).1.result = .ok w ∧ Taken m (.empty 2017 1) [] w := by
  have hw := Header.empty_wellFormed 2017 1
  have writable : (plainHeader (.empty 2017 1) none).Writable := by decide +kernel
  obtain ⟨w, opened⟩ := onMedium_of_writable reliable hw rfl writable
  exact ⟨w, opened, (taken_of_onMedium reliable hw rfl opened).2⟩

theorem read_of_run_sample :
    ∃ m w calls, Medium.Reliable m ∧ (onMedium m (.empty 2017 1) none).1.result = .ok w ∧
      (w.run calls).1 = [sample, sample, sample] ∧
      (w.run calls).2.medium.position < Cursor.positionLimit ∧
      ∃ m' r qs, (w.run calls).2.intoMedium.1.result = .ok m' ∧
        (Reader.ofMedium m' none).result = .ok r ∧
        r.header.numberOfPoints.toNat = (w.run calls).1.length ∧
        List.Forall₂ (Point.ReadsAs (.all .default) ⟨false, false, 0⟩) (w.run calls).1 qs ∧
        (r.answers (List.replicate ((w.run calls).1.length + 1) .readPoint)).1 =
          qs.map (fun q => .next (.ok (some q))) ++ [.next (.ok none)] := by
  let m : Medium := { Medium.ofBytes [1, 2, 3] with position := 5 }
  let h := Header.empty 2017 1
  let r := sample.recordAt ⟨100, 200, -300⟩
  have reliable : m.Reliable := ⟨rfl, rfl, rfl, rfl⟩
  have made : h.Made := .reachable (.empty 2017 1)
  have room := Header.empty_hasRoom 2017 1
  obtain ⟨w, opened, taken⟩ := taken_empty reliable
  have stored₁ : Stored h [sample] [r] := .cons sample_stored .nil
  have stored₂ : Stored h [sample, sample] [r, r] := .cons sample_stored stored₁
  obtain ⟨w₁, two, taken₁⟩ := answer_of_stored taken (.writePoints [sample, sample])
    (.inr (by decide)) stored₂
  let timed : Point := { sample with gpsTime? := some .zero }
  have rejected : ∃ e, w₁.answer (.writePoint timed) = (.error e, w₁) := by
    rcases answer_eq taken₁ (.writePoint timed) with rejected | ⟨more, w', -, stored, -⟩
    · exact rejected
    · cases stored with
      | cons first _ => cases first
  obtain ⟨e, rejected⟩ := rejected
  obtain ⟨w₂, one, taken₂⟩ := answer_of_stored taken₁ (.writePoint sample)
    (.inr (by decide)) stored₁
  let calls : List Call :=
    [.writePoints [sample, sample], .writePoint timed, .writePoint sample]
  have ran : w.run calls = ([sample, sample, sample], w₂) := by
    simp only [calls, run, two, rejected, one]
    rfl
  have addressable : (w.run calls).2.medium.position < Cursor.positionLimit := by
    have length := Header.length_front room
    rw [ran, taken₂.wrote.position, List.length_append, length]
    decide +kernel
  exact ⟨m, w, calls, reliable, opened, by rw [ran], addressable,
    read_of_run made room rfl reliable opened calls addressable none⟩

/-- What a reader finds one byte in front of the record of `sample`, where there is a zero. -/
def early : Point.Record where
  x := 25600
  y := 51200
  z := -76800
  intensity := 2047
  flags := 0
  classification := 0xd1
  scanAngle := -30
  userData := 0
  pointSourceId := 0x0403
  gpsTime? := none
  color? := none
  extraBytes := []

theorem taken_overrun {padding : Bytes}
    (full : Version.default.headerSize + padding.length = Header.maxSize) {m : Medium}
    (reliable : m.Reliable) (codec? : Option Codec) :
    let h := (Header.padded padding .empty).overrun [0] .empty
    ∃ w, (onMedium m h codec?).1.result = .ok w ∧ Taken m h [] w := by
  intro h
  obtain ⟨hw, writable⟩ := Header.overrun_padded_sound full
  have same : plainHeader h codec? = h := by cases codec? <;> rfl
  have writable' : (plainHeader h codec?).Writable := by
    rw [same]
    exact writable
  obtain ⟨w, opened⟩ := onMedium_of_writable reliable hw rfl writable'
  have taken := (taken_of_onMedium reliable hw rfl opened).2
  rw [same] at taken
  exact ⟨w, opened, taken⟩

theorem run_overrun {padding : Bytes}
    (full : Version.default.headerSize + padding.length = Header.maxSize) {m : Medium}
    (reliable : m.Reliable) :
    let h := (Header.padded padding .empty).overrun [0] .empty
    ∃ w w', (onMedium m h none).1.result = .ok w ∧ Taken m h [] w ∧
      w.run [.writePoint sample] = ([sample], w') ∧
      Taken m h [sample.recordAt ⟨100, 200, -300⟩] w' := by
  intro h
  obtain ⟨w, opened, taken⟩ := taken_overrun full reliable none
  obtain ⟨w', one, taken'⟩ := answer_of_stored taken (.writePoint sample) (.inr (by decide))
    (.cons sample_stored .nil)
  refine ⟨w, w', opened, taken, ?_, taken'⟩
  simp only [run, one]
  rfl

theorem misread_of_taken {padding : Bytes}
    (full : Version.default.headerSize + padding.length = Header.maxSize) {m : Medium} {w : Writer}
    (taken : Taken m ((Header.padded padding .empty).overrun [0] .empty)
      [sample.recordAt ⟨100, 200, -300⟩] w) :
    ∃ m', w.intoMedium.1.result = .ok m' ∧ m'.Reliable ∧
      ∀ source : Medium, source.Reliable → source.bytes = m'.bytes →
        source.position = m'.position →
        ∃ r q, (∀ codec?, (Reader.ofMedium source codec?).result = .ok r) ∧
          r.header.numberOfPoints = 1 ∧
          (r.answers [.readPoint, .readPoint]).1 = [.next (.ok (some q)), .next (.ok none)] ∧
          q.intensity = early.intensity ∧ q.position = early.position (.all .default) := by
  have shifted : [0] ++ encodeAll ⟨false, false, 0⟩ [sample.recordAt ⟨100, 200, -300⟩] =
      encodeAll ⟨false, false, 0⟩ [early] ++ [0] := by
    decide +kernel
  obtain ⟨m', closed, left, opens⟩ := opens_of_overrun [early] taken
    (Header.padded_wellFormed padding .empty)
    (Header.padded_writable padding .empty (Nat.zero_le _)) rfl full rfl rfl rfl (by decide) rfl
    shifted
  refine ⟨m', closed, left, fun source reliable same position => ?_⟩
  have opens := opens source reliable same position
  have exact : early.Exact (.all .default) := by decide +kernel
  obtain ⟨p, -, stored⟩ := Point.toRecord_toPoint (f := ⟨false, false, 0⟩) ⟨rfl, rfl, rfl⟩ exact
  obtain ⟨_, (_ | ⟨reads, ⟨⟩⟩), answers⟩ := opens.answers (.cons stored .nil)
  refine ⟨_, _, opens.opened, UInt64.toNat.inj opens.count, answers, ?_, ?_⟩
  · obtain ⟨-, -, -, _, -, -, -, found⟩ := Point.toRecord_eq_ok.1 stored
    rw [reads.others]
    exact congrArg Point.Record.intensity found
  · exact reads.storedAt.unique (Point.storedAt_of_toRecord stored)

/-- The padding has one byte more than the size can count, so that the points are read one byte too
early. -/
theorem misread_behind_padding :
    ∃ h m w m' r q, (Header.ofBlock Header.crowded).result = .ok h ∧ h.compressed = false ∧
      Medium.Reliable m ∧ (onMedium m h none).1.result = .ok w ∧
      (w.run [.writePoint sample]).1 = [sample] ∧
      (w.run [.writePoint sample]).2.intoMedium.1.result = .ok m' ∧
      (Reader.ofMedium m' none).result = .ok r ∧ r.header.numberOfPoints = 1 ∧
      (r.answers [.readPoint, .readPoint]).1 = [.next (.ok (some q)), .next (.ok none)] ∧
      q.intensity ≠ sample.intensity := by
  obtain ⟨padding, full, made⟩ := Header.result_ofBlock_crowded
  have reliable := Medium.reliable_ofBytes []
  obtain ⟨w, w', opened, -, ran, taken⟩ := run_overrun full reliable
  obtain ⟨m', closed, left, read⟩ := misread_of_taken full taken
  obtain ⟨r, q, opens, points, answers, intensity, -⟩ := read m' left rfl rfl
  refine ⟨_, _, w, m', r, q, made, rfl, reliable, opened, by rw [ran], by rw [ran]; exact closed,
    opens none, points, answers, ?_⟩
  rw [intensity]
  decide

end Writer

end Lidar
