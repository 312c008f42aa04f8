import Lidar.Proofs.Point.Stored
import Lidar.Proofs.Reader.Opening

/-!
# Reading what a codec has decoded

A codec may give any bytes. A reader opens only where these are as many as the points of the header
take, and this one check is enough for all that is read later: below the number of points every
record is there and has a place that is a 64-bit number, in whatever order the points are asked
for. What a call can still fail with is listed as `Mishap`.
-/
namespace Lidar

def Header.recordsSize (h : Header) : Nat := h.numberOfPoints.toNat * h.format.length

namespace Reader

variable {m : Medium} {codec : Codec} {h : Header} {data : Bytes}

theorem result_ofMedium_decompress {codec? : Option Codec}
    (read : (Header.decode m.rest).result = .ok (h, data)) (compressed : h.compressed = true) :
    (ofMedium m codec?).result = (decompress h codec? data).result.map (unpacked h) := by
  unfold ofMedium findRecords
  rw [Traced.result_bind, read, Success.ok_bind]
  simp only [compressed, if_true, Traced.result_bind, Traced.result_map]
  cases (decompress h codec? data).result <;> rfl

theorem result_decompress_error {e : Error} (failed : codec.decode h data = .error e) :
    (decompress h (some codec) data).result = .error e := by
  unfold decompress
  simp only [Traced.result_bind, Traced.result_liftM, failed]
  rfl

theorem result_decompress {records : Bytes} (decoded : codec.decode h data = .ok records) :
    (decompress h (some codec) data).result =
      if Cursor.positionLimit ≤ h.recordsSize then
        .error (.tooManyPoints h.numberOfPoints.toNat h.version)
      else if records.length ≠ h.recordsSize then
        .error (.decodedLength h.recordsSize records.length)
      else .ok records := by
  unfold decompress Header.recordsSize
  simp only [Traced.result_bind, Traced.result_liftM, decoded, Success.ok_bind]
  split
  · rfl
  · split <;> rfl

theorem result_decompress_eq_ok {records : Bytes} :
    (decompress h (some codec) data).result = .ok records ↔
      codec.decode h data = .ok records ∧ h.recordsSize < Cursor.positionLimit ∧
        records.length = h.recordsSize := by
  cases decoded : codec.decode h data with
  | error e =>
    rw [result_decompress_error decoded]
    simp
  | ok found =>
    rw [result_decompress decoded]
    split
    · next far =>
      simp
      omega
    · split
      · next other =>
        simp only [reduceCtorEq, false_iff]
        rintro ⟨⟨⟩, -, same⟩
        exact other same
      · next same =>
        constructor
        · rintro ⟨⟩
          exact ⟨rfl, by omega, not_not.1 same⟩
        · intro found
          exact found.1

end Reader

namespace Reader

def errorOf {α : Type} : Except Error α → List Error
  | .ok _ => []
  | .error e => [e]

theorem mem_errorOf {α : Type} {result : Except Error α} {e : Error} :
    e ∈ errorOf result ↔ result = .error e := by
  cases result <;> simp [errorOf, eq_comm]

theorem errorOf_collected (b : Batch) : errorOf b.collected = b.error?.toList := by
  unfold Batch.collected
  cases b.error? <;> rfl

theorem errorOf_appended (b : Batch) (buffer : List Point) :
    errorOf (b.appended buffer).2 = b.error?.toList := by
  unfold Batch.appended
  cases b.error? <;> rfl

def itemErrors : List (Option (Except Error Point)) → List Error
  | [] => []
  | none :: items => itemErrors items
  | some item :: items => errorOf item ++ itemErrors items

def Answer.errors : Answer → List Error
  | .next result => errorOf result
  | .point result => errorOf result
  | .moved result => errorOf result
  | .collected result => errorOf result
  | .appended result => errorOf result.2
  | .items found => itemErrors found
  | .closed _ => []

/-- How a call can fail although every record below the number of points is there. -/
inductive Mishap (h : Header) (closed : Prop) : Call → Error → Prop where
  | closed (call : Call) (was : closed) : Mishap h closed call .readerClosed
  | readPointAt (index : Nat) (outside : h.numberOfPoints.toNat ≤ index) :
    Mishap h closed (.readPointAt index) (.indexOutOfRange index h.numberOfPoints.toNat)
  | seek (index : Nat) (outside : h.numberOfPoints.toNat < index) :
    Mishap h closed (.seek index) (.indexOutOfRange index h.numberOfPoints.toNat)
  | scanAngle (call : Call) (rank : Int8) (outside : ¬ScanAngle.InRange rank) :
    Mishap h closed call (.invalidArgument (.scanAngle rank))

end Reader

namespace Source

variable {s : Source} {k : Nat}

/-- Every record below the number of points is in the stream, and every number up to it can be
moved to. -/
structure Whole (s : Source) : Prop where
  regular : s.Regular
  present : ∀ k, k < s.count → s.Present k
  reachable : ∀ k, k ≤ s.count → s.Reachable k

theorem whole_unpacked {h : Header} {records : Bytes} (hw : h.WellFormed)
    (length : records.length = h.recordsSize) (addressable : h.recordsSize < Cursor.positionLimit) :
    (unpacked h records).Whole := by
  have place (k : Nat) : (unpacked h records).place k = k * h.format.length := Nat.zero_add _
  refine ⟨Header.format_length hw, ?_, ?_⟩
  · intro k inside
    have row : (k + 1) * h.format.length ≤ h.recordsSize := Nat.mul_le_mul_right _ inside
    rw [Nat.succ_mul, ← length] at row
    unfold Present
    rw [place]
    exact row
  · intro k inside
    have row : k * h.format.length ≤ h.recordsSize := Nat.mul_le_mul_right _ inside
    unfold Reachable
    rw [place]
    omega

def BadAngle (e : Error) : Prop :=
  ∃ rank, ¬ScanAngle.InRange rank ∧ e = .invalidArgument (.scanAngle rank)

theorem take_whole (whole : s.Whole) (inside : k < s.count) :
    ∃ r, Point.Record.decoder s.header.format (s.bytes k) = some (r, []) ∧
      s.take k = (r.toPoint s.header.transforms, k + 1) := by
  have present := whole.present k inside
  obtain ⟨r, found, read⟩ := record?_of_present whole.regular present
  rw [List.drop_eq_nil_of_le (Nat.le_of_eq (length_bytes present))] at read
  refine ⟨r, read, ?_⟩
  rw [take, found]

theorem badAngle_of_take (whole : s.Whole) (inside : k < s.count) {e : Error}
    (failed : (s.take k).1 = .error e) : BadAngle e := by
  obtain ⟨r, -, taken⟩ := take_whole whole inside
  rw [taken] at failed
  exact ⟨_, Point.Record.toPoint_error failed⟩

theorem badAngle_of_next (whole : s.Whole) {e : Error} (failed : (s.next k).1 = .error e) :
    BadAngle e := by
  by_cases last : s.count ≤ k
  · rw [next, if_pos last] at failed
    cases failed
  · have inside := Nat.lt_of_not_le last
    rw [next_of_lt inside, Prod.map_fst] at failed
    apply badAngle_of_take whole inside
    cases taken : (s.take k).1 with
    | ok p =>
      rw [taken] at failed
      cases failed
    | error cause =>
      rw [taken] at failed
      cases failed
      rfl

theorem badAngle_of_takeAt (whole : s.Whole) {wanted : Nat} {e : Error}
    (failed : (s.takeAt wanted k).1 = .error e) :
    BadAngle e ∨ s.count ≤ wanted ∧ e = s.outside wanted := by
  unfold takeAt at failed
  split at failed
  · next inside => exact .inl (badAngle_of_take whole inside.1 failed)
  · next outside =>
    cases failed
    refine .inr ⟨?_, rfl⟩
    by_contra inside
    have inside := Nat.lt_of_not_le inside
    exact outside ⟨inside, whole.reachable wanted (Nat.le_of_lt inside)⟩

theorem outside_of_seek (whole : s.Whole) {wanted : Nat} {e : Error}
    (failed : (s.seek wanted k).1 = .error e) : s.count < wanted ∧ e = s.outside wanted := by
  unfold seek at failed
  split at failed
  · cases failed
  · next outside =>
    cases failed
    refine ⟨?_, rfl⟩
    by_contra inside
    have inside := Nat.le_of_not_lt inside
    exact outside ⟨inside, whole.reachable wanted inside⟩

theorem badAngle_of_nextUpTo (whole : s.Whole) (n : Nat) {e : Error}
    (failed : (s.nextUpTo n k).1.error? = some e) : BadAngle e := by
  induction n generalizing k with
  | zero => cases failed
  | succ n ih =>
    unfold nextUpTo at failed
    split at failed
    · next cause k' read =>
      cases failed
      exact badAngle_of_next whole (congrArg Prod.fst read)
    · cases failed
    · exact ih failed

theorem badAngle_of_items (whole : s.Whole) (n : Nat) (failed : Bool) {e : Error}
    (mem : e ∈ Reader.itemErrors (s.items n failed (some k)).1) : BadAngle e := by
  induction n generalizing k failed with
  | zero => cases mem
  | succ n ih =>
    cases failed with
    | true => exact ih true mem
    | false =>
      simp only [items, whenOpen, Bool.false_eq_true, if_false] at mem
      cases read : s.next k with
      | mk result k' =>
        rw [read] at mem
        cases result with
        | ok found =>
          cases found with
          | none => exact ih false mem
          | some p => exact ih false mem
        | error cause =>
          rcases List.mem_cons.1 mem with rfl | later
          · exact badAngle_of_next whole (congrArg Prod.fst read)
          · exact ih true later

theorem closed_of_items (n : Nat) (failed : Bool) {e : Error}
    (mem : e ∈ Reader.itemErrors (s.items n failed none).1) : e = .readerClosed := by
  induction n generalizing failed with
  | zero => cases mem
  | succ n ih =>
    cases failed with
    | true => exact ih true mem
    | false =>
      rcases List.mem_cons.1 mem with rfl | later
      · rfl
      · exact ih true later

theorem BadAngle.mishap {e : Error} (bad : BadAngle e) (closed : Prop) (call : Reader.Call) :
    Reader.Mishap s.header closed call e := by
  obtain ⟨rank, outside, rfl⟩ := bad
  exact .scanAngle call rank outside

theorem mishap_of_answer (whole : s.Whole) {state : State} {call : Reader.Call} {e : Error}
    (mem : e ∈ (s.answer state call).1.errors) :
    Reader.Mishap s.header (state = none) call e := by
  cases state with
  | none =>
    have closed : e = .readerClosed := by
      cases call with
      | points nexts => exact closed_of_items nexts false mem
      | close => cases mem
      | _ => exact List.mem_singleton.1 mem
    rw [closed]
    exact .closed call rfl
  | some k =>
    have batch (n : Nat) (failed : e ∈ (s.batch n (some k)).1.error?.toList) : BadAngle e :=
      badAngle_of_nextUpTo whole n (Option.mem_toList.1 failed)
    cases call with
    | readPoint => exact (badAngle_of_next whole (Reader.mem_errorOf.1 mem)).mishap _ _
    | readPointAt index =>
      rcases badAngle_of_takeAt whole (Reader.mem_errorOf.1 mem) with bad | ⟨outside, rfl⟩
      · exact bad.mishap _ _
      · exact .readPointAt index outside
    | seek index =>
      obtain ⟨outside, rfl⟩ := outside_of_seek whole (Reader.mem_errorOf.1 mem)
      exact .seek index outside
    | readPoints n =>
      simp only [← Reader.errorOf_collected] at batch
      exact (batch n mem).mishap _ _
    | readPointsInto n buffer =>
      simp only [← Reader.errorOf_appended _ buffer] at batch
      exact (batch n mem).mishap _ _
    | readAllPointsInto buffer =>
      simp only [← Reader.errorOf_appended _ buffer] at batch
      exact (batch s.count mem).mishap _ _
    | points nexts => exact (badAngle_of_items whole nexts false mem).mishap _ _
    | close => cases mem

theorem open_of_items (n : Nat) (failed : Bool) :
    ∃ k', (s.items n failed (some k)).2 = some k' := by
  induction n generalizing k failed with
  | zero => exact ⟨k, rfl⟩
  | succ n ih =>
    cases failed with
    | true => exact ih true
    | false =>
      simp only [items, whenOpen, Bool.false_eq_true, if_false]
      cases read : s.next k with
      | mk result k' =>
        cases result with
        | ok found =>
          cases found with
          | none => exact ih false
          | some p => exact ih false
        | error cause => exact ih true

theorem close_mem_of_answers {calls : List Reader.Call}
    (closed : (s.answers (some k) calls).2 = none) : .close ∈ calls := by
  induction calls generalizing k with
  | nil => cases closed
  | cons call calls ih =>
    rw [answers] at closed
    cases call with
    | close => exact List.mem_cons_self
    | points nexts =>
      obtain ⟨k', left⟩ := open_of_items (s := s) (k := k) nexts false
      simp only [answer, Prod.map_snd, left] at closed
      exact List.mem_cons_of_mem _ (ih closed)
    | _ => exact List.mem_cons_of_mem _ (ih closed)

theorem answers_whole (whole : s.Whole) {left : Nat} (count : k + left = s.count) :
    ∃ stored : List Point.Record, stored.length = left ∧
      (∀ (i : Nat) (hi : i < stored.length),
        Point.Record.decoder s.header.format (s.bytes (k + i)) = some (stored[i], [])) ∧
      ∀ extra, (s.answers (some k) (List.replicate (left + extra) .readPoint)).1 =
        stored.map (fun r => .next ((r.toPoint s.header.transforms).map some)) ++
          List.replicate extra (.next (.ok none)) := by
  induction left generalizing k with
  | zero =>
    refine ⟨[], rfl, by simp, ?_⟩
    intro extra
    induction extra with
    | zero => rfl
    | succ extra ih =>
      have last : s.next k = (.ok none, k) := if_pos (by omega)
      rw [Nat.zero_add] at ih ⊢
      rw [List.replicate_succ, answers_readPoint last, ih]
      rfl
  | succ left ih =>
    have inside : k < s.count := by omega
    obtain ⟨r, read, taken⟩ := take_whole whole inside
    obtain ⟨stored, length, reads, later⟩ := ih (k := k + 1) (by omega)
    refine ⟨r :: stored, by rw [List.length_cons, length], ?_, ?_⟩
    · intro i hi
      cases i with
      | zero => exact read
      | succ i =>
        have place : k + (i + 1) = k + 1 + i := by omega
        rw [place]
        exact reads i (by simpa using hi)
    · intro extra
      have step : s.next k = ((r.toPoint s.header.transforms).map some, k + 1) := by
        rw [next_of_lt inside, taken]
        rfl
      have row : left + 1 + extra = left + extra + 1 := by omega
      rw [row, List.replicate_succ, answers_readPoint step, later]
      rfl

end Source

namespace Reader

variable {m : Medium} {codec : Codec} {h : Header} {data : Bytes}

/-- Whatever a codec gives, a reader opens exactly where its bytes are as many as the points take,
and otherwise says what is wrong with them. From an opened reader nothing is read past the end of
these bytes: no call fails in the medium, a number below the number of points is never out of range,
and a record that makes no point has a scan angle that is out of range. In order there are as many
points as the header says, each made of its own part of the bytes. -/
theorem mishaps_of_decoded (read : (Header.decode m.rest).result = .ok (h, data))
    (compressed : h.compressed = true) :
    let opened := (ofMedium m (some codec)).result
    ((∃ r, opened = .ok r) ↔ ∃ records, codec.decode h data = .ok records ∧
        h.recordsSize < Cursor.positionLimit ∧ records.length = h.recordsSize) ∧
      (∀ e, codec.decode h data = .error e → opened = .error e) ∧
      (∀ records, codec.decode h data = .ok records → Cursor.positionLimit ≤ h.recordsSize →
        opened = .error (.tooManyPoints h.numberOfPoints.toNat h.version)) ∧
      (∀ records, codec.decode h data = .ok records → h.recordsSize < Cursor.positionLimit →
        records.length ≠ h.recordsSize →
        opened = .error (.decodedLength h.recordsSize records.length)) ∧
      ∀ r, opened = .ok r → ∃ records, codec.decode h data = .ok records ∧
        (∀ calls call, ∀ e ∈ ((r.answers calls).2.answer call).1.errors,
          Mishap h (.close ∈ calls) call e) ∧
        ∃ stored : List Point.Record, stored.length = h.numberOfPoints.toNat ∧
          (∀ (i : Nat) (hi : i < stored.length), Point.Record.decoder h.format
            (records.part (i * h.format.length) h.format.length) = some (stored[i], [])) ∧
          ∀ extra, (r.answers (List.replicate (stored.length + extra) .readPoint)).1 =
            stored.map (fun p => .next ((p.toPoint h.transforms).map some)) ++
              List.replicate extra (.next (.ok none)) := by
  intro opened
  have unpacks : opened = (decompress h (some codec) data).result.map (unpacked h) :=
    result_ofMedium_decompress read compressed
  have opens (r : Reader) : opened = .ok r ↔
      ∃ records, (decompress h (some codec) data).result = .ok records ∧ unpacked h records = r := by
    rw [unpacks]
    cases (decompress h (some codec) data).result <;> simp [Except.map]
  simp only [result_decompress_eq_ok] at opens
  refine ⟨?_, ?_, ?_, ?_, ?_⟩
  · simp [opens]
  · intro e failed
    rw [unpacks, result_decompress_error failed]
    rfl
  · intro records decoded far
    rw [unpacks, result_decompress decoded, if_pos far]
    rfl
  · intro records decoded near other
    rw [unpacks, result_decompress decoded, if_neg (Nat.not_le.2 near), if_pos other]
    rfl
  · intro r found
    obtain ⟨records, ⟨decoded, addressable, length⟩, rfl⟩ := (opens r).1 found
    have whole := Source.whole_unpacked (Header.decode_sound read).1 length addressable
    have agrees := Source.agrees_unpacked h records
    refine ⟨records, decoded, ?_, ?_⟩
    · intro calls call e mem
      have after := (Source.agrees_answers whole.regular agrees calls).2
      rw [(Source.agrees_answer whole.regular after call).1] at mem
      cases Source.mishap_of_answer whole mem with
      | closed call was => exact .closed call (Source.close_mem_of_answers was)
      | readPointAt index outside => exact .readPointAt index outside
      | seek index outside => exact .seek index outside
      | scanAngle call rank outside => exact .scanAngle call rank outside
    · obtain ⟨stored, count, reads, answers⟩ := Source.answers_whole whole (Nat.zero_add _)
      refine ⟨stored, count, ?_, ?_⟩
      · intro i hi
        have place : (Source.unpacked h records).bytes (0 + i) =
            records.part (i * h.format.length) h.format.length := by
          rw [Nat.zero_add, Source.bytes, Source.place, Bytes.part]
          simp [Source.unpacked, Source.width]
        rw [← place]
        exact reads i hi
      · intro extra
        rw [count, (Source.agrees_answers whole.regular agrees _).1]
        exact answers extra

def packed : Header :=
  [Header.Edit.compressed true, .finalize 2 (Vector.replicate 5 0) .zero].foldl Header.tryEdit
    (.empty 2017 1)

theorem packed_sound : packed.WellFormed ∧ packed.HasRoom :=
  ((Header.Reachable.empty 2017 1).tryEdits _).sound

def crooked : Codec where
  describes _ := false
  vlr _ := .error .compressionUnsupported
  decode _ _ := .ok (Bytes.fill 36 0 ++ [100] ++ Bytes.fill 3 0)
  encode _ _ := .ok []

theorem mishaps_of_decoded_crooked :
    ∃ m r p, (Header.decode m.rest).result = .ok (packed, [9]) ∧ packed.compressed = true ∧
      (ofMedium m (some crooked)).result = .ok r ∧
      (∀ calls call, ∀ e ∈ ((r.answers calls).2.answer call).1.errors,
        Mishap packed (.close ∈ calls) call e) ∧
      (r.answers (List.replicate 3 .readPoint)).1 =
        [.next (.ok (some p)), .next (.error (.invalidArgument (.scanAngle 100))),
          .next (.ok none)] := by
  let m := Medium.ofBytes (packed.front ++ [9])
  have rest : m.rest = packed.front ++ [9] := by rw [Medium.rest_eq, Medium.bytes_ofBytes]; rfl
  have small : ∀ n ∈ packed.numberOfPointsByReturn.toList, n.toNat ≤ Header.maxCount := by
    rw [show packed.numberOfPointsByReturn.toList = [0, 0, 0, 0, 0] by decide +kernel]
    simp [Header.maxCount]
  have read :=
    Header.decode_front_of_le packed_sound.1 packed_sound.2 (by decide +kernel) small [9]
  rw [← rest] at read
  obtain ⟨opens, -, -, -, later⟩ := @mishaps_of_decoded m crooked _ _ read rfl
  obtain ⟨r, opened⟩ := opens.2 ⟨_, rfl, by decide +kernel, by decide +kernel⟩
  obtain ⟨records, decoded, mishaps, stored, count, reads, answers⟩ := later r opened
  cases decoded
  match stored, count, reads, answers with
  | [first, second], _, reads, answers =>
    let level : Point.Record := ⟨0, 0, 0, 0, 0, 0, 0, 0, 0, none, none, []⟩
    have firstRead : some (first, ([] : Bytes)) = some (level, []) :=
      (reads 0 Nat.zero_lt_two).symm.trans (by decide +kernel)
    have secondRead : some (second, ([] : Bytes)) = some ({ level with scanAngle := 100 }, []) :=
      (reads 1 Nat.one_lt_two).symm.trans (by decide +kernel)
    obtain rfl : first = level := congrArg Prod.fst (Option.some.inj firstRead)
    obtain rfl : second = _ := congrArg Prod.fst (Option.some.inj secondRead)
    exact ⟨m, r, _, read, rfl, opened, mishaps, answers 1⟩

end Reader

end Lidar
