import Lidar.Proofs.Medium
import Lidar.Proofs.Point.Record
import Lidar.Proofs.Writer.Tally

/-!
# Writing point after point

A writer of points that are not compressed has put a header and the records of all accepted points
into its medium, one behind the other, and its tally is that of the same records. A call that is
rejected changes nothing, so after any calls the records are those of the accepted points, in the
order in which they were accepted.
-/
namespace Lidar.Writer

inductive Call where
  | writePoint (p : Point)
  | writePoints (ps : List Point)

def Call.points : Call → List Point
  | .writePoint p => [p]
  | .writePoints ps => ps

def answer (w : Writer) : Call → Except Error Unit × Writer
  | .writePoint p => settle (writePoint p w)
  | .writePoints ps => settle (writePoints ps w)

def run (w : Writer) : List Call → List Point × Writer
  | [] => ([], w)
  | call :: calls =>
    match w.answer call with
    | (.ok (), w) => (w.run calls).map (call.points ++ ·) id
    | (.error _, w) => w.run calls

def Room (version : Version) (n : Nat) : Prop :=
  version.supports .largeFiles = true ∨ n ≤ Header.maxCount

def encodeAll (f : Format) (records : List Point.Record) : Bytes :=
  records.flatMap (Point.Record.encode f)

theorem length_encodeAll (f : Format) (records : List Point.Record) :
    (encodeAll f records).length = records.length * (f.standardLength + f.extraBytes.toNat) := by
  induction records with
  | nil => rw [List.length_nil, Nat.zero_mul]; rfl
  | cons r records ih =>
    have length := Point.Record.length_encode f r
    unfold encodeAll at ih ⊢
    rw [List.flatMap_cons, List.length_append, length, ih, List.length_cons, Nat.succ_mul,
      Nat.add_comm]

/-- A writer with a header has counted these records, whatever its medium has made of them. -/
structure Counted (h : Header) (records : List Point.Record) (w : Writer) : Prop where
  header : w.header = h
  opened : w.isClosed = false
  tally : w.tally = .counted h.transforms records
  room : Room h.version records.length

/-- A writer that was opened on a medium with a header has taken these records. -/
structure Taken (m : Medium) (h : Header) (records : List Point.Record) (w : Writer) : Prop where
  header : w.header = h
  start : w.start = m.position
  output : w.output? = some .plain
  wrote : m.Wrote (h.front ++ encodeAll h.format records) w.medium
  tally : w.tally = .counted h.transforms records
  room : Room h.version records.length

variable {m : Medium} {h : Header} {records : List Point.Record} {w : Writer}

theorem isClosed_of_output {output : Output} (h : w.output? = some output) :
    w.isClosed = false := by
  rw [isClosed, h]
  rfl

theorem Taken.counted (taken : Taken m h records w) : Counted h records w :=
  ⟨taken.header, isClosed_of_output taken.output, taken.tally, taken.room⟩

theorem Counted.points (counted : Counted h records w) (small : records.length < UInt64.size) :
    w.tally.points.toNat = records.length := by
  rw [counted.tally, Tally.points_counted, UInt64.toNat_ofNat_of_lt' small]

theorem Room.mono {version : Version} {n k : Nat} (room : Room version n) (le : k ≤ n) :
    Room version k :=
  room.imp_right (Nat.le_trans le)

/-- What is known of a writer that has counted records stays known when one more is written. -/
structure Keeps (h : Header) (P : List Point.Record → Writer → Prop) : Prop where
  counted : ∀ {records w}, P records w → Counted h records w
  record : ∀ {records w} (r : Point.Record), P records w → Room h.version (records.length + 1) →
    ∃ w', writeRecord r w = .ok () w' ∧ P (records ++ [r]) w'

variable {P : List Point.Record → Writer → Prop}

theorem writeRecord_of_output {r : Point.Record} {w' : Writer}
    (put : output (r.encode w.header.format) w = .ok () w') :
    writeRecord r w = .ok () { w' with tally := w'.tally.add r w'.header.transforms } := by
  unfold writeRecord
  rw [Success.run_get_bind, Success.run_bind_ok put]
  rfl

theorem Counted.add (counted : Counted h records w) (r : Point.Record)
    (room : Room h.version (records.length + 1)) :
    Counted h (records ++ [r]) { w with tally := w.tally.add r w.header.transforms } where
  header := counted.header
  opened := counted.opened
  tally := by
    rw [Tally.counted_append, ← counted.tally, ← counted.header]
    rfl
  room := by rwa [List.length_append]

theorem writeRecord_eq (taken : Taken m h records w) (r : Point.Record)
    (room : Room h.version (records.length + 1)) :
    ∃ w', writeRecord r w = .ok () w' ∧ Taken m h (records ++ [r]) w' := by
  obtain ⟨m', written, wrote⟩ :=
    Medium.write_eq taken.wrote.reliable .writingPoint (r.encode h.format)
  have put : output (r.encode w.header.format) w = .ok () { w with medium := m' } := by
    unfold output
    rw [taken.output, taken.header, written]
  have counted := taken.counted.add r room
  refine ⟨_, writeRecord_of_output put, ?_⟩
  exact {
    header := taken.header
    start := taken.start
    output := taken.output
    wrote := by
      rw [encodeAll, List.flatMap_append, ← List.append_assoc, List.flatMap_singleton]
      exact taken.wrote.append wrote
    tally := counted.tally
    room := counted.room }

theorem taken_keeps : Keeps h (Taken m h) := ⟨Taken.counted, fun r taken => writeRecord_eq taken r⟩

theorem Keeps.writeRecords (keeps : Keeps h P) (kept : P records w) (more : List Point.Record)
    (room : Room h.version (records.length + more.length)) :
    ∃ w', writeRecords more w = .ok () w' ∧ P (records ++ more) w' := by
  induction more generalizing records w with
  | nil => exact ⟨w, rfl, by rwa [List.append_nil]⟩
  | cons r more ih =>
    have room₁ : Room h.version (records.length + 1) := by
      apply room.mono
      rw [List.length_cons]
      omega
    obtain ⟨w₁, written, kept₁⟩ := keeps.record r kept room₁
    have room₂ : Room h.version ((records ++ [r]).length + more.length) := by
      rw [List.length_append, List.length_singleton, Nat.add_assoc, Nat.add_comm 1]
      exact room
    obtain ⟨w₂, later, kept₂⟩ := ih kept₁ room₂
    refine ⟨w₂, ?_, ?_⟩
    · unfold Writer.writeRecords
      rw [Success.run_bind_ok written]
      exact later
    · rwa [List.append_assoc] at kept₂

def recordsOf (w : Writer) (points : List Point) : Except Error (List Point.Record) := do
  w.checkOpen
  w.checkCapacity points.length
  points.mapM w.recordOf

theorem writePoint_eq_writePoints (p : Point) : writePoint p = writePoints [p] := by
  unfold writePoint writePoints
  apply bind_congr
  intro w
  apply bind_congr
  intro _
  apply bind_congr
  intro _
  rw [List.mapM_cons, List.mapM_nil]
  cases w.recordOf p with
  | error e => rfl
  | ok r =>
    show writeRecord r = writeRecord r >>= fun _ => pure ()
    rw [bind_pure_unit]

theorem answer_eq_writePoints (w : Writer) (call : Call) :
    w.answer call = settle (writePoints call.points w) := by
  cases call with
  | writePoint p =>
    show settle (writePoint p w) = settle (writePoints [p] w)
    rw [writePoint_eq_writePoints]
  | writePoints ps => rfl

theorem answer_eq_writeRecords (w : Writer) (call : Call) :
    w.answer call =
      match w.recordsOf call.points with
      | .ok more => settle (writeRecords more w)
      | .error e => (.error e, w) := by
  rw [answer_eq_writePoints]
  unfold writePoints recordsOf
  rw [Success.run_get_bind]
  cases w.checkOpen with
  | error e => rfl
  | ok _ =>
    rw [Success.run_ofExcept_bind_ok rfl]
    cases w.checkCapacity call.points.length with
    | error e => rfl
    | ok _ =>
      rw [Success.run_ofExcept_bind_ok rfl]
      cases call.points.mapM w.recordOf <;> rfl

theorem checkOpen_eq_ok : w.checkOpen = .ok () ↔ w.isClosed = false := by
  unfold checkOpen
  cases w.isClosed <;> simp

theorem checkCapacity_eq_ok_iff (n : Nat) :
    w.checkCapacity n = .ok () ↔ Room w.header.version (w.tally.points.toNat + n) := by
  unfold checkCapacity Room
  cases w.header.version.supports .largeFiles with
  | true => simp
  | false =>
    simp only [Bool.not_false, Bool.true_and, decide_eq_true_eq, Bool.false_eq_true, false_or]
    unfold Header.maxCount UInt64.size
    split
    · next full => exact ⟨fun passed => (by cases passed), fun fits => by omega⟩
    · next fits => exact ⟨fun _ => by omega, fun _ => rfl⟩

theorem checkCapacity_eq_ok (counted : Counted h records w) {n : Nat} :
    w.checkCapacity n = .ok () ↔ Room h.version (records.length + n) := by
  rw [checkCapacity_eq_ok_iff, counted.header]
  refine or_congr_right' fun old => ?_
  have small := counted.room.resolve_left old
  rw [counted.points (Nat.lt_of_le_of_lt small (by decide))]

def Stored (h : Header) (points : List Point) (records : List Point.Record) : Prop :=
  List.Forall₂ (fun p r => p.toRecord h.transforms h.format = .ok r) points records

theorem Stored.unique {points : List Point} {records others : List Point.Record}
    (stored : Stored h points records) (same : Stored h points others) : records = others :=
  List.right_unique_forall₂' (fun _ _ _ first second => Except.ok.inj (first.symm.trans second))
    stored same

theorem recordsOf_eq_ok (counted : Counted h records w) {points : List Point}
    {more : List Point.Record} :
    w.recordsOf points = .ok more ↔
      Room h.version (records.length + more.length) ∧ Stored h points more := by
  unfold recordsOf Stored
  rw [Success.unit_bind_eq_ok, Success.unit_bind_eq_ok, checkOpen_eq_ok,
    checkCapacity_eq_ok counted, Success.list_mapM_eq_ok]
  unfold recordOf
  rw [counted.header]
  constructor
  · intro ⟨_, room, stored⟩
    rw [stored.length_eq] at room
    exact ⟨room, stored⟩
  · intro ⟨room, stored⟩
    rw [← stored.length_eq] at room
    exact ⟨counted.opened, room, stored⟩

theorem answer_of_error {call : Call} {e : Error} (found : w.recordsOf call.points = .error e) :
    w.answer call = (.error e, w) := by
  rw [answer_eq_writeRecords, found]

theorem Keeps.answer_of_ok (keeps : Keeps h P) (kept : P records w) {call : Call}
    {more : List Point.Record} (found : w.recordsOf call.points = .ok more) :
    ∃ w', w.answer call = (.ok (), w') ∧ P (records ++ more) w' := by
  obtain ⟨room, -⟩ := (recordsOf_eq_ok (keeps.counted kept)).1 found
  obtain ⟨w', written, kept'⟩ := keeps.writeRecords kept more room
  refine ⟨w', ?_, kept'⟩
  rw [answer_eq_writeRecords, found]
  exact congrArg settle written

/-- A call is rejected and changes nothing, or the records of all its points are taken. -/
theorem answer_eq (taken : Taken m h records w) (call : Call) :
    (∃ e, w.answer call = (.error e, w)) ∨
      ∃ more w', w.answer call = (.ok (), w') ∧ Stored h call.points more ∧
        Taken m h (records ++ more) w' := by
  cases found : w.recordsOf call.points with
  | error e => exact .inl ⟨e, answer_of_error found⟩
  | ok more =>
    obtain ⟨w', accepted, taken'⟩ := taken_keeps.answer_of_ok taken found
    exact .inr ⟨more, w', accepted, ((recordsOf_eq_ok taken.counted).1 found).2, taken'⟩

theorem answer_of_stored (taken : Taken m h records w) (call : Call) {more : List Point.Record}
    (room : Room h.version (records.length + more.length)) (stored : Stored h call.points more) :
    ∃ w', w.answer call = (.ok (), w') ∧ Taken m h (records ++ more) w' :=
  taken_keeps.answer_of_ok taken ((recordsOf_eq_ok taken.counted).2 ⟨room, stored⟩)

/-- After any calls what was known of the writer is known with the records of the points that were
accepted. -/
theorem Keeps.run (keeps : Keeps h P) (kept : P records w) (calls : List Call) :
    ∃ more, Stored h (w.run calls).1 more ∧ P (records ++ more) (w.run calls).2 := by
  induction calls generalizing records w with
  | nil => exact ⟨[], .nil, by rwa [List.append_nil]⟩
  | cons call calls ih =>
    unfold Writer.run
    cases found : w.recordsOf call.points with
    | error e =>
      rw [answer_of_error found]
      exact ih kept
    | ok first =>
      obtain ⟨w', accepted, kept'⟩ := keeps.answer_of_ok kept found
      obtain ⟨later, storedLater, keptLater⟩ := ih kept'
      rw [accepted]
      have stored := ((recordsOf_eq_ok (keeps.counted kept)).1 found).2
      refine ⟨first ++ later, List.rel_append stored storedLater, ?_⟩
      rw [← List.append_assoc]
      exact keptLater

theorem run_taken (taken : Taken m h records w) (calls : List Call) :
    ∃ more, Stored h (w.run calls).1 more ∧ Taken m h (records ++ more) (w.run calls).2 :=
  taken_keeps.run taken calls

def replies (w : Writer) : List Call → List (Except Error Unit)
  | [] => []
  | call :: calls => (w.answer call).1 :: (w.answer call).2.replies calls

theorem recordsOf_congr {h' : Header} {w' : Writer} (counted : Counted h records w)
    (counted' : Counted h' records w') (version : h'.version = h.version)
    (transforms : h'.transforms = h.transforms) (format : h'.format = h.format)
    (points : List Point) : w'.recordsOf points = w.recordsOf points := by
  have tally : w'.tally = w.tally := by rw [counted.tally, counted'.tally, transforms]
  have record : w'.recordOf = w.recordOf := by
    funext p
    unfold recordOf
    rw [counted.header, counted'.header, transforms, format]
  unfold recordsOf checkOpen checkCapacity
  rw [counted.opened, counted'.opened, tally, record, counted.header, counted'.header, version]

theorem Keeps.pair {h' : Header} {P' : List Point.Record → Writer → Prop} {w' : Writer}
    (keeps : Keeps h P) (keeps' : Keeps h' P') (version : h'.version = h.version)
    (transforms : h'.transforms = h.transforms) (format : h'.format = h.format)
    (kept : P records w) (kept' : P' records w') (calls : List Call) :
    w'.replies calls = w.replies calls ∧ (w'.run calls).1 = (w.run calls).1 ∧
      ∃ more, Stored h (w.run calls).1 more ∧ P (records ++ more) (w.run calls).2 ∧
        P' (records ++ more) (w'.run calls).2 := by
  -- Both have counted the same records all the time, and only these decide about a call.
  induction calls generalizing records w w' with
  | nil =>
    refine ⟨rfl, rfl, [], .nil, ?_, ?_⟩
    · rwa [List.append_nil]
    · rwa [List.append_nil]
  | cons call calls ih =>
    have same := recordsOf_congr (keeps.counted kept) (keeps'.counted kept') version transforms
      format call.points
    unfold Writer.run replies
    cases found : w.recordsOf call.points with
    | error e =>
      obtain ⟨replies, accepted, rest⟩ := ih kept kept'
      rw [answer_of_error found, answer_of_error (same.trans found), replies]
      exact ⟨rfl, accepted, rest⟩
    | ok first =>
      obtain ⟨w₁, answer, kept₁⟩ := keeps.answer_of_ok kept found
      obtain ⟨w₁', answer', kept₁'⟩ := keeps'.answer_of_ok kept' (same.trans found)
      obtain ⟨replies, accepted, later, stored, after, after'⟩ := ih kept₁ kept₁'
      rw [answer, answer', replies]
      rw [List.append_assoc] at after after'
      refine ⟨rfl, congrArg (call.points ++ ·) accepted, first ++ later, ?_, after, after'⟩
      exact List.rel_append ((recordsOf_eq_ok (keeps.counted kept)).1 found).2 stored

def Accepts (w : Writer) : List Call → Prop
  | [] => True
  | call :: calls => (w.answer call).1 = .ok () ∧ (w.answer call).2.Accepts calls

theorem accepts_of_stored (taken : Taken m h records w) (calls : List Call)
    {more : List Point.Record} (room : Room h.version (records.length + more.length))
    (stored : Stored h (calls.flatMap Call.points) more) :
    w.Accepts calls ∧ Taken m h (records ++ more) (w.run calls).2 := by
  induction calls generalizing records w more with
  | nil =>
    cases stored
    exact ⟨trivial, by rwa [List.append_nil]⟩
  | cons call calls ih =>
    have first := List.forall₂_take call.points.length stored
    have later := List.forall₂_drop call.points.length stored
    rw [List.flatMap_cons, List.take_left] at first
    rw [List.flatMap_cons, List.drop_left] at later
    have split := List.take_append_drop call.points.length more
    have length := congrArg List.length split
    rw [List.length_append] at length
    obtain ⟨w', accepted, taken'⟩ := answer_of_stored taken call (room.mono (by omega)) first
    have room' : Room h.version ((records ++ more.take call.points.length).length +
        (more.drop call.points.length).length) := by
      rw [List.length_append, Nat.add_assoc, length]
      exact room
    obtain ⟨accepts, last⟩ := ih taken' room' later
    unfold Accepts run
    rw [accepted]
    rw [List.append_assoc, split] at last
    exact ⟨⟨rfl, accepts⟩, last⟩

end Lidar.Writer
