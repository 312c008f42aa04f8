import Lidar.Proofs.Writer.Counts

/-!
# Calls of several points

A call of several points looks at all of them before it writes one. It is accepted when the points
would be accepted one after the other, and then leaves the same writer. A call that is rejected
leaves no trace, so that the file is the same as without it.
-/
namespace Lidar.Writer

variable {h : Header} {w w' : Writer} {records : List Point.Record} {points : List Point}

inductive Rejection : Error → Prop where
  | tooManyPoints (n : Nat) (version : Version) : Rejection (.tooManyPoints n version)
  | schemaMismatch (format : Format) : Rejection (.schemaMismatch format)
  | invalidArgument (refusal : Refusal) : Rejection (.invalidArgument refusal)
  | invalidCoordinate (value : Binary64) (transform : Transform) :
    Rejection (.invalidCoordinate value transform)

theorem rejection_of_toRecord (p : Point) (t : Axes Transform) (f : Format) :
    Success.FailsWith Rejection (p.toRecord t f) := by
  have returns (field : ReturnField) (n : UInt8) :
      Success.FailsWith Rejection (Point.checkReturn field n) := by
    intro e failed
    unfold Point.checkReturn at failed
    split at failed <;> cases failed
    exact .invalidArgument _
  have coordinate (t : Transform) (value : Binary64) :
      Success.FailsWith Rejection (t.inverse value) := by
    intro e failed
    unfold Transform.inverse at failed
    split at failed <;> cases failed
    exact .invalidCoordinate value t
  unfold Point.toRecord
  split
  · rintro _ ⟨⟩
    exact .schemaMismatch f
  · apply (returns _ _).bind fun _ => ?_
    apply (returns _ _).bind fun _ => ?_
    apply (coordinate _ _).bind fun _ => ?_
    apply (coordinate _ _).bind fun _ => ?_
    exact (coordinate _ _).bind fun _ => Success.failsWith_ok

/-- The version cannot count this many points more, or one of them has no record. -/
def Unacceptable (w : Writer) (points : List Point) : Prop :=
  ¬Room w.header.version (w.tally.points.toNat + points.length) ∨
    ∃ p ∈ points, ∃ cause, p.toRecord w.header.transforms w.header.format = .error cause

theorem recordsOf_error (opened : w.isClosed = false) :
    Success.FailsWith (fun e => Rejection e ∧ w.Unacceptable points) (w.recordsOf points) := by
  refine Success.FailsWith.bind ?_ fun _ => Success.FailsWith.bind ?_ fun _ => ?_
  · rw [checkOpen_eq_ok.2 opened]
    exact Success.failsWith_ok
  · intro e failed
    have full : ¬Room w.header.version (w.tally.points.toNat + points.length) := by
      rw [← checkCapacity_eq_ok_iff, failed]
      exact nofun
    unfold checkCapacity at failed
    dsimp only at failed
    split at failed <;> cases failed
    exact ⟨.tooManyPoints _ _, .inl full⟩
  · refine Success.failsWith_mapM fun p mem e failed => ?_
    exact ⟨rejection_of_toRecord _ _ _ _ failed, .inr ⟨p, mem, e, failed⟩⟩

theorem not_unacceptable {more : List Point.Record} (found : w.recordsOf points = .ok more) :
    ¬w.Unacceptable points := by
  unfold recordsOf at found
  rw [Success.unit_bind_eq_ok, Success.unit_bind_eq_ok, checkCapacity_eq_ok_iff,
    Success.list_mapM_eq_ok] at found
  obtain ⟨-, room, stored⟩ := found
  rintro (full | ⟨p, mem, cause, failed⟩)
  · exact full room
  · obtain ⟨i, hi, rfl⟩ := List.getElem_of_mem mem
    have record := stored.get hi (stored.length_eq ▸ hi)
    exact nomatch failed.symm.trans record

theorem answer_of_unacceptable (opened : w.isClosed = false) {call : Call}
    (bad : w.Unacceptable call.points) :
    ∃ cause, Rejection cause ∧ w.answer call = (.error cause, w) := by
  cases found : w.recordsOf call.points with
  | ok more => exact absurd bad (not_unacceptable found)
  | error cause =>
    exact ⟨cause, (recordsOf_error opened cause found).1, answer_of_error found⟩

theorem output_of_unlimited (opened : w.isClosed = false) (unlimited : w.medium.capacity? = none)
    (bytes : Bytes) :
    ∃ w', output bytes w = .ok () w' ∧ w'.isClosed = false ∧ w'.medium.capacity? = none := by
  unfold output
  cases found : w.output? with
  | none =>
    rw [isClosed, found] at opened
    cases opened
  | some place =>
    cases place with
    | plain =>
      obtain ⟨m, written, free, -⟩ :=
        Medium.write_of_unlimited unlimited .writingPoint bytes
      simp only [written]
      exact ⟨_, rfl, rfl, free⟩
    | compressed codec buffer => exact ⟨_, rfl, rfl, unlimited⟩

theorem writeRecords_of_unlimited (opened : w.isClosed = false)
    (unlimited : w.medium.capacity? = none) (more : List Point.Record) :
    ∃ w', writeRecords more w = .ok () w' := by
  induction more generalizing w with
  | nil => exact ⟨w, rfl⟩
  | cons r more ih =>
    obtain ⟨w₁, put, opened₁, unlimited₁⟩ :=
      output_of_unlimited opened unlimited (r.encode w.header.format)
    unfold writeRecords
    rw [Success.run_bind_ok (writeRecord_of_output put)]
    exact ih opened₁ unlimited₁

theorem unacceptable_of_answer (opened : w.isClosed = false)
    (unlimited : w.medium.capacity? = none) {call : Call} {cause : Error}
    (rejected : w.answer call = (.error cause, w')) : w.Unacceptable call.points ∧ w' = w := by
  rw [answer_eq_writeRecords] at rejected
  cases found : w.recordsOf call.points with
  | ok more =>
    obtain ⟨w₁, written⟩ := writeRecords_of_unlimited opened unlimited more
    simp only [found, written] at rejected
    cases rejected
  | error _ =>
    simp only [found] at rejected
    cases rejected
    exact ⟨(recordsOf_error opened _ found).2, rfl⟩

theorem counted_of_writeRecord (counted : Counted h records w) {r : Point.Record}
    (room : Room h.version (records.length + 1)) (written : writeRecord r w = .ok () w') :
    Counted h (records ++ [r]) w' := by
  rcases writeRecord_counted counted r room with ⟨w₁, same, counted'⟩ | ⟨w₁, failed, -⟩
  · rw [written] at same
    cases same
    exact counted'
  · rw [written] at failed
    cases failed

theorem answer_eq_ok (counted : Counted h records w) {call : Call} :
    w.answer call = (.ok (), w') ↔
      ∃ more, (Room h.version (records.length + more.length) ∧ Stored h call.points more) ∧
        writeRecords more w = .ok () w' := by
  rw [answer_eq_writeRecords]
  simp only [← recordsOf_eq_ok counted]
  cases found : w.recordsOf call.points with
  | error e => exact ⟨nofun, fun ⟨_, same, _⟩ => nomatch same⟩
  | ok more =>
    simp only [Except.ok.injEq, exists_eq_left']
    cases writeRecords more w with
    | ok _ w₁ => simp [settle]
    | error e w₁ => simp [settle]

theorem answer_cons (counted : Counted h records w) {p : Point} :
    w.answer (.writePoints (p :: points)) = (.ok (), w') ↔
      ∃ w₁, w.answer (.writePoint p) = (.ok (), w₁) ∧
        w₁.answer (.writePoints points) = (.ok (), w') := by
  simp only [answer_eq_ok counted, Call.points]
  constructor
  · rintro ⟨_, ⟨room, stored⟩, written⟩
    cases stored with
    | @cons _ r _ more first later =>
      obtain ⟨_, w₁, one, others⟩ := Success.run_bind_eq_ok.1 written
      have room₁ : Room h.version (records.length + 1) :=
        room.mono (by rw [List.length_cons]; omega)
      have counted₁ := counted_of_writeRecord counted room₁ one
      refine ⟨w₁, ⟨[r], ⟨room₁, .cons first .nil⟩, Success.run_bind_eq_ok.2 ⟨(), w₁, one, rfl⟩⟩,
        (answer_eq_ok counted₁).2 ⟨more, ⟨?_, later⟩, others⟩⟩
      rwa [List.length_append, List.length_singleton, Nat.add_assoc, Nat.add_comm 1]
  · rintro ⟨w₁, ⟨_, ⟨room₁, stored⟩, one⟩, others⟩
    cases stored with
    | @cons _ r _ none first last =>
      cases last
      obtain ⟨_, _, one, ⟨⟩⟩ := Success.run_bind_eq_ok.1 one
      have counted₁ := counted_of_writeRecord counted room₁ one
      obtain ⟨more, ⟨room, later⟩, others⟩ := (answer_eq_ok counted₁).1 others
      refine ⟨r :: more, ⟨?_, .cons first later⟩,
        Success.run_bind_eq_ok.2 ⟨(), w₁, one, others⟩⟩
      rwa [List.length_append, List.length_singleton, Nat.add_assoc, Nat.add_comm 1] at room

theorem accepts_cons {call : Call} {calls : List Call} :
    w.Accepts (call :: calls) ∧ (w.run (call :: calls)).2 = w' ↔
      ∃ w₁, w.answer call = (.ok (), w₁) ∧ w₁.Accepts calls ∧ (w₁.run calls).2 = w' := by
  rw [Accepts, run]
  obtain ⟨result, w₁⟩ := w.answer call
  cases result with
  | error e => simp
  | ok _ => simp

theorem answer_writePoints (counted : Counted h records w) :
    w.answer (.writePoints points) = (.ok (), w') ↔
      w.Accepts (points.map .writePoint) ∧ (w.run (points.map .writePoint)).2 = w' := by
  induction points generalizing w records with
  | nil =>
    rw [answer_eq_ok counted]
    constructor
    · rintro ⟨_, ⟨-, ⟨⟩⟩, ⟨⟩⟩
      exact ⟨trivial, rfl⟩
    · rintro ⟨-, rfl⟩
      exact ⟨[], ⟨counted.room, .nil⟩, rfl⟩
  | cons p points ih =>
    rw [List.map_cons, accepts_cons, answer_cons counted]
    refine exists_congr fun w₁ => and_congr_right fun one => ?_
    obtain ⟨more, -, counted₁⟩ := answer_counted counted (.writePoint p)
    rw [one] at counted₁
    exact ih counted₁

/-- Several points are written as one after the other, and what is unacceptable leaves no trace. -/
structure Batches (w : Writer) : Prop where
  /-- Both ways the same writer is left. -/
  sequence : ∀ points w', w.answer (.writePoints points) = (.ok (), w') ↔
    w.Accepts (points.map .writePoint) ∧ (w.run (points.map .writePoint)).2 = w'
  rejected : ∀ call, w.Unacceptable call.points →
    ∃ cause, Rejection cause ∧ w.answer call = (.error cause, w)
  skipped : ∀ call later, w.Unacceptable call.points → w.run (call :: later) = w.run later
  /-- While no write fails, nothing else is rejected. -/
  only : w.medium.capacity? = none → ∀ call cause w', w.answer call = (.error cause, w') →
    w.Unacceptable call.points ∧ w' = w

/-- In a writer that has been opened and used, whatever its medium refused, several points are
written as one after the other, and a rejected call leaves no trace. -/
theorem batches_of_turns {m : Medium} {codec? : Option Codec}
    (opened : (onMedium m h codec?).1.result = .ok w) (turns : List Turn) :
    Batches (w.turns turns).2 := by
  have before : Counted w.header [] w := by
    obtain ⟨-, h', place, -, m', -, rfl⟩ := result_onMedium_eq_ok.1 opened
    exact ⟨rfl, rfl, rfl, .inr (Nat.zero_le _)⟩
  obtain ⟨records, -, counted⟩ := turns_counted before turns
  refine ⟨fun points w' => answer_writePoints counted,
    fun call => answer_of_unacceptable counted.opened, fun call later bad => ?_,
    fun unlimited call cause w' => unacceptable_of_answer counted.opened unlimited⟩
  obtain ⟨cause, -, rejected⟩ := answer_of_unacceptable counted.opened bad
  rw [run, rejected]

theorem batches_of_turns_sample :
    ∃ w cause, (onMedium (.ofBytes []) (.empty 2017 1) none).1.result = .ok w ∧
      let w' := (w.turns [.call (.writePoint sample)]).2
      Batches w' ∧
        w'.answer (.writePoints [sample, { sample with returnNumber := 8 }]) =
          (.error cause, w') := by
  obtain ⟨w, opened, taken⟩ := taken_empty (Medium.reliable_ofBytes [])
  have batches := batches_of_turns opened [.call (.writePoint sample)]
  obtain ⟨records, -, counted⟩ := turns_counted taken.counted [.call (.writePoint sample)]
  have bad : (w.turns [.call (.writePoint sample)]).2.Unacceptable
      [sample, { sample with returnNumber := 8 }] := by
    refine .inr ⟨{ sample with returnNumber := 8 }, by simp,
      .invalidArgument (.returnTooBig .returnNumber 8), ?_⟩
    rw [counted.header]
    rfl
  obtain ⟨cause, -, rejected⟩ := batches.rejected (.writePoints _) bad
  exact ⟨w, cause, opened, batches, rejected⟩

end Lidar.Writer
