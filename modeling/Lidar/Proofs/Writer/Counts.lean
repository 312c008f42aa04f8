import Lidar.Proofs.Writer.ReadBack

/-!
# The counts of a writer

A call of several points may fail after some of their records were written, and these stay. A
writer counts exactly the records that were written, whatever its medium refuses, so that its final
header is never refused for its counts.
-/
namespace Lidar.Writer

variable {h : Header} {codec? : Option Codec} {w : Writer} {records : List Point.Record}

def written (w : Writer) : List Point.Record → Nat
  | [] => 0
  | r :: later =>
    match writeRecord r w with
    | .ok () w => w.written later + 1
    | .error _ _ => 0

def accepted (w : Writer) (call : Call) : List Point :=
  match w.recordsOf call.points with
  | .ok more => call.points.take (w.written more)
  | .error _ => []

theorem written_of_ok {more : List Point.Record} {w' : Writer}
    (done : writeRecords more w = .ok () w') : w.written more = more.length := by
  induction more generalizing w with
  | nil => rfl
  | cons r more ih =>
    unfold writeRecords at done
    obtain ⟨_, w₁, first, later⟩ := Success.run_bind_eq_ok.1 done
    rw [written, first, List.length_cons]
    exact congrArg (· + 1) (ih later)

theorem length_of_recordsOf {points : List Point} {more : List Point.Record}
    (found : w.recordsOf points = .ok more) : more.length = points.length := by
  unfold recordsOf at found
  rw [Success.unit_bind_eq_ok, Success.unit_bind_eq_ok, Success.list_mapM_eq_ok] at found
  exact found.2.2.length_eq.symm

theorem accepted_of_ok {call : Call} (done : (w.answer call).1 = .ok ()) :
    w.accepted call = call.points := by
  rw [answer_eq_writeRecords] at done
  unfold accepted
  cases found : w.recordsOf call.points with
  | error e =>
    rw [found] at done
    cases done
  | ok more =>
    simp only [found] at done ⊢
    cases wrote : writeRecords more w with
    | error e w' =>
      rw [wrote] at done
      cases done
    | ok _ w' => rw [written_of_ok wrote, length_of_recordsOf found, List.take_length]

theorem output_counted (counted : Counted h records w) (bytes : Bytes) :
    ∃ w', Counted h records w' ∧
      (output bytes w = .ok () w' ∨ output bytes w = .error (.medium .writingPoint .full) w') := by
  have kept (m : Medium) (place : Output) :
      Counted h records { w with medium := m, output? := some place } :=
    ⟨counted.header, rfl, counted.tally, counted.room⟩
  unfold output
  cases found : w.output? with
  | none =>
    have closed := counted.opened
    rw [isClosed, found] at closed
    cases closed
  | some place =>
    cases place with
    | plain =>
      obtain ⟨m, -, -, wrote⟩ := Medium.put_write w.medium .writingPoint bytes
      refine ⟨_, kept m .plain, ?_⟩
      by_cases full : w.medium.room bytes.length < bytes.length
      · rw [if_pos full] at wrote
        rw [wrote]
        exact .inr rfl
      · rw [if_neg full] at wrote
        rw [wrote]
        exact .inl rfl
    | compressed codec buffer =>
      exact ⟨_, kept w.medium (.compressed codec (buffer ++ bytes.toByteArray)), .inl rfl⟩

theorem writeRecord_counted (counted : Counted h records w) (r : Point.Record)
    (room : Room h.version (records.length + 1)) :
    (∃ w', writeRecord r w = .ok () w' ∧ Counted h (records ++ [r]) w') ∨
      ∃ w', writeRecord r w = .error (.medium .writingPoint .full) w' ∧ Counted h records w' := by
  obtain ⟨w', kept, put | refused⟩ := output_counted counted (r.encode w.header.format)
  · exact .inl ⟨_, writeRecord_of_output put, kept.add r room⟩
  · unfold writeRecord
    rw [Success.run_get_bind, Success.run_bind_error refused]
    exact .inr ⟨w', rfl, kept⟩

theorem writeRecords_counted (counted : Counted h records w) (more : List Point.Record)
    (room : Room h.version (records.length + more.length)) :
    Counted h (records ++ more.take (w.written more)) (settle (writeRecords more w)).2 := by
  induction more generalizing records w with
  | nil =>
    rw [List.take_nil, List.append_nil]
    exact counted
  | cons r more ih =>
    rw [List.length_cons, Nat.add_comm more.length, ← Nat.add_assoc] at room
    have first := writeRecord_counted counted r (room.mono (Nat.le_add_right _ _))
    unfold writeRecords written
    rcases first with ⟨w', wrote, counted'⟩ | ⟨w', refused, kept⟩
    · rw [Success.run_bind_ok wrote, wrote]
      have later := ih counted' (by rwa [List.length_append])
      rwa [List.append_assoc] at later
    · -- The records behind one that is refused are not tried.
      rw [Success.run_bind_error refused, refused]
      rwa [List.take_zero, List.append_nil]

theorem answer_counted (counted : Counted h records w) (call : Call) :
    ∃ more, Stored h (w.accepted call) more ∧ Counted h (records ++ more) (w.answer call).2 := by
  rw [answer_eq_writeRecords]
  unfold accepted
  cases found : w.recordsOf call.points with
  | error e => exact ⟨[], .nil, by rwa [List.append_nil]⟩
  | ok more =>
    obtain ⟨room, stored⟩ := (recordsOf_eq_ok counted).1 found
    exact ⟨_, List.forall₂_take _ stored, writeRecords_counted counted more room⟩

/-- What an open writer goes through: a call, or another limit for the bytes of its medium. -/
inductive Turn where
  | call (call : Call)
  | limit (capacity? : Option Nat)

def turn (w : Writer) : Turn → List Point × Writer
  | .call call => (w.accepted call, (w.answer call).2)
  | .limit capacity? => ([], { w with medium := { w.medium with capacity? } })

def turns (w : Writer) : List Turn → List Point × Writer
  | [] => ([], w)
  | t :: later => ((w.turn t).2.turns later).map ((w.turn t).1 ++ ·) id

theorem Keeps.turns_calls {P : List Point.Record → Writer → Prop} (keeps : Keeps h P)
    (kept : P records w) (calls : List Call) : w.turns (calls.map .call) = w.run calls := by
  induction calls generalizing records w with
  | nil => rfl
  | cons call calls ih =>
    show ((w.answer call).2.turns (calls.map .call)).map (w.accepted call ++ ·) id = _
    unfold Writer.run
    cases found : w.recordsOf call.points with
    | error e =>
      have none : w.accepted call = [] := by
        unfold accepted
        rw [found]
      rw [answer_of_error found, none, ih kept]
      rfl
    | ok more =>
      obtain ⟨w', answer, kept'⟩ := keeps.answer_of_ok kept found
      have all : w.accepted call = call.points := by
        apply accepted_of_ok
        rw [answer]
      rw [answer, all, ih kept']

theorem turn_writePoint (counted : Counted h records w) {p : Point} {r : Point.Record}
    (stored : p.toRecord h.transforms h.format = .ok r)
    (room : Room h.version (records.length + 1)) :
    w.turn (.call (.writePoint p)) =
      match writeRecord r w with
      | .ok () w' => ([p], w')
      | .error _ w' => ([], w') := by
  have found : w.recordsOf [p] = .ok [r] := (recordsOf_eq_ok counted).2 ⟨room, .cons stored .nil⟩
  have one : writeRecords [r] w = writeRecord r w := by
    show (writeRecord r >>= fun _ => pure ()) w = _
    rw [bind_pure_unit]
  unfold turn
  simp only [answer_eq_writeRecords, accepted, Call.points, found, one, written]
  cases writeRecord r w <;> rfl

theorem Counted.limit (counted : Counted h records w) (capacity? : Option Nat) :
    Counted h records (w.turn (.limit capacity?)).2 :=
  ⟨counted.header, counted.opened, counted.tally, counted.room⟩

theorem turn_counted (counted : Counted h records w) (t : Turn) :
    ∃ more, Stored h (w.turn t).1 more ∧ Counted h (records ++ more) (w.turn t).2 := by
  cases t with
  | call call => exact answer_counted counted call
  | limit capacity? =>
    refine ⟨[], .nil, ?_⟩
    rw [List.append_nil]
    exact counted.limit capacity?

theorem turns_counted (counted : Counted h records w) (turns : List Turn) :
    ∃ more, Stored h (w.turns turns).1 more ∧ Counted h (records ++ more) (w.turns turns).2 := by
  induction turns generalizing records w with
  | nil => exact ⟨[], .nil, by rwa [List.append_nil]⟩
  | cons t turns ih =>
    obtain ⟨first, stored, counted'⟩ := turn_counted counted t
    obtain ⟨later, storedLater, countedLater⟩ := ih counted'
    refine ⟨first ++ later, List.rel_append stored storedLater, ?_⟩
    rw [← List.append_assoc]
    exact countedLater

theorem returnNumber_of_toRecord {p : Point} {t : Axes Transform} {f : Format} {r : Point.Record}
    (stored : p.toRecord t f = .ok r) : r.returnNumber = p.returnNumber.toNat := by
  obtain ⟨-, hr, hn, n, -, -, -, rfl⟩ := Point.toRecord_eq_ok.1 stored
  exact congrArg UInt8.toNat (Point.unpack_pack hr hn).1

theorem countP_of_stored {points : List Point} (stored : Stored h points records) (n : Nat) :
    records.countP (·.returnNumber == n) = points.countP (·.returnNumber.toNat == n) := by
  induction stored with
  | nil => rfl
  | cons first _ ih => rw [List.countP_cons, List.countP_cons, ih, returnNumber_of_toRecord first]

structure Counts (version : Version) (taken : List Point) (t : Tally) : Prop where
  points : t.points.toNat = taken.length
  byReturn : ∀ i (hi : i < 5), t.byReturn[i].toNat = taken.countP (·.returnNumber.toNat == i + 1)
  each : ∀ n ∈ t.byReturn.toList, n ≤ t.points
  sum : (t.byReturn.toList.map UInt64.toNat).sum ≤ t.points.toNat
  limit : t.points.toNat ≤ Header.maxCount ∨ version = ⟨1, 4⟩

theorem Counted.counts (counted : Counted h records w) {points : List Point}
    (stored : Stored h points records) (small : points.length < UInt64.size) :
    Counts h.version points w.tally := by
  have length := stored.length_eq
  rw [length] at small
  have total := counted.points small
  have returns := @Tally.toList_byReturn h.transforms records small
  rw [← counted.tally] at returns
  refine ⟨total.trans length.symm, ?_, ?_, ?_, ?_⟩
  · intro i hi
    have fits := Nat.lt_of_le_of_lt
      (List.countP_le_length (p := fun r : Point.Record => r.returnNumber == i + 1)) small
    rw [← countP_of_stored stored, counted.tally, Tally.byReturn_counted records i hi,
      UInt64.toNat_ofNat_of_lt' fits]
  · intro n hn
    rw [counted.tally] at hn
    rw [UInt64.le_iff_toNat_le, total]
    exact Tally.byReturn_le records n hn
  · rw [returns, total]
    exact Tally.sum_countP_le records
  · rw [total, ← Version.supports_largeFiles_iff]
    exact counted.room.symm

theorem failsInMedium_replaceHeader (hw : h.WellFormed) (writable : h.Writable) (start : Nat) :
    Medium.FailsInMedium (replaceHeader h start) := by
  apply (Medium.failsInMedium_seek _ _).bind
  intro _
  apply (Medium.failsInMedium_writeInTurn hw writable).bind
  intro _
  apply (Medium.failsInMedium_flush _).bind
  intro _
  exact Medium.failsInMedium_seek _ _

/-- The error is one of the medium, or that of the codec for the records that were held back. -/
def FailsOutside (h : Header) (w : Writer) (e : Error) : Prop :=
  (∃ operation fault, e = .medium operation fault) ∨
    ∃ codec buffer, w.output? = some (.compressed codec buffer) ∧
      codec.encode h (.ofPacked buffer) = .error e

theorem failsOutside_of_release {place : Output} {m m' : Medium} {e : Error}
    (found : w.output? = some place) (failed : release h place m = .error e m') :
    FailsOutside h w e := by
  cases place with
  | plain => cases failed
  | compressed codec buffer =>
    simp only [release] at failed
    cases encoded : codec.encode h (.ofPacked buffer) with
    | error e' =>
      rw [encoded, Success.run_ofExcept_bind_error rfl] at failed
      cases failed
      exact .inr ⟨codec, buffer, found, encoded⟩
    | ok bytes =>
      rw [encoded, Success.run_ofExcept_bind_ok rfl] at failed
      rcases Success.run_bind_eq_error.1 failed with failed | ⟨_, _, -, failed⟩
      · exact .inl (Medium.failsInMedium_write _ _ _ _ _ failed)
      · cases failed

theorem close_counted (counted : Counted h records w) (hw : h.WellFormed)
    (writable : h.Writable) :
    w.close.2.header = finalHeader h records ∧
      ∀ e, w.close.1.result = .error e → FailsOutside (finalHeader h records) w e := by
  have final := finalize_of_counted counted
  cases found : w.output? with
  | none =>
    have closed := counted.opened
    rw [isClosed, found] at closed
    cases closed
  | some place =>
    -- The header is final before anything of it is written, so that it stays whatever fails later.
    unfold close
    simp only [found, final]
    cases released : release (finalHeader h records) place w.medium with
    | error e m =>
      refine ⟨rfl, ?_⟩
      intro _ failed
      cases failed
      exact failsOutside_of_release found released
    | ok events m =>
      cases replaced : replaceHeader (finalHeader h records) w.start m with
      | error e m' =>
        refine ⟨by simp only [replaced], ?_⟩
        intro _ failed
        simp only [replaced] at failed
        cases failed
        exact .inl (failsInMedium_replaceHeader (Header.finalize_wellFormed hw _ _ _)
          (finalHeader_writable writable counted.room) _ _ _ _ replaced)
      | ok _ m' =>
        refine ⟨by simp only [replaced], ?_⟩
        intro _ failed
        simp only [replaced] at failed
        cases failed

structure Closes (w : Writer) : Prop where
  header : w.close.2.header = w.header.finalize w.tally.points w.tally.byReturn w.tally.bounds
  block : ∃ block, w.close.2.header.toBlock = .ok block
  encode : ∃ bytes, w.close.2.header.encode = .ok bytes
  writeHeader : Medium.FailsInMedium (Medium.writeInTurn w.close.2.header)
  close : ∀ e, w.close.1.result = .error e → FailsOutside w.close.2.header w e

theorem Counted.closes (counted : Counted h records w) (hw : h.WellFormed)
    (writable : h.Writable) : Closes w := by
  obtain ⟨header, failure⟩ := close_counted counted hw writable
  have hw' : (finalHeader h records).WellFormed := Header.finalize_wellFormed hw _ _ _
  have writable' := finalHeader_writable writable counted.room
  refine ⟨?_, ?_, ?_, ?_, ?_⟩
  · rw [header, finalize_of_counted counted]
  · rw [header]
    exact ⟨_, (Header.toBlock_eq_ok hw').2 ⟨writable', rfl⟩⟩
  · rw [header]
    exact ⟨_, (Header.encode_eq_ok hw').2 ⟨writable', rfl⟩⟩
  · rw [header]
    exact Medium.failsInMedium_writeInTurn hw' writable'
  · rw [header]
    exact failure

end Lidar.Writer
