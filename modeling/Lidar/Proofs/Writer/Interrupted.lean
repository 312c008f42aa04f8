import Lidar.Proofs.Writer.Counts

/-!
# Writes that stop in the middle of a record

A medium that takes only a part of a record leaves the writer in the middle of it, and the writer
does not go back. Until then the medium holds the counted records one behind the other, and they
are read as such; a record that is written behind a part is not where a reader looks for it. While
the limit of the medium stays where it is, nothing is written behind a part.
-/
namespace Lidar.Writer

variable {m : Medium} {h : Header} {codec? : Option Codec} {w : Writer}
  {records : List Point.Record} {data torn : Bytes}

def AtEnd (w : Writer) : Prop :=
  w.medium.position =
    w.start + w.header.pointDataStart + w.tally.points.toNat * w.header.format.length

instance (w : Writer) : Decidable w.AtEnd := inferInstanceAs (Decidable (_ = _))

/-- No point is accepted while the medium is in the middle of a record. -/
def Aligned (w : Writer) : List Turn → Prop
  | [] => True
  | t :: later => ((w.turn t).1 ≠ [] → w.AtEnd) ∧ (w.turn t).2.Aligned later

instance decidableAligned (w : Writer) : (turns : List Turn) → Decidable (w.Aligned turns)
  | [] => isTrue trivial
  | t :: later =>
    let _ := decidableAligned (w.turn t).2 later
    inferInstanceAs (Decidable ((_ ≠ [] → _) ∧ _))

def Stuck (w : Writer) : Prop := ∃ c, w.medium.capacity? = some c ∧ c ≤ w.medium.position

structure Holds (m : Medium) (h : Header) (data : Bytes) (w : Writer) : Prop where
  header : w.header = h
  start : w.start = m.position
  output : w.output? = some .plain
  put : m.Put (h.front ++ data) w.medium

private theorem Holds.put_more (holds : Holds m h data w) {part : Bytes} {m' : Medium}
    (put : w.medium.Put part m') :
    Holds m h (data ++ part) { w with medium := m', output? := some .plain } := by
  refine ⟨holds.header, holds.start, rfl, ?_⟩
  rw [← List.append_assoc]
  exact holds.put.append put

theorem output_fits (holds : Holds m h data w) {bytes : Bytes}
    (fits : ¬w.medium.room bytes.length < bytes.length) :
    ∃ w', output bytes w = .ok () w' ∧ Holds m h (data ++ bytes) w' := by
  obtain ⟨m', put, -, wrote⟩ := Medium.put_write w.medium .writingPoint bytes
  rw [if_neg fits] at wrote
  rw [List.take_of_length_le (Nat.le_of_not_lt fits)] at put
  unfold output
  simp only [holds.output]
  rw [wrote]
  exact ⟨_, rfl, holds.put_more put⟩

theorem output_refused (holds : Holds m h data w) {bytes : Bytes}
    (full : w.medium.room bytes.length < bytes.length) :
    ∃ w', output bytes w = .error (.medium .writingPoint .full) w' ∧
      Holds m h (data ++ bytes.take (w.medium.room bytes.length)) w' ∧ w'.Stuck := by
  obtain ⟨m', put, capacity, wrote⟩ := Medium.put_write w.medium .writingPoint bytes
  have position := put.position
  rw [if_pos full] at wrote
  unfold output
  simp only [holds.output]
  rw [wrote]
  refine ⟨_, rfl, holds.put_more put, ?_⟩
  rw [List.length_take] at position
  unfold Medium.room at full position
  cases limit : w.medium.capacity? with
  | none =>
    rw [limit] at full
    exact absurd full (Nat.lt_irrefl _)
  | some c =>
    rw [limit] at full position capacity
    refine ⟨c, capacity, ?_⟩
    show c ≤ m'.position
    simp only at full position
    omega

theorem writeRecord_fits (holds : Holds m h data w) {r : Point.Record}
    (fits : ¬w.medium.room (r.encode h.format).length < (r.encode h.format).length) :
    ∃ w', writeRecord r w = .ok () w' ∧ Holds m h (data ++ r.encode h.format) w' := by
  obtain ⟨w', put, kept⟩ := output_fits holds fits
  rw [← holds.header] at put
  exact ⟨_, writeRecord_of_output put, kept.header, kept.start, kept.output, kept.put⟩

theorem writeRecord_refused (holds : Holds m h data w) {r : Point.Record}
    (full : w.medium.room (r.encode h.format).length < (r.encode h.format).length) :
    ∃ w', writeRecord r w = .error (.medium .writingPoint .full) w' ∧
      Holds m h (data ++ (r.encode h.format).take (w.medium.room (r.encode h.format).length)) w' ∧
      w'.Stuck := by
  obtain ⟨w', refused, kept⟩ := output_refused holds full
  unfold writeRecord
  rw [Success.run_get_bind, holds.header, Success.run_bind_error refused]
  exact ⟨w', rfl, kept⟩

/-- Records are written behind one another from where no part of one is. -/
theorem writeRecords_holds (holds : Holds m h (encodeAll h.format records ++ torn) w)
    (more : List Point.Record) (whole : w.written more ≠ 0 → torn = []) :
    ∃ torn', Holds m h (encodeAll h.format (records ++ more.take (w.written more)) ++ torn')
        (settle (writeRecords more w)).2 ∧
      (torn = [] ∨ w.Stuck → torn' = [] ∨ (settle (writeRecords more w)).2.Stuck) := by
  induction more generalizing records torn w with
  | nil =>
    rw [List.take_nil, List.append_nil]
    exact ⟨torn, holds, id⟩
  | cons r more ih =>
    unfold writeRecords
    unfold written at whole ⊢
    by_cases full : w.medium.room (r.encode h.format).length < (r.encode h.format).length
    · obtain ⟨w', refused, kept, stuck⟩ := writeRecord_refused holds full
      rw [Success.run_bind_error refused, refused]
      rw [List.append_assoc] at kept
      refine ⟨torn ++ (r.encode h.format).take (w.medium.room (r.encode h.format).length), ?_,
        fun _ => .inr stuck⟩
      rwa [List.take_zero, List.append_nil]
    · -- That a record is accepted says that no part of one is in front of it.
      obtain ⟨w', wrote, holds'⟩ := writeRecord_fits holds full
      rw [wrote] at whole ⊢
      have none := whole (Nat.succ_ne_zero _)
      rw [Success.run_bind_ok wrote]
      have row : encodeAll h.format records ++ torn ++ r.encode h.format =
          encodeAll h.format (records ++ [r]) ++ [] := by
        rw [none, List.append_nil, List.append_nil, encodeAll, encodeAll, List.flatMap_append,
          List.flatMap_singleton]
      rw [row] at holds'
      obtain ⟨torn', later, sound⟩ := ih holds' fun _ => rfl
      rw [List.append_assoc] at later
      exact ⟨torn', later, fun _ => sound (.inl rfl)⟩

theorem written_le (w : Writer) (more : List Point.Record) : w.written more ≤ more.length := by
  induction more generalizing w with
  | nil => exact Nat.le_refl 0
  | cons r more ih =>
    unfold written
    split
    · exact Nat.succ_le_succ (ih _)
    · exact Nat.zero_le _

theorem atEnd_iff (hw : h.WellFormed) (room : h.HasRoom)
    (holds : Holds m h (encodeAll h.format records ++ torn) w) (counted : Counted h records w)
    (small : records.length < UInt64.size) :
    w.AtEnd ↔ torn = [] := by
  have position := holds.put.position
  unfold AtEnd
  rw [List.length_append, List.length_append, Header.length_front room, length_encodeAll] at position
  rw [holds.start, holds.header, counted.points small, Header.format_length hw,
    ← List.length_eq_zero_iff, position]
  omega

theorem answer_holds (hw : h.WellFormed) (room : h.HasRoom)
    (holds : Holds m h (encodeAll h.format records ++ torn) w) (counted : Counted h records w)
    (small : records.length < UInt64.size) (call : Call)
    (aligned : w.accepted call ≠ [] → w.AtEnd) :
    ∃ more torn', Stored h (w.accepted call) more ∧
      Counted h (records ++ more) (w.answer call).2 ∧
      Holds m h (encodeAll h.format (records ++ more) ++ torn') (w.answer call).2 ∧
      (torn = [] ∨ w.Stuck → torn' = [] ∨ (w.answer call).2.Stuck) := by
  rw [answer_eq_writeRecords]
  unfold accepted at aligned ⊢
  cases found : w.recordsOf call.points with
  | error e => exact ⟨[], torn, .nil, by rwa [List.append_nil], by rwa [List.append_nil], id⟩
  | ok more =>
    obtain ⟨countable, stored⟩ := (recordsOf_eq_ok counted).1 found
    rw [found] at aligned
    have whole : w.written more ≠ 0 → torn = [] := by
      intro some
      apply (atEnd_iff hw room holds counted small).1
      apply aligned
      have le := written_le w more
      rw [← stored.length_eq] at le
      apply List.ne_nil_of_length_pos
      rw [List.length_take]
      omega
    obtain ⟨torn', holds', sound⟩ := writeRecords_holds holds more whole
    exact ⟨_, torn', List.forall₂_take _ stored, writeRecords_counted counted more countable,
      holds', sound⟩

theorem Holds.limit (holds : Holds m h data w) (capacity? : Option Nat) :
    Holds m h data (w.turn (.limit capacity?)).2 :=
  ⟨holds.header, holds.start, holds.output, holds.put.before, holds.put.rest, holds.put.inside⟩

theorem turn_holds (hw : h.WellFormed) (room : h.HasRoom)
    (holds : Holds m h (encodeAll h.format records ++ torn) w) (counted : Counted h records w)
    (small : records.length < UInt64.size) (t : Turn)
    (aligned : (w.turn t).1 ≠ [] → w.AtEnd) :
    ∃ more torn', Stored h (w.turn t).1 more ∧ Counted h (records ++ more) (w.turn t).2 ∧
      Holds m h (encodeAll h.format (records ++ more) ++ torn') (w.turn t).2 := by
  cases t with
  | call call =>
    obtain ⟨more, torn', stored, counted', holds', -⟩ :=
      answer_holds hw room holds counted small call aligned
    exact ⟨more, torn', stored, counted', holds'⟩
  | limit capacity? =>
    refine ⟨[], torn, .nil, ?_, ?_⟩
    · rw [List.append_nil]
      exact counted.limit capacity?
    · rw [List.append_nil]
      exact holds.limit capacity?

theorem turns_holds (hw : h.WellFormed) (room : h.HasRoom)
    (holds : Holds m h (encodeAll h.format records ++ torn) w) (counted : Counted h records w)
    (turns : List Turn) (aligned : w.Aligned turns)
    (small : records.length + (w.turns turns).1.length < UInt64.size) :
    ∃ more torn', Stored h (w.turns turns).1 more ∧
      Counted h (records ++ more) (w.turns turns).2 ∧
      Holds m h (encodeAll h.format (records ++ more) ++ torn') (w.turns turns).2 := by
  induction turns generalizing records torn w with
  | nil => exact ⟨[], torn, .nil, by rwa [List.append_nil], by rwa [List.append_nil]⟩
  | cons t turns ih =>
    change records.length + ((w.turn t).1 ++ ((w.turn t).2.turns turns).1).length < _ at small
    rw [List.length_append] at small
    obtain ⟨first, torn₁, stored, counted₁, holds₁⟩ :=
      turn_holds hw room holds counted (by omega) t aligned.1
    have length := stored.length_eq
    have small₁ : (records ++ first).length + ((w.turn t).2.turns turns).1.length < UInt64.size := by
      rw [List.length_append]
      omega
    obtain ⟨later, torn₂, storedLater, counted₂, holds₂⟩ := ih holds₁ counted₁ aligned.2 small₁
    rw [List.append_assoc] at counted₂ holds₂
    exact ⟨first ++ later, torn₂, List.rel_append stored storedLater, counted₂, holds₂⟩

theorem holds_of_onMedium (hw : h.WellFormed) (plain : h.compressed = false)
    (opened : (onMedium m h codec?).1.result = .ok w) :
    (plainHeader h codec?).Writable ∧ Counted (plainHeader h codec?) [] w ∧
      Holds m (plainHeader h codec?) (encodeAll (plainHeader h codec?).format [] ++ []) w := by
  obtain ⟨-, h', output, prepared, m', put, rfl⟩ := result_onMedium_eq_ok.1 opened
  rw [result_prepare plain] at prepared
  cases prepared
  obtain ⟨writable, put⟩ := Medium.put_of_writeInTurn (plainHeader_wellFormed hw codec?) put
  refine ⟨writable, ⟨rfl, rfl, rfl, .inr (Nat.zero_le _)⟩, rfl, rfl, rfl, ?_⟩
  rwa [encodeAll, List.flatMap_nil, List.append_nil, List.append_nil]

theorem replaceHeader_ok (hw : h.WellFormed) {m' : Medium} {front old back : Bytes}
    (bytes : m.bytes = front ++ (old ++ back)) (length : old.length = h.front.length)
    (replaced : replaceHeader h front.length m = .ok () m') :
    m'.bytes = front ++ (h.front ++ back) ∧ m'.position = front.length := by
  unfold replaceHeader at replaced
  obtain ⟨_, m₁, moved, replaced⟩ := Success.run_bind_eq_ok.1 replaced
  obtain ⟨_, m₂, written, replaced⟩ := Success.run_bind_eq_ok.1 replaced
  obtain ⟨_, m₃, flushed, replaced⟩ := Success.run_bind_eq_ok.1 replaced
  obtain ⟨same, start⟩ := Medium.seek_ok moved
  obtain ⟨kept, last⟩ := Medium.seek_ok replaced
  cases Medium.flush_ok flushed
  have bytes₁ : m₁.bytes = front ++ (old ++ back) := (congrArg Bytes.ofPacked same).trans bytes
  obtain ⟨before, rest, -⟩ := Medium.split_eq bytes₁ start
  have put := (Medium.put_of_writeInTurn hw written).2
  have bytes₂ := put.bytes_eq h.front_ne_nil
  rw [before, rest, ← length, List.drop_left] at bytes₂
  exact ⟨(congrArg Bytes.ofPacked kept).trans bytes₂, last⟩

theorem close_holds (hw : h.WellFormed) (holds : Holds m h data w) (counted : Counted h records w)
    {m' : Medium} (closed : w.intoMedium.1.result = .ok m') :
    ∃ back, m'.position = m.before.length ∧
      m'.bytes = m.before ++ ((finalHeader h records).front ++ (data ++ back)) := by
  have bytes := holds.put.bytes_eq (List.append_ne_nil_of_left_ne_nil h.front_ne_nil data)
  rw [List.append_assoc] at bytes
  have ended := close_of_plain counted holds.output
  rw [holds.start, ← Medium.length_before] at ended
  cases replaced : replaceHeader (finalHeader h records) m.before.length w.medium with
  | error e m₁ =>
    rw [replaced] at ended
    unfold intoMedium at closed
    rw [counted.opened, ended] at closed
    cases closed
  | ok _ m₁ =>
    rw [replaced] at ended
    have same := (intoMedium_of_close counted.opened ended).1
    rw [closed] at same
    cases same
    obtain ⟨last, position⟩ := replaceHeader_ok (Header.finalize_wellFormed hw _ _ _) bytes
      (h.length_front_finalize _ _ _).symm replaced
    exact ⟨_, position, last⟩

/-- The points that are read from the bytes of a medium are the accepted ones, each as its record
says, and so many are promised. -/
def ReadsBack (m : Medium) (h : Header) (accepted : List Point) (codec? : Option Codec) : Prop :=
  ∃ r qs,
    (Reader.ofMedium { Medium.ofBytes m.bytes with position := m.position } codec?).result =
      .ok r ∧
    r.header.numberOfPoints.toNat = accepted.length ∧
    List.Forall₂ (Point.ReadsAs h.transforms h.format) accepted qs ∧
    (r.answers (List.replicate (accepted.length + 1) .readPoint)).1 =
      qs.map (fun q => .next (.ok (some q))) ++ [.next (.ok none)]

theorem opens_of_holds (hw : h.WellFormed) (room : h.HasRoom) (writable : h.Writable)
    (plain : h.compressed = false) {torn : Bytes}
    (holds : Holds m h (encodeAll h.format records ++ torn) w)
    (counted : Counted h records w) (small : records.length < UInt64.size) {m' : Medium}
    (closed : w.intoMedium.1.result = .ok m') :
    Opens { Medium.ofBytes m'.bytes with position := m'.position } h { finalHeader h records with
      numberOfPointsByReturn := (finalHeader h records).countsReadBack } records := by
  obtain ⟨back, position, bytes⟩ := close_holds hw holds counted closed
  rw [← Medium.bytes_ofBytes m'.bytes, List.append_assoc] at bytes
  exact counted.opens hw room writable plain small ((Medium.reliable_ofBytes _).put _ _) bytes
    position

theorem readsBack_of_holds (hw : h.WellFormed) (room : h.HasRoom) (writable : h.Writable)
    (plain : h.compressed = false) {torn : Bytes}
    (holds : Holds m h (encodeAll h.format records ++ torn) w)
    (counted : Counted h records w) {points : List Point} (stored : Stored h points records)
    (small : points.length < UInt64.size) {m' : Medium}
    (closed : w.intoMedium.1.result = .ok m') (codec? : Option Codec) :
    ReadsBack m' h points codec? := by
  rw [stored.length_eq] at small
  have opens := opens_of_holds hw room writable plain holds counted small closed
  obtain ⟨qs, same, answers⟩ := opens.answers stored
  exact ⟨_, qs, opens.opened codec?, opens.count.trans stored.length_eq.symm, same, answers⟩

/-- A writer whose medium fails and recovers leaves what is read as the points that it accepted, as
long as no point is accepted while the medium is in the middle of a record. -/
theorem read_of_turns {h : Header} (made : h.Made) (room : h.HasRoom) (plain : h.compressed = false)
    {m : Medium} {codec? : Option Codec} {w : Writer}
    (opened : (onMedium m h codec?).1.result = .ok w) (turns : List Turn)
    (aligned : w.Aligned turns) (small : (w.turns turns).1.length < UInt64.size) {m' : Medium}
    (closed : (w.turns turns).2.intoMedium.1.result = .ok m') (codec'? : Option Codec) :
    ReadsBack m' h (w.turns turns).1 codec'? := by
  have hw := plainHeader_wellFormed made.wellFormed codec?
  obtain ⟨writable, counted, holds⟩ := holds_of_onMedium made.wellFormed plain opened
  obtain ⟨records, torn, stored, counted, holds⟩ :=
    turns_holds hw room holds counted turns aligned (by rwa [List.length_nil, Nat.zero_add])
  rw [List.nil_append] at counted holds
  exact readsBack_of_holds hw room writable plain holds counted stored small closed codec'?

theorem read_of_turns_sample :
    ∃ m w turns m', (onMedium m (.empty 2017 1) none).1.result = .ok w ∧ w.Aligned turns ∧
      (w.turns turns).1 = [sample, sample] ∧ (w.turns turns).1.length < UInt64.size ∧
      (w.turns turns).2.intoMedium.1.result = .ok m' ∧
      ReadsBack m' (.empty 2017 1) [sample, sample] none := by
  let m : Medium := { Medium.ofBytes [] with capacity? := some 247 }
  let turns : List Turn := [.call (.writePoints [sample, sample]), .limit none,
    .call (.writePoint sample), .limit (some 280), .call (.writePoint sample)]
  have ran : ((onMedium m (.empty 2017 1) none).1.result.toOption.map fun w =>
      ((w.turns turns).1, decide (w.Aligned turns),
        (w.turns turns).2.intoMedium.1.result.toOption.isSome)) =
      some ([sample, sample], true, true) := by decide +kernel
  obtain ⟨w, opened, found⟩ := Option.map_eq_some_iff.1 ran
  simp only [Prod.mk.injEq, decide_eq_true_eq, Option.isSome_iff_exists,
    Success.toOption_eq_some] at opened found
  obtain ⟨taken, aligned, m', closed⟩ := found
  have small : (w.turns turns).1.length < UInt64.size := by
    rw [taken]
    decide
  have reads := read_of_turns (.reachable (.empty 2017 1)) (Header.empty_hasRoom 2017 1) rfl opened
    turns aligned small closed none
  rw [taken] at reads
  exact ⟨m, w, turns, m', opened, aligned, taken, small, closed, reads⟩

theorem written_of_stuck (holds : Holds m h data w) (stuck : w.Stuck)
    (more : List Point.Record) : w.written more = 0 := by
  cases more with
  | nil => rfl
  | cons r more =>
    obtain ⟨c, limit, reached⟩ := stuck
    have length := Point.Record.length_encode h.format r
    have full : w.medium.room (r.encode h.format).length < (r.encode h.format).length := by
      rw [Medium.room, limit, length, Format.standardLength, Format.coreLength]
      simp only
      omega
    obtain ⟨w', refused, -⟩ := writeRecord_refused holds full
    rw [written, refused]

theorem accepted_of_stuck (holds : Holds m h data w) (stuck : w.Stuck) (call : Call) :
    w.accepted call = [] := by
  unfold accepted
  cases w.recordsOf call.points with
  | error e => rfl
  | ok more =>
    show call.points.take (w.written more) = []
    rw [written_of_stuck holds stuck, List.take_zero]

theorem aligned_of_calls (hw : h.WellFormed) (room : h.HasRoom)
    (holds : Holds m h (encodeAll h.format records ++ torn) w) (counted : Counted h records w)
    (sound : torn = [] ∨ w.Stuck) (calls : List Call)
    (small : records.length + (w.turns (calls.map .call)).1.length < UInt64.size) :
    w.Aligned (calls.map .call) := by
  induction calls generalizing records torn w with
  | nil => trivial
  | cons call calls ih =>
    change records.length +
      (w.accepted call ++ ((w.answer call).2.turns (calls.map .call)).1).length < _ at small
    rw [List.length_append] at small
    have aligned : w.accepted call ≠ [] → w.AtEnd := by
      intro some
      rcases sound with none | stuck
      · exact (atEnd_iff hw room holds counted (by omega)).2 none
      · exact absurd (accepted_of_stuck holds stuck call) some
    obtain ⟨more, torn', stored, counted', holds', sound'⟩ :=
      answer_holds hw room holds counted (by omega) call aligned
    have length := stored.length_eq
    refine ⟨aligned, ih holds' counted' (sound' sound) ?_⟩
    show (records ++ more).length + ((w.answer call).2.turns (calls.map .call)).1.length < _
    rw [List.length_append]
    omega

theorem holds_of_calls (hw : h.WellFormed) (room : h.HasRoom) (plain : h.compressed = false)
    (opened : (onMedium m h codec?).1.result = .ok w) (calls : List Call)
    (small : (w.turns (calls.map .call)).1.length < UInt64.size) :
    (plainHeader h codec?).Writable ∧
      ∃ records torn, Stored (plainHeader h codec?) (w.turns (calls.map .call)).1 records ∧
        Counted (plainHeader h codec?) records (w.turns (calls.map .call)).2 ∧
        Holds m (plainHeader h codec?) (encodeAll (plainHeader h codec?).format records ++ torn)
          (w.turns (calls.map .call)).2 := by
  have hw' := plainHeader_wellFormed hw codec?
  have small' : ([] : List Point.Record).length + (w.turns (calls.map .call)).1.length <
      UInt64.size := by
    rwa [List.length_nil, Nat.zero_add]
  obtain ⟨writable, counted, holds⟩ := holds_of_onMedium hw plain opened
  have aligned := aligned_of_calls hw' room holds counted (.inl rfl) calls small'
  exact ⟨writable, turns_holds hw' room holds counted _ aligned small'⟩

theorem read_of_calls {h : Header} (made : h.Made) (room : h.HasRoom) (plain : h.compressed = false)
    {m : Medium} {codec? : Option Codec} {w : Writer}
    (opened : (onMedium m h codec?).1.result = .ok w) (calls : List Call)
    (small : (w.turns (calls.map .call)).1.length < UInt64.size) {m' : Medium}
    (closed : (w.turns (calls.map .call)).2.intoMedium.1.result = .ok m')
    (codec'? : Option Codec) : ReadsBack m' h (w.turns (calls.map .call)).1 codec'? := by
  obtain ⟨writable, records, torn, stored, counted, holds⟩ :=
    holds_of_calls made.wellFormed room plain opened calls small
  exact readsBack_of_holds (plainHeader_wellFormed made.wellFormed codec?) room writable plain holds
    counted stored small closed codec'?

/-- A point that is written again after its record was cut off is accepted behind the part that was
written first. -/
theorem holds_of_retry (holds : Holds m h data w) (counted : Counted h records w) {p : Point}
    {r : Point.Record} (stored : p.toRecord h.transforms h.format = .ok r)
    (version : Room h.version (records.length + 1))
    (full : w.medium.room (r.encode h.format).length < (r.encode h.format).length) :
    ∃ w', w.turns [.call (.writePoint p), .limit none, .call (.writePoint p)] = ([p], w') ∧
      Counted h (records ++ [r]) w' ∧
      Holds m h (data ++ (r.encode h.format).take (w.medium.room (r.encode h.format).length) ++
        r.encode h.format) w' := by
  obtain ⟨w₁, refused, holds₁, -⟩ := writeRecord_refused holds full
  have turn₁ := turn_writePoint counted stored version
  rw [refused] at turn₁
  obtain ⟨none, storedNone, counted₁⟩ := turn_counted counted (.call (.writePoint p))
  rw [turn₁] at storedNone counted₁
  cases storedNone
  rw [List.append_nil] at counted₁
  have counted₂ := counted₁.limit Option.none
  have holds₂ := holds₁.limit Option.none
  -- Without a limit there is room, but what there was of the record stays in front.
  obtain ⟨w₃, wrote, holds₃⟩ := writeRecord_fits (r := r) holds₂ (Nat.lt_irrefl _)
  have turn₃ := turn_writePoint counted₂ stored version
  rw [wrote] at turn₃
  obtain ⟨one, storedOne, counted₃⟩ := turn_counted counted₂ (.call (.writePoint p))
  rw [turn₃] at storedOne counted₃
  cases storedOne.unique (.cons stored .nil)
  refine ⟨w₃, ?_, counted₃, holds₃⟩
  simp only [turns, turn₁, turn₃]
  rfl

def shifted : Point.Record where
  x := 100
  y := 200
  z := 0x64fed4
  intensity := 0
  flags := 0xc8
  classification := 0
  scanAngle := 0
  userData := 0
  pointSourceId := 0xfed4
  gpsTime? := none
  color? := none
  extraBytes := []

theorem misread_behind_part :
    ∃ m w turns m' r q, (onMedium m (.empty 2017 1) none).1.result = .ok w ∧
      (w.turns turns).1 = [sample] ∧ (w.turns turns).2.intoMedium.1.result = .ok m' ∧
      (Reader.ofMedium { Medium.ofBytes m'.bytes with position := m'.position } none).result =
        .ok r ∧
      r.header.numberOfPoints = 1 ∧
      (r.answers [.readPoint, .readPoint]).1 = [.next (.ok (some q)), .next (.ok none)] ∧
      q.intensity ≠ sample.intensity := by
  let m : Medium := { Medium.ofBytes [] with capacity? := some 237 }
  let turns : List Turn := [.call (.writePoint sample), .limit none, .call (.writePoint sample)]
  let h := Header.empty 2017 1
  let record := sample.recordAt ⟨100, 200, -300⟩
  have ran : ((onMedium m h none).1.result.toOption.map fun w =>
      (w.medium.room 20, (w.turns turns).2.intoMedium.1.result.toOption.isSome)) =
      some (10, true) := by decide +kernel
  obtain ⟨w, opened, found⟩ := Option.map_eq_some_iff.1 ran
  simp only [Prod.mk.injEq, Option.isSome_iff_exists, Success.toOption_eq_some] at opened found
  obtain ⟨room, m', closed⟩ := found
  have hw : h.WellFormed := Header.empty_wellFormed 2017 1
  have hasRoom : h.HasRoom := Header.empty_hasRoom 2017 1
  obtain ⟨writable, counted, holds⟩ : h.Writable ∧ Counted h [] w ∧ Holds m h [] w :=
    holds_of_onMedium hw rfl opened
  have length : (record.encode h.format).length = 20 := Point.Record.length_encode h.format record
  rw [← length] at room
  have full : w.medium.room (record.encode h.format).length < (record.encode h.format).length := by
    rw [room, length]
    decide
  obtain ⟨w', ran, counted', holds'⟩ :=
    holds_of_retry holds counted sample_stored (.inr (by decide)) full
  change w.turns turns = _ at ran
  rw [ran] at closed
  obtain ⟨back, position, bytes⟩ := close_holds hw holds' counted' closed
  -- Ten bytes of the record and its first ten again are as long as a record.
  have data : [] ++ (record.encode h.format).take 10 ++ record.encode h.format =
      encodeAll h.format [shifted] ++ (record.encode h.format).drop 10 := by decide +kernel
  rw [room, data, List.append_assoc, ← Medium.bytes_ofBytes m'.bytes] at bytes
  have points : (finalHeader h [record]).numberOfPoints = 1 :=
    @Tally.points_counted h.transforms [record]
  have count : (finalHeader h [record]).numberOfPoints.toNat = [shifted].length :=
    congrArg UInt64.toNat points
  have opens := opens_of_bytes (m := { Medium.ofBytes m'.bytes with position := m'.position })
    ((Medium.reliable_ofBytes _).put _ _) (Header.finalize_wellFormed hw _ _ _)
    (Header.HasRoom.finalize hasRoom _ _ _)
    (finalHeader_writable writable counted'.room) rfl count bytes position
  have exact : shifted.Exact h.transforms := by decide +kernel
  obtain ⟨p, -, stored⟩ := Point.toRecord_toPoint (f := h.format) ⟨rfl, rfl, rfl⟩ exact
  obtain ⟨_, (_ | ⟨reads, ⟨⟩⟩), answers⟩ := opens.answers (.cons stored .nil)
  refine ⟨m, w, turns, m', _, _, opened, by rw [ran], by rw [ran]; exact closed,
    opens.opened none, points, answers, ?_⟩
  obtain ⟨-, -, -, _, -, -, -, found⟩ := Point.toRecord_eq_ok.1 stored
  have intensity : p.intensity = 0 := congrArg Point.Record.intensity found
  rw [reads.others]
  show p.intensity ≠ 7
  rw [intensity]
  decide

end Lidar.Writer
