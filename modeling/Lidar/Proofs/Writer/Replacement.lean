import Mathlib.Logic.Relation
import Lidar.Proofs.Header.Texts
import Lidar.Proofs.Reader.Decompressed
import Lidar.Proofs.Writer.Compressed
import Lidar.Proofs.Writer.Interrupted

/-!
# Records that are replaced

A writer puts the record of its codec behind the others, in the place of all that describe data of
the codec, and a header does the same with its coordinate system. Which records these are is for
the codec to say: the others stay in order, and if the codec knows its own record, replacing it
again changes nothing. A header that is read from a file differs from the one that a writer began
the file with in its counts and bounds, which are set before anything else when a writer opens. So
a file that is read and written again begins with the same header, however often that is done.
-/
namespace Lidar

def Codec.Knows (codec : Codec) : Prop := ∀ f v, codec.vlr f = .ok v → codec.describes v = true

theorem Codec.Lawful.knows {codec : Codec} (lawful : codec.Lawful) : codec.Knows :=
  fun _ _ => lawful.describes

namespace Vlr

variable {p : Vlr → Bool} {old new : List Vlr} {v : Vlr}

/-- A record has taken the place of all that satisfy a condition: it is the last one, and the only
one of these. -/
structure Replaces (p : Vlr → Bool) (old new : List Vlr) (v : Vlr) : Prop where
  records : new = old.filter (!p ·) ++ [v]
  only : new.filter p = [v]

theorem filter_others (p : Vlr → Bool) (old : List Vlr) :
    (old.filter (!p ·)).filter (!p ·) = old.filter (!p ·) := by
  rw [List.filter_filter]
  simp only [Bool.and_self]

theorem replaces_append (old : List Vlr) (satisfies : p v = true) :
    Replaces p old (old.filter (!p ·) ++ [v]) v where
  records := rfl
  only := by
    have none : (old.filter (!p ·)).filter p = [] := by
      rw [List.filter_filter, List.filter_eq_nil_iff]
      simp
    rw [List.filter_append, none, List.filter_singleton, satisfies]
    rfl

theorem Replaces.again (replaces : Replaces p old new v) : new.filter (!p ·) ++ [v] = new := by
  have mem : v ∈ new.filter p := by
    rw [replaces.only]
    exact List.mem_singleton_self v
  have satisfies : p v = true := (List.mem_filter.1 mem).2
  have rest : new.filter (!p ·) = old.filter (!p ·) := by
    rw [replaces.records, List.filter_append, filter_others, List.filter_singleton, satisfies]
    exact List.append_nil _
  rw [rest, ← replaces.records]

end Vlr

def Header.blank (h : Header) : Header := h.finalize 0 (Vector.replicate 5 0) .zero

namespace Writer

variable {m : Medium} {h g : Header} {codec? : Option Codec} {w : Writer}

/-- A header for the start of a file: blank, and with these records. -/
structure Prepared (codec? : Option Codec) (h g : Header) : Prop where
  fields : g = { h.blank with records := g.records }
  compressed : h.compressed = true → ∃ codec v, codec? = some codec ∧
    codec.vlr h.format = .ok v ∧
    Vlr.Replaces codec.describes h.records.toList g.records.toList v
  dropped : h.compressed = false → ∀ codec, codec? = some codec →
    g.records.toList = h.records.toList.filter (!codec.describes ·)
  kept : h.compressed = false → codec? = none → g.records = h.records

theorem prepare_blank (h : Header) (codec? : Option Codec) :
    prepare h.blank codec? = prepare h codec? := rfl

theorem prepared_of_prepare (knows : ∀ codec ∈ codec?, codec.Knows) {output : Output}
    (prepared : (prepare h codec?).result = .ok (g, output)) : Prepared codec? h g := by
  cases compressed : h.compressed with
  | false =>
    rw [result_prepare compressed] at prepared
    cases prepared
    refine ⟨rfl, fun coded => ?_, fun _ codec same => ?_, fun _ none => ?_⟩
    · rw [compressed] at coded
      cases coded
    · subst same
      rfl
    · subst none
      rfl
  | true =>
    obtain ⟨codec, v, -, same, made, rfl, -⟩ := (result_prepare_compressed compressed).1 prepared
    refine ⟨rfl, fun _ => ⟨codec, v, same, made, ?_⟩, fun plain => ?_, fun plain => ?_⟩
    · exact Vlr.replaces_append _ (knows codec same _ v made)
    · rw [compressed] at plain
      cases plain
    · rw [compressed] at plain
      cases plain

theorem plainHeader_again (h : Header) (codec? : Option Codec) :
    plainHeader (plainHeader h codec?) codec? = plainHeader h codec? := by
  cases codec? with
  | none => rfl
  | some codec =>
    have records : ((h.records.removeWhere codec.describes).2.removeWhere codec.describes).2 =
        (h.records.removeWhere codec.describes).2 :=
      Vlr.Store.ext (Vlr.filter_others codec.describes h.records.toList)
    exact congrArg (fun records => { h.blank with records }) records

theorem codedHeader_again (h : Header) {codec : Codec} {v : Vlr}
    (known : codec.describes v = true) (valid : v.Valid) :
    codedHeader (codedHeader h codec v valid) codec v valid = codedHeader h codec v valid := by
  have records : ((codedHeader h codec v valid).records.removeWhere codec.describes).2.append v
      valid = (codedHeader h codec v valid).records :=
    Vlr.Store.ext (Vlr.replaces_append h.records.toList known).again
  exact congrArg (fun records => { h.blank with records }) records

/-- A header that was prepared is not changed when it is prepared again. -/
theorem prepare_again (knows : ∀ codec ∈ codec?, codec.Knows) {place : Output}
    (prepared : (prepare h codec?).result = .ok (g, place)) :
    (prepare g codec?).result = .ok (g, place) := by
  cases compressed : h.compressed with
  | false =>
    rw [result_prepare compressed] at prepared
    cases prepared
    rw [result_prepare (h := plainHeader h codec?) compressed, plainHeader_again]
  | true =>
    obtain ⟨codec, v, valid, same, made, rfl, rfl⟩ :=
      (result_prepare_compressed compressed).1 prepared
    -- The record of the codec is taken out, and comes back as it was for the same format.
    have again := codedHeader_again h (knows codec same _ v made) valid
    exact (result_prepare_compressed (h := codedHeader h codec v valid) compressed).2
      ⟨codec, v, valid, same, made, again.symm, rfl⟩

theorem prepare_of_blank (knows : ∀ codec ∈ codec?, codec.Knows) {place : Output}
    (prepared : (prepare h codec?).result = .ok (g, place)) {back : Header}
    (blank : back.blank = g.blank) : (prepare back codec?).result = .ok (g, place) := by
  rw [← prepare_blank, blank, prepare_blank]
  exact prepare_again knows prepared

theorem header_of_prepare {place : Output} (prepared : (prepare h codec?).result = .ok (g, place))
    (opened : (onMedium m h codec?).1.result = .ok w) : w.header = g := by
  obtain ⟨-, g', place', prepared', m', -, rfl⟩ := result_onMedium_eq_ok.1 opened
  rw [prepared] at prepared'
  cases prepared'
  rfl

inductive Uncodable (codec? : Option Codec) (f : Format) : Prop where
  | noCodec (none : codec? = none)
  | noRecord (codec : Codec) (cause : Error) (some : codec? = some codec)
      (failed : codec.vlr f = .error cause)
  | badRecord (codec : Codec) (v : Vlr) (cause : Error) (some : codec? = some codec)
      (made : codec.vlr f = .ok v) (refused : v.validate = .error cause)

theorem prepare_of_uncodable (compressed : h.compressed = true)
    (uncodable : Uncodable codec? h.format) :
    ∃ cause, (prepare h codec?).result = .error cause := by
  cases found : (prepare h codec?).result with
  | error cause => exact ⟨cause, rfl⟩
  | ok made =>
    obtain ⟨codec, v, valid, same, made, -⟩ := (result_prepare_compressed compressed).1 found
    cases uncodable with
    | noCodec none =>
      rw [same] at none
      cases none
    | noRecord codec' cause some failed =>
      rw [same] at some
      cases some
      rw [made] at failed
      cases failed
    | badRecord codec' v' cause some made' refused =>
      rw [same] at some
      cases some
      rw [made] at made'
      cases made'
      rw [Vlr.validate_eq_ok_iff.2 valid] at refused
      cases refused

theorem onMedium_of_prepare_error {cause : Error}
    (failed : (prepare h codec?).result = .error cause) :
    (∃ cause, (onMedium m h codec?).1.result = .error cause) ∧ (onMedium m h codec?).2 = m := by
  unfold onMedium Medium.tell
  cases m.positionFails with
  | true => exact ⟨⟨_, rfl⟩, rfl⟩
  | false =>
    simp only [Bool.false_eq_true, if_false, failed]
    exact ⟨⟨_, rfl⟩, trivial⟩

structure Begins (m : Medium) (g : Header) (w : Writer) : Prop where
  start : w.start = m.position
  front : ∃ data, m.Put (g.front ++ data) w.medium

theorem Begins.put (begins : Begins m g w) {part : Bytes} {w' : Writer}
    (start : w'.start = w.start) (put : w.medium.Put part w'.medium) : Begins m g w' := by
  obtain ⟨data, front⟩ := begins.front
  refine ⟨start.trans begins.start, data ++ part, ?_⟩
  rw [← List.append_assoc]
  exact front.append put

theorem Begins.bytes_eq (begins : Begins m g w) :
    ∃ data, w.medium.bytes = m.before ++ (g.front ++ data) := by
  obtain ⟨data, front⟩ := begins.front
  have bytes := front.bytes_eq (List.append_ne_nil_of_left_ne_nil g.front_ne_nil data)
  rw [List.append_assoc] at bytes
  exact ⟨_, bytes⟩

theorem begins_of_onMedium (hw : h.WellFormed) (opened : (onMedium m h codec?).1.result = .ok w) :
    Begins m w.header w := by
  obtain ⟨-, h', output, prepared, m', put, rfl⟩ := result_onMedium_eq_ok.1 opened
  refine ⟨rfl, [], ?_⟩
  rw [List.append_nil]
  exact (Medium.put_of_writeInTurn (wellFormed_of_prepare hw prepared).1 put).2

theorem begins_output (begins : Begins m g w) (bytes : Bytes) :
    Begins m g (settle (output bytes w)).2 := by
  unfold output
  cases w.output? with
  | none => exact begins
  | some place =>
    cases place with
    | plain =>
      obtain ⟨m', put, -, wrote⟩ := Medium.put_write w.medium .writingPoint bytes
      by_cases full : w.medium.room bytes.length < bytes.length
      · rw [if_pos full] at wrote
        rw [wrote]
        exact begins.put rfl put
      · rw [if_neg full] at wrote
        rw [wrote]
        exact begins.put rfl put
    | compressed codec buffer => exact begins.put rfl (Medium.put_nil _)

theorem begins_writeRecord (begins : Begins m g w) (r : Point.Record) :
    Begins m g (settle (writeRecord r w)).2 := by
  have kept := begins_output begins (r.encode w.header.format)
  cases put : output (r.encode w.header.format) w with
  | ok _ w' =>
    rw [put] at kept
    rw [writeRecord_of_output put]
    exact kept.put rfl (Medium.put_nil _)
  | error e w' =>
    rw [put] at kept
    unfold writeRecord
    rw [Success.run_get_bind, Success.run_bind_error put]
    exact kept

theorem begins_writeRecords (begins : Begins m g w) (records : List Point.Record) :
    Begins m g (settle (writeRecords records w)).2 := by
  induction records generalizing w with
  | nil => exact begins
  | cons r records ih =>
    have kept := begins_writeRecord begins r
    unfold writeRecords
    cases wrote : writeRecord r w with
    | ok _ w' =>
      rw [wrote] at kept
      rw [Success.run_bind_ok wrote]
      exact ih kept
    | error e w' =>
      rw [wrote] at kept
      rw [Success.run_bind_error wrote]
      exact kept

theorem begins_turn (begins : Begins m g w) (t : Turn) : Begins m g (w.turn t).2 := by
  cases t with
  | call call =>
    show Begins m g (w.answer call).2
    rw [answer_eq_writeRecords]
    cases w.recordsOf call.points with
    | error e => exact begins
    | ok more => exact begins_writeRecords begins more
  | limit capacity? =>
    have none := Medium.put_nil w.medium
    exact begins.put rfl ⟨none.before, none.rest, none.inside⟩

theorem begins_turns (begins : Begins m g w) (turns : List Turn) :
    Begins m g (w.turns turns).2 := by
  induction turns generalizing w with
  | nil => exact begins
  | cons t turns ih => exact ih (begins_turn begins t)

theorem put_of_release {place : Output} {events : List Event} {m' : Medium}
    (released : release h place m = .ok events m') : ∃ part, m.Put part m' := by
  cases place with
  | plain =>
    cases released
    exact ⟨[], Medium.put_nil _⟩
  | compressed codec buffer =>
    simp only [release] at released
    cases encoded : codec.encode h (.ofPacked buffer) with
    | error e =>
      rw [encoded, Success.run_ofExcept_bind_error rfl] at released
      cases released
    | ok bytes =>
      rw [encoded, Success.run_ofExcept_bind_ok rfl] at released
      obtain ⟨_, m₁, written, done⟩ := Success.run_bind_eq_ok.1 released
      cases done
      exact ⟨bytes, Medium.put_of_write written⟩

theorem rest_of_close {records : List Point.Record} (hw : g.WellFormed)
    (counted : Counted g records w) (begins : Begins m g w)
    (closed : w.close.1.result = .ok ()) :
    ∃ back, w.close.2.medium.rest = (finalHeader g records).front ++ back := by
  cases output : w.output? with
  | none =>
    have opened := counted.opened
    rw [isClosed, output] at opened
    cases opened
  | some place =>
    cases released : release (finalHeader g records) place w.medium with
    | error e m₁ =>
      unfold close at closed
      simp only [output, finalize_of_counted counted, released] at closed
      cases closed
    | ok events m₁ =>
      obtain ⟨part, put⟩ := put_of_release released
      have later : Begins m g { w with medium := m₁ } := begins.put rfl put
      obtain ⟨data, bytes⟩ := later.bytes_eq
      have ended := close_of_release counted output released
      rw [begins.start, ← Medium.length_before] at ended
      cases replaced : replaceHeader (finalHeader g records) m.before.length m₁ with
      | error e m₂ =>
        rw [ended, replaced] at closed
        cases closed
      | ok _ m₂ =>
        -- The final header is as long as the first one, so it takes the place of that alone.
        obtain ⟨last, position⟩ := replaceHeader_ok (Header.finalize_wellFormed hw _ _ _) bytes
          (g.length_front_finalize _ _ _).symm replaced
        rw [ended, replaced]
        exact ⟨_, (Medium.split_eq last position).2.1⟩

theorem decode_of_close {records : List Point.Record} (hw : g.WellFormed) (room : g.HasRoom)
    (writable : g.Writable) (counted : Counted g records w) (begins : Begins m g w)
    (closed : w.close.1.result = .ok ()) :
    ∃ back rest, (Header.decode w.close.2.medium.rest).result = .ok (back, rest) ∧
      back.blank = g.blank := by
  obtain ⟨rest, start⟩ := rest_of_close hw counted begins closed
  have read := Header.decode_front (Header.finalize_wellFormed hw _ _ _)
    (room.finalize _ _ _) (finalHeader_writable writable counted.room) rest
  rw [start]
  exact ⟨_, rest, read, rfl⟩

/-- A header is read from a file that was written with another one, on whatever medium, and
whatever else the writer was used for. -/
inductive Reopened (codec? : Option Codec) (h : Header) : Header → Prop where
  | intro {m : Medium} {w : Writer} (opened : (onMedium m h codec?).1.result = .ok w)
    (turns : List Turn) (closed : (w.turns turns).2.close.1.result = .ok ()) {source : Medium}
    (held : source.rest = (w.turns turns).2.close.2.medium.rest) {codec'? : Option Codec}
    {r : Reader} (read : (Reader.ofMedium source codec'?).result = .ok r) :
    Reopened codec? h r.header

theorem decode_of_turns (hw : h.WellFormed) (room : h.HasRoom)
    (opened : (onMedium m h codec?).1.result = .ok w)
    (turns : List Turn) (closed : (w.turns turns).2.close.1.result = .ok ()) :
    ∃ back rest, (Header.decode (w.turns turns).2.close.2.medium.rest).result = .ok (back, rest) ∧
      back.blank = w.header.blank := by
  obtain ⟨hw', writable, -, counted⟩ := counted_of_onMedium hw opened
  obtain ⟨_, -, counted⟩ := turns_counted counted turns
  have room' : w.header.HasRoom := by
    rw [header_of_onMedium hw opened]
    exact room
  exact decode_of_close hw' room' writable counted (begins_turns (begins_of_onMedium hw opened) turns)
    closed

/-- Written with the second header, a file begins with the first one again. -/
structure Stable (codec? : Option Codec) (g back : Header) : Prop where
  records : back.records = g.records
  pointDataStart : back.pointDataStart = g.pointDataStart
  header : ∀ m w, (onMedium m back codec?).1.result = .ok w → w.header = g
  opens : ∀ m : Medium, m.Reliable → ∃ w, (onMedium m back codec?).1.result = .ok w

theorem stable_of_blank (knows : ∀ codec ∈ codec?, codec.Knows) (hw : h.WellFormed)
    (opened : (onMedium m h codec?).1.result = .ok w) {back : Header}
    (blank : back.blank = w.header.blank) : Stable codec? w.header back := by
  obtain ⟨hw', writable, -⟩ := counted_of_onMedium hw opened
  obtain ⟨-, g, place, prepared, m', -, rfl⟩ := result_onMedium_eq_ok.1 opened
  have again := prepare_of_blank knows prepared blank
  have records := congrArg Header.records blank
  have start := congrArg Header.pointDataStart blank
  refine ⟨records, start, fun m₁ w₁ => header_of_prepare again, fun m₁ reliable => ?_⟩
  obtain ⟨m₂, put, -⟩ := Medium.writeInTurn_eq reliable hw' writable
  exact ⟨_, result_onMedium_eq_ok.2 ⟨reliable.position, _, _, again, m₂, put, rfl⟩⟩

theorem blank_of_reopened (hw : h.WellFormed) (room : h.HasRoom) {place : Output}
    (prepared : (prepare h codec?).result = .ok (g, place)) {back : Header}
    (reopened : Reopened codec? h back) :
    (back.WellFormed ∧ back.HasRoom) ∧ back.blank = g.blank := by
  obtain ⟨opened, turns, closed, held, read⟩ := reopened
  obtain ⟨data, decoded⟩ := Reader.decode_of_ofMedium read
  obtain ⟨back, rest, again, blank⟩ := decode_of_turns hw room opened turns closed
  rw [held, again] at decoded
  cases decoded
  rw [header_of_prepare prepared opened] at blank
  obtain ⟨hw', room', -⟩ := Header.decode_sound again
  exact ⟨⟨hw', room'⟩, blank⟩

/-- However often a file is read and written again, it begins with the same header. -/
theorem stable_of_reopened (knows : ∀ codec ∈ codec?, codec.Knows) (hw : h.WellFormed)
    (room : h.HasRoom) (opened : (onMedium m h codec?).1.result = .ok w) {back : Header}
    (reopened : Relation.TransGen (Reopened codec?) h back) : Stable codec? w.header back := by
  apply stable_of_blank knows hw opened
  obtain ⟨-, g, place, prepared, m', -, rfl⟩ := result_onMedium_eq_ok.1 opened
  -- A file that was read is written with the header that is prepared again for it.
  have found : (back.WellFormed ∧ back.HasRoom) ∧ back.blank = g.blank := by
    induction reopened with
    | single first => exact blank_of_reopened hw room prepared first
    | tail _ last ih =>
      exact blank_of_reopened ih.1.1 ih.1.2 (prepare_of_blank knows prepared ih.2) last
  exact found.2

theorem close_of_intoMedium {m' : Medium} (ended : w.intoMedium.1.result = .ok m') :
    w.close.1.result = .ok () ∧ w.close.2.medium = m' := by
  unfold intoMedium at ended
  cases open' : w.isClosed with
  | true =>
    rw [open'] at ended
    cases ended
  | false =>
    rw [open'] at ended
    simp only [Bool.false_eq_true, if_false, Traced.result_bind] at ended
    obtain ⟨closed, same⟩ := Success.unit_bind_eq_ok.1 ended
    exact ⟨closed, Except.ok.inj same⟩

theorem length_run_le (w : Writer) (calls : List Call) :
    (w.run calls).1.length ≤ (calls.flatMap Call.points).length := by
  induction calls generalizing w with
  | nil => exact Nat.le_refl 0
  | cons call calls ih =>
    unfold run
    rw [List.flatMap_cons, List.length_append]
    split
    · next w' accepted =>
      show (call.points ++ (w'.run calls).1).length ≤ _
      rw [List.length_append]
      exact Nat.add_le_add_left (ih w') _
    · next cause w' rejected => exact Nat.le_trans (ih w') (Nat.le_add_left _ _)

theorem reopened_of_lawful {codec : Codec} (lawful : codec.Lawful) (hw : h.WellFormed)
    (room : h.HasRoom) (compressed : h.compressed = true) (reliable : m.Reliable)
    (fresh : m.rest = []) (opened : (onMedium m h (some codec)).1.result = .ok w)
    (calls : List Call)
    (small : (calls.flatMap Call.points).length ≤ Header.maxCount) :
    ∃ back w', Reopened (some codec) h back ∧ (back.WellFormed ∧ back.HasRoom) ∧
      back.compressed = true ∧
      (onMedium m back (some codec)).1.result = .ok w' := by
  obtain ⟨v, valid, made, writable, held⟩ := held_of_onMedium reliable hw compressed opened
  obtain ⟨records, stored, after⟩ := held_keeps.run held calls
  rw [List.nil_append] at after
  have few := Nat.le_trans (length_run_le w calls) small
  rw [stored.length_eq] at few
  have hw' := codedHeader_wellFormed hw codec valid
  obtain ⟨data, encoded, decoded⟩ :=
    lawful.decode (finalHeader (codedHeader h codec v valid) records)
      (encodeAll (codedHeader h codec v valid).format records)
  obtain ⟨m', leaves⟩ := after.leaves hw' writable fresh encoded
  obtain ⟨qs, -, r, read, same, -⟩ :=
    leaves.reads_coded after.toCounted hw' room writable compressed few stored decoded
  have ended := leaves.closed
  rw [← held_keeps.turns_calls held calls] at ended
  obtain ⟨closed, rfl⟩ := close_of_intoMedium ended
  have reopened : Reopened (some codec) h r.header := .intro opened _ closed rfl read
  have knows : ∀ c ∈ some codec, c.Knows := by
    rintro _ ⟨⟩
    exact lawful.knows
  have stable := stable_of_reopened knows hw room opened (.single reopened)
  obtain ⟨w', opened'⟩ := stable.opens m reliable
  obtain ⟨data, decoded⟩ := Reader.decode_of_ofMedium read
  obtain ⟨back, room', -⟩ := Header.decode_sound decoded
  refine ⟨r.header, w', reopened, ⟨back, room'⟩, ?_, opened'⟩
  rw [same]
  exact compressed

/-- A header begins a file with the records that are due, or nothing is written. As long as its
size counts all of its padding, files that are read and written again keep these records, and so
does the start of their points. A coordinate system takes the place of the others in the same
way. -/
theorem records_replaced (knows : ∀ codec ∈ codec?, codec.Knows) (h : Header) :
    (∀ m w, (onMedium m h codec?).1.result = .ok w → Prepared codec? h w.header) ∧
    (h.compressed = true → Uncodable codec? h.format → ∀ m,
      (∃ cause, (onMedium m h codec?).1.result = .error cause) ∧ (onMedium m h codec?).2 = m) ∧
    (h.Made → h.HasRoom → ∀ m w, (onMedium m h codec?).1.result = .ok w →
      (∀ turns, (w.turns turns).2.close.1.result = .ok () → ∃ back rest,
        (Header.decode (w.turns turns).2.close.2.medium.rest).result = .ok (back, rest) ∧
          Stable codec? w.header back) ∧
      ∀ back, Relation.TransGen (Reopened codec?) h back → Stable codec? w.header back) ∧
    ∀ text,
      (∀ left, Header.perform (.spatialReference text) h = .ok () left →
        Vlr.Replaces (·.is Header.projectionUserId Header.coordinateSystemId) h.records.toList
          left.records.toList (Header.coordinateSystemRecord text)) ∧
      ∀ cause left, Header.perform (.spatialReference text) h = .error cause left →
        left.records = h.records := by
  refine ⟨fun m w opened => ?_, fun compressed uncodable m => ?_, ?_, fun text => ⟨?_, ?_⟩⟩
  · obtain ⟨-, g, place, prepared, m', -, rfl⟩ := result_onMedium_eq_ok.1 opened
    exact prepared_of_prepare knows prepared
  · obtain ⟨cause, failed⟩ := prepare_of_uncodable compressed uncodable
    exact onMedium_of_prepare_error failed
  · intro made room m w opened
    refine ⟨fun turns closed => ?_, fun back => ?_⟩
    · obtain ⟨back, rest, read, blank⟩ := decode_of_turns made.wellFormed room opened turns closed
      exact ⟨back, rest, read, stable_of_blank knows made.wellFormed opened blank⟩
    · exact stable_of_reopened knows made.wellFormed room opened
  · intro left accepted
    obtain ⟨-, rfl⟩ := Header.setSpatialReference_eq_ok.1 (Header.perform_eq_ok.1 accepted)
    exact Vlr.replaces_append _ (Header.coordinateSystemRecord_is text)
  · intro cause left stopped
    rw [Header.eq_of_perform_error stopped]

theorem records_replaced_turned :
    let h := { turned with compressed := true }
    let user : Vlr := ⟨0, "user", 7, "", [4]⟩
    (∃ w back, (onMedium (.ofBytes []) h (some turning)).1.result = .ok w ∧
      w.header.records.toList = [user, ⟨0, "turning", 1, "", []⟩] ∧
      Relation.TransGen (Reopened (some turning)) h back ∧ back.records = w.header.records) ∧
    (onMedium (.ofBytes []) h none).2 = .ofBytes [] ∧
    ∃ left, Header.perform (.spatialReference "new") (turned.referring "old" (by decide)) =
        .ok () left ∧
      left.records.toList = turned.records.toList ++ [Header.coordinateSystemRecord "new"] := by
  intro h user
  have knows : ∀ codec ∈ some turning, codec.Knows := by
    rintro _ ⟨⟩
    exact turning_lawful.knows
  have reachable : Header.Reachable h :=
    ((Header.Reachable.empty 2017 1).tryEdits _).edit (e := .compressed true) rfl
  have reliable := Medium.reliable_ofBytes []
  have fresh : (Medium.ofBytes []).rest = [] := by
    rw [Medium.rest_eq, Medium.bytes_ofBytes]
    rfl
  refine ⟨?_, ?_, ?_⟩
  · obtain ⟨prepared, -, stable, -⟩ := records_replaced knows h
    have opens : (onMedium (.ofBytes []) h (some turning)).1.result.toOption.isSome = true := by
      decide +kernel
    obtain ⟨w, opened⟩ := Option.isSome_iff_exists.1 opens
    rw [Success.toOption_eq_some] at opened
    obtain ⟨codec, v, ⟨⟩, ⟨⟩, replaces⟩ := (prepared _ w opened).compressed rfl
    obtain ⟨hw, room⟩ := reachable.sound
    obtain ⟨once, w₁, first, ⟨hw₁, room₁⟩, compressed, opened₁⟩ := reopened_of_lawful
      turning_lawful hw room rfl reliable fresh opened [.writePoint sample] (by decide)
    obtain ⟨back, -, second, -⟩ := reopened_of_lawful turning_lawful hw₁ room₁ compressed reliable
      fresh opened₁ [.writePoint sample] (by decide)
    have reopened := Relation.TransGen.tail (.single first) second
    refine ⟨w, back, opened, ?_, reopened, ?_⟩
    · rw [replaces.records]
      decide +kernel
    · exact ((stable (.reachable reachable) room _ w opened).2 back reopened).records
  · obtain ⟨-, fails, -⟩ := @records_replaced none nofun h
    exact (fails rfl (.noCodec rfl) _).2
  · let referring := turned.referring "old" (by decide)
    obtain ⟨-, -, -, spatial⟩ := records_replaced knows referring
    have accepted : Header.perform (.spatialReference "new") referring =
        .ok () (referring.referring "new" (by decide)) :=
      Header.perform_eq_ok.2 (Header.setSpatialReference_eq_ok.2 ⟨by decide, rfl⟩)
    refine ⟨_, accepted, ?_⟩
    rw [((spatial "new").1 _ accepted).records]
    decide +kernel

/-- The padding has one byte more than the size can count, so that the only record is read back with
another number. -/
theorem renumbered_behind_padding :
    let v : Vlr := ⟨0, "", 5, "", []⟩
    ∃ h h' w back, (Header.ofBlock Header.crowded).result = .ok h ∧
      h.edit (.pushRecord v) = .ok h' ∧ (onMedium (.ofBytes []) h' none).1.result = .ok w ∧
      w.header.records.toList = [v] ∧ Reopened none h' back ∧
      back.records.toList = [{ v with recordId := 1280 }] := by
  intro v
  let other : Vlr := { v with recordId := 1280 }
  have valid : v.Valid := by decide
  have validOther : other.Valid := by decide
  obtain ⟨padding, full, made⟩ := Header.result_ofBlock_crowded
  let found := Vlr.Store.empty.append other validOther
  let g := Header.padded padding found
  let h' := g.overrun [0] (.append .empty v valid)
  have edited : ((Header.padded padding .empty).overrun [0] .empty).edit (.pushRecord v) =
      .ok h' :=
    Success.bind_eq_ok.2 ⟨_, Vlr.Store.push_of_valid .empty valid, rfl⟩
  have hg : g.WellFormed := Header.padded_wellFormed padding found
  have small : Vlr.totalSize [other] ≤ Header.maxSize := by decide
  have writable : g.Writable := Header.padded_writable padding found small
  have hw : h'.WellFormed := Header.overrun_wellFormed hg [0] _
  have writable' : h'.Writable := Header.overrun_writable writable full rfl
  have reliable := Medium.reliable_ofBytes []
  obtain ⟨w, opened⟩ := onMedium_of_writable reliable hw rfl (plainHeader_writable writable')
  have taken : Taken (.ofBytes []) h' [] w := (taken_of_onMedium reliable hw rfl opened).2
  have start : [0] ++ (Header.encodeRecords [v] ++ []) =
      Header.encodeRecords [other] ++ [] ++ [0] := by
    decide +kernel
  obtain ⟨left, ended, kept, opens⟩ :=
    opens_of_overrun [] taken hg writable rfl full rfl rfl start (by decide) rfl rfl
  obtain ⟨closed, same⟩ := close_of_intoMedium ended
  have read := (opens left kept rfl rfl).opened none
  refine ⟨_, h', w, _, made, edited, opened, ?_, .intro opened [] closed ?_ read, rfl⟩
  · rw [taken.header]
    rfl
  · exact congrArg Medium.rest same.symm

end Writer

end Lidar
