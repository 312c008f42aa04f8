import Lidar.Proofs.Writer.Run

/-!
# Opening and closing a writer

Opening puts a header of no points at the position of the medium. Closing puts the final header in
its place: it takes as many bytes, since counts and bounds have fields of fixed width, so that the
records behind it stay where they are.
-/
namespace Lidar

namespace Header

variable {h : Header}

theorem finalize_wellFormed (hw : h.WellFormed) (points : UInt64) (byReturn : Vector UInt64 5)
    (bounds : Bounds) : (h.finalize points byReturn bounds).WellFormed := { hw with }

theorem HasRoom.finalize (room : h.HasRoom) (points : UInt64) (byReturn : Vector UInt64 5)
    (bounds : Bounds) : (h.finalize points byReturn bounds).HasRoom := room

theorem finalize_writable (writable : h.Writable) {points : UInt64} {byReturn : Vector UInt64 5}
    {bounds : Bounds} (hp : Countable h.version points)
    (hr : ∀ n ∈ byReturn.toList, Countable h.version n) :
    (h.finalize points byReturn bounds).Writable :=
  { writable with points := hp, pointsByReturn := hr }

theorem length_front_finalize (h : Header) (points : UInt64) (byReturn : Vector UInt64 5)
    (bounds : Bounds) : (h.finalize points byReturn bounds).front.length = h.front.length := by
  simp only [front_eq, List.length_append, length_block]
  rfl

end Header

namespace Writer

variable {m : Medium} {h : Header} {codec? : Option Codec} {w : Writer}
  {records : List Point.Record}

def plainHeader (h : Header) (codec? : Option Codec) : Header :=
  { h.finalize 0 (Vector.replicate 5 0) .zero with
    records := match codec? with
      | none => h.records
      | some codec => (h.records.removeWhere codec.describes).2 }

theorem plainHeader_wellFormed (hw : h.WellFormed) (codec? : Option Codec) :
    (plainHeader h codec?).WellFormed := { hw with }

theorem plainHeader_writable (writable : h.Writable) : (plainHeader h none).Writable := by
  have points : Header.Countable h.version 0 := .inl (Nat.zero_le _)
  have byReturn := Header.countable_zero h.version
  exact @Header.finalize_writable h writable 0 (Vector.replicate 5 0) .zero points byReturn

theorem result_prepare (plain : h.compressed = false) :
    (prepare h codec?).result = .ok (plainHeader h codec?, .plain) := by
  unfold prepare
  simp only [show (h.finalize 0 (Vector.replicate 5 0) .zero).compressed = false from plain]
  cases codec? with
  | none => rfl
  | some codec =>
    unfold dropCodec
    simp only [Bool.false_eq_true, if_false, Traced.result_bind, Traced.result_sayIf,
      Traced.result_pure]
    rfl

def codedHeader (h : Header) (codec : Codec) (v : Vlr) (valid : v.Valid) : Header :=
  { h.finalize 0 (Vector.replicate 5 0) .zero with
    records := (h.records.removeWhere codec.describes).2.append v valid }

theorem codedHeader_wellFormed (hw : h.WellFormed) (codec : Codec) {v : Vlr} (valid : v.Valid) :
    (codedHeader h codec v valid).WellFormed := { hw with }

theorem result_prepare_compressed (compressed : h.compressed = true) {h' : Header}
    {output : Output} :
    (prepare h codec?).result = .ok (h', output) ↔
      ∃ codec v valid, codec? = some codec ∧ codec.vlr h.format = .ok v ∧
        h' = codedHeader h codec v valid ∧ output = .compressed codec .empty := by
  unfold prepare
  simp only [show (h.finalize 0 (Vector.replicate 5 0) .zero).compressed = true from compressed,
    if_true]
  cases codec? with
  | none => exact ⟨nofun, fun ⟨_, _, _, same, _⟩ => nomatch same⟩
  | some codec =>
    unfold applyCodec
    simp only [Traced.result_bind, Traced.result_liftM, Traced.result_sayIf, Traced.result_pure,
      Success.bind_eq_ok, Vlr.Store.push_eq_ok]
    constructor
    · rintro ⟨_, ⟨v, made, _, -, _, -, records, ⟨valid, rfl⟩, ⟨⟩⟩, ⟨⟩⟩
      exact ⟨codec, v, valid, rfl, made, rfl, rfl⟩
    · rintro ⟨_, v, valid, ⟨⟩, made, rfl, rfl⟩
      exact ⟨_, ⟨v, made, (), Vlr.validate_eq_ok_iff.2 valid, (), trivial, _, ⟨valid, rfl⟩, rfl⟩,
        rfl⟩

theorem wellFormed_of_prepare (hw : h.WellFormed) {h' : Header} {output : Output}
    (prepared : (prepare h codec?).result = .ok (h', output)) :
    h'.WellFormed ∧
      h' = { h.finalize 0 (Vector.replicate 5 0) .zero with records := h'.records } := by
  cases compressed : h.compressed with
  | false =>
    rw [result_prepare compressed] at prepared
    cases prepared
    exact ⟨plainHeader_wellFormed hw codec?, rfl⟩
  | true =>
    obtain ⟨codec, v, valid, rfl, -, rfl, -⟩ := (result_prepare_compressed compressed).1 prepared
    exact ⟨codedHeader_wellFormed hw codec valid, rfl⟩

theorem result_onMedium_eq_ok :
    (onMedium m h codec?).1.result = .ok w ↔
      m.positionFails = false ∧
      ∃ h' output, (prepare h codec?).result = .ok (h', output) ∧
      ∃ m', Medium.writeInTurn h' m = .ok () m' ∧
        w = ⟨h', m', m.position, .zero, some output⟩ := by
  unfold onMedium Medium.tell
  cases m.positionFails with
  | true =>
    rw [if_pos rfl]
    exact ⟨nofun, fun told => nomatch told.1⟩
  | false =>
    simp only [Bool.false_eq_true, if_false, true_and]
    cases (prepare h codec?).result with
    | error e => exact ⟨nofun, fun ⟨_, _, prepared, _⟩ => nomatch prepared⟩
    | ok made =>
      obtain ⟨h', output⟩ := made
      cases put : Medium.writeInTurn h' m with
      | error e m' =>
        simp only [put]
        constructor
        · exact nofun
        · rintro ⟨_, _, ⟨⟩, m'', wrote, -⟩
          rw [put] at wrote
          cases wrote
      | ok _ m' =>
        simp only [put]
        constructor
        · rintro ⟨⟩
          exact ⟨h', output, rfl, m', put, rfl⟩
        · rintro ⟨_, _, ⟨⟩, m'', wrote, rfl⟩
          rw [put] at wrote
          cases wrote
          rfl

theorem taken_of_onMedium (reliable : m.Reliable) (hw : h.WellFormed) (plain : h.compressed = false)
    (opened : (onMedium m h codec?).1.result = .ok w) :
    (plainHeader h codec?).Writable ∧ Taken m (plainHeader h codec?) [] w := by
  obtain ⟨-, h', output, prepared, m', put, rfl⟩ := result_onMedium_eq_ok.1 opened
  rw [result_prepare plain] at prepared
  cases prepared
  have hw₀ := plainHeader_wellFormed hw codec?
  have writable := Medium.writable_of_writeInTurn hw₀ put
  obtain ⟨m'', same, wrote⟩ := Medium.writeInTurn_eq reliable hw₀ writable
  rw [put] at same
  cases same
  refine ⟨writable, rfl, rfl, rfl, ?_, rfl, .inr (Nat.zero_le _)⟩
  rw [encodeAll, List.flatMap_nil, List.append_nil]
  exact wrote

theorem header_of_onMedium (hw : h.WellFormed)
    (opened : (onMedium m h codec?).1.result = .ok w) :
    w.header = { h.finalize 0 (Vector.replicate 5 0) .zero with records := w.header.records } := by
  obtain ⟨-, h', output, prepared, m', -, rfl⟩ := result_onMedium_eq_ok.1 opened
  exact (wellFormed_of_prepare hw prepared).2

theorem counted_of_onMedium (hw : h.WellFormed)
    (opened : (onMedium m h codec?).1.result = .ok w) :
    w.header.WellFormed ∧ w.header.Writable ∧ w.header.version = h.version ∧
      Counted w.header [] w := by
  have version : w.header.version = h.version := by
    rw [header_of_onMedium hw opened]
    rfl
  obtain ⟨-, h', output, prepared, m', put, rfl⟩ := result_onMedium_eq_ok.1 opened
  have hw' := (wellFormed_of_prepare hw prepared).1
  exact ⟨hw', Medium.writable_of_writeInTurn hw' put, version, rfl, rfl, rfl,
    .inr (Nat.zero_le _)⟩

theorem onMedium_of_writable (reliable : m.Reliable) (hw : h.WellFormed)
    (plain : h.compressed = false) (writable : (plainHeader h codec?).Writable) :
    ∃ w, (onMedium m h codec?).1.result = .ok w := by
  obtain ⟨m', put, -⟩ := Medium.writeInTurn_eq reliable (plainHeader_wellFormed hw codec?) writable
  exact ⟨_, result_onMedium_eq_ok.2 ⟨reliable.position, _, _, result_prepare plain, m', put, rfl⟩⟩

theorem replaceHeader_eq (reliable : m.Reliable) (hw : h.WellFormed) (writable : h.Writable)
    {front old back : Bytes} (bytes : m.bytes = front ++ (old ++ back))
    (length : old.length = h.front.length) :
    ∃ m', replaceHeader h front.length m = .ok () m' ∧ m'.Reliable ∧
      m'.before = front ∧ m'.rest = h.front ++ back ∧ m'.Inside := by
  obtain ⟨before, rest, -⟩ := Medium.split_eq (m := { m with position := front.length }) bytes rfl
  obtain ⟨m₁, written, wrote⟩ :=
    Medium.writeInTurn_eq (reliable.put m.content front.length) hw writable
  have inside := wrote.inside (.inr h.front_ne_nil)
  have stream : m₁.bytes = front ++ (h.front ++ back) := by
    rw [inside.bytes_eq, wrote.before, wrote.rest, before, rest, ← length, List.drop_left,
      List.append_assoc]
  have flushed : Medium.flush .flushing m₁ = .ok () m₁ := by
    unfold Medium.flush
    rw [wrote.reliable.flush]
    rfl
  refine ⟨{ m₁ with position := front.length }, ?_, wrote.reliable.put _ _,
    Medium.split_eq stream rfl⟩
  unfold replaceHeader
  rw [Success.run_bind_ok (Medium.seek_eq reliable _ _), Success.run_bind_ok written,
    Success.run_bind_ok flushed, Medium.seek_eq wrote.reliable]

def finalHeader (h : Header) (records : List Point.Record) : Header :=
  let t := Tally.counted h.transforms records
  h.finalize t.points t.byReturn t.bounds

theorem finalHeader_writable (writable : h.Writable) (room : Room h.version records.length) :
    (finalHeader h records).Writable := by
  have points : (Tally.counted h.transforms records).points = _ := Tally.points_counted records
  refine Header.finalize_writable writable ?_ fun n hn => ?_
  · rcases room with supported | small
    · exact .inr supported
    · refine .inl ?_
      rw [points, UInt64.toNat_ofNat']
      exact Nat.le_trans (Nat.mod_le _ _) small
  · rcases room with supported | small
    · exact .inr supported
    · exact .inl (Nat.le_trans (Tally.byReturn_le records n hn) small)

theorem finalize_of_counted (counted : Counted h records w) :
    w.header.finalize w.tally.points w.tally.byReturn w.tally.bounds = finalHeader h records := by
  rw [counted.header, counted.tally]
  rfl

theorem close_of_release (counted : Counted h records w) {place : Output}
    (output : w.output? = some place) {m₁ : Medium} {events : List Event}
    (released : release (finalHeader h records) place w.medium = .ok events m₁) :
    w.close =
      match replaceHeader (finalHeader h records) w.start m₁ with
      | .error e m => (⟨.error e, events⟩,
          { w with header := finalHeader h records, medium := m, output? := none })
      | .ok () m => (⟨.ok (), events ++ [.finalized h.version w.tally.points]⟩,
          { w with header := finalHeader h records, medium := m, output? := none }) := by
  unfold close
  simp only [output, finalize_of_counted counted, released]
  rfl

theorem close_of_plain (counted : Counted h records w) (plain : w.output? = some .plain) :
    w.close =
      match replaceHeader (finalHeader h records) w.start w.medium with
      | .error e m => (⟨.error e, []⟩,
          { w with header := finalHeader h records, medium := m, output? := none })
      | .ok () m => (⟨.ok (), [.finalized h.version w.tally.points]⟩,
          { w with header := finalHeader h records, medium := m, output? := none }) :=
  close_of_release counted plain rfl

theorem close_of_wrote (counted : Counted h records w) (hw : h.WellFormed) (writable : h.Writable)
    (start : w.start = m.position) {place : Output} (output : w.output? = some place)
    {m₁ : Medium} {events : List Event} {data : Bytes}
    (released : release (finalHeader h records) place w.medium = .ok events m₁)
    (wrote : m.Wrote (h.front ++ data) m₁) :
    ∃ m', w.close = (⟨.ok (), events ++ [.finalized h.version w.tally.points]⟩,
        { w with header := finalHeader h records, medium := m', output? := none }) ∧
      m'.Reliable ∧ m'.before = m.before ∧
      m'.rest = (finalHeader h records).front ++ (data ++ m₁.rest) ∧ m'.Inside := by
  have filled : h.front ++ data ≠ [] :=
    List.append_ne_nil_of_left_ne_nil h.front_ne_nil _
  have bytes : m₁.bytes = m.before ++ (h.front ++ (data ++ m₁.rest)) := by
    rw [(wrote.inside (.inr filled)).bytes_eq, wrote.before]
    simp only [List.append_assoc]
  have place : w.start = m.before.length := by rw [start, Medium.length_before]
  obtain ⟨m', replaced, kept⟩ := replaceHeader_eq wrote.reliable
    (Header.finalize_wellFormed hw _ _ _) (finalHeader_writable writable counted.room) bytes
    (h.length_front_finalize _ _ _).symm
  rw [← place] at replaced
  change replaceHeader (finalHeader h records) w.start m₁ = .ok () m' at replaced
  refine ⟨m', ?_, kept⟩
  rw [close_of_release counted output released, replaced]

/-- Closing leaves what was before the position of the medium, and from there on the final header,
the records and what was behind them. -/
theorem close_eq (taken : Taken m h records w) (hw : h.WellFormed) (writable : h.Writable) :
    ∃ m', w.close = (⟨.ok (), [.finalized h.version w.tally.points]⟩,
        { w with header := finalHeader h records, medium := m', output? := none }) ∧
      m'.Reliable ∧ m'.before = m.before ∧
      m'.rest = (finalHeader h records).front ++ (encodeAll h.format records ++ w.medium.rest) ∧
      m'.Inside :=
  close_of_wrote taken.counted hw writable taken.start taken.output rfl taken.wrote

theorem intoMedium_of_close {w' : Writer} {events : List Event} (opened : w.isClosed = false)
    (closed : w.close = (⟨.ok (), events⟩, w')) :
    w.intoMedium.1.result = .ok w'.medium ∧ w.intoMedium.2 = w' := by
  unfold intoMedium
  rw [opened, closed]
  exact ⟨rfl, rfl⟩

theorem intoMedium_eq (taken : Taken m h records w) (hw : h.WellFormed) (writable : h.Writable) :
    ∃ m' back, w.intoMedium.1.result = .ok m' ∧ m'.Reliable ∧ m'.before = m.before ∧
      m'.rest = (finalHeader h records).front ++ (encodeAll h.format records ++ back) ∧
      m'.Inside := by
  obtain ⟨m', closed, kept⟩ := close_eq taken hw writable
  exact ⟨m', w.medium.rest, (intoMedium_of_close (isClosed_of_output taken.output) closed).1, kept⟩

end Writer

end Lidar
