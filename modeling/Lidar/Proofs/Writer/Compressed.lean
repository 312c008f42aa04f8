import Lidar.Proofs.Reader.Decompressed
import Lidar.Proofs.Writer.ReadBack

/-!
# Compressed and plain writing agree

A writer that compresses holds its records back until it closes, and a reader that decompresses has
all of them before it reads the first. Between the two there is only the header: the codec is given
the final one when it encodes, and when it decodes the one that is read, which is the same unless a
count by return was too large for 32 bits. So the two ways of writing differ in nothing that a
caller sees, except in the bytes of the medium and in what the header says about them.
-/
namespace Lidar

/-- A codec knows its own record, and gets back what it has encoded under the same header. -/
structure Codec.Lawful (codec : Codec) : Prop where
  describes : ∀ {f v}, codec.vlr f = .ok v → codec.describes v = true
  decode : ∀ h records, ∃ data,
    codec.encode h records = .ok data ∧ codec.decode h data = .ok records

/-- A header says the same as another, but of points that a codec has compressed: in its records
there is one more, which is the only one of the codec, and the points start behind it. -/
structure Header.CompressesTo (codec : Codec) (h h' : Header) : Prop where
  plain : h.compressed = false
  record : ∃ v valid, codec.vlr h.format = .ok v ∧
    h' = { h with compressed := true, records := h.records.append v valid } ∧
    h'.pointDataStart = h.pointDataStart + v.size
  described : h'.records.removeWhere codec.describes = (1, h.records)

theorem Header.compressesTo_push {codec : Codec} (lawful : codec.Lawful) {h : Header} {v : Vlr}
    (plain : h.compressed = false) (others : ∀ u ∈ h.records.toList, codec.describes u = false)
    (made : codec.vlr h.format = .ok v) (valid : v.Valid) :
    h.CompressesTo codec { h with compressed := true, records := h.records.append v valid } where
  plain := plain
  record := by
    refine ⟨v, valid, made, rfl, ?_⟩
    show h.size + Vlr.totalSize (h.records.toList ++ [v]) + h.recordPadding.length =
      h.size + Vlr.totalSize h.records.toList + h.recordPadding.length + v.size
    rw [Vlr.totalSize_append, Vlr.totalSize_cons, Vlr.totalSize_nil]
    omega
  described := by
    have known := lawful.describes made
    have none : h.records.toList.countP codec.describes = 0 :=
      List.countP_eq_zero.2 fun u mem => ne_true_of_eq_false (others u mem)
    have kept : h.records.toList.filter (!codec.describes ·) = h.records.toList :=
      List.filter_eq_self.2 fun u mem => by rw [others u mem]; rfl
    refine Prod.ext ?_ (Vlr.Store.ext ?_)
    · show (h.records.toList ++ [v]).countP codec.describes = 1
      rw [List.countP_append, none, List.countP_singleton, known]
      rfl
    · show (h.records.toList ++ [v]).filter (!codec.describes ·) = h.records.toList
      rw [List.filter_append, kept, List.filter_singleton, known]
      exact List.append_nil _

namespace Writer

variable {m : Medium} {h : Header} {codec : Codec} {records : List Point.Record} {w : Writer}

/-- A writer that was opened on a medium with a header holds these records back for a codec. -/
structure Held (m : Medium) (h : Header) (codec : Codec) (records : List Point.Record)
    (w : Writer) : Prop extends Counted h records w where
  start : w.start = m.position
  output : ∃ buffer, w.output? = some (.compressed codec buffer) ∧
    Bytes.ofPacked buffer = encodeAll h.format records
  wrote : m.Wrote h.front w.medium

theorem writeRecord_held (held : Held m h codec records w) (r : Point.Record)
    (room : Room h.version (records.length + 1)) :
    ∃ w', writeRecord r w = .ok () w' ∧ Held m h codec (records ++ [r]) w' := by
  obtain ⟨buffer, place, holds⟩ := held.output
  let longer := buffer ++ (r.encode h.format).toByteArray
  have put : output (r.encode w.header.format) w =
      .ok () { w with output? := some (.compressed codec longer) } := by
    unfold output
    rw [place, held.header]
  have counted : Counted h records { w with output? := some (.compressed codec longer) } :=
    ⟨held.header, rfl, held.tally, held.room⟩
  refine ⟨_, writeRecord_of_output put, counted.add r room, held.start, ⟨longer, rfl, ?_⟩,
    held.wrote⟩
  rw [Bytes.ofPacked_append, Bytes.ofPacked_toByteArray, holds, encodeAll, encodeAll,
    List.flatMap_append, List.flatMap_singleton]

theorem held_keeps : Keeps h (Held m h codec) :=
  ⟨Held.toCounted, fun r held => writeRecord_held held r⟩

theorem held_of_onMedium (reliable : m.Reliable) (hw : h.WellFormed)
    (compressed : h.compressed = true)
    (opened : (onMedium m h (some codec)).1.result = .ok w) :
    ∃ v valid, codec.vlr h.format = .ok v ∧ (codedHeader h codec v valid).Writable ∧
      Held m (codedHeader h codec v valid) codec [] w := by
  obtain ⟨-, h', output, prepared, m', put, rfl⟩ := result_onMedium_eq_ok.1 opened
  obtain ⟨codec', v, valid, same, made, rfl, rfl⟩ :=
    (result_prepare_compressed compressed).1 prepared
  cases same
  have hw' := codedHeader_wellFormed hw codec valid
  have writable := Medium.writable_of_writeInTurn hw' put
  obtain ⟨m'', again, wrote⟩ := Medium.writeInTurn_eq reliable hw' writable
  rw [put] at again
  cases again
  exact ⟨v, valid, made, writable, ⟨rfl, rfl, rfl, .inr (Nat.zero_le _)⟩, rfl, ⟨.empty, rfl, rfl⟩,
    wrote⟩

/-- A writer closes, and leaves a header with these bytes behind it and nothing more. -/
structure Leaves (w : Writer) (h : Header) (data : Bytes) (m : Medium) : Prop where
  closed : w.intoMedium.1.result = .ok m
  header : w.close.2.header = h
  reliable : m.Reliable
  rest : m.rest = h.front ++ data
  inside : m.Inside

theorem Leaves.drop_rest {data : Bytes} (leaves : Leaves w h data m) (room : h.HasRoom) :
    m.rest.drop h.pointDataStart = data := by
  rw [leaves.rest, ← Header.length_front room, List.drop_left]

theorem leaves_of_wrote (counted : Counted h records w) (hw : h.WellFormed) (writable : h.Writable)
    (fresh : m.rest = []) (start : w.start = m.position) {place : Output}
    (output : w.output? = some place) {m₁ : Medium} {events : List Event} {data : Bytes}
    (released : release (finalHeader h records) place w.medium = .ok events m₁)
    (wrote : m.Wrote (h.front ++ data) m₁) :
    ∃ m', Leaves w (finalHeader h records) data m' := by
  obtain ⟨m', closed, reliable, -, rest, inside⟩ :=
    close_of_wrote counted hw writable start output released wrote
  rw [wrote.rest, fresh, List.drop_nil, List.append_nil] at rest
  refine ⟨m', (intoMedium_of_close counted.opened closed).1, ?_, reliable, rest, inside⟩
  rw [closed]

theorem Taken.leaves (taken : Taken m h records w) (hw : h.WellFormed) (writable : h.Writable)
    (fresh : m.rest = []) :
    ∃ m', Leaves w (finalHeader h records) (encodeAll h.format records) m' :=
  leaves_of_wrote taken.counted hw writable fresh taken.start taken.output rfl taken.wrote

theorem Held.leaves (held : Held m h codec records w) (hw : h.WellFormed) (writable : h.Writable)
    (fresh : m.rest = []) {data : Bytes}
    (encoded : codec.encode (finalHeader h records) (encodeAll h.format records) = .ok data) :
    ∃ m', Leaves w (finalHeader h records) data m' := by
  obtain ⟨buffer, place, holds⟩ := held.output
  obtain ⟨m₁, written, wrote⟩ :=
    Medium.write_eq held.wrote.reliable .writingCompressedPoints data
  have released : release (finalHeader h records) (.compressed codec buffer) w.medium =
      .ok [.encoded buffer.size data.length] m₁ := by
    rw [← holds] at encoded
    unfold release
    dsimp only
    rw [Success.run_ofExcept_bind_ok encoded, Success.run_bind_ok written]
    rfl
  exact leaves_of_wrote held.toCounted hw writable fresh held.start place released
    (held.wrote.append wrote)

/-- The final headers of the same records differ in what is compressed, and in nothing else. -/
theorem finalHeader_compressesTo (lawful : codec.Lawful) {v : Vlr}
    (made : codec.vlr h.format = .ok v) (valid : v.Valid) (records : List Point.Record) :
    Header.CompressesTo codec
      (finalHeader (plainHeader { h with compressed := false } (some codec)) records)
      (finalHeader (codedHeader { h with compressed := true } codec v valid) records) := by
  refine Header.compressesTo_push lawful
    (h := finalHeader (plainHeader { h with compressed := false } (some codec)) records)
    rfl (fun u mem => ?_) made valid
  have kept := (List.mem_filter.1 mem).2
  simpa using kept

def ReadsAll (m : Medium) (codec? : Option Codec) (h : Header) (points : List Point) : Prop :=
  ∃ r, (Reader.ofMedium m codec?).result = .ok r ∧ r.header = h ∧
    (r.answers (List.replicate (points.length + 1) .readPoint)).1 =
      points.map (fun p => .next (.ok (some p))) ++ [.next (.ok none)]

theorem finalHeader_counts (small : records.length ≤ Header.maxCount) :
    (finalHeader h records).numberOfPoints.toNat = records.length ∧
      ∀ n ∈ (finalHeader h records).numberOfPointsByReturn.toList, n.toNat ≤ Header.maxCount := by
  constructor
  · show (Tally.counted h.transforms records).points.toNat = _
    rw [Tally.points_counted, UInt64.toNat_ofNat_of_lt' (Nat.lt_of_le_of_lt small (by decide))]
  · exact fun n mem => Nat.le_trans (Tally.byReturn_le records n mem) small

theorem length_encodeAll_lt (hw : h.WellFormed) (small : records.length ≤ Header.maxCount) :
    (encodeAll h.format records).length < Cursor.positionLimit := by
  rw [length_encodeAll]
  exact Nat.lt_of_le_of_lt (Nat.mul_le_mul small hw.format) (by decide)

theorem Leaves.reads_plain
    (leaves : Leaves w (finalHeader h records) (encodeAll h.format records) m)
    (counted : Counted h records w) (hw : h.WellFormed) (room : h.HasRoom) (writable : h.Writable)
    (plain : h.compressed = false) (small : records.length ≤ Header.maxCount) {points : List Point}
    (stored : Stored h points records) (codec? : Option Codec) :
    ∃ qs, List.Forall₂ (Point.ReadsAs h.transforms h.format) points qs ∧
      ReadsAll m codec? (finalHeader h records) qs := by
  have bytes := leaves.inside.bytes_eq
  rw [leaves.rest, ← List.append_nil (encodeAll h.format records)] at bytes
  have opens := counted.opens hw room writable plain (Nat.lt_of_le_of_lt small (by decide))
    leaves.reliable bytes (Medium.length_before m).symm
  rw [Header.countsReadBack_of_le (finalHeader_writable writable counted.room)
    (finalHeader_counts small).2] at opens
  obtain ⟨qs, same, answers⟩ := opens.answers stored
  rw [same.length_eq] at answers
  exact ⟨qs, same, _, opens.opened codec?, rfl, answers⟩

theorem Leaves.reads_coded {data : Bytes} (leaves : Leaves w (finalHeader h records) data m)
    (counted : Counted h records w) (hw : h.WellFormed) (room : h.HasRoom) (writable : h.Writable)
    (compressed : h.compressed = true) (small : records.length ≤ Header.maxCount)
    {points : List Point} (stored : Stored h points records)
    (decoded : codec.decode (finalHeader h records) data = .ok (encodeAll h.format records)) :
    ∃ qs, List.Forall₂ (Point.ReadsAs h.transforms h.format) points qs ∧
      ReadsAll m (some codec) (finalHeader h records) qs := by
  have hw' : (finalHeader h records).WellFormed := Header.finalize_wellFormed hw _ _ _
  obtain ⟨count, byReturn⟩ := finalHeader_counts (h := h) small
  have read := Header.decode_front_of_le hw' (room.finalize _ _ _)
    (finalHeader_writable writable counted.room) byReturn data
  rw [← leaves.rest] at read
  have length : (encodeAll h.format records).length = (finalHeader h records).recordsSize := by
    rw [length_encodeAll, Header.recordsSize, count, Header.format_length hw']
    rfl
  have unpacked := Reader.result_decompress_eq_ok.2
    ⟨decoded, length ▸ length_encodeAll_lt hw small, length⟩
  have opened : (Reader.ofMedium m (some codec)).result =
      .ok (Reader.unpacked (finalHeader h records) (encodeAll h.format records)) := by
    rw [Reader.result_ofMedium_decompress read compressed, unpacked]
    rfl
  let source := Source.unpacked (finalHeader h records) (encodeAll h.format records)
  have regular : source.Regular := Header.format_length hw'
  have stream : source.stream = [] ++ (encodeAll h.format records ++ []) := by
    rw [List.nil_append, List.append_nil]
    rfl
  obtain ⟨qs, same, answers⟩ := Source.reads_stored regular (Source.agrees_unpacked _ _) rfl rfl
    stored stream rfl count
  rw [same.length_eq] at answers
  exact ⟨qs, same, _, opened, rfl, answers⟩

/-- Two writers with the same header, of which one compresses, on media that never fail and with
nothing behind their positions. They answer all calls alike and close with headers that say the
same. As long as the size of these counts all of the padding, the codec has been given the point
records as they stand in the plain file, and while the points are fewer than 2^32, both files are
read with the header that their writer has closed with, and the same points are read from both. -/
theorem compressed_of_run {h : Header} (made : h.Made) {codec : Codec}
    (lawful : codec.Lawful) {m m' : Medium} (reliable : m.Reliable) (reliable' : m'.Reliable)
    (fresh : m.rest = []) (fresh' : m'.rest = []) {w w' : Writer}
    (opened : (onMedium m { h with compressed := false } (some codec)).1.result = .ok w)
    (opened' : (onMedium m' { h with compressed := true } (some codec)).1.result = .ok w')
    (calls : List Call) :
    let accepted := (w.run calls).1
    let plain := (w.run calls).2
    let coded := (w'.run calls).2
    w'.replies calls = w.replies calls ∧ (w'.run calls).1 = accepted ∧
      plain.close.2.header.CompressesTo codec coded.close.2.header ∧
      ∃ left left', plain.intoMedium.1.result = .ok left ∧ coded.intoMedium.1.result = .ok left' ∧
        (h.HasRoom →
          codec.encode coded.close.2.header (left.rest.drop plain.close.2.header.pointDataStart) =
              .ok (left'.rest.drop coded.close.2.header.pointDataStart) ∧
            (accepted.length ≤ Header.maxCount →
              ∃ qs, List.Forall₂ (Point.ReadsAs h.transforms h.format) accepted qs ∧
                ReadsAll left (some codec) plain.close.2.header qs ∧
                ReadsAll left' (some codec) coded.close.2.header qs)) := by
  intro accepted plain coded
  have hw : { h with compressed := false }.WellFormed := { made.wellFormed with }
  have hw' : { h with compressed := true }.WellFormed := { made.wellFormed with }
  obtain ⟨writable, taken⟩ := taken_of_onMedium reliable hw rfl opened
  obtain ⟨v, valid, known, writable', held⟩ := held_of_onMedium reliable' hw' rfl opened'
  have keeps := taken_keeps (m := m) (h := plainHeader { h with compressed := false } (some codec))
  have keeps' : Keeps (codedHeader { h with compressed := true } codec v valid) (Held m' _ codec) :=
    held_keeps
  obtain ⟨replies, same, records, stored, taken, held⟩ :=
    keeps.pair keeps' rfl rfl rfl taken held calls
  rw [List.nil_append] at taken held
  -- Encoding happens under the final header, so the law helps only because that is what is read.
  obtain ⟨data, encoded, decoded⟩ :=
    lawful.decode (finalHeader (codedHeader { h with compressed := true } codec v valid) records)
      (encodeAll h.format records)
  have wf := plainHeader_wellFormed hw (some codec)
  have wf' := codedHeader_wellFormed hw' codec valid
  obtain ⟨left, leaves⟩ := taken.leaves wf writable fresh
  obtain ⟨left', leaves'⟩ := held.leaves wf' writable' fresh' encoded
  refine ⟨replies, same, ?_, left, left', leaves.closed, leaves'.closed,
    fun room => ⟨?_, fun small => ?_⟩⟩
  · rw [leaves.header, leaves'.header]
    exact finalHeader_compressesTo lawful known valid records
  · rw [leaves.header, leaves'.header, leaves.drop_rest room, leaves'.drop_rest room]
    exact encoded
  · rw [stored.length_eq] at small
    rw [leaves.header, leaves'.header]
    obtain ⟨qs, reads, all⟩ :=
      leaves.reads_plain taken.counted wf room writable rfl small stored (some codec)
    obtain ⟨qs', reads', all'⟩ :=
      leaves'.reads_coded held.toCounted wf' room writable' rfl small stored decoded
    have alike : qs = qs' :=
      List.right_unique_forall₂' (fun _ _ _ first second => first.unique second) reads reads'
    rw [← alike] at all'
    exact ⟨qs, reads, all, all'⟩

def turning : Codec where
  describes v := v.is "turning" 1
  vlr _ := .ok ⟨0, "turning", 1, "", []⟩
  decode _ data := .ok data.reverse
  encode _ records := .ok records.reverse

theorem turning_lawful : turning.Lawful where
  describes := by
    rintro f v ⟨⟩
    decide
  decode _ records := ⟨records.reverse, rfl, congrArg Except.ok records.reverse_reverse⟩

def turned : Header :=
  [Header.Edit.pushRecord ⟨0, "turning", 1, "old", [1]⟩,
    .pushRecord ⟨0, "user", 7, "", [4]⟩].foldl Header.tryEdit (.empty 2017 1)

theorem compressed_of_run_sample :
    ∃ w w' calls,
      (onMedium (.ofBytes []) { turned with compressed := false } (some turning)).1.result = .ok w ∧
      (onMedium (.ofBytes []) { turned with compressed := true } (some turning)).1.result = .ok w' ∧
      (w.run calls).1 = [sample, sample, sample] ∧ w'.replies calls = w.replies calls ∧
      (w.run calls).2.close.2.header.CompressesTo turning (w'.run calls).2.close.2.header ∧
      ∃ left left' qs, (w.run calls).2.intoMedium.1.result = .ok left ∧
        (w'.run calls).2.intoMedium.1.result = .ok left' ∧
        left'.rest.drop (w'.run calls).2.close.2.header.pointDataStart =
          (left.rest.drop (w.run calls).2.close.2.header.pointDataStart).reverse ∧
        List.Forall₂ (Point.ReadsAs (.all .default) ⟨false, false, 0⟩) [sample, sample, sample] qs ∧
        ReadsAll left (some turning) (w.run calls).2.close.2.header qs ∧
        ReadsAll left' (some turning) (w'.run calls).2.close.2.header qs := by
  let m := Medium.ofBytes []
  let calls : List Call := [.writePoints [sample, sample],
    .writePoint { sample with gpsTime? := some .zero }, .writePoint sample]
  have fresh : m.rest = [] := by rw [Medium.rest_eq, Medium.bytes_ofBytes]; rfl
  have reliable : m.Reliable := Medium.reliable_ofBytes []
  have ran : ((onMedium m { turned with compressed := false } (some turning)).1.result.toOption.map
      fun w => (w.run calls).1) = some [sample, sample, sample] := by decide +kernel
  have ran' : ((onMedium m { turned with compressed := true } (some turning)).1.result.toOption.map
      fun w => (w.run calls).1) = some [sample, sample, sample] := by decide +kernel
  obtain ⟨w, opened, accepted⟩ := Option.map_eq_some_iff.1 ran
  obtain ⟨w', opened', -⟩ := Option.map_eq_some_iff.1 ran'
  rw [Success.toOption_eq_some] at opened opened'
  have reachable : turned.Reachable := (Header.Reachable.empty 2017 1).tryEdits _
  obtain ⟨replies, -, compresses, left, left', closed, closed', agree⟩ :=
    compressed_of_run (.reachable reachable) turning_lawful reliable reliable fresh fresh opened
      opened' calls
  obtain ⟨encoded, read⟩ := agree reachable.sound.2
  rw [accepted] at read
  obtain ⟨qs, same, all, all'⟩ := read (by decide)
  exact ⟨w, w', calls, opened, opened', accepted, replies, compresses, left, left', qs, closed,
    closed', (Except.ok.inj encoded).symm, same, all, all'⟩

def nameless : Codec :=
  { turning with
    describes := fun v => v.is "" 1
    vlr := fun _ => .ok ⟨0, "", 1, "", []⟩ }

theorem nameless_lawful : nameless.Lawful where
  describes := by
    rintro f v ⟨⟩
    decide
  decode := turning_lawful.decode

def namelessRecord : Vlr := ⟨0, "", 1, "", []⟩

def namelessEarly : Vlr := ⟨0, "", 256, "", []⟩

theorem valid_namelessRecord : namelessRecord.Valid := by decide

theorem valid_namelessEarly : namelessEarly.Valid := by decide

theorem undecodable_of_full {padding : Bytes}
    (full : Version.default.headerSize + padding.length = Header.maxSize) :
    let h := (Header.padded padding .empty).overrun [0] .empty
    ∃ w left, (onMedium (.ofBytes []) { h with compressed := true } (some nameless)).1.result =
        .ok w ∧ w.intoMedium.1.result = .ok left ∧
      (Reader.ofMedium left (some nameless)).result = .error (.decodedLength 0 1) := by
  intro h
  let c : Header := { h with compressed := true }
  let found := Vlr.Store.empty.append namelessEarly valid_namelessEarly
  let g : Header := { Header.padded padding found with compressed := true }
  let first := codedHeader c nameless namelessRecord valid_namelessRecord
  have hg : g.WellFormed := { Header.padded_wellFormed padding found with }
  have hc : c.WellFormed := { hg with }
  have writable : g.Writable :=
    { Header.padded_writable padding found (by decide) with }
  have coded : first = g.overrun [0] (.append .empty namelessRecord valid_namelessRecord) := rfl
  have hw : first.WellFormed := codedHeader_wellFormed hc nameless valid_namelessRecord
  have writable' : first.Writable := by
    rw [coded]
    exact Header.overrun_writable writable full rfl
  have reliable := Medium.reliable_ofBytes []
  have fresh : (Medium.ofBytes []).rest = [] := by rw [Medium.rest_eq, Medium.bytes_ofBytes]; rfl
  obtain ⟨m, put, -⟩ := Medium.writeInTurn_eq reliable hw writable'
  have opened := result_onMedium_eq_ok.2 ⟨reliable.position, first, _,
    (result_prepare_compressed (h := c) rfl).2
      ⟨nameless, namelessRecord, valid_namelessRecord, rfl, rfl, rfl, rfl⟩, m, put, rfl⟩
  obtain ⟨_, _, ⟨⟩, -, held⟩ := held_of_onMedium reliable hc rfl opened
  obtain ⟨left, leaves⟩ := held.leaves hw writable' fresh rfl
  have start : [0] ++ (Header.encodeRecords [namelessRecord] ++ []) =
      Header.encodeRecords [namelessEarly] ++ [] ++ [0] := by
    decide +kernel
  have front : (finalHeader first []).front = (finalHeader g []).front ++ [0] :=
    Header.front_overrun (g := finalHeader g []) full rfl rfl start
  have room : g.HasRoom := Nat.le_of_eq full
  have hw' : (finalHeader g []).WellFormed := Header.finalize_wellFormed hg _ _ _
  have last : (finalHeader g []).Writable := finalHeader_writable writable (.inr (Nat.zero_le _))
  have read := Header.decode_front hw' (room.finalize _ _ _) last [0]
  have rest : left.rest = (finalHeader g []).front ++ [0] :=
    leaves.rest.trans ((List.append_nil _).trans front)
  rw [← rest] at read
  refine ⟨_, left, opened, leaves.closed, ?_⟩
  rw [Reader.result_ofMedium_decompress read rfl, Reader.result_decompress rfl]
  rfl

/-- The padding has one byte more than the size can count. The plain file is opened, and of the
compressed one a byte is left that no point has. -/
theorem undecodable_behind_padding :
    nameless.Lawful ∧ ∃ h w w' left left' r, (Header.ofBlock Header.crowded).result = .ok h ∧
      (onMedium (.ofBytes []) { h with compressed := false } (some nameless)).1.result = .ok w ∧
      (onMedium (.ofBytes []) { h with compressed := true } (some nameless)).1.result = .ok w' ∧
      w.intoMedium.1.result = .ok left ∧ w'.intoMedium.1.result = .ok left' ∧
      (Reader.ofMedium left (some nameless)).result = .ok r ∧
      (Reader.ofMedium left' (some nameless)).result = .error (.decodedLength 0 1) := by
  obtain ⟨padding, full, made⟩ := Header.result_ofBlock_crowded
  have reliable := Medium.reliable_ofBytes []
  obtain ⟨w, opened, taken⟩ := taken_overrun full reliable (some nameless)
  obtain ⟨left, closed, kept, opens⟩ := opens_of_overrun [] taken
    (Header.padded_wellFormed padding .empty)
    (Header.padded_writable padding .empty (Nat.zero_le _)) rfl full rfl rfl rfl (by decide) rfl rfl
  obtain ⟨w', left', opened', closed', failed⟩ := undecodable_of_full full
  exact ⟨nameless_lawful, _, w, w', left, left', _, made, opened, opened', closed, closed',
    (opens left kept rfl rfl).opened _, failed⟩

end Writer

end Lidar
