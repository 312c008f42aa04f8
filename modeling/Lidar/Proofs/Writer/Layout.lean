import Lidar.Proofs.Writer.ReadBack

/-!
# Where a writer puts its bytes

From the place where a writer was opened its medium holds a header without points and then the
records of the accepted points, one behind the other. Closing puts the final header in the place of
the first one, which is as long. What was in front of that place and what is behind the last record
stays as it was.
-/
namespace Lidar

namespace Medium

variable {m m' : Medium}

/-- The bytes of a medium with some put at its position, after a gap of zeros if the position is
past the end. -/
def spliced (m : Medium) (bytes : Bytes) : Bytes :=
  m.bytes.take m.position ++ Bytes.fill (m.position - m.bytes.length) 0 ++ bytes ++
    m.bytes.drop (m.position + bytes.length)

theorem spliced_eq (m : Medium) (bytes : Bytes) :
    m.spliced bytes = m.before ++ (bytes ++ m.rest.drop bytes.length) := by
  rw [rest_eq, List.drop_drop, ← List.append_assoc]
  rfl

theorem spliced_empty (bytes : Bytes) : (ofBytes []).spliced bytes = bytes := by
  have start : (ofBytes []).position = 0 := rfl
  rw [spliced, bytes_ofBytes, start]
  simp [Bytes.fill]

theorem Put.bytes_spliced {bytes : Bytes} (put : Put m bytes m') (some : bytes ≠ []) :
    m'.bytes = m.spliced bytes := by
  rw [put.bytes_eq some, spliced_eq]

end Medium

namespace Header

variable {h : Header}

theorem countsReadBack_of_zero (writable : h.Writable)
    (zero : h.numberOfPointsByReturn = Vector.replicate 5 0) :
    h.countsReadBack = h.numberOfPointsByReturn := by
  apply countsReadBack_of_not_mixed writable
  intro mixed
  obtain ⟨n, mem, large⟩ := mixed.1
  rw [zero, Vector.toList_replicate] at mem
  rw [List.eq_of_mem_replicate mem] at large
  exact absurd large (by decide)

end Header

namespace Writer

variable {m : Medium} {h : Header} {codec? : Option Codec} {w : Writer}
  {records : List Point.Record}

theorem Taken.bytes_eq (taken : Taken m h records w) :
    w.medium.bytes = m.spliced (h.front ++ encodeAll h.format records) :=
  taken.wrote.bytes_spliced (List.append_ne_nil_of_left_ne_nil h.front_ne_nil _)

theorem Taken.header_encode (taken : Taken m h records w) (hw : h.WellFormed)
    (writable : h.Writable) : w.header.encode = .ok h.front := by
  rw [taken.header]
  exact (Header.encode_eq_ok hw).2 ⟨writable, rfl⟩

theorem Taken.opens (taken : Taken m h records w) (hw : h.WellFormed) (room : h.HasRoom)
    (writable : h.Writable) (plain : h.compressed = false) (none : h.numberOfPoints = 0)
    (noReturns : h.numberOfPointsByReturn = Vector.replicate 5 0) :
    Opens { w.medium with position := m.position } h h [] := by
  have bytes := taken.bytes_eq
  rw [Medium.spliced_eq, List.append_assoc h.front] at bytes
  have count : h.numberOfPoints.toNat = ([] : List Point.Record).length := by
    rw [none]
    rfl
  have opens := opens_of_bytes (m := { w.medium with position := m.position })
    (taken.wrote.reliable.put _ _) hw room writable plain count bytes (Medium.length_before m).symm
  rwa [Header.countsReadBack_of_zero writable noReturns] at opens

/-- What the medium `m` of a writer holds before it is closed: the first header and the records, in
which a reader finds no points. -/
structure WhileOpen (m : Medium) (w : Writer) (first records : Bytes) : Prop where
  encode : w.header.encode = .ok first
  length : first.length = w.header.pointDataStart
  bytes : w.medium.bytes = m.spliced (first ++ records)
  empty : ∀ codec?, ∃ r,
    (Reader.ofMedium { w.medium with position := m.position } codec?).result = .ok r ∧
      r.header = w.header ∧ (r.answers [.readPoint]).1 = [.next (.ok none)]

/-- What closing the writer makes of that, whichever way it is closed. -/
structure OnceClosed (m : Medium) (w : Writer) (first last records : Bytes) : Prop where
  close : w.close.1.result = .ok ()
  intoMedium : w.intoMedium.1.result = .ok w.close.2.medium ∧ w.intoMedium.2 = w.close.2
  drop : w.drop.2 = w.close.2
  header : w.close.2.header = w.header.finalize w.tally.points w.tally.byReturn w.tally.bounds
  encode : w.close.2.header.encode = .ok last
  length : last.length = first.length
  pointDataStart : w.close.2.header.pointDataStart = w.header.pointDataStart
  bytes : w.close.2.medium.bytes = m.spliced (last ++ records)
  position : w.close.2.medium.position = m.position

theorem Taken.whileOpen (taken : Taken m h records w) (hw : h.WellFormed) (room : h.HasRoom)
    (writable : h.Writable) (plain : h.compressed = false) (none : h.numberOfPoints = 0)
    (noReturns : h.numberOfPointsByReturn = Vector.replicate 5 0) :
    WhileOpen m w h.front (encodeAll h.format records) where
  encode := taken.header_encode hw writable
  length := by rw [taken.header, Header.length_front room]
  bytes := taken.bytes_eq
  empty codec? := by
    have opens := taken.opens hw room writable plain none noReturns
    obtain ⟨qs, none, answers⟩ := opens.answers .nil
    cases none
    exact ⟨_, opens.opened codec?, taken.header.symm, answers⟩

theorem Taken.onceClosed (taken : Taken m h records w) (hw : h.WellFormed)
    (writable : h.Writable) :
    OnceClosed m w h.front (finalHeader h records).front (encodeAll h.format records) := by
  have final := (finalize_of_counted taken.counted).symm
  have length : (finalHeader h records).front.length = h.front.length :=
    h.length_front_finalize _ _ _
  obtain ⟨m', closed, -, before, rest, inside⟩ := close_eq taken hw writable
  have drop : w.drop.2 = w.close.2 := by
    unfold drop
    rw [closed]
  refine ⟨by rw [closed], ?_, drop, ?_, ?_, length, ?_, ?_, ?_⟩
  · rw [closed]
    exact intoMedium_of_close (isClosed_of_output taken.output) closed
  · rw [closed]
    exact final
  · rw [closed]
    exact (Header.encode_eq_ok (Header.finalize_wellFormed hw _ _ _)).2
      ⟨finalHeader_writable writable taken.room, rfl⟩
  · rw [closed, taken.header]
    rfl
  · have back := taken.wrote.rest
    rw [closed, inside.bytes_eq, before, rest, back, Medium.spliced_eq, List.append_assoc,
      List.length_append, List.length_append, length]
  · rw [closed, ← Medium.length_before m', before, Medium.length_before]

/-- At any time before a writer is closed its medium holds, from the place where it was opened on,
the header without points and the records of the accepted points, and otherwise what it held before.
Closing puts the final header in the place of that header and changes nothing else. -/
theorem layout_of_run {h : Header} (made : h.Made) (room : h.HasRoom) (plain : h.compressed = false)
    {m : Medium} (reliable : m.Reliable) {codec? : Option Codec} {w : Writer}
    (opened : (onMedium m h codec?).1.result = .ok w) (calls : List Call) :
    ∃ first last records,
      (w.run calls).2.header = plainHeader h codec? ∧
      Stored h (w.run calls).1 records ∧
      (∀ r ∈ records, (r.encode h.format).length = h.format.length) ∧
      WhileOpen m (w.run calls).2 first (encodeAll h.format records) ∧
      OnceClosed m (w.run calls).2 first last (encodeAll h.format records) := by
  have hw := plainHeader_wellFormed made.wellFormed codec?
  obtain ⟨writable, before⟩ := taken_of_onMedium reliable made.wellFormed plain opened
  obtain ⟨records, stored, taken⟩ := run_taken before calls
  rw [List.nil_append] at taken
  refine ⟨_, _, records, taken.header, stored, ?_, taken.whileOpen hw room writable plain rfl rfl,
    taken.onceClosed hw writable⟩
  intro r _
  rw [Point.Record.length_encode, Header.format_length made.wellFormed]

theorem layout_of_run_sample :
    ∃ m w first last, Medium.Reliable m ∧ (onMedium m (.empty 2017 1) none).1.result = .ok w ∧
      (w.run [.writePoint sample]).1 = [sample] ∧
      (w.run [.writePoint sample]).2.medium.bytes = Bytes.fill 2 9 ++ (first ++
        ((sample.recordAt ⟨100, 200, -300⟩).encode ⟨false, false, 0⟩ ++ Bytes.fill 51 9)) ∧
      (w.run [.writePoint sample]).2.close.2.medium.bytes = Bytes.fill 2 9 ++ (last ++
        ((sample.recordAt ⟨100, 200, -300⟩).encode ⟨false, false, 0⟩ ++ Bytes.fill 51 9)) := by
  let m : Medium := { Medium.ofBytes (Bytes.fill 300 9) with position := 2 }
  let record := sample.recordAt ⟨100, 200, -300⟩
  have reliable : m.Reliable := ⟨rfl, rfl, rfl, rfl⟩
  obtain ⟨w, opened, taken⟩ := taken_empty reliable
  have stored : Stored (.empty 2017 1) [sample] [record] := .cons sample_stored .nil
  obtain ⟨w₁, accepted, taken₁⟩ :=
    answer_of_stored taken (.writePoint sample) (.inr (by decide)) stored
  have ran : w.run [.writePoint sample] = ([sample], w₁) := by
    simp only [run, accepted]
    rfl
  obtain ⟨first, last, records, header, stored', -, while', once⟩ :=
    layout_of_run (.reachable (.empty 2017 1)) (Header.empty_hasRoom 2017 1) rfl reliable opened
      [.writePoint sample]
  have same : records = [record] := by
    rw [ran] at stored'
    exact stored'.unique stored
  have size : first.length = 227 := by
    rw [while'.length, header]
    decide +kernel
  have spliced : ∀ front : Bytes, front.length = 227 →
      m.spliced (front ++ encodeAll ⟨false, false, 0⟩ records) =
        Bytes.fill 2 9 ++ (front ++ (record.encode ⟨false, false, 0⟩ ++ Bytes.fill 51 9)) := by
    intro front length
    have width := Point.Record.length_encode ⟨false, false, 0⟩ record
    have held (old : Bytes) : ({ Medium.ofBytes old with position := 2 } : Medium).bytes = old :=
      Medium.bytes_ofBytes old
    have bytes := held (Bytes.fill 300 9)
    have start : m.position = 2 := rfl
    rw [same, encodeAll, List.flatMap_singleton, Medium.spliced, bytes, start, List.length_append,
      length, width]
    unfold Bytes.fill
    rw [List.take_replicate, List.drop_replicate, List.length_replicate]
    simp only [List.append_assoc]
    rfl
  refine ⟨m, w, first, last, reliable, opened, by rw [ran], ?_, ?_⟩
  · rw [while'.bytes]
    exact spliced first size
  · rw [once.bytes]
    exact spliced last (once.length.trans size)

theorem WhileOpen.hasRoom {first bytes : Bytes} (held : WhileOpen m w first bytes)
    (hw : w.header.WellFormed) : w.header.HasRoom := by
  obtain ⟨-, same⟩ := (Header.encode_eq_ok hw).1 held.encode
  apply Header.length_front_iff.1
  rw [same]
  exact held.length

/-- The padding has one byte more than the size can count, so that the header goes one byte past
where it says that the points start. -/
theorem misplaced_behind_padding :
    ∃ h m w first, (Header.ofBlock Header.crowded).result = .ok h ∧ h.compressed = false ∧
      Medium.Reliable m ∧ (onMedium m h none).1.result = .ok w ∧
      w.header.encode = .ok first ∧ first.length = w.header.pointDataStart + 1 ∧
      ∀ first bytes, ¬WhileOpen m w first bytes := by
  obtain ⟨padding, full, made⟩ := Header.result_ofBlock_crowded
  obtain ⟨w, opened, taken⟩ := taken_overrun full (Medium.reliable_ofBytes []) none
  obtain ⟨hw, writable⟩ := Header.overrun_padded_sound full
  have front : ((Header.padded padding .empty).overrun [0] .empty).front =
      (Header.padded padding .empty).front ++ [0] :=
    Header.front_overrun full rfl rfl rfl
  have start : ((Header.padded padding .empty).overrun [0] .empty).pointDataStart =
      (Header.padded padding .empty).pointDataStart :=
    Header.pointDataStart_overrun full rfl
  have room : (Header.padded padding .empty).HasRoom := Nat.le_of_eq full
  refine ⟨_, _, w, _, made, rfl, Medium.reliable_ofBytes [], opened,
    taken.header_encode hw writable, ?_, fun _ _ held => ?_⟩
  · rw [taken.header, front, start, List.length_append, Header.length_front room]
    rfl
  · have counted := held.hasRoom (taken.header ▸ hw)
    rw [taken.header] at counted
    exact Header.not_hasRoom_overrun full (List.cons_ne_nil 0 []) counted

end Writer

end Lidar
