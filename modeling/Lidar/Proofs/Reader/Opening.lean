import Lidar.Proofs.Header.ReadBack
import Lidar.Proofs.Reader.Refinement

/-!
# An opened reader

A reader opens exactly where a header is read, and its points start behind the header. From there
on every sequence of calls is answered by the bytes of the stream alone.
-/
namespace Lidar

namespace Reader

variable {m : Medium} {codec? : Option Codec}

def plain (m : Medium) (h : Header) : Reader :=
  let start := m.position + h.pointDataStart
  ⟨h, some ⟨{ m with position := start }, start, 0⟩⟩

private theorem start_eq {h : Header} {data : Bytes}
    (read : (Header.decode m.rest).result = .ok (h, data)) :
    m.rest.length - data.length = h.pointDataStart := by
  obtain ⟨-, -, front, rest, length⟩ := Header.decode_sound read
  rw [rest, List.length_append, length, Nat.add_sub_cancel]

theorem cursor_eq_ok {c : Cursor} :
    Cursor.ofMedium m = .ok c ↔ m.positionFails = false ∧ ⟨m, m.position, 0⟩ = c := by
  unfold Cursor.ofMedium Medium.tell
  cases m.positionFails <;> simp

theorem decode_of_ofMedium {r : Reader} (opened : (ofMedium m codec?).result = .ok r) :
    ∃ data, (Header.decode m.rest).result = .ok (r.header, data) := by
  unfold ofMedium at opened
  simp only [Traced.result_bind, Success.bind_eq_ok, Prod.exists] at opened
  obtain ⟨h, data, read, source, -, cursor, -, _, -, ⟨⟩⟩ := opened
  exact ⟨data, read⟩

theorem result_ofMedium_eq_ok {r : Reader} (notCompressed : r.header.compressed = false) :
    (ofMedium m codec?).result = .ok r ↔
      m.positionFails = false ∧
        ∃ data, (Header.decode m.rest).result = .ok (r.header, data) ∧ r = plain m r.header := by
  unfold ofMedium findRecords
  simp only [Traced.result_bind, Traced.result_liftM, Success.bind_eq_ok, Prod.exists, cursor_eq_ok]
  constructor
  · rintro ⟨h, data, read, source, found, _, ⟨position, rfl⟩, _, -, ⟨⟩⟩
    rw [if_neg (ne_true_of_eq_false notCompressed), start_eq read] at found
    cases found
    exact ⟨position, data, read, rfl⟩
  · rintro ⟨position, data, read, same⟩
    refine ⟨r.header, data, read, { m with position := m.position + r.header.pointDataStart }, ?_, _,
      ⟨position, rfl⟩, (), rfl, ?_⟩
    · rw [if_neg (ne_true_of_eq_false notCompressed), start_eq read]
      rfl
    · exact congrArg Except.ok same.symm

def unpacked (h : Header) (records : Bytes) : Reader := ⟨h, some ⟨Medium.ofBytes records, 0, 0⟩⟩

end Reader

namespace Source

def unpacked (h : Header) (records : Bytes) : Source := ⟨h, records, 0⟩

theorem agrees_unpacked (h : Header) (records : Bytes) :
    (unpacked h records).Agrees (Reader.unpacked h records) (some 0) := by
  refine ⟨rfl, _, rfl, ?_⟩
  exact {
    index := rfl
    inside := Nat.zero_le _
    start := rfl
    stream := Medium.bytes_ofBytes records
    reliable := Medium.reliable_ofBytes records
    position := .inl (by rw [place, Nat.zero_mul]; rfl) }

def ofMedium (m : Medium) (h : Header) : Source := ⟨h, m.bytes, m.position + h.pointDataStart⟩

theorem ofMedium_regular {m : Medium} {h : Header} (hw : h.WellFormed) :
    (ofMedium m h).Regular := Header.format_length hw

theorem agrees_plain {m : Medium} (reliable : m.Reliable) (h : Header) :
    (ofMedium m h).Agrees (Reader.plain m h) (some 0) := by
  refine ⟨rfl, _, rfl, ?_⟩
  exact {
    index := rfl
    inside := Nat.zero_le _
    start := rfl
    stream := rfl
    reliable := reliable.put _ _
    position := .inl (by rw [place, Nat.zero_mul]; rfl) }

/-- A reader of points that are not compressed is a machine over the records of the stream: every
sequence of calls has the same answers and leaves the same number of the next point, which is at
most the number of points. The machine has a record wherever the stream holds it whole. -/
theorem answers_ofMedium {m : Medium} (reliable : m.Reliable) {codec? : Option Codec} {r : Reader}
    (opened : (Reader.ofMedium m codec?).result = .ok r) (plain : r.header.compressed = false)
    (calls : List Reader.Call) :
    (r.answers calls).1 = ((ofMedium m r.header).answers (some 0) calls).1 ∧
      (r.answers calls).2.cursor?.map (·.index) =
        ((ofMedium m r.header).answers (some 0) calls).2 ∧
      (∀ k, ((ofMedium m r.header).answers (some 0) calls).2 = some k →
        k ≤ r.header.numberOfPoints.toNat) ∧
      ∀ i, (ofMedium m r.header).Present i ↔ ((ofMedium m r.header).record? i).isSome := by
  obtain ⟨-, data, read, same⟩ := (Reader.result_ofMedium_eq_ok plain).1 opened
  have regular := ofMedium_regular (m := m) (Header.decode_sound read).1
  have agrees := agrees_plain reliable r.header
  rw [← same] at agrees
  obtain ⟨answers, after⟩ := agrees_answers regular agrees calls
  refine ⟨answers, ?_, ?_, fun i => ⟨fun present => ?_, fun found => ?_⟩⟩
  · generalize ((ofMedium m r.header).answers (some 0) calls).2 = state at after
    cases state with
    | none => rw [after.2]; rfl
    | some k =>
      obtain ⟨-, c, open', at'⟩ := after
      rw [open', ← at'.index]
      rfl
  · intro k last
    rw [last] at after
    obtain ⟨-, c, -, at'⟩ := after
    exact at'.inside
  · obtain ⟨record, found, -⟩ := record?_of_present regular present
    rw [found]
    rfl
  · by_contra missing
    rw [record?_of_not_present missing] at found
    cases found

def promised : Header :=
  [Header.Edit.finalize 2 #v[2, 0, 0, 0, 0] .zero].foldl Header.tryEdit (.empty 2017 1)

theorem promised_sound : promised.WellFormed ∧ promised.HasRoom :=
  ((Header.Reachable.empty 2017 1).tryEdits _).sound

theorem promised_writable : promised.Writable := by decide +kernel

theorem answers_ofMedium_promised :
    ∃ m r, m.Reliable ∧ (Reader.ofMedium m none).result = .ok r ∧ r.header.compressed = false ∧
      (ofMedium m r.header).record? 0 ≠ none ∧ (ofMedium m r.header).record? 1 = none ∧
      ∀ calls, (r.answers calls).1 = ((ofMedium m r.header).answers (some 0) calls).1 := by
  let data := Bytes.fill 23 0
  let bytes : Bytes := [7] ++ (promised.front ++ data)
  let m : Medium := { Medium.ofBytes bytes with position := 1 }
  let h : Header := { promised with numberOfPointsByReturn := promised.countsReadBack }
  have reliable : m.Reliable := ⟨rfl, rfl, rfl, rfl⟩
  have stream : m.bytes = bytes := Medium.bytes_ofBytes bytes
  have rest : m.rest = promised.front ++ data := by rw [Medium.rest_eq, stream]; rfl
  have read := Header.decode_front promised_sound.1 promised_sound.2 promised_writable data
  rw [← rest] at read
  have opened : (Reader.ofMedium m none).result = .ok (Reader.plain m h) :=
    (Reader.result_ofMedium_eq_ok rfl).2 ⟨rfl, data, read, rfl⟩
  have length : (ofMedium m h).stream.length = 1 + (227 + 23) := by
    show m.bytes.length = _
    rw [stream, List.length_append, List.length_append, Header.length_front promised_sound.2]
    decide +kernel
  have present : (ofMedium m h).Present 0 := by
    unfold Present
    rw [length]
    decide +kernel
  have missing : ¬(ofMedium m h).Present 1 := by
    unfold Present
    rw [length]
    decide +kernel
  refine ⟨m, Reader.plain m h, reliable, opened, rfl, ?_, if_neg missing, fun calls =>
    (answers_ofMedium reliable opened rfl calls).1⟩
  exact Option.isSome_iff_ne_none.1 ((answers_ofMedium reliable opened rfl []).2.2.2 0 |>.1 present)

end Source

end Lidar
