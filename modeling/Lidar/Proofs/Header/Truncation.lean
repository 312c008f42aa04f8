import Lidar.Proofs.Header.Grammar

/-!
# Headers cut short

Reading a header looks at the bytes before the points and at nothing behind them. When some of these
are missing, reading fails because the stream ends, wherever the cut falls: each step takes its bytes
or reports the end of the stream, and so do steps in a row.
-/
namespace Lidar.Header

variable {α β γ : Type} {s : Bytes}

def EndsEarly (result : Except Error α) : Prop :=
  ∃ operation fault, result = .error (.medium operation fault) ∧ fault.kind = .unexpectedEnd

/-- Reading takes these bytes: whatever follows them is left over for the result, and without the
last of them the stream ends too early. -/
structure Exact (read : Bytes → Except Error γ) (taken : Bytes) (left : Bytes → γ) : Prop where
  whole : ∀ more, read (taken ++ more) = .ok (left more)
  cut : ∀ n < taken.length, EndsEarly (read (taken.take n))

namespace Exact

theorem nothing (left : Bytes → γ) : Exact (fun s => .ok (left s)) [] left where
  whole _ := rfl
  cut n h := absurd h (Nat.not_lt_zero n)

theorem bind {read : Bytes → Except Error β} {next : β → Except Error γ} {taken later : Bytes}
    {behind : Bytes → β} {left : Bytes → γ} (first : Exact read taken behind)
    (rest : Exact (fun s => next (behind s)) later left) :
    Exact (fun s => read s >>= next) (taken ++ later) left where
  whole more := by
    rw [List.append_assoc, first.whole]
    exact rest.whole more
  cut n h := by
    by_cases inFirst : n < taken.length
    · obtain ⟨operation, fault, failed, kind⟩ := first.cut n inFirst
      rw [List.take_append_of_le_length (Nat.le_of_lt inFirst), failed]
      exact ⟨operation, fault, rfl, kind⟩
    · rw [List.take_append, List.take_of_length_le (Nat.not_lt.1 inFirst), first.whole]
      rw [List.length_append] at h
      exact rest.cut _ (by omega)

end Exact

theorem exact_decodeNext {P : α → Prop} {decode : Decoder α} {encode : α → Bytes}
    (inverts : InvertsOn P decode encode) (operation : Operation) {a : α} (has : P a) :
    Exact (fun s => (decodeNext operation decode s).result) (encode a) fun more => (a, more) where
  whole more := result_decodeNext_eq_ok.2 (inverts.append a more has)
  cut n h := by
    -- a value read from fewer bytes would also be read from all of them, and leave some
    have none : decode ((encode a).take n) = none := by
      by_contra some
      obtain ⟨⟨b, rest⟩, read⟩ := Option.ne_none_iff_exists'.1 some
      obtain ⟨hb, front⟩ := inverts.complete read
      have whole := inverts.append b (rest ++ (encode a).drop n) hb
      rw [← List.append_assoc, ← front, List.take_append_drop] at whole
      have own := inverts.append a [] has
      rw [List.append_nil, whole] at own
      have empty : rest ++ (encode a).drop n = [] := by
        simpa using congrArg (fun found => found.map Prod.snd) own
      have length := congrArg List.length empty
      rw [List.length_append, List.length_drop, List.length_nil] at length
      omega
    refine ⟨operation, .shortField, ?_, rfl⟩
    rw [decodeNext, none]
    rfl

theorem exact_decodeRecords {declared start left position : Nat} {records : Vlr.Store}
    {rest : Bytes} {last : Nat} {all : Vlr.Store}
    (read : (decodeRecords declared start left position records s).result = .ok (last, all, rest)) :
    ∃ taken, s = taken ++ rest ∧
      Exact (fun s => (decodeRecords declared start left position records s).result) taken
        fun more => (last, all, more) := by
  induction left generalizing position records s with
  | zero =>
    cases read
    exact ⟨[], rfl, .nothing _⟩
  | succ left ih =>
    unfold decodeRecords at read ⊢
    by_cases fits : start < position + Vlr.headSize
    · simp only [if_pos fits] at read ⊢
      cases read
      exact ⟨[], rfl, .nothing _⟩
    · simp only [if_neg fits, Traced.result_bind, Traced.result_liftM] at read ⊢
      simp only [Success.bind_eq_ok, Prod.exists, result_decodeNext_eq_ok] at read
      obtain ⟨r, behind, hr, v, made, more, pushed, read⟩ := read
      obtain ⟨complete, rfl⟩ := Vlr.Record.inverts.complete hr
      obtain ⟨taken, rfl, others⟩ := ih read
      refine ⟨r.encode ++ taken, (List.append_assoc _ _ _).symm, ?_⟩
      refine (exact_decodeNext Vlr.Record.inverts .readingRecord complete).bind ?_
      simp only [made, pushed, Success.ok_bind]
      exact others

theorem exact_recordPadding {padding : Bytes} {n : Nat} (length : padding.length = n) (h : Header) :
    Exact (fun s => (match Decoder.take n s with
      | some (recordPadding, points) => do
        Traced.sayIf (startSignature.isSuffixOf recordPadding) .startSignature
        return ({ h with recordPadding }, points)
      | none => throw (.medium .readingRecordPadding .shortPadding) : Traced _).result) padding
      fun more => ({ h with recordPadding := padding }, more) where
  whole more := by
    rw [Decoder.take_append length]
    simp only [Traced.result_bind, Traced.result_sayIf, Success.ok_bind]
    rfl
  cut m short := by
    have none : Decoder.take n (padding.take m) = none := by
      rw [Decoder.take, if_neg]
      rw [List.length_take, List.length_take]
      omega
    rw [none]
    exact ⟨_, _, rfl, rfl⟩

theorem exact_decode {h : Header} {rest : Bytes} (read : (decode s).result = .ok (h, rest)) :
    ∃ taken, s = taken ++ rest ∧ Exact (fun s => (decode s).result) taken fun more => (h, more) := by
  obtain ⟨b, behind, block, first, made, position, records, left, recordsRead, before, padding, hp,
    rfl⟩ := result_decode_eq_ok.1 read
  have complete := (Block.inverts.complete block).1
  have found := (Block.inverts.complete block).2
  obtain ⟨front, rfl, recordsExact⟩ := exact_decodeRecords recordsRead
  obtain ⟨rfl, length⟩ := Decoder.take_complete hp
  refine ⟨b.encode ++ (front ++ padding), ?_, ?_⟩
  · rw [found, List.append_assoc, List.append_assoc]
  · unfold decode
    simp only [Traced.result_bind]
    refine (exact_decodeNext Block.inverts .readingHeader complete).bind ?_
    simp only [made, Success.ok_bind]
    refine recordsExact.bind ?_
    simp only [if_neg (Nat.not_lt.2 before)]
    exact exact_recordPadding length { first with records }

/-- Reading a header takes exactly the bytes before the points. What comes behind them never matters,
and a file that is cut in front of the points, wherever it is cut, is reported as one that ends too
early. -/
theorem decode_take {h : Header} {rest : Bytes} (read : (decode s).result = .ok (h, rest)) :
    (Declared.start s ≤ s.length ∧ rest = s.drop (Declared.start s)) ∧
      (∀ more, (decode (s.take (Declared.start s) ++ more)).result = .ok (h, more)) ∧
      ∀ n < Declared.start s, EndsEarly (decode (s.take n)).result := by
  obtain ⟨-, -, -, -, -, -, -, inside, left, -⟩ := decode_iff.1 read
  obtain ⟨taken, found, exact⟩ := exact_decode read
  have length : taken.length = Declared.start s := by
    have lengths := congrArg List.length found
    rw [← left, List.length_append, List.length_drop] at lengths
    omega
  have front : s.take (Declared.start s) = taken := by
    rw [← length, found, List.take_left]
  refine ⟨⟨inside, left.symm⟩, ?_, ?_⟩
  · intro more
    rw [front]
    exact exact.whole more
  · intro n short
    rw [← length] at short
    rw [found, List.take_append_of_le_length (Nat.le_of_lt short)]
    exact exact.cut n short

theorem decode_take_foreign :
    ∃ h, (∀ more, (decode (foreign ++ more)).result = .ok (h, more)) ∧
      ∀ n < 438, EndsEarly (decode (foreign.take n)).result := by
  obtain ⟨h, rest, read⟩ := exists_decode_of_legible foreign_legible
  obtain ⟨-, whole, cut⟩ := decode_take read
  have start : Declared.start foreign = 438 := by decide +kernel
  have all : foreign.take 438 = foreign := by decide +kernel
  rw [start, all] at whole
  rw [start] at cut
  exact ⟨h, whole, cut⟩

end Lidar.Header
