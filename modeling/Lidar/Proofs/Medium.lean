import Lidar.Medium
import Lidar.Proofs.Header.Encode

/-!
# Writing to a medium

The position divides a medium into the bytes before it, with a gap filled up, and the bytes from it
on. What is written goes between the two and takes the place of as many of the second. This is so
for every medium that refuses nothing, whatever it holds and wherever its position is.
-/
namespace Lidar.Medium

variable {m m' : Medium}

/-- Nothing that is done to the medium fails. -/
structure Reliable (m : Medium) : Prop where
  capacity : m.capacity? = none
  seeks : m.seeksLeft? = none
  position : m.positionFails = false
  flush : m.flushFails = false

theorem Reliable.put (reliable : m.Reliable) (content : ByteArray) (position : Nat) :
    Reliable { m with content := content, position := position } :=
  ⟨reliable.capacity, reliable.seeks, reliable.position, reliable.flush⟩

theorem reliable_ofBytes (bytes : Bytes) : (ofBytes bytes).Reliable := ⟨rfl, rfl, rfl, rfl⟩

def before (m : Medium) : Bytes :=
  m.bytes.take m.position ++ Bytes.fill (m.position - m.bytes.length) 0

theorem bytes_extract (m : Medium) (n : Nat) :
    Bytes.ofPacked (m.content.extract m.position (m.position + n)) =
      (m.bytes.drop m.position).take n := by
  rw [Bytes.ofPacked_extract, List.drop_take, Nat.add_sub_cancel_left]
  rfl

def Inside (m : Medium) : Prop := m.position ≤ m.bytes.length

theorem length_before (m : Medium) : m.before.length = m.position := by
  simp only [before, Bytes.fill, List.length_append, List.length_take, List.length_replicate]
  omega

theorem Inside.bytes_eq (inside : m.Inside) : m.bytes = m.before ++ m.rest := by
  rw [before, rest_eq, Nat.sub_eq_zero_of_le inside, Bytes.fill, List.replicate_zero,
    List.append_nil, List.take_append_drop]

theorem split_eq {front back : Bytes} (bytes : m.bytes = front ++ back)
    (position : m.position = front.length) : m.before = front ∧ m.rest = back ∧ m.Inside := by
  refine ⟨?_, ?_, ?_⟩
  · rw [before, bytes, position, List.take_left, List.length_append, Nat.sub_eq_zero_of_le (by omega),
      Bytes.fill, List.replicate_zero, List.append_nil]
  · rw [rest_eq, bytes, position, List.drop_left]
  · rw [Inside, bytes, position, List.length_append]
    omega

/-- Bytes stand at the position in the place of as many, and the position has moved past them. -/
structure Put (m : Medium) (bytes : Bytes) (m' : Medium) : Prop where
  before : m'.before = m.before ++ bytes
  rest : m'.rest = m.rest.drop bytes.length
  inside : m.Inside ∨ bytes ≠ [] → m'.Inside

structure Wrote (m : Medium) (bytes : Bytes) (m' : Medium) : Prop extends Put m bytes m' where
  reliable : m'.Reliable

theorem Put.position {bytes : Bytes} (put : Put m bytes m') :
    m'.position = m.position + bytes.length := by
  rw [← length_before, put.before, List.length_append, length_before]

theorem Put.bytes_eq {bytes : Bytes} (put : Put m bytes m') (some : bytes ≠ []) :
    m'.bytes = m.before ++ (bytes ++ m.rest.drop bytes.length) := by
  rw [(put.inside (.inr some)).bytes_eq, put.before, put.rest, List.append_assoc]

theorem put_nil (m : Medium) : Put m [] m where
  before := (List.append_nil _).symm
  rest := rfl
  inside h := h.resolve_right fun some => some rfl

theorem Put.append {first second : Bytes} {m'' : Medium} (h : Put m first m')
    (later : Put m' second m'') : Put m (first ++ second) m'' where
  before := by rw [later.before, h.before, List.append_assoc]
  rest := by rw [later.rest, h.rest, List.drop_drop, List.length_append]
  inside some := by
    by_cases none : second = []
    · refine later.inside (.inl (h.inside ?_))
      rwa [none, List.append_nil] at some
    · exact later.inside (.inr none)

theorem Wrote.append {first second : Bytes} {m'' : Medium} (h : Wrote m first m')
    (later : Wrote m' second m'') : Wrote m (first ++ second) m'' :=
  ⟨h.toPut.append later.toPut, later.reliable⟩

private theorem bytes_overwrite {bytes : Bytes} (some : bytes ≠ []) :
    Bytes.ofPacked (overwrite m.content m.position bytes) =
      (m.before ++ bytes) ++ m.rest.drop bytes.length := by
  rw [ofPacked_overwrite _ _ some, rest_eq, List.drop_drop]
  rfl

private theorem put_overwrite (m : Medium) (bytes : Bytes) :
    Put m bytes { m with
      content := overwrite m.content m.position bytes
      position := m.position + bytes.length } := by
  by_cases some : bytes = []
  · subst some
    exact put_nil m
  · obtain ⟨before, rest, inside⟩ := split_eq (bytes_overwrite (m := m) some)
      (m := { m with
        content := overwrite m.content m.position bytes
        position := m.position + bytes.length })
      (by rw [List.length_append, length_before])
    exact ⟨before, rest, fun _ => inside⟩

theorem room_le (m : Medium) (n : Nat) : m.room n ≤ n := by
  unfold room
  split
  · exact Nat.min_le_left _ _
  · exact Nat.le_refl n

theorem put_write (m : Medium) (operation : Operation) (bytes : Bytes) :
    ∃ m', Put m (bytes.take (m.room bytes.length)) m' ∧ m'.capacity? = m.capacity? ∧
      write operation bytes m =
        if m.room bytes.length < bytes.length then .error (.medium operation .full) m'
        else .ok () m' := by
  refine ⟨_, put_overwrite m (bytes.take (m.room bytes.length)), rfl, ?_⟩
  have taken : (bytes.take (m.room bytes.length)).length = m.room bytes.length := by
    rw [List.length_take, Nat.min_eq_left (room_le m _)]
  unfold write
  simp only [taken]

theorem put_of_write {operation : Operation} {bytes : Bytes}
    (written : write operation bytes m = .ok () m') : Put m bytes m' := by
  obtain ⟨m'', put, -, same⟩ := put_write m operation bytes
  rw [written] at same
  split at same
  · cases same
  · next enough =>
    cases same
    rwa [List.take_of_length_le (Nat.le_of_not_lt enough)] at put

theorem write_of_unlimited (unlimited : m.capacity? = none) (operation : Operation)
    (bytes : Bytes) :
    ∃ m', write operation bytes m = .ok () m' ∧ m'.capacity? = none ∧ Put m bytes m' := by
  obtain ⟨m', put, capacity, written⟩ := put_write m operation bytes
  have room : m.room bytes.length = bytes.length := by rw [room, unlimited]
  rw [room, List.take_length] at put
  rw [room, if_neg (Nat.lt_irrefl _)] at written
  exact ⟨m', written, capacity.trans unlimited, put⟩

def writeAll (parts : List (Operation × Bytes)) : Action Unit :=
  forM parts fun part => write part.1 part.2

theorem writeAll_cons (part : Operation × Bytes) (parts : List (Operation × Bytes)) :
    writeAll (part :: parts) = write part.1 part.2 >>= fun _ => writeAll parts := rfl

theorem writeInTurn_eq_writeAll (h : Header) :
    writeInTurn h = ofExcept h.sections >>= writeAll :=
  Header.emit_eq write (fun _ _ => rfl) h

theorem writeAll_of_unlimited (unlimited : m.capacity? = none) (parts : List (Operation × Bytes)) :
    ∃ m', writeAll parts m = .ok () m' ∧ m'.capacity? = none := by
  induction parts generalizing m with
  | nil => exact ⟨m, rfl, unlimited⟩
  | cons part parts ih =>
    obtain ⟨m₁, written, unlimited, -⟩ := write_of_unlimited unlimited part.1 part.2
    rw [writeAll_cons, Success.run_bind_ok written]
    exact ih unlimited

theorem write_eq (reliable : m.Reliable) (operation : Operation) (bytes : Bytes) :
    ∃ m', write operation bytes m = .ok () m' ∧ Wrote m bytes m' := by
  have room : m.room bytes.length = bytes.length := by rw [room, reliable.capacity]
  refine ⟨_, ?_, put_overwrite m bytes, reliable.put _ _⟩
  unfold write
  simp only [room, List.take_length, Nat.lt_irrefl, if_false]

theorem writeAll_eq (reliable : m.Reliable) (parts : List (Operation × Bytes)) :
    ∃ m', writeAll parts m = .ok () m' ∧ Wrote m (parts.flatMap (·.2)) m' := by
  induction parts generalizing m with
  | nil => exact ⟨m, rfl, put_nil m, reliable⟩
  | cons part parts ih =>
    obtain ⟨operation, bytes⟩ := part
    obtain ⟨m₁, written, wrote⟩ := write_eq reliable operation bytes
    obtain ⟨m₂, later, wroteLater⟩ := ih wrote.reliable
    refine ⟨m₂, ?_, wrote.append wroteLater⟩
    rw [writeAll_cons, Success.run_bind_ok written]
    exact later

theorem writeInTurn_of_sections {h : Header} {parts : List (Operation × Bytes)}
    (sections : h.sections = .ok parts) : writeInTurn h = writeAll parts := by
  rw [writeInTurn_eq_writeAll, sections]
  rfl

theorem writeInTurn_eq {h : Header} (reliable : m.Reliable) (hw : h.WellFormed)
    (writable : h.Writable) :
    ∃ m', writeInTurn h m = .ok () m' ∧ Wrote m h.front m' := by
  rw [writeInTurn_of_sections ((Header.sections_eq_ok hw).2 ⟨writable, rfl⟩)]
  exact writeAll_eq reliable h.parts

theorem writable_of_writeInTurn {h : Header} (hw : h.WellFormed)
    (written : writeInTurn h m = .ok () m') : h.Writable := by
  rw [writeInTurn_eq_writeAll] at written
  cases sections : h.sections with
  | error e =>
    rw [sections] at written
    cases written
  | ok parts => exact ((Header.sections_eq_ok hw).1 sections).1

theorem put_of_writeAll {parts : List (Operation × Bytes)}
    (written : writeAll parts m = .ok () m') : Put m (parts.flatMap (·.2)) m' := by
  induction parts generalizing m with
  | nil =>
    cases written
    exact put_nil _
  | cons part parts ih =>
    rw [writeAll_cons] at written
    obtain ⟨_, m₁, first, later⟩ := Success.run_bind_eq_ok.1 written
    exact (put_of_write first).append (ih later)

theorem put_of_writeInTurn {h : Header} (hw : h.WellFormed)
    (written : writeInTurn h m = .ok () m') : h.Writable ∧ Put m h.front m' := by
  have writable := writable_of_writeInTurn hw written
  rw [writeInTurn_of_sections ((Header.sections_eq_ok hw).2 ⟨writable, rfl⟩)] at written
  exact ⟨writable, put_of_writeAll written⟩

theorem bytes_of_writeInTurn {h : Header} (hw : h.WellFormed)
    (written : writeInTurn h (ofBytes []) = .ok () m) : h.Writable ∧ m.bytes = h.front := by
  obtain ⟨writable, put⟩ := put_of_writeInTurn hw written
  have none : (ofBytes []).bytes = [] := bytes_ofBytes []
  have start : (ofBytes []).position = 0 := rfl
  refine ⟨writable, ?_⟩
  rw [(put.inside (.inl (Nat.zero_le _))).bytes_eq, put.before, put.rest]
  simp [before, rest_eq, none, start, Bytes.fill]

theorem seek_eq (reliable : m.Reliable) (operation : Operation) (place : Nat) :
    seek operation place m = .ok () { m with position := place } := by
  unfold seek
  rw [reliable.seeks]

theorem seek_ok {operation : Operation} {place : Nat} (moved : seek operation place m = .ok () m') :
    m'.content = m.content ∧ m'.position = place := by
  unfold seek at moved
  split at moved <;> cases moved
  · exact ⟨rfl, rfl⟩
  · exact ⟨rfl, rfl⟩

theorem flush_ok {operation : Operation} (flushed : flush operation m = .ok () m') : m' = m := by
  unfold flush at flushed
  split at flushed <;> cases flushed
  rfl

def FailsInMedium {α : Type} (action : Action α) : Prop :=
  ∀ m e m', action m = .error e m' → ∃ operation fault, e = .medium operation fault

theorem FailsInMedium.bind {α β : Type} {first : Action α} {later : α → Action β}
    (hf : FailsInMedium first) (hl : ∀ a, FailsInMedium (later a)) :
    FailsInMedium (first >>= later) := by
  intro m e m' failed
  rcases Success.run_bind_eq_error.1 failed with failed | ⟨a, m₁, -, failed⟩
  · exact hf m e m' failed
  · exact hl a m₁ e m' failed

theorem failsInMedium_seek (operation : Operation) (place : Nat) :
    FailsInMedium (seek operation place) := by
  intro m e m' failed
  unfold seek at failed
  split at failed <;> cases failed
  exact ⟨_, _, rfl⟩

theorem failsInMedium_flush (operation : Operation) : FailsInMedium (flush operation) := by
  intro m e m' failed
  unfold flush at failed
  split at failed <;> cases failed
  exact ⟨_, _, rfl⟩

theorem failsInMedium_write (operation : Operation) (bytes : Bytes) :
    FailsInMedium (write operation bytes) := by
  intro m e m' failed
  obtain ⟨m₁, -, -, same⟩ := put_write m operation bytes
  rw [same] at failed
  split at failed <;> cases failed
  exact ⟨_, _, rfl⟩

theorem failsInMedium_writeAll (parts : List (Operation × Bytes)) :
    FailsInMedium (writeAll parts) := by
  induction parts with
  | nil => exact fun _ _ _ => nofun
  | cons part parts ih => exact (failsInMedium_write part.1 part.2).bind fun _ => ih

theorem failsInMedium_writeInTurn {h : Header} (hw : h.WellFormed) (writable : h.Writable) :
    FailsInMedium (writeInTurn h) := by
  rw [writeInTurn_of_sections ((Header.sections_eq_ok hw).2 ⟨writable, rfl⟩)]
  exact failsInMedium_writeAll h.parts

end Lidar.Medium
