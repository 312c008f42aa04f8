import Lidar.Proofs.Medium
import Lidar.Proofs.Point.Record
import Lidar.Proofs.Reader.Machine

/-!
# The reader is the machine

A cursor has a number and a position in its medium, which an error moves in different ways: a
record that makes no point moves both, the end of the stream in the middle of a record moves only
the position, and a place that is no 64-bit number moves neither. The two agree all the same: the
position is the place of the record with the number, or both are so near the end that no record is
there.
-/
namespace Lidar

namespace Cursor

variable {h : Header} {c : Cursor}

theorem onMedium_ok {α : Type} {action : Medium.Action α} {a : α} {m : Medium}
    (done : action c.medium = .ok a m) : onMedium action c = .ok a { c with medium := m } := by
  rw [onMedium, done]

theorem onMedium_error {α : Type} {action : Medium.Action α} {e : Error} {m : Medium}
    (done : action c.medium = .error e m) : onMedium action c = .error e { c with medium := m } := by
  rw [onMedium, done]

theorem readPoint_last (last : h.numberOfPoints.toNat ≤ c.index) :
    readPoint h c = .ok none c := by
  unfold readPoint
  rw [Success.run_get_bind, if_pos last]
  rfl

theorem readPoint_error {e : Error} {m : Medium} (more : c.index < h.numberOfPoints.toNat)
    (read : Medium.read .readingPoint h.format.length (Point.Record.decoder h.format) c.medium =
      .error e m) : readPoint h c = .error e { c with medium := m } := by
  unfold readPoint
  rw [Success.run_get_bind, if_neg (Nat.not_le.2 more),
    Success.run_bind_error (onMedium_error read)]

theorem settle_readPoint {r : Point.Record} {m : Medium} (more : c.index < h.numberOfPoints.toNat)
    (read : Medium.read .readingPoint h.format.length (Point.Record.decoder h.format) c.medium =
      .ok r m) :
    settle (readPoint h c) =
      ((r.toPoint h.transforms).map some, { c with medium := m, index := c.index + 1 }) := by
  unfold readPoint
  rw [Success.run_get_bind, if_neg (Nat.not_le.2 more),
    Success.run_bind_ok (onMedium_ok read), Success.run_modify_bind]
  cases r.toPoint h.transforms with
  | ok p => rfl
  | error e => rfl

theorem settle_seek (reliable : c.medium.Reliable) (place : Nat) :
    settle (seek h place c) =
      if positionLimit ≤ place * h.format.length + c.start then
        (.error (.indexOutOfRange place h.numberOfPoints.toNat), c)
      else
        (.ok (), { c with
          medium := { c.medium with position := place * h.format.length + c.start }
          index := place }) := by
  have moved := Medium.seek_eq reliable .seekingPoint (place * h.format.length + c.start)
  unfold seek
  rw [Success.run_get_bind]
  by_cases far : positionLimit ≤ place * h.format.length + c.start
  · rw [if_pos far]
    simp only [if_pos far]
    rfl
  · rw [if_neg far]
    simp only [if_neg far]
    rw [Success.run_bind_ok (onMedium_ok moved)]
    rfl

end Cursor

namespace Source

variable {s : Source} {c : Cursor} {k : Nat}

structure At (s : Source) (c : Cursor) (k : Nat) : Prop where
  index : c.index = k
  inside : k ≤ s.count
  start : c.start = s.start
  stream : c.medium.bytes = s.stream
  reliable : c.medium.Reliable
  position : c.medium.position = s.place k ∨
    s.stream.length < c.medium.position + s.width ∧ ¬s.Present k

def Regular (s : Source) : Prop :=
  s.width = s.header.format.standardLength + s.header.format.extraBytes.toNat

theorem width_pos (regular : s.Regular) : 0 < s.width := by
  unfold Regular Format.standardLength Format.coreLength at regular
  omega

theorem place_succ (s : Source) (k : Nat) : s.place (k + 1) = s.place k + s.width := by
  simp only [place, Nat.succ_mul, Nat.add_assoc]

theorem length_bytes (present : s.Present k) : (s.bytes k).length = s.width := by
  unfold Present at present
  rw [bytes, List.length_take, List.length_drop]
  omega

theorem record?_of_present (regular : s.Regular) (present : s.Present k) :
    ∃ r, s.record? k = some r ∧
      Point.Record.decoder s.header.format (s.bytes k) = some (r, (s.bytes k).drop s.width) := by
  have length := length_bytes present
  have enough := Nat.le_of_eq (regular.symm.trans length.symm)
  obtain ⟨r, read⟩ := Point.Record.takes s.header.format (s.bytes k) enough
  rw [← regular] at read
  refine ⟨r, ?_, read⟩
  rw [record?, if_pos present, read]
  rfl

theorem read_short (regular : s.Regular) {m : Medium} (stream : m.bytes = s.stream)
    (short : s.stream.length < m.position + s.width) :
    Medium.read .readingPoint s.width (Point.Record.decoder s.header.format) m =
      .error ended { m with position := m.content.size } := by
  unfold Medium.read
  rw [Medium.bytes_extract, stream]
  cases read : Point.Record.decoder s.header.format ((s.stream.drop m.position).take s.width) with
  | none => rfl
  | some found =>
    have length := Point.Record.length_of_decoder read
    rw [← regular, List.length_take, List.length_drop] at length
    have positive := width_pos regular
    omega

theorem read_present (regular : s.Regular) {m : Medium} (stream : m.bytes = s.stream)
    (position : m.position = s.place k) (present : s.Present k) :
    ∃ r, s.record? k = some r ∧
      Medium.read .readingPoint s.width (Point.Record.decoder s.header.format) m =
        .ok r { m with position := s.place (k + 1) } := by
  obtain ⟨r, found, read⟩ := record?_of_present regular present
  refine ⟨r, found, ?_⟩
  unfold Medium.read
  rw [Medium.bytes_extract, stream, position]
  rw [bytes] at read
  rw [read, place_succ]

structure Matches {α : Type} (s : Source) (found : Except Error α × Cursor)
    (wanted : Except Error α × Nat) : Prop where
  result : found.1 = wanted.1
  at' : s.At found.2 wanted.2

theorem record?_of_not_present (missing : ¬s.Present k) : s.record? k = none := if_neg missing

theorem next_of_lt (more : k < s.count) : s.next k = (s.take k).map (·.map some) id :=
  if_neg (Nat.not_le.2 more)

private theorem matches_short (regular : s.Regular) (at' : s.At c k) (more : k < s.count)
    (short : s.stream.length < c.medium.position + s.width) (missing : ¬s.Present k) :
    s.Matches (settle (Cursor.readPoint s.header c)) (s.next k) := by
  have less : c.index < s.header.numberOfPoints.toNat := at'.index ▸ more
  rw [Cursor.readPoint_error less (read_short regular at'.stream short), next_of_lt more, take,
    record?_of_not_present missing]
  have size : c.medium.content.size = s.stream.length := by
    rw [← at'.stream]
    rfl
  have positive := width_pos regular
  exact ⟨rfl, { at' with
    stream := at'.stream
    reliable := at'.reliable.put _ _
    position := .inr ⟨by show _ < c.medium.content.size + _; omega, missing⟩ }⟩

theorem matches_readPoint (regular : s.Regular) (at' : s.At c k) :
    s.Matches (settle (Cursor.readPoint s.header c)) (s.next k) := by
  by_cases last : s.count ≤ k
  · have same : s.header.numberOfPoints.toNat ≤ c.index := at'.index ▸ last
    rw [Cursor.readPoint_last same, next, if_pos last]
    exact ⟨rfl, at'⟩
  · have more := Nat.lt_of_not_le last
    rcases at'.position with position | ⟨short, missing⟩
    · by_cases present : s.Present k
      · have less : c.index < s.header.numberOfPoints.toNat := at'.index ▸ more
        obtain ⟨r, found, read⟩ := read_present regular at'.stream position present
        rw [Cursor.settle_readPoint less read, next_of_lt more, take, found]
        exact ⟨rfl, {
          index := congrArg (· + 1) at'.index
          inside := more
          start := at'.start
          stream := at'.stream
          reliable := at'.reliable.put _ _
          position := .inl rfl }⟩
      · refine matches_short regular at' more ?_ present
        rw [position]
        exact Nat.lt_of_not_le present
    · exact matches_short regular at' more short missing

theorem matches_seek (at' : s.At c k) {wanted : Nat} (inside : wanted ≤ s.count) :
    s.Matches (settle (Cursor.seek s.header wanted c)) (s.seek wanted k) := by
  have place : wanted * s.header.format.length + c.start = s.place wanted := by
    rw [at'.start, Source.place, Nat.add_comm]
    rfl
  rw [Cursor.settle_seek at'.reliable, place, seek]
  by_cases far : Cursor.positionLimit ≤ s.place wanted
  · rw [if_pos far, if_neg fun both => Nat.not_lt.2 far both.2]
    exact ⟨rfl, at'⟩
  · rw [if_neg far, if_pos ⟨inside, Nat.lt_of_not_le far⟩]
    exact ⟨rfl, {
      index := rfl
      inside := inside
      start := at'.start
      stream := at'.stream
      reliable := at'.reliable.put _ _
      position := .inl rfl }⟩

theorem next_some {p : Point} {k' : Nat} (h : s.next k = (.ok (some p), k')) :
    k < s.count ∧ k' = k + 1 := by
  unfold next at h
  split at h
  · cases h
  · next more =>
    refine ⟨Nat.lt_of_not_le more, ?_⟩
    unfold take at h
    cases found : s.record? k with
    | none =>
      rw [found] at h
      cases h
    | some r =>
      rw [found] at h
      exact (congrArg Prod.snd h).symm

theorem readUpTo_matches (regular : s.Regular) (n : Nat) (at' : s.At c k) :
    (Cursor.readUpTo s.header n c).1 = (s.nextUpTo n k).1 ∧
      s.At (Cursor.readUpTo s.header n c).2 (s.nextUpTo n k).2 := by
  induction n generalizing c k with
  | zero => exact ⟨rfl, at'⟩
  | succ n ih =>
    have step := matches_readPoint regular at'
    unfold Cursor.readUpTo nextUpTo
    generalize s.next k = wanted at step
    obtain ⟨result, k'⟩ := wanted
    cases read : Cursor.readPoint s.header c with
    | error e c' =>
      rw [read] at step
      cases step.result
      exact ⟨rfl, step.at'⟩
    | ok found c' =>
      rw [read] at step
      cases step.result
      cases found with
      | none => exact ⟨rfl, step.at'⟩
      | some p =>
        obtain ⟨later, after⟩ : (Cursor.readUpTo s.header n c').1 = (s.nextUpTo n k').1 ∧
            s.At (Cursor.readUpTo s.header n c').2 (s.nextUpTo n k').2 := ih step.at'
        exact ⟨by simp only [later], after⟩

theorem nextUpTo_min (s : Source) (n k : Nat) :
    s.nextUpTo (min (s.count - k) n) k = s.nextUpTo n k := by
  induction n generalizing k with
  | zero => rw [Nat.min_zero]
  | succ n ih =>
    by_cases last : s.count ≤ k
    · have none : s.next k = (.ok none, k) := if_pos last
      rw [Nat.sub_eq_zero_of_le last, Nat.zero_min]
      simp only [nextUpTo, none]
    · have more : min (s.count - k) (n + 1) = min (s.count - (k + 1)) n + 1 := by omega
      rw [more]
      unfold nextUpTo
      cases found : s.next k with
      | mk result k' =>
        cases result with
        | error e => rfl
        | ok point? =>
          cases point? with
          | none => rfl
          | some p =>
            obtain ⟨-, rfl⟩ := next_some found
            simp only [ih]

/-- The reader is where the machine is. -/
def Agrees (s : Source) (r : Reader) : State → Prop
  | none => r.header = s.header ∧ r.cursor? = none
  | some k => r.header = s.header ∧ ∃ c, r.cursor? = some c ∧ s.At c k

variable {r : Reader} {state : State}

theorem Agrees.header (agrees : s.Agrees r state) : r.header = s.header := by
  cases state with
  | none => exact agrees.1
  | some k => exact agrees.1

theorem settle_onCursor {α : Type} {action : Header → Cursor.Action α}
    {step : Nat → Except Error α × Nat} (agrees : s.Agrees r state)
    (does : ∀ c k, s.At c k → s.Matches (settle (action s.header c)) (step k)) :
    (settle (Reader.onCursor action r)).1 = (whenOpen step state).1 ∧
      s.Agrees (settle (Reader.onCursor action r)).2 (whenOpen step state).2 := by
  unfold Reader.onCursor
  cases state with
  | none =>
    obtain ⟨header, closed⟩ := agrees
    rw [closed]
    exact ⟨rfl, header, closed⟩
  | some k =>
    obtain ⟨header, c, opened, at'⟩ := agrees
    have matched := does c k at'
    rw [opened, header]
    simp only
    cases done : action s.header c with
    | ok a c' =>
      rw [done] at matched
      exact ⟨matched.result, rfl, c', rfl, matched.at'⟩
    | error e c' =>
      rw [done] at matched
      exact ⟨matched.result, rfl, c', rfl, matched.at'⟩

theorem agrees_readPoint (regular : s.Regular) (agrees : s.Agrees r state) :
    (settle (Reader.readPoint r)).1 = (whenOpen s.next state).1 ∧
      s.Agrees (settle (Reader.readPoint r)).2 (whenOpen s.next state).2 :=
  settle_onCursor agrees fun _ _ => matches_readPoint regular

theorem agrees_seek (agrees : s.Agrees r state) (wanted : Nat) :
    (settle (Reader.seek wanted r)).1 = (whenOpen (s.seek wanted) state).1 ∧
      s.Agrees (settle (Reader.seek wanted r)).2 (whenOpen (s.seek wanted) state).2 := by
  refine settle_onCursor agrees fun c k at' => ?_
  by_cases outside : s.header.numberOfPoints.toNat < wanted
  · rw [if_pos outside, seek, if_neg fun both => Nat.not_lt.2 both.1 outside]
    exact ⟨rfl, at'⟩
  · rw [if_neg outside]
    exact matches_seek at' (Nat.le_of_not_lt outside)

private theorem matches_taken {e : Error} {taken : Except Error Point × Nat}
    (read : s.Matches (settle (Cursor.readPoint s.header c)) (taken.map (·.map some) id)) :
    s.Matches (settle ((Cursor.readPoint s.header >>= fun found =>
      match found with
      | some p => pure p
      | none => throw e) c)) taken := by
  obtain ⟨result, k'⟩ := taken
  cases done : Cursor.readPoint s.header c with
  | error e' c' =>
    rw [done] at read
    rw [Success.run_bind_error done]
    cases result with
    | error => cases read.result; exact ⟨rfl, read.at'⟩
    | ok p => cases read.result
  | ok found c' =>
    rw [done] at read
    rw [Success.run_bind_ok done]
    cases result with
    | error => cases read.result
    | ok p => cases read.result; exact ⟨rfl, read.at'⟩

theorem agrees_readPointAt (regular : s.Regular) (agrees : s.Agrees r state) (wanted : Nat) :
    (settle (Reader.readPointAt wanted r)).1 = (whenOpen (s.takeAt wanted) state).1 ∧
      s.Agrees (settle (Reader.readPointAt wanted r)).2 (whenOpen (s.takeAt wanted) state).2 := by
  refine settle_onCursor agrees fun c k at' => ?_
  by_cases outside : s.header.numberOfPoints.toNat ≤ wanted
  · simp only [if_pos outside]
    rw [takeAt, if_neg fun both => Nat.not_lt.2 outside both.1]
    exact ⟨rfl, at'⟩
  · have inside := Nat.lt_of_not_le outside
    have sought := matches_seek at' (Nat.le_of_lt inside)
    simp only [if_neg outside]
    unfold takeAt
    unfold seek at sought
    by_cases reachable : s.Reachable wanted
    · rw [if_pos ⟨Nat.le_of_lt inside, reachable⟩] at sought
      rw [if_pos ⟨inside, reachable⟩]
      cases moved : Cursor.seek s.header wanted c with
      | error e c' =>
        rw [moved] at sought
        cases sought.result
      | ok _ c' =>
        rw [moved] at sought
        have read := matches_readPoint regular sought.at'
        rw [next_of_lt inside] at read
        rw [Success.run_bind_ok moved]
        exact matches_taken read
    · rw [if_neg fun both => reachable both.2] at sought
      rw [if_neg fun both => reachable both.2]
      cases moved : Cursor.seek s.header wanted c with
      | error e c' =>
        rw [moved] at sought
        cases sought.result
        rw [Success.run_bind_error moved]
        exact ⟨rfl, sought.at'⟩
      | ok _ c' =>
        rw [moved] at sought
        cases sought.result

theorem agrees_readPoints (regular : s.Regular) (agrees : s.Agrees r state) (n : Nat) :
    (r.readPoints n).1 = (s.batch n state).1 ∧
      s.Agrees (r.readPoints n).2 (s.batch n state).2 := by
  unfold Reader.readPoints
  cases state with
  | none =>
    obtain ⟨header, closed⟩ := agrees
    rw [closed]
    exact ⟨rfl, header, closed⟩
  | some k =>
    obtain ⟨header, c, opened, at'⟩ := agrees
    have left : c.remaining s.header = s.count - k := by
      rw [← at'.index]
      rfl
    obtain ⟨same, after⟩ := readUpTo_matches regular (min (s.count - k) n) at'
    rw [nextUpTo_min] at same after
    rw [opened, header]
    simp only [left]
    exact ⟨same, rfl, _, rfl, after⟩

theorem agrees_nexts (regular : s.Regular) (ps : Reader.Points)
    (agrees : s.Agrees ps.reader state) (n : Nat) :
    (ps.nexts n).1 = (s.items n ps.failed state).1 ∧
      s.Agrees (ps.nexts n).2.reader (s.items n ps.failed state).2 := by
  induction n generalizing ps state with
  | zero => exact ⟨rfl, agrees⟩
  | succ n ih =>
    unfold Reader.Points.nexts items
    cases failed : ps.failed with
    | true =>
      rw [Reader.Points.next_of_failed failed]
      obtain ⟨same, after⟩ := ih ps agrees
      rw [failed] at same after
      exact ⟨congrArg (none :: ·) same, after⟩
    | false =>
      obtain ⟨result, after⟩ := agrees_readPoint regular agrees
      unfold Reader.Points.next
      rw [failed]
      generalize whenOpen s.next state = wanted at result after
      obtain ⟨answer, state'⟩ := wanted
      cases done : Reader.readPoint ps.reader with
      | error e r' =>
        rw [done] at result after
        cases result
        obtain ⟨same, later⟩ := ih ⟨r', true⟩ after
        exact ⟨congrArg (some (Except.error e) :: ·) same, later⟩
      | ok found r' =>
        rw [done] at result after
        cases result
        obtain ⟨same, later⟩ := ih ⟨r', false⟩ after
        cases found with
        | none => exact ⟨congrArg (none :: ·) same, later⟩
        | some p => exact ⟨congrArg (some (Except.ok p) :: ·) same, later⟩

theorem agrees_answer (regular : s.Regular) (agrees : s.Agrees r state) (call : Reader.Call) :
    (r.answer call).1 = (s.answer state call).1 ∧
      s.Agrees (r.answer call).2 (s.answer state call).2 := by
  cases call with
  | readPoint =>
    obtain ⟨same, after⟩ := agrees_readPoint regular agrees
    exact ⟨congrArg Reader.Answer.next same, after⟩
  | readPointAt index =>
    obtain ⟨same, after⟩ := agrees_readPointAt regular agrees index
    exact ⟨congrArg Reader.Answer.point same, after⟩
  | seek index =>
    obtain ⟨same, after⟩ := agrees_seek agrees index
    exact ⟨congrArg Reader.Answer.moved same, after⟩
  | readPoints n =>
    obtain ⟨same, after⟩ := agrees_readPoints regular agrees n
    exact ⟨congrArg (fun b : Batch => Reader.Answer.collected b.collected) same, after⟩
  | readPointsInto n buffer =>
    obtain ⟨same, after⟩ := agrees_readPoints regular agrees n
    exact ⟨congrArg (fun b : Batch => Reader.Answer.appended (b.appended buffer)) same, after⟩
  | readAllPointsInto buffer =>
    have all : r.readAll = r.readPoints s.count := by
      rw [Reader.readAll, agrees.header]
      rfl
    obtain ⟨same, after⟩ := agrees_readPoints regular agrees s.count
    rw [← all] at same after
    exact ⟨congrArg (fun b : Batch => Reader.Answer.appended (b.appended buffer)) same, after⟩
  | points nexts =>
    obtain ⟨same, after⟩ := agrees_nexts regular r.points agrees nexts
    exact ⟨congrArg Reader.Answer.items same, after⟩
  | close =>
    refine ⟨?_, agrees.header, rfl⟩
    cases state with
    | none =>
      show Reader.Answer.closed (if r.cursor?.isNone then [] else _) = _
      rw [agrees.2]
      rfl
    | some k =>
      obtain ⟨-, c, opened, -⟩ := agrees
      show Reader.Answer.closed (if r.cursor?.isNone then [] else _) = _
      rw [opened]
      rfl

theorem agrees_answers (regular : s.Regular) (agrees : s.Agrees r state)
    (calls : List Reader.Call) :
    (r.answers calls).1 = (s.answers state calls).1 ∧
      s.Agrees (r.answers calls).2 (s.answers state calls).2 := by
  induction calls generalizing r state with
  | nil => exact ⟨rfl, agrees⟩
  | cons call calls ih =>
    obtain ⟨first, after⟩ := agrees_answer regular agrees call
    obtain ⟨later, last⟩ := ih after
    unfold Reader.answers Source.answers
    refine ⟨?_, last⟩
    simp only [first, later]

end Source

end Lidar
