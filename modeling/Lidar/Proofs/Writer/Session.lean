import Lidar.Proofs.Writer.Run

/-!
# Writers on any stream

A medium says beforehand what it will refuse. A stream in general may refuse any request, and the
same request may work later. A session is a writer on such a stream, with a record of all that was
asked of the stream and of the codec. On a medium it is the writer itself.
-/
namespace Lidar

inductive Request where
  | write (operation : Operation) (bytes : Bytes)
  | seek (operation : Operation) (place : Nat)
  | flush (operation : Operation)

/-- What a stream makes of a request. What it answers may depend on a state that nobody sees. -/
abbrev Stream (σ : Type) := Request → EStateM Error (Medium × σ) Unit

def Medium.obey : Request → Medium.Action Unit
  | .write operation bytes => Medium.write operation bytes
  | .seek operation place => Medium.seek operation place
  | .flush operation => Medium.flush operation

def Stream.medium : Stream Unit := fun request (m, _) =>
  match Medium.obey request m with
  | .ok () m => .ok () (m, ())
  | .error e m => .error e (m, ())

namespace Writer

inductive Step where
  | encode (header : Header) (records : Bytes)
  | ask (request : Request)

/-- A writer on a stream, and the steps it has taken. -/
structure Session (σ : Type) where
  writer : Writer
  hidden : σ
  steps : List Step

def finished (w : Writer) : Writer where
  header := w.header.finalize w.tally.points w.tally.byReturn w.tally.bounds
  medium := w.medium
  start := w.start
  tally := w.tally
  output? := none

/-- What is said when closing ends: the events of its first part are lost with an error there. -/
def concluded {α : Type} (released : EStateM.Result Error α (List Event))
    (replace : EStateM Error α Unit) (last : Event) : Traced Unit × α :=
  match released with
  | .error e left => (throw e, left)
  | .ok events left =>
    match replace left with
    | .error e left => (⟨.error e, events⟩, left)
    | .ok () left => (⟨.ok (), events ++ [last]⟩, left)

inductive Use where
  | call (c : Call)
  | close
  | intoMedium
  | drop

namespace Session

abbrev Action (σ α : Type) := EStateM Error (Session σ) α

variable {σ α β : Type}

section Steps

variable (stream : Stream σ)

def ask (request : Request) : Action σ Unit := fun s =>
  let steps := s.steps ++ [.ask request]
  match stream request (s.writer.medium, s.hidden) with
  | .ok () (medium, hidden) => .ok () ⟨{ s.writer with medium }, hidden, steps⟩
  | .error e (medium, hidden) => .error e ⟨{ s.writer with medium }, hidden, steps⟩

def encode (codec : Codec) (h : Header) (records : Bytes) : Action σ Bytes := fun s =>
  let s := { s with steps := s.steps ++ [.encode h records] }
  match codec.encode h records with
  | .ok encoded => .ok encoded s
  | .error e => .error e s

def output (bytes : Bytes) : Action σ Unit := fun s =>
  match s.writer.output? with
  | none => .error .writerClosed s
  | some .plain => ask stream (.write .writingPoint bytes) s
  | some (.compressed codec records) =>
    let held := Output.compressed codec (records ++ bytes.toByteArray)
    .ok () { s with writer := { s.writer with output? := some held } }

def count (r : Point.Record) (w : Writer) : Writer :=
  { w with tally := w.tally.add r w.header.transforms }

def writeRecord (r : Point.Record) : Action σ Unit := do
  output stream (r.encode (← get).writer.header.format)
  modify fun s => { s with writer := count r s.writer }

def writeRecords : List Point.Record → Action σ Unit
  | [] => pure ()
  | r :: later => do
    writeRecord stream r
    writeRecords later

def answer (call : Call) : Action σ Unit := do
  writeRecords stream (← ofExcept ((← get).writer.recordsOf call.points))

def writeAll (parts : List (Operation × Bytes)) : Action σ Unit :=
  forM parts fun part => ask stream (.write part.1 part.2)

def writeHeader (h : Header) : Action σ Unit :=
  h.emit fun operation bytes => ask stream (.write operation bytes)

def release (h : Header) : Output → Action σ (List Event)
  | .plain => pure []
  | .compressed codec records => do
    let encoded ← encode codec h (.ofPacked records)
    ask stream (.write .writingCompressedPoints encoded)
    return [.encoded records.size encoded.length]

def replaceHeader (h : Header) (start : Nat) : Action σ Unit := do
  ask stream (.seek .seekingHeader start)
  writeHeader stream h
  ask stream (.flush .flushing)
  ask stream (.seek .seekingHeader start)

def close (s : Session σ) : Traced Unit × Session σ :=
  match s.writer.output? with
  | none => (pure (), s)
  | some output =>
    let w := s.writer.finished
    concluded (release stream w.header output { s with writer := w })
      (replaceHeader stream w.header w.start) (.finalized w.header.version w.tally.points)

def act (s : Session σ) : Use → Traced Unit × Session σ
  | .call c =>
    let (reply, s) := settle (answer stream c s)
    (⟨reply, []⟩, s)
  | .close => s.close stream
  | .intoMedium => if s.writer.isClosed then (throw .writerClosed, s) else s.close stream
  | .drop =>
    let (closed, s) := s.close stream
    match closed.result with
    | .ok () => (closed, s)
    | .error e => (⟨.ok (), closed.events ++ [.closingFailed e]⟩, s)

def perform (s : Session σ) : List Use → List (Traced Unit) × Session σ
  | [] => ([], s)
  | use :: uses =>
    let (reply, s) := s.act stream use
    let (replies, s) := s.perform uses
    (reply :: replies, s)

end Steps

end Session

def act (w : Writer) : Use → Traced Unit × Writer
  | .call c =>
    let (reply, w) := w.answer c
    (⟨reply, []⟩, w)
  | .close => w.close
  | .intoMedium =>
    let (released, w) := w.intoMedium
    (released >>= fun _ => pure (), w)
  | .drop =>
    let (events, w) := w.drop
    (⟨.ok (), events⟩, w)

def perform (w : Writer) : List Use → List (Traced Unit) × Writer
  | [] => ([], w)
  | use :: uses =>
    let (reply, w) := w.act use
    let (replies, w) := w.perform uses
    (reply :: replies, w)

namespace Session

variable {α β : Type}

def forget : EStateM.Result Error (Session Unit) α → EStateM.Result Error Writer α
  | .ok a s => .ok a s.writer
  | .error e s => .error e s.writer

/-- A session on a medium does what the writer does. -/
def Mirrors (x : Action Unit α) (y : Writer.Action α) : Prop := ∀ s, forget (x s) = y s.writer

def ofMedium (y : Medium.Action α) : Writer.Action α := fun w =>
  match y w.medium with
  | .ok a medium => .ok a { w with medium }
  | .error e medium => .error e { w with medium }

namespace Mirrors

theorem bind {x : Action Unit α} {y : Writer.Action α} {f : α → Action Unit β}
    {g : α → Writer.Action β} (first : Mirrors x y) (later : ∀ a, Mirrors (f a) (g a)) :
    Mirrors (x >>= f) (y >>= g) := by
  intro s
  have same := first s
  cases run : x s with
  | ok a s' =>
    rw [run] at same
    rw [Success.run_bind_ok run, Success.run_bind_ok same.symm]
    exact later a s'
  | error e s' =>
    rw [run] at same
    rw [Success.run_bind_error run, Success.run_bind_error same.symm]
    rfl

theorem pure (a : α) : Mirrors (Pure.pure a) (Pure.pure a) := fun _ => rfl

theorem checked (x : Except Error α) : Mirrors (ofExcept x) (ofExcept x) := by
  intro s
  cases x <;> rfl

end Mirrors

theorem ofMedium_of_ok {y : Medium.Action α} {w : Writer} {a : α} {m : Medium}
    (run : y w.medium = .ok a m) : ofMedium y w = .ok a { w with medium := m } := by
  rw [ofMedium, run]

theorem ofMedium_of_error {y : Medium.Action α} {w : Writer} {e : Error} {m : Medium}
    (run : y w.medium = .error e m) : ofMedium y w = .error e { w with medium := m } := by
  rw [ofMedium, run]

theorem ofMedium_bind (y : Medium.Action α) (k : α → Medium.Action β) :
    ofMedium (y >>= k) = ofMedium y >>= fun a => ofMedium (k a) := by
  funext w
  cases run : y w.medium with
  | ok a m =>
    rw [Success.run_bind_ok (ofMedium_of_ok run), ofMedium, Success.run_bind_ok run]
    rfl
  | error e m =>
    rw [Success.run_bind_error (ofMedium_of_error run), ofMedium, Success.run_bind_error run]

theorem ofMedium_ofExcept (x : Except Error α) : ofMedium (ofExcept x) = ofExcept x := by
  cases x <;> rfl

theorem mirrors_ask (request : Request) :
    Mirrors (ask .medium request) (ofMedium (Medium.obey request)) := by
  intro s
  cases answered : Medium.obey request s.writer.medium with
  | ok _ m => simp only [ask, Stream.medium, ofMedium, answered, forget]
  | error e m => simp only [ask, Stream.medium, ofMedium, answered, forget]

theorem mirrors_encode (codec : Codec) (h : Header) (records : Bytes) :
    Mirrors (encode codec h records) (ofExcept (codec.encode h records)) := by
  intro s
  unfold encode
  cases codec.encode h records <;> rfl

theorem mirrors_output (bytes : Bytes) : Mirrors (output .medium bytes) (Writer.output bytes) := by
  intro ⟨⟨header, medium, start, tally, output?⟩, hidden, steps⟩
  cases output? with
  | none => rfl
  | some output =>
    cases output with
    | compressed codec records => rfl
    | plain =>
      show forget (ask .medium (.write .writingPoint bytes) _) = _
      rw [mirrors_ask]
      cases written : Medium.write .writingPoint bytes medium with
      | ok _ m => simp only [ofMedium, Medium.obey, Writer.output, written]
      | error e m => simp only [ofMedium, Medium.obey, Writer.output, written]

theorem mirrors_writeRecord (r : Point.Record) :
    Mirrors (writeRecord .medium r) (Writer.writeRecord r) := by
  intro s
  exact (mirrors_output _).bind (fun _ _ => rfl) s

theorem mirrors_writeRecords (records : List Point.Record) :
    Mirrors (writeRecords .medium records) (Writer.writeRecords records) := by
  induction records with
  | nil => exact .pure ()
  | cons r records ih => exact (mirrors_writeRecord r).bind fun _ => ih

theorem mirrors_writeAll (parts : List (Operation × Bytes)) :
    Mirrors (writeAll .medium parts) (ofMedium (Medium.writeAll parts)) := by
  induction parts with
  | nil => exact .pure ()
  | cons part parts ih =>
    rw [Medium.writeAll_cons, ofMedium_bind]
    exact (mirrors_ask (.write part.1 part.2)).bind fun _ => ih

theorem writeHeader_eq_writeAll (stream : Stream σ) (h : Header) :
    writeHeader stream h = ofExcept h.sections >>= writeAll stream :=
  Header.emit_eq _ (fun _ _ => rfl) h

theorem mirrors_writeHeader (h : Header) :
    Mirrors (writeHeader .medium h) (ofMedium (Medium.writeInTurn h)) := by
  rw [writeHeader_eq_writeAll, Medium.writeInTurn_eq_writeAll, ofMedium_bind, ofMedium_ofExcept]
  exact (Mirrors.checked h.sections).bind mirrors_writeAll

theorem mirrors_release (h : Header) (output : Output) :
    Mirrors (release .medium h output) (ofMedium (Writer.release h output)) := by
  cases output with
  | plain => exact .pure []
  | compressed codec records =>
    unfold Writer.release
    rw [ofMedium_bind, ofMedium_ofExcept]
    refine (mirrors_encode codec h (.ofPacked records)).bind fun encoded => ?_
    rw [ofMedium_bind]
    exact (mirrors_ask (.write .writingCompressedPoints encoded)).bind fun _ => .pure _

theorem mirrors_replaceHeader (h : Header) (start : Nat) :
    Mirrors (replaceHeader .medium h start) (ofMedium (Writer.replaceHeader h start)) := by
  unfold Writer.replaceHeader
  rw [ofMedium_bind]
  refine (mirrors_ask (.seek .seekingHeader start)).bind fun _ => ?_
  rw [ofMedium_bind]
  refine (mirrors_writeHeader h).bind fun _ => ?_
  rw [ofMedium_bind]
  exact (mirrors_ask (.flush .flushing)).bind fun _ => mirrors_ask (.seek .seekingHeader start)

theorem close_eq_concluded {w : Writer} {output : Output} (opened : w.output? = some output) :
    w.close = concluded (ofMedium (Writer.release w.finished.header output) w.finished)
      (ofMedium (Writer.replaceHeader w.finished.header w.start))
      (.finalized w.finished.header.version w.tally.points) := by
  simp only [Writer.close, opened, concluded, ofMedium, finished]
  cases Writer.release (w.header.finalize _ _ _) output w.medium with
  | error e m => rfl
  | ok events m =>
    simp only
    cases Writer.replaceHeader (w.header.finalize _ _ _) w.start m <;> rfl

theorem Mirrors.concluded {released : EStateM.Result Error (Session Unit) (List Event)}
    {replace : Action Unit Unit} {replace' : Writer.Action Unit} (later : Mirrors replace replace')
    (last : Event) :
    (concluded released replace last).1 = (concluded (forget released) replace' last).1 ∧
      (concluded released replace last).2.writer =
        (concluded (forget released) replace' last).2 := by
  cases released with
  | error e s => exact ⟨rfl, rfl⟩
  | ok events s =>
    simp only [Writer.concluded, forget]
    rw [← later s]
    cases replace s <;> exact ⟨rfl, rfl⟩

/-- Closing a session on a medium is closing its writer. -/
theorem close_medium (s : Session Unit) :
    (s.close .medium).1 = s.writer.close.1 ∧ (s.close .medium).2.writer = s.writer.close.2 := by
  unfold close
  cases opened : s.writer.output? with
  | none =>
    unfold Writer.close
    rw [opened]
    exact ⟨rfl, rfl⟩
  | some output =>
    rw [close_eq_concluded opened,
      ← mirrors_release s.writer.finished.header output { s with writer := s.writer.finished }]
    exact (mirrors_replaceHeader _ _).concluded _

theorem answer_medium (s : Session Unit) (call : Call) :
    (settle (answer .medium call s)).1 = (s.writer.answer call).1 ∧
      (settle (answer .medium call s)).2.writer = (s.writer.answer call).2 := by
  rw [answer_eq_writeRecords]
  unfold answer
  rw [Success.run_get_bind]
  cases s.writer.recordsOf call.points with
  | error e => exact ⟨rfl, rfl⟩
  | ok records =>
    rw [Success.run_ofExcept_bind_ok rfl]
    have same := mirrors_writeRecords records s
    cases written : writeRecords .medium records s with
    | ok a s' =>
      rw [written] at same
      simp only [← same]
      exact ⟨rfl, rfl⟩
    | error e s' =>
      rw [written] at same
      simp only [← same]
      exact ⟨rfl, rfl⟩

theorem bind_pure_bind_pure (closed : Traced Unit) (m : Medium) :
    ((closed >>= fun _ => (Pure.pure m : Traced Medium)) >>= fun _ => Pure.pure ()) = closed := by
  obtain ⟨result, events⟩ := closed
  cases result with
  | error e => rfl
  | ok _ =>
    show (⟨.ok (), (events ++ []) ++ []⟩ : Traced Unit) = _
    rw [List.append_nil, List.append_nil]

theorem act_medium (s : Session Unit) (use : Use) :
    (s.act .medium use).1 = (s.writer.act use).1 ∧
      (s.act .medium use).2.writer = (s.writer.act use).2 := by
  cases use with
  | call c =>
    obtain ⟨reply, left⟩ := answer_medium s c
    simp only [act, Writer.act, reply, left, and_self]
  | close => exact close_medium s
  | intoMedium =>
    obtain ⟨reply, left⟩ := close_medium s
    simp only [act, Writer.act, intoMedium]
    split
    · exact ⟨rfl, rfl⟩
    · simp only [bind_pure_bind_pure, reply, left, and_self]
  | drop =>
    obtain ⟨reply, left⟩ := close_medium s
    simp only [act, Writer.act, Writer.drop, reply]
    cases done : s.writer.close.1.result with
    | ok _ => exact ⟨congrArg (Traced.mk · s.writer.close.1.events) done, left⟩
    | error e => exact ⟨rfl, left⟩

theorem perform_medium (s : Session Unit) (uses : List Use) :
    (s.perform .medium uses).1 = (s.writer.perform uses).1 ∧
      (s.perform .medium uses).2.writer = (s.writer.perform uses).2 := by
  induction uses generalizing s with
  | nil => exact ⟨rfl, rfl⟩
  | cons use uses ih =>
    obtain ⟨reply, left⟩ := act_medium s use
    obtain ⟨replies, last⟩ := ih (s.act .medium use).2
    simp only [perform, Writer.perform]
    rw [reply, replies, last, left]
    exact ⟨rfl, rfl⟩

end Session

end Writer

end Lidar
