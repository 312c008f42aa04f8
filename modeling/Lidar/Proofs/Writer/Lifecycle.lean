import Lidar.Proofs.Writer.Compressed
import Lidar.Proofs.Writer.Session

/-!
# The life of a writer

A writer is open until it is first closed, and then it is closed for good. What it asks of a stream
are records while it is open, and then, once, the steps of closing, up to the first that fails. So
whatever fails, points are encoded and the header is put in its place at most once, and a closed
writer asks for nothing.
-/
namespace Lidar.Writer

def writes (parts : List (Operation × Bytes)) : List Step :=
  parts.map fun part => .ask (.write part.1 part.2)

def releaseSteps (h : Header) : Output → List Step
  | .plain => []
  | .compressed codec records =>
    let encoded? := (codec.encode h (.ofPacked records)).toOption
    .encode h (.ofPacked records) :: writes (encoded?.toList.map (.writingCompressedPoints, ·))

def headerSteps (h : Header) : List Step := writes (h.sections.toOption.getD [])

def closingSteps (h : Header) (start : Nat) (output : Output) : List Step :=
  releaseSteps h output ++
    ([.ask (.seek .seekingHeader start)] ++ (headerSteps h ++
      ([.ask (.flush .flushing)] ++ [.ask (.seek .seekingHeader start)])))

namespace Session

variable {σ α β : Type} {s s' s'' : Session σ}

/-- Steps were taken, and of the writer only its medium is another. -/
structure Took (part : List Step) (s s' : Session σ) : Prop where
  steps : s'.steps = s.steps ++ part
  writer : s'.writer = { s.writer with medium := s'.writer.medium }

/-- The action takes these steps in turn, all of them unless it fails. -/
def Takes (planned : List Step) (x : Action σ α) : Prop :=
  ∀ s, match x s with
    | .ok _ s' => Took planned s s'
    | .error _ s' => ∃ part, part <+: planned ∧ Took part s s'

theorem Took.none (s : Session σ) : Took [] s s := ⟨(List.append_nil _).symm, rfl⟩

theorem Took.append {first later : List Step} (took : Took first s s')
    (tookLater : Took later s' s'') : Took (first ++ later) s s'' where
  steps := by rw [tookLater.steps, took.steps, List.append_assoc]
  writer := by rw [tookLater.writer, took.writer]

theorem took_ask (stream : Stream σ) (request : Request) (s : Session σ) :
    Took [.ask request] s (settle (ask stream request s)).2 := by
  unfold ask
  cases stream request (s.writer.medium, s.hidden) <;> exact ⟨rfl, rfl⟩

namespace Takes

variable {planned later : List Step} {x : Action σ α}

theorem bind {f : α → Action σ β} (first : Takes planned x)
    (next : ∀ {s a s'}, x s = .ok a s' → Takes later (f a)) :
    Takes (planned ++ later) (x >>= f) := by
  intro s
  have took := first s
  cases run : x s with
  | error e s' =>
    rw [run] at took
    obtain ⟨part, short, took⟩ := took
    rw [Success.run_bind_error run]
    exact ⟨part, short.trans (List.prefix_append planned later), took⟩
  | ok a s' =>
    rw [run] at took
    rw [Success.run_bind_ok run]
    have tookLater := next run s'
    cases runLater : f a s' with
    | ok b s'' =>
      rw [runLater] at tookLater
      exact took.append tookLater
    | error e s'' =>
      rw [runLater] at tookLater
      obtain ⟨part, short, tookLater⟩ := tookLater
      exact ⟨planned ++ part, (List.prefix_append_right_inj planned).2 short, took.append tookLater⟩

theorem pure (a : α) : Takes (σ := σ) [] (Pure.pure a) := fun s => Took.none s

theorem checked (x : Except Error α) : Takes (σ := σ) [] (ofExcept x) := by
  intro s
  cases x with
  | ok a => exact Took.none s
  | error e => exact ⟨[], List.prefix_refl [], Took.none s⟩

theorem ask (stream : Stream σ) (request : Request) :
    Takes [.ask request] (Session.ask stream request) := by
  intro s
  have took := took_ask stream request s
  cases run : Session.ask stream request s with
  | ok _ left =>
    rw [run] at took
    exact took
  | error e left =>
    rw [run] at took
    exact ⟨_, List.prefix_refl _, took⟩

theorem writeAll (stream : Stream σ) (parts : List (Operation × Bytes)) :
    Takes (writes parts) (Session.writeAll stream parts) := by
  induction parts with
  | nil => exact pure ()
  | cons part parts ih => exact (ask stream (.write part.1 part.2)).bind fun _ => ih

theorem writeHeader (stream : Stream σ) (h : Header) :
    Takes (headerSteps h) (Session.writeHeader stream h) := by
  rw [writeHeader_eq_writeAll, ← List.nil_append (headerSteps h)]
  apply (checked h.sections).bind
  intro s parts s' found
  have sections : h.sections = .ok parts := by
    cases sections : h.sections with
    | error e =>
      rw [sections] at found
      cases found
    | ok _ =>
      rw [sections] at found
      cases found
      rfl
  rw [headerSteps, sections]
  exact writeAll stream parts

theorem encode (codec : Codec) (h : Header) (records : Bytes) :
    Takes (σ := σ) [.encode h records] (Session.encode codec h records) := by
  intro s
  unfold Session.encode
  cases codec.encode h records with
  | ok encoded => exact ⟨rfl, rfl⟩
  | error e => exact ⟨_, List.prefix_refl _, rfl, rfl⟩

theorem encode_eq_ok {codec : Codec} {h : Header} {records encoded : Bytes}
    (run : Session.encode codec h records s = .ok encoded s') :
    codec.encode h records = .ok encoded := by
  unfold Session.encode at run
  cases given : codec.encode h records with
  | error e =>
    rw [given] at run
    cases run
  | ok bytes =>
    rw [given] at run
    cases run
    rfl

theorem release (stream : Stream σ) (h : Header) (output : Output) :
    Takes (releaseSteps h output) (Session.release stream h output) := by
  cases output with
  | plain => exact pure []
  | compressed codec records =>
    refine (encode codec h (.ofPacked records)).bind fun {s encoded s'} run => ?_
    rw [encode_eq_ok run]
    exact (ask stream (.write .writingCompressedPoints encoded)).bind fun _ => pure _

theorem replaceHeader (stream : Stream σ) (h : Header) (start : Nat) :
    Takes ([.ask (.seek .seekingHeader start)] ++ (headerSteps h ++
      ([.ask (.flush .flushing)] ++ [.ask (.seek .seekingHeader start)])))
      (Session.replaceHeader stream h start) := by
  refine (ask stream _).bind fun _ => ?_
  refine (writeHeader stream h).bind fun _ => ?_
  exact (ask stream _).bind fun _ => ask stream _

end Takes

theorem Takes.took {planned : List Step} {x : Action σ α} (takes : Takes planned x)
    (s : Session σ) : ∃ part, part <+: planned ∧ Took part s (settle (x s)).2 := by
  have took := takes s
  cases run : x s with
  | ok a left =>
    rw [run] at took
    exact ⟨planned, List.prefix_refl planned, took⟩
  | error e left =>
    rw [run] at took
    exact took

theorem concluded_eq {x : Action σ (List Event)} {y : Action σ Unit} {last : Event}
    (s : Session σ) :
    ((concluded (x s) y last).1.result, (concluded (x s) y last).2) =
      settle ((x >>= fun _ => y) s) := by
  cases released : x s with
  | error e left =>
    rw [Success.run_bind_error released]
    rfl
  | ok events left =>
    rw [Success.run_bind_ok released]
    simp only [concluded]
    cases y left <;> rfl

/-- Closing an open writer takes the steps of closing, up to the first that fails. -/
theorem close_took (stream : Stream σ) {output : Output} (opened : s.writer.output? = some output) :
    ∃ part, part <+: closingSteps s.writer.finished.header s.writer.start output ∧
      Took part { s with writer := s.writer.finished } (s.close stream).2 := by
  unfold close
  rw [opened]
  simp only
  rw [congrArg Prod.snd (concluded_eq { s with writer := s.writer.finished })]
  apply Takes.took
  exact (Takes.release stream _ output).bind fun _ => Takes.replaceHeader stream _ _

structure Recorded (s s' : Session σ) : Prop where
  header : s'.writer.header = s.writer.header
  start : s'.writer.start = s.writer.start
  closed : s'.writer.isClosed = s.writer.isClosed
  steps : ∃ records : List Bytes, s'.steps = s.steps ++ writes (records.map (.writingPoint, ·))

namespace Recorded

theorem refl (s : Session σ) : Recorded s s where
  header := rfl
  start := rfl
  closed := rfl
  steps := ⟨[], (List.append_nil _).symm⟩

theorem trans (first : Recorded s s') (later : Recorded s' s'') : Recorded s s'' where
  header := later.header.trans first.header
  start := later.start.trans first.start
  closed := later.closed.trans first.closed
  steps := by
    obtain ⟨records, steps⟩ := first.steps
    obtain ⟨more, stepsLater⟩ := later.steps
    refine ⟨records ++ more, ?_⟩
    rw [stepsLater, steps, List.map_append, writes, writes, writes, List.map_append,
      List.append_assoc]

end Recorded

theorem Took.recorded {records : List Bytes}
    (took : Took (writes (records.map (.writingPoint, ·))) s s') : Recorded s s' where
  header := by rw [took.writer]
  start := by rw [took.writer]
  closed := by rw [isClosed, took.writer]; rfl
  steps := ⟨records, took.steps⟩

theorem recorded_output (stream : Stream σ) (bytes : Bytes) (s : Session σ) :
    Recorded s (settle (output stream bytes s)).2 := by
  unfold output
  cases held : s.writer.output? with
  | none => exact .refl s
  | some output =>
    cases output with
    | plain =>
      have took : Took (writes ([bytes].map (.writingPoint, ·))) s _ := took_ask stream _ s
      exact took.recorded
    | compressed codec records =>
      constructor
      · rfl
      · rfl
      · rw [isClosed_of_output held]; rfl
      · exact ⟨[], (List.append_nil _).symm⟩

theorem recorded_writeRecord (stream : Stream σ) (r : Point.Record) (s : Session σ) :
    Recorded s (settle (writeRecord stream r s)).2 := by
  unfold writeRecord
  rw [Success.run_get_bind]
  have put := recorded_output stream (r.encode s.writer.header.format) s
  cases run : output stream (r.encode s.writer.header.format) s with
  | error e left =>
    rw [run] at put
    rw [Success.run_bind_error run]
    exact put
  | ok _ left =>
    rw [run] at put
    rw [Success.run_bind_ok run]
    exact put.trans ⟨rfl, rfl, rfl, [], (List.append_nil _).symm⟩

theorem recorded_writeRecords (stream : Stream σ) (records : List Point.Record) (s : Session σ) :
    Recorded s (settle (writeRecords stream records s)).2 := by
  induction records generalizing s with
  | nil => exact .refl s
  | cons r records ih =>
    unfold writeRecords
    have first := recorded_writeRecord stream r s
    cases run : writeRecord stream r s with
    | error e left =>
      rw [run] at first
      rw [Success.run_bind_error run]
      exact first
    | ok _ left =>
      rw [run] at first
      rw [Success.run_bind_ok run]
      exact first.trans (ih left)

theorem answer_refused (stream : Stream σ) {call : Call} {e : Error}
    (found : s.writer.recordsOf call.points = .error e) : answer stream call s = .error e s := by
  unfold answer
  rw [Success.run_get_bind, Success.run_ofExcept_bind_error found]

theorem recorded_answer (stream : Stream σ) (call : Call) (s : Session σ) :
    Recorded s (settle (answer stream call s)).2 := by
  cases found : s.writer.recordsOf call.points with
  | error e =>
    rw [answer_refused stream found]
    exact .refl s
  | ok records =>
    unfold answer
    rw [Success.run_get_bind, Success.run_ofExcept_bind_ok found]
    exact recorded_writeRecords stream records s

theorem Took.isClosed {w : Writer} {part : List Step}
    (took : Took part { s with writer := w.finished } s') : s'.writer.isClosed = true := by
  rw [Writer.isClosed, took.writer]
  rfl

theorem output_of_isClosed {w : Writer} (closed : w.isClosed = true) : w.output? = none := by
  rwa [isClosed, Option.isNone_iff_eq_none] at closed

end Session

open Session

def Use.closes : Use → Bool
  | .call _ => false
  | _ => true

def Use.whenClosed : Use → Traced Unit
  | .call _ => throw .writerClosed
  | .close => pure ()
  | .intoMedium => throw .writerClosed
  | .drop => pure ()

variable {σ : Type} {s s' s'' : Session σ}

theorem close_of_isClosed (stream : Stream σ) (closed : s.writer.isClosed = true) :
    s.close stream = (pure (), s) := by
  unfold Session.close
  rw [output_of_isClosed closed]

theorem act_of_isClosed (stream : Stream σ) (closed : s.writer.isClosed = true) (use : Use) :
    s.act stream use = (use.whenClosed, s) := by
  cases use with
  | call c =>
    have found : s.writer.recordsOf c.points = .error .writerClosed := by
      unfold recordsOf checkOpen
      rw [closed]
      rfl
    simp only [Session.act, answer_refused stream found]
    rfl
  | close => exact close_of_isClosed stream closed
  | intoMedium =>
    simp only [Session.act, closed]
    rfl
  | drop =>
    simp only [Session.act, close_of_isClosed stream closed]
    rfl

theorem perform_of_isClosed (stream : Stream σ) (closed : s.writer.isClosed = true)
    (uses : List Use) : s.perform stream uses = (uses.map Use.whenClosed, s) := by
  induction uses with
  | nil => rfl
  | cons use uses ih =>
    simp only [Session.perform, act_of_isClosed stream closed use, ih]
    rfl

/-- What became of a session. An open one wrote records, and may then have closed, taking a start of
the steps of closing. A closed one did nothing. -/
inductive Course (s : Session σ) : Session σ → Prop where
  | opened {left : Session σ} (recorded : Recorded s left)
    (isOpen : left.writer.isClosed = false) : Course s left
  | closed {mid left : Session σ} {output : Output} {part : List Step} (recorded : Recorded s mid)
    (held : mid.writer.output? = some output)
    (short : part <+: closingSteps mid.writer.finished.header mid.writer.start output)
    (took : Took part { mid with writer := mid.writer.finished } left) : Course s left
  | idle (closed : s.writer.isClosed = true) : Course s s

theorem course_close (stream : Stream σ) (s : Session σ) : Course s (s.close stream).2 := by
  cases held : s.writer.output? with
  | none =>
    have closed : s.writer.isClosed = true := by rw [isClosed, held]; rfl
    rw [close_of_isClosed stream closed]
    exact .idle closed
  | some output =>
    obtain ⟨part, short, took⟩ := close_took stream held
    exact .closed (.refl s) held short took

theorem drop_eq_close (stream : Stream σ) (s : Session σ) :
    (s.act stream .drop).2 = (s.close stream).2 := by
  simp only [Session.act]
  cases (s.close stream).1.result <;> rfl

theorem course_act (stream : Stream σ) (s : Session σ) (use : Use) :
    Course s (s.act stream use).2 := by
  cases closed : s.writer.isClosed with
  | true =>
    rw [act_of_isClosed stream closed]
    exact .idle closed
  | false =>
    cases use with
    | call c =>
      have recorded := recorded_answer stream c s
      exact .opened recorded (recorded.closed.trans closed)
    | close => exact course_close stream s
    | intoMedium =>
      simp only [Session.act, closed]
      exact course_close stream s
    | drop =>
      rw [drop_eq_close]
      exact course_close stream s

theorem Course.trans (first : Course s s') (later : Course s' s'') : Course s s'' := by
  cases first with
  | idle closed => exact later
  | opened recorded isOpen =>
    cases later with
    | idle closed => exact .opened recorded isOpen
    | opened recordedLater isOpen => exact .opened (recorded.trans recordedLater) isOpen
    | closed recordedLater held short took =>
      exact .closed (recorded.trans recordedLater) held short took
  | closed recorded held short took =>
    have closed := took.isClosed
    cases later with
    | idle _ => exact .closed recorded held short took
    | opened recordedLater isOpen =>
      rw [recordedLater.closed, closed] at isOpen
      cases isOpen
    | closed recordedLater heldLater _ _ =>
      have isOpen := isClosed_of_output heldLater
      rw [recordedLater.closed, closed] at isOpen
      cases isOpen

theorem course_perform (stream : Stream σ) (s : Session σ) (uses : List Use) :
    Course s (s.perform stream uses).2 := by
  induction uses generalizing s with
  | nil =>
    cases closed : s.writer.isClosed with
    | true => exact .idle closed
    | false => exact .opened (.refl s) closed
  | cons use uses ih => exact (course_act stream s use).trans (ih _)

namespace Step

def isEncode : Step → Bool
  | .encode _ _ => true
  | _ => false

def isHeader : Step → Bool
  | .ask (.write .writingHeader _) => true
  | _ => false

def isSeek : Step → Bool
  | .ask (.seek _ _) => true
  | _ => false

def isFlush : Step → Bool
  | .ask (.flush _) => true
  | _ => false

end Step

structure Once (steps : List Step) : Prop where
  encode : steps.countP Step.isEncode ≤ 1
  header : steps.countP Step.isHeader ≤ 1
  seek : steps.countP Step.isSeek ≤ 2
  flush : steps.countP Step.isFlush ≤ 1

theorem Once.shorter {steps part : List Step} (once : Once steps) (short : part <+: steps) :
    Once part where
  encode := Nat.le_trans short.sublist.countP_le once.encode
  header := Nat.le_trans short.sublist.countP_le once.header
  seek := Nat.le_trans short.sublist.countP_le once.seek
  flush := Nat.le_trans short.sublist.countP_le once.flush

section Counts

variable (parts : List (Operation × Bytes))

@[simp] theorem countP_isEncode_writes : (writes parts).countP Step.isEncode = 0 := by
  simp [writes, Step.isEncode]

@[simp] theorem countP_isSeek_writes : (writes parts).countP Step.isSeek = 0 := by
  simp [writes, Step.isSeek]

@[simp] theorem countP_isFlush_writes : (writes parts).countP Step.isFlush = 0 := by
  simp [writes, Step.isFlush]

@[simp] theorem countP_isHeader_writes :
    (writes parts).countP Step.isHeader = parts.countP (·.1 = .writingHeader) := by
  rw [writes, List.countP_map]
  congr 1
  funext part
  obtain ⟨operation, bytes⟩ := part
  cases operation <;> rfl

end Counts

theorem countP_headerSteps_le (h : Header) : (headerSteps h).countP Step.isHeader ≤ 1 := by
  rw [headerSteps, countP_isHeader_writes]
  cases found : h.sections with
  | error e => simp [Except.toOption]
  | ok parts =>
    simp only [Header.sections, Success.bind_eq_ok, Success.pure_eq_ok] at found
    obtain ⟨block, -, records, -, rfl⟩ := found
    simp [Except.toOption, List.countP_map, Function.comp_def]

theorem once_releaseSteps (h : Header) (output : Output) :
    (releaseSteps h output).countP Step.isEncode ≤ 1 ∧
      (releaseSteps h output).countP Step.isHeader = 0 ∧
      (releaseSteps h output).countP Step.isSeek = 0 ∧
      (releaseSteps h output).countP Step.isFlush = 0 := by
  cases output with
  | plain => simp [releaseSteps]
  | compressed codec records =>
    simp [releaseSteps, List.countP_cons, Step.isEncode, Step.isHeader, Step.isSeek, Step.isFlush]

theorem once_closingSteps (h : Header) (start : Nat) (output : Output) :
    Once (closingSteps h start output) := by
  obtain ⟨encode, header, seek, flush⟩ := once_releaseSteps h output
  have headers := countP_headerSteps_le h
  unfold closingSteps
  constructor
  · simpa [headerSteps, List.countP_cons, Step.isEncode] using encode
  · simpa [header, List.countP_cons, Step.isHeader] using headers
  · simp [seek, headerSteps, List.countP_cons, Step.isSeek]
  · simp [flush, headerSteps, List.countP_cons, Step.isFlush]

theorem Once.records {steps : List Step} (once : Once steps) (records : List Bytes) :
    Once (writes (records.map (.writingPoint, ·)) ++ steps) where
  encode := by simpa using once.encode
  header := by simpa [List.countP_map, Function.comp_def] using once.header
  seek := by simpa using once.seek
  flush := by simpa using once.flush

theorem Course.once (course : Course s s') :
    ∃ asked, s'.steps = s.steps ++ asked ∧ Once asked := by
  have nothing : Once [] := ⟨by simp, by simp, by simp, by simp⟩
  cases course with
  | idle closed => exact ⟨[], (List.append_nil _).symm, nothing⟩
  | opened recorded isOpen =>
    obtain ⟨records, steps⟩ := recorded.steps
    exact ⟨_, by rw [steps, List.append_nil], nothing.records records⟩
  | closed recorded held short took =>
    obtain ⟨records, steps⟩ := recorded.steps
    refine ⟨_, ?_, ((once_closingSteps _ _ _).shorter short).records records⟩
    rw [took.steps, ← List.append_assoc, ← steps]

theorem Course.header (course : Course s s') (isOpen : s'.writer.isClosed = false) :
    s'.writer.header = s.writer.header := by
  cases course with
  | idle closed => rfl
  | opened recorded _ => exact recorded.header
  | closed recorded held short took =>
    rw [took.isClosed] at isOpen
    cases isOpen

def errors (said : Traced Unit) : Nat := said.events.countP (·.level = .error)

theorem errors_close (stream : Stream σ) (s : Session σ) : errors (s.close stream).1 = 0 := by
  unfold Session.close errors
  cases s.writer.output? with
  | none => rfl
  | some output =>
    simp only [concluded]
    cases released : Session.release stream s.writer.finished.header output
        { s with writer := s.writer.finished } with
    | error e left => rfl
    | ok events left =>
      have quiet : events.countP (·.level = .error) = 0 := by
        cases output with
        | plain =>
          cases released
          rfl
        | compressed codec records =>
          obtain ⟨encoded, mid, -, later⟩ := Success.run_bind_eq_ok.1 released
          obtain ⟨_, _, -, said⟩ := Success.run_bind_eq_ok.1 later
          cases said
          rfl
      simp only
      cases Session.replaceHeader stream s.writer.finished.header s.writer.finished.start left with
      | error e left => exact quiet
      | ok _ left =>
        rw [List.countP_append, quiet]
        rfl

theorem errors_drop (stream : Stream σ) (s : Session σ) :
    errors (s.act stream .drop).1 =
      if (s.close stream).1.result.toBool then 0 else 1 := by
  have quiet := errors_close stream s
  unfold errors at quiet ⊢
  simp only [Session.act]
  cases closed : (s.close stream).1.result with
  | ok _ => simpa [Except.toBool] using quiet
  | error e =>
    rw [List.countP_append, quiet]
    rfl

theorem closed_of_closes (stream : Stream σ) (s : Session σ) {use : Use}
    (closes : use.closes = true) : (s.act stream use).2.writer.isClosed = true := by
  have closed : (s.close stream).2.writer.isClosed = true := by
    cases held : s.writer.output? with
    | none =>
      have closed : s.writer.isClosed = true := by rw [isClosed, held]; rfl
      rw [close_of_isClosed stream closed]
      exact closed
    | some output =>
      obtain ⟨part, -, took⟩ := close_took stream held
      exact took.isClosed
  cases use with
  | call c => cases closes
  | close => exact closed
  | intoMedium =>
    simp only [Session.act]
    split
    · next already => exact already
    · exact closed
  | drop => rwa [drop_eq_close]

/-- What holds of a session after any uses of its writer, whatever its stream and its codec
refuse. -/
structure Lifecycle (stream : Stream σ) (s left : Session σ) : Prop where
  /-- Points are encoded and the header is put in its place at most once. -/
  once : ∃ asked, left.steps = s.steps ++ asked ∧ Once asked
  header : left.writer.isClosed = false → left.writer.header = s.writer.header
  /-- Once a use has closed the writer nothing is asked or changed, and all replies are known. -/
  closed : ∀ use : Use, use.closes = true → ∀ later : List Use,
    let closed := (left.act stream use).2
    closed.writer.isClosed = true ∧
      closed.perform stream later = (later.map Use.whenClosed, closed)
  dropped : (left.act stream .drop).2 = (left.act stream .close).2
  logged : errors (left.act stream .drop).1 ≤ 1 ∧
    (errors (left.act stream .drop).1 = 1 ↔ ∃ e, (left.act stream .close).1.result = .error e)

/-- A writer closes once, whatever fails. This is so on every stream, and on a medium the writer
does what a session does. -/
theorem lifecycle_perform :
    (∀ (σ : Type) (stream : Stream σ) (s : Session σ) (uses : List Use),
      Lifecycle stream s (s.perform stream uses).2) ∧
    ∀ (w : Writer) (uses : List Use),
      let session := (Session.mk w () []).perform .medium uses
      session.1 = (w.perform uses).1 ∧ session.2.writer = (w.perform uses).2 := by
  constructor
  · intro σ stream s uses
    have course := course_perform stream s uses
    constructor
    · exact course.once
    · exact course.header
    · intro use closes later
      have closed := closed_of_closes stream (s.perform stream uses).2 closes
      exact ⟨closed, perform_of_isClosed stream closed later⟩
    · exact drop_eq_close stream _
    · rw [errors_drop]
      show _ ∧ (_ ↔ ∃ e, (Session.close stream _).1.result = .error e)
      cases (Session.close stream (s.perform stream uses).2).1.result <;> simp [Except.toBool]
  · intro w uses
    exact Session.perform_medium _ uses

def balky : Stream Nat := fun request (m, n) =>
  match Medium.obey request m with
  | .error e m => .error e (m, n + 1)
  | .ok () m =>
    if n = 2 then .error (.medium .writingHeader .full) (m, n + 1) else .ok () (m, n + 1)

def onBalky : Session Nat :=
  ⟨⟨.empty 2017 1, .ofBytes [], 0, .zero, some (.compressed turning .empty)⟩, 0, []⟩

theorem lifecycle_perform_balky :
    let left := (onBalky.perform balky [.call (.writePoint sample)]).2
    left.writer.header = onBalky.writer.header ∧
      errors (left.act balky .drop).1 = 1 ∧
      (left.act balky .close).2.perform balky [.close, .call (.writePoints []), .intoMedium] =
        ([pure (), throw .writerClosed, throw .writerClosed], (left.act balky .close).2) := by
  intro left
  have life := lifecycle_perform.1 Nat balky onBalky [.call (.writePoint sample)]
  refine ⟨life.header (by decide +kernel), life.logged.2.2 ?_, (life.closed .close rfl _).2⟩
  have failed : ((left.act balky .close).1.result.toBool) = false := by decide +kernel
  cases closed : (left.act balky .close).1.result with
  | error e => exact ⟨e, rfl⟩
  | ok _ =>
    rw [closed] at failed
    cases failed

end Lidar.Writer
