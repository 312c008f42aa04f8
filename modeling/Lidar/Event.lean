import Lidar.Error

/-!
# Events

What reading and writing have to say besides their results. An operation that may say something is
`Traced`: its result, and the events up to it in order. An operation that fails keeps the events
before the failure.
-/
namespace Lidar

inductive Level where
  | debug
  | warn
  | error
  deriving DecidableEq, Repr

inductive Event where
  | ignoredWaveforms
  | ignoredExtendedRecords (count : UInt32)
  | ignoredFileSourceId (id : UInt16) (version : Version)
  /-- More variable length records are declared than fit before the points. -/
  | missingRecords (declared found : Nat)
  /-- The bytes before the points end like those of some 1.0 writers. -/
  | startSignature
  | decoded (size : Nat) (points : UInt64)
  | opened (version : Version) (points : UInt64) (format : Format)
  | closedReader
  | replacedCodecRecords (count : Nat)
  | droppedCodecRecords (count : Nat)
  | encoded (size encodedSize : Nat)
  | finalized (version : Version) (points : UInt64)
  | closingFailed (error : Error)
  deriving DecidableEq, Repr

namespace Event

def level : Event → Level
  | .ignoredWaveforms => .warn
  | .ignoredExtendedRecords _ => .warn
  | .ignoredFileSourceId _ _ => .warn
  | .missingRecords _ _ => .warn
  | .startSignature => .warn
  | .decoded _ _ => .debug
  | .opened _ _ _ => .debug
  | .closedReader => .debug
  | .replacedCodecRecords _ => .debug
  | .droppedCodecRecords _ => .debug
  | .encoded _ _ => .debug
  | .finalized _ _ => .debug
  | .closingFailed _ => .error

def text : Event → String
  | .ignoredWaveforms => "ignoring the waveform data packet record, waveforms aren't supported"
  | .ignoredExtendedRecords count => s!"ignoring {count} extended vlrs, they aren't supported"
  | .ignoredFileSourceId id version =>
    s!"ignoring file source id {id} in the reserved field of las {version}"
  | .missingRecords declared found =>
    s!"the header declares {declared} vlrs but only {found} fit before the point data"
  | .startSignature => "found the las 1.0 point data start signature, keeping it as padding"
  | .decoded size points => s!"decoded {size} compressed bytes into {points} point records"
  | .opened version points format =>
    s!"opened las {version} data with {points} points in {format.text}"
  | .closedReader => "closed reader"
  | .replacedCodecRecords count => s!"replacing {count} codec vlr(s)"
  | .droppedCodecRecords count => s!"dropped {count} codec vlr(s) from uncompressed data"
  | .encoded size encodedSize =>
    s!"encoded {size} bytes of point records into {encodedSize} bytes"
  | .finalized version points => s!"finalized las {version} data with {points} points"
  | .closingFailed error => s!"error when closing the writer on drop: {error.message}"

end Event

/-- A result with the events up to it. -/
structure Traced (α : Type) where
  result : Except Error α
  events : List Event

namespace Traced

def say (e : Event) : Traced Unit := ⟨.ok (), [e]⟩

def sayIf (condition : Bool) (e : Event) : Traced Unit := if condition then say e else ⟨.ok (), []⟩

/-- Goes on with the result of `t` after its events, or stops at its error. -/
def andThen (t : Traced α) (f : α → Traced β) : Traced β :=
  match t.result with
  | .ok a => ⟨(f a).result, t.events ++ (f a).events⟩
  | .error e => ⟨.error e, t.events⟩

instance : Monad Traced where
  pure a := ⟨.ok a, []⟩
  bind := andThen

instance : MonadExceptOf Error Traced where
  throw e := ⟨.error e, []⟩
  tryCatch t handle :=
    match t.result with
    | .ok a => ⟨.ok a, t.events⟩
    | .error e => ⟨(handle e).result, t.events ++ (handle e).events⟩

instance : MonadLift (Except Error) Traced := ⟨fun r => ⟨r, []⟩⟩

@[simp] theorem result_pure (a : α) : (pure a : Traced α).result = .ok a := rfl

@[simp] theorem result_say (e : Event) : (say e).result = .ok () := rfl

@[simp] theorem result_sayIf (c : Bool) (e : Event) : (sayIf c e).result = .ok () := by
  cases c <;> rfl

@[simp] theorem result_bind (t : Traced α) (f : α → Traced β) :
    (t >>= f).result = t.result >>= fun a => (f a).result := by
  show (t.andThen f).result = _
  unfold andThen
  cases t.result <;> rfl

@[simp] theorem result_map (f : α → β) (t : Traced α) : (f <$> t).result = t.result.map f := by
  show (t >>= fun a => pure (f a)).result = _
  rw [result_bind]
  cases t.result <;> rfl

@[simp] theorem result_liftM (r : Except Error α) : (liftM r : Traced α).result = r := rfl

@[simp] theorem result_throw (e : Error) : (throw e : Traced α).result = .error e := rfl

end Traced

end Lidar
