import Lidar.Header.InPlace
import Lidar.Proofs.Header.Encode
import Lidar.Proofs.Medium

/-!
# Headers that are edited in place

An edit in place checks everything before it changes anything. So an error leaves the whole header
as it was, and whatever is tried, a header stays sound: all that the edits check holds of it. What
is left for the writer to refuse are a file source id in version 1.0, a count that has no field, and
a start of the point data past what 32 bits can hold.
-/
namespace Lidar.Header

variable {h : Header}

def atomically (h : Header) : Except Error Header → EStateM.Result Error Header Unit
  | .ok edited => .ok () edited
  | .error cause => .error cause h

theorem ofExcept_bind {α : Type} {check : Except Error α} {later : α → Action Unit}
    {change : α → Except Error Header} (step : ∀ a, later a h = h.atomically (change a)) :
    ((ofExcept check : Action α) >>= later) h = h.atomically (check >>= change) := by
  cases check with
  | ok a => exact step a
  | error cause => rfl

theorem rejectWhen_bind {c : Bool} {p : Prop} [Decidable p] {refusal : Refusal}
    {later : Unit → Action Unit} {otherwise : Except Error Header} (decides : c = true ↔ p)
    (step : later () h = h.atomically otherwise) :
    (rejectWhen c refusal >>= later) h = h.atomically (if p then refuse refusal else otherwise) := by
  cases c with
  | true =>
    rw [if_pos (decides.1 rfl)]
    rfl
  | false =>
    rw [if_neg fun met => Bool.false_ne_true (decides.2 met)]
    exact step

theorem pushRecord_eq (h : Header) (record : Vlr) :
    pushRecord record h =
      h.atomically (return { h with records := ← h.records.push record }) := by
  unfold pushRecord
  rw [Success.run_get_bind]
  exact ofExcept_bind fun _ => rfl

theorem takeRecord_eq (h : Header) (index : Nat) :
    takeRecord index h =
      h.atomically (return { h with records := (← h.records.remove index).2 }) := by
  unfold takeRecord
  rw [Success.run_get_bind]
  exact ofExcept_bind fun _ => rfl

/-- A coordinate system takes the place of the others only if it can: what is pushed in the end was
looked at before anything was taken out. -/
theorem putSpatialReference_eq (h : Header) (text : String) :
    putSpatialReference text h = h.atomically (h.setSpatialReference text) := by
  unfold putSpatialReference setSpatialReference
  cases valid : (coordinateSystemRecord text).validate with
  | error cause =>
    simp only [valid]
    rfl
  | ok _ =>
    simp only [valid]
    show pushRecord _ { h with records := _ } = _
    simp only [pushRecord_eq, Vlr.Store.push_of_valid _ (Vlr.validate_eq_ok_iff.1 valid)]
    rfl

theorem perform_eq (e : Edit) (h : Header) : perform e h = h.atomically (h.edit e) := by
  cases e with
  | fileSourceId id => rfl
  | globalEncoding bits => rfl
  | guid guid => rfl
  | version version => exact rejectWhen_bind Iff.rfl (rejectWhen_bind Iff.rfl rfl)
  | systemIdentifier text => exact ofExcept_bind fun _ => rfl
  | generatingSoftware text => exact ofExcept_bind fun _ => rfl
  | creationDay day => exact rejectWhen_bind decide_eq_true_iff rfl
  | creationYear year => exact rejectWhen_bind decide_eq_true_iff rfl
  | date date => exact rejectWhen_bind decide_eq_true_iff rfl
  | format format => exact ofExcept_bind fun _ => rfl
  | compressed compressed => rfl
  | transforms transforms =>
    exact ofExcept_bind fun _ => ofExcept_bind fun _ => ofExcept_bind fun _ => rfl
  | padding bytes => exact rejectWhen_bind Iff.rfl rfl
  | recordPadding bytes => rfl
  | spatialReference text => exact putSpatialReference_eq h text
  | finalize points byReturn bounds => rfl
  | pushRecord record => exact pushRecord_eq h record
  | removeRecord index => exact takeRecord_eq h index
  | removeMatching userId recordId => rfl
  | clearRecords => rfl

theorem perform_eq_ok {e : Edit} {left : Header} :
    perform e h = .ok () left ↔ h.edit e = .ok left := by
  rw [perform_eq]
  cases h.edit e with
  | ok changed => simp [atomically]
  | error cause => simp [atomically]

theorem eq_of_perform_error {e : Edit} {cause : Error} {left : Header}
    (stopped : perform e h = .error cause left) : left = h := by
  rw [perform_eq] at stopped
  cases edited : h.edit e with
  | ok changed =>
    rw [edited] at stopped
    cases stopped
  | error _ =>
    rw [edited] at stopped
    cases stopped
    rfl

theorem performAll_eq (h : Header) (edits : List Edit) :
    h.performAll edits = edits.foldl tryEdit h := by
  induction edits generalizing h with
  | nil => rfl
  | cons e edits ih =>
    rw [List.foldl_cons, ← ih, performAll, tryEdit, perform_eq]
    cases h.edit e <;> rfl

structure Sound (h : Header) : Prop where
  version : h.version.major = 1 ∧ h.version.minor ≤ 4
  size : h.size = h.version.headerSize + h.padding.length
  format : h.format.checkedLength?.isSome = true
  transforms : h.transforms.x.validate = .ok () ∧ h.transforms.y.validate = .ok () ∧
    h.transforms.z.validate = .ok ()
  systemIdentifier : Text.Fits h.systemIdentifier identifierWidth
  generatingSoftware : Text.Fits h.generatingSoftware identifierWidth
  records : ∀ v ∈ h.records.toList, v.validate = .ok ()

theorem sound_of_hasRoom (hw : h.WellFormed) (room : h.HasRoom) : h.Sound where
  version := Version.isSupported_iff.1 hw.version
  size := room.size_eq
  format := by
    unfold Format.checkedLength?
    rw [if_pos hw.format]
    rfl
  transforms := by
    obtain ⟨x, y, z⟩ := hw.transforms
    exact ⟨Transform.validate_eq_ok_iff.2 x, Transform.validate_eq_ok_iff.2 y,
      Transform.validate_eq_ok_iff.2 z⟩
  systemIdentifier := hw.systemIdentifier
  generatingSoftware := hw.generatingSoftware
  records v mem := Vlr.validate_eq_ok_iff.2 (h.records.valid v mem)

def counts (h : Header) : List UInt64 := h.numberOfPoints :: h.numberOfPointsByReturn.toList

/-- What cannot be written of a header that is sound. -/
inductive Refused (h : Header) : Prop where
  | sourceId (version : h.version = ⟨1, 0⟩) (some : h.fileSourceId ≠ 0)
  | count (version : h.version.compare ⟨1, 4⟩ = .lt) (large : ∃ n ∈ h.counts, maxCount < n.toNat)
  | pointDataStart (far : maxCount < h.pointDataStart)

theorem WellFormed.refused_iff (hw : h.WellFormed) : h.Refused ↔ ¬h.Writable := by
  have sourceId := Version.supports_fileSourceId_iff hw.version
  have largeFiles := Version.compare_lt_iff hw.version
  constructor
  · intro refused writable
    cases refused with
    | sourceId version some =>
      exact (writable.sourceId.resolve_left some |> sourceId.1) version
    | count version large =>
      obtain ⟨n, mem, large⟩ := large
      have countable : Countable h.version n := by
        rcases List.mem_cons.1 mem with rfl | mem
        · exact writable.points
        · exact writable.pointsByReturn n mem
      exact largeFiles.1 version (countable.resolve_left (Nat.not_le.2 large))
    | pointDataStart far => exact Nat.not_lt.2 writable.pointDataStart far
  · intro unwritable
    by_contra accepted
    have countable : ∀ n ∈ h.counts, Countable h.version n := by
      intro n mem
      by_contra uncountable
      obtain ⟨large, old⟩ := not_or.1 uncountable
      exact accepted (.count (largeFiles.2 old) ⟨n, mem, Nat.lt_of_not_le large⟩)
    refine unwritable ⟨?_, countable _ List.mem_cons_self,
      fun n mem => countable n (List.mem_cons_of_mem _ mem),
      Nat.le_of_not_lt fun far => accepted (.pointDataStart far)⟩
    by_contra reserved
    obtain ⟨some, old⟩ := not_or.1 reserved
    rw [sourceId, not_not] at old
    exact accepted (.sourceId old some)

theorem WellFormed.toBlock_error_iff (hw : h.WellFormed) :
    (∃ cause, h.toBlock = .error cause) ↔ h.Refused := by
  rw [hw.refused_iff]
  constructor
  · rintro ⟨cause, refused⟩ writable
    rw [(toBlock_eq_ok hw).2 ⟨writable, rfl⟩] at refused
    cases refused
  · intro unwritable
    cases block : h.toBlock with
    | ok b => exact absurd ((toBlock_eq_ok hw).1 block).1 unwritable
    | error cause => exact ⟨cause, rfl⟩

theorem writeInTurn_of_toBlock_error {cause : Error} (refused : h.toBlock = .error cause)
    (m : Medium) : Medium.writeInTurn h m = .error cause m :=
  Success.run_ofExcept_bind_error refused

theorem WellFormed.writeInTurn_error_iff (hw : h.WellFormed) {m : Medium}
    (unlimited : m.capacity? = none) :
    (∃ cause left, Medium.writeInTurn h m = .error cause left) ↔ h.Refused := by
  rw [← hw.toBlock_error_iff]
  constructor
  · rintro ⟨cause, left, stopped⟩
    cases block : h.toBlock with
    | error cause => exact ⟨cause, rfl⟩
    | ok b =>
      obtain ⟨writable, -⟩ := (toBlock_eq_ok hw).1 block
      obtain ⟨m', written, -⟩ := Medium.writeAll_of_unlimited unlimited h.parts
      rw [Medium.writeInTurn_of_sections ((sections_eq_ok hw).2 ⟨writable, rfl⟩), written] at stopped
      cases stopped
  · rintro ⟨cause, refused⟩
    exact ⟨cause, m, writeInTurn_of_toBlock_error refused m⟩

/-- Whatever edits are tried, a header stays sound and an edit that stops changes nothing. What is
refused when the header is written is known, and then nothing has been written. -/
theorem refused_iff_of_edits {start : Header} (made : start.Reachable ∨ start.Made ∧ start.HasRoom)
    (edits : List Edit) :
    let h := start.performAll edits
    h.Sound ∧ (∀ e cause left, perform e h = .error cause left → left = h) ∧
      ((∃ cause, h.toBlock = .error cause) ↔ h.Refused) ∧
      (∀ m : Medium, m.capacity? = none →
        ((∃ cause left, m.writeInTurn h = .error cause left) ↔ h.Refused)) ∧
      (∀ cause, h.toBlock = .error cause → ∀ m : Medium, m.writeInTurn h = .error cause m) := by
  intro h
  obtain ⟨hw, room⟩ : h.WellFormed ∧ h.HasRoom := by
    show (start.performAll edits).WellFormed ∧ (start.performAll edits).HasRoom
    rw [performAll_eq]
    exact tryEdits_induction (P := fun h => h.WellFormed ∧ h.HasRoom)
      (fun sound edited => (edit_sound sound.1 edited).imp_right (· sound.2)) (sound_of_made made)
      edits
  exact ⟨sound_of_hasRoom hw room, fun e cause left => eq_of_perform_error, hw.toBlock_error_iff,
    fun m => hw.writeInTurn_error_iff, fun cause => writeInTurn_of_toBlock_error⟩

def reserved : List Edit :=
  [.fileSourceId 7, .version ⟨2, 0⟩, .padding [1, 2, 3], .spatialReference "LOCAL_CS",
    .removeRecord 1, .version ⟨1, 0⟩]

theorem refused_iff_of_edits_reserved :
    ((Header.empty 2017 1).performAll reserved).size = 230 ∧
      ∃ cause, ∀ m : Medium,
        m.writeInTurn ((Header.empty 2017 1).performAll reserved) = .error cause m := by
  obtain ⟨sound, -, refused, -, unwritten⟩ := refused_iff_of_edits (.inl (.empty 2017 1)) reserved
  constructor
  · rw [sound.size]
    decide +kernel
  · obtain ⟨cause, unwritable⟩ := refused.2 (.sourceId (by decide +kernel) (by decide +kernel))
    exact ⟨cause, unwritten cause unwritable⟩

end Lidar.Header
