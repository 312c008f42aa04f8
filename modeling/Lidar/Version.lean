/-!
# Versions of the file format and what they add

Versions 1.0 to 1.4 share the first 227 bytes of the header block. Later versions append blocks to
it, so a version decides how long the header block is.
-/
namespace Lidar

/-- A version of the file format. Any pair of bytes can be declared; five of them are supported. -/
structure Version where
  major : UInt8
  minor : UInt8
  deriving DecidableEq, Repr

inductive Feature where
  /-- The field after the signature is a file source id; before, it is reserved. -/
  | fileSourceId
  /-- The header block says where the waveform packets start. -/
  | waveforms
  /-- The header block has 64-bit point counts. -/
  | largeFiles
  /-- The header block describes extended variable length records. -/
  | extendedRecords
  deriving DecidableEq, Repr

def Feature.blockSize : Feature → Nat
  | .fileSourceId => 0
  | .waveforms => 8
  | .largeFiles => 128
  | .extendedRecords => 12

namespace Version

def default : Version := ⟨1, 2⟩

instance : Inhabited Version := ⟨default⟩

def isSupported (v : Version) : Bool := v.major == 1 && decide (v.minor ≤ 4)

/-- Whether a version has a feature. No version outside major version 1 has any. -/
def supports (v : Version) (f : Feature) : Bool :=
  v.major == 1 &&
    match f with
    | .fileSourceId => [1, 2, 3, 4].contains v.minor
    | .waveforms => [3, 4].contains v.minor
    | .largeFiles => v.minor == 4
    | .extendedRecords => v.minor == 4

def added (v : Version) (f : Feature) : Nat := if v.supports f then f.blockSize else 0

def headerSize (v : Version) : Nat :=
  227 + v.added .waveforms + v.added .extendedRecords + v.added .largeFiles

def compare (a b : Version) : Ordering :=
  (Ord.compare a.major b.major).then (Ord.compare a.minor b.minor)

instance : Ord Version := ⟨compare⟩

def text (v : Version) : String := s!"{v.major}.{v.minor}"

instance : ToString Version := ⟨text⟩

theorem isSupported_iff {v : Version} :
    v.isSupported = true ↔ v.major = 1 ∧ v.minor ≤ 4 := by
  simp [isSupported]

theorem mem_of_isSupported {v : Version} (supported : v.isSupported = true) :
    v ∈ [(⟨1, 0⟩ : Version), ⟨1, 1⟩, ⟨1, 2⟩, ⟨1, 3⟩, ⟨1, 4⟩] := by
  obtain ⟨major, minor⟩ := v
  obtain ⟨rfl, bound⟩ := isSupported_iff.1 supported
  have bound : minor.toNat ≤ 4 := bound
  have minors : minor.toNat = 0 ∨ minor.toNat = 1 ∨ minor.toNat = 2 ∨ minor.toNat = 3 ∨
      minor.toNat = 4 := by omega
  rcases minors with h | h | h | h | h <;> simp [← UInt8.toNat_inj, h]

theorem supports_fileSourceId_iff {v : Version} (supported : v.isSupported = true) :
    v.supports .fileSourceId = true ↔ v ≠ ⟨1, 0⟩ :=
  (by decide : ∀ v ∈ [(⟨1, 0⟩ : Version), ⟨1, 1⟩, ⟨1, 2⟩, ⟨1, 3⟩, ⟨1, 4⟩],
    v.supports .fileSourceId = true ↔ v ≠ ⟨1, 0⟩) v (mem_of_isSupported supported)

theorem supports_largeFiles_iff {v : Version} : v.supports .largeFiles = true ↔ v = ⟨1, 4⟩ := by
  cases v
  simp [supports]

/-- The supported versions before 1.4 have no 64-bit counts. -/
theorem compare_lt_iff {v : Version} (supported : v.isSupported = true) :
    v.compare ⟨1, 4⟩ = .lt ↔ ¬v.supports .largeFiles = true :=
  (by decide : ∀ v ∈ [(⟨1, 0⟩ : Version), ⟨1, 1⟩, ⟨1, 2⟩, ⟨1, 3⟩, ⟨1, 4⟩],
    v.compare ⟨1, 4⟩ = .lt ↔ ¬v.supports .largeFiles = true) v (mem_of_isSupported supported)

end Version

end Lidar
