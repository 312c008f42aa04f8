import Lidar.Header.Stream

/-!
# Media

A medium holds bytes and a position in them, and says what it refuses: bytes past its capacity,
seeks after the first few, flushes, or questions for the position. An action that fails leaves the
medium as far as it got.
-/
namespace Lidar

/-- Bytes with a position in them, and what is refused. -/
structure Medium where
  content : ByteArray
  position : Nat := 0
  /-- Bytes at this place and after are refused. -/
  capacity? : Option Nat := none
  /-- How many more seeks work; without a number, all do. -/
  seeksLeft? : Option Nat := none
  positionFails : Bool := false
  flushFails : Bool := false

namespace Medium

abbrev Action (α : Type) := EStateM Error Medium α

def ofBytes (bytes : Bytes) : Medium := { content := bytes.toByteArray }

def bytes (m : Medium) : Bytes := .ofPacked m.content

def atPath (operation : Operation) (file? : Option Medium) : Except Error Medium :=
  match file? with
  | some m => .ok m
  | none => .error (.medium operation .missing)

def rest (m : Medium) : Bytes := .ofPacked (m.content.extract m.position m.content.size)

/-- Replaces bytes from a place on. A gap before the place is filled with zeros, and no bytes change
nothing. -/
def overwrite (content : ByteArray) (place : Nat) (bytes : Bytes) : ByteArray :=
  if bytes.isEmpty then content
  else
    content.extract 0 place ++ (Bytes.fill (place - content.size) 0).toByteArray ++
      bytes.toByteArray ++ content.extract (place + bytes.length) content.size

def room (m : Medium) (n : Nat) : Nat :=
  match m.capacity? with
  | some capacity => min n (capacity - m.position)
  | none => n

def tell (operation : Operation) : Action Nat := fun m =>
  if m.positionFails then .error (.medium operation .position) m else .ok m.position m

def seek (operation : Operation) (place : Nat) : Action Unit := fun m =>
  match m.seeksLeft? with
  | some 0 => .error (.medium operation .seek) m
  | some (n + 1) => .ok () { m with position := place, seeksLeft? := some n }
  | none => .ok () { m with position := place }

/-- Writes bytes at the position and moves past them. When not all fit, those that do are
written. -/
def write (operation : Operation) (bytes : Bytes) : Action Unit := fun m =>
  let taken := bytes.take (m.room bytes.length)
  let written := { m with
    content := overwrite m.content m.position taken
    position := m.position + taken.length }
  if taken.length < bytes.length then .error (.medium operation .full) written else .ok () written

def flush (operation : Operation) : Action Unit := fun m =>
  if m.flushFails then .error (.medium operation .flush) m else .ok () m

/-- Reads a value of `n` bytes at the position and moves past it. When the bytes end too early the
position is their end. -/
def read (operation : Operation) (n : Nat) (decode : Decoder α) : Action α := fun m =>
  match decode (.ofPacked (m.content.extract m.position (m.position + n))) with
  | some (a, _) => .ok a { m with position := m.position + n }
  | none => .error (.medium operation .shortField) { m with position := m.content.size }

def writeInTurn (h : Header) : Action Unit := h.emit write

theorem bytes_ofBytes (bytes : Bytes) : (ofBytes bytes).bytes = bytes := by
  simp [ofBytes, Medium.bytes]

theorem rest_eq (m : Medium) : m.rest = m.bytes.drop m.position := by
  simp [rest, Medium.bytes, ← Bytes.length_ofPacked]

/-- Some bytes replace as many from a place on, after a gap of zeros if the place is past the end. -/
theorem ofPacked_overwrite {bytes : Bytes} (content : ByteArray) (place : Nat) (h : bytes ≠ []) :
    Bytes.ofPacked (overwrite content place bytes) =
      (Bytes.ofPacked content).take place ++ Bytes.fill (place - content.size) 0 ++ bytes ++
        (Bytes.ofPacked content).drop (place + bytes.length) := by
  simp [overwrite, h, ← Bytes.length_ofPacked]

end Medium

end Lidar
