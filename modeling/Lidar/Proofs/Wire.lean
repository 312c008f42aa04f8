import Lidar.Wire

/-!
# Layouts

A layout is a row of fields that holds only some of the values of a type: optional fields are there
exactly when the layout has them, and runs of bytes have their declared length. `InvertsOn` is
`Inverts` on those values. It is built field by field, in the order in which the decoder reads
them, so that one derivation shows both that what was written is read back and that what was read
is what would be written. `Takes` says how many bytes a decoder needs, and that it needs nothing
else of them.
-/
namespace Lidar

variable {α β : Type} {P : β → Prop} {Q : α → Prop}

/-- The decoder reads exactly what the encoder writes for the values that satisfy `P`. -/
structure InvertsOn (P : α → Prop) (decode : Decoder α) (encode : α → Bytes) : Prop where
  append : ∀ a rest, P a → decode (encode a ++ rest) = some (a, rest)
  complete : ∀ {s a rest}, decode s = some (a, rest) → P a ∧ s = encode a ++ rest

theorem Inverts.on {decode : Decoder α} {encode : α → Bytes} (h : Inverts decode encode) :
    InvertsOn (fun _ => True) decode encode where
  append a rest _ := h.append a rest
  complete hs := ⟨trivial, h.complete hs⟩

namespace InvertsOn

theorem inverts {decode : Decoder α} {encode : α → Bytes}
    (h : InvertsOn (fun _ => True) decode encode) : Inverts decode encode where
  append a rest := h.append a rest trivial
  complete hs := (h.complete hs).2

theorem congr {decode : Decoder α} {encode other : α → Bytes} (h : InvertsOn Q decode encode)
    (same : ∀ a, Q a → other a = encode a) : InvertsOn Q decode other where
  append a rest ha := by
    rw [same a ha]
    exact h.append a rest ha
  complete hs := by
    obtain ⟨ha, hs⟩ := h.complete hs
    rw [same _ ha]
    exact ⟨ha, hs⟩

/-- A field in front of a layout. What follows may depend on the field's value, and how the field
itself is written may depend on the fields before it. -/
theorem bind {decode : Decoder α} {encode : α → Bytes} (h : InvertsOn Q decode encode)
    {next : α → Decoder β} {written tail : β → Bytes} (field : β → α)
    (has : ∀ b, P b → Q (field b)) (same : ∀ b, P b → written b = encode (field b))
    (later : ∀ a, Q a → InvertsOn (fun b => P b ∧ field b = a) (next a) tail) :
    InvertsOn P (decode >>= next) fun b => written b ++ tail b where
  append b rest hb := by
    rw [same b hb, List.append_assoc]
    show (decode (encode (field b) ++ (tail b ++ rest))).bind _ = _
    rw [h.append _ _ (has b hb)]
    exact (later _ (has b hb)).append b rest ⟨hb, rfl⟩
  complete {s b rest} hs := by
    obtain ⟨a, behind, ha, hb⟩ := Decoder.bind_eq_some hs
    obtain ⟨hq, rfl⟩ := h.complete ha
    obtain ⟨⟨hp, rfl⟩, rfl⟩ := (later a hq).complete hb
    exact ⟨hp, by rw [same b hp, List.append_assoc]⟩

theorem pure {b : β} (known : ∀ b', P b' ↔ b' = b) : InvertsOn P (pure b) fun _ => [] where
  append b' rest hb := by
    rw [(known b').1 hb]
    rfl
  complete hs := by
    cases hs
    exact ⟨(known b).2 rfl, rfl⟩

theorem last {decode : Decoder α} {encode : α → Bytes} (h : InvertsOn Q decode encode)
    {make : α → β} (field : β → α) (has : ∀ b, P b → Q (field b))
    (known : ∀ a, Q a → ∀ b, P b ∧ field b = a ↔ b = make a) :
    InvertsOn P (decode >>= fun a => Pure.pure (make a)) fun b => encode (field b) := by
  refine (h.bind field has (fun _ _ => rfl) fun a ha => InvertsOn.pure (known a ha)).congr
    fun b _ => ?_
  rw [List.append_nil]

theorem field {decode : Decoder α} {encode : α → Bytes} (h : Inverts decode encode)
    {next : α → Decoder β} {tail : β → Bytes} (part : β → α)
    (later : ∀ a, InvertsOn (fun b => P b ∧ part b = a) (next a) tail) :
    InvertsOn P (decode >>= next) fun b => encode (part b) ++ tail b :=
  h.on.bind part (fun _ _ => trivial) (fun _ _ => rfl) fun a _ => later a

theorem take (n : Nat) : InvertsOn (fun b : Bytes => b.length = n) (Decoder.take n) id where
  append _ rest hb := Decoder.take_append hb rest
  complete hs := (Decoder.take_complete hs).symm

theorem resized (n : Nat) :
    InvertsOn (fun b : Bytes => b.length = n) (Decoder.take n) fun b => b.resize n :=
  (take n).congr fun _ hb => Bytes.resize_of_length_eq hb

theorem when (condition : Bool) {decode : Decoder α} {encode : α → Bytes}
    (h : Inverts decode encode) (absent : α) :
    InvertsOn (fun a? : Option α => a?.isSome = condition) (Decoder.when condition decode)
      (Wire.when condition encode absent) where
  append a? rest ha := by
    cases condition with
    | false =>
      have none : a? = none := by simpa using ha
      subst none
      rfl
    | true =>
      obtain ⟨a, rfl⟩ := Option.isSome_iff_exists.1 ha
      show (decode (encode a ++ rest)).bind _ = _
      rw [h.append]
      rfl
  complete {s a? rest} hs := by
    cases condition with
    | false =>
      cases hs
      exact ⟨rfl, rfl⟩
    | true =>
      obtain ⟨⟨a, behind⟩, ha, hb⟩ := Option.bind_eq_some_iff.1 hs
      cases hb
      exact ⟨rfl, h.complete ha⟩

end InvertsOn

theorem inverts_vector {decode : Decoder α} {encode : α → Bytes} (h : Inverts decode encode)
    (n : Nat) : Inverts (Decoder.vector n decode) (Wire.vector encode) := by
  induction n with
  | zero =>
    have row : InvertsOn (fun _ => True) (Decoder.vector 0 decode) fun _ : Vector α 0 => [] :=
      InvertsOn.pure fun v => by simp
    refine (row.congr fun v _ => ?_).inverts
    rw [show v = #v[] from Vector.eq_empty]
    rfl
  | succ n ih =>
    have row : InvertsOn (fun _ => True) (Decoder.vector (n + 1) decode)
        fun v : Vector α (n + 1) => Wire.vector encode v.pop ++ encode v.back := by
      refine InvertsOn.field ih (fun v : Vector α (n + 1) => v.pop) fun start => ?_
      refine InvertsOn.last h.on (fun v : Vector α (n + 1) => v.back) (fun _ _ => trivial)
        fun last _ v => ?_
      constructor
      · rintro ⟨⟨-, rfl⟩, rfl⟩
        exact (Vector.push_pop_back v).symm
      · rintro rfl
        simp [Vector.back_eq_getElem]
    refine (row.congr fun v _ => ?_).inverts
    have parts : v.toList = v.pop.toList ++ [v.back] := by
      rw [← Vector.toList_push, Vector.push_pop_back]
    simp [Wire.vector, parts]

namespace Decoder

def Takes (decode : Decoder α) (n : Nat) : Prop :=
  ∀ s : Bytes, n ≤ s.length → ∃ a, decode s = some (a, s.drop n)

theorem Takes.bind {decode : Decoder α} {next : α → Decoder β} {n m : Nat} (h : Takes decode n)
    (later : ∀ a, Takes (next a) m) : Takes (decode >>= next) (n + m) := by
  intro s hs
  obtain ⟨a, ha⟩ := h s (by omega)
  obtain ⟨b, hb⟩ := later a (s.drop n) (by rw [List.length_drop]; omega)
  refine ⟨b, ?_⟩
  show (decode s).bind _ = _
  rw [ha, ← List.drop_drop]
  exact hb

theorem Takes.pure (a : α) : Takes (Pure.pure a : Decoder α) 0 := fun _ _ => ⟨a, rfl⟩

theorem Takes.of_eq {decode : Decoder α} {n m : Nat} (h : Takes decode n) (same : n = m) :
    Takes decode m := same ▸ h

theorem Takes.map {decode : Decoder α} {n : Nat} (h : Takes decode n) (f : α → β) :
    Takes (do return f (← decode)) n := h.bind fun a => Takes.pure (f a)

theorem takes_take (n : Nat) : Takes (take n) n := by
  intro s hs
  refine ⟨s.take n, ?_⟩
  simp [take, Nat.min_eq_left hs]

theorem takes_bytes (n : Nat) : Takes (bytes n) n := by
  intro s hs
  have length : (s.take n).length = n := by
    rw [List.length_take, Nat.min_eq_left hs]
  exact ⟨_, dif_pos length⟩

theorem takes_vector {decode : Decoder α} {width : Nat} (h : Takes decode width) (n : Nat) :
    Takes (vector n decode) (n * width) := by
  induction n with
  | zero => exact (Takes.pure #v[]).of_eq (Nat.zero_mul width).symm
  | succ n ih => exact (ih.bind fun _ => h.map _).of_eq (Nat.succ_mul n width).symm

theorem takes_word (width : Nat) : Takes (word width) width := (takes_take width).map _

theorem takes_u8 : Takes u8 1 := (takes_word 1).map _

theorem takes_u16 : Takes u16 2 := (takes_word 2).map _

theorem takes_u32 : Takes u32 4 := (takes_word 4).map _

theorem takes_u64 : Takes u64 8 := (takes_word 8).map _

theorem takes_i8 : Takes i8 1 := takes_u8.map _

theorem takes_i32 : Takes i32 4 := takes_u32.map _

theorem takes_binary64 : Takes binary64 8 := takes_u64.map _

theorem takes_when (condition : Bool) {decode : Decoder α} {n : Nat} (h : Takes decode n) :
    Takes (when condition decode) (if condition then n else 0) := by
  cases condition with
  | false => exact Takes.pure none
  | true =>
    intro s hs
    obtain ⟨a, ha⟩ := h s hs
    refine ⟨some a, ?_⟩
    show (decode s).bind _ = _
    rw [ha]
    rfl

/-- With `n` bytes the decoder succeeds, and it takes no more. -/
def Suffices (n : Nat) (decode : Decoder α) : Prop :=
  ∀ s : Bytes, n ≤ s.length → ∃ a rest, decode s = some (a, rest) ∧ s.length ≤ rest.length + n

theorem Takes.suffices {decode : Decoder α} {n : Nat} (h : Takes decode n) :
    Suffices n decode := by
  intro s hs
  obtain ⟨a, ha⟩ := h s hs
  refine ⟨a, s.drop n, ha, ?_⟩
  rw [List.length_drop]
  omega

theorem Suffices.bind {decode : Decoder α} {next : α → Decoder β} {n m : Nat}
    (h : Suffices n decode) (later : ∀ a, Suffices m (next a)) :
    Suffices (n + m) (decode >>= next) := by
  intro s hs
  obtain ⟨a, behind, ha, left⟩ := h s (by omega)
  obtain ⟨b, rest, hb, last⟩ := later a behind (by omega)
  refine ⟨b, rest, ?_, by omega⟩
  rw [bind_apply, ha]
  exact hb

theorem Suffices.mono {decode : Decoder α} {n m : Nat} (h : Suffices n decode) (le : n ≤ m) :
    Suffices m decode := by
  intro s hs
  obtain ⟨a, rest, ha, left⟩ := h s (Nat.le_trans le hs)
  exact ⟨a, rest, ha, by omega⟩

theorem suffices_when (condition : Bool) {decode : Decoder α} {n : Nat} (h : Takes decode n) :
    Suffices n (when condition decode) := by
  refine (takes_when condition h).suffices.mono ?_
  cases condition with
  | false => exact Nat.zero_le n
  | true => exact Nat.le_refl n

end Decoder

theorem InvertsOn.begins {decode : Decoder α} {encode : α → Bytes} {n : Nat}
    (h : InvertsOn Q decode encode) (enough : decode.Suffices n) (s : Bytes) :
    ∃ a more rest, Q a ∧ s ++ more = encode a ++ rest ∧
      ((encode a).length ≤ s.length → decode s = some (a, s.drop (encode a).length)) := by
  have long : n ≤ (s ++ Bytes.fill n 0).length := by
    rw [List.length_append, Bytes.fill, List.length_replicate]
    exact Nat.le_add_left n s.length
  obtain ⟨a, rest, ha, -⟩ := enough _ long
  obtain ⟨hq, same⟩ := h.complete ha
  refine ⟨a, Bytes.fill n 0, rest, hq, same, fun inside => ?_⟩
  have front : s.take (encode a).length = encode a := by
    rw [← List.take_append_of_le_length inside, same, List.take_left]
  have whole : s = encode a ++ s.drop (encode a).length := by
    rw [← front, List.length_take, Nat.min_eq_left inside, List.take_append_drop]
  rw [whole, h.append _ _ hq, List.drop_left]

namespace Wire

@[simp] theorem length_u8 (x : UInt8) : (u8 x).length = 1 := Bytes.length_ofNat 1 _

@[simp] theorem length_u16 (x : UInt16) : (u16 x).length = 2 := Bytes.length_ofNat 2 _

@[simp] theorem length_u32 (x : UInt32) : (u32 x).length = 4 := Bytes.length_ofNat 4 _

@[simp] theorem length_u64 (x : UInt64) : (u64 x).length = 8 := Bytes.length_ofNat 8 _

@[simp] theorem length_i8 (x : Int8) : (i8 x).length = 1 := length_u8 _

@[simp] theorem length_i32 (x : Int32) : (i32 x).length = 4 := length_u32 _

@[simp] theorem length_binary64 (x : Binary64) : (binary64 x).length = 8 := length_u64 _

theorem length_vector {encode : α → Bytes} {width : Nat} (h : ∀ a, (encode a).length = width)
    (v : Vector α n) : (vector encode v).length = n * width := by
  have row : ∀ items : List α, (items.flatMap encode).length = items.length * width := by
    intro items
    induction items with
    | nil => simp
    | cons a items ih =>
      rw [List.flatMap_cons, List.length_append, h, ih, List.length_cons, Nat.succ_mul,
        Nat.add_comm]
  rw [vector, row, Vector.length_toList]

theorem length_when {encode : α → Bytes} {width : Nat} (h : ∀ a, (encode a).length = width)
    (condition : Bool) (absent : α) (a? : Option α) :
    (when condition encode absent a?).length = if condition then width else 0 := by
  cases condition with
  | false => rfl
  | true => exact h _

@[simp] theorem toNat_u8 (x : UInt8) : (u8 x).toNat = x.toNat := by
  rw [u8, Bytes.toNat_ofNat]
  exact Nat.mod_eq_of_lt x.toNat_lt

@[simp] theorem toNat_u16 (x : UInt16) : (u16 x).toNat = x.toNat := by
  rw [u16, Bytes.toNat_ofNat]
  exact Nat.mod_eq_of_lt x.toNat_lt

@[simp] theorem toNat_u32 (x : UInt32) : (u32 x).toNat = x.toNat := by
  rw [u32, Bytes.toNat_ofNat]
  exact Nat.mod_eq_of_lt x.toNat_lt

@[simp] theorem toNat_u64 (x : UInt64) : (u64 x).toNat = x.toNat := by
  rw [u64, Bytes.toNat_ofNat]
  exact Nat.mod_eq_of_lt x.toNat_lt

end Wire

end Lidar
