import Lidar.Bounds

/-!
# Boxes around positions

A box that grows by positions, one after the other, ends as the least box around them. All that is
used of the order is that it is a strict weak order on the words that are numbers, between the two
infinities. So coordinates may be infinite, and it does not matter which of several equal ones a
bound is.
-/
namespace Lidar

namespace Binary64

instance : LE Binary64 := ⟨fun x y => x.isNaN = false ∧ y.isNaN = false ∧ x.place ≤ y.place⟩

instance (x y : Binary64) : Decidable (x ≤ y) := inferInstanceAs (Decidable (_ ∧ _ ∧ _))

theorem le_iff {x y : Binary64} :
    x ≤ y ↔ x.isNaN = false ∧ y.isNaN = false ∧ x.place ≤ y.place := Iff.rfl

theorem not_lt_iff {x y : Binary64} (hx : x.isNaN = false) (hy : y.isNaN = false) :
    ¬ x < y ↔ y ≤ x := by
  rw [lt_iff, le_iff]
  simp [hx, hy]

theorem le_trans {x y z : Binary64} (h : x ≤ y) (k : y ≤ z) : x ≤ z := by
  rw [le_iff] at h k ⊢
  exact ⟨h.1, k.2.1, Int.le_trans h.2.2 k.2.2⟩

theorem not_lt_trans {x y z : Binary64} (hx : x.isNaN = false) (hy : y.isNaN = false)
    (hz : z.isNaN = false) (h : ¬ x < y) (k : ¬ y < z) : ¬ x < z := by
  simp only [lt_iff, hx, hy, hz, true_and] at h k ⊢
  omega

theorem toNat_bits (x : Binary64) :
    x.bits.toNat = if x.isNegative then 0x8000000000000000 + x.magnitude else x.magnitude := by
  have small := x.bits.toNat_lt
  have sign : 1 <<< 63 = 0x8000000000000000 := by decide
  simp only [isNegative, magnitude, sign, decide_eq_true_eq]
  split <;> omega

theorem eq_of_place {x y : Binary64} (same : x.place = y.place) (nonzero : x.place ≠ 0) :
    x = y := by
  have bits : x.bits = y.bits := by
    apply UInt64.toNat.inj
    have wordx := toNat_bits x
    have wordy := toNat_bits y
    unfold place at same nonzero
    by_cases hx : x.isNegative = true <;> by_cases hy : y.isNegative = true <;>
      simp only [hx, hy, if_true, Bool.false_eq_true, if_false] at wordx wordy same nonzero <;>
      omega
  cases x
  cases bits
  rfl

theorem place_bounds {x : Binary64} (number : x.isNaN = false) :
    -0x7ff0000000000000 ≤ x.place ∧ x.place ≤ 0x7ff0000000000000 := by
  have last : x.magnitude ≤ 0x7ff0000000000000 := by
    rw [isNaN, decide_eq_false_iff_not, Nat.not_lt] at number
    exact number
  unfold place
  split <;> omega

theorem isNaN_infinity : infinity.isNaN = false := by decide +kernel

theorem isNaN_negInfinity : negInfinity.isNaN = false := by decide +kernel

theorem eq_infinity {x : Binary64} (number : x.isNaN = false) (h : ¬x < infinity) :
    x = infinity := by
  have place : infinity.place = 0x7ff0000000000000 := by decide +kernel
  have after := ((not_lt_iff number isNaN_infinity).1 h).2.2
  have bounds := place_bounds number
  apply eq_of_place <;> omega

theorem eq_negInfinity {x : Binary64} (number : x.isNaN = false) (h : ¬negInfinity < x) :
    x = negInfinity := by
  have place : negInfinity.place = -0x7ff0000000000000 := by decide +kernel
  have before := ((not_lt_iff isNaN_negInfinity number).1 h).2.2
  have bounds := place_bounds number
  apply eq_of_place <;> omega

end Binary64

section Best

variable {α : Type} {better : α → α → Prop} [DecidableRel better] {number : α → Prop}

structure Ranks (better : α → α → Prop) (number : α → Prop) : Prop where
  asymm : ∀ {a b}, better a b → ¬better b a
  trans : ∀ {a b c}, number a → number b → number c → ¬better a b → ¬better b c → ¬better a c

/-- What is kept when each of some values takes the place of a worse one. -/
def best (better : α → α → Prop) [DecidableRel better] (first : α) (values : List α) : α :=
  values.foldl (fun kept a => if better a kept then a else kept) first

theorem best_cons (first a : α) (values : List α) :
    best better first (a :: values) = best better (if better a first then a else first) values :=
  rfl

theorem best_mem (better : α → α → Prop) [DecidableRel better] (first : α) (values : List α) :
    best better first values = first ∨ best better first values ∈ values := by
  induction values generalizing first with
  | nil => exact .inl rfl
  | cons a values ih =>
    rw [best_cons]
    by_cases h : better a first
    · rw [if_pos h]
      exact .inr (List.mem_cons.2 (ih a))
    · rw [if_neg h]
      exact (ih first).imp_right (List.mem_cons_of_mem a)

theorem not_better_best (ranks : Ranks better number) {first : α} {values : List α}
    (start : number first) (numbers : ∀ a ∈ values, number a) :
    ¬better first (best better first values) ∧
      ∀ a ∈ values, ¬better a (best better first values) := by
  induction values generalizing first with
  | nil =>
    refine ⟨fun h => ranks.asymm h h, ?_⟩
    intro a ha
    cases ha
  | cons a values ih =>
    obtain ⟨own, others⟩ := List.forall_mem_cons.1 numbers
    have kept (k : α) (hk : number k) : number (best better k values) := by
      rcases best_mem better k values with same | mem
      · rwa [same]
      · exact others _ mem
    rw [best_cons, List.forall_mem_cons]
    by_cases h : better a first
    · rw [if_pos h]
      obtain ⟨here, later⟩ := ih own others
      exact ⟨ranks.trans start own (kept a own) (ranks.asymm h) here, here, later⟩
    · rw [if_neg h]
      obtain ⟨here, later⟩ := ih start others
      exact ⟨here, ranks.trans own start (kept first start) h here, later⟩

theorem best_mem_values (ranks : Ranks better number) {first : α} {values : List α}
    (start : number first) (last : ∀ a, number a → ¬better a first → a = first)
    (some : values ≠ []) (numbers : ∀ a ∈ values, number a) :
    best better first values ∈ values := by
  rcases best_mem better first values with same | mem
  · obtain ⟨a, mem⟩ := List.exists_mem_of_ne_nil values some
    have after := (not_better_best ranks start numbers).2 a mem
    rw [same] at after ⊢
    rw [← last a (numbers a mem) after]
    exact mem
  · exact mem

end Best

namespace Binary64

theorem ranks_lt : Ranks (fun a b : Binary64 => a < b) fun a => a.isNaN = false where
  asymm h k := lt_irrefl _ (lt_trans h k)
  trans := not_lt_trans

theorem ranks_gt : Ranks (fun a b : Binary64 => b < a) fun a => a.isNaN = false where
  asymm h k := lt_irrefl _ (lt_trans h k)
  trans ha hb hc h k := not_lt_trans hc hb ha k h

theorem best_lt {values : List Binary64} (some : values ≠ [])
    (numbers : ∀ c ∈ values, c.isNaN = false) :
    best (fun a b : Binary64 => a < b) infinity values ∈ values ∧
      ∀ c ∈ values, best (fun a b : Binary64 => a < b) infinity values ≤ c := by
  have mem := best_mem_values ranks_lt isNaN_infinity (fun _ => eq_infinity) some numbers
  refine ⟨mem, ?_⟩
  intro c inside
  rw [← not_lt_iff (numbers c inside) (numbers _ mem)]
  exact (not_better_best ranks_lt isNaN_infinity numbers).2 c inside

theorem best_gt {values : List Binary64} (some : values ≠ [])
    (numbers : ∀ c ∈ values, c.isNaN = false) :
    best (fun a b : Binary64 => b < a) negInfinity values ∈ values ∧
      ∀ c ∈ values, c ≤ best (fun a b : Binary64 => b < a) negInfinity values := by
  have mem := best_mem_values ranks_gt isNaN_negInfinity (fun _ => eq_negInfinity) some numbers
  refine ⟨mem, ?_⟩
  intro c inside
  rw [← not_lt_iff (numbers _ mem) (numbers c inside)]
  exact (not_better_best ranks_gt isNaN_negInfinity numbers).2 c inside

end Binary64

namespace Bounds

def around (positions : List (Axes Binary64)) : Bounds := positions.foldl grow inverted

theorem along_foldl_grow (b : Bounds) (positions : List (Axes Binary64)) (i : Axis) :
    (positions.foldl grow b).min.along i =
        best (fun a b : Binary64 => a < b) (b.min.along i) (positions.map (·.along i)) ∧
      (positions.foldl grow b).max.along i =
        best (fun a b : Binary64 => b < a) (b.max.along i) (positions.map (·.along i)) := by
  induction positions generalizing b with
  | nil => exact ⟨rfl, rfl⟩
  | cons c positions ih =>
    rw [List.foldl_cons, (ih _).1, (ih _).2, grow, Axes.along_zipWith, Axes.along_zipWith]
    exact ⟨rfl, rfl⟩

def Holds (b : Bounds) (c : Axes Binary64) : Prop :=
  ∀ i, b.min.along i ≤ c.along i ∧ c.along i ≤ b.max.along i

/-- The box holds the positions, and on each axis both ends are the coordinates of positions. -/
structure Tight (b : Bounds) (positions : List (Axes Binary64)) : Prop where
  holds : ∀ c ∈ positions, b.Holds c
  least : ∀ i, b.min.along i ∈ positions.map (·.along i)
  greatest : ∀ i, b.max.along i ∈ positions.map (·.along i)

theorem tight_around {positions : List (Axes Binary64)} (some : positions ≠ [])
    (numbers : ∀ c ∈ positions, ∀ i, (c.along i).isNaN = false) :
    (around positions).Tight positions := by
  have any (i : Axis) : positions.map (·.along i) ≠ [] := by simpa using some
  have each (i : Axis) : ∀ c ∈ positions.map (·.along i), c.isNaN = false := by
    intro c hc
    obtain ⟨p, hp, rfl⟩ := List.mem_map.1 hc
    exact numbers p hp i
  have ends (i : Axis) := along_foldl_grow inverted positions i
  have least (i : Axis) := Binary64.best_lt (any i) (each i)
  have greatest (i : Axis) := Binary64.best_gt (any i) (each i)
  simp only [inverted, Axes.along_all] at ends
  simp only [← (ends _).1] at least
  simp only [← (ends _).2] at greatest
  constructor
  · intro c hc i
    have mem : c.along i ∈ positions.map (·.along i) := List.mem_map_of_mem hc
    exact ⟨(least i).2 _ mem, (greatest i).2 _ mem⟩
  · intro i
    exact (least i).1
  · intro i
    exact (greatest i).1

theorem Tight.isEmpty {b : Bounds} {positions : List (Axes Binary64)} (tight : b.Tight positions)
    (some : positions ≠ []) : b.isEmpty = false := by
  obtain ⟨c, hc⟩ := List.exists_mem_of_ne_nil positions some
  have order (i : Axis) : ¬b.max.along i < b.min.along i := by
    obtain ⟨low, high⟩ := tight.holds c hc i
    exact (Binary64.not_lt_iff high.2.1 low.1).2 (Binary64.le_trans low high)
  simp only [Bounds.isEmpty, Bool.or_eq_false_iff, decide_eq_false_iff_not]
  exact ⟨⟨order .x, order .y⟩, order .z⟩

end Bounds

end Lidar
