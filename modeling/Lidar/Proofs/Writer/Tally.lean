import Mathlib.Algebra.GroupWithZero.Nat
import Mathlib.Tactic.SplitIfs
import Lidar.Writer

/-!
# The tally of records

A tally is a function of the records that were counted, in their order. Its counts are numbers of
64 bits: up to an overflow, the number of points is that of the records, and a count by return that
of the records with the return number.
-/
namespace Lidar

def Point.Record.returnNumber (r : Point.Record) : Nat := (r.flags &&& 0x07).toNat

namespace Tally

def counted (transforms : Axes Transform) (records : List Point.Record) : Tally :=
  records.foldl (fun t r => t.add r transforms) .zero

variable {transforms : Axes Transform}

theorem counted_append (records more : List Point.Record) :
    counted transforms (records ++ more) =
      more.foldl (fun t r => t.add r transforms) (counted transforms records) :=
  List.foldl_append

private theorem points_foldl (t : Tally) (records : List Point.Record) :
    (records.foldl (fun t r => t.add r transforms) t).points =
      t.points + UInt64.ofNat records.length := by
  induction records generalizing t with
  | nil => simp
  | cons r records ih =>
    rw [List.foldl_cons, ih, List.length_cons, UInt64.ofNat_add, UInt64.add_comm _ (UInt64.ofNat 1),
      ← UInt64.add_assoc]
    rfl

theorem points_counted (records : List Point.Record) :
    (counted transforms records).points = UInt64.ofNat records.length := by
  rw [counted, points_foldl]
  exact UInt64.zero_add _

private theorem byReturn_foldl (t : Tally) (records : List Point.Record) (i : Nat) (hi : i < 5) :
    (records.foldl (fun t r => t.add r transforms) t).byReturn[i] =
      t.byReturn[i] + UInt64.ofNat (records.countP fun r => r.returnNumber == i + 1) := by
  induction records generalizing t with
  | nil => simp
  | cons r records ih =>
    have step : (t.add r transforms).byReturn[i] =
        if r.returnNumber = i + 1 then t.byReturn[i] + 1 else t.byReturn[i] := by
      simp [add, Point.Record.returnNumber]
    rw [List.foldl_cons, ih, List.countP_cons, step]
    by_cases same : r.returnNumber = i + 1
    · simp only [same, if_true, beq_self_eq_true, UInt64.ofNat_add]
      rw [UInt64.add_assoc, UInt64.add_comm _ (UInt64.ofNat 1)]
      rfl
    · simp [same]

theorem byReturn_counted (records : List Point.Record) (i : Nat) (hi : i < 5) :
    (counted transforms records).byReturn[i] =
      UInt64.ofNat (records.countP fun r => r.returnNumber == i + 1) := by
  rw [counted, byReturn_foldl]
  simp [zero]

theorem byReturn_le (records : List Point.Record) :
    ∀ n ∈ (counted transforms records).byReturn.toList, n.toNat ≤ records.length := by
  intro n hn
  obtain ⟨i, hi, rfl⟩ := List.getElem_of_mem hn
  rw [Vector.length_toList] at hi
  rw [Vector.getElem_toList, byReturn_counted records i hi, UInt64.toNat_ofNat']
  exact Nat.le_trans (Nat.mod_le _ _) List.countP_le_length

theorem sum_countP_le (records : List Point.Record) :
    ((List.range 5).map fun i => records.countP fun r => r.returnNumber == i + 1).sum ≤
      records.length := by
  induction records with
  | nil => exact Nat.le_refl 0
  | cons r records ih =>
    simp only [List.range_succ, List.range_zero, List.map_append, List.map_cons, List.map_nil,
      List.sum_append, List.sum_cons, List.sum_nil, List.countP_cons, List.length_cons,
      beq_iff_eq] at ih ⊢
    split_ifs <;> omega

theorem toList_byReturn (records : List Point.Record) (small : records.length < UInt64.size) :
    (counted transforms records).byReturn.toList.map UInt64.toNat =
      (List.range 5).map fun i => records.countP fun r => r.returnNumber == i + 1 := by
  apply List.ext_getElem
  · simp
  · intro i hi _
    have inside : i < 5 := by simpa using hi
    have fits := Nat.lt_of_le_of_lt
      (List.countP_le_length (p := fun r : Point.Record => r.returnNumber == i + 1)) small
    rw [List.getElem_map, Vector.getElem_toList, byReturn_counted records i inside,
      UInt64.toNat_ofNat_of_lt' fits]
    simp

end Tally

end Lidar
