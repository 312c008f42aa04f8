import Mathlib.Data.List.Forall2
import Lidar.Event

/-!
# What success establishes

A check that succeeds has passed each of its guards, and a traversal that succeeds has a result for
each of its items. These are the steps by which a successful check is taken apart.
-/
namespace Lidar

def settle {α σ : Type} : EStateM.Result Error σ α → Except Error α × σ
  | .ok a s => (.ok a, s)
  | .error e s => (.error e, s)

theorem exists_of_mem_right {α β : Type} {R : α → β → Prop} {as : List α} {bs : List β}
    (related : List.Forall₂ R as bs) : ∀ b ∈ bs, ∃ a ∈ as, R a b := by
  induction related with
  | nil => simp
  | @cons a b as bs first later ih =>
    intro b' mem
    rcases List.mem_cons.1 mem with rfl | mem
    · exact ⟨a, List.mem_cons_self, first⟩
    · obtain ⟨a', inside, related⟩ := ih b' mem
      exact ⟨a', List.mem_cons_of_mem a inside, related⟩

namespace Success

variable {α β γ ε : Type}

theorem bind_eq_ok {x : Except ε α} {f : α → Except ε β} {b : β} :
    x >>= f = .ok b ↔ ∃ a, x = .ok a ∧ f a = .ok b := by
  cases x with
  | error e => exact ⟨fun h => (by cases h), fun ⟨a, ha, _⟩ => by cases ha⟩
  | ok a => exact ⟨fun h => ⟨a, rfl, h⟩, fun ⟨a', ha, h⟩ => by cases ha; exact h⟩

theorem ok_bind {a : α} {f : α → Except ε β} : (.ok a >>= f : Except ε β) = f a := rfl

theorem pure_eq_ok {a b : α} : (pure a : Except ε α) = .ok b ↔ a = b := by
  simp [pure, Except.pure]

theorem toOption_eq_some {x : Except ε α} {a : α} : x.toOption = some a ↔ x = .ok a := by
  cases x <;> simp [Except.toOption]

theorem throw_guard_eq_ok {c : Prop} [Decidable c] {e : ε} {f : γ → Except ε α}
    {x : Except ε α} {a : α} :
    (if c then throw e >>= f else x) = .ok a ↔ ¬c ∧ x = .ok a := by
  by_cases h : c
  · simp [h, throw, throwThe, MonadExceptOf.throw, bind, Except.bind]
  · simp [h]

theorem refuse_guard_eq_ok {c : Prop} [Decidable c] {r : Refusal} {f : γ → Except Error α}
    {x : Except Error α} {a : α} :
    (if c then refuse r >>= f else x) = .ok a ↔ ¬c ∧ x = .ok a :=
  throw_guard_eq_ok

theorem traced_guard_eq_ok {c : Prop} [Decidable c] {e : Error} {f : γ → Traced α} {x : Traced α}
    {a : α} : (if c then throw e >>= f else x).result = .ok a ↔ ¬c ∧ x.result = .ok a := by
  by_cases h : c
  · rw [if_pos h, Traced.result_bind, Traced.result_throw]
    exact ⟨fun thrown => (by cases thrown), fun passed => absurd h passed.1⟩
  · rw [if_neg h]
    exact ⟨fun passed => ⟨h, passed⟩, fun passed => passed.2⟩

theorem unit_bind_eq_ok {x : Except ε Unit} {f : Unit → Except ε β} {b : β} :
    x >>= f = .ok b ↔ x = .ok () ∧ f () = .ok b := by
  rw [bind_eq_ok]
  exact ⟨fun ⟨_, hx, hf⟩ => ⟨hx, hf⟩, fun h => ⟨(), h⟩⟩

theorem list_mapM_eq_ok {f : α → Except ε β} {items : List α} {results : List β} :
    items.mapM f = .ok results ↔ List.Forall₂ (fun a b => f a = .ok b) items results := by
  induction items generalizing results with
  | nil =>
    rw [List.mapM_nil, pure_eq_ok, List.forall₂_nil_left_iff]
    exact eq_comm
  | cons a items ih =>
    rw [List.mapM_cons, List.forall₂_cons_left_iff, bind_eq_ok]
    constructor
    · rintro ⟨b, hb, h⟩
      obtain ⟨later, hl, h⟩ := bind_eq_ok.1 h
      exact ⟨b, later, hb, ih.1 hl, (pure_eq_ok.1 h).symm⟩
    · rintro ⟨b, later, hb, hl, rfl⟩
      exact ⟨b, hb, bind_eq_ok.2 ⟨later, ih.2 hl, rfl⟩⟩

theorem vector_mapM_eq_ok {f : α → Except ε β} {n : Nat} {items : Vector α n}
    {results : Vector β n} :
    items.mapM f = .ok results ↔
      List.Forall₂ (fun a b => f a = .ok b) items.toList results.toList := by
  have lists : Vector.toList <$> items.mapM f = items.toList.mapM f := by
    rw [← Vector.toList_toArray, ← Array.toList_mapM, ← Vector.toArray_mapM, Functor.map_map]
    rfl
  rw [← list_mapM_eq_ok, ← lists]
  cases items.mapM f with
  | error e => exact ⟨fun h => (by cases h), fun h => by cases h⟩
  | ok found =>
    show _ ↔ Except.ok found.toList = _
    simp [Vector.toList_inj]

variable {f : α → Except ε β} {P : α → Prop} {g : α → β}

theorem list_mapM_eq_ok_map (h : ∀ a b, f a = .ok b ↔ P a ∧ g a = b) {items : List α}
    {results : List β} :
    items.mapM f = .ok results ↔ (∀ a ∈ items, P a) ∧ items.map g = results := by
  simp only [list_mapM_eq_ok, h, List.forall₂_and_left]
  rw [← List.forall₂_map_left_iff (R := Eq), List.forall₂_eq_eq_eq]

theorem vector_mapM_eq_ok_map (h : ∀ a b, f a = .ok b ↔ P a ∧ g a = b) {n : Nat}
    {items : Vector α n} {results : Vector β n} :
    items.mapM f = .ok results ↔ (∀ a ∈ items.toList, P a) ∧ items.map g = results := by
  rw [vector_mapM_eq_ok, ← list_mapM_eq_ok, list_mapM_eq_ok_map h, ← Vector.toList_map,
    Vector.toList_inj]

def FailsWith (E : ε → Prop) (x : Except ε α) : Prop := ∀ e, x = .error e → E e

theorem FailsWith.bind {E : ε → Prop} {x : Except ε α} {f : α → Except ε β}
    (first : FailsWith E x) (later : ∀ a, FailsWith E (f a)) : FailsWith E (x >>= f) := by
  intro e failed
  cases x with
  | error _ =>
    cases failed
    exact first e rfl
  | ok a => exact later a e failed

theorem failsWith_ok {E : ε → Prop} {a : α} : FailsWith E (.ok a : Except ε α) := fun _ => nofun

theorem failsWith_mapM {E : ε → Prop} {f : α → Except ε β} {items : List α}
    (each : ∀ a ∈ items, FailsWith E (f a)) : FailsWith E (items.mapM f) := by
  induction items with
  | nil => exact failsWith_ok
  | cons a items ih =>
    obtain ⟨first, others⟩ := List.forall_mem_cons.1 each
    rw [List.mapM_cons]
    exact first.bind fun _ => (ih others).bind fun _ => failsWith_ok

section Actions

variable {σ : Type} {x : EStateM ε σ α} {s s' : σ}

theorem run_get_bind {k : σ → EStateM ε σ β} : ((get : EStateM ε σ σ) >>= k) s = k s s := rfl

theorem run_modify_bind {change : σ → σ} {k : PUnit → EStateM ε σ β} :
    ((modify change : EStateM ε σ PUnit) >>= k) s = k ⟨⟩ (change s) := rfl

theorem run_bind_ok {k : α → EStateM ε σ β} {a : α} (h : x s = .ok a s') :
    (x >>= k) s = k a s' := by
  show EStateM.bind x k s = _
  rw [EStateM.bind, h]

theorem run_bind_error {k : α → EStateM ε σ β} {e : ε} (h : x s = .error e s') :
    (x >>= k) s = .error e s' := by
  show EStateM.bind x k s = _
  rw [EStateM.bind, h]

theorem run_bind_eq_ok {k : α → EStateM ε σ β} {b : β} {s'' : σ} :
    (x >>= k) s = .ok b s'' ↔ ∃ a s', x s = .ok a s' ∧ k a s' = .ok b s'' := by
  constructor
  · intro done
    cases first : x s with
    | ok a s' =>
      rw [run_bind_ok first] at done
      exact ⟨a, s', rfl, done⟩
    | error e s' =>
      rw [run_bind_error first] at done
      cases done
  · intro ⟨a, s', first, later⟩
    rw [run_bind_ok first, later]

theorem run_bind_eq_error {k : α → EStateM ε σ β} {e : ε} {s'' : σ} :
    (x >>= k) s = .error e s'' ↔
      x s = .error e s'' ∨ ∃ a s', x s = .ok a s' ∧ k a s' = .error e s'' := by
  cases first : x s with
  | ok a s' =>
    rw [run_bind_ok first]
    constructor
    · intro failed
      exact .inr ⟨a, s', rfl, failed⟩
    · intro failed
      obtain ⟨_, _, same, failed⟩ := failed.resolve_left nofun
      cases same
      exact failed
  | error e' s' =>
    rw [run_bind_error first]
    constructor
    · intro failed
      cases failed
      exact .inl rfl
    · intro failed
      rcases failed with failed | ⟨_, _, done, _⟩
      · cases failed
        rfl
      · cases done

theorem run_ofExcept_bind_ok {y : Except ε α} {k : α → EStateM ε σ β} {a : α} (h : y = .ok a) :
    ((ofExcept y : EStateM ε σ α) >>= k) s = k a s := by
  rw [h]
  rfl

theorem run_ofExcept_bind_error {y : Except ε α} {k : α → EStateM ε σ β} {e : ε}
    (h : y = .error e) : ((ofExcept y : EStateM ε σ α) >>= k) s = .error e s := by
  rw [h]
  rfl

end Actions

end Success

end Lidar
