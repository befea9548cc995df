import Mathlib.Data.List.Forall2

/-!
# Results that can fail

`error?` is the error of a result that failed. That of a sequence of steps is the first error of a step,
in the order of the steps (`error?_bind`, `error?_mapM`). A sequence that did not fail has a value for
each step (`bind_eq_ok`, `mapM_eq_ok`), and what each step ensures of its value carries over to the
sequence (`Ensures.bind`, `EnsuresAll.append`).
-/

namespace EntityGraph

variable {α β ε : Type}

/-- The error of a result that failed. -/
def error? : Except ε α → Option ε
  | .error e => some e
  | .ok _ => none

theorem eq_error_iff {x : Except ε α} {e : ε} : x = .error e ↔ error? x = some e := by
  cases x <;> simp [error?]

/-! ## Errors of sequences -/

@[simp] theorem error?_pure (a : α) : error? (pure a : Except ε α) = none := rfl

@[simp] theorem error?_map (f : α → β) (x : Except ε α) : error? (f <$> x) = error? x := by
  cases x <;> rfl

/-- A sequence whose later steps fail alike, whatever the first step gives. -/
theorem error?_bind {x : Except ε α} {f : α → Except ε β} {later : Option ε}
    (h : ∀ a, error? (f a) = later) : error? (x >>= f) = (error? x).or later := by
  cases x with
  | error e => rfl
  | ok a => exact h a

theorem error?_bind_pure (x : Except ε α) (f : α → β) :
    error? (x >>= fun a => pure (f a)) = error? x := by
  rw [error?_bind fun a => error?_pure (f a), Option.or_none]

theorem error?_mapM (f : α → Except ε β) (xs : List α) :
    error? (xs.mapM f) = xs.findSome? fun x => error? (f x) := by
  induction xs with
  | nil => rfl
  | cons x xs ih =>
    rw [List.mapM_cons, error?_bind fun b => error?_bind_pure (xs.mapM f) (b :: ·), ih,
      List.findSome?_cons]
    cases error? (f x) <;> rfl

/-! ## Values of sequences -/

theorem pure_eq_ok {a b : α} : (pure a : Except ε α) = .ok b ↔ a = b := by
  simp [pure, Except.pure]

theorem bind_eq_ok {x : Except ε α} {f : α → Except ε β} {b : β} :
    (x >>= f) = .ok b ↔ ∃ a, x = .ok a ∧ f a = .ok b := by
  cases x <;> simp [bind, Except.bind]

theorem map_eq_ok {x : Except ε α} {f : α → β} {b : β} :
    f <$> x = .ok b ↔ ∃ a, x = .ok a ∧ f a = b := by
  cases x <;> simp [Functor.map, Except.map]

theorem mapM_eq_ok {f : α → Except ε β} {xs : List α} {ys : List β} :
    xs.mapM f = .ok ys ↔ List.Forall₂ (fun x y => f x = .ok y) xs ys := by
  induction xs generalizing ys with
  | nil => simp [pure_eq_ok, eq_comm (b := ys)]
  | cons x xs ih =>
    simp only [List.mapM_cons, bind_eq_ok, pure_eq_ok, ih, List.forall₂_cons_left_iff]
    constructor
    · rintro ⟨y, hy, rest, hrest, rfl⟩
      exact ⟨y, rest, hy, hrest, rfl⟩
    · rintro ⟨y, rest, hy, hrest, rfl⟩
      exact ⟨y, hy, rest, hrest, rfl⟩

/-- Steps that may have nothing to do, one after the other, are those that have. -/
theorem mapM_mapM_bind {γ δ : Type} (g : α → Option β) (f : β → Except ε γ) (xs : List α)
    (next : List γ → Except ε δ) :
    (xs.mapM (fun x => (g x).mapM f) >>= fun found => next (found.filterMap id)) =
      (xs.filterMap g).mapM f >>= next := by
  induction xs generalizing next with
  | nil => rfl
  | cons x rest ih =>
    rw [List.mapM_cons, List.filterMap_cons]
    cases hg : g x with
    | none => simp [← ih]
    | some y =>
      simp only [List.mapM_cons, Option.mapM_some, bind_assoc, pure_bind, bind_map_left, id_eq]
      exact bind_congr fun first => ih fun further => next (first :: further)

/-! ## What holds of values -/

/-- The value, if the result has one, has the property. -/
def Ensures (P : α → Prop) (x : Except ε α) : Prop :=
  ∀ a, x = .ok a → P a

/-- The elements of the value, if the result has one, have the property. -/
def EnsuresAll (P : α → Prop) : Except ε (List α) → Prop :=
  Ensures fun xs => ∀ a ∈ xs, P a

namespace Ensures

variable {P Q : α → Prop} {R : β → Prop} {x : Except ε α}

theorem pure {a : α} (h : P a) : Ensures P (Pure.pure a : Except ε α) := by
  intro b hb
  exact pure_eq_ok.mp hb ▸ h

theorem error (e : ε) : Ensures P (.error e : Except ε α) := by
  intro a ha
  cases ha

theorem bind {f : α → Except ε β} (hx : Ensures P x) (hf : ∀ a, P a → Ensures R (f a)) :
    Ensures R (x >>= f) := by
  intro b hb
  obtain ⟨a, ha, hfa⟩ := bind_eq_ok.mp hb
  exact hf a (hx a ha) b hfa

theorem bind_pure {f : α → β} (hx : Ensures P x) (hf : ∀ a, P a → R (f a)) :
    Ensures R (x >>= fun a => Pure.pure (f a)) :=
  hx.bind fun a ha => .pure (hf a ha)

/-- A step whose value does not matter. -/
theorem bind_of_forall {f : α → Except ε β} (hf : ∀ a, Ensures R (f a)) : Ensures R (x >>= f) :=
  fun b hb => by
    obtain ⟨a, -, hfa⟩ := bind_eq_ok.mp hb
    exact hf a b hfa

end Ensures

namespace EnsuresAll

variable {P : α → Prop} {x y : Except ε (List α)}

theorem nil : EnsuresAll P (pure [] : Except ε (List α)) :=
  .pure fun _ h => absurd h List.not_mem_nil

theorem singleton {a : α} (h : P a) : EnsuresAll P (pure [a] : Except ε (List α)) :=
  .pure fun _ hb => List.mem_singleton.mp hb ▸ h

theorem append (hx : EnsuresAll P x) (hy : EnsuresAll P y) :
    EnsuresAll P (do let first ← x; let further ← y; return first ++ further) :=
  hx.bind fun _ hfirst => hy.bind_pure fun _ hfurther => List.forall_mem_append.mpr ⟨hfirst, hfurther⟩

theorem toList {Q : β → Prop} {f : α → β} {x : Except ε (Option α)}
    (hx : Ensures (fun found => ∀ a ∈ found, P a) x) (hf : ∀ a, P a → Q (f a)) :
    EnsuresAll Q (do let found ← x; return (found.map f).toList) := by
  refine hx.bind_pure fun found hfound b hb => ?_
  obtain ⟨a, ha, rfl⟩ := Option.map_eq_some_iff.mp (Option.mem_toList.mp hb)
  exact hf a (hfound a ha)

end EnsuresAll

end EntityGraph
