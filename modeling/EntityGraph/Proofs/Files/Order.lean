import EntityGraph.Files.Path
import Mathlib.Data.List.Sort
import Mathlib.Data.String.Basic

/-!
# The order of paths

Paths are ordered by their components, and the order is that of a dictionary over the order of single
components. Two paths come before each other exactly if they have the same components, so a sorted list of
paths with different components increases strictly.

* `Component.le_total`, `Component.le_trans`, `Component.le_antisymm`: the order of components;
* `componentsLe_total`, `componentsLe_trans`, `componentsLe_antisymm`: that of lists of them;
* `pairwise_before_mergeSort`: sorting paths with different components;
* `map_components_eq`: strictly increasing paths are given by the components that occur.
-/

namespace EntityGraph.Path

/-! ## Components -/

namespace Component

variable {a b c : Component}

theorem le_total (a b : Component) : a.le b = true ∨ b.le a = true := by
  cases a with
  | normal first =>
    cases b with
    | normal second => simpa [le] using String.le_total first second
    | _ => exact .inr rfl
  | _ => cases b <;> simp [le, rank]

theorem le_trans (hab : a.le b = true) (hbc : b.le c = true) : a.le c = true := by
  cases b with
  | normal second =>
    cases c with
    | normal third =>
      cases a with
      | normal first => simpa [le] using String.le_trans (by simpa [le] using hab) (by simpa [le] using hbc)
      | _ => rfl
    | _ => cases hbc
  | _ => cases a <;> cases c <;> simp_all [le, rank]

theorem le_antisymm (hab : a.le b = true) (hba : b.le a = true) : a = b := by
  cases a with
  | normal first =>
    cases b with
    | normal second =>
      exact congrArg normal (String.le_antisymm (by simpa [le] using hab) (by simpa [le] using hba))
    | _ => cases hab
  | _ => cases b <;> simp_all [le, rank]

end Component

/-! ## Lists of components -/

theorem componentsLe_cons (a b : Component) (as bs : List Component) :
    componentsLe (a :: as) (b :: bs) = if a = b then componentsLe as bs else a.le b := rfl

theorem componentsLe_total (as bs : List Component) :
    componentsLe as bs = true ∨ componentsLe bs as = true := by
  induction as generalizing bs with
  | nil => exact .inl rfl
  | cons a as ih =>
    cases bs with
    | nil => exact .inr rfl
    | cons b bs =>
      rw [componentsLe_cons, componentsLe_cons]
      by_cases hab : a = b
      · rw [if_pos hab, if_pos hab.symm]
        exact ih bs
      · rw [if_neg hab, if_neg (Ne.symm hab)]
        exact a.le_total b

theorem componentsLe_trans {as bs cs : List Component} (hab : componentsLe as bs = true)
    (hbc : componentsLe bs cs = true) : componentsLe as cs = true := by
  induction as generalizing bs cs with
  | nil => rfl
  | cons a as ih =>
    cases bs with
    | nil => cases hab
    | cons b bs =>
      cases cs with
      | nil => cases hbc
      | cons c cs =>
        rw [componentsLe_cons] at hab hbc ⊢
        by_cases h₁ : a = b
        · subst h₁
          by_cases h₂ : a = c
          · rw [if_pos h₂] at hbc ⊢
            exact ih (by simpa using hab) hbc
          · rwa [if_neg h₂] at hbc ⊢
        · rw [if_neg h₁] at hab
          by_cases h₂ : b = c
          · rwa [← h₂, if_neg h₁]
          · rw [if_neg h₂] at hbc
            -- The first components strictly increase.
            have h₃ : a ≠ c := fun heq => h₁ (Component.le_antisymm hab (heq ▸ hbc))
            rw [if_neg h₃]
            exact Component.le_trans hab hbc

theorem componentsLe_antisymm {as bs : List Component} (hab : componentsLe as bs = true)
    (hba : componentsLe bs as = true) : as = bs := by
  induction as generalizing bs with
  | nil =>
    cases bs with
    | nil => rfl
    | cons b bs => cases hba
  | cons a as ih =>
    cases bs with
    | nil => cases hab
    | cons b bs =>
      rw [componentsLe_cons] at hab hba
      by_cases h : a = b
      · rw [if_pos h] at hab
        rw [if_pos h.symm] at hba
        rw [h, ih hab hba]
      · rw [if_neg h] at hab
        rw [if_neg (Ne.symm h)] at hba
        exact absurd (Component.le_antisymm hab hba) h

/-! ## Sorted paths -/

theorem le_total (a b : Path) : (a.le b || b.le a) = true :=
  Bool.or_eq_true _ _ |>.mpr (componentsLe_total a.components b.components)

theorem le_trans (a b c : Path) (hab : a.le b = true) (hbc : b.le c = true) : a.le c = true :=
  componentsLe_trans hab hbc

/-- A path comes strictly before another. -/
def Before (a b : Path) : Prop :=
  a.le b = true ∧ b.le a = false

theorem before_iff {a b : Path} : a.Before b ↔ a.le b = true ∧ a.components ≠ b.components := by
  constructor
  · rintro ⟨hle, hnot⟩
    exact ⟨hle, fun heq => by simp_all [le]⟩
  · rintro ⟨hle, hne⟩
    exact ⟨hle, Bool.eq_false_iff.mpr fun h => hne (componentsLe_antisymm hle h)⟩

/-- Sorted paths with different components increase strictly. -/
theorem pairwise_before_mergeSort {paths : List Path} (h : (paths.map components).Nodup) :
    (paths.mergeSort le).Pairwise Before := by
  have hsorted : (paths.mergeSort le).Pairwise fun a b => a.le b = true :=
    List.pairwise_mergeSort le_trans le_total paths
  have hnodup : (paths.mergeSort le).Pairwise fun a b => a.components ≠ b.components :=
    List.pairwise_map.mp (((List.mergeSort_perm paths le).map components).nodup_iff.mpr h)
  exact (hsorted.and hnodup).imp fun hab => before_iff.mpr hab

/-- Strictly increasing lists of paths have the same components in the same order if the same components
occur in them. -/
theorem map_components_eq {first second : List Path} (hfirst : first.Pairwise Before)
    (hsecond : second.Pairwise Before)
    (h : ∀ components, components ∈ first.map Path.components ↔ components ∈ second.map Path.components) :
    first.map components = second.map components := by
  have hpairwise : ∀ paths : List Path, paths.Pairwise Before →
      (paths.map components).Pairwise fun as bs => componentsLe as bs = true ∧ as ≠ bs :=
    fun paths hp => List.pairwise_map.mpr (hp.imp before_iff.mp)
  have : Std.Irrefl fun as bs : List Component => componentsLe as bs = true ∧ as ≠ bs :=
    ⟨fun _ hne => hne.2 rfl⟩
  have : Std.Antisymm fun as bs : List Component => componentsLe as bs = true ∧ as ≠ bs :=
    ⟨fun _ _ hab hba => componentsLe_antisymm hab.1 hba.1⟩
  exact (hpairwise first hfirst).eq_of_mem_iff (hpairwise second hsecond) h

end EntityGraph.Path
