import Mathlib.Algebra.Order.Ring.Int
import Mathlib.Data.List.Basic

/-! Lists of numbered slots: an update writes one slot, a new slot comes last. -/

namespace GoREgo.Lib

/-- The literals of two slots. -/
instance neZero_two : NeZero 2 := ⟨by decide⟩

/-- The literals of a byte. -/
instance neZero_byte : NeZero 256 := ⟨by decide⟩

variable {α : Type} {slots : List α} {i j : Nat} {old new found : α}

theorem getElem?_set_cases (shown : (slots.set i new)[j]? = some found)
    : (j = i ∧ found = new) ∨ (j ≠ i ∧ slots[j]? = some found) := by
  by_cases same : j = i
  · subst same
    rw [List.getElem?_set_self'] at shown
    obtain ⟨_, -, rfl⟩ := Option.map_eq_some_iff.mp shown
    exact .inl ⟨rfl, rfl⟩
  · rw [List.getElem?_set_ne (Ne.symm same)] at shown
    exact .inr ⟨same, shown⟩

theorem getElem?_set_of_some (held : slots[i]? = some old) : (slots.set i new)[i]? = some new := by
  rw [List.getElem?_set_self', held]
  rfl

theorem getElem?_snoc_cases (shown : (slots ++ [new])[j]? = some found)
    : (j = slots.length ∧ found = new) ∨ (j < slots.length ∧ slots[j]? = some found) := by
  rcases Nat.lt_trichotomy j slots.length with before | rfl | beyond
  · rw [List.getElem?_append_left before] at shown
    exact .inr ⟨before, shown⟩
  · rw [List.getElem?_concat_length] at shown
    exact .inl ⟨rfl, (Option.some.inj shown).symm⟩
  · rw [List.getElem?_eq_none (by simpa using Nat.succ_le_of_lt beyond)] at shown
    cases shown

theorem getElem?_snoc_of_some (held : slots[i]? = some old) : (slots ++ [new])[i]? = some old := by
  obtain ⟨within, -⟩ := List.getElem?_eq_some_iff.mp held
  rw [List.getElem?_append_left within, held]

theorem observe_snoc {β : Type} (observe : Option α → β)
    (unseen : observe (some new) = observe none) (j : Nat)
    : observe (slots ++ [new])[j]? = observe slots[j]? := by
  rcases Nat.lt_trichotomy j slots.length with before | rfl | beyond
  · rw [List.getElem?_append_left before]
  · rw [List.getElem?_concat_length, unseen, List.getElem?_eq_none (Nat.le_refl _)]
  · rw [List.getElem?_eq_none (by simpa using Nat.succ_le_of_lt beyond),
      List.getElem?_eq_none (Nat.le_of_lt beyond)]

theorem observe_set {β : Type} (observe : Option α → β) (held : slots[i]? = some old)
    (unseen : observe (some new) = observe (some old)) (j : Nat)
    : observe (slots.set i new)[j]? = observe slots[j]? := by
  by_cases same : j = i
  · subst same
    rw [getElem?_set_of_some held, held, unseen]
  · rw [List.getElem?_set_ne (Ne.symm same)]

theorem map_set_of_same {β : Type} (look : α → β) (held : slots[i]? = some old)
    (same : look new = look old)
    : (slots.set i new).map look = slots.map look := by
  refine List.ext_getElem? (fun j => ?_)
  rw [List.getElem?_map, List.getElem?_map]
  exact observe_set (Option.map look) held (by rw [Option.map_some, same, Option.map_some]) j

/-- A write changes a sum by the difference in its slot, by induction over the slots. -/
theorem sum_map_set (weight : α → Nat) (held : slots[i]? = some old) (new : α)
    : ((slots.set i new).map weight).sum + weight old = (slots.map weight).sum + weight new := by
  induction slots generalizing i with
  | nil => cases held
  | cons head rest ih =>
      cases i with
      | zero =>
          obtain rfl := Option.some.inj held
          simp only [List.set_cons_zero, List.map_cons, List.sum_cons]
          omega
      | succ i =>
          have tail := ih held
          simp only [List.set_cons_succ, List.map_cons, List.sum_cons]
          omega

theorem sum_map_modify_le (weight : α → Nat) {change : α → α}
    (lighter : ∀ slot, weight (change slot) ≤ weight slot) (i : Nat) (slots : List α)
    : ((slots.modify i change).map weight).sum ≤ (slots.map weight).sum := by
  induction slots generalizing i with
  | nil => cases i <;> exact Nat.le_refl _
  | cons head rest ih =>
      cases i with
      | zero => exact Nat.add_le_add_right (lighter head) _
      | succ i => exact Nat.add_le_add_left (ih i) _

end GoREgo.Lib
