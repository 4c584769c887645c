import Mathlib.Algebra.Order.Ring.Int
import Mathlib.Data.List.AList
import Mathlib.Data.List.Perm.Basic

/-! Finite maps as association lists: removing many keys, and counting keys by a test. -/

namespace GoREgo.Lib

/-- What an updated function shows at a key is the new value there or the old one
elsewhere.
-/
theorem update_cases {α β γ : Type} [DecidableEq α] {f : α → β} {at' key : α} {new : β}
    {value : γ} (observe : β → γ) (found : observe (Function.update f at' new key) = value)
    : (key = at' ∧ observe new = value) ∨ (key ≠ at' ∧ observe (f key) = value) := by
  by_cases same : key = at'
  · subst same
    rw [Function.update_self] at found
    exact Or.inl ⟨rfl, found⟩
  · rw [Function.update_of_ne same] at found
    exact Or.inr ⟨same, found⟩

variable {κ : Type} [DecidableEq κ] {ν : κ → Type}

/-- Erasing a list of keys leaves exactly the bindings of the other keys, by induction
over the erased keys.
-/
theorem lookup_foldl_erase (gone : List κ) (map : AList ν) (key : κ)
    : (gone.foldl (fun map key => map.erase key) map).lookup key
      = if key ∈ gone then none else map.lookup key := by
  induction gone generalizing map with
  | nil => simp
  | cons head rest ih =>
      rw [List.foldl_cons, ih]
      by_cases same : key = head
      · subst same
        simp
      · simp [same, AList.lookup_erase_ne same]

/-- Erasing a list of keys filters the key list, by induction over the erased keys. -/
theorem keys_foldl_erase (gone : List κ) (map : AList ν)
    : (gone.foldl (fun map key => map.erase key) map).keys
      = map.keys.filter (fun key => key ∉ gone) := by
  induction gone generalizing map with
  | nil => simp
  | cons head rest ih =>
      rw [List.foldl_cons, ih, AList.keys_erase, map.keys_nodup.erase_eq_filter,
        List.filter_filter]
      apply List.filter_congr
      intro key _
      simp only [List.mem_cons, not_or, Bool.decide_and,
        decide_not]
      rw [Bool.and_comm]
      rfl

/-- Two tests that agree except at one key of a duplicate-free list count alike, up to
their values at that key. Witness: induction over the list, splitting at the key.
-/
theorem countP_agree_off {α : Type} {old new : α → Bool} {keys : List α} {key : α}
    (unique : keys.Nodup) (member : key ∈ keys)
    (agree : ∀ other, other ≠ key → old other = new other)
    : keys.countP new + (old key).toNat = keys.countP old + (new key).toNat := by
  induction keys with
  | nil => simp at member
  | cons head rest ih =>
      obtain ⟨absent, restUnique⟩ := List.nodup_cons.mp unique
      rw [List.countP_cons, List.countP_cons]
      by_cases same : key = head
      · subst same
        have rest_eq : rest.countP new = rest.countP old := by
          apply List.countP_congr
          intro other inside
          rw [agree other (fun equal => absent (equal ▸ inside))]
        rw [rest_eq]
        cases old key <;> cases new key <;> simp
      · have inside := (List.mem_cons.mp member).resolve_left same
        have tail := ih restUnique inside
        rw [agree head (Ne.symm same)]
        omega

theorem countP_agree {α : Type} {old new : α → Bool} {keys : List α}
    (agree : ∀ key ∈ keys, old key = new key)
    : keys.countP new = keys.countP old := by
  apply List.countP_congr
  intro key inside
  rw [agree key inside]

theorem countP_erase_add {α : Type} [DecidableEq α] {test : α → Bool} {keys : List α}
    {key : α} (member : key ∈ keys)
    : (keys.erase key).countP test + (test key).toNat = keys.countP test := by
  rw [(List.perm_cons_erase member).countP_eq, List.countP_cons]
  cases test key <;> simp

end GoREgo.Lib
