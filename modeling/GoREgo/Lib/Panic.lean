import Mathlib.Algebra.Order.Ring.Int
import Mathlib.Data.List.Basic

/-! Code that can panic: the two runtime errors of pointers and slices, and a rule for code that
returns.
-/

namespace GoREgo.Lib

/-- A runtime error that ends the process. -/
inductive Panic
  | nilDereference
  | sliceBounds
deriving DecidableEq, Repr

abbrev Go (α : Type) :=
  Except Panic α

namespace Go

variable {α β : Type}

def deref : Option α → Go α
  | some value => .ok value
  | none => .error .nilDereference

/-- `s[low:high]` on a string of ASCII characters. -/
def slice (s : String) (low high : Nat) : Go String :=
  if low ≤ high ∧ high ≤ s.length then
    .ok (String.ofList ((s.toList.take high).drop low))
  else
    .error .sliceBounds

/-- `buf[:high]` on a buffer with a capacity. -/
def sliceTo (capacity : Nat) (high : Int) : Go Nat :=
  if 0 ≤ high ∧ high ≤ capacity then .ok high.toNat else .error .sliceBounds

def Returns (run : Go α) : Prop :=
  ∃ value, run = .ok value

theorem Returns.pure (value : α) : Returns (.ok value) :=
  ⟨value, rfl⟩

theorem Returns.bind {first : Go α} {next : α → Go β} (returns : Returns first)
    (continues : ∀ value, first = .ok value → Returns (next value))
    : Returns (first >>= next) := by
  obtain ⟨value, rfl⟩ := returns
  exact continues value rfl

theorem bind_eq_ok {first : Go α} {next : α → Go β} {result : β}
    (ran : first >>= next = .ok result)
    : ∃ value, first = .ok value ∧ next value = .ok result := by
  cases first with
  | error panic => cases ran
  | ok value => exact ⟨value, rfl, ran⟩

theorem returns_bind_iff {first : Go α} {next : α → Go β}
    (continues : ∀ value, first = .ok value → Returns (next value))
    : Returns (first >>= next) ↔ Returns first := by
  refine ⟨?_, fun returns => returns.bind continues⟩
  rintro ⟨result, ran⟩
  obtain ⟨value, returned, -⟩ := bind_eq_ok ran
  exact ⟨value, returned⟩

theorem returns_map_iff {run : Go α} {f : α → β} : Returns (f <$> run) ↔ Returns run := by
  cases run with
  | error panic => exact iff_of_false (by rintro ⟨_, ⟨⟩⟩) (by rintro ⟨_, ⟨⟩⟩)
  | ok value => exact iff_of_true (.pure _) (.pure _)

theorem returns_deref_iff {pointer : Option α} : Returns (deref pointer) ↔ pointer.isSome = true := by
  cases pointer with
  | none => exact iff_of_false (by rintro ⟨_, ⟨⟩⟩) (by simp)
  | some value => exact iff_of_true (.pure value) rfl

theorem returns_slice {s : String} {low high : Nat} (ordered : low ≤ high)
    (within : high ≤ s.length)
    : Returns (slice s low high) := by
  rw [slice, if_pos ⟨ordered, within⟩]
  exact .pure _

theorem returns_sliceTo {capacity : Nat} {high : Int} (positive : 0 ≤ high)
    (within : high ≤ capacity)
    : Returns (sliceTo capacity high) := by
  rw [sliceTo, if_pos ⟨positive, within⟩]
  exact .pure _

end Go

end GoREgo.Lib
