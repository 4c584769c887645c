import Mathlib.Algebra.Order.Ring.Int
import Mathlib.Logic.Basic

/-! Programs over a state that return a value or end with an error, and the rules for what
holds when they end. A failed program keeps the state that it reached.
-/

namespace GoREgo.Lib

variable {ε σ α β : Type} {good : α → σ → Prop} {bad : ε → σ → Prop} {s : σ}

def finalState : EStateM.Result ε σ α → σ
  | .ok _ s => s
  | .error _ s => s

theorem run_bind_ok {first : EStateM ε σ α} {next : α → EStateM ε σ β} {value : α} {s' : σ}
    (ran : first s = .ok value s')
    : (first >>= next) s = next value s' := by
  change EStateM.bind first next s = _
  rw [EStateM.bind, ran]

theorem run_bind_error {first : EStateM ε σ α} {next : α → EStateM ε σ β} {err : ε} {s' : σ}
    (ran : first s = .error err s')
    : (first >>= next) s = .error err s' := by
  change EStateM.bind first next s = _
  rw [EStateM.bind, ran]

/-- How a run ends: a returned value and its state are `good`, an error and its state `bad`. -/
def Ends (program : EStateM ε σ α) (good : α → σ → Prop) (bad : ε → σ → Prop) (s : σ) : Prop :=
  match program s with
  | .ok value s' => good value s'
  | .error err s' => bad err s'

namespace Ends

variable {program : EStateM ε σ α}

theorem intro (good_ : ∀ value s', program s = .ok value s' → good value s')
    (bad_ : ∀ err s', program s = .error err s' → bad err s')
    : Ends program good bad s := by
  unfold Ends
  cases ran : program s with
  | ok value s' => exact good_ value s' ran
  | error err s' => exact bad_ err s' ran

theorem of_eq_ok {value : α} {s' : σ} (ends : Ends program good bad s)
    (ran : program s = .ok value s')
    : good value s' := by
  rwa [Ends, ran] at ends

theorem of_eq_error {err : ε} {s' : σ} (ends : Ends program good bad s)
    (ran : program s = .error err s')
    : bad err s' := by
  rwa [Ends, ran] at ends

theorem returns (ends : Ends program good (fun _ _ => False) s)
    : ∃ value s', program s = .ok value s' ∧ good value s' := by
  unfold Ends at ends
  cases ran : program s with
  | ok value s' =>
      rw [ran] at ends
      exact ⟨value, s', rfl, ends⟩
  | error err s' =>
      rw [ran] at ends
      exact ends.elim

theorem mono {good' : α → σ → Prop} {bad' : ε → σ → Prop} (ends : Ends program good bad s)
    (better : ∀ value s', good value s' → good' value s')
    (worse : ∀ err s', bad err s' → bad' err s')
    : Ends program good' bad' s := by
  unfold Ends at ends ⊢
  cases ran : program s with
  | ok value s' =>
      rw [ran] at ends
      exact better value s' ends
  | error err s' =>
      rw [ran] at ends
      exact worse err s' ends

theorem imp {good' : α → σ → Prop} (ends : Ends program good bad s)
    (better : ∀ value s', good value s' → good' value s')
    : Ends program good' bad s :=
  ends.mono better (fun _ _ holds => holds)

theorem pure {value : α} (holds : good value s) : Ends (pure value) good bad s :=
  holds

theorem throw {err : ε} (holds : bad err s) : Ends (throw err) good bad s :=
  holds

/-- Two programs in turn: the first one leaves what the second one needs. -/
theorem bind {first : EStateM ε σ α} {next : α → EStateM ε σ β} {good : β → σ → Prop}
    (ends : Ends first (fun value s' => Ends (next value) good bad s') bad s)
    : Ends (first >>= next) good bad s := by
  unfold Ends at ends ⊢
  change match EStateM.bind first next s with
    | .ok value s' => good value s'
    | .error err s' => bad err s'
  unfold EStateM.bind
  cases ran : first s with
  | ok value s' =>
      rw [ran] at ends
      exact ends
  | error err s' =>
      rw [ran] at ends
      exact ends

/-- Whatever the first program does, the second one ends well or fails. -/
theorem bind_any {first : EStateM ε σ α} {next : α → EStateM ε σ β} {good : β → σ → Prop}
    (ends : ∀ value s', Ends (next value) good (fun _ _ => True) s')
    : Ends (first >>= next) good (fun _ _ => True) s :=
  .bind (.intro (fun value s' _ => ends value s') (fun _ _ _ => trivial))

theorem adaptExcept {change : ε → ε} (ends : Ends program good (fun err => bad (change err)) s)
    : Ends (program.adaptExcept change) good bad s := by
  unfold Ends at ends ⊢
  unfold EStateM.adaptExcept
  cases ran : program s with
  | ok value s' =>
      rw [ran] at ends
      exact ends
  | error err s' =>
      rw [ran] at ends
      exact ends

/-- A loop that builds a value keeps an invariant of the items that are left and of the value,
by induction on the items.
-/
theorem forM {items : List α} {body : α → EStateM ε σ PUnit} (holds : List α → σ → Prop)
    (start : holds items s)
    (each : ∀ item rest s, holds (item :: rest) s →
      Ends (body item) (fun _ s' => holds rest s') bad s)
    : Ends (ForM.forM items body) (fun _ s' => holds [] s') bad s := by
  induction items generalizing s with
  | nil => exact start
  | cons item rest ih =>
      rw [List.forM_cons]
      exact .bind ((each item rest s start).imp (fun _ _ holds => ih holds))

theorem foldlM {items : List α} {body : β → α → EStateM ε σ β} {initial : β}
    (holds : List α → β → σ → Prop) (start : holds items initial s)
    (each : ∀ item rest value s, holds (item :: rest) value s →
      Ends (body value item) (fun value' s' => holds rest value' s') bad s)
    : Ends (items.foldlM body initial) (fun value s' => holds [] value s') bad s := by
  induction items generalizing s initial with
  | nil => exact start
  | cons item rest ih =>
      rw [List.foldlM_cons]
      exact .bind ((each item rest initial s start).imp (fun _ _ holds => ih holds))

end Ends

end GoREgo.Lib
