import GoREgo.Lib.Slots

/-! Labelled machines and their finite runs.
A label carries every choice that the machine leaves open, so one step is a partial
function and a whole schedule can be replayed from its list of labels.
-/

namespace GoREgo.Lib

/-- A state type with its starting states and one partial step for each label. -/
structure Machine (σ ι : Type) where
  initial : σ → Prop
  step : σ → ι → Option σ

namespace Machine

variable {σ ι : Type} {m : Machine σ ι} {guard weaker : σ → ι → Prop}

/-- `m.Run guard s labels s'` takes `labels` in order from `s` to `s'`, and each label
meets `guard` in the state it is taken from.
-/
inductive Run (m : Machine σ ι) (guard : σ → ι → Prop) : σ → List ι → σ → Prop
  | nil (s : σ) : Run m guard s [] s
  | cons {s mid s' : σ} {label : ι} {rest : List ι} (allowed : guard s label)
    (taken : m.step s label = some mid) (tail : Run m guard mid rest s')
    : Run m guard s (label :: rest) s'

def anyStep : σ → ι → Prop := fun _ _ => True

variable {s s' : σ} {labels : List ι}

/-- Every step kept by the guard preserves a property, so a whole guarded run does.
Witness: induction along the run, carrying the property forward.
-/
theorem Run.preserves {P : σ → Prop} (run : m.Run guard s labels s')
    (keeps : ∀ s label s', P s → guard s label → m.step s label = some s' → P s') (start : P s)
    : P s' := by
  induction run with
  | nil => exact start
  | cons allowed taken _ ih => exact ih (keeps _ _ _ start allowed taken)

theorem Run.mono (run : m.Run guard s labels s')
    (implies : ∀ s label, guard s label → weaker s label)
    : m.Run weaker s labels s' := by
  induction run with
  | nil => exact .nil _
  | cons allowed taken _ ih => exact .cons (implies _ _ allowed) taken ih

theorem Run.unguarded (run : m.Run guard s labels s')
    : m.Run anyStep s labels s' :=
  run.mono (fun _ _ _ => trivial)

theorem Run.append {mid : σ} {first second : List ι} (head : m.Run guard s first mid)
    (tail : m.Run guard mid second s')
    : m.Run guard s (first ++ second) s' := by
  induction head with
  | nil => exact tail
  | cons allowed taken _ ih => exact .cons allowed taken (ih tail)

theorem Run.guarded (run : m.Run anyStep s labels s')
    (allowed : ∀ label ∈ labels, ∀ s, guard s label)
    : m.Run guard s labels s' := by
  induction run with
  | nil => exact .nil _
  | cons _ taken _ ih =>
      rw [List.forall_mem_cons] at allowed
      exact .cons (allowed.1 _) taken (ih allowed.2)

theorem Run.snoc {mid : σ} {label : ι} (run : m.Run guard s labels mid) (allowed : guard mid label)
    (taken : m.step mid label = some s')
    : m.Run guard s (labels ++ [label]) s' :=
  run.append (.cons allowed taken (.nil s'))

def Reachable (m : Machine σ ι) (guard : σ → ι → Prop) (s : σ) : Prop :=
  ∃ start labels, m.initial start ∧ m.Run guard start labels s

theorem Reachable.start {s : σ} (initial : m.initial s) : m.Reachable guard s :=
  ⟨s, [], initial, .nil s⟩

theorem Reachable.next {label : ι} (reach : m.Reachable guard s) (allowed : guard s label)
    (taken : m.step s label = some s')
    : m.Reachable guard s' := by
  obtain ⟨start, labels, initial, run⟩ := reach
  exact ⟨start, labels ++ [label], initial, run.snoc allowed taken⟩

theorem Reachable.after (reach : m.Reachable guard s) (run : m.Run guard s labels s')
    : m.Reachable guard s' := by
  obtain ⟨start, earlier, initial, before⟩ := reach
  exact ⟨start, earlier ++ labels, initial, before.append run⟩

/-- An inductive invariant relative to a guard: it holds at the start and every permitted
step keeps it.
-/
structure Inductive (m : Machine σ ι) (guard : σ → ι → Prop) (P : σ → Prop) : Prop where
  start : ∀ s, m.initial s → P s
  keeps : ∀ s label s', P s → guard s label → m.step s label = some s' → P s'

theorem Inductive.reachable {P : σ → Prop} (inv : m.Inductive guard P) (reach : m.Reachable guard s)
    : P s := by
  obtain ⟨start, labels, initial, run⟩ := reach
  exact run.preserves inv.keeps (inv.start start initial)

theorem Inductive.mono {P : σ → Prop} (inv : m.Inductive weaker P)
    (implies : ∀ s label, guard s label → weaker s label)
    : m.Inductive guard P where
  start := inv.start
  keeps s label s' holds allowed taken :=
    inv.keeps s label s' holds (implies s label allowed) taken

theorem Inductive.restrict {P : σ → Prop} (inv : m.Inductive anyStep P)
    : m.Inductive guard P :=
  inv.mono (fun _ _ _ => trivial)

theorem Inductive.strengthen {P Q : σ → Prop} (base : m.Inductive guard P)
    (start : ∀ s, m.initial s → Q s)
    (keeps
      : ∀ s label s', P s → Q s → guard s label → m.step s label = some s' → Q s')
    : m.Inductive guard (fun s => P s ∧ Q s) where
  start s initial := ⟨base.start s initial, start s initial⟩
  keeps s label s' both allowed taken :=
    ⟨base.keeps s label s' both.1 allowed taken,
      keeps s label s' both.1 both.2 allowed taken⟩

/-- A machine whose invariant always leaves a permitted step that lowers a rank, until it is
done, can finish from every state with the invariant. Witness: induction on the rank.
-/
theorem exists_run_to {P done : σ → Prop} (rank : σ → Nat)
    (keeps : ∀ s label s', P s → guard s label → m.step s label = some s' → P s') (advances
      : ∀ s, P s → ¬ done s
          → ∃ label s', guard s label ∧ m.step s label = some s' ∧ rank s' < rank s) (holds : P s)
    : ∃ labels s', m.Run guard s labels s' ∧ done s' := by
  induction bound : rank s using Nat.strongRecOn generalizing s with
  | ind n ih =>
      by_cases finished : done s
      · exact ⟨[], s, .nil s, finished⟩
      · obtain ⟨label, mid, allowed, taken, lower⟩ := advances s holds finished
        obtain ⟨labels, s', run, ended⟩ :=
          ih (rank mid) (bound ▸ lower) (keeps s label mid holds allowed taken) rfl
        exact ⟨label :: labels, s', .cons allowed taken run, ended⟩

/-- When every permitted step lowers a rank, a run is no longer than the rank it starts with,
by run induction.
-/
theorem Run.length_le {rank : σ → Nat}
    (lowers : ∀ s label s', guard s label → m.step s label = some s' → rank s' < rank s)
    (run : m.Run guard s labels s')
    : labels.length + rank s' ≤ rank s := by
  induction run with
  | nil => exact Nat.le_of_eq (Nat.zero_add _)
  | cons allowed taken _ ih =>
      have lower := lowers _ _ _ allowed taken
      rw [List.length_cons]
      omega

/-- Replay a list of labels, stopping with no result at a label that is not enabled. -/
def exec (m : Machine σ ι) : σ → List ι → Option σ
  | s, [] => some s
  | s, label :: rest => (m.step s label).bind (fun next => m.exec next rest)

/-- Replay a list of labels, stopping with no result at a label that breaks the guard. -/
def execIf (m : Machine σ ι) (guard : σ → ι → Prop) [∀ s label, Decidable (guard s label)]
    : σ → List ι → Option σ
  | s, [] => some s
  | s, label :: rest =>
      if guard s label then
        (m.step s label).bind (fun next => m.execIf guard next rest)
      else
        none

theorem exec_run (replay : m.exec s labels = some s')
    : m.Run anyStep s labels s' := by
  induction labels generalizing s with
  | nil =>
      obtain rfl := Option.some.inj replay
      exact .nil s
  | cons label rest ih =>
      obtain ⟨mid, taken, later⟩ := Option.bind_eq_some_iff.mp replay
      exact .cons trivial taken (ih later)

/-- A successful guarded replay is a run under that guard, by induction over its labels.
-/
theorem execIf_run [∀ s label, Decidable (guard s label)]
    (replay : m.execIf guard s labels = some s')
    : m.Run guard s labels s' := by
  induction labels generalizing s with
  | nil =>
      obtain rfl := Option.some.inj replay
      exact .nil s
  | cons label rest ih =>
      by_cases allowed : guard s label
      · simp only [execIf, allowed, if_true] at replay
        obtain ⟨mid, taken, later⟩ := Option.bind_eq_some_iff.mp replay
        exact .cons allowed taken (ih later)
      · simp [execIf, allowed] at replay

theorem exists_run_of_exec (m : Machine σ ι) (s : σ) (labels : List ι) (test : σ → Bool)
    (passes : (m.exec s labels).any test = true)
    : ∃ s', m.Run anyStep s labels s' ∧ test s' = true := by
  obtain ⟨s', replay, holds⟩ := (Option.any_eq_true _ _).mp passes
  exact ⟨s', exec_run replay, holds⟩

theorem exists_run_of_execIf (m : Machine σ ι) (guard : σ → ι → Prop)
    [∀ s label, Decidable (guard s label)] (s : σ) (labels : List ι) (test : σ → Bool)
    (passes : (m.execIf guard s labels).any test = true)
    : ∃ s', m.Run guard s labels s' ∧ test s' = true := by
  obtain ⟨s', replay, holds⟩ := (Option.any_eq_true _ _).mp passes
  exact ⟨s', execIf_run replay, holds⟩

end Machine

end GoREgo.Lib
