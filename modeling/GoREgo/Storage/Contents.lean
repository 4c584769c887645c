import GoREgo.Lib.Machine
import GoREgo.Storage.Effects
import Mathlib.Data.Set.Finite.Basic

/-! The contents of a CAS directory that clients can create: any number of `Put` calls on one
`LocalStore`, as `ByteStream.Write` and `BatchUpdateBlobs` make them, in any interleaving. Each
call has a digest and a reader of the client's choice, and nothing compares the two beyond the
number of bytes.
-/

namespace GoREgo.LocalStore

open Lib

/-- The CAS directory, and where each `Put` call stands. -/
structure Contents (Call : Type) where
  files : Files
  puts : Call → Option (Digest × Put)

namespace Contents

variable {Call : Type}

/-- One event: a call begins, its reader gives data or ends, or a filesystem call returns. -/
inductive Label (Call : Type)
  | begin (call : Call) (digest : Digest)
  | write (call : Call) (data : Bytes)
  | endCopy (call : Call) (err : IoError)
  | disk (call : Call) (outcome : Outcome)

def new : Contents Call where
  files := fun _ => none
  puts := fun _ => none

section Steps

variable [DecidableEq Call]

def advance (s : Contents Call) (call : Call) (move : Digest → Put → Option (Files × Put))
    : Option (Contents Call) :=
  match s.puts call with
  | none => none
  | some (digest, put) =>
      (move digest put).map (fun moved =>
        { files := moved.1, puts := Function.update s.puts call (some (digest, moved.2)) })

def step (s : Contents Call) : Label Call → Option (Contents Call)
  | .begin call digest =>
      match s.puts call with
      | none => some { s with puts := Function.update s.puts call (some (digest, .mkdirAll)) }
      | some _ => none
  | .write call data =>
      s.advance call (fun _ put => (put.write data).map (fun put => (s.files, put)))
  | .endCopy call err =>
      s.advance call (fun digest put => (put.endCopy digest err).map (fun put => (s.files, put)))
  | .disk call outcome => s.advance call (fun digest put => put.disk digest s.files outcome)

def machine : Machine (Contents Call) (Label Call) where
  initial s := s = new
  step := step

variable {s s' : Contents Call}

theorem advance_files {call : Call} {move : Digest → Put → Option (Files × Put)}
    (taken : s.advance call move = some s')
    : ∃ digest put put', move digest put = some (s'.files, put') := by
  unfold advance at taken
  split at taken
  · cases taken
  next digest put _ =>
    obtain ⟨⟨files, put'⟩, moved, rfl⟩ := Option.map_eq_some_iff.mp taken
    exact ⟨digest, put, put', moved⟩

theorem step_files {label : Label Call} (taken : s.step label = some s')
    : s'.files = s.files
      ∨ ∃ hash data, s'.files = Function.update s.files hash (some data) := by
  cases label with
  | begin call digest =>
      unfold step at taken
      dsimp only at taken
      split at taken
      · obtain rfl := Option.some.inj taken
        exact Or.inl rfl
      · cases taken
  | write call data =>
      obtain ⟨digest, put, put', moved⟩ := advance_files taken
      obtain ⟨_, _, same⟩ := Option.map_eq_some_iff.mp moved
      exact Or.inl (Prod.mk.inj same).1.symm
  | endCopy call err =>
      obtain ⟨digest, put, put', moved⟩ := advance_files taken
      obtain ⟨_, _, same⟩ := Option.map_eq_some_iff.mp moved
      exact Or.inl (Prod.mk.inj same).1.symm
  | disk call outcome =>
      obtain ⟨digest, put, put', moved⟩ := advance_files taken
      rcases Put.disk_cases moved with ⟨written, -, -, -, stored⟩ | ⟨same, -, -⟩
      · exact Or.inr ⟨_, _, stored⟩
      · exact Or.inl same

def Bounded (s : Contents Call) : Prop :=
  { hash | s.files hash ≠ none }.Finite

theorem bounded_inductive
    : (machine : Machine (Contents Call) (Label Call)).Inductive Machine.anyStep Bounded where
  start s initial := by
    subst initial
    have empty : { hash | (new : Contents Call).files hash ≠ none } = ∅ :=
      Set.eq_empty_of_forall_notMem (fun _ stored => stored rfl)
    rw [Bounded, empty]
    exact Set.finite_empty
  keeps s label s' bounded _ taken := by
    rcases step_files taken with same | ⟨hash, data, stored⟩
    · rwa [Bounded, same]
    · refine (bounded.insert hash).subset (fun other held => ?_)
      by_cases here : other = hash
      · exact Or.inl here
      · have held : s'.files other ≠ none := held
        rw [stored, Function.update_of_ne here] at held
        exact Or.inr held

end Steps

end Contents

end GoREgo.LocalStore
