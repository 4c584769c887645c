import Mathlib.Algebra.Order.Ring.Int
import Mathlib.Data.List.TakeWhile

/-! Network addresses of the form `host:port`, as Go's `net` package splits and joins them.
A host with colons stands in brackets.
-/

namespace GoREgo.Lib

def splitLast {α : Type} [DecidableEq α] (separator : α) : List α → Option (List α × List α)
  | [] => none
  | head :: rest =>
      match splitLast separator rest with
      | some (before, after) => some (head :: before, after)
      | none => if head = separator then some ([], rest) else none

section SplitLast

variable {α : Type} [DecidableEq α] {separator : α} {before after list : List α}

theorem splitLast_eq_none_iff : splitLast separator list = none ↔ separator ∉ list := by
  induction list with
  | nil => simp [splitLast]
  | cons head rest ih =>
      rw [List.mem_cons, not_or, ← ih]
      cases found : splitLast separator rest with
      | some parts => simp [splitLast, found]
      | none => simp [splitLast, found, eq_comm]

theorem splitLast_append (last : separator ∉ after)
    : splitLast separator (before ++ separator :: after) = some (before, after) := by
  induction before with
  | nil => simp [splitLast, splitLast_eq_none_iff.mpr last]
  | cons head rest ih => simp [splitLast, ih]

/-- A split is at a separator that no other follows, by list induction. -/
theorem splitLast_eq_some (split : splitLast separator list = some (before, after))
    : list = before ++ separator :: after ∧ separator ∉ after := by
  induction list generalizing before with
  | nil => cases split
  | cons head rest ih =>
      cases found : splitLast separator rest with
      | some parts =>
          simp only [splitLast, found, Option.some.injEq, Prod.mk.injEq] at split
          obtain ⟨rfl, rfl⟩ := split
          obtain ⟨joined, last⟩ := ih found
          exact ⟨by rw [joined, List.cons_append], last⟩
      | none =>
          simp only [splitLast, found, Option.ite_none_right_eq_some, Option.some.injEq,
            Prod.mk.injEq] at split
          obtain ⟨rfl, rfl, rfl⟩ := split
          exact ⟨rfl, splitLast_eq_none_iff.mp found⟩

end SplitLast

/-- The host in front of the last colon: what the brackets hold, or all of it when it has no
colon.
-/
def unbracket : List Char → Option (List Char)
  | '[' :: inner =>
      if inner = inner.takeWhile (· ≠ ']') ++ [']'] then some (inner.takeWhile (· ≠ ']')) else none
  | host => if ':' ∈ host then none else some host

def Plain (chars : List Char) : Prop :=
  '[' ∉ chars ∧ ']' ∉ chars

instance (chars : List Char) : Decidable (Plain chars) :=
  inferInstanceAs (Decidable (_ ∧ _))

/-- `net.SplitHostPort`, without the text of its error. -/
def splitHostPort (address : String) : Option (String × String) :=
  match splitLast ':' address.toList with
  | none => none
  | some (before, port) =>
      match unbracket before with
      | none => none
      | some host =>
          if Plain host ∧ Plain port then
            some (String.ofList host, String.ofList port)
          else
            none

/-- `net.JoinHostPort`. -/
def joinHostPort (host port : String) : String :=
  if ':' ∈ host.toList then "[" ++ host ++ "]:" ++ port else host ++ ":" ++ port

theorem unbracket_bracketed {host : List Char} (plain : Plain host)
    : unbracket ('[' :: host ++ [']']) = some host := by
  have held : (host ++ [']']).takeWhile (· ≠ ']') = host := by
    rw [List.takeWhile_append_of_pos]
    · simp
    · intro c member
      simpa using fun (same : c = ']') => plain.2 (same ▸ member)
  simp only [unbracket, List.cons_append, held, if_true]

theorem unbracket_plain {host : List Char} (plain : Plain host) (single : ':' ∉ host)
    : unbracket host = some host := by
  unfold unbracket
  split
  next inner => exact absurd List.mem_cons_self plain.1
  next => rw [if_neg single]

/-- A host and a port come apart again after they were joined. -/
theorem splitHostPort_joinHostPort {host port : String} (plainHost : Plain host.toList)
    (plainPort : Plain port.toList) (single : ':' ∉ port.toList)
    : splitHostPort (joinHostPort host port) = some (host, port) := by
  by_cases colons : ':' ∈ host.toList
  · have chars : (joinHostPort host port).toList
        = ('[' :: host.toList ++ [']']) ++ ':' :: port.toList := by
      simp [joinHostPort, colons]
    simp only [splitHostPort, chars, splitLast_append single, unbracket_bracketed plainHost]
    simp [plainHost, plainPort]
  · have chars : (joinHostPort host port).toList = host.toList ++ ':' :: port.toList := by
      simp [joinHostPort, colons]
    simp only [splitHostPort, chars, splitLast_append single, unbracket_plain plainHost colons]
    simp [plainHost, plainPort]

/-- What an address splits into has no brackets, and the port no colon. -/
theorem plain_of_splitHostPort {address host port : String}
    (split : splitHostPort address = some (host, port))
    : Plain host.toList ∧ Plain port.toList ∧ ':' ∉ port.toList := by
  unfold splitHostPort at split
  split at split
  next => cases split
  next before after found =>
    split at split
    next => cases split
    next inner _ =>
      split at split
      next plain =>
        simp only [Option.some.injEq, Prod.mk.injEq] at split
        obtain ⟨rfl, rfl⟩ := split
        simpa using ⟨plain.1, plain.2, (splitLast_eq_some found).2⟩
      next => cases split

end GoREgo.Lib
