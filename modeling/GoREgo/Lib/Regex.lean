import Mathlib.Algebra.Order.Ring.Int
import Mathlib.Data.List.Basic

/-! Regular expressions with groups, and leftmost-first search: the earliest position at which
there is a match, and there the match that a backtracking matcher finds first.
-/

namespace GoREgo.Lib

/-- Regular expressions. Repetition is greedy, of one character class. -/
inductive Regex
  | start
  | stop
  | literal (chars : List Char)
  | one (keep : Char → Bool)
  | many (keep : Char → Bool)
  | seq (first second : Regex)
  | either (first second : Regex)
  | group (inner : Regex)

namespace Regex

def plus (keep : Char → Bool) : Regex :=
  .seq (.one keep) (.many keep)

/-- Where a matcher is: what it has read, the last character first, what is left, and the texts of
the groups that it has closed.
-/
structure Cursor where
  before : List Char
  rest : List Char
  groups : List (List Char)
deriving DecidableEq, Repr

def Cursor.after (cursor : Cursor) (text rest : List Char) (groups : List (List Char)) : Cursor where
  before := text.reverse ++ cursor.before
  rest := rest
  groups := cursor.groups ++ groups

def repeats (keep : Char → Bool) : List Char → List (List Char × List Char)
  | [] => [([], [])]
  | c :: rest =>
      (if keep c then (repeats keep rest).map (fun split => (c :: split.1, split.2)) else [])
        ++ [([], c :: rest)]

/-- The ways to match from a cursor on, in the order in which backtracking finds them. -/
def ways : Regex → Cursor → List Cursor
  | .start, cursor => if cursor.before = [] then [cursor] else []
  | .stop, cursor => if cursor.rest = [] then [cursor] else []
  | .literal chars, cursor =>
      if chars <+: cursor.rest then
        [cursor.after chars (cursor.rest.drop chars.length) []]
      else
        []
  | .one keep, cursor =>
      match cursor.rest with
      | [] => []
      | c :: rest => if keep c then [cursor.after [c] rest []] else []
  | .many keep, cursor =>
      (repeats keep cursor.rest).map (fun split => cursor.after split.1 split.2 [])
  | .seq first second, cursor => (first.ways cursor).flatMap second.ways
  | .either first second, cursor => first.ways cursor ++ second.ways cursor
  | .group inner, cursor =>
      (inner.ways cursor).map (fun ended =>
        let length := cursor.rest.length - ended.rest.length
        { ended with groups := ended.groups ++ [cursor.rest.take length] })

/-- The groups of the first match at the earliest position from here on. -/
def findFrom (regex : Regex) (before : List Char) : List Char → Option (List (List Char))
  | [] => ((regex.ways ⟨before, [], []⟩).head?).map Cursor.groups
  | c :: rest =>
      match (regex.ways ⟨before, c :: rest, []⟩).head? with
      | some ended => some ended.groups
      | none => regex.findFrom (c :: before) rest

def find (regex : Regex) (text : List Char) : Option (List (List Char)) :=
  regex.findFrom [] text

/-- An expression spells a text, with the texts of its groups, between what comes before, the last
character first, and what is left.
-/
def Spells : Regex → List Char → List Char → List Char → List (List Char) → Prop
  | .start, before, text, _, groups => before = [] ∧ text = [] ∧ groups = []
  | .stop, _, text, rest, groups => rest = [] ∧ text = [] ∧ groups = []
  | .literal chars, _, text, _, groups => text = chars ∧ groups = []
  | .one keep, _, text, _, groups => (∃ c, text = [c] ∧ keep c = true) ∧ groups = []
  | .many keep, _, text, _, groups => (∀ c ∈ text, keep c = true) ∧ groups = []
  | .seq first second, before, text, rest, groups =>
      ∃ text₁ text₂ groups₁ groups₂, text = text₁ ++ text₂ ∧ groups = groups₁ ++ groups₂
        ∧ first.Spells before text₁ (text₂ ++ rest) groups₁
        ∧ second.Spells (text₁.reverse ++ before) text₂ rest groups₂
  | .either first second, before, text, rest, groups =>
      first.Spells before text rest groups ∨ second.Spells before text rest groups
  | .group inner, before, text, rest, groups =>
      ∃ closed, inner.Spells before text rest closed ∧ groups = closed ++ [text]

variable {keep : Char → Bool} {regex : Regex} {before text rest : List Char}
  {groups : List (List Char)}

theorem spells_plus
    : (plus keep).Spells before text rest groups
      ↔ text ≠ [] ∧ (∀ c ∈ text, keep c = true) ∧ groups = [] := by
  simp only [plus, Spells]
  constructor
  · rintro ⟨_, more, _, _, rfl, rfl, ⟨⟨c, rfl, kept⟩, rfl⟩, all, rfl⟩
    exact ⟨nofun, List.forall_mem_cons.mpr ⟨kept, all⟩, rfl⟩
  · rintro ⟨nonempty, all, rfl⟩
    obtain ⟨c, more, rfl⟩ := List.exists_cons_of_ne_nil nonempty
    obtain ⟨kept, all⟩ := List.forall_mem_cons.mp all
    exact ⟨[c], more, [], [], rfl, rfl, ⟨⟨c, rfl, kept⟩, rfl⟩, all, rfl⟩

/-- Greedy repetition can read every text of the class, by induction on what is left. -/
theorem mem_repeats {left : List Char}
    : (text, rest) ∈ repeats keep left ↔ left = text ++ rest ∧ ∀ c ∈ text, keep c = true := by
  induction left generalizing text with
  | nil =>
      simp only [repeats, List.mem_singleton, Prod.mk.injEq]
      constructor
      · rintro ⟨rfl, rfl⟩
        exact ⟨rfl, fun _ => nofun⟩
      · rintro ⟨empty, -⟩
        exact List.append_eq_nil_iff.mp empty.symm
  | cons c left ih =>
      rw [repeats, List.mem_append, List.mem_singleton, Prod.mk.injEq]
      constructor
      · rintro (held | ⟨rfl, rfl⟩)
        · split at held
          next kept =>
            obtain ⟨⟨more, rest'⟩, listed, same⟩ := List.mem_map.mp held
            obtain ⟨rfl, rfl⟩ := Prod.mk.inj same
            obtain ⟨rfl, all⟩ := ih.mp listed
            exact ⟨rfl, List.forall_mem_cons.mpr ⟨kept, all⟩⟩
          next => cases held
        · exact ⟨rfl, fun _ => nofun⟩
      · rintro ⟨split, all⟩
        cases text with
        | nil => exact .inr ⟨rfl, split.symm⟩
        | cons d more =>
            obtain ⟨rfl, rfl⟩ := List.cons.inj split
            obtain ⟨kept, all⟩ := List.forall_mem_cons.mp all
            left
            rw [if_pos kept]
            exact List.mem_map.mpr ⟨(more, rest), ih.mpr ⟨rfl, all⟩, rfl⟩

/-- The ways to match are the texts that the expression spells, by induction on the expression. -/
theorem mem_ways {cursor ended : Cursor}
    : ended ∈ regex.ways cursor
      ↔ ∃ text groups, cursor.rest = text ++ ended.rest
        ∧ ended = cursor.after text ended.rest groups
        ∧ regex.Spells cursor.before text ended.rest groups := by
  induction regex generalizing cursor ended with
  | start =>
      simp only [ways, Spells]
      constructor
      · intro held
        split at held
        next first =>
          obtain rfl := List.mem_singleton.mp held
          exact ⟨[], [], rfl, by simp [Cursor.after], first, rfl, rfl⟩
        next => cases held
      · rintro ⟨_, _, split, same, first, rfl, rfl⟩
        rw [if_pos first, List.mem_singleton, same, ← List.nil_append ended.rest, ← split]
        simp [Cursor.after]
  | stop =>
      simp only [ways, Spells]
      constructor
      · intro held
        split at held
        next last =>
          obtain rfl := List.mem_singleton.mp held
          exact ⟨[], [], rfl, by simp [Cursor.after], last, rfl, rfl⟩
        next => cases held
      · rintro ⟨_, _, split, same, last, rfl, rfl⟩
        rw [List.nil_append] at split
        rw [if_pos (split.trans last), List.mem_singleton, same, ← split]
        simp [Cursor.after]
  | literal chars =>
      simp only [ways, Spells]
      constructor
      · intro held
        split at held
        next here =>
          obtain ⟨rest, split⟩ := here
          obtain rfl := List.mem_singleton.mp held
          refine ⟨chars, [], ?_, rfl, rfl, rfl⟩
          simp [Cursor.after, ← split]
        next => cases held
      · rintro ⟨_, _, split, same, rfl, rfl⟩
        rw [if_pos ⟨ended.rest, split.symm⟩, List.mem_singleton, split, List.drop_left]
        exact same
  | one keep =>
      simp only [ways, Spells]
      constructor
      · intro held
        split at held
        next => cases held
        next c rest left =>
          split at held
          next kept =>
            obtain rfl := List.mem_singleton.mp held
            exact ⟨[c], [], left, rfl, ⟨c, rfl, kept⟩, rfl⟩
          next => cases held
      · rintro ⟨_, _, split, same, ⟨c, rfl, kept⟩, rfl⟩
        rw [split]
        simp only [List.singleton_append, if_pos kept, List.mem_singleton]
        exact same
  | many keep =>
      simp only [ways, Spells, List.mem_map]
      constructor
      · rintro ⟨⟨text, rest⟩, held, rfl⟩
        obtain ⟨split, all⟩ := mem_repeats.mp held
        exact ⟨text, [], split, rfl, all, rfl⟩
      · rintro ⟨text, _, split, same, all, rfl⟩
        exact ⟨(text, ended.rest), mem_repeats.mpr ⟨split, all⟩, same.symm⟩
  | seq first second first_ih second_ih =>
      simp only [ways, Spells, List.mem_flatMap]
      constructor
      · rintro ⟨middle, firstHeld, secondHeld⟩
        obtain ⟨text₁, groups₁, split₁, same₁, spells₁⟩ := first_ih.mp firstHeld
        obtain ⟨text₂, groups₂, split₂, same₂, spells₂⟩ := second_ih.mp secondHeld
        rw [split₂] at spells₁ split₁
        rw [same₁] at same₂ spells₂
        refine ⟨text₁ ++ text₂, groups₁ ++ groups₂, ?_, ?_, text₁, text₂, groups₁, groups₂, rfl,
          rfl, spells₁, spells₂⟩
        · rw [split₁, List.append_assoc]
        · rw [same₂]
          simp [Cursor.after]
      · rintro ⟨_, _, split, same, text₁, text₂, groups₁, groups₂, rfl, rfl, spells₁, spells₂⟩
        refine ⟨cursor.after text₁ (text₂ ++ ended.rest) groups₁, ?_, ?_⟩
        · exact first_ih.mpr ⟨text₁, groups₁, by rw [split, List.append_assoc]; rfl, rfl, spells₁⟩
        · refine second_ih.mpr ⟨text₂, groups₂, rfl, ?_, spells₂⟩
          rw [same]
          simp [Cursor.after]
  | either first second first_ih second_ih =>
      simp only [ways, Spells, List.mem_append, first_ih, second_ih]
      constructor
      · rintro (⟨text, groups, split, same, spells⟩ | ⟨text, groups, split, same, spells⟩)
        · exact ⟨text, groups, split, same, .inl spells⟩
        · exact ⟨text, groups, split, same, .inr spells⟩
      · rintro ⟨text, groups, split, same, spells | spells⟩
        · exact .inl ⟨text, groups, split, same, spells⟩
        · exact .inr ⟨text, groups, split, same, spells⟩
  | group inner ih =>
      simp only [ways, Spells, List.mem_map]
      constructor
      · rintro ⟨inside, held, rfl⟩
        obtain ⟨text, groups, split, same, spells⟩ := ih.mp held
        have taken : cursor.rest.take (cursor.rest.length - inside.rest.length) = text := by
          simp [split]
        have read : inside.before = text.reverse ++ cursor.before := congrArg Cursor.before same
        have closed : inside.groups = cursor.groups ++ groups := congrArg Cursor.groups same
        refine ⟨text, groups ++ [text], split, ?_, groups, spells, rfl⟩
        dsimp only [Cursor.after]
        rw [taken, read, closed, List.append_assoc]
      · rintro ⟨text, _, split, same, groups, spells, rfl⟩
        refine ⟨cursor.after text ended.rest groups, ih.mpr ⟨text, groups, split, rfl, spells⟩, ?_⟩
        have taken : cursor.rest.take (cursor.rest.length - ended.rest.length) = text := by
          simp [split]
        dsimp only [Cursor.after]
        rw [taken, same]
        simp [Cursor.after]

/-- A search finds the groups of a match, and finds one where there is any, by induction on what is
left.
-/
theorem findFrom_spec (regex : Regex) (before left : List Char)
    : match regex.findFrom before left with
      | some groups => ∃ skipped text rest, left = skipped ++ (text ++ rest)
          ∧ regex.Spells (skipped.reverse ++ before) text rest groups
      | none => ∀ skipped text rest groups, left = skipped ++ (text ++ rest) →
          ¬ regex.Spells (skipped.reverse ++ before) text rest groups := by
  -- what the ways at one position say
  have here : ∀ (before left : List Char),
      (∀ ended, (regex.ways ⟨before, left, []⟩).head? = some ended →
        ∃ text rest, left = text ++ rest ∧ regex.Spells before text rest ended.groups)
      ∧ ((regex.ways ⟨before, left, []⟩).head? = none →
        ∀ text rest groups, left = text ++ rest → ¬ regex.Spells before text rest groups) := by
    intro before left
    refine ⟨?_, ?_⟩
    · intro ended first
      obtain ⟨text, groups, split, same, spells⟩ := mem_ways.mp (List.mem_of_head? first)
      rw [same]
      exact ⟨text, ended.rest, split, by simpa [Cursor.after] using spells⟩
    · intro empty text rest groups split spells
      have held : Cursor.after ⟨before, left, []⟩ text rest groups
          ∈ regex.ways ⟨before, left, []⟩ :=
        mem_ways.mpr ⟨text, groups, split, rfl, spells⟩
      rw [List.head?_eq_none_iff.mp empty] at held
      cases held
  induction left generalizing before with
  | nil =>
      unfold findFrom
      obtain ⟨found, missing⟩ := here before []
      cases first : (regex.ways ⟨before, [], []⟩).head? with
      | some ended =>
          obtain ⟨text, rest, split, spells⟩ := found ended first
          exact ⟨[], text, rest, split, spells⟩
      | none =>
          intro skipped text rest groups split spells
          obtain ⟨rfl, tail⟩ := List.append_eq_nil_iff.mp split.symm
          exact missing first text rest groups tail.symm spells
  | cons c left ih =>
      unfold findFrom
      obtain ⟨found, missing⟩ := here before (c :: left)
      cases first : (regex.ways ⟨before, c :: left, []⟩).head? with
      | some ended =>
          obtain ⟨text, rest, split, spells⟩ := found ended first
          exact ⟨[], text, rest, split, spells⟩
      | none =>
          have later := ih (c :: before)
          dsimp only
          cases search : regex.findFrom (c :: before) left with
          | some groups =>
              rw [search] at later
              obtain ⟨skipped, text, rest, rfl, spells⟩ := later
              exact ⟨c :: skipped, text, rest, rfl, by simpa using spells⟩
          | none =>
              rw [search] at later
              intro skipped text rest groups split spells
              cases skipped with
              | nil => exact missing first text rest groups split spells
              | cons d skipped =>
                  obtain ⟨rfl, rfl⟩ := List.cons.inj split
                  exact later skipped text rest groups rfl (by simpa using spells)

theorem find_sound {all : List Char} (found : regex.find all = some groups)
    : ∃ skipped text rest, all = skipped ++ (text ++ rest)
        ∧ regex.Spells skipped.reverse text rest groups := by
  have spec := findFrom_spec regex [] all
  rw [find] at found
  rw [found] at spec
  simpa using spec

/-- Where all matches have the same groups, a search finds them. -/
theorem find_of_unique {skipped : List Char} (spells : regex.Spells skipped.reverse text rest groups)
    (unique : ∀ skipped' text' rest' groups', skipped ++ (text ++ rest) = skipped' ++ (text' ++ rest')
      → regex.Spells skipped'.reverse text' rest' groups' → groups' = groups)
    : regex.find (skipped ++ (text ++ rest)) = some groups := by
  have spec := findFrom_spec regex [] (skipped ++ (text ++ rest))
  cases found : regex.find (skipped ++ (text ++ rest)) with
  | some groups' =>
      obtain ⟨skipped', text', rest', split, spells'⟩ := find_sound found
      rw [unique skipped' text' rest' groups' split spells']
  | none =>
      rw [find] at found
      rw [found] at spec
      exact absurd (by simpa using spells) (spec skipped text rest groups rfl)

end Regex

end GoREgo.Lib
