import Mathlib.Algebra.Order.Ring.Int
import Mathlib.Data.List.Basic
import Mathlib.Logic.Function.Basic

/-! Go slices and maps of slices.
A slice is a header that points into an array. Appending writes into the array while it has
room, so that every header of that array sees the write, and moves to a new array otherwise.
A map whose slices are only reached through the map gives each key an array of its own; its
operations then act on the lists that the slices show.
-/

namespace GoREgo.Lib

/-- The arrays allocated so far, below `next`. -/
structure Arrays (α : Type) where
  cells : Nat → List α
  next : Nat

/-- A slice header; the nil slice points to no array. -/
structure Slice where
  array : Option Nat
  off : Nat
  len : Nat
deriving DecidableEq, Repr

def Slice.nil : Slice where
  array := none
  off := 0
  len := 0

variable {α κ : Type}

def Arrays.at (arrays : Arrays α) : Option Nat → List α
  | none => []
  | some array => arrays.cells array

namespace Slice

def view (slice : Slice) (arrays : Arrays α) : List α :=
  ((arrays.at slice.array).drop slice.off).take slice.len

def cap (slice : Slice) (arrays : Arrays α) : Nat :=
  (arrays.at slice.array).length - slice.off

/-- `slice[:i]`. -/
def upTo (slice : Slice) (i : Nat) : Slice := { slice with len := i }

/-- `slice[i:]`. -/
def since (slice : Slice) (i : Nat) : Slice :=
  { slice with off := slice.off + i, len := slice.len - i }

/-- A header of an allocated array whose elements lie inside it. -/
structure Valid (slice : Slice) (arrays : Arrays α) : Prop where
  inside : slice.off + slice.len ≤ (arrays.at slice.array).length
  allocated : ∀ {array}, slice.array = some array → array < arrays.next

variable {slice other : Slice} {arrays : Arrays α} {i : Nat}

theorem valid_nil : Slice.nil.Valid arrays :=
  ⟨Nat.le_refl 0, nofun⟩

theorem Valid.length_view (valid : slice.Valid arrays)
    : (slice.view arrays).length = slice.len := by
  have inside := valid.inside
  rw [view, List.length_take, List.length_drop]
  omega

theorem view_upTo (inside : i ≤ slice.len)
    : (slice.upTo i).view arrays = (slice.view arrays).take i := by
  simp [upTo, view, List.take_take, Nat.min_eq_left inside]

theorem view_since : (slice.since i).view arrays = (slice.view arrays).drop i := by
  simp [since, view, List.drop_take, List.drop_drop]

theorem frame {arrays' : Arrays α}
    (same : ∀ {array}, slice.array = some array → arrays'.cells array = arrays.cells array)
    : arrays'.at slice.array = arrays.at slice.array := by
  cases points : slice.array with
  | none => rfl
  | some array => exact same points

theorem Valid.upTo (valid : slice.Valid arrays) (inside : i ≤ slice.len)
    : (slice.upTo i).Valid arrays where
  inside := Nat.le_trans (Nat.add_le_add_left inside slice.off) valid.inside
  allocated := valid.allocated

end Slice

/-- The cells after `values` were written from index `i` on. -/
def overwrite (cells : List α) (i : Nat) (values : List α) : List α :=
  cells.take i ++ values ++ cells.drop (i + values.length)

theorem length_overwrite {cells values : List α} {i : Nat}
    (room : i + values.length ≤ cells.length)
    : (overwrite cells i values).length = cells.length := by
  simp only [overwrite, List.length_append, List.length_take, List.length_drop]
  omega

/-- The elements in front of a write, and then the values. -/
theorem window_overwrite {cells values : List α} {off len : Nat}
    (inside : off + len ≤ cells.length)
    : ((overwrite cells (off + len) values).drop off).take (len + values.length)
      = (cells.drop off).take len ++ values := by
  have front : ((cells.take (off + len)).drop off) = (cells.drop off).take len := by
    rw [List.drop_take, Nat.add_sub_cancel_left]
  have length : ((cells.drop off).take len).length = len := by
    rw [List.length_take, List.length_drop]
    omega
  have before : off ≤ (cells.take (off + len)).length := by
    rw [List.length_take]
    omega
  rw [overwrite, List.append_assoc, List.drop_append_of_le_length before, front,
    ← List.append_assoc]
  refine List.take_left' ?_
  rw [List.length_append, length]

namespace Arrays

/-- `append(slice, values...)`. `spare` is what the runtime adds behind the elements when it
has to allocate.
-/
def append (arrays : Arrays α) (slice : Slice) (values spare : List α) : Arrays α × Slice :=
  if slice.len + values.length ≤ slice.cap arrays then
    match slice.array with
    | none => (arrays, slice)
    | some array =>
        ({ arrays with
            cells :=
              Function.update arrays.cells array
                (overwrite (arrays.cells array) (slice.off + slice.len) values) },
          { slice with len := slice.len + values.length })
  else
    ({ cells := Function.update arrays.cells arrays.next (slice.view arrays ++ values ++ spare)
       next := arrays.next + 1 },
      { array := some arrays.next, off := 0, len := slice.len + values.length })

/-- What an append does: the new header shows the old elements and the values, it points to
the old array or to a new one, and every other array keeps its cells.
-/
structure Appended (arrays : Arrays α) (slice : Slice) (values : List α)
    (result : Arrays α × Slice)
    : Prop where
  view : result.2.view result.1 = slice.view arrays ++ values
  valid : result.2.Valid result.1
  array : result.2.array = slice.array ∨ result.2.array = some arrays.next
  next : arrays.next ≤ result.1.next
  others
    : ∀ {array}, array < arrays.next → slice.array ≠ some array
      → result.1.cells array = arrays.cells array

theorem append_spec {arrays : Arrays α} {slice : Slice} (valid : slice.Valid arrays)
    (values spare : List α)
    : Appended arrays slice values (arrays.append slice values spare) := by
  have inside := valid.inside
  unfold append
  split
  next room =>
    split
    next isNil =>
      -- the nil slice has no room, so nothing is appended to it
      simp only [Slice.cap, isNil, Arrays.at, List.length_nil, Nat.zero_sub,
        Nat.le_zero_eq, Nat.add_eq_zero_iff, List.length_eq_zero_iff] at room
      obtain ⟨_, rfl⟩ := room
      exact ⟨by simp, valid, Or.inl rfl, Nat.le_refl _, fun _ _ => rfl⟩
    next array points =>
      simp only [Slice.cap, points, Arrays.at] at room inside
      refine ⟨?_, ⟨?_, valid.allocated⟩, Or.inl rfl, Nat.le_refl _, ?_⟩
      · simp only [Slice.view, points, Arrays.at, Function.update_self]
        exact window_overwrite inside
      · simp only [points, Arrays.at, Function.update_self]
        rw [length_overwrite (by omega)]
        omega
      · intro other _ apart
        refine Function.update_of_ne (fun same => apart ?_) ..
        rw [same, points]
  next full =>
    refine ⟨?_, ⟨?_, ?_⟩, Or.inr rfl, Nat.le_succ _, ?_⟩
    · have length := valid.length_view
      generalize slice.view arrays = shown at length
      simp only [Slice.view, Arrays.at, Function.update_self, List.drop_zero]
      refine List.take_left' ?_
      rw [List.length_append, length]
    · simp only [Arrays.at, Function.update_self, List.length_append, valid.length_view]
      omega
    · intro other same
      obtain rfl := Option.some.inj same
      exact Nat.lt_succ_self _
    · intro other below _
      exact Function.update_of_ne (Nat.ne_of_lt below) ..

end Arrays

/-- A map from keys to slices; an absent key has the nil slice. -/
structure SliceMap (κ α : Type) where
  arrays : Arrays α
  slices : κ → Slice

namespace SliceMap

def empty : SliceMap κ α where
  arrays := { cells := fun _ => [], next := 0 }
  slices := fun _ => .nil

def list (map : SliceMap κ α) (key : κ) : List α := (map.slices key).view map.arrays

/-- Every slice is valid, and no two keys point to one array. -/
structure Owned (map : SliceMap κ α) : Prop where
  valid : ∀ key, (map.slices key).Valid map.arrays
  apart
    : ∀ {key other array}, (map.slices key).array = some array
      → (map.slices other).array = some array
      → key = other

theorem owned_empty : (empty : SliceMap κ α).Owned :=
  ⟨fun _ => Slice.valid_nil, nofun⟩

variable [DecidableEq κ]

/-- `map[key] = append(slice, values...)`. -/
def store (map : SliceMap κ α) (key : κ) (slice : Slice) (values spare : List α)
    : SliceMap κ α where
  arrays := (map.arrays.append slice values spare).1
  slices := Function.update map.slices key (map.arrays.append slice values spare).2

/-- `map[key] = append(map[key], value)`. -/
def add (map : SliceMap κ α) (key : κ) (value : α) (spare : List α) : SliceMap κ α :=
  map.store key (map.slices key) [value] spare

/-- The search of a value under a key, and its removal in place:
`map[key] = append(slice[:i], slice[i+1:]...)`.
-/
def remove [DecidableEq α] (map : SliceMap κ α) (key : κ) (value : α) : SliceMap κ α :=
  match (map.list key).idxOf? value with
  | none => map
  | some i =>
      map.store key ((map.slices key).upTo i) (((map.slices key).since (i + 1)).view map.arrays)
        []

/-- `delete(map, key)`. -/
def delete (map : SliceMap κ α) (key : κ) : SliceMap κ α :=
  { map with slices := Function.update map.slices key .nil }

variable {map : SliceMap κ α} {key other : κ}

theorem slices_store_self {slice : Slice} {values spare : List α}
    : (map.store key slice values spare).slices key
      = (map.arrays.append slice values spare).2 :=
  Function.update_self ..

theorem slices_store_of_ne {slice : Slice} {values spare : List α} (different : other ≠ key)
    : (map.store key slice values spare).slices other = map.slices other :=
  Function.update_of_ne different ..

/-- Storing an append to a header of the key's own array changes that key's list and no
other, and leaves the arrays apart.
-/
theorem Owned.store (owned : map.Owned) {slice : Slice}
    (valid : slice.Valid map.arrays) (own : slice.array = (map.slices key).array)
    (values spare : List α)
    : (map.store key slice values spare).Owned
      ∧ (map.store key slice values spare).list
        = Function.update map.list key (slice.view map.arrays ++ values) := by
  have appended := Arrays.append_spec valid values spare
  have kept {other : κ} (different : other ≠ key)
      : (map.store key slice values spare).arrays.at (map.slices other).array
        = map.arrays.at (map.slices other).array := by
    refine Slice.frame (fun points => appended.others ((owned.valid other).allocated points) ?_)
    exact fun same => different (owned.apart points (own ▸ same))
  have origin {other : κ} {array : Nat}
      (points : ((map.store key slice values spare).slices other).array = some array)
      : (map.slices other).array = some array ∨ (other = key ∧ array = map.arrays.next) := by
    by_cases same : other = key
    · subst same
      rw [slices_store_self] at points
      rcases appended.array with old | new
      · exact Or.inl (own ▸ old ▸ points)
      · exact Or.inr ⟨rfl, Option.some.inj (points.symm.trans new)⟩
    · rw [slices_store_of_ne same] at points
      exact Or.inl points
  refine ⟨⟨fun other => ?_, fun {other third array} first second => ?_⟩, funext fun other => ?_⟩
  · by_cases same : other = key
    · subst same
      rw [slices_store_self]
      exact appended.valid
    · have old := owned.valid other
      rw [slices_store_of_ne same]
      exact ⟨kept same ▸ old.inside,
        fun points => Nat.lt_of_lt_of_le (old.allocated points) appended.next⟩
  · rcases origin first with old | ⟨rfl, rfl⟩
    · rcases origin second with other | ⟨rfl, rfl⟩
      · exact owned.apart old other
      · exact (Nat.lt_irrefl _ ((owned.valid _).allocated old)).elim
    · rcases origin second with other | ⟨rfl, _⟩
      · exact (Nat.lt_irrefl _ ((owned.valid _).allocated other)).elim
      · rfl
  · by_cases same : other = key
    · subst same
      rw [Function.update_self, list, slices_store_self]
      exact appended.view
    · rw [Function.update_of_ne same, list, slices_store_of_ne same, Slice.view, kept same]
      rfl

theorem Owned.add (owned : map.Owned) (key : κ) (value : α) (spare : List α)
    : (map.add key value spare).Owned
      ∧ (map.add key value spare).list
        = Function.update map.list key (map.list key ++ [value]) :=
  owned.store (owned.valid key) rfl [value] spare

/-- Removing in place leaves the other elements of the key in their order, and the other keys
as they were.
-/
theorem Owned.remove [DecidableEq α] (owned : map.Owned) (key : κ) (value : α)
    : (map.remove key value).Owned
      ∧ (map.remove key value).list
        = Function.update map.list key ((map.list key).erase value) := by
  unfold SliceMap.remove
  cases found : (map.list key).idxOf? value with
  | none =>
      have same : (map.list key).erase value = map.list key := by
        rw [List.erase_eq_eraseIdx, found]
      rw [same, Function.update_eq_self]
      exact ⟨owned, rfl⟩
  | some i =>
      have valid := owned.valid key
      have below : i < (map.slices key).len := by
        rw [← valid.length_view]
        exact (List.idxOf?_eq_some_iff.mp found).1
      have erased : (map.list key).erase value
          = (map.list key).take i ++ (map.list key).drop (i + 1) := by
        rw [List.erase_eq_eraseIdx, found]
        exact List.eraseIdx_eq_take_drop_succ ..
      obtain ⟨kept, list⟩ := owned.store (valid.upTo (Nat.le_of_lt below)) rfl
        (((map.slices key).since (i + 1)).view map.arrays) []
      refine ⟨kept, ?_⟩
      rw [list, erased, Slice.view_upTo (Nat.le_of_lt below), Slice.view_since]
      rfl

theorem Owned.delete (owned : map.Owned) (key : κ)
    : (map.delete key).Owned ∧ (map.delete key).list = Function.update map.list key [] := by
  have slices (other : κ)
      : (map.delete key).slices other = if other = key then .nil else map.slices other := by
    simp [SliceMap.delete, Function.update_apply]
  refine ⟨⟨fun other => ?_, fun {other third array} first second => ?_⟩, funext fun other => ?_⟩
  · rw [slices]
    split
    · exact Slice.valid_nil
    · exact owned.valid other
  · rw [slices] at first second
    split at first
    · cases first
    · split at second
      · cases second
      · exact owned.apart first second
  · rw [list, slices, Function.update_apply]
    split
    · rfl
    · rfl

end SliceMap

end GoREgo.Lib
