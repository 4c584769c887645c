import Mathlib.Algebra.Order.Ring.Int
import Mathlib.Data.List.Basic

/-! Readers that hand out a content in pieces. A reader decides how much each call returns, also
nothing, and whether the end comes with the last data or after it.
-/

namespace GoREgo.Lib

/-- How a call of `Read` ends, next to its data: without an error, with the end of the data, or
with another error.
-/
inductive ReadEnd (ε : Type)
  | more
  | eof
  | failed (err : ε)
deriving DecidableEq, Repr

/-- What a reader does at a call: how much it has ready, and how the call ends. The end of the data
is announced only where it is.
-/
structure Chunk (ε : Type) where
  count : Nat
  ends : ReadEnd ε
deriving DecidableEq, Repr

/-- A reader: the content, where it is, and what it does at the next calls. After those it returns
as much as the buffer takes, and the end of the data on its own.
-/
structure Reader (α ε : Type) where
  content : List α
  position : Nat
  chunks : List (Chunk ε)
deriving DecidableEq, Repr

namespace Reader

variable {α ε : Type}

def left (reader : Reader α ε) : List α :=
  reader.content.drop reader.position

def advance (reader : Reader α ε) (count : Nat) (chunks : List (Chunk ε)) : Reader α ε :=
  { reader with position := reader.position + count, chunks := chunks }

/-- `Read` into a buffer of a size. -/
def read (reader : Reader α ε) (size : Nat) : List α × ReadEnd ε × Reader α ε :=
  match reader.chunks with
  | [] =>
      let data := reader.left.take size
      (data, if reader.left.isEmpty then .eof else .more, reader.advance data.length [])
  | chunk :: chunks =>
      let data := reader.left.take (min chunk.count size)
      let after := reader.advance data.length chunks
      match chunk.ends with
      | .eof => (data, if after.left.isEmpty then .eof else .more, after)
      | ends => (data, ends, after)

/-- `Seek` from the start of the content, also beyond its end. -/
def seek (reader : Reader α ε) (offset : Nat) : Reader α ε :=
  { reader with position := offset }

def Sound (reader : Reader α ε) : Prop :=
  ∀ chunk ∈ reader.chunks, ∀ err, chunk.ends ≠ .failed err

def bound (reader : Reader α ε) : Nat :=
  reader.chunks.length + reader.left.length

/-- What a call of `Read` does: it takes data off, and unless it ends the reader there are fewer
calls to come.
-/
structure Reads (reader : Reader α ε) (size : Nat) (data : List α) (ends : ReadEnd ε)
    (after : Reader α ε) : Prop where
  taken : reader.left = data ++ after.left
  fits : data.length ≤ size
  sound : after.Sound
  clean : ∀ err, ends ≠ .failed err
  atEnd : ends = .eof → after.left = []
  bounded : after.bound ≤ reader.bound
  fewer : ends = .more → after.bound < reader.bound

variable {reader : Reader α ε} {size : Nat}

theorem left_advance_take (reader : Reader α ε) (count : Nat) (chunks : List (Chunk ε))
    : reader.left
      = reader.left.take count
        ++ (reader.advance (reader.left.take count).length chunks).left := by
  have rest : (reader.advance (reader.left.take count).length chunks).left
      = reader.left.drop (reader.left.take count).length := by
    simp only [left, advance, List.drop_drop]
  rw [rest]
  by_cases short : count ≤ reader.left.length
  · rw [List.length_take, Nat.min_eq_left short, List.take_append_drop]
  · have long : reader.left.length ≤ count := by omega
    rw [List.take_of_length_le long, List.drop_length, List.append_nil]

theorem bound_advance_take (reader : Reader α ε) (count : Nat) (chunks : List (Chunk ε))
    : (reader.advance (reader.left.take count).length chunks).bound
        + (reader.left.take count).length
      = chunks.length + reader.left.length := by
  have lengths := congrArg List.length (left_advance_take reader count chunks)
  rw [List.length_append] at lengths
  have same : (reader.advance (reader.left.take count).length chunks).chunks = chunks := rfl
  rw [bound, same]
  omega

/-- A reader that does not fail. -/
theorem read_reads (sound : reader.Sound) (positive : 0 < size)
    : ∃ data ends after, reader.read size = (data, ends, after)
        ∧ reader.Reads size data ends after := by
  unfold read
  cases listed : reader.chunks with
  | nil =>
      have taken := left_advance_take reader size []
      have calls := bound_advance_take reader size []
      have whole : reader.bound = reader.left.length := by simp [bound, listed]
      rw [List.length_nil, Nat.zero_add] at calls
      refine ⟨_, _, _, rfl, taken, List.length_take_le _ _, fun _ => nofun, ?_, ?_, by omega, ?_⟩
      · intro err
        split <;> nofun
      · intro ended
        split at ended
        next empty =>
          rw [List.isEmpty_iff.mp empty, List.take_nil] at taken ⊢
          exact (List.nil_append _ ▸ taken).symm
        next => cases ended
      · intro more
        split at more
        next => cases more
        next nonempty =>
          have some_ := List.length_pos_iff.mpr (fun empty => nonempty (List.isEmpty_iff.mpr empty))
          have read_ : 0 < (reader.left.take size).length := by
            rw [List.length_take]
            exact Nat.lt_min.mpr ⟨positive, some_⟩
          omega
  | cons chunk chunks =>
      have taken := left_advance_take reader (min chunk.count size) chunks
      have calls := bound_advance_take reader (min chunk.count size) chunks
      have whole : reader.bound = chunks.length + 1 + reader.left.length := by simp [bound, listed]
      have fits : (reader.left.take (min chunk.count size)).length ≤ size :=
        Nat.le_trans (List.length_take_le _ _) (Nat.min_le_right _ _)
      have rest : ∀ other ∈ chunks, ∀ err, other.ends ≠ .failed err :=
        fun other held => sound other (listed ▸ List.mem_cons_of_mem _ held)
      dsimp only
      cases ends : chunk.ends with
      | more =>
          exact ⟨_, _, _, rfl, taken, fits, rest, nofun, nofun, by omega, fun _ => by omega⟩
      | eof =>
          refine ⟨_, _, _, rfl, taken, fits, rest, ?_, ?_, by omega, fun _ => by omega⟩
          · intro err
            split <;> nofun
          · intro ended
            split at ended
            next empty => exact List.isEmpty_iff.mp empty
            next => cases ended
      | failed err => exact absurd ends (sound chunk (listed ▸ List.mem_cons_self) err)

/-- `io.CopyN` to `io.Discard`, which reads into a buffer of 8 KiB: the reader after the skipped
elements, or the error, which is none for the end of the data. The bound is on the calls.
-/
def skip : Nat → Nat → Reader α ε → Option (Except (Option ε) (Reader α ε))
  | _, 0, reader => some (.ok reader)
  | 0, _ + 1, _ => none
  | fuel + 1, count + 1, reader =>
      match reader.read (min 8192 (count + 1)) with
      | (data, .more, after) => skip fuel (count + 1 - data.length) after
      | (data, .eof, after) =>
          if data.length = count + 1 then some (.ok after) else some (.error none)
      | (data, .failed err, after) =>
          if data.length = count + 1 then some (.ok after) else some (.error (some err))

/-- Skipping no more than there is leaves the rest; skipping more ends at the end of the data. By
induction on the bound of the calls.
-/
theorem skip_spec {fuel count : Nat} (sound : reader.Sound) (enough : reader.bound < fuel)
    : (count ≤ reader.left.length → ∃ after, skip fuel count reader = some (.ok after)
        ∧ after.left = reader.left.drop count ∧ after.Sound ∧ after.bound ≤ reader.bound)
      ∧ (reader.left.length < count → skip fuel count reader = some (.error none)) := by
  induction fuel generalizing reader count with
  | zero => cases enough
  | succ fuel ih =>
      cases count with
      | zero => exact ⟨fun _ => ⟨reader, by rw [skip], rfl, sound, Nat.le_refl _⟩, nofun⟩
      | succ count =>
          obtain ⟨data, ends, after, ran, reads⟩ :=
            read_reads sound (Nat.lt_min.mpr ⟨(by decide : 0 < 8192), Nat.succ_pos count⟩)
          have fits : data.length ≤ count + 1 := Nat.le_trans reads.fits (Nat.min_le_right _ _)
          have lengths : reader.left.length = data.length + after.left.length := by
            rw [reads.taken, List.length_append]
          rw [skip, ran]
          cases ends with
          | failed err => exact absurd rfl (reads.clean err)
          | eof =>
              have empty := reads.atEnd rfl
              rw [empty, List.length_nil] at lengths
              dsimp only
              refine ⟨fun within => ?_, fun beyond => if_neg (by omega)⟩
              have exact_ : data.length = count + 1 := by omega
              refine ⟨after, if_pos exact_, ?_, reads.sound, reads.bounded⟩
              rw [empty, List.drop_of_length_le (by omega)]
          | more =>
              have fewer := reads.fewer rfl
              obtain ⟨within, beyond⟩ := @ih after (count + 1 - data.length) reads.sound (by omega)
              refine ⟨fun enoughLeft => ?_, fun short => beyond (by omega)⟩
              obtain ⟨final, skipped, rest, finalSound, less⟩ := within (by omega)
              refine ⟨final, skipped, ?_, finalSound, by omega⟩
              rw [rest, reads.taken, List.drop_append, List.drop_of_length_le fits, List.nil_append]

/-- The error of a buffer that was not filled: the end of the data before anything was read, the
end of the data after a part, or the reader's error.
-/
inductive FillError (ε : Type)
  | eof
  | unexpectedEOF
  | failed (err : ε)
deriving DecidableEq, Repr

/-- `io.ReadFull` into a buffer of a size, of which the first elements are there already: the
full buffer and the reader after it. The bound is on the calls.
-/
def readFull (size : Nat) : Nat → List α → Reader α ε
    → Option (Except (FillError ε) (List α × Reader α ε))
  | fuel, got, reader =>
      if size ≤ got.length then some (.ok (got, reader))
      else
        match fuel with
        | 0 => none
        | fuel + 1 =>
            match reader.read (size - got.length) with
            | (data, .more, after) => readFull size fuel (got ++ data) after
            | (data, .eof, after) =>
                if size ≤ (got ++ data).length then some (.ok (got ++ data, after))
                else some (.error (if (got ++ data).isEmpty then .eof else .unexpectedEOF))
            | (data, .failed err, after) =>
                if size ≤ (got ++ data).length then some (.ok (got ++ data, after))
                else some (.error (.failed err))

/-- A buffer no larger than what is there is filled, however the reader splits it, and the reader
stands right after it; a larger one is an error. By induction on the bound of the calls.
-/
theorem readFull_spec {fuel : Nat} {got : List α} (sound : reader.Sound)
    (enough : reader.bound < fuel) (room : got.length ≤ size)
    : (size ≤ got.length + reader.left.length →
        ∃ after, readFull size fuel got reader
            = some (.ok (got ++ reader.left.take (size - got.length), after))
          ∧ after.left = reader.left.drop (size - got.length)
          ∧ after.Sound ∧ after.bound ≤ reader.bound)
      ∧ (got.length + reader.left.length < size →
        readFull size fuel got reader
          = some (.error (if (got ++ reader.left).isEmpty then .eof else .unexpectedEOF))) := by
  induction fuel generalizing reader got with
  | zero => cases enough
  | succ fuel ih =>
      by_cases full : size ≤ got.length
      · have nothing : size - got.length = 0 := by omega
        refine ⟨fun _ => ⟨reader, ?_, by rw [nothing, List.drop_zero], sound, Nat.le_refl _⟩,
          fun beyond => by omega⟩
        rw [readFull, if_pos full, nothing, List.take_zero, List.append_nil]
      obtain ⟨data, ends, after, ran, reads⟩ :=
        read_reads sound (by omega : 0 < size - got.length)
      have fits := reads.fits
      have lengths : (got ++ data).length = got.length + data.length := List.length_append
      rw [readFull, if_neg full, ran, reads.taken]
      cases ends with
      | failed err => exact absurd rfl (reads.clean err)
      | eof =>
          dsimp only
          rw [reads.atEnd rfl, List.append_nil, lengths]
          refine ⟨fun within => ?_, fun beyond => if_neg (by omega)⟩
          have exact_ : size - got.length = data.length := by omega
          refine ⟨after, ?_, ?_, reads.sound, reads.bounded⟩
          · rw [if_pos within, exact_, List.take_length]
          · rw [reads.atEnd rfl, exact_, List.drop_length]
      | more =>
          have fewer := reads.fewer rfl
          obtain ⟨within, beyond⟩ := @ih after (got ++ data) reads.sound (by omega) (by omega)
          have rest : size - (got ++ data).length = size - got.length - data.length := by omega
          rw [List.length_append, List.take_append, List.drop_append, ← rest,
            List.take_of_length_le fits, List.drop_of_length_le fits, List.nil_append,
            ← List.append_assoc, ← List.append_assoc]
          refine ⟨fun enoughLeft => ?_, fun short => ?_⟩
          · obtain ⟨final, filled, left, finalSound, less⟩ := within (by omega)
            exact ⟨final, filled, left, finalSound, by omega⟩
          · exact beyond (by omega)

/-- An empty buffer takes the front of its size, and leaves what comes after it. -/
theorem readFull_front {fuel : Nat} {front rest : List α} (sound : reader.Sound)
    (enough : reader.bound < fuel) (sized : front.length = size)
    (whole : reader.left = front ++ rest)
    : ∃ after, readFull size fuel [] reader = some (.ok (front, after))
        ∧ after.left = rest ∧ after.Sound ∧ after.bound ≤ reader.bound := by
  have filled := (@readFull_spec _ _ _ _ _ [] sound enough (Nat.zero_le size)).1
  simp only [List.length_nil, Nat.zero_add, Nat.sub_zero, List.nil_append, whole,
    List.take_left' sized, List.drop_left' sized] at filled
  exact filled (by rw [List.length_append]; omega)

/-- An empty buffer that is larger than what is left is an error. -/
theorem readFull_short {fuel : Nat} (sound : reader.Sound) (enough : reader.bound < fuel)
    (short : reader.left.length < size)
    : ∃ err, readFull size fuel [] reader = some (.error err) :=
  ⟨_, (readFull_spec sound enough (Nat.zero_le size)).2 (by rwa [List.length_nil, Nat.zero_add])⟩

end Reader

end GoREgo.Lib
