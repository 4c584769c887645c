import GoREgo.Lib.Slots
import Mathlib.Data.Fintype.Basic

/-! IP addresses and their texts, as Go's `net` and `net/netip` write them.
An IPv4 address has a form of four bytes and one of sixteen, which are the same address and
have the same dotted text. Every other address is written as eight groups of hex digits, with
the longest run of zeros left out; its text has colons in it.
-/

namespace GoREgo.Lib

abbrev Octet := Fin 256

/-- A `net.IP` of four or sixteen bytes. -/
structure IP where
  bytes : List Octet
  length_eq : bytes.length = 4 ∨ bytes.length = 16
deriving DecidableEq

def digit (n : Nat) : Char := "0123456789abcdef".toList.getD n '0'

/-- `appendDecimal`. -/
def decimal (x : Octet) : List Char :=
  (if 100 ≤ x.val then [digit (x.val / 100)] else [])
    ++ (if 10 ≤ x.val then [digit (x.val / 10 % 10)] else [])
    ++ [digit (x.val % 10)]

/-- `appendHex`, for a group of two bytes. -/
def hex (n : Nat) : List Char :=
  (if 0x1000 ≤ n then [digit (n / 0x1000 % 16)] else [])
    ++ (if 0x100 ≤ n then [digit (n / 0x100 % 16)] else [])
    ++ (if 0x10 ≤ n then [digit (n / 0x10 % 16)] else [])
    ++ [digit (n % 16)]

theorem toNat_digit {n : Nat} (small : n < 10) : (digit n).toNat - '0'.toNat = n := by
  have all : ∀ k < 10, (digit k).toNat - '0'.toNat = k := by decide
  exact all n small

theorem ofDigitChars_decimal (x : Octet) : Nat.ofDigitChars 10 (decimal x) 0 = x.val := by
  have bound := x.isLt
  have ones := toNat_digit (Nat.mod_lt x.val (by decide : 0 < 10))
  have tens := toNat_digit (Nat.mod_lt (x.val / 10) (by decide : 0 < 10))
  have hundreds : (digit (x.val / 100)).toNat - '0'.toNat = x.val / 100 :=
    toNat_digit (by omega)
  unfold Nat.ofDigitChars decimal
  by_cases three : 100 ≤ x.val
  · have two : 10 ≤ x.val := by omega
    simp only [three, two, if_true, List.foldl_append, List.foldl_cons, List.foldl_nil, ones,
      tens, hundreds]
    omega
  · by_cases two : 10 ≤ x.val
    · simp only [three, two, if_true, if_false, List.nil_append, List.foldl_append,
        List.foldl_cons, List.foldl_nil, ones, tens]
      omega
    · simp only [three, two, if_false, List.nil_append, List.foldl_cons, List.foldl_nil, ones]
      omega

theorem decimal_injective {x y : Octet} (same : decimal x = decimal y) : x = y := by
  apply Fin.ext
  rw [← ofDigitChars_decimal x, same, ofDigitChars_decimal]

def Inner (c : Char) : Prop := c ≠ '.' ∧ c ≠ ':' ∧ c ≠ '['

instance (c : Char) : Decidable (Inner c) := inferInstanceAs (Decidable (_ ∧ _))

theorem inner_digit {n : Nat} (small : n < 16) : Inner (digit n) := by
  have all : ∀ k < 16, Inner (digit k) := by decide
  exact all n small

theorem inner_of_mem_ite {condition : Prop} [Decidable condition] {n : Nat} {c : Char}
    (small : n < 16) (chosen : c ∈ if condition then [digit n] else [])
    : Inner c := by
  split at chosen
  · rw [List.mem_singleton.mp chosen]
    exact inner_digit small
  · cases chosen

theorem inner_decimal (x : Octet) {c : Char} (member : c ∈ decimal x) : Inner c := by
  have bound := x.isLt
  simp only [decimal, List.mem_append] at member
  rcases member with (hundreds | tens) | ones
  · exact inner_of_mem_ite (by omega) hundreds
  · exact inner_of_mem_ite (by omega) tens
  · rw [List.mem_singleton.mp ones]
    exact inner_digit (by omega)

theorem inner_hex {n : Nat} {c : Char} (member : c ∈ hex n) : Inner c := by
  have small (k : Nat) : k % 16 < 16 := Nat.mod_lt k (by decide)
  simp only [hex, List.mem_append] at member
  rcases member with ((first | second) | third) | last
  · exact inner_of_mem_ite (small _) first
  · exact inner_of_mem_ite (small _) second
  · exact inner_of_mem_ite (small _) third
  · rw [List.mem_singleton.mp last]
    exact inner_digit (small n)

def dotted : List Octet → List Char
  | [] => []
  | [x] => decimal x
  | x :: rest => decimal x ++ '.' :: dotted rest

def zeroRun (groups : List Nat) (i : Nat) : Nat :=
  ((groups.drop i).takeWhile (· = 0)).length

/-- The start and the length of the first longest run of at least two zero groups; without
one the length is zero and the start is no index.
-/
def longestZeros (groups : List Nat) : Nat × Nat :=
  (List.range 8).foldl (fun best i =>
    if 2 ≤ zeroRun groups i ∧ best.2 < zeroRun groups i then (i, zeroRun groups i) else best)
    (255, 0)

/-- The loop of `appendTo6` from the group `i` on. -/
def writeGroups (groups : List Nat) (zeros : Nat × Nat) : Nat → Nat → List Char
  | 0, _ => []
  | fuel + 1, i =>
      if 8 ≤ i then
        []
      else if i = zeros.1 then
        ':' :: ':'
          :: (if 8 ≤ i + zeros.2 then
              []
            else
              hex (groups.getD (i + zeros.2) 0) ++ writeGroups groups zeros fuel (i + zeros.2 + 1))
      else
        (if 0 < i then [':'] else [])
          ++ (hex (groups.getD i 0) ++ writeGroups groups zeros fuel (i + 1))

def groupsOf : List Octet → List Nat
  | high :: low :: rest => (256 * high.val + low.val) :: groupsOf rest
  | _ => []

namespace IP

/-- `To4`: the four bytes of an IPv4 address in either form. -/
def to4 (ip : IP) : Option (List Octet) :=
  if ip.bytes.length = 4 then
    some ip.bytes
  else if ip.bytes.take 12 = List.replicate 10 0 ++ [255, 255] then
    some (ip.bytes.drop 12)
  else
    none

/-- The address that an IP stands for, the same for both forms of an IPv4 address. -/
def address (ip : IP) : List Octet := ip.to4.getD ip.bytes

def text (ip : IP) : String :=
  String.ofList (match ip.to4 with
    | some bytes => dotted bytes
    | none =>
        writeGroups (groupsOf ip.bytes) (longestZeros (groupsOf ip.bytes)) 8 0)

end IP

/-- The parts in front of the first separator agree when the whole lists do, by induction. -/
theorem append_separator_inj {α : Type} {separator : α} {left right tail rest : List α}
    (leftFree : separator ∉ left) (rightFree : separator ∉ right)
    (same : left ++ separator :: tail = right ++ separator :: rest)
    : left = right ∧ tail = rest := by
  induction left generalizing right with
  | nil =>
      cases right with
      | nil => exact ⟨rfl, (List.cons.inj same).2⟩
      | cons head others => exact (rightFree ((List.cons.inj same).1 ▸ List.mem_cons_self)).elim
  | cons head others ih =>
      cases right with
      | nil => exact (leftFree ((List.cons.inj same).1 ▸ List.mem_cons_self)).elim
      | cons first more =>
          obtain ⟨rfl, later⟩ := List.cons.inj same
          obtain ⟨rfl, rfl⟩ := ih (fun member => leftFree (List.mem_cons_of_mem _ member))
            (fun member => rightFree (List.mem_cons_of_mem _ member)) later
          exact ⟨rfl, rfl⟩

theorem dot_notMem_decimal (x : Octet) : '.' ∉ decimal x :=
  fun member => (inner_decimal x member).1 rfl

theorem mem_dotted {bytes : List Octet} {c : Char} (member : c ∈ dotted bytes)
    : Inner c ∨ c = '.' := by
  fun_induction dotted bytes with
  | case1 => cases member
  | case2 x => exact Or.inl (inner_decimal x member)
  | case3 x rest _ ih =>
      rcases List.mem_append.mp member with first | later
      · exact Or.inl (inner_decimal x first)
      · rcases List.mem_cons.mp later with rfl | later
        · exact Or.inr rfl
        · exact ih later

def pointed (bytes : List Octet) : List Char := bytes.flatMap (fun x => decimal x ++ ['.'])

theorem dotted_append_dot {bytes : List Octet} (nonempty : bytes ≠ [])
    : dotted bytes ++ ['.'] = pointed bytes := by
  fun_induction dotted bytes with
  | case1 => exact (nonempty rfl).elim
  | case2 x => simp [pointed]
  | case3 x rest more ih =>
      have later : rest ≠ [] := fun empty => more empty
      rw [pointed, List.flatMap_cons, ← pointed, ← ih later]
      simp

/-- The numbers come apart at their dots, by induction over the bytes. -/
theorem pointed_injective {left right : List Octet} (same : pointed left = pointed right)
    : left = right := by
  induction left generalizing right with
  | nil =>
      cases right with
      | nil => rfl
      | cons y others => simp [pointed] at same
  | cons x rest ih =>
      cases right with
      | nil => simp [pointed] at same
      | cons y others =>
          simp only [pointed, List.flatMap_cons, List.append_assoc, List.singleton_append] at same
          obtain ⟨first, later⟩ :=
            append_separator_inj (dot_notMem_decimal x) (dot_notMem_decimal y) same
          rw [decimal_injective first, ih later]

theorem dotted_injective {left right : List Octet} (leftBytes : left ≠ [])
    (rightBytes : right ≠ []) (same : dotted left = dotted right)
    : left = right := by
  apply pointed_injective
  rw [← dotted_append_dot leftBytes, same, dotted_append_dot rightBytes]

/-- Groups are written with hex digits and colons only, by induction over the loop. -/
theorem mem_writeGroups {groups : List Nat} {zeros : Nat × Nat} {fuel i : Nat} {c : Char}
    (member : c ∈ writeGroups groups zeros fuel i)
    : Inner c ∨ c = ':' := by
  induction fuel generalizing i with
  | zero => cases member
  | succ fuel ih =>
      have written {k next : Nat} (later : c ∈ hex k ++ writeGroups groups zeros fuel next)
          : Inner c ∨ c = ':' := by
        rcases List.mem_append.mp later with here | after
        · exact Or.inl (inner_hex here)
        · exact ih after
      rw [writeGroups] at member
      split at member
      · cases member
      · split at member
        · rcases List.mem_cons.mp member with rfl | member
          · exact Or.inr rfl
          · rcases List.mem_cons.mp member with rfl | member
            · exact Or.inr rfl
            · split at member
              · cases member
              · exact written member
        · rcases List.mem_append.mp member with colon | member
          · split at colon
            · exact Or.inr (List.mem_singleton.mp colon)
            · cases colon
          · exact written member

theorem colon_mem_writeGroups (groups : List Nat) (zeros : Nat × Nat) (fuel : Nat)
    : ':' ∈ writeGroups groups zeros (fuel + 2) 0 := by
  rw [writeGroups, if_neg (by decide)]
  split
  · exact List.mem_cons_self
  · refine List.mem_append_right _ (List.mem_append_right _ ?_)
    rw [writeGroups, if_neg (by decide)]
    split
    · exact List.mem_cons_self
    · exact List.mem_append_left _ (by simp)

namespace IP

variable {ip other : IP} {bytes : List Octet}

theorem length_to4 (four : ip.to4 = some bytes) : bytes.length = 4 := by
  unfold to4 at four
  split at four
  next short =>
    obtain rfl := Option.some.inj four
    exact short
  next long =>
    obtain ⟨_, rest⟩ := Option.ite_none_right_eq_some.mp four
    obtain rfl := Option.some.inj rest
    rw [List.length_drop, ip.length_eq.resolve_left long]

theorem toList_text_four (four : ip.to4 = some bytes) : ip.text.toList = dotted bytes := by
  simp [text, four]

theorem toList_text_six (six : ip.to4 = none)
    : ip.text.toList
      = writeGroups (groupsOf ip.bytes) (longestZeros (groupsOf ip.bytes)) 8 0 := by
  simp [text, six]

theorem colon_mem_text : ':' ∈ ip.text.toList ↔ ip.to4 = none := by
  cases four : ip.to4 with
  | none =>
      rw [toList_text_six four]
      exact iff_of_true (colon_mem_writeGroups _ _ 6) rfl
  | some bytes =>
      rw [toList_text_four four]
      refine iff_of_false (fun member => ?_) nofun
      rcases mem_dotted member with inner | dot
      · exact inner.2.1 rfl
      · exact absurd dot (by decide)

theorem bracket_notMem_text (ip : IP) : '[' ∉ ip.text.toList := by
  intro member
  cases four : ip.to4 with
  | none =>
      rw [toList_text_six four] at member
      rcases mem_writeGroups member with inner | colon
      · exact inner.2.2 rfl
      · exact absurd colon (by decide)
  | some bytes =>
      rw [toList_text_four four] at member
      rcases mem_dotted member with inner | dot
      · exact inner.2.2 rfl
      · exact absurd dot (by decide)

/-- Both forms of an IPv4 address are recognised by the address alone. -/
theorem to4_congr (same : ip.address = other.address) : ip.to4 = other.to4 := by
  have sixteen {a : IP} (six : a.to4 = none) : a.bytes.length = 16 := by
    refine a.length_eq.resolve_left (fun short => ?_)
    rw [to4, if_pos short] at six
    cases six
  have apart {a b : IP} {bytes : List Octet} (four : a.to4 = some bytes) (six : b.to4 = none)
      (same : a.address = b.address) : False := by
    rw [address, address, four, six] at same
    have length := congrArg List.length same
    simp only [Option.getD_some, Option.getD_none, length_to4 four, sixteen six] at length
    cases length
  cases four : ip.to4 with
  | none =>
      cases four' : other.to4 with
      | none => rfl
      | some bytes => exact (apart four' four same.symm).elim
  | some bytes =>
      cases four' : other.to4 with
      | none => exact (apart four four' same).elim
      | some bytes' =>
          rw [address, address, four, four'] at same
          exact congrArg some same

theorem text_congr (same : ip.address = other.address) : ip.text = other.text := by
  have forms := to4_congr same
  cases four : ip.to4 with
  | none =>
      have six := forms.symm.trans four
      rw [address, address, four, six] at same
      unfold text
      rw [four, six, show ip.bytes = other.bytes from same]
  | some bytes =>
      unfold text
      rw [four, ← forms, four]

/-- Among IPv4 addresses, only the same one has the same text. -/
theorem address_of_text (four : ip.to4 ≠ none) (four' : other.to4 ≠ none)
    (same : ip.text = other.text)
    : ip.address = other.address := by
  obtain ⟨bytes, found⟩ := Option.ne_none_iff_exists'.mp four
  obtain ⟨bytes', found'⟩ := Option.ne_none_iff_exists'.mp four'
  have texts := congrArg String.toList same
  rw [toList_text_four found, toList_text_four found'] at texts
  have filled {ip : IP} {bytes : List Octet} (found : ip.to4 = some bytes) : bytes ≠ [] := by
    intro empty
    have length := length_to4 found
    rw [empty] at length
    cases length
  rw [address, address, found, found']
  exact dotted_injective (filled found) (filled found') texts

end IP

end GoREgo.Lib
