import GoREgo.Lib.Regex
import GoREgo.Server.ByteStream

/-! `parseResourceName` with the regular expressions of the source, and the names that it accepts:
an instance prefix, the kind of the blob, its hash and its size.
-/

namespace GoREgo.Server.Resource

open Lib

/-- `(?:^|.*/)`, where `.` is not a newline. -/
def leadRegex : Regex :=
  .either .start (.seq (.many (· != '\n')) (.literal ['/']))

/-- `(blobs|compressed-blobs/zstd)/([a-fA-F0-9]+)/(\d+)$`. -/
def blobRegex : Regex :=
  .seq (.group (.either (.literal "blobs".toList) (.literal "compressed-blobs/zstd".toList)))
    (.seq (.literal ['/'])
      (.seq (.group (.plus isHexDigit))
        (.seq (.literal ['/'])
          (.seq (.group (.plus Char.isDigit)) .stop))))

def readResourceRegex : Regex :=
  .seq leadRegex blobRegex

/-- `uploads/[^/]+/` and a blob. -/
def uploadRegex : Regex :=
  .seq (.literal "uploads/".toList) (.seq (.plus (· != '/')) (.seq (.literal ['/']) blobRegex))

def writeResourceRegex : Regex :=
  .seq leadRegex uploadRegex

def resourceRegex (isWrite : Bool) : Regex :=
  if isWrite then writeResourceRegex else readResourceRegex

/-- `parseResourceName`, with `strconv.ParseInt` on digits. -/
def parseResourceName (name : String) (isWrite : Bool) : Except GoError (Digest × Bool) :=
  match (resourceRegex isWrite).find name.toList with
  | some [typeStr, hash, size] =>
      if digitsValue size < 2 ^ 63 then
        .ok (⟨String.ofList hash, digitsValue size⟩, "compressed-blobs".toList.isPrefixOf typeStr)
      else
        .error (.status .invalidArgument
          ("invalid size in resource name: strconv.ParseInt: parsing \""
            ++ String.ofList size ++ "\": value out of range"))
  | _ => .error (.status .invalidArgument ("invalid resource name: " ++ name))

def kindText (compressed : Bool) : List Char :=
  if compressed then "compressed-blobs/zstd".toList else "blobs".toList

def Leads (lead : List Char) : Prop :=
  lead = [] ∨ ∃ more, lead = more ++ ['/']

/-- A kind, a hash of hex digits and a size of decimal digits. -/
structure Blob (text : List Char) (compressed : Bool) (hash size : List Char) : Prop where
  split : text = kindText compressed ++ '/' :: (hash ++ '/' :: size)
  hash_ne : hash ≠ []
  hash_hex : ∀ c ∈ hash, isHexDigit c = true
  size_ne : size ≠ []
  size_digits : ∀ c ∈ size, c.isDigit = true

def UploadLead (lead : List Char) : Prop :=
  ∃ more id, lead = more ++ ("uploads/".toList ++ (id ++ ['/'])) ∧ id ≠ [] ∧ '/' ∉ id ∧ Leads more

def Names (isWrite : Bool) (name lead : List Char) (compressed : Bool) (hash size : List Char)
    : Prop :=
  ∃ text, name = lead ++ text ∧ Leads lead ∧ Blob text compressed hash size
    ∧ (isWrite = true → UploadLead lead)

variable {before text rest lead lead' hash hash' size size' name : List Char}
  {groups : List (List Char)} {compressed compressed' isWrite : Bool}

theorem spells_lead
    : leadRegex.Spells before text rest groups
      ↔ (before = [] ∧ text = [] ∨ ∃ more, text = more ++ ['/'] ∧ ∀ c ∈ more, (c != '\n') = true)
        ∧ groups = [] := by
  simp only [leadRegex, Regex.Spells]
  constructor
  · rintro (⟨first, empty, none_⟩ | ⟨more, _, _, _, rfl, rfl, ⟨all, rfl⟩, rfl, rfl⟩)
    · exact ⟨.inl ⟨first, empty⟩, none_⟩
    · exact ⟨.inr ⟨more, rfl, all⟩, rfl⟩
  · rintro ⟨⟨first, empty⟩ | ⟨more, rfl, all⟩, rfl⟩
    · exact .inl ⟨first, empty, rfl⟩
    · exact .inr ⟨more, ['/'], [], [], rfl, rfl, ⟨all, rfl⟩, rfl, rfl⟩

theorem spells_blob
    : blobRegex.Spells before text rest groups
      ↔ rest = [] ∧ ∃ compressed hash size, Blob text compressed hash size
        ∧ groups = [kindText compressed, hash, size] := by
  simp only [blobRegex, Regex.Spells, Regex.spells_plus]
  constructor
  · rintro ⟨kind, _, _, _, rfl, rfl, ⟨_, known, rfl⟩, _, _, _, _, rfl, rfl, ⟨rfl, rfl⟩, hash, _, _, _,
      rfl, rfl, ⟨_, ⟨hashNe, hex, rfl⟩, rfl⟩, _, _, _, _, rfl, rfl, ⟨rfl, rfl⟩, size, _, _, _, rfl, rfl,
      ⟨_, ⟨sizeNe, digits, rfl⟩, rfl⟩, last, rfl, rfl⟩
    refine ⟨last, ?_⟩
    rcases known with ⟨rfl, rfl⟩ | ⟨rfl, rfl⟩
    · exact ⟨false, hash, size, ⟨by simp [kindText], hashNe, hex, sizeNe, digits⟩, by simp [kindText]⟩
    · exact ⟨true, hash, size, ⟨by simp [kindText], hashNe, hex, sizeNe, digits⟩, by simp [kindText]⟩
  · rintro ⟨rfl, compressed, hash, size, blob, rfl⟩
    refine ⟨kindText compressed, '/' :: (hash ++ '/' :: size), [kindText compressed], [hash, size],
      blob.split, rfl, ⟨[], ?_, rfl⟩, ?_⟩
    · cases compressed with
      | false => exact .inl ⟨rfl, rfl⟩
      | true => exact .inr ⟨rfl, rfl⟩
    refine ⟨['/'], hash ++ '/' :: size, [], [hash, size], rfl, rfl, ⟨rfl, rfl⟩, ?_⟩
    refine ⟨hash, '/' :: size, [hash], [size], rfl, rfl,
      ⟨[], ⟨blob.hash_ne, blob.hash_hex, rfl⟩, rfl⟩, ?_⟩
    refine ⟨['/'], size, [], [size], rfl, rfl, ⟨rfl, rfl⟩, ?_⟩
    exact ⟨size, [], [size], [], by simp, rfl,
      ⟨[], ⟨blob.size_ne, blob.size_digits, rfl⟩, rfl⟩, rfl, rfl, rfl⟩

theorem spells_upload
    : uploadRegex.Spells before text rest groups
      ↔ rest = [] ∧ ∃ id blob compressed hash size, text = "uploads/".toList ++ (id ++ '/' :: blob)
        ∧ id ≠ [] ∧ '/' ∉ id ∧ Blob blob compressed hash size
        ∧ groups = [kindText compressed, hash, size] := by
  have class_iff : ∀ id : List Char, (∀ c ∈ id, (c != '/') = true) ↔ '/' ∉ id := by
    intro id
    simp only [bne_iff_ne]
    exact ⟨fun each held => each '/' held rfl, fun plain c held same => plain (same ▸ held)⟩
  simp only [uploadRegex, Regex.Spells, Regex.spells_plus, spells_blob, class_iff]
  constructor
  · rintro ⟨_, _, _, _, rfl, rfl, ⟨rfl, rfl⟩, id, _, _, _, rfl, rfl, ⟨idNe, plain, rfl⟩, _, blob, _, _,
      rfl, rfl, ⟨rfl, rfl⟩, last, compressed, hash, size, shaped, rfl⟩
    exact ⟨last, id, blob, compressed, hash, size, rfl, idNe, plain, shaped, rfl⟩
  · rintro ⟨last, id, blob, compressed, hash, size, rfl, idNe, plain, shaped, rfl⟩
    exact ⟨_, _, [], _, rfl, rfl, ⟨rfl, rfl⟩, id, '/' :: blob, [], _, rfl, rfl, ⟨idNe, plain, rfl⟩,
      ['/'], blob, [], _, rfl, rfl, ⟨rfl, rfl⟩, last, compressed, hash, size, shaped, rfl⟩

/-- Wherever a search for the lead and more begins, the lead goes back to the start of the name or
to a slash.
-/
theorem exists_spells_lead {tail : Regex}
    : (∃ skipped text rest, name = skipped ++ (text ++ rest)
        ∧ (Regex.seq leadRegex tail).Spells skipped.reverse text rest groups)
      ↔ ∃ lead text rest, name = lead ++ (text ++ rest) ∧ Leads lead
        ∧ tail.Spells lead.reverse text rest groups := by
  simp only [Regex.Spells, spells_lead]
  constructor
  · rintro ⟨skipped, _, rest, rfl, lead, text, _, _, rfl, rfl, ⟨leads, rfl⟩, spells⟩
    refine ⟨skipped ++ lead, text, rest, by simp, ?_, by simpa using spells⟩
    rcases leads with ⟨first, rfl⟩ | ⟨more, rfl, -⟩
    · exact .inl (by simpa using first)
    · exact .inr ⟨skipped ++ more, by simp⟩
  · rintro ⟨lead, text, rest, rfl, leads, spells⟩
    rcases leads with rfl | ⟨more, rfl⟩
    · exact ⟨[], text, rest, rfl, [], text, [], groups, rfl, rfl, ⟨.inl ⟨rfl, rfl⟩, rfl⟩, spells⟩
    -- the search may begin at the last slash
    · exact ⟨more, '/' :: text, rest, by simp, ['/'], text, [], groups, rfl, rfl,
        ⟨.inr ⟨[], rfl, fun _ => by simp⟩, rfl⟩, by simpa using spells⟩

/-- The matches of the expression for a read or a write are the resource names by their parts. -/
theorem exists_spells_iff
    : (∃ skipped text rest, name = skipped ++ (text ++ rest)
        ∧ (resourceRegex isWrite).Spells skipped.reverse text rest groups)
      ↔ ∃ lead compressed hash size, Names isWrite name lead compressed hash size
        ∧ groups = [kindText compressed, hash, size] := by
  cases isWrite with
  | false =>
      simp only [resourceRegex, Bool.false_eq_true, if_false, readResourceRegex,
        exists_spells_lead, spells_blob]
      constructor
      · rintro ⟨lead, text, _, rfl, leads, rfl, compressed, hash, size, blob, rfl⟩
        exact ⟨lead, compressed, hash, size, ⟨text, by simp, leads, blob, nofun⟩, rfl⟩
      · rintro ⟨lead, compressed, hash, size, ⟨text, rfl, leads, blob, -⟩, rfl⟩
        exact ⟨lead, text, [], by simp, leads, rfl, compressed, hash, size, blob, rfl⟩
  | true =>
      simp only [resourceRegex, if_true, writeResourceRegex, exists_spells_lead, spells_upload]
      constructor
      · rintro ⟨lead, _, _, rfl, leads, rfl, id, text, compressed, hash, size, rfl, idNe, plain, blob,
          rfl⟩
        refine ⟨lead ++ ("uploads/".toList ++ (id ++ ['/'])), compressed, hash, size,
          ⟨text, by simp, ?_, blob, fun _ => ⟨lead, id, rfl, idNe, plain, leads⟩⟩, rfl⟩
        exact .inr ⟨lead ++ ("uploads/".toList ++ id), by simp⟩
      · rintro ⟨_, compressed, hash, size, ⟨text, rfl, -, blob, uploads⟩, rfl⟩
        obtain ⟨lead, id, rfl, idNe, plain, leads⟩ := uploads rfl
        exact ⟨lead, "uploads/".toList ++ (id ++ '/' :: text), [], by simp, leads, rfl, id, text,
          compressed, hash, size, rfl, idNe, plain, blob, rfl⟩

theorem last_slash_unique {first first' last last' : List Char}
    (same : first ++ '/' :: last = first' ++ '/' :: last') (plain : '/' ∉ last)
    (plain' : '/' ∉ last')
    : first = first' ∧ last = last' := by
  rcases List.append_eq_append_iff.mp same with ⟨more, rfl, tail⟩ | ⟨more, rfl, tail⟩
  · cases more with
    | nil => exact ⟨by simp, (List.cons.inj tail).2⟩
    | cons c more =>
        obtain ⟨-, rfl⟩ := List.cons.inj tail
        exact absurd (List.mem_append_right _ List.mem_cons_self) plain
  · cases more with
    | nil => exact ⟨by simp, (List.cons.inj tail).2.symm⟩
    | cons c more =>
        obtain ⟨-, rfl⟩ := List.cons.inj tail
        exact absurd (List.mem_append_right _ List.mem_cons_self) plain'

theorem kind_unique (same : lead ++ kindText compressed = lead' ++ kindText compressed')
    : lead = lead' ∧ compressed = compressed' := by
  obtain rfl : compressed = compressed' := by
    have last := congrArg List.getLast? same
    cases compressed <;> cases compressed' <;> first | rfl | simp [kindText] at last
  exact ⟨List.append_cancel_right same, rfl⟩

theorem Blob.plain_hash (blob : Blob text compressed hash size) : '/' ∉ hash :=
  fun held => absurd (blob.hash_hex '/' held) (by decide)

theorem Blob.plain_size (blob : Blob text compressed hash size) : '/' ∉ size :=
  fun held => absurd (blob.size_digits '/' held) (by decide)

theorem Names.unique (names : Names isWrite name lead compressed hash size)
    (names' : Names isWrite name lead' compressed' hash' size')
    : lead = lead' ∧ compressed = compressed' ∧ hash = hash' ∧ size = size' := by
  obtain ⟨text, rfl, -, blob, -⟩ := names
  obtain ⟨text', same, -, blob', -⟩ := names'
  have sized : (lead ++ kindText compressed ++ '/' :: hash) ++ '/' :: size
      = (lead' ++ kindText compressed' ++ '/' :: hash') ++ '/' :: size' := by
    simpa [blob.split, blob'.split] using same
  obtain ⟨hashed, rfl⟩ := last_slash_unique sized blob.plain_size blob'.plain_size
  obtain ⟨kinds, rfl⟩ := last_slash_unique hashed blob.plain_hash blob'.plain_hash
  obtain ⟨rfl, rfl⟩ := kind_unique kinds
  exact ⟨rfl, rfl, rfl, rfl⟩

theorem find_of_names (names : Names isWrite name lead compressed hash size)
    : (resourceRegex isWrite).find name = some [kindText compressed, hash, size] := by
  obtain ⟨skipped, text, rest, rfl, spells⟩ :=
    exists_spells_iff.mpr ⟨lead, compressed, hash, size, names, rfl⟩
  refine Regex.find_of_unique spells ?_
  intro skipped' text' rest' groups' same spells'
  obtain ⟨_, _, _, _, names', rfl⟩ := exists_spells_iff.mp ⟨skipped', text', rest', same, spells'⟩
  obtain ⟨-, rfl, rfl, rfl⟩ := names.unique names'
  rfl

theorem names_of_find (found : (resourceRegex isWrite).find name = some groups)
    : ∃ lead compressed hash size, Names isWrite name lead compressed hash size
        ∧ groups = [kindText compressed, hash, size] :=
  exists_spells_iff.mp (Regex.find_sound found)

theorem isPrefixOf_kindText (compressed : Bool)
    : "compressed-blobs".toList.isPrefixOf (kindText compressed) = compressed := by
  cases compressed <;> decide

theorem parseResourceName_of_names {name : String}
    (names : Names isWrite name.toList lead compressed hash size)
    : parseResourceName name isWrite
      = if digitsValue size < 2 ^ 63 then
          .ok (⟨String.ofList hash, digitsValue size⟩, compressed)
        else
          .error (.status .invalidArgument
            ("invalid size in resource name: strconv.ParseInt: parsing \""
              ++ String.ofList size ++ "\": value out of range")) := by
  simp only [parseResourceName, find_of_names names, isPrefixOf_kindText]

theorem names_of_parsed {name : String} {digest : Digest}
    (parsed : parseResourceName name isWrite = .ok (digest, compressed))
    : ∃ lead hash size, Names isWrite name.toList lead compressed hash size
        ∧ digitsValue size < 2 ^ 63 ∧ digest = ⟨String.ofList hash, digitsValue size⟩ := by
  cases found : (resourceRegex isWrite).find name.toList with
  | none =>
      simp only [parseResourceName, found] at parsed
      cases parsed
  | some groups =>
      obtain ⟨lead, compressed', hash, size, names, rfl⟩ := names_of_find found
      rw [parseResourceName_of_names names] at parsed
      split at parsed
      next small =>
        obtain ⟨rfl, rfl⟩ := Prod.mk.inj (Except.ok.inj parsed)
        exact ⟨lead, hash, size, names, small, rfl⟩
      next => cases parsed

/-- `parseResourceName` accepts exactly the names of its grammar with a size below `2 ^ 63`. The
parts of a name are unique, and they are what it returns.
-/
theorem parseResourceName_grammar (name : String) (isWrite : Bool)
    : ((∃ parsed, parseResourceName name isWrite = .ok parsed)
        ↔ ∃ lead compressed hash size, Names isWrite name.toList lead compressed hash size
          ∧ digitsValue size < 2 ^ 63)
      ∧ (∀ lead compressed hash size lead' compressed' hash' size',
          Names isWrite name.toList lead compressed hash size →
          Names isWrite name.toList lead' compressed' hash' size' →
          lead = lead' ∧ compressed = compressed' ∧ hash = hash' ∧ size = size')
      ∧ ∀ lead compressed hash size, Names isWrite name.toList lead compressed hash size →
          digitsValue size < 2 ^ 63 →
          parseResourceName name isWrite
            = .ok (⟨String.ofList hash, digitsValue size⟩, compressed) := by
  have result : ∀ lead compressed hash size,
      Names isWrite name.toList lead compressed hash size → digitsValue size < 2 ^ 63 →
      parseResourceName name isWrite
        = .ok (⟨String.ofList hash, digitsValue size⟩, compressed) := by
    intro lead compressed hash size names small
    rw [parseResourceName_of_names names, if_pos small]
  refine ⟨⟨?_, ?_⟩, ?_, result⟩
  · rintro ⟨⟨digest, compressed⟩, accepted⟩
    obtain ⟨lead, hash, size, names, small, -⟩ := names_of_parsed accepted
    exact ⟨lead, compressed, hash, size, names, small⟩
  · rintro ⟨lead, compressed, hash, size, names, small⟩
    exact ⟨_, result lead compressed hash size names small⟩
  · exact fun _ _ _ _ _ _ _ _ names names' => names.unique names'

def segments (text : List Char) : List (List Char) :=
  (text.splitOn '/').reverse

def Before (lead : List Char) (rest : List (List Char)) : Prop :=
  lead = [] ∧ rest = [] ∨ ∃ more, lead = more ++ ['/'] ∧ segments more = rest

theorem segments_append {segment : List Char} {rest : List (List Char)} (plain : '/' ∉ segment)
    (led : Before lead rest)
    : segments (lead ++ segment) = segment :: rest := by
  have alone : segment.splitOn '/' = [segment] := by
    have whole : (['/'].intercalate [segment]).splitOn '/' = [segment] :=
      List.splitOn_intercalate '/' (by simpa using plain) (by simp)
    simpa [List.intercalate] using whole
  unfold segments
  rcases led with ⟨rfl, rfl⟩ | ⟨more, rfl, rfl⟩
  · rw [List.nil_append, alone]
    rfl
  · have split : (more ++ ['/'] ++ segment).splitOn '/' = more.splitOn '/' ++ segment.splitOn '/' := by
      rw [List.append_assoc, List.singleton_append]
      exact List.splitOnP_append_cons more segment (by decide)
    rw [split, alone, List.reverse_append]
    rfl

theorem exists_segment (text : List Char)
    : ∃ lead segment rest, text = lead ++ segment ∧ '/' ∉ segment ∧ Before lead rest := by
  by_cases slash : '/' ∈ text
  · obtain ⟨after, before, split, plain⟩ :=
      List.eq_append_cons_of_mem (List.mem_reverse.mpr slash)
    refine ⟨before.reverse ++ ['/'], after.reverse, _, ?_, by simpa using plain, .inr ⟨_, rfl, rfl⟩⟩
    rw [← List.reverse_reverse text, split]
    simp
  · exact ⟨[], text, [], rfl, slash, .inl ⟨rfl, rfl⟩⟩

theorem segments_eq_cons {segment : List Char} {rest : List (List Char)}
    (parts : segments text = segment :: rest)
    : ∃ lead, text = lead ++ segment ∧ '/' ∉ segment ∧ Before lead rest := by
  obtain ⟨lead, last, others, rfl, plain, led⟩ := exists_segment text
  rw [segments_append plain led] at parts
  obtain ⟨rfl, rfl⟩ := List.cons.inj parts
  exact ⟨lead, rfl, plain, led⟩

theorem segments_snoc {segment more : List Char} (plain : '/' ∉ segment)
    : segments (more ++ '/' :: segment) = segment :: segments more := by
  have parts := segments_append plain (.inr ⟨more, rfl, rfl⟩ : Before (more ++ ['/']) _)
  rwa [List.append_assoc, List.singleton_append] at parts

theorem segments_eq_cons_cons {segment next : List Char} {rest : List (List Char)}
    (parts : segments text = segment :: next :: rest)
    : ∃ more, text = more ++ '/' :: segment ∧ '/' ∉ segment ∧ segments more = next :: rest := by
  obtain ⟨lead, rfl, plain, ⟨-, none_⟩ | ⟨more, rfl, led⟩⟩ := segments_eq_cons parts
  · cases none_
  · exact ⟨more, by simp, plain, led⟩

theorem Before.leads {rest : List (List Char)} (led : Before lead rest) : Leads lead :=
  led.imp And.left (fun ⟨more, ends, _⟩ => ⟨more, ends⟩)

theorem exists_before (leads : Leads lead) : ∃ rest, Before lead rest := by
  rcases leads with rfl | ⟨more, rfl⟩
  · exact ⟨[], .inl ⟨rfl, rfl⟩⟩
  · exact ⟨segments more, .inr ⟨more, rfl, rfl⟩⟩

theorem isUpload_iff {rest : List (List Char)} (led : Before lead rest)
    : isUpload rest = true ↔ UploadLead lead := by
  constructor
  · intro uploads
    unfold isUpload at uploads
    split at uploads
    next id word others =>
      simp only [Bool.and_eq_true, Bool.not_eq_true', List.isEmpty_eq_false_iff,
        beq_iff_eq] at uploads
      obtain ⟨idNe, rfl⟩ := uploads
      rcases led with ⟨-, none_⟩ | ⟨more, rfl, parts⟩
      · cases none_
      · obtain ⟨first, rfl, plain, parts⟩ := segments_eq_cons_cons parts
        obtain ⟨lead, rfl, -, led⟩ := segments_eq_cons parts
        exact ⟨lead, id, by simp, idNe, plain, led.leads⟩
    next => cases uploads
  · rintro ⟨more, id, split, idNe, plain, leads⟩
    obtain ⟨others, led'⟩ := exists_before leads
    rcases led with ⟨rfl, -⟩ | ⟨upTo, rfl, rfl⟩
    · simp at split
    · have same : upTo = (more ++ "uploads".toList) ++ '/' :: id := by
        refine List.append_cancel_right (split.trans ?_)
        simp
      rw [same, segments_snoc plain, segments_append (by decide) led']
      simp [isUpload, idNe]

theorem matchResource_segments
    : matchResource isWrite (segments name) = some (hash, size, compressed)
      ↔ ∃ lead, Names isWrite name lead compressed hash size := by
  constructor
  · intro matched
    unfold matchResource at matched
    split at matched
    next size' hash' kind before parts =>
      split at matched
      next => cases matched
      next shaped =>
        simp only [Bool.or_eq_true, List.isEmpty_iff, Bool.not_eq_true', not_or,
          Bool.not_eq_false, List.all_eq_true] at shaped
        obtain ⟨⟨⟨sizeNe, digits⟩, hashNe⟩, hex⟩ := shaped
        obtain ⟨upToHash, rfl, -, parts⟩ := segments_eq_cons_cons parts
        obtain ⟨upToKind, rfl, -, parts⟩ := segments_eq_cons_cons parts
        split at matched
        next blobs =>
          rw [beq_iff_eq] at blobs
          subst blobs
          obtain ⟨lead, rfl, -, led⟩ := segments_eq_cons parts
          split at matched
          next => cases matched
          next uploads =>
            simp only [Option.some.injEq, Prod.mk.injEq] at matched
            obtain ⟨rfl, rfl, rfl⟩ := matched
            refine ⟨lead, kindText false ++ '/' :: (hash' ++ '/' :: size'), by simp [kindText],
              led.leads, ⟨rfl, hashNe, hex, sizeNe, digits⟩, ?_⟩
            rintro rfl
            exact (isUpload_iff led).mp (by simpa using uploads)
        next =>
          split at matched
          next parent before =>
            split at matched
            next shaped =>
              simp only [Bool.and_eq_true, beq_iff_eq, Bool.or_eq_true, Bool.not_eq_true'] at shaped
              obtain ⟨⟨rfl, rfl⟩, uploads⟩ := shaped
              simp only [Option.some.injEq, Prod.mk.injEq] at matched
              obtain ⟨rfl, rfl, rfl⟩ := matched
              obtain ⟨upToParent, rfl, -, parts⟩ := segments_eq_cons_cons parts
              obtain ⟨lead, rfl, -, led⟩ := segments_eq_cons parts
              refine ⟨lead, kindText true ++ '/' :: (hash' ++ '/' :: size'), by simp [kindText],
                led.leads, ⟨rfl, hashNe, hex, sizeNe, digits⟩, ?_⟩
              rintro rfl
              exact (isUpload_iff led).mp (by simpa using uploads)
            next => cases matched
          next => cases matched
    next => cases matched
  · rintro ⟨lead, text, rfl, leads, blob, uploads⟩
    obtain ⟨before, led⟩ := exists_before leads
    have ends : lead ++ text = (lead ++ kindText compressed ++ '/' :: hash) ++ '/' :: size := by
      simp [blob.split]
    have hex : hash.all isHexDigit = true := List.all_eq_true.mpr blob.hash_hex
    have digits : size.all Char.isDigit = true := List.all_eq_true.mpr blob.size_digits
    have upload : isWrite = true → isUpload before = true :=
      fun writes => (isUpload_iff led).mpr (uploads writes)
    rw [ends, segments_snoc blob.plain_size, segments_snoc blob.plain_hash]
    cases compressed with
    | false =>
        rw [kindText, if_neg (by decide), segments_append (by decide) led]
        cases isWrite <;> simp_all [matchResource, blob.hash_ne, blob.size_ne]
    | true =>
        have kind : lead ++ kindText true
            = (lead ++ "compressed-blobs".toList) ++ '/' :: "zstd".toList := by
          simp [kindText]
        rw [kind, segments_snoc (by decide), segments_append (by decide) led]
        cases isWrite <;> simp_all [matchResource, blob.hash_ne, blob.size_ne]

theorem parseResourceName_eq (name : String) (isWrite : Bool)
    : parseResourceName name isWrite = Server.parseResourceName name isWrite := by
  unfold Server.parseResourceName
  rw [show (name.toList.splitOn '/').reverse = segments name.toList from rfl]
  cases matched : matchResource isWrite (segments name.toList) with
  | some parts =>
      obtain ⟨hash, size, compressed⟩ := parts
      obtain ⟨lead, names⟩ := matchResource_segments.mp matched
      exact parseResourceName_of_names names
  | none =>
      cases found : (resourceRegex isWrite).find name.toList with
      | none => simp only [parseResourceName, found]
      | some groups =>
          obtain ⟨lead, compressed, hash, size, names, -⟩ := names_of_find found
          rw [matchResource_segments.mpr ⟨lead, names⟩] at matched
          cases matched

end GoREgo.Server.Resource
