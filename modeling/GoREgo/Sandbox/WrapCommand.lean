import GoREgo.Proto
import Mathlib.Data.List.AList
import Mathlib.Data.List.Sort
import Mathlib.Data.String.Basic

/-! The command line of the sandbox. It is built from a map and from a list with repetitions,
and depends on neither the map's iteration order nor the list's order: duplicates go, and
what is left is sorted.
-/

namespace GoREgo.Sandbox

/-- The part of `SandboxConfig` that `WrapCommand` reads. -/
structure Config where
  binaryPath : String
  networkIsolation : Bool
  writablePaths : List String
  killDelay : Int
  debug : Bool
deriving DecidableEq, Repr

/-- `WrapSpec`. The entries of `inputMounts` stand in the order in which a range over the map
visits them; `timeout` is in nanoseconds.
-/
structure WrapSpec where
  execRoot : String
  inputMounts : AList (fun _ : String => String)
  writablePaths : List String
  timeout : Int
  command : List String

/-- One step of `deduplicatePaths`: the paths seen, and the result so far. -/
def keepFirst (state : List String × List String) (p : String) : List String × List String :=
  if p ∈ state.1 then state else (p :: state.1, state.2 ++ [p])

def deduplicatePaths (paths : List String) : List String :=
  (paths.foldl keepFirst ([], [])).2

def sortStrings (strings : List String) : List String := strings.insertionSort (· ≤ ·)

/-- The float64 nearest to a fraction, ties to even: `(m, s)` stands for `m / 2 ^ s`. It is
used for fractions that are zero or between `2 ^ -75` and `2 ^ 52`.
-/
def nearestFloat (num den : Nat) : Nat × Nat :=
  if num = 0 then
    (0, 0)
  else
    let s := ((List.range 128).find? (fun s => 2 ^ 52 * den ≤ num * 2 ^ s)).getD 0
    let m := num * 2 ^ s / den
    let r := num * 2 ^ s % den
    (if den < 2 * r ∨ (den = 2 * r ∧ m % 2 = 1) then m + 1 else m, s)

/-- `int(d.Seconds())` for a positive duration: the whole seconds and the rounded quotient of
the nanoseconds are added, rounded again, and cut off.
-/
def wholeSeconds (d : Nat) : Nat :=
  let fraction := nearestFloat (d % 10 ^ 9) (10 ^ 9)
  let sum := nearestFloat (d / 10 ^ 9 * 2 ^ fraction.2 + fraction.1) (2 ^ fraction.2)
  sum.1 / 2 ^ sum.2

def wrapCommand (cfg : Config) (spec : WrapSpec) : Except GoError (List String) :=
  if spec.command = [] then
    .error (.plain "command cannot be empty")
  else
    let sources := sortStrings spec.inputMounts.keys
    let writablePaths := sortStrings (deduplicatePaths spec.writablePaths)
    .ok ([cfg.binaryPath]
      ++ ["-W", spec.execRoot]
      ++ sources.flatMap (fun source =>
        ["-M", source, "-m", (spec.inputMounts.lookup source).getD ""])
      ++ cfg.writablePaths.flatMap (fun p => ["-w", p])
      ++ writablePaths.flatMap (fun p => ["-w", p])
      ++ (if cfg.networkIsolation then ["-N"] else [])
      ++ ["-H"]
      ++ (if 0 < spec.timeout then
          ["-T", toString (wholeSeconds spec.timeout.toNat), "-t", toString cfg.killDelay]
        else
          [])
      ++ (if cfg.debug then ["-D"] else [])
      ++ ["--"]
      ++ spec.command)

/-- The state of the loop: what was seen is what is in the result, once. -/
theorem foldl_keepFirst (paths : List String) {state : List String × List String}
    (same : ∀ p, p ∈ state.1 ↔ p ∈ state.2) (once : state.2.Nodup)
    : (paths.foldl keepFirst state).2.Nodup
      ∧ ∀ p, p ∈ (paths.foldl keepFirst state).2 ↔ p ∈ state.2 ∨ p ∈ paths := by
  induction paths generalizing state with
  | nil => exact ⟨once, fun p => by simp⟩
  | cons head rest ih =>
      rw [List.foldl_cons]
      by_cases seen : head ∈ state.1
      · have kept : keepFirst state head = state := if_pos seen
        obtain ⟨nodup, members⟩ := ih same once
        rw [kept]
        refine ⟨nodup, fun p => (members p).trans ?_⟩
        have known := (same head).mp seen
        constructor
        · exact Or.imp_right (List.mem_cons_of_mem _)
        · rintro (old | new)
          · exact Or.inl old
          · rcases List.mem_cons.mp new with rfl | later
            · exact Or.inl known
            · exact Or.inr later
      · have added : keepFirst state head = (head :: state.1, state.2 ++ [head]) := if_neg seen
        rw [added]
        have fresh : head ∉ state.2 := fun member => seen ((same head).mpr member)
        have same' (p : String) : p ∈ head :: state.1 ↔ p ∈ state.2 ++ [head] := by
          simp [same, or_comm]
        have once' : (state.2 ++ [head]).Nodup := by
          refine List.nodup_append.mpr ⟨once, List.nodup_singleton _, ?_⟩
          intro p member other single equal
          rw [List.mem_singleton] at single
          exact fresh (single ▸ equal ▸ member)
        obtain ⟨nodup, members⟩ := @ih (head :: state.1, state.2 ++ [head]) same' once'
        refine ⟨nodup, fun p => (members p).trans ?_⟩
        simp [or_assoc]

theorem deduplicatePaths_spec (paths : List String)
    : (deduplicatePaths paths).Nodup ∧ ∀ p, p ∈ deduplicatePaths paths ↔ p ∈ paths := by
  let start : List String × List String := ([], [])
  have same (p : String) : p ∈ start.1 ↔ p ∈ start.2 := Iff.rfl
  obtain ⟨once, members⟩ := foldl_keepFirst paths same List.nodup_nil
  exact ⟨once, fun p => (members p).trans (or_iff_right List.not_mem_nil)⟩

theorem sortStrings_perm (strings : List String) : (sortStrings strings).Perm strings :=
  List.perm_insertionSort _ _

theorem sortStrings_canonical {left right : List String} (leftOnce : left.Nodup)
    (rightOnce : right.Nodup) (same : ∀ p, p ∈ left ↔ p ∈ right)
    : sortStrings left = sortStrings right := by
  have perm : left.Perm right := (List.perm_ext_iff_of_nodup leftOnce rightOnce).mpr same
  exact List.Perm.eq_of_sortedLE (List.sortedLE_insertionSort) (List.sortedLE_insertionSort)
    ((sortStrings_perm left).trans (perm.trans (sortStrings_perm right).symm))

inductive Flag
  | workingDir (path : String)
  | mount (source target : String)
  | writable (path : String)
  | isolateNetwork
  | localhost
  | timeout (seconds : String)
  | killDelay (seconds : String)
  | debug
deriving DecidableEq, Repr

/-- How a flag is written on the command line. -/
def Flag.args : Flag → List String
  | .workingDir path => ["-W", path]
  | .mount source target => ["-M", source, "-m", target]
  | .writable path => ["-w", path]
  | .isolateNetwork => ["-N"]
  | .localhost => ["-H"]
  | .timeout seconds => ["-T", seconds]
  | .killDelay seconds => ["-t", seconds]
  | .debug => ["-D"]

/-- Whether a flag neither mounts an input nor makes a path writable. -/
def Flag.plain : Flag → Bool
  | .mount _ _ | .writable _ => false
  | _ => true

def commandLine (binaryPath : String) (flags : List Flag) (command : List String)
    : List String :=
  binaryPath :: flags.flatMap Flag.args ++ "--" :: command

theorem Flag.args_append_inj {flag other : Flag} {rest tail : List String}
    (same : flag.args ++ rest = other.args ++ tail)
    : flag = other ∧ rest = tail := by
  cases flag <;> cases other <;> simp_all [Flag.args]

theorem Flag.args_ne_delimiter {flag : Flag} {rest tail : List String}
    : flag.args ++ rest ≠ "--" :: tail := by
  cases flag <;> simp [Flag.args]

/-- Flags in front of a delimiter can be read in one way, by induction over them. -/
theorem flags_inj {flags others : List Flag} {command other : List String}
    (same
      : flags.flatMap Flag.args ++ "--" :: command = others.flatMap Flag.args ++ "--" :: other)
    : flags = others ∧ command = other := by
  induction flags generalizing others with
  | nil =>
      cases others with
      | nil => exact ⟨rfl, (List.cons.inj same).2⟩
      | cons head tail =>
          rw [List.flatMap_cons, List.append_assoc] at same
          exact (Flag.args_ne_delimiter same.symm).elim
  | cons flag rest ih =>
      cases others with
      | nil =>
          rw [List.flatMap_cons, List.append_assoc] at same
          exact (Flag.args_ne_delimiter same).elim
      | cons head tail =>
          rw [List.flatMap_cons, List.flatMap_cons, List.append_assoc, List.append_assoc] at same
          obtain ⟨rfl, later⟩ := Flag.args_append_inj same
          obtain ⟨rfl, command⟩ := ih later
          exact ⟨rfl, command⟩

namespace WrapSpec

def mounts (spec : WrapSpec) : List (String × String) :=
  (sortStrings spec.inputMounts.keys).map (fun source =>
    (source, (spec.inputMounts.lookup source).getD ""))

def writes (spec : WrapSpec) : List String := sortStrings (deduplicatePaths spec.writablePaths)

/-- Two specs that differ at most in the order of the mounts, and in the order and repetition
of the writable paths.
-/
structure Alike (spec other : WrapSpec) : Prop where
  execRoot : spec.execRoot = other.execRoot
  inputMounts : ∀ source, spec.inputMounts.lookup source = other.inputMounts.lookup source
  writablePaths : ∀ p, p ∈ spec.writablePaths ↔ p ∈ other.writablePaths
  timeout : spec.timeout = other.timeout
  command : spec.command = other.command

variable {spec other : WrapSpec}

theorem mounts_spec (spec : WrapSpec)
    : spec.mounts.Nodup
      ∧ ∀ source target,
          (source, target) ∈ spec.mounts ↔ spec.inputMounts.lookup source = some target := by
  have perm := sortStrings_perm spec.inputMounts.keys
  refine ⟨(perm.nodup_iff.mpr spec.inputMounts.keys_nodup).map ?_, fun source target => ?_⟩
  · intro left right same
    exact (Prod.mk.inj same).1
  · rw [mounts, List.mem_map]
    constructor
    · rintro ⟨key, member, same⟩
      obtain ⟨rfl, rfl⟩ := Prod.mk.inj same
      have tracked := AList.lookup_isSome.mpr (perm.mem_iff.mp member)
      obtain ⟨target, found⟩ := Option.isSome_iff_exists.mp tracked
      rw [found]
      rfl
    · intro found
      refine ⟨source, perm.mem_iff.mpr (AList.lookup_isSome.mp ?_), ?_⟩
      · rw [found]
        rfl
      · rw [found]
        rfl

theorem writes_spec (spec : WrapSpec)
    : spec.writes.Nodup ∧ ∀ p, p ∈ spec.writes ↔ p ∈ spec.writablePaths := by
  obtain ⟨once, members⟩ := deduplicatePaths_spec spec.writablePaths
  have perm := sortStrings_perm (deduplicatePaths spec.writablePaths)
  exact ⟨perm.nodup_iff.mpr once, fun p => perm.mem_iff.trans (members p)⟩

theorem Alike.mounts (alike : spec.Alike other) : spec.mounts = other.mounts := by
  have keys : sortStrings spec.inputMounts.keys = sortStrings other.inputMounts.keys := by
    refine sortStrings_canonical spec.inputMounts.keys_nodup other.inputMounts.keys_nodup ?_
    intro source
    rw [← AList.mem_keys, ← AList.mem_keys, ← AList.lookup_isSome, ← AList.lookup_isSome,
      alike.inputMounts]
  unfold WrapSpec.mounts
  rw [keys]
  exact List.map_congr_left (fun source _ => by rw [alike.inputMounts])

theorem Alike.writes (alike : spec.Alike other) : spec.writes = other.writes := by
  obtain ⟨once, members⟩ := deduplicatePaths_spec spec.writablePaths
  obtain ⟨once', members'⟩ := deduplicatePaths_spec other.writablePaths
  refine sortStrings_canonical once once' (fun p => ?_)
  rw [members, members', alike.writablePaths]

end WrapSpec

def settings (cfg : Config) (timeout : Int) : List Flag :=
  (if cfg.networkIsolation then [.isolateNetwork] else [])
    ++ [.localhost]
    ++ (if 0 < timeout then
        [.timeout (toString (wholeSeconds timeout.toNat)), .killDelay (toString cfg.killDelay)]
      else
        [])
    ++ (if cfg.debug then [.debug] else [])

/-- The sections of the command line: working directory, mounts, the configuration's writable
paths, the given ones, and the settings.
-/
def sections (cfg : Config) (execRoot : String) (mounts : List (String × String))
    (paths : List String) (rest : List Flag)
    : List Flag :=
  .workingDir execRoot :: mounts.map (fun mount => .mount mount.1 mount.2)
    ++ cfg.writablePaths.map .writable
    ++ paths.map .writable
    ++ rest

theorem settings_plain (cfg : Config) (timeout : Int)
    : ∀ flag ∈ settings cfg timeout, flag.plain = true := by
  intro flag member
  simp only [settings, List.mem_append] at member
  rcases member with ((network | host) | time) | debug
  · split at network
    · obtain rfl := List.mem_singleton.mp network
      rfl
    · cases network
  · obtain rfl := List.mem_singleton.mp host
    rfl
  · split at time
    · rcases List.mem_pair.mp time with rfl | rfl
      · rfl
      · rfl
    · cases time
  · split at debug
    · obtain rfl := List.mem_singleton.mp debug
      rfl
    · cases debug

theorem flatMap_args_ite {c : Prop} [Decidable c] (flags : List Flag)
    : (if c then flags else []).flatMap Flag.args
      = if c then flags.flatMap Flag.args else [] := by
  split
  · rfl
  · rfl

theorem wrapCommand_eq (cfg : Config) {spec : WrapSpec} (nonempty : spec.command ≠ [])
    : wrapCommand cfg spec
      = .ok (commandLine cfg.binaryPath
          (sections cfg spec.execRoot spec.mounts spec.writes (settings cfg spec.timeout))
          spec.command) := by
  rw [wrapCommand, if_neg nonempty]
  simp [commandLine, sections, settings, WrapSpec.mounts, WrapSpec.writes, flatMap_args_ite,
    List.flatMap_map, Flag.args]

/-- The command line holds each mount of the spec once, with its own target, and, in the
spec's section, each of its writable paths once; it ends with the delimiter and the command;
and there is no other way to read it.
-/
structure Complete (cfg : Config) (spec : WrapSpec) (args : List String) (flags : List Flag)
    : Prop where
  reads : args = commandLine cfg.binaryPath flags spec.command
  only
    : ∀ others command, args = commandLine cfg.binaryPath others command
      → others = flags ∧ command = spec.command
  parts
    : ∃ mounts paths rest,
        flags = sections cfg spec.execRoot mounts paths rest
        ∧ mounts.Nodup
        ∧ (∀ source target,
            (source, target) ∈ mounts ↔ spec.inputMounts.lookup source = some target)
        ∧ paths.Nodup
        ∧ (∀ p, p ∈ paths ↔ p ∈ spec.writablePaths)
        ∧ ∀ flag ∈ rest, flag.plain = true

/-- `WrapCommand` is canonical and complete: specs that differ only in the order of the map
and of the writable paths, and in the repetition of these, get the same arguments, which hold
everything once and end with the command.
-/
theorem wrapCommand_canonical (cfg : Config) {spec other : WrapSpec}
    (nonempty : spec.command ≠ []) (alike : spec.Alike other)
    : ∃ args flags,
        wrapCommand cfg spec = .ok args
        ∧ wrapCommand cfg other = .ok args
        ∧ Complete cfg spec args flags := by
  refine ⟨_, _, wrapCommand_eq cfg nonempty, ?_, rfl, ?_, ?_⟩
  · have nonempty' : other.command ≠ [] := alike.command ▸ nonempty
    rw [wrapCommand_eq cfg nonempty', alike.execRoot, alike.mounts, alike.writes, alike.timeout,
      alike.command]
  · intro others command same
    obtain ⟨flags, command⟩ := flags_inj (List.cons.inj same).2
    exact ⟨flags.symm, command.symm⟩
  · obtain ⟨mountsOnce, mounts⟩ := spec.mounts_spec
    obtain ⟨pathsOnce, paths⟩ := spec.writes_spec
    exact ⟨_, _, _, rfl, mountsOnce, mounts, pathsOnce, paths, settings_plain cfg _⟩

def sampleConfig : Config where
  binaryPath := "/usr/bin/linux-sandbox"
  networkIsolation := true
  writablePaths := ["/tmp"]
  killDelay := 5
  debug := false

def sampleSpec : WrapSpec where
  execRoot := "/x"
  inputMounts := AList.insert "/i/b" "/x/b" (AList.insert "/i/a" "/x/a" ∅)
  writablePaths := ["/x/o", "/x/b", "/x/o"]
  timeout := 600 * 10 ^ 9
  command := ["cat", "a"]

def shuffledSpec : WrapSpec where
  execRoot := "/x"
  inputMounts := AList.insert "/i/a" "/x/a" (AList.insert "/i/b" "/x/b" ∅)
  writablePaths := ["/x/b", "/x/o"]
  timeout := 600 * 10 ^ 9
  command := ["cat", "a"]

theorem sampleSpec_alike : sampleSpec.Alike shuffledSpec := by
  refine ⟨rfl, fun source => ?_, fun p => ?_, rfl, rfl⟩
  · have apart : ("/i/a" : String) ≠ "/i/b" := by decide
    exact AList.perm_lookup (AList.insert_insert_of_ne _ apart)
  · simp only [sampleSpec, shuffledSpec, List.mem_cons]
    tauto

theorem shuffled_alike
    : ∃ args flags,
        wrapCommand sampleConfig sampleSpec = .ok args
        ∧ wrapCommand sampleConfig shuffledSpec = .ok args
        ∧ Complete sampleConfig sampleSpec args flags :=
  wrapCommand_canonical sampleConfig (by decide) sampleSpec_alike

example
    : wrapCommand sampleConfig sampleSpec
      = .ok ["/usr/bin/linux-sandbox", "-W", "/x", "-M", "/i/a", "-m", "/x/a", "-M", "/i/b",
        "-m", "/x/b", "-w", "/tmp", "-w", "/x/b", "-w", "/x/o", "-N", "-H", "-T", "600", "-t",
        "5", "--", "cat", "a"] := by
  decide +kernel

end GoREgo.Sandbox
