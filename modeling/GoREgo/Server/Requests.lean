import GoREgo.Lib.Panic
import GoREgo.Server.ResourceNames

/-! Requests and the panics that they can cause, from the handlers down to the paths of the local
store. Digests come in through `FromProto`, which checks those that are there, and through resource
names, whose hash can have any length; the paths take the first four characters of the hash
unchecked.
-/

namespace GoREgo.Server

open Lib

def isLowerHex (c : Char) : Bool :=
  c.isDigit || ('a' ≤ c && c ≤ 'f')

def canonicalHash (hash : List Char) : Bool :=
  hash.length = 64 && hash.all isLowerHex

def ValidDigest (digest : Digest) : Prop :=
  canonicalHash digest.hash.toList = true ∧ 0 ≤ digest.sizeBytes

instance (digest : Digest) : Decidable (ValidDigest digest) :=
  inferInstanceAs (Decidable (_ ∧ _))

/-- `NewFromProto` of the SDK, which is `FromProto` of the store: it reads the fields of the
message, accepts 64 lower-case hex digits with a size that is not negative, and has an error for
every other digest.
-/
structure Sdk where
  newFromProto : Option Digest → Go (Except GoError Digest)
  absent : newFromProto none = .error .nilDereference
  valid : ∀ digest, ValidDigest digest → newFromProto (some digest) = .ok (.ok digest)
  invalid : ∀ digest, ¬ ValidDigest digest → ∃ err, newFromProto (some digest) = .ok (.error err)

namespace Sdk

variable (sdk : Sdk)

theorem returns_newFromProto_iff (digest : Option Digest)
    : (sdk.newFromProto digest).Returns ↔ digest.isSome = true := by
  cases digest with
  | none =>
      rw [sdk.absent]
      exact iff_of_false (by rintro ⟨_, ⟨⟩⟩) (by simp)
  | some digest =>
      refine iff_of_true ?_ rfl
      by_cases valid : ValidDigest digest
      · exact ⟨_, sdk.valid digest valid⟩
      · obtain ⟨err, rejected⟩ := sdk.invalid digest valid
        exact ⟨_, rejected⟩

theorem valid_of_newFromProto {digest : Option Digest} {dg : Digest}
    (accepted : sdk.newFromProto digest = .ok (.ok dg))
    : digest = some dg ∧ ValidDigest dg := by
  cases digest with
  | none =>
      rw [sdk.absent] at accepted
      cases accepted
  | some digest =>
      by_cases valid : ValidDigest digest
      · rw [sdk.valid digest valid] at accepted
        obtain rfl := Except.ok.inj (Except.ok.inj accepted)
        exact ⟨rfl, valid⟩
      · obtain ⟨err, rejected⟩ := sdk.invalid digest valid
        rw [rejected] at accepted
        cases accepted

theorem newFromProto_iff (digest : Digest)
    : sdk.newFromProto (some digest) = .ok (.ok digest) ↔ ValidDigest digest :=
  ⟨fun accepted => (sdk.valid_of_newFromProto accepted).2, sdk.valid digest⟩

/-- One with a single text for its errors. -/
def plain : Sdk where
  newFromProto digest := do
    let digest ← Go.deref digest
    pure (if ValidDigest digest then .ok digest else .error (.plain "invalid digest"))
  absent := rfl
  valid _ valid := congrArg Except.ok (if_pos valid)
  invalid _ invalid := ⟨_, congrArg Except.ok (if_neg invalid)⟩

end Sdk

/-- What the handlers meet outside: the SDK, the errors that `os.IsNotExist` accepts, and what the
stores answer once the local path is known. A reader is given by the number of bytes that each
`Read` returns.
-/
structure Backend where
  rootDir : String
  sdk : Sdk
  isNotExist : GoError → Bool
  has : List String → Digest → Except GoError Bool
  get : List String → Digest → Except GoError (List Nat)
  put : List String → Digest → Option GoError
  getActionResult : List String → Digest → Except GoError ActionResult
  updateActionResult : List String → Digest → Option ActionResult → Option GoError

namespace Backend

variable (backend : Backend)

/-- The path of a digest below a directory of the store: root/directory/ab/cd/hash. -/
def storePath (directory : String) (digest : Digest) : Go (List String) := do
  let first ← Go.slice digest.hash 0 2
  let second ← Go.slice digest.hash 2 4
  pure [backend.rootDir, directory, first, second, digest.hash]

def blobPath (digest : Digest) : Go (List String) :=
  backend.storePath "cas" digest

def getActionPath (digest : Digest) : Go (List String) :=
  backend.storePath "ac" digest

def readBufferSize : Nat := 64 * 1024

/-- The loop of `Read`: a `Read` into `buf[:toRead]` returns at most that many bytes, and
`buf[:n]` is sent.
-/
def sendAll (limit : Int) : Int → List Nat → Go Unit
  | _, [] => pure ()
  | totalSent, count :: rest =>
      if totalSent < limit then do
        let toRead ← Go.sliceTo readBufferSize (min readBufferSize (limit - totalSent))
        let n ← Go.sliceTo readBufferSize (min count toRead)
        sendAll limit (totalSent + n) rest
      else
        pure ()

/-- `ByteStream.Read`. Skipping to the offset is left out. -/
def read (resourceName : String) (readLimit : Int) : Go (Except GoError Unit) :=
  match parseResourceName resourceName false with
  | .error err => pure (.error err)
  | .ok (dg, _) => do
      let path ← backend.blobPath dg
      match backend.get path dg with
      | .error err =>
          if backend.isNotExist err || err.code? = some .notFound then
            pure (.error (.status .notFound
              ("blob not found: " ++ dg.hash ++ "/" ++ toString dg.sizeBytes)))
          else
            pure (.error (.status .internal ("failed to get blob: " ++ err.text)))
      | .ok reads => do
          sendAll (if 0 < readLimit then readLimit else 2 ^ 63 - 1) 0 reads
          pure (.ok ())

/-- `ByteStream.Write` on the messages of a stream, with the `Put` of its goroutine. -/
def write (messages : List WriteRequest) : Go (Except GoError Nat) :=
  match messages with
  | [] => pure (.error (.status .invalidArgument "never received resource name"))
  | message :: _ =>
      if message.resourceName = "" then
        pure (.error (.status .invalidArgument "missing resource name in first message"))
      else if 0 < message.writeOffset then
        pure (.error (.status .invalidArgument
          ("resumable uploads not supported (offset " ++ toString message.writeOffset
            ++ " > 0)")))
      else
        match parseResourceName message.resourceName true with
        | .error err => pure (.error err)
        | .ok (dg, _) => do
            let path ← backend.blobPath dg
            match backend.put path dg with
            | some err =>
                pure (.error (.status .internal ("store put failed: " ++ err.text)))
            | none => pure (.ok (payload messages).length)

/-- `FindMissingBlobs`. An element of a repeated field is never absent. -/
def findMissingBlobs : List Digest → Go (Except GoError (List Digest))
  | [] => pure (.ok [])
  | d :: rest => do
      match ← backend.sdk.newFromProto (some d) with
      | .error err =>
          pure (.error (.status .invalidArgument ("invalid digest: " ++ err.text)))
      | .ok digest => do
          let path ← backend.blobPath digest
          match backend.has path digest with
          | .error err => pure (.error (.status .internal ("storage error: " ++ err.text)))
          | .ok found => do
              let missing ← findMissingBlobs rest
              pure (missing.map (fun later => if found then later else d :: later))

structure BlobUpdate where
  digest : Option Digest
  data : Bytes
deriving DecidableEq, Repr

/-- One turn of the loop of `BatchUpdateBlobs`. The log of a rejected digest reads its hash. -/
def updateBlob (r : BlobUpdate) : Go Status := do
  match ← backend.sdk.newFromProto r.digest with
  | .error err => do
      let _ ← Go.deref r.digest
      pure { code := .invalidArgument, message := err.text }
  | .ok dg => do
      let path ← backend.blobPath dg
      match backend.put path dg with
      | some err => pure { code := .internal, message := err.text }
      | none => pure { code := .ok, message := "" }

def batchUpdateBlobs : List BlobUpdate → Go (List (Option Digest × Status))
  | [] => pure []
  | r :: rest => do
      let status ← backend.updateBlob r
      let responses ← batchUpdateBlobs rest
      pure ((r.digest, status) :: responses)

def getResult (actionDigest : Option Digest) : Go (Except GoError ActionResult) := do
  match ← backend.sdk.newFromProto actionDigest with
  | .error err => pure (.error (.status .invalidArgument ("invalid digest: " ++ err.text)))
  | .ok dg => do
      let path ← backend.getActionPath dg
      match backend.getActionResult path dg with
      | .error err =>
          if backend.isNotExist err || err.code? = some .notFound then
            pure (.error (.status .notFound
              ("action result not found: " ++ dg.hash ++ "/" ++ toString dg.sizeBytes)))
          else
            pure (.error (.status .internal ("failed to get action result: " ++ err.text)))
      | .ok result => pure (.ok result)

def updateResult (actionDigest : Option Digest) (result : Option ActionResult)
    : Go (Except GoError (Option ActionResult)) := do
  match ← backend.sdk.newFromProto actionDigest with
  | .error err => pure (.error (.status .invalidArgument ("invalid digest: " ++ err.text)))
  | .ok dg => do
      let path ← backend.getActionPath dg
      match backend.updateActionResult path dg result with
      | some err =>
          pure (.error (.status .internal ("failed to update action result: " ++ err.text)))
      | none => pure (.ok result)

inductive ExecuteStart
  | cached (actionDigest : Digest) (result : ActionResult)
  | enqueue (actionDigest : Digest)
deriving DecidableEq

/-- `Execute` up to its `Enqueue` or to the peer. The attributes of its span read the digest. -/
def execute (actionDigest : Option Digest) (skipCacheLookup : Bool) : Go ExecuteStart := do
  let digest ← Go.deref actionDigest
  if skipCacheLookup then
    pure (.enqueue digest)
  else
    match ← backend.sdk.newFromProto actionDigest with
    | .error _ => pure (.enqueue digest)
    | .ok dg => do
        let path ← backend.getActionPath dg
        match backend.getActionResult path dg with
        | .ok result => pure (.cached digest result)
        | .error _ => pure (.enqueue digest)

end Backend

/-- The requests of the services, with sub-messages that can be absent. -/
inductive Request
  | read (resourceName : String) (readLimit : Int)
  | write (messages : List WriteRequest)
  | findMissingBlobs (blobDigests : List Digest)
  | batchUpdateBlobs (requests : List Backend.BlobUpdate)
  | getActionResult (actionDigest : Option Digest)
  | updateActionResult (actionDigest : Option Digest) (result : Option ActionResult)
  | execute (actionDigest : Option Digest) (skipCacheLookup : Bool)
deriving DecidableEq

/-- The handler of a request, without its reply. -/
def Backend.serve (backend : Backend) : Request → Go Unit
  | .read resourceName readLimit => (fun _ => ()) <$> backend.read resourceName readLimit
  | .write messages => (fun _ => ()) <$> backend.write messages
  | .findMissingBlobs blobDigests => (fun _ => ()) <$> backend.findMissingBlobs blobDigests
  | .batchUpdateBlobs requests => (fun _ => ()) <$> backend.batchUpdateBlobs requests
  | .getActionResult actionDigest => (fun _ => ()) <$> backend.getResult actionDigest
  | .updateActionResult actionDigest result =>
      (fun _ => ()) <$> backend.updateResult actionDigest result
  | .execute actionDigest skipCacheLookup =>
      (fun _ => ()) <$> backend.execute actionDigest skipCacheLookup

/-- The resource name of a request, and whether it is one for writing. -/
def Request.resourceName? : Request → Option (String × Bool)
  | .read resourceName _ => some (resourceName, false)
  | .write (message :: _) => some (message.resourceName, true)
  | _ => none

/-- What a resource name of the grammar of `parseResourceName` has for a hash, with a size that an
`int64` holds.
-/
def HasCanonicalHash (name : String) (isWrite : Bool) : Prop :=
  ∀ lead isCompressed hash size, Resource.Names isWrite name.toList lead isCompressed hash size →
    digitsValue size < 2 ^ 63 → canonicalHash hash = true

/-- Resource names have canonical hashes, and the digests that are not in a list are there. -/
def Request.WellFormed (request : Request) : Prop :=
  match request with
  | .read resourceName _ => HasCanonicalHash resourceName false
  | .write messages =>
      ∀ message ∈ messages.head?, HasCanonicalHash message.resourceName true
  | .findMissingBlobs _ => True
  | .batchUpdateBlobs requests => ∀ r ∈ requests, r.digest.isSome = true
  | .getActionResult actionDigest => actionDigest.isSome = true
  | .updateActionResult actionDigest _ => actionDigest.isSome = true
  | .execute actionDigest _ => actionDigest.isSome = true

theorem hasCanonicalHash_iff {name : String} {isWrite : Bool}
    : HasCanonicalHash name isWrite
      ↔ ∀ digest isCompressed, parseResourceName name isWrite = .ok (digest, isCompressed) →
          ValidDigest digest := by
  simp only [← Resource.parseResourceName_eq]
  constructor
  · intro canonical digest isCompressed parsed
    obtain ⟨lead, hash, size, names, small, rfl⟩ := Resource.names_of_parsed parsed
    refine ⟨?_, Int.natCast_nonneg _⟩
    rw [String.toList_ofList]
    exact canonical lead isCompressed hash size names small
  · intro valid lead isCompressed hash size names small
    have parsed := Resource.parseResourceName_of_names names
    rw [if_pos small] at parsed
    simpa using (valid _ _ parsed).1

namespace Backend

variable (backend : Backend)

theorem returns_storePath (directory : String) {dg : Digest} (valid : ValidDigest dg)
    : (backend.storePath directory dg).Returns := by
  have length : dg.hash.length = 64 := by
    have canonical := valid.1
    simp only [canonicalHash, Bool.and_eq_true, decide_eq_true_eq] at canonical
    exact canonical.1
  refine Go.Returns.bind (Go.returns_slice (by decide) (by omega)) (fun first _ => ?_)
  exact Go.Returns.bind (Go.returns_slice (by decide) (by omega)) (fun second _ => .pure _)

theorem returns_sendAll (limit totalSent : Int) (reads : List Nat)
    : (sendAll limit totalSent reads).Returns := by
  induction reads generalizing totalSent with
  | nil => exact .pure _
  | cons count rest ih =>
      unfold sendAll
      split
      next unfinished =>
        refine Go.Returns.bind (Go.returns_sliceTo ?_ ?_) (fun toRead sliced => ?_)
        · omega
        · omega
        · have within : toRead ≤ readBufferSize := by
            unfold Go.sliceTo at sliced
            split at sliced
            next bounds =>
              obtain rfl := Except.ok.inj sliced
              omega
            next => cases sliced
          refine Go.Returns.bind (Go.returns_sliceTo ?_ ?_) (fun n _ => ih _)
          · omega
          · omega
      next => exact .pure _

theorem returns_read {resourceName : String} (canonical : HasCanonicalHash resourceName false)
    (readLimit : Int)
    : (backend.read resourceName readLimit).Returns := by
  unfold read
  split
  next => exact .pure _
  next dg isCompressed parsed =>
    have valid := hasCanonicalHash_iff.mp canonical dg isCompressed parsed
    refine (backend.returns_storePath "cas" valid).bind (fun path _ => ?_)
    split
    next => split <;> exact .pure _
    next reads => exact (returns_sendAll _ _ _).bind (fun _ _ => .pure _)

theorem returns_write {messages : List WriteRequest}
    (wellFormed : (Request.write messages).WellFormed)
    : (backend.write messages).Returns := by
  cases messages with
  | nil => exact .pure _
  | cons message rest =>
      simp only [write]
      split
      next => exact .pure _
      next =>
        split
        next => exact .pure _
        next =>
          split
          next => exact .pure _
          next dg isCompressed parsed =>
            have valid := hasCanonicalHash_iff.mp (wellFormed message rfl) dg isCompressed parsed
            refine (backend.returns_storePath "cas" valid).bind (fun path _ => ?_)
            split <;> exact .pure _

/-- Behind the SDK's check a handler has a valid digest or an error. Without a digest it does not
come that far.
-/
theorem returns_checked_iff {α : Type} {digest : Option Digest}
    {next : Except GoError Digest → Go α}
    (fails : digest.isSome = true → ∀ err, (next (.error err)).Returns)
    (continues : ∀ dg, ValidDigest dg → (next (.ok dg)).Returns)
    : Go.Returns (backend.sdk.newFromProto digest >>= next) ↔ digest.isSome = true := by
  refine (Go.returns_bind_iff ?_).trans (backend.sdk.returns_newFromProto_iff digest)
  intro checked ran
  cases checked with
  | error err => exact fails ((backend.sdk.returns_newFromProto_iff digest).mp ⟨_, ran⟩) err
  | ok dg => exact continues dg (backend.sdk.valid_of_newFromProto ran).2

theorem returns_findMissingBlobs (blobDigests : List Digest)
    : (backend.findMissingBlobs blobDigests).Returns := by
  induction blobDigests with
  | nil => exact .pure _
  | cons d rest ih =>
      have present : (some d).isSome = true := rfl
      refine (backend.returns_checked_iff ?_ ?_).mpr present
      · exact fun _ _ => .pure _
      · intro dg valid
        refine (backend.returns_storePath "cas" valid).bind (fun path _ => ?_)
        split
        next => exact .pure _
        next => exact ih.bind (fun _ _ => .pure _)

theorem returns_updateBlob_iff (r : BlobUpdate)
    : (backend.updateBlob r).Returns ↔ r.digest.isSome = true := by
  refine backend.returns_checked_iff (fun present _ => ?_) (fun dg valid => ?_)
  · exact (Go.returns_deref_iff.mpr present).bind (fun _ _ => .pure _)
  · refine (backend.returns_storePath "cas" valid).bind (fun path _ => ?_)
    split <;> exact .pure _

theorem returns_batchUpdateBlobs_iff (requests : List BlobUpdate)
    : (backend.batchUpdateBlobs requests).Returns ↔ ∀ r ∈ requests, r.digest.isSome = true := by
  induction requests with
  | nil => exact iff_of_true (.pure _) (by simp)
  | cons r rest ih =>
      rw [List.forall_mem_cons, ← ih, ← backend.returns_updateBlob_iff]
      constructor
      · rintro ⟨responses, ran⟩
        obtain ⟨status, first, ran⟩ := Go.bind_eq_ok ran
        obtain ⟨later, rest, -⟩ := Go.bind_eq_ok ran
        exact ⟨⟨status, first⟩, later, rest⟩
      · rintro ⟨first, later⟩
        exact first.bind (fun _ _ => later.bind (fun _ _ => .pure _))

theorem returns_getResult_iff (actionDigest : Option Digest)
    : (backend.getResult actionDigest).Returns ↔ actionDigest.isSome = true := by
  refine backend.returns_checked_iff (fun _ _ => .pure _) (fun dg valid => ?_)
  refine (backend.returns_storePath "ac" valid).bind (fun path _ => ?_)
  split
  next => split <;> exact .pure _
  next => exact .pure _

theorem returns_updateResult_iff (actionDigest : Option Digest) (result : Option ActionResult)
    : (backend.updateResult actionDigest result).Returns ↔ actionDigest.isSome = true := by
  refine backend.returns_checked_iff (fun _ _ => .pure _) (fun dg valid => ?_)
  refine (backend.returns_storePath "ac" valid).bind (fun path _ => ?_)
  split <;> exact .pure _

theorem returns_execute_iff (actionDigest : Option Digest) (skipCacheLookup : Bool)
    : (backend.execute actionDigest skipCacheLookup).Returns ↔ actionDigest.isSome = true := by
  refine (Go.returns_bind_iff (fun digest read => ?_)).trans Go.returns_deref_iff
  split
  next => exact .pure _
  next =>
    refine (backend.returns_checked_iff ?_ ?_).mpr (Go.returns_deref_iff.mp ⟨digest, read⟩)
    · exact fun _ _ => .pure _
    · intro dg valid
      refine (backend.returns_storePath "ac" valid).bind (fun path _ => ?_)
      split <;> exact .pure _

/-- A request ends no handler in a panic, and a digest that its resource name holds passes
`FromProto`, exactly when it is well formed.
-/
theorem wellFormed_request_returns (request : Request)
    : ((backend.serve request).Returns
        ∧ ∀ name isWrite digest isCompressed, request.resourceName? = some (name, isWrite) →
            parseResourceName name isWrite = .ok (digest, isCompressed) →
            backend.sdk.newFromProto (some digest) = .ok (.ok digest))
      ↔ request.WellFormed := by
  simp only [backend.sdk.newFromProto_iff]
  cases request with
  | read resourceName readLimit =>
      refine ⟨fun holds => hasCanonicalHash_iff.mpr fun digest isCompressed => ?_, fun canonical => ?_⟩
      · exact holds.2 _ _ digest isCompressed rfl
      · refine ⟨Go.returns_map_iff.mpr (backend.returns_read canonical readLimit), ?_⟩
        rintro name isWrite digest isCompressed named parsed
        obtain ⟨rfl, rfl⟩ := Prod.mk.inj (Option.some.inj named)
        exact hasCanonicalHash_iff.mp canonical digest isCompressed parsed
  | write messages =>
      refine ⟨fun holds message first => hasCanonicalHash_iff.mpr fun digest isCompressed => ?_,
        fun wellFormed => ⟨Go.returns_map_iff.mpr (backend.returns_write wellFormed), ?_⟩⟩
      · cases messages with
        | nil => cases first
        | cons message rest =>
            obtain rfl := Option.some.inj first
            exact holds.2 _ _ digest isCompressed rfl
      · rintro name isWrite digest isCompressed named parsed
        cases messages with
        | nil => cases named
        | cons message rest =>
            obtain ⟨rfl, rfl⟩ := Prod.mk.inj (Option.some.inj named)
            exact hasCanonicalHash_iff.mp (wellFormed message rfl) digest isCompressed parsed
  | findMissingBlobs blobDigests =>
      refine iff_of_true ⟨Go.returns_map_iff.mpr (backend.returns_findMissingBlobs blobDigests), ?_⟩
        trivial
      rintro _ _ _ _ ⟨⟩
  | batchUpdateBlobs requests =>
      refine Iff.trans (and_iff_left ?_)
        (Go.returns_map_iff.trans (backend.returns_batchUpdateBlobs_iff requests))
      rintro _ _ _ _ ⟨⟩
  | getActionResult actionDigest =>
      refine Iff.trans (and_iff_left ?_)
        (Go.returns_map_iff.trans (backend.returns_getResult_iff actionDigest))
      rintro _ _ _ _ ⟨⟩
  | updateActionResult actionDigest result =>
      refine Iff.trans (and_iff_left ?_)
        (Go.returns_map_iff.trans (backend.returns_updateResult_iff actionDigest result))
      rintro _ _ _ _ ⟨⟩
  | execute actionDigest skipCacheLookup =>
      refine Iff.trans (and_iff_left ?_)
        (Go.returns_map_iff.trans (backend.returns_execute_iff actionDigest skipCacheLookup))
      rintro _ _ _ _ ⟨⟩

def empty : Backend where
  rootDir := "/cache"
  sdk := .plain
  isNotExist _ := false
  has _ _ := .ok false
  get _ _ := .error (.status .notFound "no blob")
  put _ _ := none
  getActionResult _ _ := .error (.status .notFound "no action result")
  updateActionResult _ _ _ := none

def fullHash : String :=
  "0123456789abcdef0123456789abcdef0123456789abcdef0123456789abcdef"

/-- A read of a blob with that hash. -/
theorem full_hash_read_returns
    : (empty.serve (.read ("blobs/" ++ fullHash ++ "/1") 0)).Returns := by
  have known : parseResourceName ("blobs/" ++ fullHash ++ "/1") false
      = .ok (⟨fullHash, 1⟩, false) := by
    decide +kernel
  have canonical : HasCanonicalHash ("blobs/" ++ fullHash ++ "/1") false := by
    refine hasCanonicalHash_iff.mpr (fun digest isCompressed parsed => ?_)
    obtain ⟨rfl, rfl⟩ := Prod.mk.inj (Except.ok.inj (known.symm.trans parsed))
    decide +kernel
  exact ((empty.wellFormed_request_returns (.read ("blobs/" ++ fullHash ++ "/1") 0)).mpr canonical).1

/-- A read of a blob with a short hash slices the hash out of range, an `Execute` and a
`GetActionResult` without action digest read a field of an absent message, and the hash of a
resource name can be one that `FromProto` rejects.
-/
theorem malformed_requests_panic
    : empty.serve (.read "blobs/a/1" 0) = .error .sliceBounds
      ∧ empty.serve (.execute none false) = .error .nilDereference
      ∧ empty.serve (.getActionResult none) = .error .nilDereference
      ∧ parseResourceName "blobs/ABCD/1" false = .ok (⟨"ABCD", 1⟩, false)
      ∧ empty.sdk.newFromProto (some ⟨"ABCD", 1⟩) = .ok (.error (.plain "invalid digest")) := by
  refine ⟨?_, ?_, ?_, ?_, ?_⟩ <;> decide +kernel

end Backend

end GoREgo.Server
