import GoREgo.Lib.Machine
import GoREgo.Storage.Effects

/-! `ByteStreamServer.Write` of an uncompressed blob: the handler that receives messages and
writes them to a pipe, and the goroutine that runs `ProxyStore.Put` on the other end.
-/

namespace GoREgo.Server

open Lib LocalStore Proxy

/-- The class `[a-fA-F0-9]`. -/
def isHexDigit (c : Char) : Bool :=
  c.isDigit || ('a' ≤ c && c ≤ 'f') || ('A' ≤ c && c ≤ 'F')

def digitsValue (digits : List Char) : Nat :=
  Nat.ofDigitChars 10 digits 0

/-- Whether the segments before a blob, the last one first, are those of an upload. -/
def isUpload : List (List Char) → Bool
  | id :: uploads :: _ => !id.isEmpty && uploads == "uploads".toList
  | _ => false

/-- The groups that the resource regexes match, from the segments of a name between slashes,
the last one first: the hash, the size, and whether the blob is compressed.
-/
def matchResource (isWrite : Bool)
    : List (List Char) → Option (List Char × List Char × Bool)
  | size :: hash :: kind :: before =>
      if size.isEmpty || !size.all Char.isDigit || hash.isEmpty || !hash.all isHexDigit then
        none
      else if kind == "blobs".toList then
        if isWrite && !isUpload before then none else some (hash, size, false)
      else
        match before with
        | parent :: before =>
            if kind == "zstd".toList && parent == "compressed-blobs".toList
                && (!isWrite || isUpload before) then
              some (hash, size, true)
            else
              none
        | [] => none
  | _ => none

/-- `parseResourceName`: the digest that a resource name holds, and whether the blob is
compressed.
-/
def parseResourceName (name : String) (isWrite : Bool) : Except GoError (Digest × Bool) :=
  match matchResource isWrite (name.toList.splitOn '/').reverse with
  | none => .error (.status .invalidArgument ("invalid resource name: " ++ name))
  | some (hash, size, isCompressed) =>
      if digitsValue size < 2 ^ 63 then
        .ok (⟨String.ofList hash, digitsValue size⟩, isCompressed)
      else
        .error (.status .invalidArgument
          ("invalid size in resource name: strconv.ParseInt: parsing \""
            ++ String.ofList size ++ "\": value out of range"))

structure WriteRequest where
  resourceName : String
  writeOffset : Int
  data : Bytes
  finishWrite : Bool
deriving DecidableEq, Repr

/-- What `Recv` returns: the messages in order, and then `io.EOF` or another error. -/
structure Stream where
  messages : List WriteRequest
  failure : Option GoError
deriving DecidableEq, Repr

/-- The payload of an upload: the data of the messages up to the one that finishes it. -/
def payload : List WriteRequest → Bytes
  | [] => []
  | message :: rest => message.data ++ if message.finishWrite then [] else payload rest

def finishes (messages : List WriteRequest) : Bool :=
  messages.any WriteRequest.finishWrite

/-- Whether `Recv` fails with an error other than `io.EOF` before the upload is finished. -/
def Stream.aborts (stream : Stream) : Bool :=
  !finishes stream.messages && stream.failure.isSome

/-- Where the handler is: at `Recv`, inside `pw.Write` with the message's `finish_write`,
after the loop, in the `select`, at `SendAndClose`, or at the deferred closing of the pipe.
-/
inductive Handler
  | recv
  | writing (finish : Bool)
  | closing
  | waiting
  | replying
  | deferred (err : Option GoError)
  | returned (err : Option GoError)
deriving DecidableEq, Repr

/-- Where the goroutine is that runs `Put`: not started, at the local check, draining its
reader, in `putImpl`, or ended with its error in `errChan`.
-/
inductive PutCall
  | idle
  | checking
  | draining
  | flying (upload : Upload)
  | returned (upload : Upload) (err : Option IoError)
deriving DecidableEq, Repr

/-- What the handler has to do with the goroutine that runs `Put`: what it takes from a resource
name, where it starts, and what it has sent to `errChan`.
-/
structure Goroutine (ρ γ : Type) where
  named : String → Option (Except GoError ρ)
  start : γ
  result : γ → Option (Option IoError)

/-- A running `Write`: what the first message named, the bytes counted so far, both ends of the
pipe, and the goroutine.
-/
structure Call (ρ γ : Type) where
  resource : Option ρ := none
  totalWritten : Nat := 0
  pipe : Pipe UInt8 GoError := {}
  handler : Handler := .recv
  store : γ
deriving DecidableEq, Repr

namespace Call

variable {ρ γ : Type} (go : Goroutine ρ γ)

/-- The loop ends with the message that finishes the upload. -/
def resume (finish : Bool) : Handler :=
  if finish then .closing else .recv

/-- The body of the loop for the data of a message: written to the pipe unless empty. -/
def takeData (s : Call ρ γ) (message : WriteRequest) : Option (Call ρ γ) :=
  if message.data.isEmpty then
    some { s with handler := resume message.finishWrite }
  else
    (s.pipe.beginWrite message.data).map
      (fun pipe => { s with pipe, handler := .writing message.finishWrite })

/-- The handling of the first message: the checks of its resource name and offset, and the
start of the goroutine.
-/
def takeFirst (s : Call ρ γ) (message : WriteRequest) : Option (Call ρ γ) :=
  if message.resourceName = "" then
    some { s with
      handler := .deferred (some (.status .invalidArgument
        "missing resource name in first message")) }
  else if 0 < message.writeOffset then
    some { s with
      handler := .deferred (some (.status .invalidArgument
        ("resumable uploads not supported (offset " ++ toString message.writeOffset
          ++ " > 0)"))) }
  else
    match go.named message.resourceName with
    | none => none
    | some (.error err) => some { s with handler := .deferred (some err) }
    | some (.ok resource) =>
        takeData { s with resource := some resource, store := go.start } message

def recv (s : Call ρ γ) (message : WriteRequest) : Option (Call ρ γ) :=
  match s.handler, s.resource with
  | .recv, none => s.takeFirst go message
  | .recv, some _ => s.takeData message
  | _, _ => none

/-- `Recv` returns `io.EOF`, or another error. -/
def recvEnd (s : Call ρ γ) (failure : Option GoError) : Option (Call ρ γ) :=
  match s.handler, failure with
  | .recv, none => some { s with handler := .closing }
  | .recv, some err => some { s with handler := .deferred (some err) }
  | _, _ => none

def written (s : Call ρ γ) (finish : Bool) : Option (Call ρ γ) :=
  s.pipe.endWrite.map (fun next =>
    match next with
    | (data, none, pipe) =>
        { s with
          pipe
          totalWritten := s.totalWritten + data.length
          handler := resume finish }
    | (_, some err, pipe) =>
        { s with
          pipe
          handler := .deferred (some (.status .internal
            ("pipe write failed: " ++ (streamGoError err).text))) })

/-- `pw.Close` after the loop. -/
def closeWriter (s : Call ρ γ) : Call ρ γ :=
  { s with
    pipe := s.pipe.closeWrite none
    handler :=
      if s.resource.isSome then
        .waiting
      else
        .deferred (some (.status .invalidArgument "never received resource name")) }

/-- The `select` receives what `Put` returned. -/
def receive (s : Call ρ γ) : Option (Call ρ γ) :=
  match go.result s.store with
  | some none => some { s with handler := .replying }
  | some (some err) =>
      some { s with
        handler := .deferred (some (.status .internal
          ("store put failed: " ++ (streamGoError err).text))) }
  | none => none

/-- The deferred `pr.Close` and `pw.Close`, in this order. -/
def close (s : Call ρ γ) (err : Option GoError) : Call ρ γ :=
  { s with pipe := (s.pipe.closeRead none).closeWrite none, handler := .returned err }

variable {go} {s s' : Call ρ γ}

theorem takeData_spec {message : WriteRequest} (taken : s.takeData message = some s')
    : (message.data = [] ∧ s' = { s with handler := resume message.finishWrite })
      ∨ (message.data ≠ []
        ∧ s' = { s with
            pipe := { s.pipe with write := some ⟨[], message.data⟩ }
            handler := .writing message.finishWrite }) := by
  unfold takeData at taken
  split at taken
  next empty => exact Or.inl ⟨List.isEmpty_iff.mp empty, (Option.some.inj taken).symm⟩
  next something =>
    obtain ⟨pipe, begun, rfl⟩ := Option.map_eq_some_iff.mp taken
    obtain ⟨-, rfl⟩ := Pipe.beginWrite_spec begun
    exact Or.inr ⟨fun empty => something (List.isEmpty_iff.mpr empty), rfl⟩

theorem takeData_isSome (idle : s.pipe.write = none) (message : WriteRequest)
    : (s.takeData message).isSome = true := by
  unfold takeData
  split
  next => rfl
  next => simp [Pipe.beginWrite, idle]

theorem recv_isSome (at_ : s.handler = .recv) (idle : s.pipe.write = none) (message : WriteRequest)
    (modelled : s.resource = none → (go.named message.resourceName).isSome = true)
    : (s.recv go message).isSome = true := by
  unfold recv
  rw [at_]
  cases named : s.resource with
  | some resource => exact takeData_isSome idle message
  | none =>
      obtain ⟨parsed, found⟩ := Option.isSome_iff_exists.mp (modelled named)
      simp only [takeFirst, found]
      split_ifs
      · rfl
      · rfl
      · cases parsed with
        | error err => rfl
        | ok resource => exact takeData_isSome (by exact idle) message

/-- A message is refused by the checks of the first one, starts the goroutine, or brings it
more data.
-/
theorem recv_cases {message : WriteRequest} (taken : s.recv go message = some s')
    : s.handler = .recv
      ∧ ((s.resource = none ∧ ∃ err, s' = { s with handler := .deferred (some err) })
        ∨ (∃ resource, s.resource = none
          ∧ go.named message.resourceName = some (.ok resource)
          ∧ takeData { s with resource := some resource, store := go.start } message = some s')
        ∨ (∃ resource, s.resource = some resource ∧ s.takeData message = some s')) := by
  unfold recv at taken
  split at taken
  next at_ unnamed =>
    refine ⟨at_, ?_⟩
    unfold takeFirst at taken
    split at taken
    next => exact Or.inl ⟨unnamed, _, (Option.some.inj taken).symm⟩
    next =>
      split at taken
      next => exact Or.inl ⟨unnamed, _, (Option.some.inj taken).symm⟩
      next =>
        split at taken
        next => cases taken
        next => exact Or.inl ⟨unnamed, _, (Option.some.inj taken).symm⟩
        next resource parsed => exact Or.inr (Or.inl ⟨resource, unnamed, parsed, taken⟩)
  next resource at_ named => exact ⟨at_, Or.inr (Or.inr ⟨resource, named, taken⟩)⟩
  next => cases taken

theorem recvEnd_cases {failure : Option GoError} (taken : s.recvEnd failure = some s')
    : s.handler = .recv
      ∧ ((failure = none ∧ s' = { s with handler := .closing })
        ∨ ∃ err, failure = some err ∧ s' = { s with handler := .deferred (some err) }) := by
  unfold recvEnd at taken
  split at taken
  next at_ => exact ⟨at_, Or.inl ⟨rfl, (Option.some.inj taken).symm⟩⟩
  next err at_ => exact ⟨at_, Or.inr ⟨err, rfl, (Option.some.inj taken).symm⟩⟩
  next => cases taken

theorem written_cases {finish : Bool} (taken : s.written finish = some s')
    : (s.pipe.write.isSome = true ∧ s.pipe.rest = []
        ∧ s' = { s with
            pipe := { s.pipe with write := none }
            totalWritten := s.totalWritten + s.pipe.sent.length
            handler := resume finish })
      ∨ (s.pipe.isClosed = true
        ∧ ∃ err, s' = { s with
            pipe := { s.pipe with write := none }, handler := .deferred (some err) }) := by
  obtain ⟨⟨data, err, pipe⟩, ended, rfl⟩ := Option.map_eq_some_iff.mp taken
  obtain ⟨busy, rfl, rfl, ⟨rfl, all⟩ | ⟨rfl, shut, -⟩⟩ := Pipe.endWrite_spec ended
  · exact Or.inl ⟨busy, all, rfl⟩
  · exact Or.inr ⟨shut, _, rfl⟩

theorem receive_cases (taken : s.receive go = some s')
    : (go.result s.store = some none ∧ s' = { s with handler := .replying })
      ∨ ∃ cause err, go.result s.store = some (some cause)
        ∧ s' = { s with handler := .deferred (some err) } := by
  unfold receive at taken
  split at taken
  next done => exact Or.inl ⟨done, (Option.some.inj taken).symm⟩
  next cause done => exact Or.inr ⟨cause, _, done, (Option.some.inj taken).symm⟩
  next => cases taken

end Call

/-- `ProxyStore.Put` of an uncompressed blob. A compressed upload reads through a decoder and is
not modelled.
-/
def proxyPut : Goroutine Digest PutCall where
  named name :=
    match parseResourceName name true with
    | .error err => some (.error err)
    | .ok (_, true) => none
    | .ok (digest, false) => some (.ok digest)
  start := .checking
  result
    | .returned _ err => some err
    | _ => none

theorem parsed_of_named {name : String} {digest : Digest}
    (named : proxyPut.named name = some (.ok digest))
    : parseResourceName name true = .ok (digest, false) := by
  simp only [proxyPut] at named
  split at named
  next => cases named
  next => cases named
  next parsed =>
    cases named
    exact parsed

theorem returned_of_result {put : PutCall} {err : Option IoError}
    (done : proxyPut.result put = some err)
    : ∃ u, put = .returned u err := by
  cases put with
  | returned u err' =>
      cases done
      exact ⟨u, rfl⟩
  | _ => cases done

structure Writer extends Call Digest PutCall where
  store := .idle
  inbox : List WriteRequest
  tiers : Tiers

/-- The steps of the handler, of the goroutine and of its upload. -/
inductive Label
  | recv
  | written
  | closeWriter
  | receive
  | contextDone (err : GoError)
  | reply (err : Option GoError)
  | close
  | stat (outcome : Outcome)
  | drain (count : Nat)
  | drained
  | read (count : Nat)
  | readEnd
  | upload (event : Upload.Event)
  | putReturn
deriving DecidableEq, Repr

namespace Writer

def andCall (s : Writer) (call : Option (Call Digest PutCall)) : Option Writer :=
  call.map (fun call => { s with toCall := call })

def recv (failure : Option GoError) (s : Writer) : Option Writer :=
  match s.inbox with
  | [] => s.andCall (s.recvEnd failure)
  | message :: inbox => { s with inbox }.andCall (s.toCall.recv proxyPut message)

/-- The local check of `Put`. `BlobPath` slices the first four bytes of the hash. -/
def stat (s : Writer) (digest : Digest) (outcome : Outcome) : Option Writer :=
  if digest.hash.length < 4 then
    none
  else if outcome = .ok ∧ (s.tiers.files digest.hash).isSome then
    some { s with store := .draining }
  else
    some { s with store := .flying {} }

/-- The tee of `putImpl` reads from the handler's pipe. -/
def read (s : Writer) (digest : Digest) (u : Upload) (count : Nat) : Option Writer :=
  (s.pipe.read count).bind (fun next =>
    (u.source digest (.data next.1)).map
      (fun upload => { s with pipe := next.2, store := .flying upload }))

/-- The tee of `putImpl` is told that the handler's pipe was closed. -/
def readEnd (s : Writer) (digest : Digest) (u : Upload) : Option Writer :=
  s.pipe.readEnd.bind (fun err =>
    (u.source digest (.error err)).map (fun upload => { s with store := .flying upload }))

def step (failure : Option GoError) (s : Writer) (label : Label) : Option Writer :=
  match label, s.handler, s.store, s.resource with
  | .recv, _, _, _ => s.recv failure
  | .written, .writing finish, _, _ => s.andCall (s.toCall.written finish)
  | .closeWriter, .closing, _, _ => some { s with toCall := s.closeWriter }
  | .receive, .waiting, _, _ => s.andCall (s.toCall.receive proxyPut)
  | .contextDone err, .waiting, _, _ => some { s with handler := .deferred (some err) }
  | .reply err, .replying, _, _ => some { s with handler := .deferred err }
  | .close, .deferred err, _, _ => some { s with toCall := s.toCall.close err }
  | .stat outcome, _, .checking, some digest => s.stat digest outcome
  | .drain count, _, .draining, _ =>
      (s.pipe.read count).map (fun next => { s with pipe := next.2 })
  | .drained, _, .draining, _ =>
      s.pipe.readEnd.map (fun _ => { s with store := .returned {} none })
  | .read count, _, .flying u, some digest => s.read digest u count
  | .readEnd, _, .flying u, some digest => s.readEnd digest u
  | .upload (.source _), _, _, _ => none
  | .upload event, _, .flying u, some digest =>
      (u.step digest s.tiers event).map
        (fun next => { s with tiers := next.1, store := .flying next.2 })
  | .putReturn, _, .flying u, _ =>
      u.result.map (fun err => { s with store := .returned u err })
  | _, _, _, _ => none

end Writer

/-- A `Write` of a client stream over given tiers, with every order of the steps of its
goroutines and every outcome of the calls they make.
-/
def writeMachine (stream : Stream) (tiers : Tiers) : Machine Writer Label where
  initial s := s = { inbox := stream.messages, tiers }
  step := Writer.step stream.failure

namespace Writer

inductive Effect (failure : Option GoError) (s : Writer) : Label → Writer → Prop
  | ended (at_ : s.handler = .recv) (empty : s.inbox = []) (clean : failure = none)
    : Effect failure s .recv { s with handler := .closing }
  | failed {err} (at_ : s.handler = .recv) (empty : s.inbox = []) (broken : failure = some err)
    : Effect failure s .recv { s with handler := .deferred (some err) }
  | refused {message inbox err} (at_ : s.handler = .recv) (next : s.inbox = message :: inbox)
    (fresh : s.resource = none)
    : Effect failure s .recv { s with inbox, handler := .deferred (some err) }
  | starts {message inbox digest call} (at_ : s.handler = .recv)
    (next : s.inbox = message :: inbox) (fresh : s.resource = none)
    (named : parseResourceName message.resourceName true = .ok (digest, false))
    (taken
      : Call.takeData { s.toCall with resource := some digest, store := .checking } message
        = some call)
    : Effect failure s .recv { s with toCall := call, inbox }
  | continues {message inbox digest call} (at_ : s.handler = .recv)
    (next : s.inbox = message :: inbox) (known : s.resource = some digest)
    (taken : s.toCall.takeData message = some call)
    : Effect failure s .recv { s with toCall := call, inbox }
  | wrote {finish} (at_ : s.handler = .writing finish) (all : s.pipe.rest = [])
    : Effect failure s .written
        { s with
          pipe := { s.pipe with write := none }
          totalWritten := s.totalWritten + s.pipe.sent.length
          handler := Call.resume finish }
  | writeFails {finish err} (at_ : s.handler = .writing finish)
    (shut : s.pipe.isClosed = true)
    : Effect failure s .written
        { s with pipe := { s.pipe with write := none }, handler := .deferred (some err) }
  | closes (at_ : s.handler = .closing) : Effect failure s .closeWriter { s with toCall := s.closeWriter }
  | succeeds {u} (at_ : s.handler = .waiting) (done : s.store = .returned u none)
    : Effect failure s .receive { s with handler := .replying }
  | putFails {u cause err} (at_ : s.handler = .waiting)
    (done : s.store = .returned u (some cause))
    : Effect failure s .receive { s with handler := .deferred (some err) }
  | cancelled {err} (at_ : s.handler = .waiting)
    : Effect failure s (.contextDone err) { s with handler := .deferred (some err) }
  | replies {err} (at_ : s.handler = .replying)
    : Effect failure s (.reply err) { s with handler := .deferred err }
  | returns {err} (at_ : s.handler = .deferred err)
    : Effect failure s .close { s with toCall := s.toCall.close err }
  | hits {outcome digest} (at_ : s.store = .checking) (known : s.resource = some digest)
    (found : (s.tiers.files digest.hash).isSome = true)
    : Effect failure s (.stat outcome) { s with store := .draining }
  | misses {outcome digest} (at_ : s.store = .checking) (known : s.resource = some digest)
    : Effect failure s (.stat outcome) { s with store := .flying {} }
  | drains {count chunk pipe} (at_ : s.store = .draining)
    (taken : s.pipe.read count = some (chunk, pipe))
    : Effect failure s (.drain count) { s with pipe }
  | drained {err} (at_ : s.store = .draining) (shut : s.pipe.readEnd = some err)
    : Effect failure s .drained { s with store := .returned {} none }
  | reads {u digest count chunk pipe u'} (at_ : s.store = .flying u)
    (known : s.resource = some digest) (taken : s.pipe.read count = some (chunk, pipe))
    (effect : Upload.Effect digest s.tiers u (.source (.data chunk)) s.tiers u')
    : Effect failure s (.read count) { s with pipe, store := .flying u' }
  | sees {u digest err u'} (at_ : s.store = .flying u) (known : s.resource = some digest)
    (shut : s.pipe.readEnd = some err)
    (effect : Upload.Effect digest s.tiers u (.source (.error err)) s.tiers u')
    : Effect failure s .readEnd { s with store := .flying u' }
  | uploads {u digest event tiers u'} (at_ : s.store = .flying u)
    (known : s.resource = some digest) (inner : ∀ read, event ≠ .source read)
    (effect : Upload.Effect digest s.tiers u event tiers u')
    : Effect failure s (.upload event) { s with tiers, store := .flying u' }
  | putReturns {u err} (at_ : s.store = .flying u) (ended : u.result = some err)
    : Effect failure s .putReturn { s with store := .returned u err }

variable {failure : Option GoError} {s s' : Writer}

/-- `Recv` ends the loop, fails, or brings a message that is refused or whose data is taken.
-/
theorem recv_effect (taken : s.recv failure = some s')
    : Effect failure s .recv s' := by
  unfold recv at taken
  split at taken
  next empty =>
    obtain ⟨call, ended, rfl⟩ := Option.map_eq_some_iff.mp taken
    obtain ⟨at_, ⟨clean, rfl⟩ | ⟨err, broken, rfl⟩⟩ := Call.recvEnd_cases ended
    · exact .ended at_ empty clean
    · exact .failed at_ empty broken
  next message inbox next =>
    obtain ⟨call, received, rfl⟩ := Option.map_eq_some_iff.mp taken
    obtain ⟨at_, ⟨fresh, err, rfl⟩ | ⟨digest, fresh, named, data⟩ | ⟨digest, known, data⟩⟩ :=
      Call.recv_cases received
    · exact .refused at_ next fresh
    · exact .starts at_ next fresh (parsed_of_named named) data
    · exact .continues at_ next known data

theorem written_effect {finish : Bool} (at_ : s.handler = .writing finish)
    (taken : s.andCall (s.toCall.written finish) = some s')
    : Effect failure s .written s' := by
  obtain ⟨call, ended, rfl⟩ := Option.map_eq_some_iff.mp taken
  obtain ⟨-, all, rfl⟩ | ⟨shut, err, rfl⟩ := Call.written_cases ended
  · exact .wrote at_ all
  · exact .writeFails at_ shut

theorem receive_effect (at_ : s.handler = .waiting)
    (taken : s.andCall (s.toCall.receive proxyPut) = some s')
    : Effect failure s .receive s' := by
  obtain ⟨call, received, rfl⟩ := Option.map_eq_some_iff.mp taken
  obtain ⟨result, rfl⟩ | ⟨cause, err, result, rfl⟩ := Call.receive_cases received
  · obtain ⟨u, done⟩ := returned_of_result result
    exact .succeeds at_ done
  · obtain ⟨u, done⟩ := returned_of_result result
    exact .putFails at_ done

theorem stat_effect {digest : Digest} {outcome : Outcome} (at_ : s.store = .checking)
    (known : s.resource = some digest) (taken : s.stat digest outcome = some s')
    : Effect failure s (.stat outcome) s' := by
  unfold stat at taken
  split at taken
  next => cases taken
  next =>
    split at taken
    next found =>
      obtain rfl := Option.some.inj taken
      exact .hits at_ known found.2
    next =>
      obtain rfl := Option.some.inj taken
      exact .misses at_ known

theorem step_effect {label : Label} (taken : s.step failure label = some s')
    : Effect failure s label s' := by
  unfold step at taken
  split at taken
  next => exact recv_effect taken
  next at_ => exact written_effect at_ taken
  next at_ =>
    obtain rfl := Option.some.inj taken
    exact .closes at_
  next at_ => exact receive_effect at_ taken
  next at_ =>
    obtain rfl := Option.some.inj taken
    exact .cancelled at_
  next at_ =>
    obtain rfl := Option.some.inj taken
    exact .replies at_
  next at_ =>
    obtain rfl := Option.some.inj taken
    exact .returns at_
  next at_ known => exact stat_effect at_ known taken
  next at_ =>
    obtain ⟨next, read, rfl⟩ := Option.map_eq_some_iff.mp taken
    exact .drains at_ read
  next at_ =>
    obtain ⟨err, ended, rfl⟩ := Option.map_eq_some_iff.mp taken
    exact .drained at_ ended
  next at_ known =>
    obtain ⟨next, read, rest⟩ := Option.bind_eq_some_iff.mp taken
    obtain ⟨u', source, rfl⟩ := Option.map_eq_some_iff.mp rest
    exact .reads at_ known read (Upload.source_effect source)
  next at_ known =>
    obtain ⟨err, ended, rest⟩ := Option.bind_eq_some_iff.mp taken
    obtain ⟨u', source, rfl⟩ := Option.map_eq_some_iff.mp rest
    exact .sees at_ known ended (Upload.source_effect source)
  next => cases taken
  next inner at_ known =>
    obtain ⟨next, stepped, rfl⟩ := Option.map_eq_some_iff.mp taken
    exact .uploads at_ known inner (Upload.step_effect stepped)
  next at_ =>
    obtain ⟨err, ended, rfl⟩ := Option.map_eq_some_iff.mp taken
    exact .putReturns at_ ended
  next => cases taken

end Writer

end GoREgo.Server
