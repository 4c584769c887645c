import GoREgo.Storage.Local

/-! The functions that `ProxyStore` runs under its singleflight group: the write-through of
`putImpl`, the upload loop of `putFileImpl` and the remote fetch of `Get`. An event is one
call of the code together with what the code leaves open: how much a read returns, whether a
call fails, what the remote store does.
-/

namespace GoREgo.Proxy

open Lib LocalStore

/-- The two tiers. The remote one is asked by hash and size together. -/
structure Tiers where
  files : Files
  remote : Digest → Option Bytes

def Tiers.holds (tiers : Tiers) (digest : Digest) : Bool :=
  (tiers.remote digest).isSome

def Tiers.commit (tiers : Tiers) (digest : Digest) (content : Bytes) : Tiers :=
  { tiers with remote := Function.update tiers.remote digest (some content) }

/-- What one call of a reader's `Read` returns: the next bytes, or an error. -/
inductive Read
  | data (bytes : Bytes)
  | error (err : IoError)
deriving DecidableEq, Repr

/-- What a reader has left after one `Read`. It returns its bytes in order and reports
`io.EOF` after the last one; any other error may come at any point.
-/
def Read.after (rest : Bytes) : Read → Option Bytes
  | .data bytes => if bytes.isPrefixOf rest then some (rest.drop bytes.length) else none
  | .error .eof => if rest.isEmpty then some rest else none
  | .error _ => some rest

/-- A running `putImpl`: `LocalStore.Put` reads the source through a tee into a pipe, and a
goroutine runs the remote `Put` on the other end of the pipe.
-/
structure Upload where
  localPut : Put := .mkdirAll
  pipe : Pipe UInt8 GoError := {}
  /-- Whether `pw` has been closed after the local `Put`. -/
  closed : Bool := false
  /-- What the remote `Put` has read. -/
  received : Bytes := []
  /-- The error that ended the remote `Put`'s reader. -/
  seen : Option IoError := none
  /-- What the remote `Put` returned. -/
  remote : Option (Option IoError) := none
deriving DecidableEq, Repr

namespace Upload

/-- The events of `putImpl`: those of the local `Put` on the tee, of the pipe's writer, and
of the goroutine that runs the remote `Put`.
-/
inductive Event
  | source (read : Read)
  | teeReturn
  | disk (outcome : Outcome)
  | closeWriter
  | remoteRead (count : Nat)
  | remoteEnd
  | commit
  | remoteReturn (err : Option IoError)
deriving DecidableEq, Repr

/-- The tee reads from the source. Bytes are written to the pipe before the local copy gets
them; an error goes to the local copy.
-/
def source (digest : Digest) (u : Upload) (read : Read) : Option Upload :=
  match u.localPut, u.pipe.write, read with
  | .copy _, none, .data bytes =>
      if bytes.isEmpty then
        none
      else
        (u.pipe.beginWrite bytes).map (fun pipe => { u with pipe })
  | .copy written, none, .error err =>
      ((Put.copy written).endCopy digest err).map (fun localPut => { u with localPut })
  | _, _, _ => none

/-- The write to the pipe returns. The tee passes its error on to the local copy as the
error of the read, with the bytes that were taken.
-/
def teeReturn (digest : Digest) (u : Upload) : Option Upload :=
  match u.localPut, u.pipe.endWrite with
  | .copy written, some (data, none, pipe) =>
      some { u with localPut := .copy (written ++ data), pipe }
  | .copy written, some (data, some err, pipe) =>
      ((Put.copy (written ++ data)).endCopy digest err).map
        (fun localPut => { u with localPut, pipe })
  | _, _ => none

/-- One event of `putImpl`. The local `Put` makes no filesystem call while it waits in the
tee; the writer is closed when it has returned, with its error if it failed; the remote
store commits what its `Put` has read after the reader reported `io.EOF`; and the goroutine
closes the reader with the error of the remote `Put`.
-/
def step (digest : Digest) (tiers : Tiers) (u : Upload) : Event → Option (Tiers × Upload)
  | .source read => (u.source digest read).map (fun next => (tiers, next))
  | .teeReturn => (u.teeReturn digest).map (fun next => (tiers, next))
  | .disk outcome =>
      if u.pipe.write.isSome then
        none
      else
        (u.localPut.disk digest tiers.files outcome).map
          (fun next => ({ tiers with files := next.1 }, { u with localPut := next.2 }))
  | .closeWriter =>
      match u.localPut, u.closed with
      | .returned _ err, false =>
          some (tiers, { u with pipe := u.pipe.closeWrite (err.map .other), closed := true })
      | _, _ => none
  | .remoteRead count =>
      if u.remote.isSome then
        none
      else
        (u.pipe.read count).map (fun next =>
          (tiers, { u with received := u.received ++ next.1, pipe := next.2 }))
  | .remoteEnd =>
      if u.remote.isSome then
        none
      else
        u.pipe.readEnd.map (fun err => (tiers, { u with seen := some err }))
  | .commit =>
      if u.remote.isNone && u.seen == some .eof then
        some (tiers.commit digest u.received, u)
      else
        none
  | .remoteReturn err =>
      if u.remote.isSome then
        none
      else
        some (tiers, { u with remote := some err, pipe := u.pipe.closeRead err })

/-- What `putImpl` returns once both sides have ended: the local error before the remote one.
-/
def result (u : Upload) : Option (Option IoError) :=
  match u.closed, u.localPut, u.remote with
  | true, .returned _ (some err), some _ => some (some (.other err))
  | true, .returned _ none, some remoteErr => some remoteErr
  | _, _, _ => none

end Upload

/-- A running `putFileImpl`: the local `PutFile`, then attempts at the remote `Put`. -/
inductive FileUpload
  | store (call : PutFile)
  | openFile (attempt : Nat)
  | send (attempt : Nat)
  | failed (attempt : Nat) (err : IoError)
  | returned (err : Option IoError)
deriving DecidableEq, Repr

namespace FileUpload

inductive Event
  | disk (outcome : Outcome)
  | copyChunk (count : Nat)
  | stored
  | commit
  | remoteReturn (err : Option IoError)
  | checkContext (cancelled : Option GoError)
deriving DecidableEq, Repr

/-- One event of `putFileImpl` for a source with the contents `file`. The remote store
commits the whole file, which it reads up to `io.EOF` without a pipe.
-/
def step (limit : Nat) (digest : Digest) (file : Bytes) (tiers : Tiers)
    : FileUpload → Event → Option (Tiers × FileUpload)
  | .store call, .disk outcome =>
      (call.disk digest file tiers.files outcome).map
        (fun next => ({ tiers with files := next.1 }, .store next.2))
  | .store call, .copyChunk count =>
      (call.copyChunk file count).map (fun next => (tiers, .store next))
  | .store (.returned _ (some err)), .stored => some (tiers, .returned (some (.other err)))
  | .store (.returned _ none), .stored => some (tiers, .openFile 1)
  | .openFile attempt, .disk .ok => some (tiers, .send attempt)
  | .openFile _, .disk (.fail err) => some (tiers, .returned (some (.other err)))
  | .send attempt, .commit => some (tiers.commit digest file, .send attempt)
  | .send _, .remoteReturn none => some (tiers, .returned none)
  | .send attempt, .remoteReturn (some err) => some (tiers, .failed attempt err)
  | .failed _ _, .checkContext (some cancelled) =>
      some (tiers, .returned (some (.other cancelled)))
  | .failed attempt err, .checkContext none =>
      if attempt < limit then
        some (tiers, .openFile (attempt + 1))
      else
        some (tiers, .returned (some err))
  | _, _ => none

end FileUpload

/-- The function that `Get` runs on a local miss: the remote `Get`, then a local `Put` of
what its reader returns.
-/
inductive Fetch
  | get
  | fill (rest : Bytes) (localPut : Put)
  | returned (err : Option IoError)
deriving DecidableEq, Repr

namespace Fetch

inductive Event
  | remoteGet (outcome : Outcome)
  | source (read : Read)
  | disk (outcome : Outcome)
  | stored
deriving DecidableEq, Repr

def copy (digest : Digest) (localPut : Put) : Read → Option Put
  | .data bytes => localPut.write bytes
  | .error err => localPut.endCopy digest err

/-- One event of the fetch. The remote reader returns the blob that the remote tier held at
the call of `Get`, and may fail at any point.
-/
def step (digest : Digest) (tiers : Tiers) : Fetch → Event → Option (Tiers × Fetch)
  | .get, .remoteGet .ok =>
      (tiers.remote digest).map (fun content => (tiers, .fill content .mkdirAll))
  | .get, .remoteGet (.fail err) => some (tiers, .returned (some (.other err)))
  | .fill rest localPut, .source read =>
      (read.after rest).bind (fun rest' =>
        (copy digest localPut read).map (fun next => (tiers, .fill rest' next)))
  | .fill rest localPut, .disk outcome =>
      (localPut.disk digest tiers.files outcome).map
        (fun next => ({ tiers with files := next.1 }, .fill rest next.2))
  | .fill _ (.returned _ err), .stored => some (tiers, .returned (err.map .other))
  | _, _ => none

end Fetch

/-- What a call asks for. The data of a `Put` is what its reader returns before `io.EOF`,
and the file of a `PutFile` is its contents.
-/
inductive Request
  | put (digest : Digest) (data : Bytes)
  | putFile (digest : Digest) (file : Bytes)
  | get (digest : Digest)
  | has (digest : Digest)
deriving DecidableEq, Repr

def Request.digest : Request → Digest
  | .put digest _ => digest
  | .putFile digest _ => digest
  | .get digest => digest
  | .has digest => digest

def Request.file : Request → Bytes
  | .putFile _ file => file
  | _ => []

/-- A function running under the singleflight group; a `Put` comes with the bytes that its
reader has still to return.
-/
inductive Flight
  | put (rest : Bytes) (upload : Upload)
  | putFile (impl : FileUpload)
  | get (fetch : Fetch)
deriving DecidableEq, Repr

def Request.flight : Request → Option Flight
  | .put _ data => some (.put data {})
  | .putFile _ _ => some (.putFile (.store .stat))
  | .get _ => some (.get .get)
  | .has _ => none

namespace Flight

inductive Event
  | put (event : Upload.Event)
  | putFile (event : FileUpload.Event)
  | get (event : Fetch.Event)
deriving DecidableEq, Repr

def remaining (rest : Bytes) : Upload.Event → Option Bytes
  | .source read => read.after rest
  | _ => some rest

/-- The event by which a remote `Put` returns nil. -/
def Event.succeeds (event : Event) : Bool :=
  event == .put (.remoteReturn none) || event == .putFile (.remoteReturn none)

def advance (limit : Nat) (request : Request) (tiers : Tiers)
    : Flight → Event → Option (Tiers × Flight)
  | .put rest upload, .put event =>
      (remaining rest event).bind (fun rest' =>
        (upload.step request.digest tiers event).map (fun next => (next.1, .put rest' next.2)))
  | .putFile impl, .putFile event =>
      (impl.step limit request.digest request.file tiers event).map
        (fun next => (next.1, .putFile next.2))
  | .get fetch, .get event =>
      (fetch.step request.digest tiers event).map (fun next => (next.1, .get next.2))
  | _, _ => none

/-- One event of a flight over a remote store whose `Put` returns nil only when it holds a
blob for the digest.
-/
def step (limit : Nat) (request : Request) (tiers : Tiers) (flight : Flight) (event : Event)
    : Option (Tiers × Flight) :=
  if event.succeeds && !tiers.holds request.digest then
    none
  else
    flight.advance limit request tiers event

def result : Flight → Option (Option IoError)
  | .put _ upload => upload.result
  | .putFile (.returned err) => some err
  | .get (.returned err) => some err
  | _ => none

end Flight

end GoREgo.Proxy
