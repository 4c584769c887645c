import GoREgo.Lib.Pipe
import GoREgo.Proto

/-! `LocalStore`: how `Put` and `PutFile` bring a blob to its path in the CAS directory, and
`UpdateActionResult` an action result to its path in the AC directory, one filesystem call at
a time, with what their temporary files hold in between.
-/

namespace GoREgo

abbrev IoError := Lib.StreamError GoError

/-- The error as `%w` and `%v` format it. -/
def streamGoError : IoError → GoError
  | .eof => .plain "EOF"
  | .closedPipe => .plain "io: read/write on closed pipe"
  | .other err => err

namespace LocalStore

/-- The blobs of the CAS directory. `BlobPath` is a function of the hash alone, so a blob is
found by its hash whatever the size in the digest.
-/
abbrev Files := String → Option Bytes

/-- How a call that may fail on its own ends. -/
inductive Outcome
  | ok
  | fail (err : GoError)
deriving DecidableEq, Repr

/-- The next filesystem call of `Put`, with the contents of its temporary file. -/
inductive Put
  | mkdirAll
  | createTemp
  | copy (written : Bytes)
  | close (written : Bytes)
  | rename (written : Bytes)
  | chmod
  | deferred (temp : Option Bytes) (err : Option GoError)
  | returned (temp : Option Bytes) (err : Option GoError)
deriving DecidableEq, Repr

/-- The error of a copy whose length is not the one in the digest. -/
def sizeMismatch (digest : Digest) (got : Nat) : GoError :=
  .plain ("digest size mismatch: expected " ++ toString digest.sizeBytes
    ++ ", got " ++ toString got)

namespace Put

def temp : Put → Option Bytes
  | .copy written => some written
  | .close written => some written
  | .rename written => some written
  | .deferred temp _ => temp
  | .returned temp _ => temp
  | _ => none

def stored : Put → Bool
  | .chmod => true
  | .deferred _ err => err.isNone
  | .returned _ err => err.isNone
  | _ => false

/-- `io.Copy` writes what it read to the temporary file. -/
def write : Put → Bytes → Option Put
  | .copy written, data => some (.copy (written ++ data))
  | _, _ => none

/-- `io.Copy` ends with an error of its reader. Only `io.EOF` ends it well, and then the
number of copied bytes is compared with the size.
-/
def endCopy (digest : Digest) : Put → IoError → Option Put
  | .copy written, .eof =>
      if (written.length : Int) = digest.sizeBytes then
        some (.close written)
      else
        some (.deferred (some written) (some (sizeMismatch digest written.length)))
  | .copy written, err =>
      some (.deferred (some written) (some (.wrap "failed to write data" (streamGoError err))))
  | _, _ => none

/-- One filesystem call of `Put`. A failure after `CreateTemp` runs the deferred removal of
the temporary file, and so does success, when the file has been moved away.
-/
def disk (digest : Digest) (files : Files) : Put → Outcome → Option (Files × Put)
  | .mkdirAll, .ok => some (files, .createTemp)
  | .mkdirAll, .fail err =>
      some (files, .returned none (some (.wrap "failed to create directory" err)))
  | .createTemp, .ok => some (files, .copy [])
  | .createTemp, .fail err =>
      some (files, .returned none (some (.wrap "failed to create temp file" err)))
  | .copy _, .ok => none
  | .copy written, .fail err =>
      some (files, .deferred (some written) (some (.wrap "failed to write data" err)))
  | .close written, .ok => some (files, .rename written)
  | .close written, .fail err =>
      some (files, .deferred (some written) (some (.wrap "failed to close temp file" err)))
  | .rename written, .ok => some (Function.update files digest.hash (some written), .chmod)
  | .rename written, .fail err =>
      some (files, .deferred (some written) (some (.wrap "failed to rename temp file" err)))
  | .chmod, .ok => some (files, .deferred none none)
  | .chmod, .fail err =>
      some (files, .deferred none (some (.wrap "failed to make file read-only" err)))
  | .deferred _ err, .ok => some (files, .returned none err)
  | .deferred temp err, .fail _ => some (files, .returned temp err)
  | .returned _ _, _ => none

end Put

/-- The next filesystem call of `PutFile`, with the contents of its temporary file. -/
inductive PutFile
  | stat
  | mkdirAll
  | link
  | open
  | create
  | copy (written : Bytes)
  | close (written : Bytes)
  | chmod (linked : Bool) (written : Bytes)
  | rename (written : Bytes)
  | deferred (temp : Option Bytes) (err : Option GoError)
  | returned (temp : Option Bytes) (err : Option GoError)
deriving DecidableEq, Repr

namespace PutFile

def stored : PutFile → Bool
  | .deferred _ err => err.isNone
  | .returned _ err => err.isNone
  | _ => false

/-- The fallback `io.Copy` moves up to `count` more bytes of the source. -/
def copyChunk (file : Bytes) (count : Nat) : PutFile → Option PutFile
  | .copy written => some (.copy (file.take (written.length + count)))
  | _ => none

/-- The texts of a failed `Chmod`, for a hard link and for a copy. -/
def chmodText (linked : Bool) : String :=
  if linked then
    "failed to set read-only permissions on hardlinked file"
  else
    "failed to set read-only permissions on copied file"

/-- One filesystem call of `PutFile` for a source with the contents `file`. A blob that
exists is kept; a failed `Stat` counts as an absent blob and a failed `Link` as a reason to
copy. The size in the digest is not compared.
-/
def disk (digest : Digest) (file : Bytes) (files : Files)
    : PutFile → Outcome → Option (Files × PutFile)
  | .stat, .ok =>
      if (files digest.hash).isSome then
        some (files, .returned none none)
      else
        some (files, .mkdirAll)
  | .stat, .fail _ => some (files, .mkdirAll)
  | .mkdirAll, .ok => some (files, .link)
  | .mkdirAll, .fail err =>
      some (files, .returned none (some (.wrap "failed to create directory" err)))
  | .link, .ok => some (files, .chmod true file)
  | .link, .fail _ => some (files, .open)
  | .open, .ok => some (files, .create)
  | .open, .fail err => some (files, .deferred none (some err))
  | .create, .ok => some (files, .copy [])
  | .create, .fail err => some (files, .deferred none (some err))
  | .copy written, .ok => if written = file then some (files, .close written) else none
  | .copy written, .fail err => some (files, .deferred (some written) (some err))
  | .close written, .ok => some (files, .chmod false written)
  | .close written, .fail err => some (files, .deferred (some written) (some err))
  | .chmod _ written, .ok => some (files, .rename written)
  | .chmod linked written, .fail err =>
      some (files, .deferred (some written) (some (.wrap (chmodText linked) err)))
  | .rename written, .ok =>
      some (Function.update files digest.hash (some written), .deferred none none)
  | .rename written, .fail err =>
      some (files, .deferred (some written)
        (some (.wrap "failed to rename temp file to final path" err)))
  | .deferred _ err, .ok => some (files, .returned none err)
  | .deferred temp err, .fail _ => some (files, .returned temp err)
  | .returned _ _, _ => none

end PutFile

/-- The next call of `UpdateActionResult`: the marshalled result it writes, and the contents
of its temporary file.
-/
inductive UpdateActionResult
  | marshal
  | mkdirAll (data : Bytes)
  | createTemp (data : Bytes)
  | write (data written : Bytes)
  | close (written : Bytes)
  | rename (written : Bytes)
  | deferred (temp : Option Bytes) (err : Option GoError)
  | returned (temp : Option Bytes) (err : Option GoError)
deriving DecidableEq, Repr

namespace UpdateActionResult

/-- One call of `UpdateActionResult` for a result that marshals to `marshalled`. `Write`
returns without an error when it has written everything; errors are returned as they are.
-/
def disk (digest : Digest) (marshalled : Bytes) (files : Files)
    : UpdateActionResult → Outcome → Option (Files × UpdateActionResult)
  | .marshal, .ok => some (files, .mkdirAll marshalled)
  | .marshal, .fail err => some (files, .returned none (some err))
  | .mkdirAll data, .ok => some (files, .createTemp data)
  | .mkdirAll _, .fail err => some (files, .returned none (some err))
  | .createTemp data, .ok => some (files, .write data [])
  | .createTemp _, .fail err => some (files, .returned none (some err))
  | .write data written, .ok => if written = data then some (files, .close written) else none
  | .write _ written, .fail err => some (files, .deferred (some written) (some err))
  | .close written, .ok => some (files, .rename written)
  | .close written, .fail err => some (files, .deferred (some written) (some err))
  | .rename written, .ok =>
      some (Function.update files digest.hash (some written), .deferred none none)
  | .rename written, .fail err => some (files, .deferred (some written) (some err))
  | .deferred _ err, .ok => some (files, .returned none err)
  | .deferred temp err, .fail _ => some (files, .returned temp err)
  | .returned _ _, _ => none

end UpdateActionResult

end LocalStore

end GoREgo
