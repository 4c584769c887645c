import Mathlib.Algebra.Order.Ring.Int

/-! Wire data and error values shared by the scheduler, the servers and the stores. -/

namespace GoREgo

abbrev Bytes := List UInt8

inductive Code
  | ok | canceled | unknown | invalidArgument | deadlineExceeded | notFound
  | alreadyExists | permissionDenied | resourceExhausted | failedPrecondition | aborted
  | outOfRange | unimplemented | internal | unavailable | dataLoss | unauthenticated
deriving DecidableEq, Repr

/-- The name that a code has inside an error text. -/
def Code.name : Code → String
  | .ok => "OK"
  | .canceled => "Canceled"
  | .unknown => "Unknown"
  | .invalidArgument => "InvalidArgument"
  | .deadlineExceeded => "DeadlineExceeded"
  | .notFound => "NotFound"
  | .alreadyExists => "AlreadyExists"
  | .permissionDenied => "PermissionDenied"
  | .resourceExhausted => "ResourceExhausted"
  | .failedPrecondition => "FailedPrecondition"
  | .aborted => "Aborted"
  | .outOfRange => "OutOfRange"
  | .unimplemented => "Unimplemented"
  | .internal => "Internal"
  | .unavailable => "Unavailable"
  | .dataLoss => "DataLoss"
  | .unauthenticated => "Unauthenticated"

structure Status where
  code : Code
  message : String
deriving DecidableEq, Repr

/-- The error values that the code builds: `status.Error`, a plain error, and
`fmt.Errorf("text: %w", inner)`.
-/
inductive GoError
  | status (code : Code) (message : String)
  | plain (text : String)
  | wrap (text : String) (inner : GoError)
deriving DecidableEq, Repr

/-- The text of an error, as its `Error` method gives it. -/
def GoError.text : GoError → String
  | .status code message => "rpc error: code = " ++ code.name ++ " desc = " ++ message
  | .plain text => text
  | .wrap text inner => text ++ ": " ++ inner.text

/-- The code of the first status error in the chain of wrapped errors. -/
def GoError.code? : GoError → Option Code
  | .status code _ => some code
  | .plain _ => none
  | .wrap _ inner => inner.code?

/-- `status.Convert`: a status error keeps its own message, a wrapped one keeps the code
and takes the whole text, and any other error has the code `Unknown`.
-/
def GoError.convert : GoError → Status
  | .status code message => { code, message }
  | err => { code := err.code?.getD .unknown, message := err.text }

/-- A digest: the hash of the content in hex digits, and its length in bytes. -/
structure Digest where
  hash : String
  sizeBytes : Int
deriving DecidableEq, Repr

structure OutputFile where
  path : String
  digest : Digest
  isExecutable : Bool
deriving DecidableEq, Repr

structure OutputDirectory where
  path : String
  treeDigest : Digest
  rootDirectoryDigest : Digest
deriving DecidableEq, Repr

structure ActionResult where
  exitCode : Int
  stdoutDigest : Option Digest
  stderrDigest : Option Digest
  outputFiles : List OutputFile
  outputDirectories : List OutputDirectory
deriving DecidableEq, Repr

structure ExecuteResponse where
  result : ActionResult
  cachedResult : Bool
deriving DecidableEq, Repr

inductive ExecutionStage
  | queued | executing | completed
deriving DecidableEq, Repr

structure ExecuteOperationMetadata where
  stage : ExecutionStage
  actionDigest : Digest
deriving DecidableEq, Repr

inductive Operation.Result
  | unset
  | error (status : Status)
  | response (value : ExecuteResponse)
deriving DecidableEq, Repr

/-- A `google.longrunning.Operation`. Packing a message into an `Any` fails only on text
that is not UTF-8, which none of the strings here can hold, so the packed value is the
message itself.
-/
structure Operation where
  name : String
  metadata : ExecuteOperationMetadata
  done : Bool
  result : Operation.Result
deriving DecidableEq, Repr

end GoREgo
