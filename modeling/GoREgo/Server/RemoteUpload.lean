import GoREgo.Scheduler.Model
import GoREgo.Server.AnyStore

/-! `RemoteStore.Put` of an uncompressed blob: the resource name that it gives the upload, and
the loop that reads the data and sends it in messages.
-/

namespace GoREgo.RemoteStore

open Lib Server

/-- `ResourceNameWrite`: the resource name of an upload under a UUID. -/
def resourceNameWrite (uuid : UUID) (digest : Digest) : String :=
  "uploads/" ++ uuid.text ++ "/blobs/" ++ digest.hash ++ "/" ++ toString digest.sizeBytes

/-- The digests that a resource name can carry: a hash of hex digits, and a size that an
`int64` holds.
-/
structure Named (digest : Digest) : Prop where
  nonempty : digest.hash ≠ ""
  hex : digest.hash.toList.all isHexDigit = true
  nonneg : 0 ≤ digest.sizeBytes
  small : digest.sizeBytes < 2 ^ 63

theorem digitsValue_toDigits (n : Nat) : digitsValue (Nat.toDigits 10 n) = n :=
  Nat.ofDigitChars_toDigits (by decide) (by decide)

theorem no_slash_of_hex {digits : List Char} (hex : digits.all isHexDigit = true)
    : '/' ∉ digits := by
  intro member
  exact absurd (List.all_eq_true.mp hex '/' member) (by decide)

theorem Named.size_digits {digest : Digest} (named : Named digest)
    : (toString digest.sizeBytes).toList = Nat.toDigits 10 digest.sizeBytes.toNat := by
  have printed : toString digest.sizeBytes = digest.sizeBytes.toNat.repr := by
    obtain ⟨n, same⟩ := Int.eq_ofNat_of_zero_le named.nonneg
    rw [same]
    rfl
  rw [printed, Nat.toList_repr]

theorem resourceNameWrite_segments (uuid : UUID) {digest : Digest} (named : Named digest)
    : (resourceNameWrite uuid digest).toList.splitOn '/'
      = ["uploads".toList, uuid.text.toList, "blobs".toList, digest.hash.toList,
          Nat.toDigits 10 digest.sizeBytes.toNat] := by
  have joined : (resourceNameWrite uuid digest).toList
      = ['/'].intercalate ["uploads".toList, uuid.text.toList, "blobs".toList, digest.hash.toList,
          Nat.toDigits 10 digest.sizeBytes.toNat] := by
    simp only [resourceNameWrite, String.toList_append, named.size_digits]
    simp [List.intercalate]
  rw [joined, List.splitOn_intercalate]
  · intro segment member
    simp only [List.mem_cons, List.not_mem_nil, or_false] at member
    rcases member with rfl | rfl | rfl | rfl | rfl
    · decide
    · intro slash
      exact absurd (List.all_eq_true.mp uuid.chars '/' slash) (by decide)
    · decide
    · exact no_slash_of_hex named.hex
    · intro slash
      exact absurd (Nat.isDigit_of_mem_toDigits (by decide) (by decide) slash) (by decide)
  · exact List.cons_ne_nil _ _

/-- The server reads the digest back from the name that the client gave the upload. -/
theorem parseResourceName_resourceNameWrite (uuid : UUID) {digest : Digest}
    (named : Named digest)
    : parseResourceName (resourceNameWrite uuid digest) true = .ok (digest, false) := by
  have digits : (Nat.toDigits 10 digest.sizeBytes.toNat).all Char.isDigit = true :=
    List.all_eq_true.mpr (fun c member =>
      Nat.isDigit_of_mem_toDigits (by decide) (by decide) member)
  have some_digits : (Nat.toDigits 10 digest.sizeBytes.toNat).isEmpty = false :=
    List.isEmpty_eq_false_iff.mpr Nat.toDigits_ne_nil
  have hash : digest.hash.toList.isEmpty = false := by
    rw [List.isEmpty_eq_false_iff]
    intro empty
    exact named.nonempty (String.toList_eq_nil_iff.mp empty)
  have id : uuid.text.toList.isEmpty = false := by
    rw [List.isEmpty_eq_false_iff, ← List.length_pos_iff, uuid.length_eq]
    decide
  have matched : matchResource true
      ((resourceNameWrite uuid digest).toList.splitOn '/').reverse
      = some (digest.hash.toList, Nat.toDigits 10 digest.sizeBytes.toNat, false) := by
    simp [resourceNameWrite_segments uuid named, matchResource, digits, some_digits, hash,
      named.hex, isUpload, id]
  have small : digest.sizeBytes.toNat < 2 ^ 63 := by
    have bound := named.small
    have nonneg := named.nonneg
    omega
  simp only [parseResourceName, matched]
  rw [digitsValue_toDigits, if_pos small, String.ofList_toList,
    Int.toNat_of_nonneg named.nonneg]

def int64 (n : Int) : Int := n.bmod (2 ^ 64)

/-- Where `Put` is: at `Read`, at `Send` with a message and the error of the last `Read`, at
`Send` of the last message, at `CloseAndRecv`, waiting for the response, or returned. After a
`Send` that failed it has that error in hand.
-/
inductive PutPlace
  | read
  | send (message : WriteRequest) (readErr : Option IoError)
  | finish
  | closeAndRecv (sendErr : Option GoError)
  | awaiting (sendErr : Option GoError)
  | returned (err : Option IoError)
deriving DecidableEq, Repr

/-- A running `Put`: what its reader has still to return, in reads without an error and a last
one with an error, and the offset of the next message. A `Read` fills a buffer of 32 KiB;
nothing here depends on that bound.
-/
structure Put where
  reads : List Bytes
  last : Bytes
  lastErr : IoError
  offset : Int := 0
  place : PutPlace := .read
deriving DecidableEq, Repr

/-- A compressed upload is taken for complete with every size but zero, another one with the size
of the digest.
-/
def isCommitSuccessful (compression : Bool) (digest : Digest) (committedSize : Int) : Bool :=
  if compression then
    committedSize != 0
  else
    committedSize == digest.sizeBytes

namespace Put

def afterRead : Option IoError → PutPlace
  | none => .read
  | some .eof => .finish
  | some err => .returned (some err)

/-- The message for the bytes of a `Read`; only the one at offset 0 has the resource name. -/
def dataMessage (name : String) (offset : Int) (data : Bytes) : WriteRequest :=
  { resourceName := if 0 < offset then "" else name
    writeOffset := offset
    data
    finishWrite := false }

theorem dataMessage_first {offset : Int} (zero : offset = 0) (name : String) (data : Bytes)
    : (dataMessage name offset data).resourceName = name
      ∧ (dataMessage name offset data).writeOffset = 0 := by
  subst zero
  exact ⟨rfl, rfl⟩

def finishMessage (name : String) (offset : Int) : WriteRequest :=
  { resourceName := if offset = 0 then name else ""
    writeOffset := offset
    data := []
    finishWrite := true }

def handle (name : String) (offset : Int) (data : Bytes) (readErr : Option IoError)
    : PutPlace :=
  if data.isEmpty then
    afterRead readErr
  else
    .send (dataMessage name offset data) readErr

def read (name : String) (p : Put) : Option Put :=
  match p.place, p.reads with
  | .read, data :: reads =>
      some { p with reads, place := handle name p.offset data none }
  | .read, [] =>
      some { p with place := handle name p.offset p.last (some p.lastErr) }
  | _, _ => none

def send (name : String) (p : Put) : Option (WriteRequest × Put) :=
  match p.place with
  | .send message readErr =>
      some (message, { p with
        offset := int64 (p.offset + message.data.length)
        place := afterRead readErr })
  | .finish => some (finishMessage name p.offset, { p with place := .closeAndRecv none })
  | _ => none

/-- A `Send` that fails because the server has ended the stream. -/
def sendFails (p : Put) (err : GoError) : Option Put :=
  match p.place with
  | .send _ _ => some { p with place := .closeAndRecv (some err) }
  | .finish => some { p with place := .closeAndRecv (some err) }
  | _ => none

/-- `CloseAndRecv` closes the sending side. -/
def closeSend (p : Put) : Option Put :=
  match p.place with
  | .closeAndRecv sendErr => some { p with place := .awaiting sendErr }
  | _ => none

/-- What `Put` returns for a response. After a `Send` that failed, only a response with the
right size makes up for it.
-/
def respond (digest : Digest) (sendErr : Option GoError)
    : Except GoError Int → Option IoError
  | .ok committedSize =>
      if isCommitSuccessful false digest committedSize then
        none
      else
        some (.other (sendErr.getD (.plain ("incomplete write: committed "
          ++ toString committedSize ++ ", expected " ++ toString digest.sizeBytes))))
  | .error err => some (.other (sendErr.getD err))

/-- `CloseAndRecv` returns. -/
def response (digest : Digest) (p : Put) (answer : Except GoError Int) : Option Put :=
  match p.place with
  | .awaiting sendErr => some { p with place := .returned (respond digest sendErr answer) }
  | _ => none

end Put

end GoREgo.RemoteStore
