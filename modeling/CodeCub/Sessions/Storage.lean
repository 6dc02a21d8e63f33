import CodeCub.Python.Utf8
import CodeCub.Python.Str

/-!
# Locked files with a generation

`pico/utils/atomic_io.py`: a file with a marker and an epoch beside it.  An operation
under the lock first decides from what is on disk and then makes its changes one after
the other; it is modelled by the list of these changes, so that a crash leaves a prefix
of the list.  Failing system calls are not modelled.
-/

namespace CodeCub
namespace Sessions

open Python

/-- What the storage and the session manager raise. -/
inductive StorageError where
  /-- `StorageCorruptionError`: the marker is there and the epoch is not. -/
  | missingEpoch
  | invalidEpoch
  /-- `StorageCorruptionError`: generation 0 is known and its file is missing. -/
  | missingPrimary
  /-- `UnicodeDecodeError`. -/
  | notUtf8
  /-- `FileNotFoundError`: the file is gone. -/
  | deleted
  /-- `FileNotFoundError`: the epoch is another one. -/
  | replaced
  /-- `FileNotFoundError`: the file came or went. -/
  | existenceChanged
  /-- `FileNotFoundError` of the two validators. -/
  | partialTail
  | metadataChanged
  | sessionChanged
  /-- `StorageCorruptionError` of `_decode_payload`, with the line where it has one. -/
  | invalidJson (line : Nat)
  | notObject (line : Nat)
  | keyNotString
  | keyMismatch
  | metadataNotObject
  | createdAtNotString
  | updatedAtNotString
  | lastConsolidatedInvalid
  | pendingClarificationNotObject
  | timestampInvalid
  | notCanonical
  deriving DecidableEq

/-- Whether the error is an `OSError`. -/
def StorageError.isOSError : StorageError → Bool
  | .deleted | .replaced | .existenceChanged | .partialTail | .metadataChanged
  | .sessionChanged => true
  | _ => false

/-- A path, its temporary file, and the files of its generation. -/
structure Disk where
  primary : Option Bytes := none
  primaryTmp : Option Bytes := none
  known : Option Bytes := none
  knownTmp : Option Bytes := none
  epoch : Option Bytes := none
  epochTmp : Option Bytes := none
  generationDir : Bool := false
  deriving DecidableEq

/-- One change on disk. -/
inductive Change where
  | makeDir
  | writeKnownTmp (data : Bytes)
  | renameKnown
  | writeEpochTmp (data : Bytes)
  | renameEpoch
  | writeTmp (data : Bytes)
  | renameTmp
  | create
  | append (byte : UInt8)
  | unlink

def Disk.apply (disk : Disk) : Change → Disk
  | .makeDir => { disk with generationDir := true }
  | .writeKnownTmp data => { disk with knownTmp := some data }
  | .renameKnown => { disk with known := disk.knownTmp, knownTmp := none }
  | .writeEpochTmp data => { disk with epochTmp := some data }
  | .renameEpoch => { disk with epoch := disk.epochTmp, epochTmp := none }
  | .writeTmp data => { disk with primaryTmp := some data }
  | .renameTmp => { disk with primary := disk.primaryTmp, primaryTmp := none }
  | .create => { disk with primary := some (disk.primary.getD []) }
  | .append byte => { disk with primary := disk.primary.map (· ++ [byte]) }
  | .unlink => { disk with primary := none }

def Disk.exec (disk : Disk) (changes : List Change) : Disk := changes.foldl Disk.apply disk

/-! ## The epoch -/

/-- `int(text)` on ASCII text. -/
def asciiInt (text : Str) : Option Int :=
  let text := stripList isSpace text
  let (negative, text) :=
    match text with
    | '-' :: rest => (true, rest)
    | '+' :: rest => (false, rest)
    | _ => (false, text)
  let groups := text.splitOn '_'
  if groups.all (· ≠ []) ∧ groups.flatten.all Python.isDigit then
    let value := Nat.ofDigitChars 10 groups.flatten 0
    some (if negative then -(value : Int) else value)
  else none

/-- `bytes.decode("ascii")`. -/
def decodeAscii (data : Bytes) : Option Str :=
  if data.all fun b => b.toNat < 0x80 then some (data.map fun b => Char.ofNat b.toNat) else none

/-- `str(epoch)`, as bytes. -/
def epochBytes (epoch : Nat) : Bytes := encodeUtf8 (Nat.toDigits 10 epoch)

/-- The text of the marker. -/
def knownBytes : Bytes := encodeUtf8 ['1']

def readEpoch (disk : Disk) : Except StorageError Nat :=
  match disk.epoch with
  | none => if disk.known.isSome then .error .missingEpoch else .ok 0
  | some data =>
      match decodeAscii data with
      | none => .error .invalidEpoch
      | some raw =>
          match asciiInt raw with
          | none => .error .invalidEpoch
          | some epoch => if epoch < 0 then .error .invalidEpoch else .ok epoch.toNat

def epochIsKnown (disk : Disk) : Bool := disk.known.isSome || disk.epoch.isSome

/-- `read_utf8_with_incomplete_tail`: the text, with `U+FFFD` for a code point that was
cut off at the end. -/
def readUtf8WithIncompleteTail (payload : Bytes) : Except StorageError Str :=
  match scanUtf8 payload with
  | none => .error .notUtf8
  | some (text, cut) => .ok (if cut then text ++ [Char.ofNat 0xfffd] else text)

def markEpochKnown (disk : Disk) : List Change :=
  if disk.known.isSome then [] else [.makeDir, .writeKnownTmp knownBytes, .renameKnown]

def writeEpoch (disk : Disk) (epoch : Nat) : List Change :=
  markEpochKnown disk ++ [.writeEpochTmp (epochBytes epoch), .renameEpoch]

def ensureEpoch (disk : Disk) (epoch : Nat) : List Change :=
  if disk.epoch.isSome then [] else writeEpoch disk epoch

def checkEpoch (disk : Disk) (expectedEpoch : Option Nat) : Except StorageError Nat := do
  let current ← readEpoch disk
  if disk.primary.isNone && epochIsKnown disk && current == 0 then throw .missingPrimary
  if expectedEpoch.any (· ≠ current) then throw .replaced
  return current

/-! ## Operations -/

/-- `locked_read`: text, epoch and whether there is a generation. -/
def lockedRead (disk : Disk) : Except StorageError (Option Str × Nat × Bool) := do
  if disk.primary.isNone && !epochIsKnown disk then return (none, 0, false)
  let raw ←
    match disk.primary with
    | some payload => (readUtf8WithIncompleteTail payload).map some
    | none => pure none
  let epoch ← readEpoch disk
  return (raw, epoch, epochIsKnown disk)

/-- `validate_existing` on a file that exists. -/
def validateExisting (disk : Disk) (validate : Str → Except StorageError Unit) :
    Except StorageError Unit :=
  match disk.primary with
  | none => .ok ()
  | some payload =>
      match readUtf8WithIncompleteTail payload with
      | .error error => .error error
      | .ok raw => validate raw

/-- The text of a block of lines. -/
def block (lines : List Str) : Str := lines.flatMap fun line => line ++ ['\n']

/-- The bytes that a block appends: a line that a crash left without its newline is
ended first. -/
def appended (disk : Disk) (lines : List Str) : Bytes :=
  let payload := encodeUtf8 (block lines)
  match disk.primary with
  | none => payload
  | some old => if old ≠ [] ∧ old.getLast? ≠ some 0x0a then 0x0a :: payload else payload

def lockedAppend (disk : Disk) (lines : List Str) (expectedEpoch : Option Nat)
    (requireExisting : Bool) (validate : Str → Except StorageError Unit) :
    Except StorageError (List Change × Nat) := do
  if lines = [] then return ([], ← readEpoch disk)
  if requireExisting && disk.primary.isNone then throw .deleted
  let epoch ← checkEpoch disk expectedEpoch
  validateExisting disk validate
  return (ensureEpoch disk epoch ++ .create :: (appended disk lines).map .append, epoch)

def atomicReplace (disk : Disk) (data : Str) (expectedEpoch : Option Nat)
    (expectedExists : Option Bool) (requireExisting incrementEpoch : Bool)
    (validate : Str → Except StorageError Unit) : Except StorageError (List Change × Nat) := do
  if expectedExists.any (· ≠ disk.primary.isSome) then throw .existenceChanged
  if requireExisting && disk.primary.isNone then throw .deleted
  let epoch ← checkEpoch disk expectedEpoch
  validateExisting disk validate
  let nextEpoch := if incrementEpoch then epoch + 1 else epoch
  return (.writeTmp (encodeUtf8 data) :: writeEpoch disk nextEpoch ++ [.renameTmp], nextEpoch)

def lockedDelete (disk : Disk) (expectedEpoch : Option Nat) (expectedExists : Option Bool)
    (fenceMissing incrementEpoch : Bool) : Except StorageError (List Change × Bool) := do
  if expectedExists.any (· ≠ disk.primary.isSome) then throw .existenceChanged
  let priorEpoch ← checkEpoch disk expectedEpoch
  if disk.primary.isNone && !fenceMissing then return ([], false)
  let fence := if incrementEpoch then writeEpoch disk (priorEpoch + 1) else []
  if disk.primary.isNone then return (fence, false)
  return (fence ++ [.unlink], true)

end Sessions
end CodeCub
