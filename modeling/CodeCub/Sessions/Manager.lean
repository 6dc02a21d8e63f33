import CodeCub.Python.DateTime
import CodeCub.Python.Lines
import CodeCub.Sessions.Storage

/-!
# Sessions and their files

`pico/session/manager.py`: a session is kept as lines of JSON, a metadata record before
the messages of each save.  A save appends, or rewrites the file when the messages on
disk are not a beginning of the session's; both first compare the file with what the
session last knew of it.
-/

namespace CodeCub
namespace Sessions

open Python

/-- The items of a JSON object. -/
abbrev Obj (F : Type) := List (Str × Json Str F)

/-! ## Paths -/

def isUnsafe (c : Char) : Bool :=
  c = '<' || c = '>' || c = ':' || c = quote || c = '/' || c = backslash || c = '|' || c = '?' ||
    c = '*'

def safeFilename (name : Str) : Str :=
  stripList isSpace (name.map fun c => if isUnsafe c then '_' else c)

/-- `sessions/<dir>/<name>.jsonl`; without a directory of its own the file lies in
`sessions` itself. -/
structure SessionPath where
  dir : Str
  name : Str
  deriving DecidableEq

/-- `key.partition(":")`, without the separator. -/
def partitionKey (key : Str) : Str × Str :=
  (key.takeWhile (· ≠ ':'), (key.dropWhile (· ≠ ':')).drop 1)

def sessionPath (key : Str) : SessionPath where
  dir :=
    let channel := safeFilename (partitionKey key).1
    if channel = ['.'] then [] else channel
  name := safeFilename (partitionKey key).2

/-- `f"{path.parent.name}:{path.stem}"`. -/
def keyFromPath (path : SessionPath) : Str :=
  (if path.dir = [] then "sessions".toList else path.dir) ++ ':' ::
    (if path.name = [] then ".jsonl".toList else path.name)

/-! ## Sessions -/

/-- What a session keeps on disk, timestamps apart. -/
structure Snapshot (F : Type) where
  messages : List (Obj F) := []
  metadata : Obj F := []
  lastConsolidated : Nat := 0
  pendingClarification : Option (Obj F) := none

structure Session (F : Type) extends Snapshot F where
  key : Str
  createdAt : DateTime
  updatedAt : DateTime
  persistedCount : Nat := 0
  persisted : Bool := false
  storageEpoch : Nat := 0
  persistedSnapshot : Option (Snapshot F) := none
  requiresRewrite : Bool := false

variable {F : Type}

namespace Session

/-- `record`, with the time of the call. -/
def record (session : Session F) (message : Obj F) (now : DateTime) : Session F :=
  { session with
    messages := session.messages ++
      [if (message.lookup "timestamp".toList).isSome then message
       else message ++ [("timestamp".toList, .str now.localChars)]]
    updatedAt := now }

def clear (session : Session F) (now : DateTime) : Session F :=
  { session with
    messages := []
    lastConsolidated := 0
    pendingClarification := none
    updatedAt := now }

/-- The user messages that are not consolidated yet. -/
def userStarts (session : Session F) : List Nat :=
  (List.range session.messages.length).filter fun i =>
    session.lastConsolidated ≤ i &&
      match (session.messages[i]?).bind fun message => message.lookup "role".toList with
      | some (.str role) => role == "user".toList
      | _ => false

/-- `undo_last_turn(n)`, without the count that it returns. -/
def undoLastTurn (session : Session F) (n : Nat) (now : DateTime) : Session F :=
  let starts := session.userStarts
  match (if n = 0 then none else if n ≤ starts.length then starts[starts.length - n]?
    else starts.head?) with
  | none => session
  | some cut =>
      { session with
        messages := session.messages.take cut
        pendingClarification := none
        updatedAt := now }

def reserved (key : Str) : Obj F :=
  [("source".toList, .null), ("channel".toList, .str (partitionKey key).1),
    ("chat_id".toList, .str (partitionKey key).2), ("title".toList, .null),
    ("parent_session_id".toList, .null)]

/-- `session.metadata = {**reserved, **session.metadata}`. -/
def prepare (session : Session F) : Session F :=
  { session with metadata := dict (reserved session.key ++ session.metadata) }

def metadataRecord (session : Session F) : Obj F :=
  [("_type".toList, .str "metadata".toList), ("key".toList, .str session.key),
    ("created_at".toList, .str session.createdAt.localChars),
    ("updated_at".toList, .str session.updatedAt.localChars),
    ("metadata".toList, .obj session.metadata),
    ("last_consolidated".toList, .int session.lastConsolidated),
    ("pending_clarification".toList,
      match session.pendingClarification with
      | none => .null
      | some pending => .obj pending)]

/-- The session after a write that returned. -/
def markPersisted (session : Session F) (storageEpoch : Nat) : Session F :=
  { session with
    persistedCount := session.messages.length
    persisted := true
    storageEpoch
    requiresRewrite := false
    persistedSnapshot := some session.toSnapshot }

end Session

/-! ## Reading a file -/

/-- What `_decode_payload` collects. -/
structure Payload (F : Type) extends Snapshot F where
  createdAt : Option DateTime := none
  updatedAt : Option DateTime := none
  hasMetadataKey : Bool := false
  partialTailFound : Bool := false

/-- `_validate_metadata_identity`. -/
def validateMetadataIdentity (requestedKey : Str) (data : Obj F) : Except StorageError Unit :=
  match data.lookup "key".toList with
  | some (.str recordKey) => if recordKey = requestedKey then .ok () else .error .keyMismatch
  | _ => .error .keyNotString

def readMetadata (data : Obj F) : Except StorageError (Obj F) :=
  match data.lookup "metadata".toList with
  | none => .ok []
  | some (.obj metadata) => .ok metadata
  | some _ => .error .metadataNotObject

def readOptionalStr (data : Obj F) (field : Str) (error : StorageError) :
    Except StorageError (Option Str) :=
  match data.lookup field with
  | none => .ok none
  | some .null => .ok none
  | some (.str text) => .ok (some text)
  | some _ => .error error

def readLastConsolidated (data : Obj F) : Except StorageError Nat :=
  match data.lookup "last_consolidated".toList with
  | none => .ok 0
  | some (.int n) => if n < 0 then .error .lastConsolidatedInvalid else .ok n.toNat
  | some _ => .error .lastConsolidatedInvalid

def readPendingClarification (data : Obj F) : Except StorageError (Option (Obj F)) :=
  match data.lookup "pending_clarification".toList with
  | none => .ok none
  | some .null => .ok none
  | some (.obj pending) => .ok (some pending)
  | some _ => .error .pendingClarificationNotObject

/-- `datetime.fromisoformat(text) if text else None`. -/
def readTimestamp : Option Str → Except StorageError (Option DateTime)
  | none => .ok none
  | some [] => .ok none
  | some text =>
      match DateTime.fromisoformat text with
      | none => .error .timestampInvalid
      | some (value, _) => .ok (some value)

def readMetadataRecord (requestedKey : Str) (data : Obj F) (payload : Payload F) :
    Except StorageError (Payload F) := do
  validateMetadataIdentity requestedKey data
  let metadata ← readMetadata data
  let createdAt ← readOptionalStr data "created_at".toList .createdAtNotString
  let updatedAt ← readOptionalStr data "updated_at".toList .updatedAtNotString
  let lastConsolidated ← readLastConsolidated data
  let pendingClarification ← readPendingClarification data
  let createdAt ← readTimestamp createdAt
  let updatedAt ← readTimestamp updatedAt
  return { payload with
    metadata, createdAt, updatedAt, lastConsolidated, pendingClarification
    hasMetadataKey := true }

def isMetadata (data : Obj F) : Bool :=
  match data.lookup "_type".toList with
  | some (.str kind) => kind == "metadata".toList
  | _ => false

/-- The records of a file with their line numbers. -/
def recordLines (raw : Str) : List (Nat × Str) :=
  ((splitlines raw).zipIdx 1).filterMap fun line =>
    let text := stripList isSpace line.1
    if text = [] then none else some (line.2, text)

section Text

variable [FiniteFloat F]

/-- The loop of `_decode_payload`; `ended` says that the file ends with a newline. -/
def decodeRecords (requestedKey : Str) (ended : Bool) :
    List (Nat × Str) → Payload F → Except StorageError (Payload F)
  | [], payload => .ok payload
  | (number, line) :: rest, payload =>
      match (loads line : Option (Json Str F)) with
      | none =>
          if rest = [] ∧ ended = false then .ok { payload with partialTailFound := true }
          else .error (.invalidJson number)
      | some (.obj data) =>
          if isMetadata data then
            match readMetadataRecord requestedKey data payload with
            | .error error => .error error
            | .ok payload => decodeRecords requestedKey ended rest payload
          else
            decodeRecords requestedKey ended rest
              { payload with messages := payload.messages ++ [data] }
      | some _ => .error (.notObject number)

/-- `raw.endswith(("\n", "\r"))`. -/
def endsLine (raw : Str) : Bool := raw.getLast? == some '\n' || raw.getLast? == some '\r'

/-- `_validate_fallback_identity`. -/
def validateFallbackIdentity (path : SessionPath) (requestedKey : Str) (hasMetadataKey : Bool) :
    Except StorageError Unit :=
  if hasMetadataKey ∨ requestedKey = keyFromPath path then .ok () else .error .notCanonical

def decodePayload (path : SessionPath) (requestedKey raw : Str) :
    Except StorageError (Payload F) := do
  let payload ← decodeRecords requestedKey (endsLine raw) (recordLines raw) {}
  validateFallbackIdentity path requestedKey payload.hasMetadataKey
  return payload

def objsEqv (a b : List (Obj F)) : Bool := Json.eqvItems (a.map Json.obj) (b.map Json.obj)

def optionEqv : Option (Obj F) → Option (Obj F) → Bool
  | none, none => true
  | some a, some b => (Json.obj a).eqv (.obj b)
  | _, _ => false

/-- The fields that an append compares. -/
def Snapshot.metadataEqv (a b : Snapshot F) : Bool :=
  (Json.obj a.metadata).eqv (.obj b.metadata) && a.lastConsolidated == b.lastConsolidated &&
    optionEqv a.pendingClarification b.pendingClarification

/-- `==` of two durable states. -/
def Snapshot.eqv (a b : Snapshot F) : Bool := objsEqv a.messages b.messages && a.metadataEqv b

def validateAppendBase (path : SessionPath) (requestedKey : Str) (expected : Snapshot F)
    (raw : Str) : Except StorageError Unit := do
  let payload : Payload F ← decodePayload path requestedKey raw
  if payload.partialTailFound then throw .partialTail
  if !payload.toSnapshot.metadataEqv expected then throw .metadataChanged

def validateRewriteBase (path : SessionPath) (requestedKey : Str) (expected : Snapshot F)
    (raw : Str) : Except StorageError Unit := do
  let payload : Payload F ← decodePayload path requestedKey raw
  if !payload.toSnapshot.eqv expected then throw .sessionChanged

/-- `_load_state`: the session and the epoch of the path. -/
def loadState (disk : Disk) (key : Str) (now : DateTime) :
    Except StorageError (Option (Session F) × Nat) := do
  let (raw, storageEpoch, known) ← lockedRead disk
  match raw with
  | none =>
      if known && storageEpoch == 0 then throw .missingPrimary
      return (none, storageEpoch)
  | some raw =>
      let payload ← decodePayload (sessionPath key) key raw
      let createdAt := payload.createdAt.getD now
      return (some
        { toSnapshot := payload.toSnapshot
          key, createdAt, storageEpoch
          updatedAt := payload.updatedAt.getD createdAt
          persistedCount := payload.messages.length
          persisted := true
          persistedSnapshot := some payload.toSnapshot
          requiresRewrite := payload.partialTailFound }, storageEpoch)

/-! ## Writing a file -/

namespace Session

def isDirty (session : Session F) : Bool :=
  if session.requiresRewrite then true
  else if !session.persisted then
    !session.messages.isEmpty || !session.metadata.isEmpty || session.lastConsolidated != 0 ||
      session.pendingClarification.isSome
  else
    match session.persistedSnapshot with
    | none => true
    | some snapshot => !snapshot.eqv session.toSnapshot

def dumpsObj (data : Obj F) : Str := dumps (.obj data)

/-- The messages on disk are a beginning of the session's. -/
def appendOnly (session : Session F) : Bool :=
  match session.persistedSnapshot with
  | none => false
  | some snapshot =>
      snapshot.messages.length ≤ session.messages.length &&
        objsEqv (session.messages.take snapshot.messages.length) snapshot.messages

def rewrites (session : Session F) (forceRewrite : Bool) : Bool :=
  forceRewrite || session.requiresRewrite || (session.persisted && !session.appendOnly)

def rewriteLines (session : Session F) : List Str :=
  dumpsObj session.metadataRecord :: session.messages.map dumpsObj

def appendLines (session : Session F) : List Str :=
  dumpsObj session.metadataRecord ::
    (session.messages.drop session.persistedCount).map dumpsObj

/-- The write of a prepared session. -/
def write (session : Session F) (disk : Disk) (forceRewrite : Bool) :
    Except StorageError (List Change × Nat) :=
  let path := sessionPath session.key
  if session.rewrites forceRewrite then
    atomicReplace disk (block session.rewriteLines) (some session.storageEpoch)
      (some session.persisted) session.persisted true fun raw =>
        match session.persistedSnapshot with
        | none => .ok ()
        | some expected => validateRewriteBase path session.key expected raw
  else
    lockedAppend disk session.appendLines (some session.storageEpoch) session.persisted
      (validateAppendBase path session.key (session.persistedSnapshot.getD session.toSnapshot))

/-- `save`: the session afterwards, and the changes on disk or the error. -/
def save (session : Session F) (disk : Disk) (forceRewrite : Bool) :
    Session F × Except StorageError (List Change) :=
  match session.prepare.write disk forceRewrite with
  | .error error => (session.prepare, .error error)
  | .ok (changes, epoch) => (session.prepare.markPersisted epoch, .ok changes)

/-- `commit_history_rewrite`. -/
def commitHistoryRewrite (session : Session F) (disk : Disk) :
    Session F × Except StorageError (List Change) :=
  if session.persisted || session.isDirty then session.save disk true
  else
    match lockedDelete disk (some session.storageEpoch) (some false) true true with
    | .error error => (session, .error error)
    | .ok (changes, _) => ({ session with storageEpoch := session.storageEpoch + 1 }, .ok changes)

end Session

end Text

end Sessions
end CodeCub
