import CodeCub.Machine.Run
import CodeCub.Sessions.Manager

/-!
# Session managers on one key

Any number of managers open, change, save and delete the session of a key.  Each of them
caches at most one session object; a caller may hold on to an object that is in no cache
any more and still save it.
-/

namespace CodeCub
namespace Sessions

open Python

/-- The session objects of a key, and for each manager the one in its cache. -/
structure Desk (F : Type) where
  sessions : List (Session F) := []
  cache : Nat → Option Nat := fun _ => none

/-- The managers of a key and its path. -/
structure Room (F : Type) extends Desk F where
  disk : Disk := {}

inductive RoomStep (F : Type) where
  | getOrCreate (manager : Nat) (now : DateTime)
  | peek (manager : Nat) (now : DateTime)
  | record (session : Nat) (message : Obj F) (now : DateTime)
  | clear (session : Nat) (now : DateTime)
  | undoLastTurn (session n : Nat) (now : DateTime)
  /-- The caller sets the other fields that are saved. -/
  | update (session : Nat) (metadata : Obj F) (lastConsolidated : Nat)
      (pendingClarification : Option (Obj F))
  | save (manager session : Nat) (forceRewrite : Bool)
  | commitHistoryRewrite (manager session : Nat)
  | flush (manager : Nat)
  | invalidate (manager : Nat)
  | delete (manager : Nat) (allowCachedMissing : Bool) (expectedEpoch : Option Nat)
      (expectedExists : Option Bool)

inductive RoomAnswer where
  | returned (session : Nat)
  | missing
  | done
  | raised (error : StorageError)
  | result (value : Bool)
  deriving DecidableEq

variable {F : Type}

namespace Room

/-- A caller changes a session object. -/
def modify (room : Room F) (i : Nat) (change : Session F → Session F) : Room F × RoomAnswer :=
  ({ room with sessions := room.sessions.modify i change }, .done)

/-- A manager puts a new session object into its cache. -/
def keep (room : Room F) (manager : Nat) (session : Session F) : Room F × RoomAnswer :=
  ({ room with
      sessions := room.sessions ++ [session]
      cache := Function.update room.cache manager (some room.sessions.length) },
    .returned room.sessions.length)

/-- A write of the object `i`: what it changed, or the error that it raised. -/
def finish (room : Room F) (manager i : Nat)
    (written : Session F × Except StorageError (List Change)) : Room F × RoomAnswer :=
  match written.2 with
  | .error error => ({ room with sessions := room.sessions.set i written.1 }, .raised error)
  | .ok changes =>
      ({ sessions := room.sessions.set i written.1
         cache := Function.update room.cache manager (some i)
         disk := room.disk.exec changes }, .done)

section Text

variable [FiniteFloat F]

def getOrCreate (room : Room F) (key : Str) (manager : Nat) (now : DateTime) :
    Room F × RoomAnswer :=
  match room.cache manager with
  | some i => (room, .returned i)
  | none =>
      match loadState room.disk key now with
      | .error error => (room, .raised error)
      | .ok (some session, _) => room.keep manager session
      | .ok (none, storageEpoch) =>
          room.keep manager { key, storageEpoch, createdAt := now, updatedAt := now }

def peek (room : Room F) (key : Str) (manager : Nat) (now : DateTime) : Room F × RoomAnswer :=
  match room.cache manager with
  | some i => (room, .returned i)
  | none =>
      match loadState room.disk key now with
      | .error error => (room, .raised error)
      | .ok (some session, _) =>
          ({ room with sessions := room.sessions ++ [session] }, .returned room.sessions.length)
      | .ok (none, _) => (room, .missing)

def save (room : Room F) (manager i : Nat) (forceRewrite : Bool) : Room F × RoomAnswer :=
  match room.sessions[i]? with
  | none => (room, .done)
  | some session => room.finish manager i (session.save room.disk forceRewrite)

def commitHistoryRewrite (room : Room F) (manager i : Nat) : Room F × RoomAnswer :=
  match room.sessions[i]? with
  | none => (room, .done)
  | some session => room.finish manager i (session.commitHistoryRewrite room.disk)

/-- `flush` saves the cached session when it is dirty; it raises nothing. -/
def flush (room : Room F) (manager : Nat) : Room F × RoomAnswer :=
  match room.cache manager with
  | none => (room, .result true)
  | some i =>
      if room.sessions[i]?.any Session.isDirty then
        let written := room.save manager i false
        (written.1, .result (written.2 = .done))
      else (room, .result true)

end Text

def delete (room : Room F) (manager : Nat) (allowCachedMissing : Bool) (expectedEpoch : Option Nat)
    (expectedExists : Option Bool) : Room F × RoomAnswer :=
  let cached := (room.cache manager).isSome
  match lockedDelete room.disk expectedEpoch expectedExists cached true with
  | .error error => (room, if error.isOSError then .result false else .raised error)
  | .ok (changes, removed) =>
      ({ room with
          cache := Function.update room.cache manager none
          disk := room.disk.exec changes },
        .result (removed || (allowCachedMissing && cached && expectedExists == some false)))

end Room

/-- The managers of the key. -/
def roomMachine [FiniteFloat F] (key : Str) : Machine (Room F) (RoomStep F) RoomAnswer where
  step room
    | .getOrCreate manager now => room.getOrCreate key manager now
    | .peek manager now => room.peek key manager now
    | .record i message now => room.modify i fun session => session.record message now
    | .clear i now => room.modify i fun session => session.clear now
    | .undoLastTurn i n now => room.modify i fun session => session.undoLastTurn n now
    | .update i metadata lastConsolidated pendingClarification =>
        room.modify i fun session =>
          { session with metadata, lastConsolidated, pendingClarification }
    | .save manager i forceRewrite => room.save manager i forceRewrite
    | .commitHistoryRewrite manager i => room.commitHistoryRewrite manager i
    | .flush manager => room.flush manager
    | .invalidate manager =>
        ({ room with cache := Function.update room.cache manager none }, .done)
    | .delete manager allowCachedMissing expectedEpoch expectedExists =>
        room.delete manager allowCachedMissing expectedEpoch expectedExists

end Sessions
end CodeCub
