import CodeCub.Sessions.RoundTrip
import CodeCub.Sessions.Room

/-!
# Concurrent writers of one session

Beside the managers of a key runs a ledger: the messages in the file, each with the
session object that saved it.  What an object last knew of the file, how much of the
ledger it had seen when it was loaded, and whether the session was rewritten or deleted
since, are noted with it.
-/

namespace CodeCub
namespace Sessions

open Python

variable {F : Type} [FiniteFloat F]

/-! ## The ledger -/

/-- What is noted of a session object. -/
structure Note (F : Type) where
  /-- Its state when it was last loaded or saved; `none` where there was no file. -/
  last : Option (Snapshot F)
  /-- The length of the ledger when it was loaded. -/
  seen : Nat
  /-- The session was rewritten by another object, or deleted, since. -/
  fenced : Bool

def Note.messages (note : Note F) : List (Obj F) := (note.last.map Snapshot.messages).getD []

/-- The managers of a key, with the ledger of what is saved. -/
structure Watch (F : Type) where
  room : Room F := {}
  notes : List (Note F) := []
  ledger : List (Nat × Obj F) := []

/-- What a step did to the file. -/
inductive Event where
  | quiet
  /-- A new session object. -/
  | loaded
  | appended (session : Nat)
  | rewritten (session : Nat)
  /-- The path of a session that was never saved got a new epoch. -/
  | renewed (session : Nat)
  | deleted
  deriving DecidableEq

/-- A save of the object `i` that returned. -/
def savedEvent (room : Room F) (i : Nat) (forceRewrite : Bool) : Event :=
  match room.sessions[i]? with
  | none => .quiet
  | some session => if session.prepare.rewrites forceRewrite then .rewritten i else .appended i

def committedEvent (room : Room F) (i : Nat) : Event :=
  match room.sessions[i]? with
  | none => .quiet
  | some session =>
      if session.persisted || session.isDirty then .rewritten i else .renewed i

def event (room : Room F) (step : RoomStep F) (after : Room F × RoomAnswer) : Event :=
  match step with
  | .getOrCreate _ _ | .peek _ _ =>
      if room.sessions.length < after.1.sessions.length then .loaded else .quiet
  | .save _ i forceRewrite =>
      if after.2 = .done then savedEvent room i forceRewrite else .quiet
  | .commitHistoryRewrite _ i => if after.2 = .done then committedEvent room i else .quiet
  | .flush manager =>
      match room.cache manager with
      | none => .quiet
      | some i =>
          if room.sessions[i]?.any Session.isDirty ∧ after.2 = .result true then
            savedEvent room i false
          else .quiet
  | .delete _ _ _ _ => if after.1.disk = room.disk then .quiet else .deleted
  | _ => .quiet

def Note.fence (note : Note F) : Note F := { note with fenced := true }

/-- The state of the object `i`. -/
def Room.snapshot? (room : Room F) (i : Nat) : Option (Snapshot F) :=
  room.sessions[i]?.map Session.toSnapshot

def Room.messagesOf (room : Room F) (i : Nat) : List (Obj F) :=
  ((room.snapshot? i).map Snapshot.messages).getD []

/-- The notes and the ledger after an event, with the managers as they are then. -/
def Watch.follow (watch : Watch F) (room : Room F) : Event → Watch F
  | .quiet => { watch with room }
  | .loaded =>
      { watch with
        room
        notes := watch.notes ++
          [{ last := (room.sessions.getLast?.filter Session.persisted).map Session.toSnapshot
             seen := watch.ledger.length
             fenced := false }] }
  | .appended i =>
      { room
        notes := watch.notes.modify i fun note => { note with last := room.snapshot? i }
        -- What the object has beyond its last load or save is in the file now.
        ledger := watch.ledger ++
          ((room.messagesOf i).drop
            ((watch.notes[i]?.map Note.messages).getD []).length).map fun message => (i, message) }
  | .rewritten i =>
      { room
        notes := (watch.notes.map Note.fence).set i
          { last := room.snapshot? i, seen := 0, fenced := false }
        ledger := (room.messagesOf i).map fun message => (i, message) }
  | .renewed i =>
      { room
        notes := (watch.notes.map Note.fence).set i { last := none, seen := 0, fenced := false }
        ledger := [] }
  | .deleted => { room, notes := watch.notes.map Note.fence, ledger := [] }

def watchMachine (key : Str) : Machine (Watch F) (RoomStep F) RoomAnswer where
  step watch step :=
    let after := (roomMachine key).step watch.room step
    (watch.follow after.1 (event watch.room step after), after.2)

/-! ## What the writers are promised -/

/-- The messages that a fresh load finds. -/
def Room.fileMessages (room : Room F) (key : Str) (now : DateTime) :
    Except StorageError (List (Obj F)) :=
  (loadState room.disk key now).map fun loaded =>
    ((loaded.1.map fun session => session.messages).getD [])

/-- The entries of the object `i` in a ledger. -/
def entries (i : Nat) (ledger : List (Nat × Obj F)) : List (Obj F) :=
  (ledger.filter (·.1 = i)).map Prod.snd

/-- The file is the ledger, and what an object that is not fenced has saved is what it
had seen there and then its own entries, in its order. -/
def Watch.Accounted (watch : Watch F) (key : Str) : Prop :=
  (∀ now, ∃ messages, watch.room.fileMessages key now = .ok messages ∧
    objsEqv messages (watch.ledger.map Prod.snd) = true) ∧
  ∀ i note, watch.notes[i]? = some note → note.fenced = false →
    objsEqv note.messages ((watch.ledger.take note.seen).map Prod.snd ++
      entries i (watch.ledger.drop note.seen)) = true

/-- The file holds the state: there is none, or a fresh load finds an equal one. -/
def Room.FileIs (room : Room F) (key : Str) : Option (Snapshot F) → Prop
  | none => room.disk.primary = none
  | some state => ∀ now, ∃ loaded epoch, loadState room.disk key now = .ok (some loaded, epoch) ∧
      loaded.toSnapshot.eqv state = true

/-- A rewrite found the state that its object last loaded or saved. -/
def Watch.Exact (watch : Watch F) (key : Str) (step : RoomStep F) : Prop :=
  ∀ i, (event watch.room step ((roomMachine key).step watch.room step) = .rewritten i ∨
      event watch.room step ((roomMachine key).step watch.room step) = .renewed i) →
    ∃ note, watch.notes[i]? = some note ∧ watch.room.FileIs key note.last

/-- The object that a step saves. -/
def savedObject (room : Room F) : RoomStep F → Option Nat
  | .save _ i _ => some i
  | .commitHistoryRewrite _ i => some i
  | .flush manager =>
      (room.cache manager).filter fun i => room.sessions[i]?.any Session.isDirty
  | _ => none

/-- A save of a fenced object fails and changes nothing on disk. -/
def Watch.Fenced (watch : Watch F) (key : Str) (step : RoomStep F) : Prop :=
  ∀ i note, savedObject watch.room step = some i → watch.notes[i]? = some note →
    note.fenced = true →
    ((watchMachine key).next watch step).room.disk = watch.room.disk ∧
      ((∃ error, (watchMachine key).out watch step = .raised error) ∨
        (∃ manager, step = .flush manager) ∧ (watchMachine key).out watch step = .result false)

/-- What callers put into sessions: JSON without separators, and no message that looks
like a metadata record. -/
def RoomStep.Clean : RoomStep F → Prop
  | .record _ message _ =>
      Obj.Representable message ∧ Obj.Separated message ∧ isMetadata message = false
  | .update _ metadata _ pending =>
      Obj.Representable metadata ∧ Obj.Separated metadata ∧
        ∀ value ∈ pending, Obj.Representable value ∧ Obj.Separated value
  | _ => True

/-! ## The invariant -/

/-- A session that only callers of clean steps have changed. -/
structure Session.Clean (session : Session F) : Prop where
  storable : session.toSnapshot.Storable
  separated : session.Separated

/-- A session object agrees with its note. -/
structure Session.Noted (session : Session F) (key : Str) (note : Note F) (epoch : Nat)
    (file : Option (List (Obj F))) (i : Nat) (ledger : List (Nat × Obj F)) : Prop where
  key : session.key = key
  clean : session.Clean
  whole : session.requiresRewrite = false
  snapshot : session.persistedSnapshot = note.last
  persisted : session.persisted = note.last.isSome
  count : session.persistedCount = note.messages.length
  representable : ∀ state ∈ note.last, state.Representable
  epoch_le : session.storageEpoch ≤ epoch
  fenced : note.fenced = true ↔ session.storageEpoch ≠ epoch
  present : note.fenced = false → note.last.isSome = true → file.isSome = true
  seen : note.fenced = false → note.seen ≤ ledger.length
  accounted : note.fenced = false → objsEqv note.messages
    ((ledger.take note.seen).map Prod.snd ++ entries i (ledger.drop note.seen)) = true

structure Watch.Inv (watch : Watch F) (key : Str) (epoch : Nat) (file : Option (List (Obj F))) :
    Prop where
  holds : watch.room.disk.Holds epoch file
  separated : ∀ records ∈ file, ∀ data ∈ records, Obj.Separated data
  emptied : file = none → watch.ledger = []
  state : ∀ records ∈ file, ∃ state, FileState key records state ∧
    objsEqv state.messages (watch.ledger.map Prod.snd) = true
  length : watch.notes.length = watch.room.sessions.length
  noted : ∀ (i : Nat) (session : Session F) (note : Note F), watch.room.sessions[i]? = some session →
    watch.notes[i]? = some note → session.Noted key note epoch file i watch.ledger

/-! ## Sessions that callers change -/

namespace Session

omit [FiniteFloat F] in
theorem Clean.prepare {session : Session F} (h : session.Clean) : session.prepare.Clean where
  storable := storable_prepare h.storable
  separated := ⟨h.separated.key, (separated_prepare session h.separated.key
    (representable_obj.mp h.storable.metadata).1).mpr h.separated.metadata, h.separated.pending,
    h.separated.messages⟩

omit [FiniteFloat F] in
theorem Clean.markPersisted {session : Session F} (h : session.Clean) (storageEpoch : Nat) :
    (session.markPersisted storageEpoch).Clean where
  storable := h.storable
  separated := ⟨h.separated.key, h.separated.metadata, h.separated.pending, h.separated.messages⟩

omit [FiniteFloat F] in
theorem Clean.edit {session : Session F} (h : session.Clean) (fields : Snapshot F)
    (hfields : fields.Storable) (hmetadata : Obj.Separated fields.metadata)
    (hpending : ∀ pending ∈ fields.pendingClarification, Obj.Separated pending)
    (hmessages : ∀ message ∈ fields.messages, Obj.Separated message) (updatedAt : DateTime) :
    (session.edit fields updatedAt).Clean where
  storable := hfields
  separated := ⟨h.separated.key, hmetadata, hpending, hmessages⟩

omit [FiniteFloat F] in
theorem lookup_none {data : Obj F} {name : Str} (h : (data.lookup name).isSome = false) :
    name ∉ data.map Prod.fst := by
  intro hmem
  obtain ⟨field, hfield, rfl⟩ := List.mem_map.mp hmem
  rw [Option.isSome_eq_false_iff, Option.isNone_iff_eq_none, List.lookup_eq_none_iff] at h
  simpa using h field hfield

/-- A change by a caller touches only the fields that are saved. -/
def Edits (change : Session F → Session F) : Prop :=
  ∀ session, session.Clean → ∃ fields updatedAt,
    change session = session.edit fields updatedAt ∧ (session.edit fields updatedAt).Clean

omit [FiniteFloat F] in
theorem edits_messages {session : Session F} (h : session.Clean) {messages : List (Obj F)}
    (hrep : ∀ message ∈ messages, Obj.Representable message)
    (hplain : ∀ message ∈ messages, isMetadata message = false)
    (hsep : ∀ message ∈ messages, Obj.Separated message) (updatedAt : DateTime) :
    (session.edit { session.toSnapshot with messages } updatedAt).Clean :=
  h.edit { session.toSnapshot with messages }
    ⟨⟨hrep, h.storable.metadata, h.storable.pending⟩, hplain⟩ h.separated.metadata
    h.separated.pending hsep updatedAt

/-- A recorded message with its timestamp. -/
def stamped (message : Obj F) (now : DateTime) : Obj F :=
  if (message.lookup "timestamp".toList).isSome then message
  else message ++ [("timestamp".toList, .str now.localChars)]

omit [FiniteFloat F] in
theorem representable_stamped {message : Obj F} (h : Obj.Representable message) (now : DateTime) :
    Obj.Representable (stamped message now) := by
  rw [stamped]
  split
  · exact h
  · next hnone =>
      have hnew := lookup_none (Bool.not_eq_true _ ▸ hnone)
      obtain ⟨hnodup, hvalues⟩ := representable_obj.mp h
      refine representable_obj.mpr ⟨?_, ?_⟩
      · rw [List.map_append, List.nodup_append]
        refine ⟨hnodup, List.nodup_singleton _, ?_⟩
        rintro name hname _ hlast rfl
        have hsame : name = "timestamp".toList := List.mem_singleton.mp hlast
        exact hnew (hsame ▸ hname)
      · intro field hfield
        rcases List.mem_append.mp hfield with hold | hlast
        · exact hvalues field hold
        · rw [List.mem_singleton.mp hlast]
          trivial

omit [FiniteFloat F] in
theorem separated_stamped {message : Obj F} (h : Obj.Separated message) (now : DateTime) :
    Obj.Separated (stamped message now) := by
  rw [stamped]
  split
  · exact h
  · rw [separated_obj] at h ⊢
    intro field hfield
    rcases List.mem_append.mp hfield with hold | hlast
    · exact h field hold
    · rw [List.mem_singleton.mp hlast]
      have hname : IsAscii "timestamp".toList := by decide
      exact ⟨separated_of_ascii hname,
        separated_str.mpr (separated_of_ascii now.localChars_ascii)⟩

omit [FiniteFloat F] in
theorem plain_stamped {message : Obj F} (h : isMetadata message = false) (now : DateTime) :
    isMetadata (stamped message now) = false := by
  rw [stamped]
  split
  · exact h
  · have hother : List.lookup "_type".toList
        [("timestamp".toList, (Json.str now.localChars : Json Str F))] = none := by
      rw [List.lookup_cons]
      have hne : ("_type".toList == "timestamp".toList) = false := by decide
      rw [hne]
      rfl
    have hsame : (message ++ [("timestamp".toList, Json.str now.localChars)]).lookup
        "_type".toList = message.lookup "_type".toList := by
      rw [List.lookup_append, hother]
      simp
    rw [isMetadata, hsame]
    exact h

omit [FiniteFloat F] in
theorem edits_record {message : Obj F} (h : Obj.Representable message ∧ Obj.Separated message ∧
    isMetadata message = false) (now : DateTime) : Edits fun session => session.record message now := by
  intro session hclean
  refine ⟨_, now, rfl, edits_messages hclean ?_ ?_ ?_ now⟩
  · exact List.forall_mem_append.mpr ⟨hclean.storable.messages,
      List.forall_mem_singleton.mpr (representable_stamped h.1 now)⟩
  · exact List.forall_mem_append.mpr ⟨hclean.storable.plain,
      List.forall_mem_singleton.mpr (plain_stamped h.2.2 now)⟩
  · exact List.forall_mem_append.mpr ⟨hclean.separated.messages,
      List.forall_mem_singleton.mpr (separated_stamped h.2.1 now)⟩

omit [FiniteFloat F] in
theorem edits_clear (now : DateTime) : Edits fun session : Session F => session.clear now := by
  intro session hclean
  let fields : Snapshot F := { metadata := session.metadata }
  have hfields : fields.Storable := ⟨⟨by simp [fields], hclean.storable.metadata, by simp [fields]⟩,
    by simp [fields]⟩
  exact ⟨fields, now, rfl, hclean.edit fields hfields hclean.separated.metadata (by simp [fields])
    (by simp [fields]) now⟩

omit [FiniteFloat F] in
theorem edits_undoLastTurn (n : Nat) (now : DateTime) :
    Edits fun session : Session F => session.undoLastTurn n now := by
  intro session hclean
  simp only [undoLastTurn]
  split
  · exact ⟨session.toSnapshot, session.updatedAt, rfl, hclean⟩
  · next cut _ =>
      have htaken : ∀ message ∈ session.messages.take cut, message ∈ session.messages :=
        fun message => List.mem_of_mem_take
      let fields : Snapshot F := { session.toSnapshot with
        messages := session.messages.take cut, pendingClarification := none }
      refine ⟨fields, now, rfl, hclean.edit fields ⟨⟨?_, hclean.storable.metadata,
        by simp [fields]⟩, ?_⟩ hclean.separated.metadata (by simp [fields]) ?_ now⟩
      · exact fun message hmessage => hclean.storable.messages message (htaken message hmessage)
      · exact fun message hmessage => hclean.storable.plain message (htaken message hmessage)
      · exact fun message hmessage => hclean.separated.messages message (htaken message hmessage)

omit [FiniteFloat F] in
theorem edits_update {metadata : Obj F} {pending : Option (Obj F)} (lastConsolidated : Nat)
    (hrep : Obj.Representable metadata) (hsep : Obj.Separated metadata)
    (hpending : ∀ value ∈ pending, Obj.Representable value ∧ Obj.Separated value) :
    Edits fun session : Session F =>
      { session with metadata, lastConsolidated, pendingClarification := pending } := by
  intro session hclean
  let fields : Snapshot F := { messages := session.messages, metadata, lastConsolidated,
                               pendingClarification := pending }
  have hfields : fields.Storable :=
    ⟨⟨hclean.storable.messages, hrep, fun value hvalue => (hpending value hvalue).1⟩,
      hclean.storable.plain⟩
  exact ⟨fields, session.updatedAt, rfl, hclean.edit fields hfields hsep
    (fun value hvalue => (hpending value hvalue).2) hclean.separated.messages _⟩

end Session

/-- A session object whose fields are changed still agrees with its note. -/
theorem Session.Noted.edit {session : Session F} {key : Str} {note : Note F} {epoch : Nat}
    {file : Option (List (Obj F))} {i : Nat} {ledger : List (Nat × Obj F)}
    (h : session.Noted key note epoch file i ledger) {fields : Snapshot F} {updatedAt : DateTime}
    (hclean : (session.edit fields updatedAt).Clean) :
    (session.edit fields updatedAt).Noted key note epoch file i ledger :=
  { h with key := h.key, clean := hclean }

theorem Session.Noted.prepare {session : Session F} {key : Str} {note : Note F} {epoch : Nat}
    {file : Option (List (Obj F))} {i : Nat} {ledger : List (Nat × Obj F)}
    (h : session.Noted key note epoch file i ledger) :
    session.prepare.Noted key note epoch file i ledger :=
  { h with key := h.key, clean := h.clean.prepare }

/-! ## Steps that leave the file alone -/

namespace Watch.Inv

variable {watch : Watch F} {key : Str} {epoch : Nat} {file : Option (List (Obj F))}

theorem note_of_session (h : watch.Inv key epoch file) {i : Nat} {session : Session F}
    (hsession : watch.room.sessions[i]? = some session) :
    ∃ note, watch.notes[i]? = some note := by
  have hlt := (List.getElem?_eq_some_iff.mp hsession).1
  rw [← h.length] at hlt
  exact ⟨_, List.getElem?_eq_getElem hlt⟩

/-- Other caches, and session objects that agree with the same notes. -/
theorem quiet (h : watch.Inv key epoch file) {room : Room F}
    (hdisk : room.disk = watch.room.disk)
    (hlength : room.sessions.length = watch.room.sessions.length)
    (hnoted : ∀ (i : Nat) (session : Session F) (note : Note F), room.sessions[i]? = some session →
      watch.notes[i]? = some note → session.Noted key note epoch file i watch.ledger) :
    (watch.follow room .quiet).Inv key epoch file where
  holds := hdisk ▸ h.holds
  separated := h.separated
  emptied := h.emptied
  state := h.state
  length := h.length.trans hlength.symm
  noted := hnoted

theorem modify (h : watch.Inv key epoch file) (i : Nat) {change : Session F → Session F}
    (hchange : Session.Edits change) :
    (watch.follow (watch.room.modify i change).1 .quiet).Inv key epoch file := by
  refine h.quiet rfl (List.length_modify ..) ?_
  intro j session note hsession hnote
  simp only [Room.modify] at hsession
  rw [List.getElem?_modify] at hsession
  cases hold : watch.room.sessions[j]? with
  | none =>
      rw [hold] at hsession
      cases hsession
  | some old =>
      have hnoted := h.noted j old note hold hnote
      rw [hold] at hsession
      cases hsession
      split
      · obtain ⟨fields, updatedAt, hedit, hclean⟩ := hchange old hnoted.clean
        show (change old).Noted key note epoch file j watch.ledger
        rw [hedit]
        exact hnoted.edit hclean
      · exact hnoted

/-- A fresh load finds the ledger. -/
theorem load_some (h : watch.Inv key epoch file) {records : List (Obj F)}
    (hfile : file = some records) (now : DateTime) :
    ∃ payload state, loadState watch.room.disk key now =
        .ok (some (loadedSession key epoch now payload), epoch) ∧
      FileState key records state ∧ payload.toSnapshot = state ∧
      payload.partialTailFound = false ∧
      objsEqv state.messages (watch.ledger.map Prod.snd) = true := by
  subst hfile
  obtain ⟨state, hstate, hledger⟩ := h.state records rfl
  obtain ⟨payload, hdecode, hsnapshot, htail⟩ := decode_of_fileState hstate
    (h.holds.representable records rfl) (h.separated records rfl) (sessionPath key)
  refine ⟨payload, state, ?_, hstate, hsnapshot, htail, hledger⟩
  rw [loadState_some h.holds, hdecode]
  rfl

omit [FiniteFloat F] in
theorem separated_state {records : List (Obj F)} {state : Snapshot F}
    (hstate : FileState key records state) (hsep : ∀ data ∈ records, Obj.Separated data)
    (hkey : ∀ c ∈ key, isSeparator c = false) {session : Session F} (hsession : session.key = key)
    (hsnapshot : session.toSnapshot = state) : session.Separated := by
  obtain ⟨hmessages, hmetadata, hpending⟩ := hstate.all hereditary_separated hsep
  subst hsession hsnapshot
  exact ⟨hkey, hmetadata, hpending, hmessages⟩

/-- A new session object. -/
theorem loaded (h : watch.Inv key epoch file) {room : Room F} {session : Session F}
    (hdisk : room.disk = watch.room.disk) (hsessions : room.sessions = watch.room.sessions ++ [session])
    (hkey : session.key = key) (hclean : session.Clean) (hwhole : session.requiresRewrite = false)
    (hepoch : session.storageEpoch = epoch) (hpersisted : session.persisted = file.isSome)
    (hsnapshot : session.persistedSnapshot =
      if session.persisted then some session.toSnapshot else none)
    (hcount : session.persistedCount = if session.persisted then session.messages.length else 0)
    (hledger : session.persisted = true →
      objsEqv session.messages (watch.ledger.map Prod.snd) = true) :
    (watch.follow room .loaded).Inv key epoch file where
  holds := hdisk ▸ h.holds
  separated := h.separated
  emptied := h.emptied
  state := h.state
  length := by
    show (watch.notes ++ [_]).length = room.sessions.length
    rw [hsessions, List.length_append, List.length_append, h.length]
    rfl
  noted := by
    intro i object note hobject hnote
    simp only [Watch.follow] at hobject hnote
    rw [hsessions] at hobject hnote
    rcases Nat.lt_trichotomy i watch.room.sessions.length with hlt | heq | hgt
    · rw [List.getElem?_append_left hlt] at hobject
      rw [List.getElem?_append_left (h.length ▸ hlt)] at hnote
      exact h.noted i object note hobject hnote
    · subst heq
      rw [List.getElem?_concat_length] at hobject
      rw [← h.length, List.getElem?_concat_length, List.getLast?_concat] at hnote
      cases hobject
      cases hnote
      cases hsaved : session.persisted with
      | true =>
          rw [hsaved] at hsnapshot hcount
          have hlast : (some session).filter Session.persisted = some session := by
            simp [hsaved]
          rw [hlast]
          refine ⟨hkey, hclean, hwhole, hsnapshot, hsaved, hcount, ?_, hepoch.le,
            by simp [hepoch], ?_, fun _ => le_rfl, ?_⟩
          · rintro _ ⟨⟩
            exact hclean.storable.toRepresentable
          · exact fun _ _ => hpersisted ▸ hsaved
          · intro _
            show objsEqv session.messages ((watch.ledger.take watch.ledger.length).map Prod.snd ++
              entries _ (watch.ledger.drop watch.ledger.length)) = true
            rw [List.take_length, List.drop_length, entries, List.filter_nil, List.map_nil,
              List.append_nil]
            exact hledger hsaved
      | false =>
          rw [hsaved] at hsnapshot hcount
          have hlast : (some session).filter Session.persisted = none := by
            simp [hsaved]
          have hfile : file = none := by
            rw [hsaved] at hpersisted
            simpa using hpersisted.symm
          rw [hlast]
          refine ⟨hkey, hclean, hwhole, hsnapshot, hsaved, hcount, by simp, hepoch.le,
            by simp [hepoch], by simp, fun _ => le_rfl, ?_⟩
          intro _
          show objsEqv [] ((watch.ledger.take _).map Prod.snd ++ entries _ (watch.ledger.drop _)) =
            true
          rw [h.emptied hfile]
          rfl
    · rw [List.getElem?_eq_none (by simp; omega)] at hobject
      cases hobject

/-- The object that a load of the file makes. -/
theorem loaded_some (h : watch.Inv key epoch file) (hkey : ∀ c ∈ key, isSeparator c = false)
    {records : List (Obj F)} (hfile : file = some records) {payload : Payload F}
    {state : Snapshot F} (hstate : FileState key records state)
    (hsnapshot : payload.toSnapshot = state) (htail : payload.partialTailFound = false)
    (hledger : objsEqv state.messages (watch.ledger.map Prod.snd) = true) (now : DateTime)
    {room : Room F} (hdisk : room.disk = watch.room.disk)
    (hsessions : room.sessions = watch.room.sessions ++ [loadedSession key epoch now payload]) :
    (watch.follow room .loaded).Inv key epoch file := by
  subst hfile hsnapshot
  have hclean : (loadedSession key epoch now payload).Clean :=
    ⟨⟨hstate.representable (h.holds.representable records rfl), hstate.plain⟩,
      separated_state hstate (h.separated records rfl) hkey rfl rfl⟩
  exact h.loaded hdisk hsessions rfl hclean htail rfl rfl rfl rfl fun _ => hledger

omit [FiniteFloat F] in
theorem clean_new (hkey : ∀ c ∈ key, isSeparator c = false) (storageEpoch : Nat) (now : DateTime) :
    (newSession key storageEpoch now : Session F).Clean where
  storable := ⟨Snapshot.Representable.empty, by simp [newSession]⟩
  separated := ⟨hkey, hereditary_separated.empty, by simp [newSession], by simp [newSession]⟩

/-- A cached session, or a load. -/
theorem getOrCreate (h : watch.Inv key epoch file) (hkey : ∀ c ∈ key, isSeparator c = false)
    (manager : Nat) (now : DateTime) :
    (watch.follow (watch.room.getOrCreate key manager now).1
      (event watch.room (.getOrCreate manager now)
        (watch.room.getOrCreate key manager now))).Inv key epoch file := by
  rw [event, Room.getOrCreate]
  cases watch.room.cache manager with
  | some i =>
      simp only [lt_irrefl, if_false]
      exact h.quiet rfl rfl h.noted
  | none =>
      cases file with
      | none =>
          simp only [loadState_none h.holds, Room.keep, List.length_append, List.length_singleton,
            Nat.lt_succ_self, if_true]
          exact h.loaded rfl rfl rfl (clean_new hkey epoch now) rfl rfl rfl rfl rfl (by simp)
      | some records =>
          obtain ⟨payload, state, hload, hstate, hsnapshot, htail, hledger⟩ := h.load_some rfl now
          simp only [hload, Room.keep, List.length_append, List.length_singleton,
            Nat.lt_succ_self, if_true]
          exact h.loaded_some hkey rfl hstate hsnapshot htail hledger now rfl rfl

theorem peek (h : watch.Inv key epoch file) (hkey : ∀ c ∈ key, isSeparator c = false)
    (manager : Nat) (now : DateTime) :
    (watch.follow (watch.room.peek key manager now).1
      (event watch.room (.peek manager now) (watch.room.peek key manager now))).Inv key epoch
        file := by
  rw [event, Room.peek]
  cases watch.room.cache manager with
  | some i =>
      simp only [lt_irrefl, if_false]
      exact h.quiet rfl rfl h.noted
  | none =>
      cases file with
      | none =>
          simp only [loadState_none h.holds, lt_irrefl, if_false]
          exact h.quiet rfl rfl h.noted
      | some records =>
          obtain ⟨payload, state, hload, hstate, hsnapshot, htail, hledger⟩ := h.load_some rfl now
          simp only [hload, List.length_append, List.length_singleton, Nat.lt_succ_self, if_true]
          exact h.loaded_some hkey rfl hstate hsnapshot htail hledger now rfl rfl

end Watch.Inv

end Sessions
end CodeCub
