import CodeCub.Machine.Run
import CodeCub.Sessions.Snapshots

/-!
# Saved sessions load back

One session and its path, edited and saved again and again.  The file always holds what
the session last saved; whether it can be read again depends on the separators in it.
-/

namespace CodeCub
namespace Sessions

open Python

variable {F : Type} [FiniteFloat F]

/-! ## One session and its path -/

/-- A path with the session that is being worked on. -/
structure Store (F : Type) where
  disk : Disk
  session : Session F

inductive StoreStep (F : Type) where
  /-- The caller sets the fields of the session. -/
  | edit (fields : Snapshot F) (updatedAt : DateTime)
  | save (forceRewrite : Bool)
  | commit
  /-- A new manager opens the key. -/
  | reopen (now : DateTime)

def Session.edit (session : Session F) (fields : Snapshot F) (updatedAt : DateTime) : Session F :=
  { session with toSnapshot := fields, updatedAt }

/-- `Session(key=key, _storage_epoch=storage_epoch)`. -/
def newSession (key : Str) (storageEpoch : Nat) (now : DateTime) : Session F :=
  { key, storageEpoch, createdAt := now, updatedAt := now }

def Store.opened (key : Str) (now : DateTime) : Store F := { disk := {}, session := newSession key 0 now }

/-- The store after an operation that may have raised. -/
def Store.after (store : Store F) (result : Session F × Except StorageError (List Change)) :
    Store F × Option StorageError :=
  match result.2 with
  | .error error => ({ store with session := result.1 }, some error)
  | .ok changes => ({ disk := store.disk.exec changes, session := result.1 }, none)

/-- The answer of a step is the error that it raised. -/
def storeMachine : Machine (Store F) (StoreStep F) (Option StorageError) where
  step store
    | .edit fields updatedAt =>
        ({ store with session := store.session.edit fields updatedAt }, none)
    | .save forceRewrite => store.after (store.session.save store.disk forceRewrite)
    | .commit => store.after (store.session.commitHistoryRewrite store.disk)
    | .reopen now =>
        match loadState store.disk store.session.key now with
        | .error error => (store, some error)
        | .ok (some session, _) => ({ store with session }, none)
        | .ok (none, epoch) =>
            ({ store with session := newSession store.session.key epoch now }, none)

/-- What JSON can represent, with no message that looks like a metadata record. -/
structure Snapshot.Storable (fields : Snapshot F) : Prop extends fields.Representable where
  plain : ∀ message ∈ fields.messages, isMetadata message = false

def StoreStep.Storable : StoreStep F → Prop
  | .edit fields _ => fields.Storable
  | _ => True

/-- No string of the session holds a separator. -/
structure Session.Separated (session : Session F) : Prop where
  key : ∀ c ∈ session.key, isSeparator c = false
  metadata : Obj.Separated session.metadata
  pending : ∀ pending ∈ session.pendingClarification, Obj.Separated pending
  messages : ∀ message ∈ session.messages, Obj.Separated message

/-- A fresh manager gets the state of the session, and can go on with it. -/
def Store.LoadsBack (store : Store F) : Prop :=
  ∀ now, ∃ loaded epoch,
    loadState store.disk store.session.key now = .ok (some loaded, epoch) ∧
    loaded.toSnapshot.eqv store.session.toSnapshot = true ∧
    ∀ (fields : Snapshot F) updatedAt forceRewrite, fields.Storable →
      (∃ changes, (loaded.save store.disk forceRewrite).2 = .ok changes) ∧
      ∃ changes, ((loaded.edit fields updatedAt).save store.disk forceRewrite).2 = .ok changes

/-! ## What the session knows of the file -/

/-- The session is up to date with the file. -/
structure Session.Current (session : Session F) (epoch : Nat) (file : Option (List (Obj F))) :
    Prop where
  epoch : session.storageEpoch = epoch
  persisted : session.persisted = file.isSome
  whole : session.requiresRewrite = false
  unsaved : file = none → session.persistedSnapshot = none ∧ session.persistedCount = 0
  saved : ∀ records ∈ file, ∃ state expected, FileState session.key records state ∧
    session.persistedSnapshot = some expected ∧ expected.Representable ∧
    state.eqv expected = true ∧ session.persistedCount = expected.messages.length

/-- The store between two steps. -/
structure Store.Kept (store : Store F) (key : Str) (epoch : Nat) (file : Option (List (Obj F))) :
    Prop where
  holds : store.disk.Holds epoch file
  key : store.session.key = key
  storable : store.session.toSnapshot.Storable
  current : store.session.Current epoch file

/-! ## A session that was loaded or saved can go on -/

/-- A session whose snapshot the file still holds can be saved. -/
theorem save_of_base {disk : Disk} {epoch : Nat} {records : List (Obj F)}
    (h : disk.Holds epoch (some records)) (hsep : ∀ data ∈ records, Obj.Separated data)
    (session : Session F) {state expected : Snapshot F} (hepoch : session.storageEpoch = epoch)
    (hpersisted : session.persisted = true) (hstate : FileState session.key records state)
    (hexpected : session.persistedSnapshot = some expected)
    (heqv : state.eqv expected = true) (forceRewrite : Bool) :
    ∃ changes, (session.save disk forceRewrite).2 = .ok changes := by
  obtain ⟨payload, hdecode, hsnapshot, htail⟩ := decode_of_fileState hstate
    (h.representable records rfl) hsep (sessionPath session.key)
  have hprepared : session.prepare.persistedSnapshot = some expected := hexpected
  refine save_returns h hepoch hpersisted ?_ ?_
  · rw [Session.appendBase, validateRecords, Session.appendCheck, hprepared]
    exact validateAppendBase_ok.mpr ⟨payload, hdecode, htail,
      hsnapshot ▸ (eqv_iff.mp heqv).2⟩
  · rw [Session.rewriteBase, validateRecords, Session.rewriteCheck, hprepared]
    exact validateRewriteBase_ok.mpr ⟨payload, hdecode, hsnapshot ▸ heqv⟩

/-- A file without separators loads back. -/
theorem loadsBack_of_separated {store : Store F} {key : Str} {epoch : Nat}
    {records : List (Obj F)} (h : store.Kept key epoch (some records))
    {state : Snapshot F} (hstate : FileState store.session.key records state)
    (heqv : state.eqv store.session.toSnapshot = true)
    (hsep : ∀ data ∈ records, Obj.Separated data) : store.LoadsBack := by
  intro now
  have hrep := h.holds.representable records rfl
  obtain ⟨payload, hdecode, hsnapshot, htail⟩ :=
    decode_of_fileState hstate hrep hsep (sessionPath store.session.key)
  have hself : state.eqv payload.toSnapshot = true := by
    rw [hsnapshot]
    exact (hstate.representable hrep).eqv_refl
  have hloaded : payload.toSnapshot.eqv store.session.toSnapshot = true := by
    rw [hsnapshot]
    exact heqv
  refine ⟨loadedSession store.session.key epoch now payload, epoch, ?_, hloaded, ?_⟩
  · rw [loadState_some h.holds, hdecode]
    rfl
  · intro fields updatedAt forceRewrite _
    let loaded := loadedSession store.session.key epoch now payload
    exact ⟨save_of_base h.holds hsep loaded rfl rfl hstate rfl hself forceRewrite,
      save_of_base h.holds hsep (loaded.edit fields updatedAt) rfl rfl hstate rfl hself
        forceRewrite⟩

theorem separated_of_loadsBack {store : Store F} {key : Str} {epoch : Nat}
    {records : List (Obj F)} (h : store.Kept key epoch (some records)) (hload : store.LoadsBack) :
    ∀ data ∈ records, Obj.Separated data := by
  obtain ⟨loaded, epoch', hloaded, _⟩ := hload store.session.createdAt
  rw [loadState_some h.holds] at hloaded
  cases hdecode : (decodePayload (sessionPath store.session.key) store.session.key
      (fileText records) : Except StorageError (Payload F)) with
  | error error =>
      rw [hdecode] at hloaded
      cases hloaded
  | ok payload => exact separated_of_decode (h.holds.representable records rfl) hdecode

/-! ## The separators of a session and of its records -/

omit [FiniteFloat F] in
theorem separated_obj {data : Obj F} :
    Obj.Separated data ↔
      ∀ field ∈ data, (∀ c ∈ field.1, isSeparator c = false) ∧ field.2.Separated := by
  constructor
  · intro h field hfield
    exact ⟨h field.1 (mem_texts_obj.mpr ⟨field, hfield, Or.inl rfl⟩),
      fun s hs => h s (mem_texts_obj.mpr ⟨field, hfield, Or.inr hs⟩)⟩
  · intro h s hs
    obtain ⟨field, hfield, hs⟩ := mem_texts_obj.mp hs
    rcases hs with rfl | hs
    · exact (h field hfield).1
    · exact (h field hfield).2 s hs

omit [FiniteFloat F] in
theorem separated_str {s : Str} :
    (Json.str s : Json Str F).Separated ↔ ∀ c ∈ s, isSeparator c = false := by
  simp [Json.Separated, Json.texts]

theorem separated_of_ascii {s : Str} (h : IsAscii s) : ∀ c ∈ s, isSeparator c = false := by
  intro c hc
  have hlow := h c hc
  by_contra hsep
  rw [Bool.not_eq_false] at hsep
  have hwide := wide_of_isSeparator hsep
  omega

omit [FiniteFloat F] in
theorem separated_prepare (session : Session F) (hkey : ∀ c ∈ session.key, isSeparator c = false)
    (hnodup : (session.metadata.map Prod.fst).Nodup) :
    Obj.Separated session.prepare.metadata ↔ Obj.Separated session.metadata := by
  rw [separated_obj, separated_obj]
  constructor
  · intro h field hfield
    exact h field (mem_dict_append hnodup hfield)
  · intro h field hfield
    rcases List.mem_append.mp (of_mem_dict hfield) with hreserved | hown
    · have hascii : ∀ name ∈ Session.reservedNames, IsAscii name := by decide
      have hname : field.1 ∈ Session.reservedNames := by
        rw [← Session.names_reserved (F := F) session.key]
        exact List.mem_map_of_mem hreserved
      refine ⟨separated_of_ascii (hascii _ hname), ?_⟩
      simp only [Session.reserved, List.mem_cons, List.not_mem_nil, or_false] at hreserved
      rcases hreserved with rfl | rfl | rfl | rfl | rfl
      · simp [Json.Separated, Json.texts]
      · exact separated_str.mpr fun c hc => hkey c ((List.takeWhile_sublist _).subset hc)
      · exact separated_str.mpr fun c hc =>
          hkey c ((List.dropWhile_sublist _).subset (List.mem_of_mem_drop hc))
      · simp [Json.Separated, Json.texts]
      · simp [Json.Separated, Json.texts]
    · exact h field hown

omit [FiniteFloat F] in
theorem separated_metadataRecord {session : Session F} :
    Obj.Separated session.metadataRecord ↔ (∀ c ∈ session.key, isSeparator c = false) ∧
      Obj.Separated session.metadata ∧
      ∀ pending ∈ session.pendingClarification, Obj.Separated pending := by
  have hascii : ∀ name ∈ Session.metadataNames, IsAscii name := by decide
  have hnames : ∀ field ∈ session.metadataRecord, IsAscii field.1 := fun field hfield =>
    hascii _ (session.names_metadataRecord ▸ List.mem_map_of_mem hfield)
  rw [separated_obj]
  constructor
  · intro h
    refine ⟨separated_str.mp (h ("key".toList, .str session.key) (by simp [Session.metadataRecord])).2,
      (h ("metadata".toList, .obj session.metadata) (by simp [Session.metadataRecord])).2, ?_⟩
    intro pending hpending
    refine (h ("pending_clarification".toList, .obj pending) ?_).2
    simp only [Session.metadataRecord, show session.pendingClarification = some pending from hpending]
    simp
  · rintro ⟨hkey, hmetadata, hpending⟩ field hfield
    refine ⟨separated_of_ascii (hnames field hfield), ?_⟩
    simp only [Session.metadataRecord, List.mem_cons, List.not_mem_nil, or_false] at hfield
    rcases hfield with rfl | rfl | rfl | rfl | rfl | rfl | rfl
    · exact separated_str.mpr (separated_of_ascii (by decide))
    · exact separated_str.mpr hkey
    · exact separated_str.mpr (separated_of_ascii session.createdAt.localChars_ascii)
    · exact separated_str.mpr (separated_of_ascii session.updatedAt.localChars_ascii)
    · exact hmetadata
    · simp [Json.Separated, Json.texts]
    · cases hvalue : session.pendingClarification with
      | none => simp [Json.Separated, Json.texts]
      | some pending => exact hpending pending hvalue

omit [FiniteFloat F] in
/-- The records that a rewrite writes. -/
theorem separated_rewriteRecords {session : Session F}
    (hnodup : (session.metadata.map Prod.fst).Nodup) :
    (∀ data ∈ session.prepare.rewriteRecords, Obj.Separated data) ↔ session.Separated := by
  rw [Session.rewriteRecords, List.forall_mem_cons, separated_metadataRecord]
  constructor
  · rintro ⟨⟨hkey, hmetadata, hpending⟩, hmessages⟩
    exact ⟨hkey, (separated_prepare session hkey hnodup).mp hmetadata, hpending, hmessages⟩
  · rintro ⟨hkey, hmetadata, hpending, hmessages⟩
    exact ⟨⟨hkey, (separated_prepare session hkey hnodup).mpr hmetadata, hpending⟩, hmessages⟩

/-! ## A save that returned -/

omit [FiniteFloat F] in
theorem storable_prepare {session : Session F} (h : session.toSnapshot.Storable) :
    session.prepare.toSnapshot.Storable where
  toRepresentable := Session.representable_prepare h.toRepresentable
  plain := h.plain

/-- The messages that a session appends continue those it knows to be on disk. -/
theorem objsEqv_of_appendOnly {session : Session F} {expected : Snapshot F}
    (hrep : session.toSnapshot.Representable) (hexpected : expected.Representable)
    (hsnapshot : session.persistedSnapshot = some expected)
    (happend : session.appendOnly = true) :
    objsEqv (expected.messages ++ session.messages.drop expected.messages.length)
      session.messages = true := by
  rw [Session.appendOnly, hsnapshot] at happend
  simp only [Bool.and_eq_true, decide_eq_true_eq] at happend
  have hdrop : ∀ message ∈ session.messages.drop expected.messages.length,
      Obj.Representable message := fun message hmessage =>
    hrep.messages message (List.mem_of_mem_drop hmessage)
  have htake : ∀ message ∈ session.messages.take expected.messages.length,
      Obj.Representable message := fun message hmessage =>
    hrep.messages message (List.mem_of_mem_take hmessage)
  have hjoined := objsEqv_append (objsEqv_symm htake hexpected.messages happend.2)
    (objsEqv_refl hdrop)
  rw [List.take_append_drop] at hjoined
  exact hjoined

omit [FiniteFloat F] in
theorem current_markPersisted {session : Session F} (hrep : session.toSnapshot.Representable)
    {epoch : Nat} {records : List (Obj F)} {state : Snapshot F} [FiniteFloat F]
    (hstate : FileState session.key records state)
    (heqv : state.eqv session.toSnapshot = true) :
    (session.markPersisted epoch).Current epoch (some records) where
  epoch := rfl
  persisted := rfl
  whole := rfl
  unsaved h := by cases h
  saved := by
    rintro _ ⟨⟩
    exact ⟨state, session.toSnapshot, hstate, rfl, hrep, heqv, rfl⟩

/-- What an append adds to a file without separators. -/
theorem separated_appendRecords {session : Session F} (hrep : session.toSnapshot.Storable)
    {records : List (Obj F)} {old : Snapshot F}
    (hsep : ∀ data ∈ records, Obj.Separated data) (hsubset : old.messages ⊆ records)
    (hold : old.Representable)
    (hmessages : objsEqv (old.messages ++ session.messages.drop session.persistedCount)
      session.messages = true) :
    (∀ data ∈ records ++ session.prepare.appendRecords, Obj.Separated data) ↔
      session.Separated := by
  have hnodup := (representable_obj.mp hrep.metadata).1
  have hdropped : ∀ message ∈ session.messages.drop session.persistedCount,
      message ∈ session.messages := fun message => List.mem_of_mem_drop
  rw [Session.appendRecords, List.forall_mem_append, List.forall_mem_cons,
    separated_metadataRecord]
  constructor
  · rintro ⟨-, ⟨hkey, hmetadata, hpending⟩, hnew⟩
    refine ⟨hkey, (separated_prepare session hkey hnodup).mp hmetadata, hpending, ?_⟩
    have hrepOld : ∀ data ∈ old.messages ++ session.messages.drop session.persistedCount,
        Obj.Representable data := List.forall_mem_append.mpr ⟨hold.messages,
      fun message hmessage => hrep.messages message (hdropped message hmessage)⟩
    exact separated_of_objsEqv (objsEqv_symm hrepOld hrep.messages hmessages)
      (List.forall_mem_append.mpr ⟨fun message hmessage => hsep message (hsubset hmessage), hnew⟩)
  · rintro ⟨hkey, hmetadata, hpending, hall⟩
    exact ⟨hsep, ⟨hkey, (separated_prepare session hkey hnodup).mpr hmetadata, hpending⟩,
      fun message hmessage => hall message (hdropped message hmessage)⟩

/-- The file after a save: it holds the state of the session, and separators only where
the session has some. -/
structure Session.SavedIn (session : Session F) (key : Str) (records : List (Obj F))
    (state : Snapshot F) : Prop where
  held : FileState key records state
  eqv : state.eqv session.prepare.toSnapshot = true
  separated : (∀ data ∈ records, Obj.Separated data) ↔ session.Separated

/-- A rewrite, or the first save. -/
theorem savedIn_rewrite {session : Session F} (h : session.toSnapshot.Storable) :
    session.SavedIn session.key session.prepare.rewriteRecords session.prepare.toSnapshot where
  held := fileState_block rfl h.plain
  eqv := (storable_prepare h).eqv_refl
  separated := separated_rewriteRecords (representable_obj.mp h.metadata).1

/-- An append behind records: these were decoded, so that they hold no separator. -/
theorem savedIn_append {session : Session F} (h : session.toSnapshot.Storable)
    {records : List (Obj F)} (hrep : ∀ data ∈ records, Obj.Representable data)
    {old expected : Snapshot F} (hold : FileState session.key records old)
    (hsnapshot : session.persistedSnapshot = some expected) (hexpected : expected.Representable)
    (heqv : old.eqv expected = true) (hcount : session.persistedCount = expected.messages.length)
    (happend : session.appendOnly = true)
    (hbase : session.prepare.appendBase (some records) = .ok ()) :
    session.SavedIn session.key (records ++ session.prepare.appendRecords)
      { session.prepare.toSnapshot with
        messages := old.messages ++ session.messages.drop session.persistedCount } := by
  have hdropped : ∀ message ∈ session.messages.drop session.persistedCount,
      message ∈ session.messages := fun message => List.mem_of_mem_drop
  have hmessages : objsEqv (old.messages ++ session.messages.drop session.persistedCount)
      session.messages = true := by
    rw [hcount]
    have hnew := objsEqv_refl fun message hmessage => h.messages message
      (List.mem_of_mem_drop (i := expected.messages.length) hmessage)
    exact objsEqv_trans (objsEqv_append (eqv_iff.mp heqv).1 hnew)
      (objsEqv_of_appendOnly h.toRepresentable hexpected hsnapshot happend)
  obtain ⟨payload, hdecode, -⟩ := validateAppendBase_ok.mp hbase
  refine ⟨?_, ?_, ?_⟩
  · exact fileState_append hold (rfl : session.prepare.key = session.key)
      (fun message hmessage => h.plain message (hdropped message hmessage))
  · have hmetadata := (storable_prepare h).metadataEqv_refl
    rw [eqv_iff]
    exact ⟨hmessages, hmetadata⟩
  · exact separated_appendRecords h (separated_of_decode hrep hdecode) hold.subset
      (hold.representable hrep) hmessages

theorem kept_saved {store : Store F} {key : Str} {epoch : Nat} {file : Option (List (Obj F))}
    (h : store.Kept key epoch file) {forceRewrite : Bool} {changes : List Change}
    (hsave : (store.session.save store.disk forceRewrite).2 = .ok changes) :
    ∃ epoch' records state,
      (store.after (store.session.save store.disk forceRewrite)).1.Kept key epoch' (some records) ∧
      (store.session.save store.disk forceRewrite).1.toSnapshot =
        store.session.prepare.toSnapshot ∧
      store.session.SavedIn key records state := by
  obtain ⟨rfl⟩ := h.key
  have hprepare := storable_prepare h.storable
  have hkept : ∀ epoch' records state, (store.disk.exec changes).Holds epoch' (some records) →
      store.session.SavedIn store.session.key records state →
      Store.Kept { disk := store.disk.exec changes, session := store.session.prepare.markPersisted epoch' }
        store.session.key epoch' (some records) := fun epoch' records state hholds hsaved =>
    ⟨hholds, rfl, hprepare,
      current_markPersisted hprepare.toRepresentable hsaved.held hsaved.eqv⟩
  obtain ⟨_, ⟨hrewrites, _, hbase, hsession, hholds⟩ | ⟨_, _, _, hsession, hholds⟩⟩ :=
    save_ok h.holds h.storable.toRepresentable hsave
  · rw [Store.after, hsave, hsession]
    cases file with
    | none =>
        have hcount : store.session.prepare.persistedCount = 0 := (h.current.unsaved rfl).2
        have hrecords : store.session.prepare.appendRecords =
            store.session.prepare.rewriteRecords := by
          rw [Session.appendRecords, hcount]
          rfl
        rw [Option.getD_none, List.nil_append, hrecords] at hholds
        have hsaved := savedIn_rewrite h.storable
        exact ⟨epoch, _, _, hkept _ _ _ hholds hsaved, rfl, hsaved⟩
    | some records =>
        obtain ⟨old, expected, hold, hsnapshot, hexpected, heqv, hcount⟩ :=
          h.current.saved records rfl
        have hpersisted : store.session.prepare.persisted = true := h.current.persisted
        rw [Session.rewrites, hpersisted, Bool.or_eq_false_iff, Bool.true_and,
          Bool.not_eq_false'] at hrewrites
        have hsaved := savedIn_append h.storable (h.holds.representable records rfl) hold hsnapshot
          hexpected heqv hcount hrewrites.2 hbase
        exact ⟨epoch, _, _, hkept _ _ _ hholds hsaved, rfl, hsaved⟩
  · rw [Store.after, hsave, hsession]
    have hsaved := savedIn_rewrite h.storable
    exact ⟨epoch + 1, _, _, hkept _ _ _ hholds hsaved, rfl, hsaved⟩

/-! ## Runs -/

theorem holds_fence {disk : Disk} {epoch : Nat}
    (h : disk.Holds epoch (none : Option (List (Obj F)))) :
    (disk.exec (writeEpoch disk (epoch + 1))).Holds (epoch + 1)
      (none : Option (List (Obj F))) := by
  obtain ⟨hprimary, hat⟩ := exec_fence disk epoch
  exact ⟨hat, hprimary.trans h.primary, by simp, by simp⟩

theorem kept_new {disk : Disk} {epoch : Nat}
    (h : disk.Holds epoch (none : Option (List (Obj F)))) (key : Str) (now : DateTime) :
    Store.Kept (F := F) { disk, session := newSession key epoch now } key epoch none where
  holds := h
  key := rfl
  storable := ⟨Snapshot.Representable.empty, by simp [newSession]⟩
  current := ⟨rfl, rfl, rfl, fun _ => ⟨rfl, rfl⟩, by simp⟩

theorem kept_save {store : Store F} {key : Str} {epoch : Nat} {file : Option (List (Obj F))}
    (h : store.Kept key epoch file) (forceRewrite : Bool) :
    ∃ epoch' file', (store.after (store.session.save store.disk forceRewrite)).1.Kept key epoch'
      file' := by
  cases hsave : (store.session.save store.disk forceRewrite).2 with
  | ok changes =>
      obtain ⟨epoch', records, _, hkept, _⟩ := kept_saved h hsave
      exact ⟨epoch', _, hkept⟩
  | error error =>
      refine ⟨epoch, file, ?_⟩
      have hsession : (store.session.save store.disk forceRewrite).1 = store.session.prepare := by
        rw [Session.save] at hsave ⊢
        split at hsave
        · rfl
        · cases hsave
      rw [Store.after, hsave, hsession]
      exact ⟨h.holds, h.key, storable_prepare h.storable, ⟨h.current.epoch, h.current.persisted,
        h.current.whole, h.current.unsaved, h.current.saved⟩⟩

theorem kept_commit {store : Store F} {key : Str} {epoch : Nat} {file : Option (List (Obj F))}
    (h : store.Kept key epoch file) :
    ∃ epoch' file', (store.after (store.session.commitHistoryRewrite store.disk)).1.Kept key epoch'
      file' := by
  rw [Session.commitHistoryRewrite]
  split
  · exact kept_save h true
  · next hclean =>
      have hmissing : file = none := by
        rw [Bool.not_eq_true, Bool.or_eq_false_iff, h.current.persisted] at hclean
        simpa using hclean.1
      subst hmissing
      have hdelete : lockedDelete store.disk (some store.session.storageEpoch) (some false) true
          true = .ok (writeEpoch store.disk (epoch + 1), false) := by
        rw [lockedDelete_eq h.holds.generation, h.holds.isSome_primary, h.holds.isNone_primary,
          h.current.epoch]
        simp
      rw [hdelete]
      refine ⟨epoch + 1, none, holds_fence h.holds, h.key, h.storable, ?_⟩
      exact ⟨congrArg (· + 1) h.current.epoch, h.current.persisted, h.current.whole,
        h.current.unsaved, by simp⟩

theorem kept_reopen {store : Store F} {key : Str} {epoch : Nat} {file : Option (List (Obj F))}
    (h : store.Kept key epoch file) (now : DateTime) :
    ∃ epoch' file', (storeMachine.next store (.reopen now)).Kept key epoch' file' := by
  obtain ⟨rfl⟩ := h.key
  rw [Machine.next, storeMachine]
  cases file with
  | none =>
      simp only [loadState_none h.holds]
      exact ⟨epoch, none, kept_new h.holds _ now⟩
  | some records =>
      obtain ⟨old, expected, hold, _⟩ := h.current.saved records rfl
      have hrep := h.holds.representable records rfl
      simp only [loadState_some h.holds]
      cases hdecode : (decodePayload (sessionPath store.session.key) store.session.key
          (fileText records) : Except StorageError (Payload F)) with
      | error error => exact ⟨epoch, some records, h⟩
      | ok payload =>
          obtain ⟨payload', hdecode', hsnapshot, htail⟩ := decode_of_fileState hold hrep
            (separated_of_decode hrep hdecode) (sessionPath store.session.key)
          rw [hdecode] at hdecode'
          cases hdecode'
          have hstate := hold.representable hrep
          refine ⟨epoch, some records, h.holds, rfl, ?_, ?_⟩
          · show payload.toSnapshot.Storable
            rw [hsnapshot]
            exact ⟨hstate, hold.plain⟩
          · refine ⟨rfl, rfl, htail, by simp, ?_⟩
            rintro _ ⟨⟩
            refine ⟨old, payload.toSnapshot, hold, rfl, ?_, ?_, rfl⟩
            · exact hsnapshot.symm ▸ hstate
            · exact hsnapshot.symm ▸ hstate.eqv_refl

theorem kept_next {store : Store F} {key : Str} {step : StoreStep F} (hstep : step.Storable)
    (h : ∃ epoch file, store.Kept key epoch file) :
    ∃ epoch file, (storeMachine.next store step).Kept key epoch file := by
  obtain ⟨epoch, file, h⟩ := h
  cases step with
  | edit fields updatedAt =>
      exact ⟨epoch, file, h.holds, h.key, hstep, ⟨h.current.epoch, h.current.persisted,
        h.current.whole, h.current.unsaved, h.current.saved⟩⟩
  | save forceRewrite => exact kept_save h forceRewrite
  | commit => exact kept_commit h
  | reopen now => exact kept_reopen h now

theorem kept_run {key : Str} {store : Store F} (h : ∃ epoch file, store.Kept key epoch file)
    {steps : List (StoreStep F)} (hsteps : ∀ step ∈ steps, step.Storable) :
    ∃ epoch file, (storeMachine.run store steps).Kept key epoch file := by
  induction steps generalizing store with
  | nil => exact h
  | cons step steps ih =>
      rw [List.forall_mem_cons] at hsteps
      exact ih (kept_next hsteps.1 h) hsteps.2

theorem kept_opened (key : Str) (now : DateTime) :
    ∃ epoch file, (Store.opened key now : Store F).Kept key epoch file :=
  ⟨0, none, kept_new Disk.Holds.fresh key now⟩

theorem loadsBack_iff_of_kept {store : Store F} {key : Str} {epoch : Nat}
    {file : Option (List (Obj F))} (h : store.Kept key epoch file) {forceRewrite : Bool}
    (hsave : storeMachine.out store (.save forceRewrite) = none) :
    (storeMachine.next store (.save forceRewrite)).LoadsBack ↔ store.session.Separated := by
  obtain ⟨changes, hchanges⟩ : ∃ changes,
      (store.session.save store.disk forceRewrite).2 = .ok changes := by
    cases hresult : (store.session.save store.disk forceRewrite).2 with
    | ok changes => exact ⟨changes, rfl⟩
    | error error =>
        have hout : storeMachine.out store (.save forceRewrite) = some error := by
          show (store.after (store.session.save store.disk forceRewrite)).2 = some error
          rw [Store.after, hresult]
        rw [hout] at hsave
        cases hsave
  obtain ⟨epoch', records, state, hkept, hsnapshot, hsaved⟩ := kept_saved h hchanges
  rw [← hsaved.separated]
  constructor
  · exact separated_of_loadsBack hkept
  · have hkey := hkept.key
    refine loadsBack_of_separated hkept (hkey.symm ▸ hsaved.held) ?_
    show state.eqv (store.after (store.session.save store.disk forceRewrite)).1.session.toSnapshot =
      true
    rw [Store.after, hchanges, hsnapshot]
    exact hsaved.eqv

/-- After a save that returned, the session loads back exactly when none of its strings
holds a separator. -/
theorem save_loads_back_iff (key : Str) (opened : DateTime) {steps : List (StoreStep F)}
    (hsteps : ∀ step ∈ steps, step.Storable) (forceRewrite : Bool)
    (hsave : storeMachine.out (storeMachine.run (Store.opened key opened) steps)
      (.save forceRewrite) = none) :
    (storeMachine.next (storeMachine.run (Store.opened key opened) steps)
        (.save forceRewrite)).LoadsBack ↔
      (storeMachine.run (Store.opened key opened) steps).session.Separated := by
  obtain ⟨epoch, file, h⟩ := kept_run (kept_opened key opened) hsteps
  exact loadsBack_iff_of_kept h hsave

/-- A session with one message of this content. -/
def oneMessage (content : Str) : Snapshot Empty :=
  { messages := [[("role".toList, .str "tool".toList), ("content".toList, .str content)]] }

theorem storable_oneMessage (content : Str) : (oneMessage content).Storable where
  messages := by
    simp only [oneMessage, List.mem_singleton, forall_eq]
    refine representable_obj.mpr ⟨?_, by simp [Json.Representable]⟩
    show ["role".toList, "content".toList].Nodup
    decide
  metadata := Snapshot.Representable.empty.metadata
  pending := Snapshot.Representable.empty.pending
  plain := by
    simp only [oneMessage, List.mem_singleton, forall_eq]
    rfl

def sampleTime : DateTime := ⟨2025, 1, 2, 3, 4, 5, 6, by decide⟩

set_option maxRecDepth 20000 in
theorem ascii_message_loads_back :
    (storeMachine.next (storeMachine.run (Store.opened "cli:a".toList sampleTime)
      [.edit (oneMessage "done".toList) sampleTime]) (.save false)).LoadsBack :=
  (save_loads_back_iff "cli:a".toList sampleTime
    (by simpa [StoreStep.Storable] using storable_oneMessage "done".toList) false
    (by decide +kernel)).mpr ⟨by decide, by decide, (by rintro _ ⟨⟩), by decide⟩

set_option maxRecDepth 20000 in
/-- A tool result with `U+2028` makes the session unreadable. -/
theorem line_separator_unreadable :
    ¬ ∀ (key : Str) (opened : DateTime) (steps : List (StoreStep Empty)),
      (∀ step ∈ steps, step.Storable) → ∀ forceRewrite,
        storeMachine.out (storeMachine.run (Store.opened key opened) steps)
          (.save forceRewrite) = none →
        (storeMachine.next (storeMachine.run (Store.opened key opened) steps)
          (.save forceRewrite)).LoadsBack := by
  intro h
  have hsteps : ∀ step ∈ [StoreStep.edit (oneMessage [Char.ofNat 0x2028]) sampleTime],
      step.Storable := by
    simpa [StoreStep.Storable] using storable_oneMessage _
  have hsave : storeMachine.out (storeMachine.run (Store.opened "cli:a".toList sampleTime)
      [.edit (oneMessage [Char.ofNat 0x2028]) sampleTime]) (.save false) = none := by
    decide +kernel
  obtain ⟨epoch, file, hkept⟩ := kept_run (kept_opened "cli:a".toList sampleTime) hsteps
  have hseparated := (loadsBack_iff_of_kept hkept hsave).mp (h _ _ _ hsteps false hsave)
  have hmessage : Obj.Separated [("role".toList, Json.str "tool".toList),
      ("content".toList, (Json.str [Char.ofNat 0x2028] : Json Str Empty))] :=
    hseparated.messages _ List.mem_cons_self
  have hcontent : (Json.str [Char.ofNat 0x2028] : Json Str Empty).Separated :=
    (separated_obj.mp hmessage _ (List.mem_cons_of_mem _ List.mem_cons_self)).2
  exact absurd (separated_str.mp hcontent _ List.mem_cons_self) (by decide)

end Sessions
end CodeCub
