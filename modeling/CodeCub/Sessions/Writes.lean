import CodeCub.Python.JsonEq
import CodeCub.Sessions.Files

/-!
# Loads and saves of a whole file

Between two operations a path is at an epoch and its file, if there is one, is the lines
of some records.  `Disk.Holds` says so, and the lemmas here give what a load and a save
make of such a path.
-/

namespace CodeCub
namespace Sessions

open Python

variable {F : Type} [FiniteFloat F]

/-- The path is at `epoch`, and its file is the lines of these records. -/
structure Disk.Holds (disk : Disk) (epoch : Nat) (file : Option (List (Obj F))) : Prop where
  generation : disk.At epoch
  primary : disk.primary = file.map fun records => encodeUtf8 (fileText records)
  filled : ∀ records ∈ file, records ≠ []
  representable : ∀ records ∈ file, ∀ data ∈ records, Obj.Representable data

/-- The fields of a session that are written. -/
structure Snapshot.Representable (snapshot : Snapshot F) : Prop where
  messages : ∀ message ∈ snapshot.messages, Obj.Representable message
  metadata : Obj.Representable snapshot.metadata
  pending : ∀ pending ∈ snapshot.pendingClarification, Obj.Representable pending

theorem readUtf8_encodeUtf8 (text : Str) :
    readUtf8WithIncompleteTail (encodeUtf8 text) = .ok text := by
  rw [readUtf8WithIncompleteTail, scanUtf8_encodeUtf8]
  rfl

/-- `validate_existing` on the text of the records. -/
def validateRecords (file : Option (List (Obj F))) (validate : Str → Except StorageError Unit) :
    Except StorageError Unit :=
  match file with
  | none => .ok ()
  | some records => validate (fileText records)

namespace Disk.Holds

theorem fresh : Disk.Holds (F := F) {} 0 none where
  generation := at_fresh
  primary := rfl
  filled _ h := by cases h
  representable _ h := by cases h

variable {disk : Disk} {epoch : Nat} {file : Option (List (Obj F))}

theorem isSome_primary (h : disk.Holds epoch file) : disk.primary.isSome = file.isSome := by
  rw [h.primary, Option.isSome_map]

theorem isNone_primary (h : disk.Holds epoch file) : disk.primary.isNone = file.isNone := by
  rw [h.primary, Option.isNone_map]

theorem validateExisting_eq (h : disk.Holds epoch file)
    (validate : Str → Except StorageError Unit) :
    validateExisting disk validate = validateRecords file validate := by
  rw [validateExisting, h.primary]
  cases file with
  | none => rfl
  | some records =>
      simp only [Option.map_some, readUtf8_encodeUtf8]
      rfl

theorem lockedRead_eq (h : disk.Holds epoch file) :
    lockedRead disk = .ok (file.map fileText, epoch, epochIsKnown disk) := by
  rw [lockedRead, h.generation.readEpoch]
  cases file with
  | none =>
      have hnone : disk.primary = none := h.primary
      rw [hnone]
      cases hknown : epochIsKnown disk with
      | false =>
          rw [epochIsKnown, Bool.or_eq_false_iff] at hknown
          have hepoch : disk.epoch = none := by simpa using hknown.2
          rw [(h.generation.fresh hepoch).2.2]
          rfl
      | true => rfl
  | some records =>
      have hsome : disk.primary = some (encodeUtf8 (fileText records)) := h.primary
      rw [hsome]
      simp only [readUtf8_encodeUtf8]
      rfl

/-- A missing file of a known generation is not the one of epoch 0. -/
theorem missing (h : disk.Holds epoch (none : Option (List (Obj F)))) :
    (epochIsKnown disk && epoch == 0) = false := by
  cases hepoch : disk.epoch with
  | none => simp [epochIsKnown, hepoch, (h.generation.fresh hepoch).1]
  | some data =>
      have hpos := (h.generation.known data hepoch).2.2 h.primary
      simp
      omega

end Disk.Holds

/-! ## Loading -/

/-- The session that `_load_state` makes of a payload. -/
def loadedSession (key : Str) (epoch : Nat) (now : DateTime) (payload : Payload F) : Session F :=
  { toSnapshot := payload.toSnapshot
    key
    createdAt := payload.createdAt.getD now
    storageEpoch := epoch
    updatedAt := payload.updatedAt.getD (payload.createdAt.getD now)
    persistedCount := payload.messages.length
    persisted := true
    persistedSnapshot := some payload.toSnapshot
    requiresRewrite := payload.partialTailFound }

theorem loadState_none {disk : Disk} {epoch : Nat}
    (h : disk.Holds epoch (none : Option (List (Obj F)))) (key : Str) (now : DateTime) :
    (loadState disk key now : Except StorageError (Option (Session F) × Nat)) =
      .ok (none, epoch) := by
  rw [loadState, h.lockedRead_eq]
  simp only [bind, Except.bind, Option.map_none, h.missing]
  rfl

theorem loadState_some {disk : Disk} {epoch : Nat} {records : List (Obj F)}
    (h : disk.Holds epoch (some records)) (key : Str) (now : DateTime) :
    loadState disk key now =
      (decodePayload (F := F) (sessionPath key) key (fileText records)).map fun payload =>
        (some (loadedSession key epoch now payload), epoch) := by
  rw [loadState, h.lockedRead_eq]
  simp only [bind, Except.bind, Option.map_some]
  cases (decodePayload (sessionPath key) key (fileText records) :
    Except StorageError (Payload F)) with
  | error error => rfl
  | ok payload => rfl

/-! ## What is written -/

namespace Session

def rewriteRecords (session : Session F) : List (Obj F) := session.metadataRecord :: session.messages

def appendRecords (session : Session F) : List (Obj F) :=
  session.metadataRecord :: session.messages.drop session.persistedCount

/-- What an append and a rewrite check of the file. -/
def appendCheck (session : Session F) : Str → Except StorageError Unit :=
  validateAppendBase (sessionPath session.key) session.key
    (session.persistedSnapshot.getD session.toSnapshot)

def rewriteCheck (session : Session F) (raw : Str) : Except StorageError Unit :=
  match session.persistedSnapshot with
  | none => .ok ()
  | some expected => validateRewriteBase (sessionPath session.key) session.key expected raw

def appendBase (session : Session F) (file : Option (List (Obj F))) : Except StorageError Unit :=
  validateRecords file session.appendCheck

def rewriteBase (session : Session F) (file : Option (List (Obj F))) : Except StorageError Unit :=
  validateRecords file session.rewriteCheck

theorem write_eq_append {session : Session F} {disk : Disk} {forceRewrite : Bool}
    (h : session.rewrites forceRewrite = false) :
    session.write disk forceRewrite =
      lockedAppend disk session.appendLines (some session.storageEpoch) session.persisted
        session.appendCheck := by
  rw [write, h, if_neg (by decide)]
  rfl

theorem write_eq_rewrite {session : Session F} {disk : Disk} {forceRewrite : Bool}
    (h : session.rewrites forceRewrite = true) :
    session.write disk forceRewrite =
      atomicReplace disk (block session.rewriteLines) (some session.storageEpoch)
        (some session.persisted) session.persisted true session.rewriteCheck := by
  rw [write, h, if_pos rfl]
  rfl

theorem block_rewriteLines (session : Session F) :
    block session.rewriteLines = fileText session.rewriteRecords := by
  simp [rewriteLines, rewriteRecords, fileText]

theorem block_appendLines (session : Session F) :
    block session.appendLines = fileText session.appendRecords := by
  simp [appendLines, appendRecords, fileText]

end Session

theorem encodeUtf8_singleton_newline : encodeUtf8 ['\n'] = [0x0a] := by decide

theorem getLast_fileText {records : List (Obj F)} (h : records ≠ []) :
    (encodeUtf8 (fileText records)).getLast? = some 0x0a := by
  obtain ⟨init, last, rfl⟩ := (List.eq_nil_or_concat' records).resolve_left h
  have htext : fileText (init ++ [last]) =
      (fileText init ++ Session.dumpsObj last) ++ ['\n'] := by
    simp [fileText, block]
  rw [htext, encodeUtf8_append, encodeUtf8_singleton_newline, List.getLast?_concat]

/-- A block goes right behind whole records. -/
theorem appended_eq {disk : Disk} {epoch : Nat} {file : Option (List (Obj F))}
    (h : disk.Holds epoch file) (lines : List Str) :
    appended disk lines = encodeUtf8 (block lines) := by
  rw [appended, h.primary]
  cases file with
  | none => rfl
  | some records =>
      simp only [Option.map_some]
      rw [if_neg]
      rw [getLast_fileText (h.filled records rfl)]
      simp

/-! ## Saving -/

/-- The changes of an append and of a rewrite. -/
def appendChanges (disk : Disk) (epoch : Nat) (records : List (Obj F)) : List Change :=
  ensureEpoch disk epoch ++
    .create :: (encodeUtf8 (fileText records)).map .append

def rewriteChanges (disk : Disk) (epoch : Nat) (records : List (Obj F)) : List Change :=
  .writeTmp (encodeUtf8 (fileText records)) :: writeEpoch disk (epoch + 1) ++ [.renameTmp]

theorem holds_append {disk : Disk} {epoch : Nat} {file : Option (List (Obj F))}
    (h : disk.Holds epoch file) {records : List (Obj F)} (hne : records ≠ [])
    (hrep : ∀ data ∈ records, Obj.Representable data) :
    (disk.exec (appendChanges disk epoch records)).Holds epoch (some (file.getD [] ++ records)) := by
  have happended : appended disk (records.map Session.dumpsObj) = encodeUtf8 (fileText records) :=
    appended_eq h _
  obtain ⟨hprimary, hat⟩ := exec_lockedAppend h.generation (records.map Session.dumpsObj)
  rw [happended] at hprimary hat
  refine ⟨hat, ?_, ?_, ?_⟩
  · rw [appendChanges, hprimary, h.primary, Option.map_some]
    cases file with
    | none => simp
    | some old =>
        simp only [Option.map_some, Option.getD_some]
        rw [fileText_append, encodeUtf8_append]
  · rintro _ ⟨⟩
    simp [hne]
  · rintro _ ⟨⟩ data hdata
    rcases List.mem_append.mp hdata with hold | hnew
    · cases file with
      | none => cases hold
      | some old => exact h.representable old rfl data hold
    · exact hrep data hnew

theorem holds_rewrite (disk : Disk) (epoch : Nat) {records : List (Obj F)} (hne : records ≠ [])
    (hrep : ∀ data ∈ records, Obj.Representable data) :
    (disk.exec (rewriteChanges disk epoch records)).Holds (epoch + 1) (some records) := by
  obtain ⟨hprimary, hat⟩ :=
    exec_atomicReplace disk (encodeUtf8 (fileText records)) (epoch + 1)
  refine ⟨hat, hprimary, ?_, ?_⟩
  · rintro _ ⟨⟩
    exact hne
  · rintro _ ⟨⟩
    exact hrep

/-- A save that appends. -/
theorem write_append {disk : Disk} {epoch : Nat} {file : Option (List (Obj F))}
    (h : disk.Holds epoch file) {session : Session F} {forceRewrite : Bool}
    (hrewrites : session.rewrites forceRewrite = false) :
    session.write disk forceRewrite =
      if session.persisted && file.isNone then .error .deleted
      else if session.storageEpoch ≠ epoch then .error .replaced
      else (session.appendBase file).map fun _ =>
        (appendChanges disk epoch session.appendRecords, epoch) := by
  have hlines : session.appendLines ≠ [] := by simp [Session.appendLines]
  rw [Session.write_eq_append hrewrites, lockedAppend_eq h.generation hlines,
    h.isNone_primary, h.validateExisting_eq, appended_eq h, session.block_appendLines]
  rfl

/-- A save that rewrites the file. -/
theorem write_rewrite {disk : Disk} {epoch : Nat} {file : Option (List (Obj F))}
    (h : disk.Holds epoch file) {session : Session F} {forceRewrite : Bool}
    (hrewrites : session.rewrites forceRewrite = true) :
    session.write disk forceRewrite =
      if session.persisted ≠ file.isSome then .error .existenceChanged
      else if session.storageEpoch ≠ epoch then .error .replaced
      else (session.rewriteBase file).map fun _ =>
        (rewriteChanges disk epoch session.rewriteRecords, epoch + 1) := by
  rw [Session.write_eq_rewrite hrewrites, atomicReplace_eq h.generation, h.isSome_primary,
    h.validateExisting_eq, session.block_rewriteLines]
  rfl

theorem validateAppendBase_ok {path : SessionPath} {key raw : Str} {expected : Snapshot F} :
    validateAppendBase path key expected raw = .ok () ↔
      ∃ payload : Payload F, decodePayload path key raw = .ok payload ∧
        payload.partialTailFound = false ∧ payload.toSnapshot.metadataEqv expected = true := by
  rw [validateAppendBase]
  cases hdecode : (decodePayload path key raw : Except StorageError (Payload F)) with
  | error error => simp [bind, Except.bind]
  | ok payload =>
      cases htail : payload.partialTailFound with
      | true => simp [bind, Except.bind, htail, throw, throwThe, MonadExceptOf.throw]
      | false =>
          cases heqv : payload.toSnapshot.metadataEqv expected with
          | true => simp [bind, Except.bind, htail, heqv, pure, Except.pure]
          | false =>
              simp [bind, Except.bind, htail, heqv, throw, throwThe, MonadExceptOf.throw]

theorem validateRewriteBase_ok {path : SessionPath} {key raw : Str} {expected : Snapshot F} :
    validateRewriteBase path key expected raw = .ok () ↔
      ∃ payload : Payload F, decodePayload path key raw = .ok payload ∧
        payload.toSnapshot.eqv expected = true := by
  rw [validateRewriteBase]
  cases hdecode : (decodePayload path key raw : Except StorageError (Payload F)) with
  | error error => simp [bind, Except.bind]
  | ok payload =>
      cases heqv : payload.toSnapshot.eqv expected with
      | true => simp [bind, Except.bind, heqv, pure, Except.pure]
      | false => simp [bind, Except.bind, heqv, throw, throwThe, MonadExceptOf.throw]

/-! ## What is saved can be read -/

omit [FiniteFloat F] in
theorem representable_dict {pairs : Obj F} (h : ∀ field ∈ pairs, field.2.Representable) :
    Obj.Representable (dict pairs) :=
  representable_obj.mpr ⟨nodup_dict pairs, fun field hfield => h field (of_mem_dict hfield)⟩

namespace Session

omit [FiniteFloat F] in
theorem representable_prepare {session : Session F} (h : session.toSnapshot.Representable) :
    session.prepare.toSnapshot.Representable where
  messages := h.messages
  metadata := by
    apply representable_dict
    intro field hfield
    rcases List.mem_append.mp hfield with hreserved | hown
    · simp only [reserved, List.mem_cons, List.not_mem_nil, or_false] at hreserved
      rcases hreserved with rfl | rfl | rfl | rfl | rfl <;> trivial
    · exact (representable_obj.mp h.metadata).2 field hown
  pending := h.pending

/-- The field names of a metadata record. -/
def metadataNames : List Str :=
  ["_type".toList, "key".toList, "created_at".toList, "updated_at".toList, "metadata".toList,
    "last_consolidated".toList, "pending_clarification".toList]

def reservedNames : List Str :=
  ["source".toList, "channel".toList, "chat_id".toList, "title".toList,
    "parent_session_id".toList]

omit [FiniteFloat F] in
theorem names_metadataRecord (session : Session F) :
    session.metadataRecord.map Prod.fst = metadataNames := rfl

omit [FiniteFloat F] in
theorem names_reserved (key : Str) : (reserved key : Obj F).map Prod.fst = reservedNames := rfl

omit [FiniteFloat F] in
theorem representable_metadataRecord {session : Session F}
    (h : session.toSnapshot.Representable) : Obj.Representable session.metadataRecord := by
  refine representable_obj.mpr ⟨by rw [names_metadataRecord]; decide, ?_⟩
  intro field hfield
  simp only [metadataRecord, List.mem_cons, List.not_mem_nil, or_false] at hfield
  rcases hfield with rfl | rfl | rfl | rfl | rfl | rfl | rfl
  · trivial
  · trivial
  · trivial
  · trivial
  · exact h.metadata
  · trivial
  · cases hpending : session.pendingClarification with
    | none => trivial
    | some pending => exact h.pending pending hpending

omit [FiniteFloat F] in
theorem representable_rewriteRecords {session : Session F}
    (h : session.toSnapshot.Representable) :
    ∀ data ∈ session.rewriteRecords, Obj.Representable data :=
  List.forall_mem_cons.mpr ⟨representable_metadataRecord h, h.messages⟩

omit [FiniteFloat F] in
theorem representable_appendRecords {session : Session F}
    (h : session.toSnapshot.Representable) :
    ∀ data ∈ session.appendRecords, Obj.Representable data :=
  List.forall_mem_cons.mpr ⟨representable_metadataRecord h, fun data hdata =>
    h.messages data (List.mem_of_mem_drop hdata)⟩

end Session

/-- What a save that returned found on disk, and what it left there. -/
theorem save_ok {disk : Disk} {epoch : Nat} {file : Option (List (Obj F))}
    (h : disk.Holds epoch file) {session : Session F} (hrep : session.toSnapshot.Representable)
    {forceRewrite : Bool} {changes : List Change}
    (hsave : (session.save disk forceRewrite).2 = .ok changes) :
    session.storageEpoch = epoch ∧
      ((session.prepare.rewrites forceRewrite = false ∧
          (session.persisted = true → file.isSome = true) ∧
          session.prepare.appendBase file = .ok () ∧
          (session.save disk forceRewrite).1 = session.prepare.markPersisted epoch ∧
          (disk.exec changes).Holds epoch
            (some (file.getD [] ++ session.prepare.appendRecords))) ∨
        (session.prepare.rewrites forceRewrite = true ∧
          session.persisted = file.isSome ∧
          session.prepare.rewriteBase file = .ok () ∧
          (session.save disk forceRewrite).1 = session.prepare.markPersisted (epoch + 1) ∧
          (disk.exec changes).Holds (epoch + 1) (some session.prepare.rewriteRecords))) := by
  have hprepare := Session.representable_prepare hrep
  rw [Session.save] at hsave ⊢
  cases hrewrites : session.prepare.rewrites forceRewrite with
  | false =>
      rw [write_append h hrewrites] at hsave ⊢
      by_cases hmissing : (session.prepare.persisted && file.isNone) = true
      · rw [if_pos hmissing] at hsave
        cases hsave
      by_cases hepoch : session.prepare.storageEpoch ≠ epoch
      · rw [if_neg hmissing, if_pos hepoch] at hsave
        cases hsave
      rw [if_neg hmissing, if_neg hepoch] at hsave ⊢
      cases hbase : session.prepare.appendBase file with
      | error error =>
          rw [hbase] at hsave
          cases hsave
      | ok _ =>
          rw [hbase] at hsave
          cases hsave
          refine ⟨not_not.mp hepoch, Or.inl ⟨rfl, ?_, rfl, rfl, ?_⟩⟩
          · intro hpersisted
            have hkept : session.prepare.persisted = true := hpersisted
            rw [hkept] at hmissing
            cases file with
            | none => exact absurd rfl hmissing
            | some _ => rfl
          · exact holds_append h (List.cons_ne_nil _ _)
              (Session.representable_appendRecords hprepare)
  | true =>
      rw [write_rewrite h hrewrites] at hsave ⊢
      by_cases hexists : session.prepare.persisted ≠ file.isSome
      · rw [if_pos hexists] at hsave
        cases hsave
      by_cases hepoch : session.prepare.storageEpoch ≠ epoch
      · rw [if_neg hexists, if_pos hepoch] at hsave
        cases hsave
      rw [if_neg hexists, if_neg hepoch] at hsave ⊢
      cases hbase : session.prepare.rewriteBase file with
      | error error =>
          rw [hbase] at hsave
          cases hsave
      | ok _ =>
          rw [hbase] at hsave
          cases hsave
          exact ⟨not_not.mp hepoch, Or.inr ⟨rfl, not_not.mp hexists, rfl, rfl,
            holds_rewrite disk epoch (List.cons_ne_nil _ _)
              (Session.representable_rewriteRecords hprepare)⟩⟩

/-- A save with the epoch of the path and a base that is still there returns. -/
theorem save_returns_at {disk : Disk} {epoch : Nat} (h : disk.At epoch) {session : Session F}
    {forceRewrite : Bool} (hepoch : session.storageEpoch = epoch)
    (hexists : session.persisted = disk.primary.isSome)
    (happend : session.prepare.rewrites forceRewrite = false →
      validateExisting disk session.prepare.appendCheck = .ok ())
    (hrewrite : validateExisting disk session.prepare.rewriteCheck = .ok ()) :
    ∃ changes, (session.save disk forceRewrite).2 = .ok changes := by
  have hstored : ¬ session.prepare.storageEpoch ≠ epoch := not_not.mpr hepoch
  have hpersisted : session.prepare.persisted = disk.primary.isSome := hexists
  rw [Session.save]
  cases hrewrites : session.prepare.rewrites forceRewrite with
  | false =>
      have hlines : session.prepare.appendLines ≠ [] := by simp [Session.appendLines]
      have hmissing : ¬ (session.prepare.persisted && disk.primary.isNone) = true := by
        rw [hpersisted]
        cases disk.primary <;> simp
      rw [Session.write_eq_append hrewrites, lockedAppend_eq h hlines, if_neg hmissing,
        if_neg hstored, happend hrewrites]
      exact ⟨_, rfl⟩
  | true =>
      rw [Session.write_eq_rewrite hrewrites, atomicReplace_eq h,
        if_neg (not_not.mpr hpersisted), if_neg hstored, hrewrite]
      exact ⟨_, rfl⟩

theorem save_returns {disk : Disk} {epoch : Nat} {file : Option (List (Obj F))}
    (h : disk.Holds epoch file) {session : Session F} {forceRewrite : Bool}
    (hepoch : session.storageEpoch = epoch) (hexists : session.persisted = file.isSome)
    (happend : session.prepare.appendBase file = .ok ())
    (hrewrite : session.prepare.rewriteBase file = .ok ()) :
    ∃ changes, (session.save disk forceRewrite).2 = .ok changes := by
  refine save_returns_at h.generation hepoch (hexists.trans h.isSome_primary.symm) ?_ ?_
  · intro _
    rw [h.validateExisting_eq]
    exact happend
  · rw [h.validateExisting_eq]
    exact hrewrite

end Sessions
end CodeCub
