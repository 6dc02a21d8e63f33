import CodeCub.Machine.Run
import CodeCub.Sessions.Torn

/-!
# Crashes inside the storage operations

A crash leaves the changes that an operation had made before it.  Where the marker is
there without its epoch, where epoch 0 is known and its file is not there yet, and where
a file without its first record has a name that does not spell its key, the session
cannot be loaded any more; everywhere else a fresh manager finds the old state, the new
one, or the old messages with some of the new ones behind them.
-/

namespace CodeCub
namespace Sessions

open Python

variable {F : Type} [FiniteFloat F]

/-! ## Operations and crash points -/

/-- An operation of a manager on the file of its session. -/
inductive FileCall (F : Type) where
  | save (session : Session F) (forceRewrite : Bool)
  | commitHistoryRewrite (session : Session F)
  | delete (expectedEpoch : Option Nat) (expectedExists : Option Bool) (cached : Bool)

def FileCall.changes (disk : Disk) : FileCall F → Except StorageError (List Change)
  | .save session forceRewrite => (session.save disk forceRewrite).2
  | .commitHistoryRewrite session => (session.commitHistoryRewrite disk).2
  | .delete expectedEpoch expectedExists cached =>
      (lockedDelete disk expectedEpoch expectedExists cached true).map Prod.fst

/-- A call that is carried out, or that crashes after some of its changes. -/
structure Attempt (F : Type) where
  call : FileCall F
  crash : Option Nat

/-- The changes that are made. -/
def Attempt.done (attempt : Attempt F) (changes : List Change) : List Change :=
  match attempt.crash with
  | none => changes
  | some n => changes.take n

def fileMachine : Machine Disk (Attempt F) (Option StorageError) where
  step disk attempt :=
    match attempt.call.changes disk with
    | .error error => (disk, some error)
    | .ok changes => (disk.exec (attempt.done changes), none)

/-- A session of ASCII strings that JSON can represent. -/
structure Session.Ascii (session : Session F) : Prop where
  storable : session.toSnapshot.Storable
  key : IsAscii session.key
  metadata : Obj.Ascii session.metadata
  pending : ∀ pending ∈ session.pendingClarification, Obj.Ascii pending
  messages : ∀ message ∈ session.messages, Obj.Ascii message

def FileCall.Ascii (key : Str) : FileCall F → Prop
  | .save session _ => session.key = key ∧ session.Ascii
  | .commitHistoryRewrite session => session.key = key ∧ session.Ascii
  | .delete _ _ _ => True

/-! ## What a crash may leave -/

/-- The state that a fresh manager finds. -/
def Disk.found (disk : Disk) (key : Str) (now : DateTime) :
    Except StorageError (Option (Snapshot F)) :=
  (loadState disk key now).map fun loaded => loaded.1.map Session.toSnapshot

def stateMessages (state : Option (Snapshot F)) : List (Obj F) :=
  (state.map Snapshot.messages).getD []

/-- An append that left the old messages and a beginning of the new ones. -/
def FileCall.Between (before state : Option (Snapshot F)) : FileCall F → Prop
  | .save session forceRewrite =>
      session.prepare.rewrites forceRewrite = false ∧
        ∃ k, stateMessages state =
          stateMessages before ++ (session.messages.drop session.persistedCount).take k
  | _ => False

/-- A fresh manager can save what it finds, edited or not. -/
def Disk.SavesOn (F : Type) [FiniteFloat F] (disk : Disk) (key : Str) : Prop :=
  ∀ now (loaded : Option (Session F)) epoch, loadState disk key now = .ok (loaded, epoch) →
    ∀ forceRewrite,
      (∃ changes, ((loaded.getD (newSession key epoch now)).save disk forceRewrite).2 = .ok changes) ∧
      ∀ (fields : Snapshot F) updatedAt, ∃ changes,
        (((loaded.getD (newSession key epoch now)).edit fields updatedAt).save disk
          forceRewrite).2 = .ok changes

/-- What the claim asks of the disk after a crash of the call. -/
def Recovers (key : Str) (call : FileCall F) (disk after crashed : Disk) : Prop :=
  (∀ now, ∃ before whole state : Option (Snapshot F), disk.found key now = .ok before ∧
    after.found key now = .ok whole ∧ crashed.found key now = .ok state ∧
    (state = before ∨ state = whole ∨ call.Between before state)) ∧
  crashed.SavesOn F key

/-- The length of the first record that an append writes. -/
def FileCall.firstRecord : FileCall F → Nat
  | .save session _ => (Session.dumpsObj session.prepare.metadataRecord).length
  | _ => 0

def Change.isAppend : Change → Bool
  | .append _ => true
  | _ => false

/-- The crash points that the storage copes with. -/
structure SafePoint (disk : Disk) (key : Str) (first : Nat) (changes done : List Change) :
    Prop where
  /-- The marker is not renamed yet, or the epoch is. -/
  marked : .renameKnown ∈ done → .renameEpoch ∈ done
  /-- An append that wrote its epoch has created the file. -/
  created : .create ∈ changes → .renameEpoch ∈ done → .create ∈ done
  /-- The path spells the key, or a new file has its first record. -/
  named : disk.primary = none → .create ∈ done →
    key = keyFromPath (sessionPath key) ∨ first ≤ done.countP Change.isAppend

def Attempt.Safe (key : Str) (disk : Disk) (attempt : Attempt F) : Prop :=
  ∀ n changes, attempt.crash = some n → attempt.call.changes disk = .ok changes →
    SafePoint disk key attempt.call.firstRecord changes (changes.take n)

/-! ## Records of a key -/

/-- A record that the sessions of a key write. -/
structure Good (key : Str) (data : Obj F) : Prop where
  representable : Obj.Representable data
  ascii : Obj.Ascii data
  belongs : isMetadata data = false ∨ ∃ session : Session F, session.key = key ∧
    data = session.metadataRecord

omit [FiniteFloat F] in
theorem good_nil (key : Str) : Good (F := F) key [] where
  representable := hereditary_representable.empty
  ascii := by simp [Obj.Ascii, Json.texts, Json.textsFields]
  belongs := Or.inl rfl

omit [FiniteFloat F] in
/-- The records of a key are collected without an error. -/
theorem collect_good {key : Str} {records : List (Obj F)} (h : ∀ data ∈ records, Good key data)
    (payload : Payload F) :
    ∃ result, collect key records payload = .ok result ∧
      result.messages = payload.messages ++ records.filter (fun data => !isMetadata data) ∧
      result.hasMetadataKey = (payload.hasMetadataKey || records.any isMetadata) := by
  induction records generalizing payload with
  | nil => exact ⟨payload, rfl, by simp, by simp⟩
  | cons data records ih =>
      rw [List.forall_mem_cons] at h
      rcases h.1.belongs with hplain | ⟨session, hkey, rfl⟩
      · obtain ⟨result, hcollect, hmessages, hmetadata⟩ :=
          ih h.2 { payload with messages := payload.messages ++ [data] }
        refine ⟨result, ?_, ?_, ?_⟩
        · rw [collect, hplain, if_neg (by decide)]
          exact hcollect
        · rw [hmessages, List.filter_cons, hplain]
          simp
        · rw [hmetadata, List.any_cons, hplain]
          rfl
      · have hmeta := isMetadata_metadataRecord session
        have hread := readMetadataRecord_metadataRecord key session payload
        rw [if_pos hkey] at hread
        obtain ⟨result, hcollect, hmessages, hmetadata⟩ := ih h.2 _
        refine ⟨result, ?_, ?_, ?_⟩
        · rw [collect, hmeta, if_pos rfl, hread]
          exact hcollect
        · rw [hmessages, List.filter_cons, hmeta]
          simp
        · rw [hmetadata, List.any_cons, hmeta]
          simp

/-! ## Disks that can be read -/

/-- Marker, epoch and file fit together, and the file is one of this key. -/
structure Disk.Sound (disk : Disk) (key : Str) (epoch : Nat) (file : Option (Torn F)) : Prop where
  generation : disk.At epoch
  primary : disk.primary = file.map fun torn => encodeUtf8 torn.text
  good : ∀ torn ∈ file, torn.Fine (Good key)
  named : ∀ torn ∈ file, key = keyFromPath (sessionPath key) ∨
    ∃ data ∈ torn.held, isMetadata data = true

/-- The state of the records of a key. -/
def heldState (key : Str) (records : List (Obj F)) : Snapshot F :=
  match collect key records {} with
  | .error _ => {}
  | .ok payload => payload.toSnapshot

theorem Torn.Fine.imp {torn : Torn F} {P Q : Obj F → Prop} (h : torn.Fine P)
    (himp : ∀ data, P data → Q data) : torn.Fine Q := fun data hdata => himp data (h data hdata)

namespace Disk.Sound

variable {disk : Disk} {key : Str} {epoch : Nat}

theorem fresh (key : Str) : Disk.Sound (F := F) {} key 0 none where
  generation := at_fresh
  primary := rfl
  good := by simp
  named := by simp

/-- The payload of the file. -/
theorem decode {torn : Torn F} (h : disk.Sound key epoch (some torn)) :
    ∃ payload, collect key torn.held {} = .ok payload ∧
      decodePayload (sessionPath key) key torn.text =
        .ok { payload with partialTailFound := torn.cutOff } := by
  have hgood := h.good torn rfl
  obtain ⟨payload, hcollect, _, hmetadata⟩ := collect_good hgood.held {}
  refine ⟨payload, hcollect, ?_⟩
  rw [Torn.decodePayload_text _ _ (hgood.imp fun _ h => h.representable)
    (hgood.imp fun _ h => separated_of_asciiObj h.ascii), hcollect, Except.bind, finishPayload,
    validateFallbackIdentity, if_pos]
  · rfl
  · rcases h.named torn rfl with hcanonical | ⟨data, hdata, hmeta⟩
    · exact Or.inr hcanonical
    · left
      rw [hmetadata, List.any_eq_true.mpr ⟨data, hdata, hmeta⟩]
      rfl

theorem read {torn : Torn F} (h : disk.Sound key epoch (some torn)) :
    lockedRead disk = .ok (some torn.text, epoch, epochIsKnown disk) := by
  have hsome : disk.primary = some (encodeUtf8 torn.text) := h.primary
  rw [lockedRead, h.generation.readEpoch, hsome]
  simp only [readUtf8_encodeUtf8]
  rfl

theorem holds_none (h : disk.Sound (F := F) key epoch none) :
    disk.Holds epoch (none : Option (List (Obj F))) :=
  ⟨h.generation, h.primary, by simp, by simp⟩

theorem load_none (h : disk.Sound (F := F) key epoch none) (now : DateTime) :
    (loadState disk key now : Except StorageError (Option (Session F) × Nat)) =
      .ok (none, epoch) := loadState_none h.holds_none key now

theorem load_some {torn : Torn F} (h : disk.Sound key epoch (some torn)) :
    ∃ payload, collect key torn.held {} = .ok payload ∧
      decodePayload (sessionPath key) key torn.text =
        .ok { payload with partialTailFound := torn.cutOff } ∧
      ∀ now, loadState disk key now = .ok (some (loadedSession key epoch now
        { payload with partialTailFound := torn.cutOff }), epoch) := by
  obtain ⟨payload, hcollect, hdecode⟩ := h.decode
  refine ⟨payload, hcollect, hdecode, fun now => ?_⟩
  rw [loadState, h.read]
  simp only [bind, Except.bind, hdecode]
  rfl

/-- What a fresh manager finds. -/
theorem found {file : Option (Torn F)} (h : disk.Sound key epoch file) (now : DateTime) :
    disk.found key now = .ok (file.map fun torn => heldState key torn.held) := by
  rw [Disk.found]
  cases file with
  | none =>
      rw [h.load_none]
      rfl
  | some torn =>
      obtain ⟨payload, hcollect, _, hload⟩ := h.load_some
      rw [hload, Option.map_some, heldState, hcollect]
      rfl

/-- A fresh manager can go on with what it found. -/
theorem savesOn {file : Option (Torn F)} (h : disk.Sound key epoch file) :
    disk.SavesOn F key := by
  intro now loaded epoch' hload forceRewrite
  cases file with
  | none =>
      rw [h.load_none] at hload
      cases hload
      have hsaves : ∀ session : Session F, session.storageEpoch = epoch →
          session.persisted = false →
          ∃ changes, (session.save disk forceRewrite).2 = .ok changes := by
        intro session hepoch hunsaved
        have hmissing : disk.primary = none := h.primary
        have hnothing : ∀ check, validateExisting disk check = .ok () := by
          intro check
          rw [validateExisting, hmissing]
        exact save_returns_at h.generation hepoch (by rw [hunsaved, hmissing]; rfl)
          (fun _ => hnothing _) (hnothing _)
      exact ⟨hsaves _ rfl rfl, fun fields updatedAt => hsaves _ rfl rfl⟩
  | some torn =>
      obtain ⟨payload, hcollect, hdecode, hloads⟩ := h.load_some
      rw [hloads] at hload
      cases hload
      have hstate : payload.toSnapshot.Representable := by
        have hrep := (h.good torn rfl).held
        obtain ⟨hmessages, hmetadata, hpending⟩ := collect_all hereditary_representable
          (fun data hdata => (hrep data hdata).representable)
          ⟨by simp, hereditary_representable.empty, by simp⟩ hcollect
        exact ⟨hmessages, hmetadata, hpending⟩
      have hchecked : ∀ check, validateExisting disk check = check torn.text := by
        intro check
        have hsome : disk.primary = some (encodeUtf8 torn.text) := h.primary
        rw [validateExisting, hsome]
        simp only [readUtf8_encodeUtf8]
      have hsaves : ∀ session : Session F, session.key = key → session.storageEpoch = epoch →
          session.persisted = true → session.requiresRewrite = torn.cutOff →
          session.persistedSnapshot = some payload.toSnapshot →
          ∃ changes, (session.save disk forceRewrite).2 = .ok changes := by
        intro session hkey hepoch hsaved hwhole hsnapshot
        have hprepared : session.prepare.persistedSnapshot = some payload.toSnapshot := hsnapshot
        have hpreparedKey : session.prepare.key = key := hkey
        refine save_returns_at h.generation hepoch ?_ ?_ ?_
        · rw [hsaved, h.primary]
          rfl
        · intro happend
          have hnot : torn.cutOff = false := by
            rw [Session.rewrites, Bool.or_eq_false_iff, Bool.or_eq_false_iff] at happend
            exact hwhole ▸ happend.1.2
          rw [hchecked, Session.appendCheck, hprepared, hpreparedKey]
          exact validateAppendBase_ok.mpr ⟨_, hdecode, hnot, hstate.metadataEqv_refl⟩
        · rw [hchecked, Session.rewriteCheck, hprepared, hpreparedKey]
          exact validateRewriteBase_ok.mpr ⟨_, hdecode, hstate.eqv_refl⟩
      exact ⟨hsaves _ rfl rfl rfl rfl rfl, fun fields updatedAt => hsaves _ rfl rfl rfl rfl rfl⟩

end Disk.Sound

/-! ## Some of the changes -/

theorem prefix_append_cases {α : Type} {l a b : List α} (h : l <+: a ++ b) :
    l <+: a ∨ ∃ c, l = a ++ c ∧ c <+: b := by
  rcases List.prefix_or_prefix_of_prefix h (List.prefix_append a b) with hl | ⟨c, rfl⟩
  · exact Or.inl hl
  · exact Or.inr ⟨c, rfl, (List.prefix_append_right_inj a).mp h⟩

/-- Some of the changes that write an epoch: the epoch is not there yet, or all are made. -/
theorem exec_epoch_prefix {disk : Disk} {epoch : Nat} {done : List Change}
    (h : done <+: writeEpoch disk epoch) (hmarked : .renameKnown ∈ done → .renameEpoch ∈ done) :
    (disk.exec done).primary = disk.primary ∧
      ((Change.renameEpoch ∉ done ∧ (disk.exec done).known = disk.known ∧
          (disk.exec done).epoch = disk.epoch) ∨ done = writeEpoch disk epoch) := by
  rw [writeEpoch, markEpochKnown] at h ⊢
  split at h
  · next hknown =>
      rw [if_pos hknown]
      simp only [List.nil_append, List.prefix_cons_iff, List.prefix_nil] at h
      rcases h with rfl | ⟨_, rfl, rfl | ⟨_, rfl, rfl⟩⟩
      · exact ⟨rfl, Or.inl ⟨by simp, rfl, rfl⟩⟩
      · exact ⟨rfl, Or.inl ⟨by simp, rfl, rfl⟩⟩
      · exact ⟨rfl, Or.inr rfl⟩
  · next hknown =>
      rw [if_neg hknown]
      simp only [List.cons_append, List.nil_append, List.prefix_cons_iff, List.prefix_nil] at h
      rcases h with rfl | ⟨_, rfl, rfl | ⟨_, rfl, rfl | ⟨_, rfl, rfl | ⟨_, rfl, rfl | ⟨_, rfl, rfl⟩⟩⟩⟩⟩
      · exact ⟨rfl, Or.inl ⟨by simp, rfl, rfl⟩⟩
      · exact ⟨rfl, Or.inl ⟨by simp, rfl, rfl⟩⟩
      · exact ⟨rfl, Or.inl ⟨by simp, rfl, rfl⟩⟩
      · exact absurd (hmarked (by simp)) (by simp)
      · exact absurd (hmarked (by simp)) (by simp)
      · exact ⟨rfl, Or.inr rfl⟩

theorem Disk.At.same {disk disk' : Disk} {epoch : Nat} (h : disk.At epoch)
    (hprimary : disk'.primary = disk.primary) (hknown : disk'.known = disk.known)
    (hepoch : disk'.epoch = disk.epoch) : disk'.At epoch where
  fresh hnone := by
    rw [hknown, hprimary]
    exact h.fresh (hepoch ▸ hnone)
  known data hdata := by
    rw [hknown, hprimary]
    exact h.known data (hepoch ▸ hdata)

namespace Disk.Sound

variable {disk : Disk} {key : Str} {epoch : Nat} {file : Option (Torn F)}

theorem same (h : disk.Sound key epoch file) {disk' : Disk} {epoch' : Nat}
    (hat : disk'.At epoch') (hprimary : disk'.primary = disk.primary) :
    disk'.Sound key epoch' file :=
  ⟨hat, hprimary.trans h.primary, h.good, h.named⟩

/-- A new epoch that is written in part. -/
theorem epoch_prefix (h : disk.Sound key epoch file) {done : List Change}
    (hdone : done <+: writeEpoch disk (epoch + 1))
    (hmarked : .renameKnown ∈ done → .renameEpoch ∈ done) :
    ∃ epoch', (disk.exec done).Sound key epoch' file := by
  obtain ⟨hprimary, ⟨_, hknown, hepoch⟩ | rfl⟩ := exec_epoch_prefix hdone hmarked
  · exact ⟨epoch, h.same (h.generation.same hprimary hknown hepoch) hprimary⟩
  · obtain ⟨hsame, hat⟩ := exec_fence disk epoch
    exact ⟨epoch + 1, h.same hat hsame⟩

/-- The first epoch of a path that is written in part, before the file is created. -/
theorem ensure_prefix (h : disk.Sound key epoch file) {done : List Change}
    (hdone : done <+: ensureEpoch disk epoch)
    (hmarked : .renameKnown ∈ done → .renameEpoch ∈ done) (hepoch : Change.renameEpoch ∉ done) :
    (disk.exec done).Sound key epoch file := by
  rw [ensureEpoch] at hdone
  split at hdone
  · rw [List.prefix_nil.mp hdone]
    exact h
  · obtain ⟨hprimary, ⟨_, hknown, hsame⟩ | rfl⟩ := exec_epoch_prefix hdone hmarked
    · exact h.same (h.generation.same hprimary hknown hsame) hprimary
    · exact absurd (by simp [writeEpoch]) hepoch

end Disk.Sound

theorem create_not_mem_ensureEpoch (disk : Disk) (epoch : Nat) :
    Change.create ∉ ensureEpoch disk epoch := by
  rw [ensureEpoch, writeEpoch, markEpochKnown]
  split
  · simp
  · split <;> simp

theorem countP_writeEpoch (disk : Disk) (epoch : Nat) :
    (writeEpoch disk epoch).countP Change.isAppend = 0 := by
  rw [writeEpoch, markEpochKnown]
  split <;> rfl

theorem countP_ensureEpoch (disk : Disk) (epoch : Nat) :
    (ensureEpoch disk epoch).countP Change.isAppend = 0 := by
  rw [ensureEpoch]
  split
  · rfl
  · exact countP_writeEpoch disk epoch

theorem countP_bytes (bytes : Bytes) : (bytes.map .append).countP Change.isAppend = bytes.length := by
  rw [List.countP_map, List.countP_eq_length]
  exact fun _ _ => rfl

/-- Some of the changes of an append: the file is not created, or some bytes are there. -/
theorem append_prefix {disk : Disk} {epoch : Nat} {bytes : Bytes} {done : List Change}
    (h : done <+: ensureEpoch disk epoch ++ .create :: bytes.map .append) :
    done <+: ensureEpoch disk epoch ∨
      ∃ n, n ≤ bytes.length ∧
        done = ensureEpoch disk epoch ++ .create :: (bytes.take n).map .append := by
  rcases prefix_append_cases h with hleft | ⟨c, rfl, hc⟩
  · exact Or.inl hleft
  · rcases List.prefix_cons_iff.mp hc with rfl | ⟨d, rfl, hd⟩
    · exact Or.inl ⟨[], by simp⟩
    · right
      obtain ⟨n, hn, rfl⟩ : ∃ n, n ≤ bytes.length ∧ d = (bytes.take n).map .append := by
        refine ⟨d.length, ?_, ?_⟩
        · have hle := hd.length_le
          rwa [List.length_map] at hle
        · rw [List.map_take]
          exact List.prefix_iff_eq_take.mp hd
      exact ⟨n, hn, rfl⟩

/-! ## What the calls do -/

/-- The changes of a call on a path at an epoch. -/
inductive Plan (disk : Disk) (epoch : Nat) : FileCall F → List Change → Prop
  | nothing (call : FileCall F) : Plan disk epoch call []
  | fence (call : FileCall F) : Plan disk epoch call (writeEpoch disk (epoch + 1))
  | unlink (call : FileCall F) : Plan disk epoch call (writeEpoch disk (epoch + 1) ++ [.unlink])
  | append (session : Session F) (forceRewrite : Bool)
      (hrewrites : session.prepare.rewrites forceRewrite = false)
      (hchecked : validateExisting disk session.prepare.appendCheck = .ok ()) :
      Plan disk epoch (.save session forceRewrite)
        (ensureEpoch disk epoch ++
          .create :: (appended disk session.prepare.appendLines).map .append)
  | replace (call : FileCall F) (session : Session F)
      (hcall : call = .commitHistoryRewrite session ∨ ∃ forceRewrite, call = .save session forceRewrite) :
      Plan disk epoch call (.writeTmp (encodeUtf8 (fileText session.prepare.rewriteRecords)) ::
        writeEpoch disk (epoch + 1) ++ [.renameTmp])

/-- A save appends, or it replaces the file. -/
theorem save_plan {disk : Disk} {epoch : Nat} (h : disk.At epoch) {session : Session F}
    {forceRewrite : Bool} {changes : List Change}
    (hsave : (session.save disk forceRewrite).2 = .ok changes) :
    (session.prepare.rewrites forceRewrite = false ∧
        validateExisting disk session.prepare.appendCheck = .ok () ∧
        changes = ensureEpoch disk epoch ++
          .create :: (appended disk session.prepare.appendLines).map .append) ∨
      (session.prepare.rewrites forceRewrite = true ∧
        changes = .writeTmp (encodeUtf8 (fileText session.prepare.rewriteRecords)) ::
          writeEpoch disk (epoch + 1) ++ [.renameTmp]) := by
  rw [Session.save] at hsave
  cases hrewrites : session.prepare.rewrites forceRewrite with
  | false =>
      have hlines : session.prepare.appendLines ≠ [] := by simp [Session.appendLines]
      rw [Session.write_eq_append hrewrites, lockedAppend_eq h hlines] at hsave
      split at hsave
      · cases hsave
      next result hwritten =>
        split at hwritten
        · cases hwritten
        split at hwritten
        · cases hwritten
        cases hchecked : validateExisting disk session.prepare.appendCheck with
        | error error =>
            rw [hchecked] at hwritten
            cases hwritten
        | ok _ =>
            rw [hchecked] at hwritten
            cases hwritten
            cases hsave
            exact Or.inl ⟨rfl, rfl, rfl⟩
  | true =>
      rw [Session.write_eq_rewrite hrewrites, atomicReplace_eq h,
        session.prepare.block_rewriteLines] at hsave
      split at hsave
      · cases hsave
      next result hwritten =>
        split at hwritten
        · cases hwritten
        split at hwritten
        · cases hwritten
        cases hchecked : validateExisting disk session.prepare.rewriteCheck with
        | error error =>
            rw [hchecked] at hwritten
            cases hwritten
        | ok _ =>
            rw [hchecked] at hwritten
            cases hwritten
            cases hsave
            exact Or.inr ⟨rfl, rfl⟩

theorem delete_plan {disk : Disk} {epoch : Nat} (h : disk.At epoch) {expectedEpoch : Option Nat}
    {expectedExists : Option Bool} {cached : Bool} {changes : List Change} {removed : Bool}
    (hdelete : lockedDelete disk expectedEpoch expectedExists cached true = .ok (changes, removed)) :
    changes = [] ∨ changes = writeEpoch disk (epoch + 1) ∨
      changes = writeEpoch disk (epoch + 1) ++ [.unlink] := by
  rw [lockedDelete_eq h] at hdelete
  split at hdelete
  · cases hdelete
  split at hdelete
  · cases hdelete
  split at hdelete
  · cases hdelete
    exact Or.inl rfl
  split at hdelete
  · cases hdelete
    exact Or.inr (Or.inl rfl)
  · cases hdelete
    exact Or.inr (Or.inr rfl)

theorem plan_of_delete {disk : Disk} {epoch : Nat} (call : FileCall F) {changes : List Change}
    (h : changes = [] ∨ changes = writeEpoch disk (epoch + 1) ∨
      changes = writeEpoch disk (epoch + 1) ++ [.unlink]) : Plan disk epoch call changes := by
  rcases h with rfl | rfl | rfl
  · exact .nothing call
  · exact .fence call
  · exact .unlink call

theorem plan_of_changes {disk : Disk} {epoch : Nat} (h : disk.At epoch) {call : FileCall F}
    {changes : List Change} (hchanges : call.changes disk = .ok changes) :
    Plan disk epoch call changes := by
  cases call with
  | save session forceRewrite =>
      rcases save_plan h hchanges with ⟨hrewrites, hchecked, rfl⟩ | ⟨_, rfl⟩
      · exact .append session forceRewrite hrewrites hchecked
      · exact .replace _ session (Or.inr ⟨forceRewrite, rfl⟩)
  | commitHistoryRewrite session =>
      rw [FileCall.changes, Session.commitHistoryRewrite] at hchanges
      split at hchanges
      · rcases save_plan h hchanges with ⟨hrewrites, _⟩ | ⟨_, rfl⟩
        · simp [Session.rewrites] at hrewrites
        · exact .replace _ session (Or.inl rfl)
      · split at hchanges
        · cases hchanges
        · next hdelete =>
            cases hchanges
            exact plan_of_delete _ (delete_plan h hdelete)
  | delete expectedEpoch expectedExists cached =>
      rw [FileCall.changes] at hchanges
      cases hdelete : lockedDelete disk expectedEpoch expectedExists cached true with
      | error error =>
          rw [hdelete] at hchanges
          cases hchanges
      | ok result =>
          rw [hdelete] at hchanges
          cases hchanges
          exact plan_of_delete _ (delete_plan h hdelete)

/-! ## Records of a session -/

omit [FiniteFloat F] in
theorem ascii_reserved {key : Str} (h : IsAscii key) :
    ∀ field ∈ (Session.reserved key : Obj F), IsAscii field.1 ∧ ∀ s ∈ field.2.texts, IsAscii s := by
  have hnames : ∀ name ∈ Session.reservedNames, IsAscii name := by decide
  intro field hfield
  have hname : field.1 ∈ Session.reservedNames := by
    rw [← Session.names_reserved (F := F) key]
    exact List.mem_map_of_mem hfield
  refine ⟨hnames _ hname, ?_⟩
  simp only [Session.reserved, List.mem_cons, List.not_mem_nil, or_false] at hfield
  rcases hfield with rfl | rfl | rfl | rfl | rfl
  · simp [Json.texts]
  · simp only [Json.texts, List.mem_singleton, forall_eq]
    exact fun c hc => h c ((List.takeWhile_sublist _).subset hc)
  · simp only [Json.texts, List.mem_singleton, forall_eq]
    exact fun c hc => h c ((List.dropWhile_sublist _).subset (List.mem_of_mem_drop hc))
  · simp [Json.texts]
  · simp [Json.texts]

omit [FiniteFloat F] in
theorem ascii_obj {data : Obj F} :
    Obj.Ascii data ↔ ∀ field ∈ data, IsAscii field.1 ∧ ∀ s ∈ field.2.texts, IsAscii s := by
  constructor
  · intro h field hfield
    exact ⟨h field.1 (mem_texts_obj.mpr ⟨field, hfield, Or.inl rfl⟩),
      fun s hs => h s (mem_texts_obj.mpr ⟨field, hfield, Or.inr hs⟩)⟩
  · intro h s hs
    obtain ⟨field, hfield, hs⟩ := mem_texts_obj.mp hs
    rcases hs with rfl | hs
    · exact (h field hfield).1
    · exact (h field hfield).2 s hs

namespace Session.Ascii

variable {session : Session F}

omit [FiniteFloat F] in
theorem prepare (h : session.Ascii) : session.prepare.Ascii where
  storable := storable_prepare h.storable
  key := h.key
  metadata := by
    refine ascii_obj.mpr fun field hfield => ?_
    rcases List.mem_append.mp (of_mem_dict hfield) with hreserved | hown
    · exact ascii_reserved h.key field hreserved
    · exact ascii_obj.mp h.metadata field hown
  pending := h.pending
  messages := h.messages

omit [FiniteFloat F] in
theorem metadataRecord (h : session.Ascii) : Obj.Ascii session.metadataRecord := by
  have hnames : ∀ name ∈ Session.metadataNames, IsAscii name := by decide
  refine ascii_obj.mpr fun field hfield => ?_
  refine ⟨hnames _ (session.names_metadataRecord ▸ List.mem_map_of_mem hfield), ?_⟩
  simp only [Session.metadataRecord, List.mem_cons, List.not_mem_nil, or_false] at hfield
  rcases hfield with rfl | rfl | rfl | rfl | rfl | rfl | rfl
  · have htype : IsAscii "metadata".toList := by decide
    simpa [Json.texts] using htype
  · simpa [Json.texts] using h.key
  · have hcreated : IsAscii session.createdAt.localChars := session.createdAt.localChars_ascii
    simpa [Json.texts] using hcreated
  · have hupdated : IsAscii session.updatedAt.localChars := session.updatedAt.localChars_ascii
    simpa [Json.texts] using hupdated
  · exact h.metadata
  · simp [Json.texts]
  · cases hpending : session.pendingClarification with
    | none => simp [Json.texts]
    | some pending => exact h.pending pending hpending

omit [FiniteFloat F] in
theorem goodMetadata (h : session.Ascii) {key : Str} (hkey : session.key = key) :
    Good key session.metadataRecord :=
  ⟨Session.representable_metadataRecord h.storable.toRepresentable, h.metadataRecord,
    Or.inr ⟨session, hkey, rfl⟩⟩

omit [FiniteFloat F] in
theorem goodMessages (h : session.Ascii) (key : Str) : ∀ message ∈ session.messages, Good key message :=
  fun message hmessage => ⟨h.storable.messages message hmessage, h.messages message hmessage,
    Or.inl (h.storable.plain message hmessage)⟩

omit [FiniteFloat F] in
theorem goodRewrite (h : session.Ascii) {key : Str} (hkey : session.key = key) :
    ∀ data ∈ session.rewriteRecords, Good key data :=
  List.forall_mem_cons.mpr ⟨h.goodMetadata hkey, h.goodMessages key⟩

omit [FiniteFloat F] in
theorem goodAppend (h : session.Ascii) {key : Str} (hkey : session.key = key) :
    ∀ data ∈ session.appendRecords, Good key data :=
  List.forall_mem_cons.mpr ⟨h.goodMetadata hkey, fun message hmessage =>
    h.goodMessages key message (List.mem_of_mem_drop hmessage)⟩

end Session.Ascii

/-! ## What is left of an operation -/

omit [FiniteFloat F] in
theorem messages_heldState {key : Str} {records : List (Obj F)}
    (h : ∀ data ∈ records, Good key data) :
    (heldState key records).messages = records.filter (fun data => !isMetadata data) := by
  obtain ⟨payload, hcollect, hmessages, _⟩ := collect_good h {}
  rw [heldState, hcollect]
  exact hmessages

omit [FiniteFloat F] in
/-- The messages among the first records of an append. -/
theorem filter_taken {session : Session F} (h : session.Ascii) {taken : List (Obj F)}
    (htaken : taken <+: session.prepare.appendRecords) :
    ∃ k, taken.filter (fun data => !isMetadata data) =
      (session.messages.drop session.persistedCount).take k := by
  rcases List.prefix_cons_iff.mp htaken with rfl | ⟨messages, rfl, hmessages⟩
  · exact ⟨0, rfl⟩
  · refine ⟨messages.length, ?_⟩
    rw [List.filter_cons, isMetadata_metadataRecord]
    simp only [Bool.not_true, Bool.false_eq_true, if_false]
    have htake : messages = (session.messages.drop session.persistedCount).take messages.length :=
      List.prefix_iff_eq_take.mp hmessages
    rw [List.filter_eq_self.mpr, ← htake]
    intro message hmessage
    have hmem := List.mem_of_mem_drop (hmessages.subset hmessage)
    rw [h.storable.plain message hmem]
    rfl

/-- The files that a crash may leave, or a call that is carried out. -/
def Left (key : Str) (call : FileCall F) (complete : Prop) (file file' : Option (Torn F)) : Prop :=
  file'.map Torn.held = file.map Torn.held ∨ complete ∨
    call.Between (file.map fun torn => heldState key torn.held)
      (file'.map fun torn => heldState key torn.held)

namespace Disk.Sound

variable {disk : Disk} {key : Str} {epoch : Nat} {file : Option (Torn F)}

/-- A file that is replaced, in part or completely. -/
theorem replace_prefix (h : disk.Sound key epoch file) {session : Session F}
    (hsession : session.Ascii) (hkey : session.key = key) {call : FileCall F} {done : List Change}
    (hdone : done <+: .writeTmp (encodeUtf8 (fileText session.prepare.rewriteRecords)) ::
      writeEpoch disk (epoch + 1) ++ [.renameTmp])
    (hmarked : .renameKnown ∈ done → .renameEpoch ∈ done) :
    ∃ epoch' file', (disk.exec done).Sound key epoch' file' ∧
      Left key call (done = .writeTmp (encodeUtf8 (fileText session.prepare.rewriteRecords)) ::
        writeEpoch disk (epoch + 1) ++ [.renameTmp]) file file' := by
  have hgood := hsession.prepare.goodRewrite hkey
  let data := encodeUtf8 (fileText session.prepare.rewriteRecords)
  have hwritten : (disk.apply (.writeTmp data)).Sound key epoch file :=
    h.same (h.generation.same rfl rfl rfl) rfl
  rcases List.prefix_cons_iff.mp hdone with rfl | ⟨rest, rfl, hrest⟩
  · exact ⟨epoch, file, h, Or.inl rfl⟩
  · have hrestMarked : .renameKnown ∈ rest → .renameEpoch ∈ rest := by simpa using hmarked
    rcases prefix_append_cases hrest with hepoch | ⟨c, rfl, hc⟩
    · obtain ⟨epoch', hsound⟩ := hwritten.epoch_prefix hepoch hrestMarked
      exact ⟨epoch', file, hsound, Or.inl rfl⟩
    · rcases List.prefix_cons_iff.mp hc with rfl | ⟨_, rfl, hnil⟩
      · rw [List.append_nil] at hrestMarked ⊢
        obtain ⟨epoch', hsound⟩ := hwritten.epoch_prefix (List.prefix_refl _) hrestMarked
        exact ⟨epoch', file, hsound, Or.inl rfl⟩
      · rw [List.prefix_nil.mp hnil]
        obtain ⟨hprimary, hat⟩ := exec_atomicReplace disk data (epoch + 1)
        refine ⟨epoch + 1, some (Torn.whole session.prepare.rewriteRecords), ⟨hat, ?_, ?_, ?_⟩,
          Or.inr (Or.inl rfl)⟩
        · rw [Option.map_some, Torn.text_whole]
          exact hprimary
        · rintro _ ⟨⟩ record hrecord
          rcases List.mem_append.mp hrecord with hmem | hlast
          · exact hgood record hmem
          · rw [List.mem_singleton.mp hlast]
            exact good_nil key
        · rintro _ ⟨⟩
          rw [Torn.held_whole]
          exact Or.inr ⟨_, List.mem_cons_self, isMetadata_metadataRecord _⟩

theorem unlink_prefix (h : disk.Sound key epoch file) {call : FileCall F} {done : List Change}
    (hdone : done <+: writeEpoch disk (epoch + 1) ++ [.unlink])
    (hmarked : .renameKnown ∈ done → .renameEpoch ∈ done) :
    ∃ epoch' file', (disk.exec done).Sound key epoch' file' ∧
      Left key call (done = writeEpoch disk (epoch + 1) ++ [.unlink]) file file' := by
  rcases prefix_append_cases hdone with hepoch | ⟨c, rfl, hc⟩
  · obtain ⟨epoch', hsound⟩ := h.epoch_prefix hepoch hmarked
    exact ⟨epoch', file, hsound, Or.inl rfl⟩
  · rcases List.prefix_cons_iff.mp hc with rfl | ⟨_, rfl, hnil⟩
    · rw [List.append_nil] at hmarked ⊢
      obtain ⟨epoch', hsound⟩ := h.epoch_prefix (List.prefix_refl _) hmarked
      exact ⟨epoch', file, hsound, Or.inl rfl⟩
    · rw [List.prefix_nil.mp hnil]
      obtain ⟨hprimary, hat⟩ := exec_unlink disk epoch
      exact ⟨epoch + 1, none, ⟨hat, hprimary, by simp, by simp⟩, Or.inr (Or.inl rfl)⟩

/-- The record that a new file begins with. -/
theorem named_cut {session : Session F} {n : Nat}
    (h : (Session.dumpsObj session.prepare.metadataRecord).length ≤ n) :
    ∃ data ∈ (Torn.cut session.prepare.appendRecords n).held, isMetadata data = true := by
  have hne : (Torn.cut session.prepare.appendRecords n).held ≠ [] := Torn.held_cut_ne_nil h
  have hprefix := Torn.held_cut session.prepare.appendRecords n
  rcases List.prefix_cons_iff.mp hprefix with hnil | ⟨messages, hheld, _⟩
  · exact absurd hnil hne
  · rw [hheld]
    exact ⟨_, List.mem_cons_self, isMetadata_metadataRecord _⟩

/-- The bytes of an append behind what is there. -/
theorem append_bytes (h : disk.Sound key epoch file) {session : Session F}
    (hsession : session.Ascii) (hkey : session.key = key)
    (hchecked : validateExisting disk session.prepare.appendCheck = .ok ()) (n : Nat) :
    ∃ torn : Torn F, disk.primary.getD [] ++ (appended disk session.prepare.appendLines).take n =
        encodeUtf8 torn.text ∧
      torn.Fine (Good key) ∧
      (∃ taken, torn.held = (file.map Torn.held).getD [] ++ taken ∧
        taken <+: session.prepare.appendRecords) ∧
      (file = none → torn = Torn.cut session.prepare.appendRecords n) := by
  have hgood := hsession.prepare.goodAppend hkey
  have hascii := ascii_fileText fun data hdata => (hgood data hdata).ascii
  cases file with
  | none =>
      have hmissing : disk.primary = none := h.primary
      refine ⟨Torn.cut session.prepare.appendRecords n, ?_, Torn.fine_cut hgood (good_nil key) n,
        ⟨_, rfl, Torn.held_cut _ n⟩, fun _ => rfl⟩
      rw [appended, hmissing, Torn.text_cut, session.prepare.block_appendLines,
        encodeUtf8_take hascii]
      rfl
  | some torn =>
      have hsome : disk.primary = some (encodeUtf8 torn.text) := h.primary
      have htorn := h.good torn rfl
      have htornAscii := htorn.imp fun _ h => h.ascii
      have hwhole : torn.cutOff = false := by
        have hpreparedKey : session.prepare.key = key := hkey
        rw [validateExisting, hsome] at hchecked
        simp only [readUtf8_encodeUtf8] at hchecked
        rw [Session.appendCheck, hpreparedKey] at hchecked
        obtain ⟨payload, hdecode, hnot, _⟩ := validateAppendBase_ok.mp hchecked
        obtain ⟨_, _, hdecoded⟩ := h.decode
        rw [hdecoded] at hdecode
        cases hdecode
        exact hnot
      have hnewAscii : IsAscii (torn.newline ++ fileText session.prepare.appendRecords) := by
        intro c hc
        rcases List.mem_append.mp hc with hc | hc
        · exact torn.newline_ascii c hc
        · exact hascii c hc
      refine ⟨torn.extend session.prepare.appendRecords n, ?_,
        Torn.fine_extend htorn hgood (good_nil key) n, Torn.held_extend _ _ n, by simp⟩
      rw [Torn.appended_eq htornAscii hsome, session.prepare.block_appendLines, hsome,
        encodeUtf8_take hnewAscii, Torn.text_extend hwhole, encodeUtf8_append]
      rfl

/-- An append that was begun. -/
theorem appended_prefix (h : disk.Sound key epoch file) {session : Session F}
    (hsession : session.Ascii) (hkey : session.key = key) {forceRewrite : Bool}
    (hrewrites : session.prepare.rewrites forceRewrite = false)
    (hchecked : validateExisting disk session.prepare.appendCheck = .ok ()) {done : List Change}
    (hdone : done <+: ensureEpoch disk epoch ++
      .create :: (appended disk session.prepare.appendLines).map .append)
    (hsafe : SafePoint disk key (FileCall.save session forceRewrite).firstRecord
      (ensureEpoch disk epoch ++ .create :: (appended disk session.prepare.appendLines).map .append)
      done) (complete : Prop) :
    ∃ epoch' file', (disk.exec done).Sound key epoch' file' ∧
      Left key (.save session forceRewrite) complete file file' := by
  rcases append_prefix hdone with hensure | ⟨n, hn, rfl⟩
  · have hepoch : Change.renameEpoch ∉ done := by
      intro hmem
      have hcreate := hsafe.created (by simp) hmem
      exact create_not_mem_ensureEpoch disk epoch (hensure.subset hcreate)
    exact ⟨epoch, file, h.ensure_prefix hensure hsafe.marked hepoch, Or.inl rfl⟩
  · obtain ⟨torn, htext, hfine, ⟨taken, hheld, htaken⟩, hcut⟩ :=
      h.append_bytes hsession hkey hchecked n
    obtain ⟨hprimary, hknown, hepoch⟩ := exec_ensureEpoch h.generation
    have hexec : (disk.exec (ensureEpoch disk epoch ++ .create ::
        ((appended disk session.prepare.appendLines).take n).map .append)).primary =
        some (encodeUtf8 torn.text) := by
      rw [exec_append, exec_cons, exec_bytes, ← htext]
      simp only [Disk.apply, hprimary, Option.map_some]
    refine ⟨epoch, some torn, ⟨?_, hexec, ?_, ?_⟩, Or.inr (Or.inr ⟨hrewrites, ?_⟩)⟩
    · rw [exec_append, exec_cons, exec_bytes]
      exact at_of_known hknown hepoch (by simp [Disk.apply])
    · rintro _ ⟨⟩
      exact hfine
    · rintro _ ⟨⟩
      cases file with
      | none =>
          rw [hcut rfl]
          refine (hsafe.named h.primary (by simp)).imp id fun hfirst => named_cut ?_
          rw [List.countP_append, countP_ensureEpoch,
            List.countP_cons_of_neg (by simp [Change.isAppend]), countP_bytes, List.length_take,
            Nat.min_eq_left hn, Nat.zero_add] at hfirst
          exact hfirst
      | some old =>
          refine (h.named old rfl).imp id ?_
          rintro ⟨data, hdata, hmeta⟩
          refine ⟨data, ?_, hmeta⟩
          rw [hheld]
          exact List.mem_append_left _ hdata
    · obtain ⟨k, hk⟩ := filter_taken hsession htaken
      refine ⟨k, ?_⟩
      have hnew := messages_heldState hfine.held
      rw [hheld, List.filter_append, hk] at hnew
      show (heldState key torn.held).messages = _
      rw [hheld, hnew]
      cases file with
      | none => rfl
      | some old =>
          have hold := messages_heldState (h.good old rfl).held
          show _ = (heldState key old.held).messages ++ _
          rw [hold]
          rfl

/-- Every call, begun at a safe point or carried out. -/
theorem plan_prefix (h : disk.Sound key epoch file) {call : FileCall F} (hcall : call.Ascii key)
    {changes done : List Change} (hplan : Plan disk epoch call changes) (hdone : done <+: changes)
    (hsafe : SafePoint disk key call.firstRecord changes done) :
    ∃ epoch' file', (disk.exec done).Sound key epoch' file' ∧
      Left key call (done = changes) file file' := by
  cases hplan with
  | nothing =>
      rw [List.prefix_nil.mp hdone]
      exact ⟨epoch, file, h, Or.inl rfl⟩
  | fence =>
      obtain ⟨epoch', hsound⟩ := h.epoch_prefix hdone hsafe.marked
      exact ⟨epoch', file, hsound, Or.inl rfl⟩
  | unlink => exact h.unlink_prefix hdone hsafe.marked
  | append session forceRewrite hrewrites hchecked =>
      exact h.appended_prefix hcall.2 hcall.1 hrewrites hchecked hdone hsafe _
  | replace _ session hreplaces =>
      rcases hreplaces with rfl | ⟨forceRewrite, rfl⟩
      · exact h.replace_prefix hcall.2 hcall.1 hdone hsafe.marked
      · exact h.replace_prefix hcall.2 hcall.1 hdone hsafe.marked

/-- A call that is carried out is no crash. -/
theorem safePoint_whole {call : FileCall F} (hcall : call.Ascii key)
    {changes : List Change} (hplan : Plan disk epoch call changes) :
    SafePoint disk key call.firstRecord changes changes := by
  have hepoch : .renameEpoch ∈ writeEpoch disk (epoch + 1) := by simp [writeEpoch]
  cases hplan with
  | nothing => exact ⟨by simp, by simp, by simp⟩
  | fence =>
      refine ⟨fun _ => hepoch, fun hcreate _ => hcreate, ?_⟩
      intro _ hcreate
      rw [writeEpoch, markEpochKnown] at hcreate
      split at hcreate <;> simp at hcreate
  | unlink =>
      refine ⟨fun _ => List.mem_append_left _ hepoch, fun hcreate _ => hcreate, ?_⟩
      intro _ hcreate
      rw [writeEpoch, markEpochKnown] at hcreate
      split at hcreate <;> simp at hcreate
  | replace _ session hreplaces =>
      refine ⟨fun _ => ?_, fun hcreate _ => hcreate, ?_⟩
      · exact List.mem_cons_of_mem _ (List.mem_append_left _ hepoch)
      · intro _ hcreate
        rw [writeEpoch, markEpochKnown] at hcreate
        split at hcreate <;> simp at hcreate
  | append session forceRewrite hrewrites hchecked =>
      refine ⟨?_, fun hcreate _ => hcreate, ?_⟩
      · intro hmarked
        rw [ensureEpoch] at hmarked ⊢
        split at hmarked
        · simp at hmarked
        · next hnone =>
            rw [if_neg hnone]
            exact List.mem_append_left _ (by simp [writeEpoch])
      · intro hmissing _
        right
        have hascii := ascii_fileText fun data hdata => (hcall.2.prepare.goodAppend hcall.1 data hdata).ascii
        rw [List.countP_append, countP_ensureEpoch,
          List.countP_cons_of_neg (by simp [Change.isAppend]), countP_bytes, Nat.zero_add, appended,
          hmissing, session.prepare.block_appendLines]
        show (Session.dumpsObj session.prepare.metadataRecord).length ≤ _
        rw [encodeUtf8_ascii hascii, List.length_map, Session.appendRecords, Torn.fileText_cons,
          List.length_append]
        omega

end Disk.Sound

/-! ## Runs -/

/-- A safe crash point recovers. -/
theorem recovers_of_sound {key : Str} {disk : Disk} {epoch : Nat} {file : Option (Torn F)}
    (h : disk.Sound key epoch file) {attempt : Attempt F} (hcall : attempt.call.Ascii key)
    (hsafe : attempt.Safe key disk) {changes : List Change}
    (hchanges : attempt.call.changes disk = .ok changes) :
    (∃ epoch' file', (disk.exec (attempt.done changes)).Sound (F := F) key epoch' file') ∧
      Recovers key attempt.call disk (disk.exec changes) (disk.exec (attempt.done changes)) := by
  have hplan := plan_of_changes h.generation hchanges
  have hwhole := Disk.Sound.safePoint_whole hcall hplan
  obtain ⟨_, after, hafter, _⟩ := h.plan_prefix hcall hplan (List.prefix_refl _) hwhole
  obtain ⟨epoch', file', hsound, hleft⟩ : ∃ epoch' file',
      (disk.exec (attempt.done changes)).Sound key epoch' file' ∧
        Left key attempt.call (attempt.done changes = changes) file file' := by
    rw [Attempt.done]
    cases hcrash : attempt.crash with
    | none => exact h.plan_prefix hcall hplan (List.prefix_refl _) hwhole
    | some n =>
        exact h.plan_prefix hcall hplan (List.take_prefix n changes)
          (hsafe n changes hcrash hchanges)
  refine ⟨⟨epoch', file', hsound⟩, ?_, hsound.savesOn⟩
  intro now
  refine ⟨_, _, _, h.found now, hafter.found now, hsound.found now, ?_⟩
  rcases hleft with hsame | hcomplete | hbetween
  · left
    have hstates : ∀ f : Option (Torn F), (f.map fun torn => heldState key torn.held) =
        (f.map Torn.held).map (heldState key) := fun f => by rw [Option.map_map]; rfl
    rw [hstates, hstates, hsame]
  · right
    left
    have hfound := hsound.found now
    rw [hcomplete, hafter.found now] at hfound
    exact (Except.ok.inj hfound).symm
  · exact Or.inr (Or.inr hbetween)

theorem sound_next {key : Str} {disk : Disk} {attempt : Attempt F}
    (h : ∃ epoch file, disk.Sound (F := F) key epoch file) (hcall : attempt.call.Ascii key)
    (hsafe : attempt.Safe key disk) :
    ∃ epoch file, (fileMachine.next disk attempt).Sound (F := F) key epoch file := by
  obtain ⟨epoch, file, h⟩ := h
  rw [Machine.next, fileMachine]
  simp only
  cases hchanges : attempt.call.changes disk with
  | error error => exact ⟨epoch, file, h⟩
  | ok changes => exact (recovers_of_sound h hcall hsafe hchanges).1

theorem crashes_recover_from {key : Str} {disk : Disk}
    (h : ∃ epoch file, disk.Sound (F := F) key epoch file) {attempts : List (Attempt F)}
    (hcalls : ∀ attempt ∈ attempts, attempt.call.Ascii key)
    (hsafe : fileMachine.Along (fun disk attempt => Attempt.Safe key disk attempt) disk attempts) :
    fileMachine.Along (fun disk attempt => ∀ changes, attempt.call.changes disk = .ok changes →
      Recovers key attempt.call disk (disk.exec changes) (disk.exec (attempt.done changes)))
      disk attempts := by
  induction attempts generalizing disk with
  | nil => trivial
  | cons attempt attempts ih =>
      rw [List.forall_mem_cons] at hcalls
      refine ⟨?_, ih (sound_next h hcalls.1 hsafe.1) hcalls.2 hsafe.2⟩
      intro changes hchanges
      obtain ⟨epoch, file, h⟩ := h
      exact (recovers_of_sound h hcalls.1 hsafe.1 hchanges).2

/-- While all crashes are at safe points, every crash recovers. -/
theorem crashes_recover (key : Str) {attempts : List (Attempt F)}
    (hcalls : ∀ attempt ∈ attempts, attempt.call.Ascii key)
    (hsafe : fileMachine.Along (fun disk attempt => Attempt.Safe key disk attempt) {} attempts) :
    fileMachine.Along (fun disk attempt => ∀ changes, attempt.call.changes disk = .ok changes →
      Recovers key attempt.call disk (disk.exec changes) (disk.exec (attempt.done changes)))
      {} attempts :=
  crashes_recover_from ⟨0, none, Disk.Sound.fresh key⟩ hcalls hsafe

/-- A new session with one message. -/
def firstSession : Session Empty :=
  (newSession "cli:a".toList 0 sampleTime).edit (oneMessage "done".toList) sampleTime

theorem ascii_firstSession : firstSession.Ascii where
  storable := storable_oneMessage _
  key := by decide
  metadata := by decide
  pending := by rintro _ ⟨⟩
  messages := by decide

theorem safe_firstSave (attempts : List (Attempt Empty))
    (h : ∀ attempt ∈ attempts, attempt.crash = none) (disk : Disk) :
    fileMachine.Along (fun disk attempt => Attempt.Safe "cli:a".toList disk attempt) disk
      attempts := by
  induction attempts generalizing disk with
  | nil => trivial
  | cons attempt attempts ih =>
      rw [List.forall_mem_cons] at h
      refine ⟨?_, ih h.2 _⟩
      intro n changes hcrash
      rw [h.1] at hcrash
      cases hcrash

theorem crash_before_marker_recovers :
    fileMachine.Along (fun disk (attempt : Attempt Empty) => ∀ changes,
      attempt.call.changes disk = .ok changes →
      Recovers "cli:a".toList attempt.call disk (disk.exec changes)
        (disk.exec (attempt.done changes)))
      {} [⟨.save firstSession false, some 2⟩, ⟨.save firstSession false, none⟩] := by
  refine crashes_recover "cli:a".toList ?_ ⟨?_, safe_firstSave _ (by simp) _⟩
  · simp only [List.mem_cons, List.not_mem_nil, or_false, forall_eq_or_imp, forall_eq]
    exact ⟨⟨rfl, ascii_firstSession⟩, ⟨rfl, ascii_firstSession⟩⟩
  · rintro n changes ⟨⟩ hchanges
    have hdone : changes.take 2 = [.makeDir, .writeKnownTmp knownBytes] ∨
        ∃ data, changes.take 2 = [.writeTmp data, .makeDir] := by
      rcases save_plan at_fresh hchanges with ⟨_, _, rfl⟩ | ⟨_, rfl⟩
      · exact Or.inl rfl
      · exact Or.inr ⟨_, rfl⟩
    rcases hdone with hdone | ⟨data, hdone⟩
    · rw [hdone]
      exact ⟨by simp, by simp, by simp⟩
    · rw [hdone]
      exact ⟨by simp, by simp, by simp⟩

set_option maxRecDepth 20000 in
/-- A crash of the very first save after the marker was renamed. -/
theorem crash_after_marker_corrupts :
    ¬ ∀ (key : Str) (attempts : List (Attempt Empty)),
      (∀ attempt ∈ attempts, attempt.call.Ascii key) →
      fileMachine.Along (fun disk attempt => ∀ changes, attempt.call.changes disk = .ok changes →
        Recovers key attempt.call disk (disk.exec changes) (disk.exec (attempt.done changes)))
        {} attempts := by
  intro h
  have hrecovers := (h "cli:a".toList [⟨.save firstSession false, some 3⟩]
    (List.forall_mem_singleton.mpr ⟨rfl, ascii_firstSession⟩)).1
  obtain ⟨changes, hchanges⟩ : ∃ changes, FileCall.changes {} (.save firstSession false) =
      .ok changes :=
    save_returns_at at_fresh rfl rfl (fun _ => rfl) rfl
  obtain ⟨_, _, state, _, _, hfound, _⟩ := (hrecovers changes hchanges).1 sampleTime
  have hdone : changes.take 3 = [.makeDir, .writeKnownTmp knownBytes, .renameKnown] := by
    have hrewrites : firstSession.prepare.rewrites false = false := by decide
    rcases save_plan at_fresh hchanges with ⟨_, _, rfl⟩ | ⟨hnot, _⟩
    · rfl
    · rw [hrewrites] at hnot
      cases hnot
  have herror : (Disk.exec {} [.makeDir, .writeKnownTmp knownBytes, .renameKnown]).found (F := Empty)
      "cli:a".toList sampleTime = .error .missingEpoch := rfl
  change (Disk.exec {} (changes.take 3)).found "cli:a".toList sampleTime = .ok state at hfound
  rw [hdone, herror] at hfound
  cases hfound

end Sessions
end CodeCub
