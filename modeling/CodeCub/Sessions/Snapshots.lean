import CodeCub.Sessions.Writes

/-!
# The state in a file

`==` on durable states is an equivalence on what JSON can represent, and equal states
hold the same strings.  `FileState` is the state that `_decode_payload` finds in the
records of a file: what a save adds to the records it adds to the state.
-/

namespace CodeCub
namespace Sessions

open Python

variable {F : Type} [FiniteFloat F]

/-! ## Equality of states -/

/-- `==` of two messages. -/
def ObjEqv (a b : Obj F) : Prop := (Json.obj a).eqv (.obj b) = true

theorem objsEqv_iff {a b : List (Obj F)} : objsEqv a b = true ↔ List.Forall₂ ObjEqv a b := by
  have harr : objsEqv a b = true ↔
      (Json.arr (a.map Json.obj)).eqv (.arr (b.map Json.obj)) = true := Iff.rfl
  rw [harr, eqv_arr_iff]
  constructor
  · rintro ⟨items, hitems, hall⟩
    cases hitems
    rw [List.forall₂_map_left_iff, List.forall₂_map_right_iff] at hall
    exact hall
  · intro h
    refine ⟨_, rfl, ?_⟩
    rw [List.forall₂_map_left_iff, List.forall₂_map_right_iff]
    exact h

theorem objsEqv_refl {a : List (Obj F)} (h : ∀ data ∈ a, Obj.Representable data) :
    objsEqv a a = true := by
  rw [objsEqv_iff]
  exact List.forall₂_same.mpr fun data hdata => eqv_refl _ (h data hdata)

theorem objsEqv_symm {a b : List (Obj F)} (ha : ∀ data ∈ a, Obj.Representable data)
    (hb : ∀ data ∈ b, Obj.Representable data) (h : objsEqv a b = true) : objsEqv b a = true := by
  rw [objsEqv_iff] at h ⊢
  induction h with
  | nil => exact .nil
  | cons hhead _ ih =>
      rw [List.forall_mem_cons] at ha hb
      exact .cons (eqv_symm _ _ ha.1 hb.1 hhead) (ih ha.2 hb.2)

theorem objsEqv_trans {a b c : List (Obj F)} (hab : objsEqv a b = true)
    (hbc : objsEqv b c = true) : objsEqv a c = true := by
  rw [objsEqv_iff] at hab hbc ⊢
  induction hab generalizing c with
  | nil => exact hbc
  | cons hhead _ ih =>
      cases hbc with
      | cons hhead' htail' => exact .cons (eqv_trans _ _ _ hhead hhead') (ih htail')

theorem objsEqv_append {a b a' b' : List (Obj F)} (ha : objsEqv a a' = true)
    (hb : objsEqv b b' = true) : objsEqv (a ++ b) (a' ++ b') = true := by
  rw [objsEqv_iff] at ha hb ⊢
  exact List.rel_append ha hb

theorem length_of_objsEqv {a b : List (Obj F)} (h : objsEqv a b = true) :
    a.length = b.length := (objsEqv_iff.mp h).length_eq

theorem metadataEqv_iff {a b : Snapshot F} :
    a.metadataEqv b = true ↔ ObjEqv a.metadata b.metadata ∧
      a.lastConsolidated = b.lastConsolidated ∧
      optionEqv a.pendingClarification b.pendingClarification = true := by
  simp only [Snapshot.metadataEqv, Bool.and_eq_true, beq_iff_eq, and_assoc]
  rfl

theorem eqv_iff {a b : Snapshot F} :
    a.eqv b = true ↔ objsEqv a.messages b.messages = true ∧ a.metadataEqv b = true := by
  rw [Snapshot.eqv, Bool.and_eq_true]

namespace Snapshot.Representable

omit [FiniteFloat F] in
theorem empty : ({} : Snapshot F).Representable where
  messages := by simp
  metadata := representable_obj.mpr ⟨List.nodup_nil, by simp⟩
  pending := by simp

theorem metadataEqv_refl {a : Snapshot F} (h : a.Representable) : a.metadataEqv a = true := by
  refine metadataEqv_iff.mpr ⟨eqv_refl _ h.metadata, rfl, ?_⟩
  cases hpending : a.pendingClarification with
  | none => rfl
  | some pending => exact eqv_refl _ (h.pending pending hpending)

theorem eqv_refl {a : Snapshot F} (h : a.Representable) : a.eqv a = true :=
  eqv_iff.mpr ⟨objsEqv_refl h.messages, h.metadataEqv_refl⟩

theorem eqv_symm {a b : Snapshot F} (ha : a.Representable) (hb : b.Representable)
    (h : a.eqv b = true) : b.eqv a = true := by
  obtain ⟨hmessages, hmetadata⟩ := eqv_iff.mp h
  obtain ⟨hobj, hlast, hpending⟩ := metadataEqv_iff.mp hmetadata
  refine eqv_iff.mpr ⟨objsEqv_symm ha.messages hb.messages hmessages, metadataEqv_iff.mpr
    ⟨Python.eqv_symm _ _ ha.metadata hb.metadata hobj, hlast.symm, ?_⟩⟩
  cases hpa : a.pendingClarification with
  | none =>
      cases hpb : b.pendingClarification with
      | none => rfl
      | some pending =>
          rw [hpa, hpb] at hpending
          cases hpending
  | some pending =>
      cases hpb : b.pendingClarification with
      | none =>
          rw [hpa, hpb] at hpending
          cases hpending
      | some pending' =>
          rw [hpa, hpb] at hpending
          exact Python.eqv_symm _ _ (ha.pending _ hpa) (hb.pending _ hpb) hpending

end Snapshot.Representable

theorem eqv_trans_snapshot {a b c : Snapshot F} (hab : a.eqv b = true) (hbc : b.eqv c = true) :
    a.eqv c = true := by
  obtain ⟨hmessages, hmetadata⟩ := eqv_iff.mp hab
  obtain ⟨hmessages', hmetadata'⟩ := eqv_iff.mp hbc
  obtain ⟨hobj, hlast, hpending⟩ := metadataEqv_iff.mp hmetadata
  obtain ⟨hobj', hlast', hpending'⟩ := metadataEqv_iff.mp hmetadata'
  refine eqv_iff.mpr ⟨objsEqv_trans hmessages hmessages', metadataEqv_iff.mpr
    ⟨eqv_trans _ _ _ hobj hobj', hlast.trans hlast', ?_⟩⟩
  cases hpa : a.pendingClarification with
  | none =>
      cases hpb : b.pendingClarification with
      | none =>
          rw [hpb] at hpending'
          exact hpending'
      | some pending =>
          rw [hpa, hpb] at hpending
          cases hpending
  | some pending =>
      cases hpb : b.pendingClarification with
      | none =>
          rw [hpa, hpb] at hpending
          cases hpending
      | some pending' =>
          cases hpc : c.pendingClarification with
          | none =>
              rw [hpb, hpc] at hpending'
              cases hpending'
          | some pending'' =>
              rw [hpa, hpb] at hpending
              rw [hpb, hpc] at hpending'
              exact eqv_trans (.obj pending) (.obj pending') (.obj pending'') hpending hpending'

/-- Equal messages hold the same strings. -/
theorem separated_of_objsEqv {a b : List (Obj F)} (h : objsEqv a b = true)
    (hb : ∀ data ∈ b, Obj.Separated data) : ∀ data ∈ a, Obj.Separated data := by
  rw [objsEqv_iff] at h
  induction h with
  | nil => simp
  | cons hhead _ ih =>
      rw [List.forall_mem_cons] at hb ⊢
      exact ⟨fun s hs => hb.1 s (texts_subset _ _ hhead s hs), ih hb.2⟩

/-! ## The state of the records -/

/-- The records of a file, read for a key, give this state. -/
def FileState (key : Str) (records : List (Obj F)) (state : Snapshot F) : Prop :=
  ∃ payload, collect key records {} = .ok payload ∧ payload.toSnapshot = state ∧
    payload.hasMetadataKey = true ∧ payload.partialTailFound = false

omit [FiniteFloat F] in
theorem isMetadata_metadataRecord (session : Session F) :
    isMetadata session.metadataRecord = true := rfl

omit [FiniteFloat F] in
/-- A metadata record and messages after it, read on from a payload. -/
theorem collect_block {key : Str} {session : Session F} (hkey : session.key = key)
    {messages : List (Obj F)} (h : ∀ message ∈ messages, isMetadata message = false)
    (payload : Payload F) :
    collect key (session.metadataRecord :: messages) payload =
      .ok { payload with
        messages := payload.messages ++ messages
        metadata := session.metadata
        createdAt := some session.createdAt
        updatedAt := some session.updatedAt
        lastConsolidated := session.lastConsolidated
        pendingClarification := session.pendingClarification
        hasMetadataKey := true } := by
  rw [collect, isMetadata_metadataRecord, if_pos rfl, readMetadataRecord_metadataRecord,
    if_pos hkey]
  exact collect_messages h _

omit [FiniteFloat F] in
theorem fileState_block {key : Str} {session : Session F} (hkey : session.key = key)
    {messages : List (Obj F)} (h : ∀ message ∈ messages, isMetadata message = false) :
    FileState key (session.metadataRecord :: messages)
      { session.toSnapshot with messages := messages } :=
  ⟨_, collect_block hkey h {}, rfl, rfl, rfl⟩

omit [FiniteFloat F] in
theorem fileState_append {key : Str} {records : List (Obj F)} {state : Snapshot F}
    (hstate : FileState key records state) {session : Session F} (hkey : session.key = key)
    {messages : List (Obj F)} (h : ∀ message ∈ messages, isMetadata message = false) :
    FileState key (records ++ session.metadataRecord :: messages)
      { session.toSnapshot with messages := state.messages ++ messages } := by
  obtain ⟨payload, hcollect, rfl, _, htail⟩ := hstate
  have hcollect' := collect_append key records (session.metadataRecord :: messages) {}
  rw [hcollect, Except.bind, collect_block hkey h payload] at hcollect'
  exact ⟨_, hcollect', rfl, rfl, htail⟩

omit [FiniteFloat F] in
theorem fileState_unique {key : Str} {records : List (Obj F)} {a b : Snapshot F}
    (ha : FileState key records a) (hb : FileState key records b) : a = b := by
  obtain ⟨payload, hcollect, rfl, _⟩ := ha
  obtain ⟨payload', hcollect', rfl, _⟩ := hb
  rw [hcollect] at hcollect'
  cases hcollect'
  rfl

omit [FiniteFloat F] in
/-- What a metadata record changes. -/
theorem readMetadataRecord_ok {key : Str} {data : Obj F} {payload result : Payload F}
    (h : readMetadataRecord key data payload = .ok result) :
    validateMetadataIdentity key data = .ok () ∧ readMetadata data = .ok result.metadata ∧
      readPendingClarification data = .ok result.pendingClarification ∧
      result.messages = payload.messages ∧ result.hasMetadataKey = true ∧
      result.partialTailFound = payload.partialTailFound := by
  rw [readMetadataRecord] at h
  cases hidentity : validateMetadataIdentity key data with
  | error error => rw [hidentity] at h; cases h
  | ok _ =>
      cases hmetadata : readMetadata data with
      | error error => rw [hidentity, hmetadata] at h; cases h
      | ok metadata =>
          cases hpending : readPendingClarification data with
          | error error =>
              rw [hidentity, hmetadata, hpending] at h
              simp only [bind, Except.bind] at h
              repeat' split at h
              all_goals cases h
          | ok pending =>
              rw [hidentity, hmetadata, hpending] at h
              simp only [bind, Except.bind] at h
              repeat' split at h
              all_goals first
                | cases h; exact ⟨rfl, rfl, rfl, rfl, rfl, rfl⟩
                | cases h

omit [FiniteFloat F] in
theorem collect_subset {key : Str} {records : List (Obj F)} {payload result : Payload F}
    (h : collect key records payload = .ok result) :
    ∀ message ∈ result.messages, message ∈ payload.messages ∨
      message ∈ records ∧ isMetadata message = false := by
  induction records generalizing payload with
  | nil =>
      cases h
      exact fun message hmessage => Or.inl hmessage
  | cons data records ih =>
      intro message hmessage
      rw [collect] at h
      split at h
      · next hmeta =>
          cases hread : readMetadataRecord key data payload with
          | error error =>
              rw [hread] at h
              cases h
          | ok payload' =>
              rw [hread] at h
              have hsame := (readMetadataRecord_ok hread).2.2.2.1
              rcases ih h message hmessage with hold | ⟨hnew, hplain⟩
              · exact Or.inl (hsame ▸ hold)
              · exact Or.inr ⟨List.mem_cons_of_mem _ hnew, hplain⟩
      · next hplain =>
          rcases ih h message hmessage with hold | ⟨hnew, hplain'⟩
          · rcases List.mem_append.mp hold with hold | hthis
            · exact Or.inl hold
            · rw [List.mem_singleton.mp hthis]
              exact Or.inr ⟨List.mem_cons_self, by simpa using hplain⟩
          · exact Or.inr ⟨List.mem_cons_of_mem _ hnew, hplain'⟩

omit [FiniteFloat F] in
theorem FileState.subset {key : Str} {records : List (Obj F)} {state : Snapshot F}
    (h : FileState key records state) : state.messages ⊆ records := by
  obtain ⟨payload, hcollect, rfl, _⟩ := h
  intro message hmessage
  exact ((collect_subset hcollect message hmessage).resolve_left List.not_mem_nil).1

omit [FiniteFloat F] in
theorem FileState.plain {key : Str} {records : List (Obj F)} {state : Snapshot F}
    (h : FileState key records state) : ∀ message ∈ state.messages, isMetadata message = false := by
  obtain ⟨payload, hcollect, rfl, _⟩ := h
  intro message hmessage
  exact ((collect_subset hcollect message hmessage).resolve_left List.not_mem_nil).2

/-- A property of the saved parts of a state. -/
structure Snapshot.All (P : Json Str F → Prop) (state : Snapshot F) : Prop where
  messages : ∀ message ∈ state.messages, P (.obj message)
  metadata : P (.obj state.metadata)
  pending : ∀ pending ∈ state.pendingClarification, P (.obj pending)

/-- A property that passes from an object to its values. -/
structure Hereditary (P : Json Str F → Prop) : Prop where
  empty : P (.obj [])
  value : ∀ {data : Obj F} {name : Str} {v : Json Str F}, P (.obj data) → data.lookup name = some v →
    P v

section Hereditary

variable {P : Json Str F → Prop}

omit [FiniteFloat F] in
theorem Hereditary.readMetadata (hP : Hereditary P) {data metadata : Obj F} (h : P (.obj data))
    (hread : readMetadata data = .ok metadata) : P (.obj metadata) := by
  rw [Sessions.readMetadata] at hread
  split at hread
  · cases hread
    exact hP.empty
  · next hlookup =>
      cases hread
      exact hP.value h hlookup
  · cases hread

omit [FiniteFloat F] in
theorem Hereditary.readPending (hP : Hereditary P) {data : Obj F} {pending : Option (Obj F)}
    (h : P (.obj data)) (hread : readPendingClarification data = .ok pending) :
    ∀ value ∈ pending, P (.obj value) := by
  rw [readPendingClarification] at hread
  split at hread
  · cases hread
    simp
  · cases hread
    simp
  · next hlookup =>
      cases hread
      rintro _ ⟨⟩
      exact hP.value h hlookup
  · cases hread

omit [FiniteFloat F] in
theorem collect_all (hP : Hereditary P) {key : Str} {records : List (Obj F)}
    {payload result : Payload F} (hrecords : ∀ data ∈ records, P (.obj data))
    (hpayload : payload.toSnapshot.All P) (h : collect key records payload = .ok result) :
    result.toSnapshot.All P := by
  induction records generalizing payload with
  | nil =>
      cases h
      exact hpayload
  | cons data records ih =>
      rw [List.forall_mem_cons] at hrecords
      rw [collect] at h
      split at h
      · cases hread : readMetadataRecord key data payload with
        | error error =>
            rw [hread] at h
            cases h
        | ok payload' =>
            rw [hread] at h
            obtain ⟨_, hmetadata, hpending, hmessages, _⟩ := readMetadataRecord_ok hread
            refine ih hrecords.2 ⟨?_, ?_, ?_⟩ h
            · rw [hmessages]
              exact hpayload.messages
            · exact hP.readMetadata hrecords.1 hmetadata
            · exact hP.readPending hrecords.1 hpending
      · refine ih hrecords.2 ?_ h
        refine ⟨?_, hpayload.metadata, hpayload.pending⟩
        intro message hmessage
        rcases List.mem_append.mp hmessage with hold | hthis
        · exact hpayload.messages message hold
        · rw [List.mem_singleton.mp hthis]
          exact hrecords.1

omit [FiniteFloat F] in
/-- What holds of all records of a file holds of its state. -/
theorem FileState.all (hP : Hereditary P) {key : Str} {records : List (Obj F)}
    {state : Snapshot F} (h : FileState key records state)
    (hrecords : ∀ data ∈ records, P (.obj data)) : state.All P := by
  obtain ⟨payload, hcollect, rfl, _⟩ := h
  exact collect_all hP hrecords ⟨by simp, hP.empty, by simp⟩ hcollect

end Hereditary

omit [FiniteFloat F] in
theorem hereditary_representable : Hereditary (F := F) Json.Representable where
  empty := representable_obj.mpr ⟨List.nodup_nil, by simp⟩
  value h hlookup := (representable_obj.mp h).2 _ (mem_of_lookup hlookup)

omit [FiniteFloat F] in
theorem hereditary_separated : Hereditary (F := F) Json.Separated where
  empty := by simp [Json.Separated, Json.texts, Json.textsFields]
  value h hlookup := fun s hs =>
    h s (mem_texts_obj.mpr ⟨_, mem_of_lookup hlookup, Or.inr hs⟩)

omit [FiniteFloat F] in
theorem FileState.representable {key : Str} {records : List (Obj F)} {state : Snapshot F}
    (h : FileState key records state) (hrep : ∀ data ∈ records, Obj.Representable data) :
    state.Representable := by
  obtain ⟨hmessages, hmetadata, hpending⟩ := h.all hereditary_representable hrep
  exact ⟨hmessages, hmetadata, hpending⟩

/-- The state is what a load decodes, while no record holds a separator. -/
theorem decode_of_fileState {key : Str} {records : List (Obj F)} {state : Snapshot F}
    (hstate : FileState key records state) (hrep : ∀ data ∈ records, Obj.Representable data)
    (hsep : ∀ data ∈ records, Obj.Separated data) (path : SessionPath) :
    ∃ payload : Payload F, decodePayload path key (fileText records) = .ok payload ∧
      payload.toSnapshot = state ∧ payload.partialTailFound = false := by
  obtain ⟨payload, hcollect, hsnapshot, hkey, htail⟩ := hstate
  refine ⟨payload, ?_, hsnapshot, htail⟩
  rw [decodePayload_fileText path key hrep hsep, hcollect]
  simp only [Except.bind, finishPayload, validateFallbackIdentity, hkey, true_or, if_true]
  rfl

/-- A file that was decoded holds no separator. -/
theorem separated_of_decode {key : Str} {records : List (Obj F)} {path : SessionPath}
    (hrep : ∀ data ∈ records, Obj.Representable data) {payload : Payload F}
    (hdecode : decodePayload path key (fileText records) = .ok payload) :
    ∀ data ∈ records, Obj.Separated data := by
  intro data hdata
  by_contra hsep
  obtain ⟨error, herror⟩ := decodePayload_torn path key hrep hdata hsep
  rw [hdecode] at herror
  cases herror

theorem decode_iff_separated {key : Str} {records : List (Obj F)} {state : Snapshot F}
    (hstate : FileState key records state) (hrep : ∀ data ∈ records, Obj.Representable data)
    (path : SessionPath) :
    (∃ payload : Payload F, decodePayload path key (fileText records) = .ok payload) ↔
      ∀ data ∈ records, Obj.Separated data := by
  constructor
  · rintro ⟨payload, hdecode⟩
    exact separated_of_decode hrep hdecode
  · intro hsep
    obtain ⟨payload, hdecode, _⟩ := decode_of_fileState hstate hrep hsep path
    exact ⟨payload, hdecode⟩

end Sessions
end CodeCub
