import CodeCub.Sessions.Ledger

/-!
# Concurrent writers lose nothing

A save, a history rewrite and a delete keep the ledger: an append adds to it what its
object had not saved, a rewrite and a delete fence all other objects.  So what a writer
saved stays in the file until a rewrite or a delete that returned.
-/

namespace CodeCub
namespace Sessions

open Python

variable {F : Type} [FiniteFloat F]

namespace Watch.Inv

variable {watch : Watch F} {key : Str} {epoch : Nat} {file : Option (List (Obj F))}

/-! ## Steps that change the file -/

/-- The object `i` is replaced by one that agrees with its note. -/
theorem replaced (h : watch.Inv key epoch file) {i : Nat} {session old : Session F}
    (hold : watch.room.sessions[i]? = some old)
    (hnoted : ∀ note, watch.notes[i]? = some note →
      session.Noted key note epoch file i watch.ledger) {room : Room F}
    (hdisk : room.disk = watch.room.disk) (hsessions : room.sessions = watch.room.sessions.set i session) :
    (watch.follow room .quiet).Inv key epoch file := by
  refine h.quiet hdisk (by rw [hsessions, List.length_set]) ?_
  intro j object note hobject hnote
  rw [hsessions, List.getElem?_set] at hobject
  split at hobject
  · next hsame =>
      subst hsame
      rw [if_pos (List.getElem?_eq_some_iff.mp hold).1] at hobject
      cases hobject
      exact hnoted note hnote
  · exact h.noted j object note hobject hnote

/-- The messages that an object has beyond its note. -/
theorem fresh_messages {session : Session F} {note : Note F} {i : Nat}
    {ledger : List (Nat × Obj F)} (hnoted : session.Noted key note epoch file i ledger)
    {forceRewrite : Bool} (happend : session.rewrites forceRewrite = false) :
    objsEqv (note.messages ++ session.messages.drop note.messages.length) session.messages =
      true := by
  cases hlast : note.last with
  | none =>
      have hnone : note.messages = [] := by
        rw [Note.messages, hlast]
        rfl
      rw [hnone, List.length_nil, List.drop_zero, List.nil_append]
      exact objsEqv_refl hnoted.clean.storable.messages
  | some expected =>
      have hmessages : note.messages = expected.messages := by
        rw [Note.messages, hlast]
        rfl
      have hpersisted : session.persisted = true := by
        rw [hnoted.persisted, hlast]
        rfl
      rw [Session.rewrites, hpersisted, Bool.or_eq_false_iff, Bool.true_and,
        Bool.not_eq_false'] at happend
      rw [hmessages]
      exact objsEqv_of_appendOnly hnoted.clean.storable.toRepresentable
        (hnoted.representable expected hlast) (hnoted.snapshot.trans hlast) happend.2

omit [FiniteFloat F] in
theorem entries_own (i : Nat) (messages : List (Obj F)) :
    entries i (messages.map fun message => (i, message)) = messages := by
  simp [entries, List.filter_map, Function.comp_def]

omit [FiniteFloat F] in
theorem entries_other {i j : Nat} (hne : j ≠ i) (messages : List (Obj F)) :
    entries j (messages.map fun message => (i, message)) = [] := by
  simp [entries, List.filter_map, Function.comp_def, Ne.symm hne]

omit [FiniteFloat F] in
/-- What was seen stays, and the new entries come behind the others. -/
theorem ledger_grows {ledger : List (Nat × Obj F)} {seen : Nat} (hseen : seen ≤ ledger.length)
    (i : Nat) (new : List (Nat × Obj F)) :
    ((ledger ++ new).take seen).map Prod.snd ++ entries i ((ledger ++ new).drop seen) =
      ((ledger.take seen).map Prod.snd ++ entries i (ledger.drop seen)) ++ entries i new := by
  rw [List.take_append_of_le_length hseen, List.drop_append_of_le_length hseen, entries, entries,
    entries, List.filter_append, List.map_append, List.append_assoc]

/-- The other objects, when the object `i` appends. -/
theorem noted_grows {session : Session F} {note : Note F} {i j : Nat}
    {ledger : List (Nat × Obj F)} (h : session.Noted key note epoch file j ledger) (hne : j ≠ i)
    (messages : List (Obj F)) (records : List (Obj F)) :
    session.Noted key note epoch (some records) j
      (ledger ++ messages.map fun message => (i, message)) :=
  { h with
    present := fun _ _ => rfl
    seen := fun hfenced => by
      have hseen := h.seen hfenced
      rw [List.length_append]
      omega
    accounted := fun hfenced => by
      rw [ledger_grows (h.seen hfenced), entries_other hne, List.append_nil]
      exact h.accounted hfenced }

omit [FiniteFloat F] in
theorem separated_appendRecords_of_clean {session : Session F} (h : session.Clean) :
    ∀ data ∈ session.appendRecords, Obj.Separated data :=
  List.forall_mem_cons.mpr ⟨separated_metadataRecord.mpr
    ⟨h.separated.key, h.separated.metadata, h.separated.pending⟩,
    fun message hmessage => h.separated.messages message (List.mem_of_mem_drop hmessage)⟩

/-- The object that appended. -/
theorem noted_appended {session : Session F} {note : Note F} {i : Nat}
    {ledger : List (Nat × Obj F)} (h : session.Noted key note epoch file i ledger)
    (hcurrent : note.fenced = false) {forceRewrite : Bool}
    (happend : session.rewrites forceRewrite = false) (records : List (Obj F)) :
    (session.markPersisted epoch).Noted key { note with last := some session.toSnapshot } epoch
      (some records) i (ledger ++
        (session.messages.drop note.messages.length).map fun message => (i, message)) := by
  have hrep := h.clean.storable.messages
  have hdropped : ∀ message ∈ session.messages.drop note.messages.length,
      Obj.Representable message := fun message hmessage =>
    hrep message (List.mem_of_mem_drop hmessage)
  have hknown : ∀ message ∈ note.messages, Obj.Representable message := by
    cases hlast : note.last with
    | none => simp [Note.messages, hlast]
    | some expected =>
        rw [Note.messages, hlast]
        exact (h.representable expected hlast).messages
  refine ⟨h.key, h.clean.markPersisted epoch, rfl, rfl, rfl, rfl, ?_, le_rfl, ?_, fun _ _ => rfl,
    ?_, ?_⟩
  · rintro _ ⟨⟩
    exact h.clean.storable.toRepresentable
  · simp [hcurrent, Session.markPersisted]
  · intro _
    have hseen := h.seen hcurrent
    rw [List.length_append]
    exact Nat.le_add_right_of_le hseen
  · intro _
    show objsEqv session.messages _ = true
    rw [ledger_grows (h.seen hcurrent), entries_own]
    have hback := objsEqv_symm (List.forall_mem_append.mpr ⟨hknown, hdropped⟩) hrep
      (fresh_messages h happend)
    exact objsEqv_trans hback (objsEqv_append (h.accounted hcurrent) (objsEqv_refl hdropped))

/-- An append of the object `i` that returned. -/
theorem appended (h : watch.Inv key epoch file) {i : Nat} {session : Session F} {note : Note F}
    (hsession : watch.room.sessions[i]? = some session) (hnote : watch.notes[i]? = some note)
    (hepoch : session.storageEpoch = epoch) {forceRewrite : Bool}
    (hrewrites : session.prepare.rewrites forceRewrite = false) {room : Room F}
    (hsessions : room.sessions = watch.room.sessions.set i (session.prepare.markPersisted epoch))
    (hholds : room.disk.Holds epoch (some (file.getD [] ++ session.prepare.appendRecords))) :
    (watch.follow room (.appended i)).Inv key epoch
      (some (file.getD [] ++ session.prepare.appendRecords)) := by
  have hnoted := h.noted i session note hsession hnote
  have hprepared := hnoted.prepare
  have hcurrent : note.fenced = false := by
    rw [← Bool.not_eq_true, hnoted.fenced]
    exact not_not.mpr hepoch
  have hlt := (List.getElem?_eq_some_iff.mp hsession).1
  have hafter : room.sessions[i]? = some (session.prepare.markPersisted epoch) := by
    rw [hsessions, List.getElem?_set_self hlt]
  have hdropped : ∀ message ∈ session.messages.drop note.messages.length,
      Obj.Representable message := fun message hmessage =>
    hnoted.clean.storable.messages message (List.mem_of_mem_drop hmessage)
  have hledger : (watch.follow room (.appended i)).ledger = watch.ledger ++
      (session.messages.drop note.messages.length).map fun message => (i, message) := by
    simp only [Watch.follow, Room.messagesOf, Room.snapshot?, hafter, hnote]
    rfl
  have hnotes : (watch.follow room (.appended i)).notes = watch.notes.modify i fun note =>
      { note with last := some session.prepare.toSnapshot } := by
    simp only [Watch.follow, Room.snapshot?, hafter]
    rfl
  have hplain : ∀ message ∈ session.prepare.messages.drop session.prepare.persistedCount,
      isMetadata message = false := fun message hmessage =>
    hnoted.clean.storable.plain message (List.mem_of_mem_drop hmessage)
  have hcount : session.messages.drop session.persistedCount =
      session.messages.drop note.messages.length := by rw [hnoted.count]
  refine ⟨hholds, ?_, by simp, ?_, ?_, ?_⟩
  · rintro _ ⟨⟩
    refine List.forall_mem_append.mpr ⟨?_, separated_appendRecords_of_clean hprepared.clean⟩
    cases file with
    | none => simp
    | some records => exact h.separated records rfl
  · rintro _ ⟨⟩
    rw [hledger, List.map_append, List.map_map]
    have hnew : (session.messages.drop note.messages.length).map
        (Prod.snd ∘ fun message => (i, message)) = session.messages.drop note.messages.length :=
      List.map_id' _
    rw [hnew]
    cases file with
    | none =>
        refine ⟨_, fileState_block hprepared.key hplain, ?_⟩
        rw [h.emptied rfl]
        exact hcount.symm ▸ objsEqv_refl hdropped
    | some records =>
        obtain ⟨state, hstate, heqv⟩ := h.state records rfl
        refine ⟨_, fileState_append hstate hprepared.key hplain, ?_⟩
        exact objsEqv_append heqv (hcount.symm ▸ objsEqv_refl hdropped)
  · rw [hnotes, List.length_modify, h.length]
    exact (hsessions ▸ List.length_set ..).symm
  · intro j object other hobject hother
    rw [hledger]
    rw [hnotes, List.getElem?_modify] at hother
    change room.sessions[j]? = some object at hobject
    rw [hsessions, List.getElem?_set] at hobject
    by_cases hsame : i = j
    · subst hsame
      rw [if_pos rfl, if_pos hlt] at hobject
      rw [hnote] at hother
      cases hobject
      simp only [Option.map_eq_map, Option.map_some, if_true, Option.some.injEq] at hother
      subst hother
      exact noted_appended hprepared hcurrent hrewrites _
    · rw [if_neg hsame] at hobject
      cases hold : watch.notes[j]? with
      | none =>
          rw [hold] at hother
          cases hother
      | some old =>
          rw [hold] at hother
          simp only [Option.map_eq_map, Option.map_some, if_neg hsame, Option.some.injEq] at hother
          subst hother
          exact noted_grows (h.noted j object old hobject hold) (Ne.symm hsame) _ _

/-- An object of an earlier epoch is fenced. -/
theorem noted_fence {session : Session F} {note : Note F} {i epoch' : Nat}
    {ledger ledger' : List (Nat × Obj F)} (h : session.Noted key note epoch file i ledger)
    (hlt : epoch < epoch') (file' : Option (List (Obj F))) :
    session.Noted key note.fence epoch' file' i ledger' := by
  have hle := h.epoch_le
  refine ⟨h.key, h.clean, h.whole, h.snapshot, h.persisted, h.count, h.representable, by omega, ?_,
    ?_, ?_, ?_⟩
  · simp only [Note.fence, true_iff]
    omega
  · intro hfenced
    cases hfenced
  · intro hfenced
    cases hfenced
  · intro hfenced
    cases hfenced

omit [FiniteFloat F] in
theorem separated_rewriteRecords_of_clean {session : Session F} (h : session.Clean) :
    ∀ data ∈ session.rewriteRecords, Obj.Separated data :=
  List.forall_mem_cons.mpr ⟨separated_metadataRecord.mpr
    ⟨h.separated.key, h.separated.metadata, h.separated.pending⟩, h.separated.messages⟩

/-- A new epoch: all objects but the one that made it are fenced. -/
theorem noted_set (h : watch.Inv key epoch file) {i epoch' : Nat} (hlt : epoch < epoch')
    {file' : Option (List (Obj F))} {ledger' : List (Nat × Obj F)} {session' : Session F}
    {note' : Note F} (hnoted : session'.Noted key note' epoch' file' i ledger') (j : Nat)
    (object : Session F) (note : Note F)
    (hobject : (watch.room.sessions.set i session')[j]? = some object)
    (hnote : ((watch.notes.map Note.fence).set i note')[j]? = some note) :
    object.Noted key note epoch' file' j ledger' := by
  rw [List.getElem?_set] at hobject hnote
  by_cases hsame : i = j
  · subst hsame
    rw [if_pos rfl] at hobject hnote
    split at hobject
    · split at hnote
      · cases hobject
        cases hnote
        exact hnoted
      · cases hnote
    · cases hobject
  · rw [if_neg hsame] at hobject hnote
    rw [List.getElem?_map] at hnote
    cases hold : watch.notes[j]? with
    | none =>
        rw [hold] at hnote
        cases hnote
    | some old =>
        rw [hold] at hnote
        cases hnote
        exact noted_fence (h.noted j object old hobject hold) hlt file'

/-- A rewrite of the object `i` that returned. -/
theorem rewritten (h : watch.Inv key epoch file) {i : Nat} {session : Session F} {note : Note F}
    (hsession : watch.room.sessions[i]? = some session) (hnote : watch.notes[i]? = some note)
    {room : Room F}
    (hsessions : room.sessions =
      watch.room.sessions.set i (session.prepare.markPersisted (epoch + 1)))
    (hholds : room.disk.Holds (epoch + 1) (some session.prepare.rewriteRecords)) :
    (watch.follow room (.rewritten i)).Inv key (epoch + 1)
      (some session.prepare.rewriteRecords) := by
  have hprepared := (h.noted i session note hsession hnote).prepare
  have hrep := hprepared.clean.storable.messages
  have hafter : room.sessions[i]? = some (session.prepare.markPersisted (epoch + 1)) := by
    rw [hsessions, List.getElem?_set_self (List.getElem?_eq_some_iff.mp hsession).1]
  have hfollow : watch.follow room (.rewritten i) =
      { room
        notes := (watch.notes.map Note.fence).set i
          { last := some session.prepare.toSnapshot, seen := 0, fenced := false }
        ledger := session.prepare.messages.map fun message => (i, message) } := by
    simp only [Watch.follow, Room.messagesOf, Room.snapshot?, hafter]
    rfl
  have hmap : (session.prepare.messages.map fun message => (i, message)).map Prod.snd =
      session.prepare.messages := by simp
  rw [hfollow]
  refine ⟨hholds, ?_, by simp, ?_, ?_, ?_⟩
  · rintro _ ⟨⟩
    exact separated_rewriteRecords_of_clean hprepared.clean
  · rintro _ ⟨⟩
    refine ⟨_, fileState_block hprepared.key hprepared.clean.storable.plain, ?_⟩
    rw [hmap]
    exact objsEqv_refl hrep
  · simp only [List.length_set, List.length_map, hsessions, h.length]
  · simp only [hsessions]
    refine h.noted_set (Nat.lt_succ_self epoch) ?_
    refine ⟨hprepared.key, hprepared.clean.markPersisted _, rfl, rfl, rfl, rfl, ?_, le_rfl, ?_,
      fun _ _ => rfl, fun _ => Nat.zero_le _, ?_⟩
    · rintro _ ⟨⟩
      exact hprepared.clean.storable.toRepresentable
    · simp [Session.markPersisted]
    · intro _
      rw [List.take_zero, List.drop_zero, entries_own]
      exact objsEqv_refl hrep

/-- The path of a session that was never saved gets a new epoch. -/
theorem renewed (h : watch.Inv key epoch file) {i : Nat} {session : Session F}
    {note : Note F} (hsession : watch.room.sessions[i]? = some session)
    (hnote : watch.notes[i]? = some note) (hunsaved : session.persisted = false)
    (hepoch : session.storageEpoch = epoch) {room : Room F}
    (hsessions : room.sessions =
      watch.room.sessions.set i { session with storageEpoch := session.storageEpoch + 1 })
    (hholds : room.disk.Holds (epoch + 1) (none : Option (List (Obj F)))) :
    (watch.follow room (.renewed i)).Inv key (epoch + 1) none := by
  have hnoted := h.noted i session note hsession hnote
  have hlast : note.last = none := by
    rw [hnoted.persisted] at hunsaved
    simpa using hunsaved
  rw [Watch.follow]
  refine ⟨hholds, by simp, fun _ => rfl, by simp, ?_, ?_⟩
  · simp only [List.length_set, List.length_map, hsessions, h.length]
  · simp only [hsessions]
    refine h.noted_set (Nat.lt_succ_self epoch) ?_
    refine ⟨hnoted.key, ⟨hnoted.clean.storable, ⟨hnoted.clean.separated.key,
      hnoted.clean.separated.metadata, hnoted.clean.separated.pending,
      hnoted.clean.separated.messages⟩⟩, hnoted.whole, hnoted.snapshot.trans hlast, hunsaved, ?_,
      by simp, by simp [hepoch], by simp [hepoch], by simp, fun _ => le_rfl, fun _ => rfl⟩
    rw [hnoted.count, Note.messages, hlast]
    rfl

theorem deleted (h : watch.Inv key epoch file) {room : Room F}
    (hsessions : room.sessions = watch.room.sessions)
    (hholds : room.disk.Holds (epoch + 1) (none : Option (List (Obj F)))) :
    (watch.follow room .deleted).Inv key (epoch + 1) none := by
  rw [Watch.follow]
  refine ⟨hholds, by simp, fun _ => rfl, by simp, ?_, ?_⟩
  · simp only [List.length_map, hsessions, h.length]
  · intro j object note hobject hnote
    simp only [hsessions] at hobject
    simp only [List.getElem?_map, Option.map_eq_some_iff] at hnote
    obtain ⟨old, hold, rfl⟩ := hnote
    exact noted_fence (h.noted j object old hobject hold) (Nat.lt_succ_self epoch) none

end Watch.Inv

/-! ## What a save finds -/

theorem Session.save_error {session : Session F} {disk : Disk} {forceRewrite : Bool}
    {error : StorageError} (h : (session.save disk forceRewrite).2 = .error error) :
    (session.save disk forceRewrite).1 = session.prepare := by
  rw [Session.save] at h ⊢
  split at h
  · rfl
  · cases h

namespace Watch.Inv

variable {watch : Watch F} {key : Str} {epoch : Nat} {file : Option (List (Obj F))}

/-- A rewrite whose base was checked found the state of the note. -/
theorem fileIs (h : watch.Inv key epoch file) {i : Nat} {session : Session F} {note : Note F}
    (hsession : watch.room.sessions[i]? = some session) (hnote : watch.notes[i]? = some note)
    (hexists : session.persisted = file.isSome)
    (hbase : session.prepare.rewriteBase file = .ok ()) : watch.room.FileIs key note.last := by
  have hnoted := h.noted i session note hsession hnote
  cases hlast : note.last with
  | none =>
      rw [hnoted.persisted, hlast] at hexists
      have hfile : file = none := by simpa using hexists.symm
      show watch.room.disk.primary = none
      rw [h.holds.primary, hfile]
      rfl
  | some expected =>
      rw [hnoted.persisted, hlast] at hexists
      obtain ⟨records, rfl⟩ := Option.isSome_iff_exists.mp hexists.symm
      have hsnapshot : session.prepare.persistedSnapshot = some expected :=
        hnoted.snapshot.trans hlast
      have hprepared : session.prepare.key = key := hnoted.key
      rw [Session.rewriteBase, validateRecords, Session.rewriteCheck, hsnapshot, hprepared] at hbase
      obtain ⟨payload, hdecode, heqv⟩ := validateRewriteBase_ok.mp hbase
      intro now
      refine ⟨loadedSession key epoch now payload, epoch, ?_, heqv⟩
      rw [loadState_some h.holds, hdecode]
      rfl

/-- A save of a fenced object raises. -/
theorem save_fenced (h : watch.Inv key epoch file) {i : Nat} {session : Session F} {note : Note F}
    (hsession : watch.room.sessions[i]? = some session) (hnote : watch.notes[i]? = some note)
    (hfenced : note.fenced = true) (forceRewrite : Bool) :
    ∃ error, (session.save watch.room.disk forceRewrite).2 = .error error := by
  have hnoted := h.noted i session note hsession hnote
  cases hsave : (session.save watch.room.disk forceRewrite).2 with
  | error error => exact ⟨error, rfl⟩
  | ok changes =>
      have hepoch := (save_ok h.holds hnoted.clean.storable.toRepresentable hsave).1
      exact absurd hepoch (hnoted.fenced.mp hfenced)

theorem commit_fenced (h : watch.Inv key epoch file) {i : Nat} {session : Session F}
    {note : Note F} (hsession : watch.room.sessions[i]? = some session)
    (hnote : watch.notes[i]? = some note) (hfenced : note.fenced = true) :
    ∃ error, (session.commitHistoryRewrite watch.room.disk).2 = .error error := by
  have hnoted := h.noted i session note hsession hnote
  have hepoch := hnoted.fenced.mp hfenced
  rw [Session.commitHistoryRewrite]
  split
  · exact h.save_fenced hsession hnote hfenced true
  · rw [lockedDelete_eq h.holds.generation]
    by_cases hexists : (some false).any (· ≠ watch.room.disk.primary.isSome) = true
    · rw [if_pos hexists]
      exact ⟨_, rfl⟩
    · have hany : (some session.storageEpoch).any (· ≠ epoch) = true := by simpa using hepoch
      rw [if_neg hexists, if_pos hany]
      exact ⟨_, rfl⟩

/-! ## One step -/

/-- A write that raised. -/
theorem finish_error (h : watch.Inv key epoch file) {manager i : Nat} {session written : Session F}
    (hsession : watch.room.sessions[i]? = some session)
    (hwritten : ∀ note, watch.notes[i]? = some note →
      written.Noted key note epoch file i watch.ledger) (error : StorageError) :
    (watch.follow (watch.room.finish manager i (written, .error error)).1 .quiet).Inv key epoch
      file :=
  h.replaced hsession hwritten rfl rfl

/-- A save, by its answer. -/
theorem save (h : watch.Inv key epoch file) (manager i : Nat) (forceRewrite : Bool) :
    ∃ epoch' file', (watch.follow (watch.room.save manager i forceRewrite).1
      (if (watch.room.save manager i forceRewrite).2 = .done then
        savedEvent watch.room i forceRewrite else .quiet)).Inv key epoch' file' := by
  rw [Room.save, savedEvent]
  cases hsession : watch.room.sessions[i]? with
  | none =>
      simp only [if_true]
      exact ⟨epoch, file, h.quiet rfl rfl h.noted⟩
  | some session =>
      obtain ⟨note, hnote⟩ := h.note_of_session hsession
      have hnoted := h.noted i session note hsession hnote
      cases hsave : (session.save watch.room.disk forceRewrite).2 with
      | error error =>
          have hraised : (watch.room.finish manager i
              (session.save watch.room.disk forceRewrite)).2 = .raised error := by
            rw [Room.finish, hsave]
          simp only [hraised]
          refine ⟨epoch, file, ?_⟩
          have hpair : session.save watch.room.disk forceRewrite = (session.prepare, .error error) :=
            Prod.ext (Session.save_error hsave) hsave
          rw [if_neg (by simp), hpair]
          refine h.finish_error hsession ?_ error
          intro note' hnote'
          exact (h.noted i session note' hsession hnote').prepare
      | ok changes =>
          have hdone : (watch.room.finish manager i
              (session.save watch.room.disk forceRewrite)).2 = .done := by
            rw [Room.finish, hsave]
          have hsessions : (watch.room.finish manager i
              (session.save watch.room.disk forceRewrite)).1.sessions =
              watch.room.sessions.set i (session.save watch.room.disk forceRewrite).1 := by
            rw [Room.finish, hsave]
          have hdisk : (watch.room.finish manager i
              (session.save watch.room.disk forceRewrite)).1.disk =
              watch.room.disk.exec changes := by
            rw [Room.finish, hsave]
          simp only [hdone, if_true]
          obtain ⟨hepoch, ⟨hrewrites, _, _, hafter, hholds⟩ | ⟨hrewrites, _, _, hafter, hholds⟩⟩ :=
            save_ok h.holds hnoted.clean.storable.toRepresentable hsave
          · rw [hrewrites, if_neg (by decide)]
            rw [hafter] at hsessions
            exact ⟨epoch, _, h.appended hsession hnote hepoch hrewrites hsessions (hdisk ▸ hholds)⟩
          · rw [hrewrites, if_pos rfl]
            rw [hafter] at hsessions
            exact ⟨epoch + 1, _, h.rewritten hsession hnote hsessions (hdisk ▸ hholds)⟩

theorem commit (h : watch.Inv key epoch file) (manager i : Nat) :
    ∃ epoch' file', (watch.follow (watch.room.commitHistoryRewrite manager i).1
      (if (watch.room.commitHistoryRewrite manager i).2 = .done then
        committedEvent watch.room i else .quiet)).Inv key epoch' file' := by
  rw [committedEvent]
  cases hsession : watch.room.sessions[i]? with
  | none =>
      simp only [Room.commitHistoryRewrite, hsession, if_true]
      exact ⟨epoch, file, h.quiet rfl rfl h.noted⟩
  | some session =>
      obtain ⟨note, hnote⟩ := h.note_of_session hsession
      have hnoted := h.noted i session note hsession hnote
      by_cases hsaves : (session.persisted || session.isDirty) = true
      · have hsame : watch.room.commitHistoryRewrite manager i = watch.room.save manager i true := by
          simp only [Room.commitHistoryRewrite, Room.save, hsession, Session.commitHistoryRewrite,
            if_pos hsaves]
        have hevent : savedEvent watch.room i true = .rewritten i := by
          rw [savedEvent, hsession]
          simp [Session.rewrites]
        simp only [hsame, if_pos hsaves, ← hevent]
        exact h.save manager i true
      · simp only [Room.commitHistoryRewrite, hsession, Session.commitHistoryRewrite, if_neg hsaves]
        have hunsaved : session.persisted = false := by
          rw [Bool.not_eq_true, Bool.or_eq_false_iff] at hsaves
          exact hsaves.1
        cases hdelete : lockedDelete watch.room.disk (some session.storageEpoch) (some false) true
            true with
        | error error =>
            refine ⟨epoch, file, ?_⟩
            show (watch.follow (watch.room.finish manager i (session, .error error)).1 .quiet).Inv
              key epoch file
            refine h.finish_error hsession ?_ error
            intro note' hnote'
            exact h.noted i session note' hsession hnote'
        | ok result =>
            obtain ⟨changes, removed⟩ := result
            rw [lockedDelete_eq h.holds.generation] at hdelete
            split at hdelete
            · cases hdelete
            split at hdelete
            · cases hdelete
            next hexists hepochs =>
              have hepoch : session.storageEpoch = epoch := by simpa using hepochs
              have hmissing : watch.room.disk.primary.isSome = false := by simpa using hexists
              have hfile : file = none := by
                rw [h.holds.isSome_primary] at hmissing
                simpa using hmissing
              have hisNone : watch.room.disk.primary.isNone = true := by simpa using hmissing
              simp only [hisNone, Bool.not_true, Bool.and_false, Bool.false_eq_true, if_false,
                if_true] at hdelete
              cases hdelete
              subst hfile
              exact ⟨epoch + 1, none, h.renewed hsession hnote hunsaved hepoch rfl
                (holds_fence h.holds)⟩

theorem flush (h : watch.Inv key epoch file) (manager : Nat) :
    ∃ epoch' file', (watch.follow (watch.room.flush manager).1
      (event watch.room (.flush manager) (watch.room.flush manager))).Inv key epoch' file' := by
  simp only [event, Room.flush]
  cases watch.room.cache manager with
  | none => exact ⟨epoch, file, h.quiet rfl rfl h.noted⟩
  | some i =>
      by_cases hdirty : watch.room.sessions[i]?.any Session.isDirty = true
      · simp only [hdirty, if_true, true_and, RoomAnswer.result.injEq, decide_eq_true_eq]
        exact h.save manager i false
      · simp only [hdirty]
        exact ⟨epoch, file, h.quiet rfl rfl h.noted⟩

/-- What a delete can do: nothing, or a path at the next epoch without its file. -/
theorem delete_cases (h : watch.Inv key epoch file) (manager : Nat) (allowCachedMissing : Bool)
    (expectedEpoch : Option Nat) (expectedExists : Option Bool) :
    (watch.room.delete manager allowCachedMissing expectedEpoch expectedExists).1.sessions =
        watch.room.sessions ∧
      ((watch.room.delete manager allowCachedMissing expectedEpoch expectedExists).1.disk =
          watch.room.disk ∨
        (watch.room.delete manager allowCachedMissing expectedEpoch expectedExists).1.disk.Holds
          (epoch + 1) (none : Option (List (Obj F)))) := by
  rw [Room.delete, lockedDelete_eq h.holds.generation]
  split
  · exact ⟨rfl, Or.inl rfl⟩
  · next changes removed hdelete =>
      refine ⟨rfl, ?_⟩
      split at hdelete
      · cases hdelete
      split at hdelete
      · cases hdelete
      split at hdelete
      · cases hdelete
        exact Or.inl rfl
      split at hdelete
      · next hmissing =>
          cases hdelete
          rw [h.holds.isNone_primary] at hmissing
          have hfile : file = none := by simpa using hmissing
          exact Or.inr (holds_fence (hfile ▸ h.holds))
      · cases hdelete
        obtain ⟨hprimary, hat⟩ := exec_unlink watch.room.disk epoch
        exact Or.inr ⟨hat, hprimary, by simp, by simp⟩

theorem delete (h : watch.Inv key epoch file) (manager : Nat) (allowCachedMissing : Bool)
    (expectedEpoch : Option Nat) (expectedExists : Option Bool) :
    ∃ epoch' file', (watch.follow
      (watch.room.delete manager allowCachedMissing expectedEpoch expectedExists).1
      (event watch.room (.delete manager allowCachedMissing expectedEpoch expectedExists)
        (watch.room.delete manager allowCachedMissing expectedEpoch expectedExists))).Inv key
          epoch' file' := by
  obtain ⟨hsessions, hdisk⟩ :=
    h.delete_cases manager allowCachedMissing expectedEpoch expectedExists
  rw [event]
  split
  · next hsame =>
      exact ⟨epoch, file, h.quiet hsame (hsessions ▸ rfl) (hsessions ▸ h.noted)⟩
  · next hchanged =>
      exact ⟨epoch + 1, none, h.deleted hsessions (hdisk.resolve_left hchanged)⟩

theorem next (h : watch.Inv key epoch file) (hkey : ∀ c ∈ key, isSeparator c = false)
    {step : RoomStep F} (hstep : step.Clean) :
    ∃ epoch' file', ((watchMachine key).next watch step).Inv key epoch' file' := by
  cases step with
  | getOrCreate manager now => exact ⟨epoch, file, h.getOrCreate hkey manager now⟩
  | peek manager now => exact ⟨epoch, file, h.peek hkey manager now⟩
  | record i message now => exact ⟨epoch, file, h.modify i (Session.edits_record hstep now)⟩
  | clear i now => exact ⟨epoch, file, h.modify i (Session.edits_clear now)⟩
  | undoLastTurn i n now => exact ⟨epoch, file, h.modify i (Session.edits_undoLastTurn n now)⟩
  | update i metadata lastConsolidated pending =>
      exact ⟨epoch, file, h.modify i
        (Session.edits_update lastConsolidated hstep.1 hstep.2.1 hstep.2.2)⟩
  | save manager i forceRewrite => exact h.save manager i forceRewrite
  | commitHistoryRewrite manager i => exact h.commit manager i
  | flush manager => exact h.flush manager
  | invalidate manager => exact ⟨epoch, file, h.quiet rfl rfl h.noted⟩
  | delete manager allowCachedMissing expectedEpoch expectedExists =>
      exact h.delete manager allowCachedMissing expectedEpoch expectedExists

theorem initial (key : Str) : ({} : Watch F).Inv key 0 none where
  holds := Disk.Holds.fresh
  separated := by simp
  emptied _ := rfl
  state := by simp
  length := rfl
  noted := by
    intro i session note hsession
    cases hsession

/-! ## What holds in every run -/

theorem accounted (h : watch.Inv key epoch file) : watch.Accounted key := by
  refine ⟨?_, ?_⟩
  · intro now
    rw [Room.fileMessages]
    cases file with
    | none =>
        rw [loadState_none h.holds, h.emptied rfl]
        exact ⟨[], rfl, rfl⟩
    | some records =>
        obtain ⟨payload, state, hload, _, hsnapshot, _, hledger⟩ := h.load_some rfl now
        rw [hload]
        refine ⟨payload.messages, rfl, ?_⟩
        rw [show payload.messages = state.messages by rw [← hsnapshot]]
        exact hledger
  · intro i note hnote hcurrent
    have hlt := (List.getElem?_eq_some_iff.mp hnote).1
    rw [h.length] at hlt
    exact (h.noted i _ note (List.getElem?_eq_getElem hlt) hnote).accounted hcurrent

theorem save_exact (h : watch.Inv key epoch file) (manager : Nat) {i j : Nat}
    {forceRewrite : Bool} (hdone : (watch.room.save manager j forceRewrite).2 = .done)
    (hevent : savedEvent watch.room j forceRewrite = .rewritten i) :
    ∃ note, watch.notes[i]? = some note ∧ watch.room.FileIs key note.last := by
  rw [savedEvent] at hevent
  cases hsession : watch.room.sessions[j]? with
  | none =>
      rw [hsession] at hevent
      cases hevent
  | some session =>
      obtain ⟨note, hnote⟩ := h.note_of_session hsession
      have hnoted := h.noted j session note hsession hnote
      simp only [hsession] at hevent
      simp only [Room.save, hsession] at hdone
      split at hevent
      · next hrewrites =>
          cases hevent
          cases hsave : (session.save watch.room.disk forceRewrite).2 with
          | error error =>
              rw [Room.finish, hsave] at hdone
              cases hdone
          | ok changes =>
              obtain ⟨_, ⟨hnot, _⟩ | ⟨_, hexists, hbase, _⟩⟩ :=
                save_ok h.holds hnoted.clean.storable.toRepresentable hsave
              · rw [hrewrites] at hnot
                cases hnot
              · exact ⟨note, hnote, h.fileIs hsession hnote hexists hbase⟩
      · cases hevent

theorem commit_exact (h : watch.Inv key epoch file) {manager i j : Nat}
    (hdone : (watch.room.commitHistoryRewrite manager j).2 = .done)
    (hevent : committedEvent watch.room j = .rewritten i ∨
      committedEvent watch.room j = .renewed i) :
    ∃ note, watch.notes[i]? = some note ∧ watch.room.FileIs key note.last := by
  rw [committedEvent] at hevent
  cases hsession : watch.room.sessions[j]? with
  | none =>
      rw [hsession] at hevent
      rcases hevent with hevent | hevent <;> cases hevent
  | some session =>
      obtain ⟨note, hnote⟩ := h.note_of_session hsession
      have hnoted := h.noted j session note hsession hnote
      rw [hsession] at hevent
      simp only [Room.commitHistoryRewrite, hsession, Session.commitHistoryRewrite] at hdone
      by_cases hsaves : (session.persisted || session.isDirty) = true
      · simp only [if_pos hsaves] at hevent hdone
        rcases hevent with hevent | hevent
        · cases hevent
          have hsaved : (watch.room.save manager i true).2 = .done := by
            simpa only [Room.save, hsession] using hdone
          refine h.save_exact manager hsaved ?_
          rw [savedEvent, hsession]
          simp [Session.rewrites]
        · cases hevent
      · simp only [if_neg hsaves] at hevent hdone
        rcases hevent with hevent | hevent
        · cases hevent
        · cases hevent
          refine ⟨note, hnote, ?_⟩
          have hlast : note.last = none := by
            rw [Bool.not_eq_true, Bool.or_eq_false_iff, hnoted.persisted] at hsaves
            simpa using hsaves.1
          rw [hlast]
          show watch.room.disk.primary = none
          rw [lockedDelete_eq h.holds.generation] at hdone
          cases hprimary : watch.room.disk.primary with
          | none => rfl
          | some data =>
              rw [hprimary] at hdone
              cases hdone

omit [FiniteFloat F] in
theorem savedEvent_ne_renewed [FiniteFloat F] (room : Room F) (i j : Nat) (forceRewrite : Bool) :
    savedEvent room j forceRewrite ≠ .renewed i := by
  rw [savedEvent]
  split
  · simp
  · split <;> simp

theorem exact_step (h : watch.Inv key epoch file) (step : RoomStep F) : watch.Exact key step := by
  intro i hevent
  cases step with
  | save manager j forceRewrite =>
      simp only [event] at hevent
      split at hevent
      · next hdone =>
          exact h.save_exact manager hdone
            (hevent.resolve_right (savedEvent_ne_renewed watch.room i j forceRewrite))
      · rcases hevent with hevent | hevent <;> cases hevent
  | commitHistoryRewrite manager j =>
      simp only [event] at hevent
      split at hevent
      · next hdone => exact h.commit_exact hdone hevent
      · rcases hevent with hevent | hevent <;> cases hevent
  | flush manager =>
      simp only [event] at hevent
      split at hevent
      · rcases hevent with hevent | hevent <;> cases hevent
      · next j hcache =>
          split at hevent
          · next hsaved =>
              have hevent' := hevent.resolve_right (savedEvent_ne_renewed watch.room i j false)
              refine h.save_exact manager ?_ hevent'
              have hflush := hsaved.2
              simp only [roomMachine, Room.flush, hcache, hsaved.1, if_true] at hflush
              simpa using hflush
          · rcases hevent with hevent | hevent <;> cases hevent
  | getOrCreate manager now =>
      simp only [event] at hevent
      split at hevent <;> rcases hevent with hevent | hevent <;> cases hevent
  | peek manager now =>
      simp only [event] at hevent
      split at hevent <;> rcases hevent with hevent | hevent <;> cases hevent
  | delete manager allowCachedMissing expectedEpoch expectedExists =>
      simp only [event] at hevent
      split at hevent <;> rcases hevent with hevent | hevent <;> cases hevent
  | record i message now => rcases hevent with hevent | hevent <;> cases hevent
  | clear i now => rcases hevent with hevent | hevent <;> cases hevent
  | undoLastTurn i n now => rcases hevent with hevent | hevent <;> cases hevent
  | update i metadata last pending => rcases hevent with hevent | hevent <;> cases hevent
  | invalidate manager => rcases hevent with hevent | hevent <;> cases hevent

theorem session_of_note (h : watch.Inv key epoch file) {i : Nat} {note : Note F}
    (hnote : watch.notes[i]? = some note) :
    ∃ session, watch.room.sessions[i]? = some session := by
  have hlt := (List.getElem?_eq_some_iff.mp hnote).1
  rw [h.length] at hlt
  exact ⟨_, List.getElem?_eq_getElem hlt⟩

/-- A save of a fenced object, as the managers do it. -/
theorem room_save_fenced (h : watch.Inv key epoch file) {i : Nat} {note : Note F}
    (hnote : watch.notes[i]? = some note) (hfenced : note.fenced = true) (manager : Nat)
    (forceRewrite : Bool) :
    (watch.room.save manager i forceRewrite).1.disk = watch.room.disk ∧
      ∃ error, (watch.room.save manager i forceRewrite).2 = .raised error := by
  obtain ⟨session, hsession⟩ := h.session_of_note hnote
  obtain ⟨error, herror⟩ := h.save_fenced hsession hnote hfenced forceRewrite
  rw [Room.save, hsession]
  simp only [Room.finish, herror]
  exact ⟨trivial, error, rfl⟩

theorem room_commit_fenced (h : watch.Inv key epoch file) {i : Nat} {note : Note F}
    (hnote : watch.notes[i]? = some note) (hfenced : note.fenced = true) (manager : Nat) :
    (watch.room.commitHistoryRewrite manager i).1.disk = watch.room.disk ∧
      ∃ error, (watch.room.commitHistoryRewrite manager i).2 = .raised error := by
  obtain ⟨session, hsession⟩ := h.session_of_note hnote
  obtain ⟨error, herror⟩ := h.commit_fenced hsession hnote hfenced
  rw [Room.commitHistoryRewrite, hsession]
  simp only [Room.finish, herror]
  exact ⟨trivial, error, rfl⟩

omit [FiniteFloat F] in
theorem follow_room (room : Room F) (e : Event) : (watch.follow room e).room = room := by
  cases e <;> rfl

theorem fenced_step (h : watch.Inv key epoch file) (step : RoomStep F) :
    watch.Fenced key step := by
  intro i note hobject hnote hfenced
  have hroom : ((watchMachine key).next watch step).room =
      ((roomMachine key).step watch.room step).1 := follow_room _ _
  rw [hroom]
  cases step with
  | save manager j forceRewrite =>
      cases hobject
      obtain ⟨hdisk, herror⟩ := h.room_save_fenced hnote hfenced manager forceRewrite
      exact ⟨hdisk, Or.inl herror⟩
  | commitHistoryRewrite manager j =>
      cases hobject
      obtain ⟨hdisk, herror⟩ := h.room_commit_fenced hnote hfenced manager
      exact ⟨hdisk, Or.inl herror⟩
  | flush manager =>
      rw [savedObject, Option.filter_eq_some_iff] at hobject
      obtain ⟨hcache, hdirty⟩ := hobject
      obtain ⟨hdisk, error, herror⟩ := h.room_save_fenced hnote hfenced manager false
      have hflush : watch.room.flush manager =
          ((watch.room.save manager i false).1, .result false) := by
        rw [Room.flush, hcache]
        simp only [hdirty, if_true, herror]
        rfl
      refine ⟨?_, Or.inr ⟨⟨manager, rfl⟩, ?_⟩⟩
      · show (watch.room.flush manager).1.disk = watch.room.disk
        rw [hflush]
        exact hdisk
      · show (watch.room.flush manager).2 = .result false
        rw [hflush]
  | _ => cases hobject

end Watch.Inv

theorem inv_run {key : Str} (hkey : ∀ c ∈ key, isSeparator c = false)
    {steps : List (RoomStep F)} (hsteps : ∀ step ∈ steps, step.Clean) {watch : Watch F}
    (h : ∃ epoch file, watch.Inv key epoch file) :
    ∃ epoch file, ((watchMachine key).run watch steps).Inv key epoch file := by
  induction steps generalizing watch with
  | nil => exact h
  | cons step steps ih =>
      rw [List.forall_mem_cons] at hsteps
      obtain ⟨epoch, file, h⟩ := h
      exact ih hsteps.2 (h.next hkey hsteps.1)

/-- Concurrent writers lose and duplicate nothing. -/
theorem concurrent_writers_lose_nothing {key : Str} (hkey : ∀ c ∈ key, isSeparator c = false)
    {steps : List (RoomStep F)} (hsteps : ∀ step ∈ steps, step.Clean) :
    ((watchMachine key).run {} steps).Accounted key ∧
      ∀ step : RoomStep F, ((watchMachine key).run {} steps).Exact key step ∧
        ((watchMachine key).run {} steps).Fenced key step := by
  obtain ⟨epoch, file, h⟩ := inv_run hkey hsteps ⟨0, none, Watch.Inv.initial key⟩
  exact ⟨h.accounted, fun step => ⟨h.exact_step step, h.fenced_step step⟩⟩

def twoWriters : List (RoomStep Empty) :=
  [.getOrCreate 0 sampleTime, .getOrCreate 1 sampleTime,
    .record 0 [("role".toList, .str "user".toList)] sampleTime,
    .record 1 [("role".toList, .str "user".toList)] sampleTime,
    .save 0 0 false, .save 1 1 false, .record 0 [("role".toList, .str "tool".toList)] sampleTime,
    .commitHistoryRewrite 0 0, .save 1 1 true]

theorem clean_twoWriters : ∀ step ∈ twoWriters, step.Clean := by
  have hrole : ∀ role : Str, Obj.Representable (F := Empty) [("role".toList, .str role)] := fun role =>
    representable_obj.mpr ⟨List.nodup_singleton _, by simp [Json.Representable]⟩
  simp only [twoWriters, List.forall_mem_cons, List.not_mem_nil, RoomStep.Clean, false_implies,
    implies_true, and_true, true_and]
  refine ⟨⟨hrole _, by decide, rfl⟩, ⟨hrole _, by decide, rfl⟩, ⟨hrole _, by decide, rfl⟩⟩

theorem two_writers_lose_nothing :
    ((watchMachine "cli:a".toList).run {} twoWriters).Accounted "cli:a".toList ∧
      ∀ step : RoomStep Empty,
        ((watchMachine "cli:a".toList).run {} twoWriters).Exact "cli:a".toList step ∧
        ((watchMachine "cli:a".toList).run {} twoWriters).Fenced "cli:a".toList step :=
  concurrent_writers_lose_nothing (by decide) clean_twoWriters

end Sessions
end CodeCub
