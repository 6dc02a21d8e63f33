import CodeCub.Sessions.Manager

/-!
# What a session file holds

The text of a file is the lines of its records.  While no record holds a separator,
`_decode_payload` sees these records one by one; a record with a separator is torn apart
and the file cannot be decoded.
-/

namespace CodeCub
namespace Sessions

open Python

/-! ## The generation of a path -/

/-- The path is at epoch `epoch`: nothing was ever written, or marker and epoch are
there, and a missing file is a deleted one. -/
structure Disk.At (disk : Disk) (epoch : Nat) : Prop where
  fresh : disk.epoch = none → disk.known = none ∧ disk.primary = none ∧ epoch = 0
  known : ∀ data, disk.epoch = some data → disk.known.isSome = true ∧ data = epochBytes epoch ∧
    (disk.primary = none → 0 < epoch)

theorem toNat_byte {c : Char} (h : c.toNat < 0x80) : (UInt8.ofNat c.toNat).toNat = c.toNat :=
  toNat_ofNat (by omega)

theorem decodeAscii_encodeUtf8 {text : Str} (h : IsAscii text) :
    decodeAscii (encodeUtf8 text) = some text := by
  have hbytes : (text.map fun c => UInt8.ofNat c.toNat).all (fun b => b.toNat < 0x80) = true := by
    rw [List.all_map, List.all_eq_true]
    intro c hc
    simp only [Function.comp_apply, toNat_byte (h c hc), decide_eq_true_eq]
    exact h c hc
  have hback : (text.map fun c => UInt8.ofNat c.toNat).map (fun b => Char.ofNat b.toNat) = text := by
    rw [List.map_map]
    conv_rhs => rw [← List.map_id text]
    apply List.map_congr_left
    intro c hc
    simp only [Function.comp_apply, toNat_byte (h c hc), Char.ofNat_toNat, id]
  rw [encodeUtf8_ascii h, decodeAscii, if_pos hbytes, hback]

theorem splitOn_digits {digits : Str} (h : ∀ c ∈ digits, Python.isDigit c = true) :
    digits.splitOn '_' = [digits] := by
  apply List.splitOn_eq_singleton
  intro hmem
  exact absurd (h '_' hmem) (by decide)

theorem asciiInt_toDigits (n : Nat) : asciiInt (Nat.toDigits 10 n) = some (n : Int) := by
  have hdigits : ∀ c ∈ Nat.toDigits 10 n, Python.isDigit c = true := fun c => isDigit_of_mem_toDigits
  have hstrip : stripList isSpace (Nat.toDigits 10 n) = Nat.toDigits 10 n := by
    apply stripList_of_ends
    · exact fun c hc => isSpace_of_isDigit (hdigits c (List.mem_of_mem_head? hc))
    · exact fun c hc => isSpace_of_isDigit (hdigits c (List.mem_of_mem_getLast? hc))
  obtain ⟨c, rest, hcons⟩ := List.exists_cons_of_ne_nil (Nat.toDigits_ne_nil (n := n) (b := 10))
  have hc : Python.isDigit c = true := hdigits c (by rw [hcons]; exact List.mem_cons_self)
  have hminus : c ≠ '-' := not_minus_of_isDigit hc
  have hplus : c ≠ '+' := by
    rintro rfl
    cases hc
  have hvalue := Nat.ofDigitChars_ten_toDigits (n := n)
  have hsplit := splitOn_digits hdigits
  rw [asciiInt, hstrip]
  rw [hcons] at hdigits hvalue hsplit ⊢
  split
  · next negative text hmatch =>
      split at hmatch
      · next heq => cases heq; exact absurd rfl hminus
      · next heq => cases heq; exact absurd rfl hplus
      · cases hmatch
        have hall : ([c :: rest].flatten).all Python.isDigit = true := by
          rw [List.flatten_singleton, List.all_eq_true]
          exact hdigits
        rw [hsplit, if_pos ⟨by simp, hall⟩, List.flatten_singleton, hvalue]
        rfl

theorem isAscii_toDigits (n : Nat) : IsAscii (Nat.toDigits 10 n) :=
  fun _ hc => (printed_of_isDigit (isDigit_of_mem_toDigits hc)).2

theorem Disk.At.readEpoch {disk : Disk} {epoch : Nat} (h : disk.At epoch) :
    readEpoch disk = .ok epoch := by
  rw [Sessions.readEpoch]
  cases hepoch : disk.epoch with
  | none =>
      obtain ⟨hknown, _, rfl⟩ := h.fresh hepoch
      simp [hknown]
  | some data =>
      obtain ⟨_, rfl, _⟩ := h.known data hepoch
      simp only [epochBytes, decodeAscii_encodeUtf8 (isAscii_toDigits epoch), asciiInt_toDigits]
      rw [if_neg (by omega)]
      rfl

theorem at_fresh : Disk.At {} 0 where
  fresh _ := ⟨rfl, rfl, rfl⟩
  known _ h := by cases h

theorem Disk.At.checkEpoch {disk : Disk} {epoch : Nat} (h : disk.At epoch)
    (expected : Option Nat) :
    checkEpoch disk expected =
      if expected.any (· ≠ epoch) then .error .replaced else .ok epoch := by
  have hprimary : (disk.primary.isNone && epochIsKnown disk && epoch == 0) = false := by
    cases hepoch : disk.epoch with
    | none =>
        obtain ⟨hknown, _⟩ := h.fresh hepoch
        simp [epochIsKnown, hknown, hepoch]
    | some data =>
        obtain ⟨_, _, hpos⟩ := h.known data hepoch
        cases hp : disk.primary with
        | none =>
            have := hpos hp
            simp
            omega
        | some _ => rfl
  rw [Sessions.checkEpoch, h.readEpoch]
  simp only [bind, Except.bind, hprimary, Bool.false_eq_true, if_false]
  split
  · rfl
  · rfl

/-! ## The operations, change by change -/

theorem exec_nil (disk : Disk) : disk.exec [] = disk := rfl

theorem exec_cons (disk : Disk) (change : Change) (changes : List Change) :
    disk.exec (change :: changes) = (disk.apply change).exec changes := rfl

theorem exec_append (disk : Disk) (a b : List Change) :
    disk.exec (a ++ b) = (disk.exec a).exec b := List.foldl_append

theorem exec_bytes (disk : Disk) (bytes : Bytes) :
    disk.exec (bytes.map .append) = { disk with primary := disk.primary.map (· ++ bytes) } := by
  induction bytes generalizing disk with
  | nil =>
      rw [List.map_nil, exec_nil]
      cases hprimary : disk.primary with
      | none => simp [← hprimary]
      | some old => simp [← hprimary]
  | cons byte bytes ih =>
      rw [List.map_cons, exec_cons, ih]
      cases hprimary : disk.primary with
      | none => simp [Disk.apply, hprimary]
      | some old => simp [Disk.apply, hprimary]

theorem exec_writeEpoch (disk : Disk) (epoch : Nat) :
    (disk.exec (writeEpoch disk epoch)).primary = disk.primary ∧
      (disk.exec (writeEpoch disk epoch)).primaryTmp = disk.primaryTmp ∧
      (disk.exec (writeEpoch disk epoch)).known.isSome = true ∧
      (disk.exec (writeEpoch disk epoch)).epoch = some (epochBytes epoch) := by
  rw [writeEpoch, markEpochKnown]
  split
  · next hknown => exact ⟨rfl, rfl, hknown, rfl⟩
  · exact ⟨rfl, rfl, rfl, rfl⟩

theorem exec_ensureEpoch {disk : Disk} {epoch : Nat} (h : disk.At epoch) :
    (disk.exec (ensureEpoch disk epoch)).primary = disk.primary ∧
      (disk.exec (ensureEpoch disk epoch)).known.isSome = true ∧
      (disk.exec (ensureEpoch disk epoch)).epoch = some (epochBytes epoch) := by
  rw [ensureEpoch]
  split
  · next hsome =>
      obtain ⟨data, hdata⟩ := Option.isSome_iff_exists.mp hsome
      obtain ⟨hknown, rfl, _⟩ := h.known data hdata
      exact ⟨rfl, hknown, hdata⟩
  · obtain ⟨hprimary, _, hknown, hepoch⟩ := exec_writeEpoch disk epoch
    exact ⟨hprimary, hknown, hepoch⟩

theorem at_of_known {disk : Disk} {epoch : Nat} (hknown : disk.known.isSome = true)
    (hepoch : disk.epoch = some (epochBytes epoch)) (hprimary : disk.primary = none → 0 < epoch) :
    disk.At epoch where
  fresh h := by
    rw [hepoch] at h
    cases h
  known data h := by
    rw [hepoch] at h
    cases h
    exact ⟨hknown, rfl, hprimary⟩

/-- An append leaves the file with the block at its end. -/
theorem exec_lockedAppend {disk : Disk} {epoch : Nat} (h : disk.At epoch) (lines : List Str) :
    (disk.exec (ensureEpoch disk epoch ++ .create :: (appended disk lines).map .append)).primary =
        some (disk.primary.getD [] ++ appended disk lines) ∧
      (disk.exec (ensureEpoch disk epoch ++ .create :: (appended disk lines).map .append)).At
        epoch := by
  obtain ⟨hprimary, hknown, hepoch⟩ := exec_ensureEpoch h
  rw [exec_append, exec_cons, exec_bytes]
  simp only [Disk.apply, hprimary, Option.map_some]
  exact ⟨trivial, at_of_known hknown hepoch (by simp)⟩

theorem exec_atomicReplace (disk : Disk) (data : Bytes) (epoch : Nat) :
    (disk.exec (.writeTmp data :: writeEpoch disk epoch ++ [.renameTmp])).primary = some data ∧
      (disk.exec (.writeTmp data :: writeEpoch disk epoch ++ [.renameTmp])).At epoch := by
  have hsame : writeEpoch disk epoch = writeEpoch (disk.apply (.writeTmp data)) epoch := rfl
  obtain ⟨_, htmp, hknown, hepoch⟩ := exec_writeEpoch (disk.apply (.writeTmp data)) epoch
  rw [List.cons_append, exec_cons, exec_append, hsame]
  refine ⟨htmp, at_of_known hknown hepoch ?_⟩
  intro hnone
  have hsome : (((disk.apply (.writeTmp data)).exec
      (writeEpoch (disk.apply (.writeTmp data)) epoch)).exec [.renameTmp]).primary = some data := htmp
  rw [hsome] at hnone
  cases hnone

/-! ## The operations on a path at an epoch -/

theorem lockedAppend_eq {disk : Disk} {epoch : Nat} (h : disk.At epoch) {lines : List Str}
    (hlines : lines ≠ []) (expected : Nat) (requireExisting : Bool)
    (validate : Str → Except StorageError Unit) :
    lockedAppend disk lines (some expected) requireExisting validate =
      if requireExisting && disk.primary.isNone then .error .deleted
      else if expected ≠ epoch then .error .replaced
      else (validateExisting disk validate).map fun _ =>
        (ensureEpoch disk epoch ++ .create :: (appended disk lines).map .append, epoch) := by
  rw [lockedAppend, if_neg hlines, h.checkEpoch]
  simp only [bind, Except.bind, Option.any_some, decide_eq_true_eq]
  split
  · rfl
  · simp only [pure, Except.pure]
    by_cases hepoch : expected ≠ epoch
    · simp only [if_pos hepoch]
    · simp only [if_neg hepoch]
      cases validateExisting disk validate with
      | error error => rfl
      | ok _ => rfl

theorem atomicReplace_eq {disk : Disk} {epoch : Nat} (h : disk.At epoch) (data : Str)
    (expected : Nat) (persisted : Bool) (validate : Str → Except StorageError Unit) :
    atomicReplace disk data (some expected) (some persisted) persisted true validate =
      if persisted ≠ disk.primary.isSome then .error .existenceChanged
      else if expected ≠ epoch then .error .replaced
      else (validateExisting disk validate).map fun _ =>
        (.writeTmp (encodeUtf8 data) :: writeEpoch disk (epoch + 1) ++ [.renameTmp], epoch + 1) := by
  rw [atomicReplace, h.checkEpoch]
  simp only [bind, Except.bind, Option.any_some, decide_eq_true_eq]
  split
  · rfl
  · next hexists =>
      have hrequire : ¬ (persisted && disk.primary.isNone) = true := by
        rw [not_not] at hexists
        rw [hexists]
        cases disk.primary with
        | none => simp
        | some _ => simp
      simp only [pure, Except.pure, if_neg hrequire]
      by_cases hepoch : expected ≠ epoch
      · simp only [if_pos hepoch]
      · simp only [if_neg hepoch]
        cases validateExisting disk validate with
        | error error => rfl
        | ok _ => rfl

/-- What a delete that increments the epoch does. -/
theorem lockedDelete_eq {disk : Disk} {epoch : Nat} (h : disk.At epoch) (expected : Option Nat)
    (expectedExists : Option Bool) (fenceMissing : Bool) :
    lockedDelete disk expected expectedExists fenceMissing true =
      if expectedExists.any (· ≠ disk.primary.isSome) then .error .existenceChanged
      else if expected.any (· ≠ epoch) then .error .replaced
      else if disk.primary.isNone && !fenceMissing then .ok ([], false)
      else if disk.primary.isNone then .ok (writeEpoch disk (epoch + 1), false)
      else .ok (writeEpoch disk (epoch + 1) ++ [.unlink], true) := by
  rw [lockedDelete, h.checkEpoch]
  simp only [bind, Except.bind]
  split
  · rfl
  · simp only [pure, Except.pure]
    by_cases hepoch : expected.any (· ≠ epoch) = true
    · simp only [if_pos hepoch]
    · simp only [if_neg hepoch, if_true]

theorem exec_unlink (disk : Disk) (epoch : Nat) :
    (disk.exec (writeEpoch disk (epoch + 1) ++ [.unlink])).primary = none ∧
      (disk.exec (writeEpoch disk (epoch + 1) ++ [.unlink])).At (epoch + 1) := by
  obtain ⟨_, _, hknown, hepoch⟩ := exec_writeEpoch disk (epoch + 1)
  rw [exec_append]
  exact ⟨rfl, at_of_known hknown hepoch fun _ => Nat.succ_pos epoch⟩

theorem exec_fence (disk : Disk) (epoch : Nat) :
    (disk.exec (writeEpoch disk (epoch + 1))).primary = disk.primary ∧
      (disk.exec (writeEpoch disk (epoch + 1))).At (epoch + 1) := by
  obtain ⟨hprimary, _, hknown, hepoch⟩ := exec_writeEpoch disk (epoch + 1)
  exact ⟨hprimary, at_of_known hknown hepoch fun _ => Nat.succ_pos epoch⟩

/-! ## Records -/

section Text

variable {F : Type} [FiniteFloat F]

/-- The text of a file with these records. -/
def fileText (records : List (Obj F)) : Str := block (records.map Session.dumpsObj)

/-- What `_decode_payload` makes of the records. -/
def collect (key : Str) : List (Obj F) → Payload F → Except StorageError (Payload F)
  | [], payload => .ok payload
  | data :: rest, payload =>
      if isMetadata data then
        match readMetadataRecord key data payload with
        | .error error => .error error
        | .ok payload => collect key rest payload
      else collect key rest { payload with messages := payload.messages ++ [data] }

omit [FiniteFloat F] in
theorem collect_append (key : Str) (a b : List (Obj F)) (payload : Payload F) :
    collect key (a ++ b) payload = (collect key a payload).bind (collect key b) := by
  induction a generalizing payload with
  | nil => rfl
  | cons data rest ih =>
      rw [List.cons_append, collect, collect]
      split
      · cases readMetadataRecord key data payload with
        | error error => rfl
        | ok payload => exact ih payload
      · exact ih _

omit [FiniteFloat F] in
theorem collect_messages {key : Str} {messages : List (Obj F)}
    (h : ∀ message ∈ messages, isMetadata message = false) (payload : Payload F) :
    collect key messages payload =
      .ok { payload with messages := payload.messages ++ messages } := by
  induction messages generalizing payload with
  | nil => rw [collect, List.append_nil]
  | cons message messages ih =>
      rw [List.forall_mem_cons] at h
      rw [collect, h.1, if_neg (by decide), ih h.2]
      simp

omit [FiniteFloat F] in
/-- The metadata record of a session, read for a key. -/
theorem readMetadataRecord_metadataRecord (key : Str) (session : Session F) (payload : Payload F) :
    readMetadataRecord key session.metadataRecord payload =
      if session.key = key then
        .ok { payload with
          metadata := session.metadata
          createdAt := some session.createdAt
          updatedAt := some session.updatedAt
          lastConsolidated := session.lastConsolidated
          pendingClarification := session.pendingClarification
          hasMetadataKey := true }
      else .error .keyMismatch := by
  have hidentity : validateMetadataIdentity key session.metadataRecord =
      if session.key = key then .ok () else .error .keyMismatch := rfl
  have hmetadata : readMetadata session.metadataRecord = .ok session.metadata := rfl
  have hcreated : readOptionalStr session.metadataRecord "created_at".toList .createdAtNotString =
      .ok (some session.createdAt.localChars) := rfl
  have hupdated : readOptionalStr session.metadataRecord "updated_at".toList .updatedAtNotString =
      .ok (some session.updatedAt.localChars) := rfl
  have hlast : readLastConsolidated session.metadataRecord = .ok session.lastConsolidated := by
    have hlookup : session.metadataRecord.lookup "last_consolidated".toList =
        some (.int session.lastConsolidated) := rfl
    simp only [readLastConsolidated, hlookup]
    rw [if_neg (by omega)]
    rfl
  have hpending : readPendingClarification session.metadataRecord =
      .ok session.pendingClarification := by
    unfold Session.metadataRecord
    cases session.pendingClarification with
    | none => rfl
    | some pending => rfl
  have hstamp : ∀ d : DateTime, readTimestamp (some d.localChars) = .ok (some d) := by
    intro d
    have hne : d.localChars ≠ [] := by simp [DateTime.localChars, DateTime.pad4]
    obtain ⟨c, rest, hcons⟩ := List.exists_cons_of_ne_nil hne
    have hread := DateTime.fromisoformat_localChars d
    rw [hcons] at hread ⊢
    simp only [readTimestamp, hread]
  rw [readMetadataRecord, hidentity, hmetadata, hcreated, hupdated, hlast, hpending]
  split
  · simp only [bind, Except.bind, hstamp]
    rfl
  · rfl

/-! ## Lines and records -/

theorem dumpsObj_head (data : Obj F) : ∃ rest, Session.dumpsObj data = '{' :: rest := by
  rw [Session.dumpsObj, ← dumpsWith_plain]
  exact dumpsWith_obj_head .plain data

theorem strip_dumpsObj (data : Obj F) :
    stripList isSpace (Session.dumpsObj data) = Session.dumpsObj data := by
  rw [Session.dumpsObj, ← dumpsWith_plain]
  exact strip_dumpsWith_obj .plain data

/-- The lines without their numbers. -/
def strippedLines (lines : List Str) : List Str :=
  (lines.map (stripList isSpace)).filter (· ≠ [])

theorem recordLines_map (raw : Str) :
    (recordLines raw).map Prod.snd = strippedLines (splitlines raw) := by
  have hgeneral : ∀ (lines : List Str) (n : Nat),
      ((lines.zipIdx n).filterMap fun line =>
        if stripList isSpace line.1 = [] then none
        else some (line.2, stripList isSpace line.1)).map Prod.snd = strippedLines lines := by
    intro lines
    induction lines with
    | nil => intro n; rfl
    | cons line lines ih =>
        intro n
        rw [List.zipIdx_cons, List.filterMap_cons, strippedLines, List.map_cons, List.filter_cons]
        by_cases hblank : stripList isSpace line = []
        · simp only [hblank, if_true, ne_eq, not_true_eq_false, decide_false]
          exact ih (n + 1)
        · simp only [hblank, if_false, ne_eq, not_false_eq_true, decide_true, if_true, List.map_cons]
          rw [ih (n + 1)]
          rfl
  exact hgeneral (splitlines raw) 1

theorem strippedLines_append (a b : List Str) :
    strippedLines (a ++ b) = strippedLines a ++ strippedLines b := by
  simp [strippedLines]

theorem strippedLines_records (records : List (Obj F)) :
    strippedLines (records.map Session.dumpsObj) = records.map Session.dumpsObj := by
  rw [strippedLines, List.map_map]
  have hmap : records.map (stripList isSpace ∘ Session.dumpsObj) = records.map Session.dumpsObj :=
    List.map_congr_left fun data _ => strip_dumpsObj data
  rw [hmap, List.filter_eq_self]
  intro line hline
  obtain ⟨data, _, rfl⟩ := List.mem_map.mp hline
  obtain ⟨rest, hrest⟩ := dumpsObj_head data
  simp [hrest]

/-- A record as `json.dumps` needs it: representable, and one line. -/
def Obj.Representable (data : Obj F) : Prop := (Json.obj data : Json Str F).Representable

def Obj.Separated (data : Obj F) : Prop := (Json.obj data : Json Str F).Separated

instance (data : Obj F) : Decidable (Obj.Separated data) :=
  inferInstanceAs (Decidable (Json.obj data : Json Str F).Separated)

theorem loads_dumpsObj {data : Obj F} (h : Obj.Representable data) :
    loads (Session.dumpsObj data) = some (.obj data) := loads_dumps h

/-- Whole records first: the rest of the lines is decoded after them. -/
theorem decodeRecords_append {key : Str} {ended : Bool} {records : List (Obj F)}
    (h : ∀ data ∈ records, Obj.Representable data) {lines more : List (Nat × Str)}
    (hlines : lines.map Prod.snd = records.map Session.dumpsObj) (payload : Payload F) :
    decodeRecords key ended (lines ++ more) payload =
      (collect key records payload).bind (decodeRecords key ended more) := by
  induction records generalizing lines payload with
  | nil =>
      rw [List.map_nil, List.map_eq_nil_iff] at hlines
      rw [hlines]
      rfl
  | cons data records ih =>
      rw [List.forall_mem_cons] at h
      cases lines with
      | nil => cases hlines
      | cons line lines =>
          obtain ⟨number, text⟩ := line
          simp only [List.map_cons, List.cons.injEq] at hlines
          rw [List.cons_append, decodeRecords, hlines.1, loads_dumpsObj h.1, collect]
          simp only
          split
          · cases readMetadataRecord key data payload with
            | error error => rfl
            | ok payload => exact ih h.2 hlines.2 payload
          · exact ih h.2 hlines.2 _

/-- The result of the loop, and the check of the path. -/
def finishPayload (path : SessionPath) (key : Str) (payload : Payload F) :
    Except StorageError (Payload F) :=
  (validateFallbackIdentity path key payload.hasMetadataKey).map fun _ => payload

theorem decodePayload_eq (path : SessionPath) (key raw : Str) :
    (decodePayload path key raw : Except StorageError (Payload F)) =
      (decodeRecords key (endsLine raw) (recordLines raw) {}).bind (finishPayload path key) := by
  rw [decodePayload]
  congr 1

theorem fileText_append (a b : List (Obj F)) : fileText (a ++ b) = fileText a ++ fileText b := by
  simp [fileText, block]

theorem splitlines_fileText {records : List (Obj F)}
    (h : ∀ data ∈ records, Obj.Separated data) (rest : Str) :
    splitlines (fileText records ++ rest) = records.map Session.dumpsObj ++ splitlines rest := by
  apply splitlines_lines
  intro line hline
  obtain ⟨data, hdata, rfl⟩ := List.mem_map.mp hline
  exact (one_line_iff _).mpr (h data hdata)

/-- Whole records, then something else. -/
theorem decodeRecords_fileText (key : Str) (ended : Bool) {records : List (Obj F)}
    (hrep : ∀ data ∈ records, Obj.Representable data)
    (hsep : ∀ data ∈ records, Obj.Separated data) (rest : Str) (payload : Payload F) :
    ∃ more, more.map Prod.snd = strippedLines (splitlines rest) ∧
      decodeRecords key ended (recordLines (fileText records ++ rest)) payload =
        (collect key records payload).bind (decodeRecords key ended more) := by
  have hlines : (recordLines (fileText records ++ rest)).map Prod.snd =
      records.map Session.dumpsObj ++ strippedLines (splitlines rest) := by
    rw [recordLines_map, splitlines_fileText hsep, strippedLines_append, strippedLines_records]
  obtain ⟨first, more, hsplit, hfirst, hmore⟩ := List.map_eq_append_iff.mp hlines
  refine ⟨more, hmore, ?_⟩
  rw [hsplit]
  exact decodeRecords_append hrep hfirst payload

/-- A file of records without separators is decoded record by record. -/
theorem decodePayload_fileText {records : List (Obj F)} (path : SessionPath) (key : Str)
    (hrep : ∀ data ∈ records, Obj.Representable data)
    (hsep : ∀ data ∈ records, Obj.Separated data) :
    decodePayload path key (fileText records) =
      (collect key records {}).bind (finishPayload path key) := by
  obtain ⟨more, hmore, hdecode⟩ := decodeRecords_fileText key (endsLine (fileText records)) hrep
    hsep [] {}
  have hnil : more = [] := List.map_eq_nil_iff.mp hmore
  rw [List.append_nil, hnil] at hdecode
  rw [decodePayload_eq, hdecode]
  cases collect key records {} with
  | error error => rfl
  | ok payload => rfl

theorem endsLine_fileText {records : List (Obj F)} (h : records ≠ []) :
    endsLine (fileText records) = true := by
  obtain ⟨init, last, rfl⟩ := (List.eq_nil_or_concat' records).resolve_left h
  have htext : fileText (init ++ [last]) =
      (fileText init ++ Session.dumpsObj last) ++ ['\n'] := by
    simp [fileText, block]
  rw [htext, endsLine, List.getLast?_concat]
  rfl

/-- The first record with a separator is torn apart: the file cannot be decoded. -/
theorem decodePayload_torn {records : List (Obj F)} (path : SessionPath) (key : Str)
    (hrep : ∀ data ∈ records, Obj.Representable data) {torn : Obj F} (htorn : torn ∈ records)
    (hsep : ¬ Obj.Separated torn) :
    ∃ error, (decodePayload path key (fileText records) : Except StorageError (Payload F)) =
      .error error := by
  obtain ⟨good, bad, rest, rfl, hgood, hbad⟩ := exists_first (P := Obj.Separated) htorn hsep
  have hraw : fileText (good ++ bad :: rest) =
      fileText good ++ (Session.dumpsObj bad ++ ('\n' :: fileText rest)) := by
    rw [fileText_append]
    show _ ++ (Session.dumpsObj bad ++ ['\n'] ++ fileText rest) = _
    simp
  obtain ⟨line, torn, hlines, hne, hnone⟩ :=
    splitlines_torn (hrep bad (List.mem_append_right _ List.mem_cons_self)) hbad
      ('\n' :: fileText rest)
  obtain ⟨more, hmore, hdecode⟩ := decodeRecords_fileText key
    (endsLine (fileText (good ++ bad :: rest)))
    (fun data hdata => hrep data (List.mem_append_left _ hdata)) hgood
    (Session.dumpsObj bad ++ ('\n' :: fileText rest)) {}
  rw [Session.dumpsObj, hlines] at hmore
  obtain ⟨number, others, rfl⟩ : ∃ number others, more = (number, stripList isSpace line) :: others := by
    rw [strippedLines, List.map_cons, List.filter_cons, if_pos (by simpa using hne)] at hmore
    obtain ⟨first, others, rfl, hfirst, _⟩ := List.map_eq_cons_iff.mp hmore
    exact ⟨first.1, others, by rw [← hfirst]⟩
  rw [← hraw] at hdecode
  rw [decodePayload_eq, hdecode, endsLine_fileText (by simp)]
  cases collect key good {} with
  | error error => exact ⟨error, rfl⟩
  | ok payload =>
      refine ⟨.invalidJson number, ?_⟩
      simp only [Except.bind, decodeRecords, hnone, Bool.true_eq_false, and_false, if_false]

end Text

end Sessions
end CodeCub
