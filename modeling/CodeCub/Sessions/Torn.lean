import CodeCub.Sessions.RoundTrip

/-!
# Files cut by a crash

A crash inside an append leaves whole records and the beginning of one more.
`_decode_payload` takes the whole records, and the last one too if only its newline is
missing; anything else at the end it reports as a partial tail.
-/

namespace CodeCub
namespace Sessions

open Python

variable {F : Type} [FiniteFloat F]

/-- Whole records and a beginning of the record `last`. -/
structure Torn (F : Type) [FiniteFloat F] where
  records : List (Obj F)
  tail : Str
  last : Obj F
  begins : tail <+: Session.dumpsObj last

namespace Torn

def text (torn : Torn F) : Str := fileText torn.records ++ torn.tail

/-- The records that can be read. -/
def held (torn : Torn F) : List (Obj F) :=
  if torn.tail = Session.dumpsObj torn.last then torn.records ++ [torn.last] else torn.records

/-- A record is there in part. -/
def cutOff (torn : Torn F) : Bool :=
  decide (torn.tail ≠ [] ∧ torn.tail ≠ Session.dumpsObj torn.last)

/-- The file of whole records. -/
def whole (records : List (Obj F)) : Torn F where
  records := records
  tail := []
  last := []
  begins := List.nil_prefix

theorem dumpsObj_ne_nil (data : Obj F) : Session.dumpsObj data ≠ [] := by
  obtain ⟨rest, hrest⟩ := dumpsObj_head data
  simp [hrest]

theorem held_whole (records : List (Obj F)) : (whole records).held = records := by
  have hne : (whole records).tail ≠ Session.dumpsObj (whole records).last :=
    (dumpsObj_ne_nil _).symm
  rw [held, if_neg hne]
  rfl

theorem text_whole (records : List (Obj F)) : (whole records).text = fileText records :=
  List.append_nil _

/-- Nothing is missing but perhaps the last newline. -/
theorem tail_of_not_cutOff {torn : Torn F} (h : torn.cutOff = false) :
    torn.tail = [] ∨ torn.tail = Session.dumpsObj torn.last := by
  rw [cutOff, decide_eq_false_iff_not, not_and_or, not_not, not_not] at h
  exact h

/-- Every record can be written and is one line. -/
def Fine (torn : Torn F) (P : Obj F → Prop) : Prop := ∀ data ∈ torn.records ++ [torn.last], P data

theorem Fine.held {torn : Torn F} {P : Obj F → Prop} (h : torn.Fine P) : ∀ data ∈ torn.held, P data := by
  intro data hdata
  rw [Torn.held] at hdata
  split at hdata
  · exact h data hdata
  · exact h data (List.mem_append_left _ hdata)

/-! ## Decoding -/

theorem isLineBreak_tail {torn : Torn F} (hsep : Obj.Separated torn.last) :
    ∀ c ∈ torn.tail, isLineBreak c = false := fun c hc =>
  (one_line_iff _).mpr hsep c (torn.begins.subset hc)

/-- The line of the tail. -/
theorem strippedLines_tail {torn : Torn F} (hsep : Obj.Separated torn.last)
    (hne : torn.tail ≠ []) :
    strippedLines (splitlines torn.tail) = [stripList isSpace torn.tail] ∧
      ∃ cut, stripList isSpace torn.tail ++ cut = torn.tail := by
  obtain ⟨c, rest, hcons⟩ := List.exists_cons_of_ne_nil hne
  obtain ⟨more, hbegins⟩ := torn.begins
  obtain ⟨after, hhead⟩ := dumpsObj_head torn.last
  have hc : c = '{' := by
    rw [hcons, hhead] at hbegins
    injection hbegins
  subst hc
  obtain ⟨cut, hcut, hstrip⟩ := stripList_prefix '{' rest (by decide)
  rw [splitlines_last (isLineBreak_tail hsep) hne, hcons]
  refine ⟨?_, cut, hcut⟩
  rw [strippedLines, List.map_singleton, List.filter_cons, if_pos (by simpa using hstrip)]
  rfl

theorem endsLine_tail {torn : Torn F} (hsep : Obj.Separated torn.last) (hne : torn.tail ≠ []) :
    endsLine torn.text = false := by
  obtain ⟨init, c, hc⟩ := (List.eq_nil_or_concat' torn.tail).resolve_left hne
  have hbreak := isLineBreak_tail hsep c (by rw [hc]; simp)
  rw [endsLine, text, hc, ← List.append_assoc, List.getLast?_concat]
  rw [Bool.or_eq_false_iff]
  constructor
  · rw [beq_eq_false_iff_ne]
    rintro ⟨⟩
    exact absurd hbreak (by decide)
  · rw [beq_eq_false_iff_ne]
    rintro ⟨⟩
    exact absurd hbreak (by decide)

/-- The rest of a record that is only there in part cannot be read. -/
theorem loads_cutOff {torn : Torn F} (hrep : Obj.Representable torn.last)
    (hsep : Obj.Separated torn.last) (hne : torn.tail ≠ [])
    (hpart : torn.tail ≠ Session.dumpsObj torn.last) :
    (loads (stripList isSpace torn.tail) : Option (Json Str F)) = none := by
  obtain ⟨_, cut, hcut⟩ := strippedLines_tail hsep hne
  obtain ⟨more, hmore⟩ := torn.begins
  have htext : stripList isSpace torn.tail ++ (cut ++ more) = Session.dumpsObj torn.last := by
    rw [← List.append_assoc, hcut]
    exact hmore
  refine loads_prefix hrep htext ?_
  intro hnil
  rw [List.append_eq_nil_iff] at hnil
  rw [hnil.2, List.append_nil] at hmore
  exact hpart hmore

omit [FiniteFloat F] in
theorem collect_partialTailFound {key : Str} {records : List (Obj F)} {payload result : Payload F}
    (h : collect key records payload = .ok result) :
    result.partialTailFound = payload.partialTailFound := by
  induction records generalizing payload with
  | nil =>
      cases h
      rfl
  | cons data records ih =>
      rw [collect] at h
      split at h
      · cases hread : readMetadataRecord key data payload with
        | error error =>
            rw [hread] at h
            cases h
        | ok payload' =>
            rw [hread] at h
            exact (ih h).trans (readMetadataRecord_ok hread).2.2.2.2.2
      · have htail := ih h
        exact htail

/-- What is decoded after the whole records. -/
theorem decodeRecords_tail {torn : Torn F} {key : Str} (hrep : Obj.Representable torn.last)
    (hsep : Obj.Separated torn.last) {more : List (Nat × Str)}
    (hmore : more.map Prod.snd = strippedLines (splitlines torn.tail)) (payload : Payload F)
    (hpayload : payload.partialTailFound = false) :
    decodeRecords key (endsLine torn.text) more payload =
      (collect key (if torn.tail = Session.dumpsObj torn.last then [torn.last] else []) payload).map
        fun payload => { payload with partialTailFound := torn.cutOff } := by
  by_cases hne : torn.tail = []
  · have hnil : more = [] := by
      rw [hne] at hmore
      exact List.map_eq_nil_iff.mp hmore
    have hcut : torn.cutOff = false := by simp [cutOff, hne]
    rw [hnil, hcut, if_neg (hne ▸ (dumpsObj_ne_nil torn.last).symm), decodeRecords, collect,
      Except.map, ← hpayload]
  · rw [(strippedLines_tail hsep hne).1] at hmore
    obtain ⟨⟨number, line⟩, rfl⟩ : ∃ entry, more = [entry] := by
      cases more with
      | nil => cases hmore
      | cons entry more =>
          rw [List.map_cons] at hmore
          injection hmore with _ hrest
          exact ⟨entry, by rw [List.map_eq_nil_iff.mp hrest]⟩
    simp only [List.map_cons, List.map_nil, List.cons.injEq, and_true] at hmore
    subst hmore
    by_cases hwhole : torn.tail = Session.dumpsObj torn.last
    · have hcut : torn.cutOff = false := by simp [cutOff, hwhole]
      rw [if_pos hwhole, hcut, hwhole, strip_dumpsObj]
      have happend : decodeRecords key (endsLine torn.text)
          ([(number, Session.dumpsObj torn.last)] ++ []) payload =
          (collect key [torn.last] payload).bind (decodeRecords key (endsLine torn.text) []) :=
        decodeRecords_append (by simpa using hrep) rfl payload
      rw [List.append_nil] at happend
      rw [happend]
      cases hcollect : collect key [torn.last] payload with
      | error error => rfl
      | ok result =>
          have hresult := (collect_partialTailFound hcollect).trans hpayload
          rw [Except.bind, Except.map, decodeRecords, ← hresult]
    · have hcut : torn.cutOff = true := by simp [cutOff, hne, hwhole]
      rw [if_neg hwhole, hcut, decodeRecords, loads_cutOff hrep hsep hne hwhole,
        endsLine_tail hsep hne, collect, Except.map]
      simp

/-- What `_decode_payload` makes of the file. -/
theorem decodePayload_text {torn : Torn F} (path : SessionPath) (key : Str)
    (hrep : torn.Fine Obj.Representable) (hsep : torn.Fine Obj.Separated) :
    decodePayload path key torn.text =
      (collect key torn.held {}).bind fun payload =>
        finishPayload path key { payload with partialTailFound := torn.cutOff } := by
  have hmem : torn.last ∈ torn.records ++ [torn.last] :=
    List.mem_append_right _ (List.mem_singleton_self _)
  obtain ⟨more, hmore, hdecode⟩ := decodeRecords_fileText key (endsLine torn.text)
    (fun data hdata => hrep data (List.mem_append_left _ hdata))
    (fun data hdata => hsep data (List.mem_append_left _ hdata)) torn.tail {}
  have hheld : torn.held = torn.records ++
      if torn.tail = Session.dumpsObj torn.last then [torn.last] else [] := by
    rw [held]
    split
    · rfl
    · rw [List.append_nil]
  change decodeRecords key (endsLine torn.text) (recordLines torn.text) {} = _ at hdecode
  rw [decodePayload_eq, hdecode, hheld, collect_append]
  cases hcollect : collect key torn.records {} with
  | error error => rfl
  | ok payload =>
      rw [Except.bind, Except.bind, decodeRecords_tail (hrep _ hmem) (hsep _ hmem) hmore payload
        (collect_partialTailFound hcollect)]
      cases collect key (if torn.tail = Session.dumpsObj torn.last then [torn.last] else [])
        payload with
      | error error => rfl
      | ok result => rfl

/-! ## Cutting a block of records -/

/-- The first `n` characters of the lines of some records. -/
def cut : List (Obj F) → Nat → Torn F
  | [], _ => whole []
  | data :: rest, n =>
      if n ≤ (Session.dumpsObj data).length then
        { records := []
          tail := (Session.dumpsObj data).take n
          last := data
          begins := List.take_prefix _ _ }
      else
        let torn := cut rest (n - (Session.dumpsObj data).length - 1)
        { torn with records := data :: torn.records }

theorem fileText_cons (data : Obj F) (rest : List (Obj F)) :
    fileText (data :: rest) = Session.dumpsObj data ++ '\n' :: fileText rest := by
  simp [fileText, block]

theorem text_cut (records : List (Obj F)) (n : Nat) :
    (cut records n).text = (fileText records).take n := by
  induction records generalizing n with
  | nil => simp [cut, text, whole, fileText, block]
  | cons data rest ih =>
      rw [cut, fileText_cons]
      split
      · next hle =>
          rw [List.take_append_of_le_length hle]
          rfl
      · next hlt =>
          have hsplit : n = (Session.dumpsObj data).length +
              ((n - (Session.dumpsObj data).length - 1) + 1) := by omega
          rw [text, fileText_cons, List.append_assoc, List.cons_append]
          conv_rhs => rw [hsplit, List.take_length_add_append, List.take_succ_cons, ← ih]
          rfl

/-- A block that is cut holds a beginning of its records. -/
theorem held_cut (records : List (Obj F)) (n : Nat) : (cut records n).held <+: records := by
  induction records generalizing n with
  | nil =>
      have hheld : (cut [] n : Torn F).held = [] := held_whole []
      exact hheld.symm ▸ List.nil_prefix
  | cons data rest ih =>
      rw [cut]
      split
      · rw [held]
        split
        · exact ⟨rest, rfl⟩
        · exact List.nil_prefix
      · have hheld := ih (n - (Session.dumpsObj data).length - 1)
        rw [held] at hheld ⊢
        split at hheld
        · next hwhole =>
            rw [if_pos hwhole]
            exact List.prefix_cons_inj data |>.mpr hheld
        · next hpart =>
            rw [if_neg hpart]
            exact List.prefix_cons_inj data |>.mpr hheld

/-- As soon as the first record is there it is held. -/
theorem held_cut_ne_nil {data : Obj F} {rest : List (Obj F)} {n : Nat}
    (h : (Session.dumpsObj data).length ≤ n) : (cut (data :: rest) n).held ≠ [] := by
  rw [cut]
  split
  · next hle =>
      have hlength : n = (Session.dumpsObj data).length := by omega
      rw [held, hlength]
      simp
  · rw [held]
    split <;> simp

theorem fine_cut {P : Obj F → Prop} {records : List (Obj F)} (h : ∀ data ∈ records, P data)
    (hempty : P []) (n : Nat) : (cut records n).Fine P := by
  induction records generalizing n with
  | nil =>
      intro data hdata
      rw [cut] at hdata
      rw [List.mem_singleton.mp hdata]
      exact hempty
  | cons data rest ih =>
      rw [List.forall_mem_cons] at h
      rw [cut]
      split
      · intro other hother
        rw [List.mem_singleton.mp hother]
        exact h.1
      · exact List.forall_mem_cons.mpr ⟨h.1, ih h.2 _⟩

/-- A block behind a file that was not cut off: the missing newline comes first. -/
def extend (torn : Torn F) (records : List (Obj F)) (n : Nat) : Torn F :=
  if torn.tail = [] then
    { cut records n with records := torn.records ++ (cut records n).records }
  else if n = 0 then torn
  else { cut records (n - 1) with records := torn.held ++ (cut records (n - 1)).records }

theorem held_prepend (torn : Torn F) (first : List (Obj F)) :
    ({ torn with records := first ++ torn.records } : Torn F).held = first ++ torn.held := by
  rw [held, held]
  split
  · rw [List.append_assoc]
  · rfl

theorem text_prepend (torn : Torn F) (first : List (Obj F)) :
    ({ torn with records := first ++ torn.records } : Torn F).text =
      fileText first ++ torn.text := by
  rw [text, text, fileText_append, List.append_assoc]

/-- The newline that the last record still needs. -/
def newline (torn : Torn F) : Str := if torn.tail = [] then [] else ['\n']

theorem held_of_tail_nil {torn : Torn F} (h : torn.tail = []) : torn.held = torn.records := by
  rw [held, if_neg]
  rw [h]
  exact (dumpsObj_ne_nil _).symm

theorem held_of_whole {torn : Torn F} (h : torn.tail = Session.dumpsObj torn.last) :
    torn.held = torn.records ++ [torn.last] := by
  rw [held, if_pos h]

/-- The text of the whole records that were not cut off. -/
theorem text_newline {torn : Torn F} (h : torn.cutOff = false) :
    torn.text ++ torn.newline = fileText torn.held := by
  rcases tail_of_not_cutOff h with hnil | hwhole
  · rw [held_of_tail_nil hnil, newline, if_pos hnil, text, hnil, List.append_nil, List.append_nil]
  · have hne : torn.tail ≠ [] := hwhole ▸ dumpsObj_ne_nil _
    rw [held_of_whole hwhole, newline, if_neg hne, text, hwhole, fileText_append]
    simp [fileText, block]

theorem text_extend {torn : Torn F} (h : torn.cutOff = false) (records : List (Obj F)) (n : Nat) :
    (torn.extend records n).text = torn.text ++ (torn.newline ++ fileText records).take n := by
  have hwhole := text_newline h
  rw [newline] at hwhole ⊢
  rw [extend]
  split
  · next hnil =>
      rw [if_pos hnil, List.append_nil, held_of_tail_nil hnil] at hwhole
      rw [text_prepend, text_cut, List.nil_append, hwhole]
  · next hne =>
      rw [if_neg hne] at hwhole
      cases n with
      | zero => rw [if_pos rfl, List.take_zero, List.append_nil]
      | succ n =>
          rw [if_neg (Nat.succ_ne_zero n), text_prepend, text_cut, ← hwhole, List.append_assoc]
          rfl

/-- What can be read behind the old records is a beginning of the new ones. -/
theorem held_extend (torn : Torn F) (records : List (Obj F)) (n : Nat) :
    ∃ taken, (torn.extend records n).held = torn.held ++ taken ∧ taken <+: records := by
  rw [extend]
  split
  · next hnil =>
      refine ⟨(cut records n).held, ?_, held_cut records n⟩
      rw [held_prepend, held_of_tail_nil hnil]
  split
  · exact ⟨[], (List.append_nil _).symm, List.nil_prefix⟩
  · exact ⟨(cut records (n - 1)).held, held_prepend _ _, held_cut records (n - 1)⟩

theorem fine_extend {P : Obj F → Prop} {torn : Torn F} (htorn : torn.Fine P)
    {records : List (Obj F)} (h : ∀ data ∈ records, P data) (hempty : P []) (n : Nat) :
    (torn.extend records n).Fine P := by
  have hcut := fun n => fine_cut h hempty n
  rw [extend]
  split
  · intro data hdata
    rw [List.append_assoc] at hdata
    rcases List.mem_append.mp hdata with hold | hnew
    · exact htorn data (List.mem_append_left _ hold)
    · exact hcut n data hnew
  split
  · exact htorn
  · intro data hdata
    rw [List.append_assoc] at hdata
    rcases List.mem_append.mp hdata with hold | hnew
    · exact htorn.held data hold
    · exact hcut (n - 1) data hnew

end Torn

/-! ## ASCII -/

def Obj.Ascii (data : Obj F) : Prop := ∀ s ∈ (Json.obj data : Json Str F).texts, IsAscii s

instance (data : Obj F) : Decidable (Obj.Ascii data) :=
  inferInstanceAs (Decidable (∀ s ∈ (Json.obj data : Json Str F).texts, IsAscii s))

theorem ascii_dumpsObj {data : Obj F} (h : Obj.Ascii data) : IsAscii (Session.dumpsObj data) := by
  intro c hc
  rcases (spells_dumps (Json.obj data)).only c hc with hprinted | ⟨_, s, hs, hmem⟩
  · exact hprinted.2
  · exact h s hs c hmem

theorem ascii_fileText {records : List (Obj F)} (h : ∀ data ∈ records, Obj.Ascii data) :
    IsAscii (fileText records) := by
  intro c hc
  simp only [fileText, block, List.mem_flatMap, List.mem_map] at hc
  obtain ⟨_, ⟨data, hdata, rfl⟩, hc⟩ := hc
  rcases List.mem_append.mp hc with hc | hc
  · exact ascii_dumpsObj (h data hdata) c hc
  · rw [List.mem_singleton.mp hc]
    decide

omit [FiniteFloat F] in
theorem separated_of_asciiObj {data : Obj F} (h : Obj.Ascii data) : Obj.Separated data :=
  fun s hs => separated_of_ascii (h s hs)

namespace Torn

theorem ascii_text {torn : Torn F} (h : torn.Fine Obj.Ascii) : IsAscii torn.text := by
  intro c hc
  rcases List.mem_append.mp hc with hc | hc
  · exact ascii_fileText (fun data hdata => h data (List.mem_append_left _ hdata)) c hc
  · have hlast : torn.last ∈ torn.records ++ [torn.last] :=
      List.mem_append_right _ (List.mem_singleton_self _)
    exact ascii_dumpsObj (h _ hlast) c (torn.begins.subset hc)

theorem newline_ascii (torn : Torn F) : IsAscii torn.newline := by
  rw [newline]
  split <;> decide

/-- Whether a newline comes first is decided by the last byte. -/
theorem appended_eq {torn : Torn F} (h : torn.Fine Obj.Ascii) {disk : Disk}
    (hprimary : disk.primary = some (encodeUtf8 torn.text)) (lines : List Str) :
    appended disk lines = encodeUtf8 (torn.newline ++ block lines) := by
  rw [appended, hprimary]
  simp only
  by_cases hnil : torn.tail = []
  · have hends : ¬ (encodeUtf8 torn.text ≠ [] ∧ (encodeUtf8 torn.text).getLast? ≠ some 0x0a) := by
      rintro ⟨hne, hlast⟩
      rw [text, hnil, List.append_nil] at hne hlast
      by_cases hrecords : torn.records = []
      · rw [hrecords] at hne
        exact hne rfl
      · exact hlast (getLast_fileText hrecords)
    rw [if_neg hends, newline, if_pos hnil, List.nil_append]
  · obtain ⟨init, c, hc⟩ := (List.eq_nil_or_concat' torn.tail).resolve_left hnil
    have hmem : torn.last ∈ torn.records ++ [torn.last] :=
      List.mem_append_right _ (List.mem_singleton_self _)
    have hbreak := isLineBreak_tail (separated_of_asciiObj (h _ hmem)) c (by rw [hc]; simp)
    have hlow : c.toNat < 0x80 := ascii_text h c (by
      rw [text, hc]
      simp)
    have hbytes : encodeUtf8 torn.text =
        encodeUtf8 (fileText torn.records ++ init) ++ [UInt8.ofNat c.toNat] := by
      have hone : encodeUtf8 [c] = [UInt8.ofNat c.toNat] :=
        encodeUtf8_ascii (by
          intro d hd
          rw [List.mem_singleton.mp hd]
          exact hlow)
      rw [text, hc, ← List.append_assoc, encodeUtf8_append, hone]
    have hbyte : UInt8.ofNat c.toNat ≠ 0x0a := by
      intro hsame
      have hnat : (UInt8.ofNat c.toNat).toNat = (0x0a : UInt8).toNat := congrArg UInt8.toNat hsame
      rw [toNat_byte hlow] at hnat
      have hchar : c = '\n' := Char.toNat_inj.mp hnat
      rw [hchar] at hbreak
      cases hbreak
    have hends : encodeUtf8 torn.text ≠ [] ∧ (encodeUtf8 torn.text).getLast? ≠ some 0x0a := by
      rw [hbytes]
      refine ⟨by simp, ?_⟩
      rw [List.getLast?_concat]
      simpa using hbyte
    rw [if_pos hends, newline, if_neg hnil, List.singleton_append]
    show 0x0a :: encodeUtf8 (block lines) = encodeUtf8 (['\n'] ++ block lines)
    rw [encodeUtf8_append, encodeUtf8_singleton_newline]
    rfl

end Torn

end Sessions
end CodeCub
