import CodeCub.Models.EventStream
import CodeCub.Sessions.Manager

/-!
# The history of a session

`Session.get_history` of `pico/session/manager.py`: the last messages that are not
consolidated, from the first user message of this window on.  A window without a user
message stays as it is.
-/

namespace CodeCub
namespace Sessions

open Python
open Models (truthy)
open scoped List

variable {F : Type}

/-! ## Messages -/

/-- `message.get("role") == name`. -/
def hasRole (name : String) (message : Obj F) : Bool :=
  match message.lookup "role".toList with
  | some (.str role) => role = name.toList
  | _ => false

/-- The calls of a message, which are a list of dictionaries. -/
def toolCalls (message : Obj F) : List (Obj F) :=
  match message.lookup "tool_calls".toList with
  | some (.arr calls) => calls.filterMap fun call =>
      match call with
      | .obj fields => some fields
      | _ => none
  | _ => []

section
variable [FiniteFloat F] (str : Json Str F → Str)

/-- `str(data[key])`, where the value counts as true. -/
def textOf (key : String) (data : Obj F) : Option Str :=
  ((data.lookup key.toList).filter truthy).map str

/-- The ids of the calls that an assistant message makes. -/
def callIds (message : Obj F) : List Str :=
  if hasRole "assistant" message then (toolCalls message).filterMap (textOf str "id") else []

/-- The id of the call that a tool message answers. -/
def resultId (message : Obj F) : Option Str :=
  if hasRole "tool" message then textOf str "tool_call_id" message else none

end

/-! ## The view -/

/-- `xs[start:]`. -/
def sliceFrom {α : Type} (start : ℤ) (xs : List α) : List α :=
  if start < 0 then xs.drop (xs.length + start).toNat else xs.drop start.toNat

/-- The window from its first user message on, if there is one. -/
def fromFirstUser (sliced : List (Obj F)) : List (Obj F) :=
  if sliced.any (hasRole "user") then sliced.dropWhile fun m => !hasRole "user" m else sliced

def providerKeys : List Str :=
  ["tool_calls", "tool_call_id", "name", "reasoning_content", "thinking_blocks"].map String.toList

/-- What a provider is given of a message.  A message without a role is a `KeyError`. -/
def historyEntry (message : Obj F) : Option (Obj F) :=
  (message.lookup "role".toList).map fun role =>
    [("role".toList, role), ("content".toList, (message.lookup "content".toList).getD (.str []))] ++
      providerKeys.filterMap fun key => (message.lookup key).map fun value => (key, value)

def Session.unconsolidated (session : Session F) : List (Obj F) :=
  session.messages.drop session.lastConsolidated

def Session.getHistory (session : Session F) (maxMessages : ℤ) : Option (List (Obj F)) :=
  (fromFirstUser (sliceFrom (-maxMessages) session.unconsolidated)).mapM historyEntry

/-! ## What is asked of it -/

section
variable [FiniteFloat F] (str : Json Str F → Str)

/-- An assistant message carries the id of the call that the tool message answers. -/
def Carries (assistant tool : Obj F) : Prop :=
  ∃ id, resultId str tool = some id ∧ id ∈ callIds str assistant

/-- Every tool message comes after an assistant message that carries its call id. -/
def Answered (messages : List (Obj F)) : Prop :=
  ∀ (j : ℕ) (tool : Obj F), messages[j]? = some tool → hasRole "tool" tool = true →
    ∃ i < j, ∃ assistant, messages[i]? = some assistant ∧ Carries str assistant tool

/-- A turn begins with its only user message, and its tool messages answer calls of the
turn. -/
structure WellFormedTurn (turn : List (Obj F)) : Prop where
  user : ∃ first rest, turn = first :: rest ∧ hasRole "user" first = true ∧
    ∀ message ∈ rest, hasRole "user" message = false
  roles : ∀ message ∈ turn, (message.lookup "role".toList).isSome
  answered : Answered str turn

/-- A session of well-formed turns, consolidated up to the end of one of them. -/
structure BuiltFrom (session : Session F) (turns : List (List (Obj F))) : Prop where
  messages : session.messages = turns.flatten
  wellFormed : ∀ turn ∈ turns, WellFormedTurn str turn
  boundary : ∃ k, session.lastConsolidated = (turns.take k).flatten.length

/-- No orphan tool result, and nothing but the last unconsolidated messages. -/
structure SoundHistory (session : Session F) (maxMessages : ℤ) (history : List (Obj F)) :
    Prop where
  answered : Answered str history
  suffix : ∃ tail, tail <:+ session.unconsolidated ∧ tail.mapM historyEntry = some history
  bounded : (history.length : ℤ) ≤ maxMessages

/-- The cut at a place parts a tool message from every assistant message before it that
carries its call id. -/
def PartsResult (messages : List (Obj F)) (cut : ℕ) : Prop :=
  ∃ (j : ℕ) (tool : Obj F), cut ≤ j ∧ messages[j]? = some tool ∧ hasRole "tool" tool = true ∧
    ∀ i < j, ∀ assistant, messages[i]? = some assistant → Carries str assistant tool → i < cut

end

/-! ## The entries -/

theorem lookup_filterMap_lookup {V : Type} (message : List (Str × V)) (keys : List Str)
    (key : Str) :
    (keys.filterMap fun k => (message.lookup k).map fun value => (k, value)).lookup key =
      if key ∈ keys then message.lookup key else none := by
  induction keys with
  | nil => rfl
  | cons k keys ih =>
      by_cases hkey : key = k
      · subst hkey
        rw [if_pos List.mem_cons_self]
        cases hvalue : message.lookup key with
        | none =>
            rw [List.filterMap_cons_none (by rw [hvalue]; rfl), ih]
            simp [hvalue]
        | some value =>
            rw [List.filterMap_cons_some (b := (key, value)) (by rw [hvalue]; rfl),
              List.lookup_cons, beq_self_eq_true]
      · have hmem : (key ∈ k :: keys) = (key ∈ keys) := by simp [hkey]
        simp only [hmem]
        cases hvalue : message.lookup k with
        | none => rw [List.filterMap_cons_none (by rw [hvalue]; rfl), ih]
        | some value =>
            rw [List.filterMap_cons_some (b := (k, value)) (by rw [hvalue]; rfl),
              List.lookup_cons, beq_false_of_ne hkey, ih]

section
variable {message entry : Obj F} (h : historyEntry message = some entry)
include h

theorem lookup_historyEntry {key : Str} (hkey : key ∈ "role".toList :: providerKeys) :
    entry.lookup key = message.lookup key := by
  obtain ⟨role, hrole, rfl⟩ := Option.map_eq_some_iff.mp h
  by_cases hfirst : key = "role".toList
  · subst hfirst
    rw [hrole]
    rfl
  · have hprovider : key ∈ providerKeys := (List.mem_cons.mp hkey).resolve_left hfirst
    have hcontent : key ≠ "content".toList := by
      rintro rfl
      exact absurd hprovider (by decide)
    rw [List.cons_append, List.lookup_cons, beq_false_of_ne hfirst, List.singleton_append,
      List.lookup_cons, beq_false_of_ne hcontent]
    exact (lookup_filterMap_lookup message providerKeys key).trans (if_pos hprovider)

theorem hasRole_historyEntry (name : String) : hasRole name entry = hasRole name message := by
  rw [hasRole, hasRole, lookup_historyEntry h (by decide)]

theorem callIds_historyEntry [FiniteFloat F] (str : Json Str F → Str) :
    callIds str entry = callIds str message := by
  rw [callIds, callIds, hasRole_historyEntry h, toolCalls, toolCalls,
    lookup_historyEntry h (by decide)]

theorem resultId_historyEntry [FiniteFloat F] (str : Json Str F → Str) :
    resultId str entry = resultId str message := by
  rw [resultId, resultId, hasRole_historyEntry h, textOf, textOf,
    lookup_historyEntry h (by decide)]

end

theorem mapM_getElem? {A B : Type} {f : A → Option B} {l : List A} {l' : List B}
    (h : l.mapM f = some l') :
    ∀ (j : ℕ) (b : B), l'[j]? = some b ↔ ∃ a, l[j]? = some a ∧ f a = some b := by
  induction l generalizing l' with
  | nil =>
      rw [List.mapM_nil] at h
      obtain rfl := Option.some.inj h
      simp
  | cons a l ih =>
      rw [List.mapM_cons] at h
      obtain ⟨b, hb, h⟩ := Option.bind_eq_some_iff.mp h
      obtain ⟨rest, hrest, h⟩ := Option.bind_eq_some_iff.mp h
      obtain rfl := Option.some.inj h
      intro j c
      cases j with
      | zero =>
          simp [hb]
      | succ j => simpa using ih hrest j c

theorem exists_of_mapM {A B : Type} {f : A → Option B} {l : List A} {l' : List B}
    (h : l.mapM f = some l') {j : ℕ} {a : A} (ha : l[j]? = some a) : ∃ b, f a = some b := by
  induction l generalizing l' j with
  | nil => simp at ha
  | cons first l ih =>
      rw [List.mapM_cons] at h
      obtain ⟨b, hb, h⟩ := Option.bind_eq_some_iff.mp h
      obtain ⟨rest, hrest, -⟩ := Option.bind_eq_some_iff.mp h
      cases j with
      | zero =>
          obtain rfl := Option.some.inj ha
          exact ⟨b, hb⟩
      | succ j => exact ih hrest ha

theorem exists_mapM_historyEntry {tail : List (Obj F)}
    (hroles : ∀ message ∈ tail, (message.lookup "role".toList).isSome) :
    ∃ history, tail.mapM historyEntry = some history ∧ history.length = tail.length := by
  induction tail with
  | nil => exact ⟨[], rfl, rfl⟩
  | cons message tail ih =>
      obtain ⟨history, hhistory, hlength⟩ := ih fun m hm => hroles m (List.mem_cons_of_mem _ hm)
      obtain ⟨role, hrole⟩ := Option.isSome_iff_exists.mp (hroles message List.mem_cons_self)
      have hentry : (historyEntry message).isSome := by rw [historyEntry, hrole]; rfl
      obtain ⟨entry, hentry⟩ := Option.isSome_iff_exists.mp hentry
      refine ⟨entry :: history, ?_, by rw [List.length_cons, List.length_cons, hlength]⟩
      rw [List.mapM_cons, hentry, hhistory]
      rfl

section
variable [FiniteFloat F] {str : Json Str F → Str}

/-- The view has an orphan exactly when its messages have. -/
theorem answered_history_iff {tail history : List (Obj F)}
    (h : tail.mapM historyEntry = some history) : Answered str history ↔ Answered str tail := by
  have hplaces := mapM_getElem? h
  have hcarries : ∀ {a t a' t' : Obj F}, historyEntry a = some a' → historyEntry t = some t' →
      (Carries str a' t' ↔ Carries str a t) := by
    intro a t a' t' ha ht
    rw [Carries, Carries, resultId_historyEntry ht, callIds_historyEntry ha]
  constructor
  · intro hall j tool hj hrole
    obtain ⟨e, he⟩ := exists_of_mapM h hj
    obtain ⟨i, hi, e', he', hcarry⟩ := hall j e ((hplaces j e).mpr ⟨tool, hj, he⟩)
      (by rw [hasRole_historyEntry he]; exact hrole)
    obtain ⟨a, ha, hae⟩ := (hplaces i e').mp he'
    exact ⟨i, hi, a, ha, (hcarries hae he).mp hcarry⟩
  · intro hall j e hj hrole
    obtain ⟨tool, htool, he⟩ := (hplaces j e).mp hj
    rw [hasRole_historyEntry he] at hrole
    obtain ⟨i, hi, a, ha, hcarry⟩ := hall j tool htool hrole
    obtain ⟨e', he'⟩ := exists_of_mapM h ha
    exact ⟨i, hi, e', (hplaces i e').mpr ⟨a, ha, he'⟩, (hcarries he' he).mpr hcarry⟩

/-! ## Turns -/

omit [FiniteFloat F] in
theorem getElem?_append_iff {A : Type} {l l' : List A} {j : ℕ} {a : A} :
    (l ++ l')[j]? = some a ↔ l[j]? = some a ∨ l.length ≤ j ∧ l'[j - l.length]? = some a := by
  by_cases hj : j < l.length
  · rw [List.getElem?_append_left hj]
    constructor
    · exact Or.inl
    · rintro (h | ⟨hle, _⟩)
      · exact h
      · omega
  · have hnone : l[j]? = none := List.getElem?_eq_none (by omega)
    rw [List.getElem?_append_right (by omega), hnone]
    constructor
    · exact fun h => Or.inr ⟨by omega, h⟩
    · rintro (h | ⟨_, h⟩)
      · cases h
      · exact h

theorem answered_append {l l' : List (Obj F)} (h : Answered str l) (h' : Answered str l') :
    Answered str (l ++ l') := by
  intro j tool hj hrole
  rcases getElem?_append_iff.mp hj with hj | ⟨hle, hj⟩
  · obtain ⟨i, hi, a, ha, hcarry⟩ := h j tool hj hrole
    exact ⟨i, hi, a, getElem?_append_iff.mpr (Or.inl ha), hcarry⟩
  · obtain ⟨i, hi, a, ha, hcarry⟩ := h' (j - l.length) tool hj hrole
    refine ⟨l.length + i, by omega, a, getElem?_append_iff.mpr (Or.inr ⟨by omega, ?_⟩), hcarry⟩
    rw [Nat.add_sub_cancel_left]
    exact ha

theorem answered_flatten {turns : List (List (Obj F))}
    (h : ∀ turn ∈ turns, WellFormedTurn str turn) : Answered str turns.flatten := by
  induction turns with
  | nil =>
      intro j tool hj
      simp at hj
  | cons turn turns ih =>
      rw [List.flatten_cons]
      exact answered_append (h turn List.mem_cons_self).answered
        (ih fun t ht => h t (List.mem_cons_of_mem _ ht))

/-- What begins with a user message and runs to the end consists of whole turns. -/
theorem answered_of_user {turns : List (List (Obj F))}
    (h : ∀ turn ∈ turns, WellFormedTurn str turn) {tail : List (Obj F)}
    (htail : tail <:+ turns.flatten) {first : Obj F} (hfirst : tail.head? = some first)
    (huser : hasRole "user" first = true) : Answered str tail := by
  induction turns with
  | nil =>
      rw [List.flatten_nil, List.suffix_nil] at htail
      rw [htail] at hfirst
      cases hfirst
  | cons turn turns ih =>
      have hturns : ∀ t ∈ turns, WellFormedTurn str t := fun t ht => h t (List.mem_cons_of_mem _ ht)
      obtain ⟨front, hsplit⟩ := htail
      rw [List.flatten_cons] at hsplit
      rcases List.append_eq_append_iff.mp hsplit with ⟨part, hturn, rfl⟩ | ⟨rest, _, hrest⟩
      · cases part with
        | nil => exact ih hturns List.suffix_rfl
        | cons m part =>
            obtain rfl := Option.some.inj hfirst
            obtain ⟨user, others, hshape, _, hothers⟩ := (h turn List.mem_cons_self).user
            cases front with
            | nil =>
                rw [List.nil_append] at hturn
                rw [← hturn]
                exact answered_append (h turn List.mem_cons_self).answered
                  (answered_flatten hturns)
            | cons f front =>
                -- a user message behind the first message of a turn
                rw [hturn, List.cons_append] at hshape
                have hmem : m ∈ others := by
                  rw [← (List.cons.inj hshape).2]
                  exact List.mem_append_right _ List.mem_cons_self
                rw [hothers m hmem] at huser
                cases huser
      · exact ih hturns ⟨rest, hrest.symm⟩

/-! ## The window -/

omit [FiniteFloat F] in
theorem sliceFrom_last {A : Type} {maxMessages : ℤ} (hmax : 1 ≤ maxMessages) (xs : List A) :
    sliceFrom (-maxMessages) xs = xs.drop (xs.length - maxMessages.toNat) := by
  have hstart : ((xs.length : ℤ) + -maxMessages).toNat = xs.length - maxMessages.toNat := by omega
  rw [sliceFrom, if_pos (by omega), hstart]

omit [FiniteFloat F] in
theorem fromFirstUser_suffix (sliced : List (Obj F)) : fromFirstUser sliced <:+ sliced := by
  rw [fromFirstUser]
  split
  · exact List.dropWhile_suffix _
  · exact List.suffix_rfl

omit [FiniteFloat F] in
/-- With a user message in the window the view begins with one. -/
theorem head?_fromFirstUser {sliced : List (Obj F)} (huser : sliced.any (hasRole "user") = true) :
    ∃ first, (fromFirstUser sliced).head? = some first ∧ hasRole "user" first = true := by
  rw [fromFirstUser, if_pos huser]
  obtain ⟨m, hm, hrole⟩ := List.any_eq_true.mp huser
  cases hview : sliced.dropWhile fun m => !hasRole "user" m with
  | nil =>
      have hnone := List.dropWhile_eq_nil_iff.mp hview m hm
      rw [hrole] at hnone
      cases hnone
  | cons first rest =>
      refine ⟨first, rfl, ?_⟩
      have hhead := List.head?_dropWhile_not (fun m : Obj F => !hasRole "user" m) sliced
      rw [hview] at hhead
      simpa using hhead

/-- A window without a user message has an orphan exactly when its cut parts one from its
call. -/
theorem answered_drop_iff {messages : List (Obj F)} {cut : ℕ} :
    Answered str (messages.drop cut) ↔ ¬ PartsResult str messages cut := by
  constructor
  · rintro hall ⟨j, tool, hcut, hj, hrole, hparts⟩
    obtain ⟨i, hi, a, ha, hcarry⟩ := hall (j - cut) tool
      (by rw [List.getElem?_drop, Nat.add_sub_cancel' hcut]; exact hj) hrole
    rw [List.getElem?_drop] at ha
    have hlt := hparts (cut + i) (by omega) a ha hcarry
    omega
  · intro hno j tool hj hrole
    rw [List.getElem?_drop] at hj
    by_contra hnone
    refine hno ⟨cut + j, tool, by omega, hj, hrole, fun i hi a ha hcarry => ?_⟩
    by_contra hle
    refine hnone ⟨i - cut, by omega, a, ?_, hcarry⟩
    rw [List.getElem?_drop, Nat.add_sub_cancel' (by omega)]
    exact ha

/-- The messages behind a boundary are whole turns. -/
theorem unconsolidated_eq {session : Session F} {turns : List (List (Obj F))}
    (hbuilt : BuiltFrom str session turns) :
    ∃ k, session.unconsolidated = (turns.drop k).flatten := by
  obtain ⟨k, hk⟩ := hbuilt.boundary
  refine ⟨k, ?_⟩
  have hparts : turns.flatten = (turns.take k).flatten ++ (turns.drop k).flatten := by
    rw [← List.flatten_append, List.take_append_drop]
  rw [Session.unconsolidated, hbuilt.messages, hk, hparts, List.drop_left]

/-- The view of a session of turns is there, and sound as soon as no result is orphaned. -/
theorem sound_iff_answered {session : Session F} {turns : List (List (Obj F))}
    {maxMessages : ℤ} (hbuilt : BuiltFrom str session turns) (hmax : 1 ≤ maxMessages) :
    (∃ history, session.getHistory maxMessages = some history ∧
      SoundHistory str session maxMessages history) ↔
      Answered str (fromFirstUser (session.unconsolidated.drop
        (session.unconsolidated.length - maxMessages.toNat))) := by
  obtain ⟨k, hk⟩ := unconsolidated_eq hbuilt
  rw [Session.getHistory, sliceFrom_last hmax]
  set window := session.unconsolidated.drop
    (session.unconsolidated.length - maxMessages.toNat) with hwindow
  have hsuffix : fromFirstUser window <:+ session.unconsolidated :=
    (fromFirstUser_suffix window).trans (List.drop_suffix _ _)
  have hroles : ∀ m ∈ fromFirstUser window, (m.lookup "role".toList).isSome := by
    intro m hm
    have hmem := hsuffix.subset hm
    rw [hk] at hmem
    obtain ⟨turn, hturn, hm⟩ := List.mem_flatten.mp hmem
    exact (hbuilt.wellFormed turn (List.mem_of_mem_drop hturn)).roles m hm
  obtain ⟨history, hhistory, hlength⟩ := exists_mapM_historyEntry hroles
  have hanswered : Answered str history ↔ Answered str (fromFirstUser window) :=
    answered_history_iff hhistory
  constructor
  · rintro ⟨history', hhistory', hsound⟩
    rw [hhistory] at hhistory'
    obtain rfl := Option.some.inj hhistory'
    exact hanswered.mp hsound.answered
  · intro hall
    refine ⟨history, hhistory, hanswered.mpr hall, ⟨_, hsuffix, hhistory⟩, ?_⟩
    have hle := (fromFirstUser_suffix window).length_le
    have hbound : window.length ≤ maxMessages.toNat := by
      rw [hwindow, List.length_drop]
      omega
    omega

/-- The history is sound if and only if the window has a user message, or its cut parts no
tool message from its call. -/
theorem getHistory_sound_iff (str : Json Str F → Str) (session : Session F)
    (turns : List (List (Obj F))) (maxMessages : ℤ) (hbuilt : BuiltFrom str session turns)
    (hmax : 1 ≤ maxMessages) :
    (∃ history, session.getHistory maxMessages = some history ∧
      SoundHistory str session maxMessages history) ↔
      (∃ message ∈ session.unconsolidated.drop
          (session.unconsolidated.length - maxMessages.toNat), hasRole "user" message = true) ∨
        ¬ PartsResult str session.unconsolidated
          (session.unconsolidated.length - maxMessages.toNat) := by
  obtain ⟨k, hk⟩ := unconsolidated_eq hbuilt
  rw [sound_iff_answered hbuilt hmax, ← answered_drop_iff, ← List.any_eq_true]
  set window := session.unconsolidated.drop
    (session.unconsolidated.length - maxMessages.toNat) with hwindow
  by_cases huser : window.any (hasRole "user") = true
  · obtain ⟨first, hfirst, hrole⟩ := head?_fromFirstUser huser
    have hsuffix : fromFirstUser window <:+ (turns.drop k).flatten := by
      rw [← hk]
      exact (fromFirstUser_suffix window).trans (List.drop_suffix _ _)
    have hanswered := answered_of_user (fun turn hturn =>
      hbuilt.wellFormed turn (List.mem_of_mem_drop hturn)) hsuffix hfirst hrole
    simp only [huser, true_or, iff_true]
    exact hanswered
  · have hview : fromFirstUser window = window := by rw [fromFirstUser, if_neg huser]
    rw [hview]
    simp [huser]

end

/-! One turn: a question, a call and its result. -/

def jsonText : Json Str Empty → Str
  | .str s => s
  | _ => []

def question : Obj Empty :=
  [("role".toList, .str "user".toList), ("content".toList, .str "What is the time?".toList)]

def clockCall : Obj Empty :=
  [("role".toList, .str "assistant".toList), ("content".toList, .str []),
    ("tool_calls".toList, .arr [.obj [("id".toList, .str "call_1".toList)]])]

def clockResult : Obj Empty :=
  [("role".toList, .str "tool".toList), ("content".toList, .str "12:00".toList),
    ("tool_call_id".toList, .str "call_1".toList)]

def noon : DateTime where
  year := 2026
  month := 1
  day := 1
  hour := 12
  minute := 0
  second := 0
  microsecond := 0
  valid := by decide

def clockSession : Session Empty where
  messages := [question, clockCall, clockResult]
  key := "cli:1".toList
  createdAt := noon
  updatedAt := noon

theorem clockTurn_wellFormed : WellFormedTurn jsonText [question, clockCall, clockResult] where
  user := ⟨question, _, rfl, rfl, by decide⟩
  roles := by decide
  answered := by
    intro j tool hj hrole
    rcases j with _ | _ | _ | j
    · obtain rfl := Option.some.inj hj
      cases hrole
    · obtain rfl := Option.some.inj hj
      cases hrole
    · obtain rfl := Option.some.inj hj
      exact ⟨1, by omega, clockCall, rfl, "call_1".toList, rfl, by decide⟩
    · cases hj

theorem clockSession_built : BuiltFrom jsonText clockSession [[question, clockCall, clockResult]]
    where
  messages := rfl
  wellFormed := fun _ hturn => List.mem_singleton.mp hturn ▸ clockTurn_wellFormed
  boundary := ⟨0, rfl⟩

theorem getHistory_sound_whole :
    ∃ history, clockSession.getHistory 3 = some history ∧
      SoundHistory jsonText clockSession 3 history :=
  (getHistory_sound_iff jsonText clockSession _ 3 clockSession_built (by decide)).mpr
    (Or.inl ⟨question, List.mem_cons_self, rfl⟩)

/-- The last message alone is a result without its call. -/
theorem getHistory_orphans_result :
    ¬ ∀ (session : Session Empty) (turns : List (List (Obj Empty))) (maxMessages : ℤ),
      BuiltFrom jsonText session turns → 1 ≤ maxMessages →
        ∃ history, session.getHistory maxMessages = some history ∧
          SoundHistory jsonText session maxMessages history := by
  intro hclaim
  obtain ⟨history, hhistory, hsound⟩ := hclaim clockSession _ 1 clockSession_built (by decide)
  have hview : clockSession.getHistory 1 = (historyEntry clockResult).map ([·]) := by rfl
  rw [hview] at hhistory
  obtain ⟨entry, hentry, rfl⟩ := Option.map_eq_some_iff.mp hhistory
  obtain ⟨i, hi, _⟩ := hsound.answered 0 entry rfl (by rw [hasRole_historyEntry hentry]; rfl)
  omega

end Sessions
end CodeCub
