import CodeCub.Memory.Stores
import CodeCub.Python.Regex

/-!
# Candidates of the durable memory

`reject_candidate` of `codecub/memory_v2/extraction.py` with `contains_secret` of
`secrets.py`: what may become a durable record at all.
-/

namespace CodeCub
namespace Memory

open Python
open Regex (concat oneOf opt plus times atLeast space literal word classOf)

/-- What the Unicode tables decide: `str.lower`, `\w` and `\d`.  Lower-casing keeps white
space and makes none. -/
structure Unicode where
  lower : Str → Str
  isWord : Char → Bool
  isDigit : Char → Bool
  strip_lower : ∀ text, stripList isSpace (lower text) = lower (stripList isSpace text)

theorem stripList_map {α β : Type} {f : α → β} {p : β → Bool} {q : α → Bool}
    (h : ∀ a, p (f a) = q a) (l : List α) : stripList p (l.map f) = (stripList q l).map f := by
  have hpq : p ∘ f = q := funext h
  rw [stripList, stripList, List.dropWhile_map, hpq, List.rdropWhile, List.rdropWhile,
    ← List.map_reverse, List.dropWhile_map, hpq, List.map_reverse]

theorem toLower_cases (c : Char) :
    c.toLower = c ∨ 65 ≤ c.toNat ∧ c.toNat ≤ 90 ∧ c.toLower.toNat = c.toNat + 32 := by
  unfold Char.toLower
  split
  · next h =>
      have hlow : 65 ≤ c.toNat := UInt32.le_iff_toNat_le.mp h.1
      have hhigh : c.toNat ≤ 90 := UInt32.le_iff_toNat_le.mp h.2
      refine Or.inr ⟨hlow, hhigh, ?_⟩
      show (c.val + 32).toNat = c.toNat + 32
      rw [UInt32.toNat_add]
      show (c.toNat + 32) % 2 ^ 32 = c.toNat + 32
      omega
  · exact Or.inl rfl

theorem isSpace_toLower (c : Char) : isSpace c.toLower = isSpace c := by
  obtain h | ⟨hlow, hhigh, hnat⟩ := toLower_cases c
  · rw [h]
  · have hspace : ∀ d : Char, 65 ≤ d.toNat → d.toNat ≤ 122 → isSpace d = false := by
      intro d hd hd'
      rw [Bool.eq_false_iff]
      intro hspace
      simp only [isSpace, Bool.or_eq_true, Bool.and_eq_true, decide_eq_true_eq,
        beq_iff_eq] at hspace
      omega
    rw [hspace _ (by omega) (by omega), hspace _ hlow (by omega)]

/-- The tables of ASCII text. -/
def asciiTables : Unicode where
  lower := List.map Char.toLower
  isWord := fun c => c.isAlphanum || c = '_'
  isDigit := Char.isDigit
  strip_lower := stripList_map isSpace_toLower

namespace Unicode

variable (unicode : Unicode)

def edge : Regex := .edge unicode.isWord

def digit : Regex := .char unicode.isDigit

/-! ## Secrets -/

/-- `[_-]?`. -/
def joiner : Regex := opt (.char fun c => c = '_' ∨ c = '-')

def joined (first second : String) : Regex := concat [word first, joiner, word second]

def secretMarkerPattern : Regex :=
  concat [unicode.edge,
    oneOf (joined "api" "key")
      [word "authorization", word "bearer", word "password", word "passwd",
        joined "private" "token", joined "access" "token", joined "secret" "key",
        joined "client" "secret", joined "session" "token", joined "auth" "token"],
    unicode.edge]

def isAlnum (c : Char) : Bool := c.isLower || c.isUpper || c.isDigit

/-- `[A-Za-z0-9_-]`. -/
def isIdChar (c : Char) : Bool := isAlnum c || c = '_' || c = '-'

def secretShapedValuePattern : Regex :=
  concat [unicode.edge,
    oneOf (concat [word "sk-", atLeast (classOf isIdChar) 8])
      [concat [word "ghp_", atLeast (classOf isAlnum) 20],
        concat [word "xox", classOf fun c => c ∈ ['b', 'a', 'p', 'r', 's'], word "-",
          atLeast (classOf fun c => isAlnum c || c = '-') 10],
        concat [word "eyJ", atLeast (classOf isIdChar) 10, word ".",
          atLeast (classOf isIdChar) 10, word ".", atLeast (classOf isIdChar) 10],
        concat [word "AKIA", times (classOf isAlnum) 16],
        concat [atLeast (classOf fun c => isAlnum c || c = '+' || c = '/') 40, opt (word "="),
          opt (word "=")]],
    unicode.edge]

def secretAssignmentPattern : Regex :=
  concat [unicode.edge,
    oneOf (joined "api" "key")
      [word "token", word "secret", word "password", word "passwd", word "authorization",
        word "bearer"],
    .many space, .char fun c => c = ':' ∨ c = '=', .many space,
    plus (.char fun c => ¬ isSpace c ∧ c ≠ ',' ∧ c ≠ ';')]

def revealPattern : Regex :=
  concat [unicode.edge, oneOf (word "export") [word "set", word "echo", word "printf"],
    unicode.edge]

def defaultSecretWords : List Str :=
  ["api_key", "apikey", "authorization", "bearer", "client_secret", "passwd", "password",
    "private_token", "secret", "secret_key", "session_token", "token"].map String.toList

/-- `word in text`. -/
def occursIn (word text : Str) : Bool := text.tails.any fun rest => word.isPrefixOf rest

def containsSecret (value : Str) : Bool :=
  (secretMarkerPattern unicode).search value ||
    (secretShapedValuePattern unicode).search value ||
    (secretAssignmentPattern unicode).search value ||
    ((revealPattern unicode).search value &&
      defaultSecretWords.any fun word => occursIn word (unicode.lower value))

/-! ## Candidates -/

def transientPrefixes : List Str :=
  ["current goal", "current blocker", "next step", "current phase", "key files", "freshness",
    "当前目标", "当前卡点", "下一步", "当前阶段", "关键文件", "已完成", "已排除",
    "failed approach", "rejected", "working state"].map String.toList

def noisyOutputPattern : Regex :=
  concat [unicode.edge,
    oneOf (word "stdout")
      [word "stderr", word "traceback", word "exit_code", word "exit code"],
    unicode.edge]

def lineLevelPattern : Regex :=
  concat [unicode.edge, oneOf (word "line") [word "行"], .many space, plus unicode.digit]

def runIdLikePattern : Regex :=
  concat [unicode.edge,
    oneOf (literal "run_") [literal "task_", literal "ev_", literal "mem_", literal "ckpt_"],
    atLeast (.char isIdChar) 6, unicode.edge]

def temporaryPathPattern : Regex :=
  concat [unicode.edge,
    oneOf (word "temp")
      [word "tmp", word "TemporaryDirectory", word "/tmp/", word "Temp\\", word "tempfile"]]

end Unicode

def statementLimit : ℕ := 300

/-- A reference of a candidate: the kind of a dictionary that has one, and its `str()`. -/
structure SourceRef where
  isDict : Bool
  kind : Option Str
  text : Str
  deriving DecidableEq

structure MemoryCandidate (F : Type) where
  candidateType : Str
  statement : Str
  scope : Str
  sourceRefs : List SourceRef
  confidence : F
  reasonToRemember : Str
  freshnessDependency : Str
  sourceUserStatement : Str
  sourceEvidenceIds : List Str

namespace MemoryCandidate

variable {F : Type} (unicode : Unicode) (candidate : MemoryCandidate F)

/-- `TYPE_TO_TOPIC.get(self.candidate_type, "project-conventions")`. -/
def topic : Topic :=
  (([("test_command", Topic.buildAndTest), ("convention", .projectConventions),
    ("decision", .keyDecisions), ("dependency", .dependencyFacts),
    ("preference", .userPreferences), ("environment", .environmentConstraints),
    ("workflow", .validatedWorkflows), ("pitfall", .knownPitfalls)].find? fun entry =>
      entry.1.toList = candidate.candidateType).map Prod.snd).getD .projectConventions

def stripped : Str := stripList isSpace candidate.statement

/-- `reject_candidate`; the empty text accepts. -/
def rejection : String :=
  let statement := candidate.stripped
  if statement = [] then "empty"
  else if unicode.containsSecret statement then "secret"
  else if Unicode.transientPrefixes.any fun start => start.isPrefixOf (unicode.lower statement) then
    "transient_task_state"
  else if (unicode.noisyOutputPattern).search statement then "noisy_output"
  else if (unicode.lineLevelPattern).search statement then "line_level_transient"
  else if (unicode.runIdLikePattern).search statement then "run_id_or_temp_identity"
  else if (unicode.temporaryPathPattern).search statement then "temporary_path"
  else if statementLimit < statement.length then "oversized"
  else if statement.length < 8 then "too_short"
  else if candidate.candidateType ≠ "preference".toList ∧ candidate.sourceRefs = [] ∧
      candidate.sourceEvidenceIds = [] ∧ candidate.sourceUserStatement = [] ∧
      candidate.freshnessDependency = [] then
    "unverified_claim"
  else ""

end MemoryCandidate

end Memory
end CodeCub
