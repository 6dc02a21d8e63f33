import CodeCub.Python.Json
import CodeCub.Python.Replace
import Mathlib.Data.Char
import Mathlib.Data.List.Lex
import Mathlib.Data.List.Sort

/-!
# Redacted artifacts

Three redactors write to the same traces and reports: `Pico`, the `LoopObserver` it makes
with its secret values, and the `LegacyContextAdapter`.  The texts they write never carry a
secret.  The keys of a dictionary are written as they are, and the three have name rules of
their own.  `redaction_holds_iff` says for which artifacts and environments neither matters.
-/

namespace CodeCub
namespace Agent
namespace Redaction

open Python

/-! ## Names -/

/-- `str.upper` character by character; what it gives is upper case. -/
structure UpperCasing where
  up : Char → Str
  up_up : ∀ c, ∀ d ∈ up c, up d = [d]

def UpperCasing.upper (casing : UpperCasing) (s : Str) : Str := s.flatMap casing.up

@[simp] theorem upper_upper (casing : UpperCasing) (s : Str) :
    casing.upper (casing.upper s) = casing.upper s := by
  have hfixed : ∀ t : Str, (∀ d ∈ t, casing.up d = [d]) → casing.upper t = t := by
    intro t
    induction t with
    | nil => intro _; rfl
    | cons d t ih =>
        intro h
        rw [UpperCasing.upper, List.flatMap_cons, h d (List.mem_cons_self ..)]
        exact congrArg (d :: ·) (ih fun e he => h e (List.mem_cons_of_mem _ he))
  apply hfixed
  intro d hd
  obtain ⟨c, -, hc⟩ := List.mem_flatMap.mp hd
  exact casing.up_up c d hc

/-- `SENSITIVE_ENV_NAME_MARKERS`. -/
def sensitiveEnvNameMarkers : List Str :=
  ["API_KEY".toList, "TOKEN".toList, "SECRET".toList, "PASSWORD".toList]

def redactedValue : Str := "<redacted>".toList

/-- The environment of the process, and the names that were configured as secret. -/
structure Process where
  casing : UpperCasing
  environ : List (Str × Str)
  configured : List Str := []

/-- `sorted(items, key=lambda item: item[0])`. -/
def byName (a b : Str × Str) : Prop := a.1 ≤ b.1

instance : DecidableRel byName := fun a b => inferInstanceAs (Decidable (a.1 ≤ b.1))

/-- `key=len, reverse=True`. -/
def longerFirst (a b : Str) : Prop := b.length ≤ a.length

instance : DecidableRel longerFirst := fun a b => inferInstanceAs (Decidable (b.length ≤ a.length))

namespace Process

variable (p : Process)

/-- `self.secret_env_names`. -/
def secretEnvNames : List Str := p.configured.map p.casing.upper

end Process

/-! ## Artifacts -/

inductive Artifact where
  | str (text : Str)
  | list (items : List Artifact)
  | tuple (items : List Artifact)
  | dict (entries : List (Str × Artifact))

mutual

/-- The strings anywhere in an artifact, keys included. -/
def Artifact.texts : Artifact → List Str
  | .str text => [text]
  | .list items => textsOfItems items
  | .tuple items => textsOfItems items
  | .dict entries => textsOfEntries entries

def textsOfItems : List Artifact → List Str
  | [] => []
  | item :: items => item.texts ++ textsOfItems items

def textsOfEntries : List (Str × Artifact) → List Str
  | [] => []
  | (key, value) :: entries => key :: (value.texts ++ textsOfEntries entries)

end

section Walk

variable (isSecret : Str → Bool)

/-- `key and is_secret(key)`. -/
def underSecret (key : Option Str) : Bool := key.any fun name => name ≠ [] && isSecret name

variable (redactText : Str → Str)

mutual

/-- The walk of the two artifact redactors. -/
def redactWith (key : Option Str) : Artifact → Artifact
  | .str text => if underSecret isSecret key then .str redactedValue else .str (redactText text)
  | .list items =>
      if underSecret isSecret key then .str redactedValue else .list (redactItems key items)
  | .tuple items =>
      if underSecret isSecret key then .str redactedValue else .list (redactItems key items)
  | .dict entries =>
      if underSecret isSecret key then .str redactedValue else .dict (redactEntries entries)

def redactItems (key : Option Str) : List Artifact → List Artifact
  | [] => []
  | item :: items => redactWith key item :: redactItems key items

def redactEntries : List (Str × Artifact) → List (Str × Artifact)
  | [] => []
  | (key, value) :: entries => (key, redactWith (some key) value) :: redactEntries entries

end

mutual

/-- The keys that the walk comes to: those not under a secret name. -/
def exposedKeys (key : Option Str) : Artifact → List Str
  | .str _ => []
  | .list items => if underSecret isSecret key then [] else exposedInItems key items
  | .tuple items => if underSecret isSecret key then [] else exposedInItems key items
  | .dict entries => if underSecret isSecret key then [] else exposedInEntries entries

def exposedInItems (key : Option Str) : List Artifact → List Str
  | [] => []
  | item :: items => exposedKeys key item ++ exposedInItems key items

def exposedInEntries : List (Str × Artifact) → List Str
  | [] => []
  | (key, value) :: entries => key :: (exposedKeys (some key) value ++ exposedInEntries entries)

end

end Walk

/-! ## The redactors -/

namespace Pico

variable (p : Process)

def looksSensitiveEnvName (name : Str) : Bool :=
  let upper := p.casing.upper name
  sensitiveEnvNameMarkers.any fun marker =>
    upper == marker || marker.isSuffixOf upper || ('_' :: marker).isSuffixOf upper

def isSecretEnvName (name : Str) : Bool :=
  let upper := p.casing.upper name
  upper ∈ p.secretEnvNames || looksSensitiveEnvName p upper

def detectedSecretEnvItems : List (Str × Str) :=
  (p.environ.filter fun item => isSecretEnvName p item.1 && item.2 ≠ []).insertionSort byName

def redactText (text : Str) : Str :=
  replaceAll redactedValue
    (((detectedSecretEnvItems p).map Prod.snd).insertionSort longerFirst) text

def redactArtifact (value : Artifact) : Artifact :=
  redactWith (isSecretEnvName p) (redactText p) none value

end Pico

namespace LoopObserver

variable (p : Process)

/-- The `secret_values` that `Pico` hands over, as the observer keeps them. -/
def secretValues : List Str :=
  (((Pico.detectedSecretEnvItems p).map Prod.snd).filter (· ≠ [])).insertionSort longerFirst

def isSensitiveKey (key : Str) : Bool :=
  let upper := p.casing.upper key
  sensitiveEnvNameMarkers.any fun marker =>
    upper == marker || marker.isSuffixOf upper || ('_' :: marker).isSuffixOf upper

def redactText (text : Str) : Str := replaceAll redactedValue (secretValues p) text

def redactArtifact (value : Artifact) : Artifact :=
  redactWith (isSensitiveKey p) (redactText p) none value

end LoopObserver

namespace LegacyContextAdapter

variable (p : Process)

/-- The test inside `redact_text`: the marker may stand anywhere in the name. -/
def isSecretEnvName (name : Str) : Bool :=
  let upper := p.casing.upper name
  upper ∈ p.secretEnvNames.map p.casing.upper ||
    sensitiveEnvNameMarkers.any fun marker => decide (marker <:+: upper)

def redactText (text : Str) : Str :=
  replaceAll redactedValue
    (((p.environ.filter fun item => isSecretEnvName p item.1 && item.2 ≠ []).map
      Prod.snd).insertionSort longerFirst) text

end LegacyContextAdapter

/-! ## The texts of a redacted artifact -/

section Walk

set_option linter.unusedSectionVars false

variable {isSecret : Str → Bool} {redactText : Str → Str} {P : Str → Prop}
  (hmark : P redactedValue) (htext : ∀ s, P (redactText s))

include hmark

theorem forall_texts_unless {key : Option Str} {a : Artifact} {names : List Str}
    (h : (∀ text ∈ a.texts, P text) ↔ ∀ name ∈ names, P name) :
    (∀ text ∈ (if underSecret isSecret key then Artifact.str redactedValue else a).texts, P text) ↔
      ∀ name ∈ (if underSecret isSecret key then [] else names), P name := by
  by_cases hunder : underSecret isSecret key = true
  · rw [if_pos hunder, if_pos hunder]
    exact iff_of_true (List.forall_mem_singleton.mpr hmark) (List.forall_mem_nil P)
  · rw [if_neg hunder, if_neg hunder]
    exact h

include htext

mutual

/-- A property of the marker and of every redacted text holds everywhere in the result as
soon as it holds of the exposed keys. -/
theorem forall_texts_redactWith (key : Option Str) : ∀ a : Artifact,
    (∀ text ∈ (redactWith isSecret redactText key a).texts, P text) ↔
      ∀ name ∈ exposedKeys isSecret key a, P name
  | .str s => by
      have hstr : (∀ text ∈ (Artifact.str (redactText s)).texts, P text) ↔
          ∀ name ∈ ([] : List Str), P name :=
        iff_of_true (List.forall_mem_singleton.mpr (htext s)) (List.forall_mem_nil P)
      rw [redactWith, exposedKeys, ← ite_self (c := underSecret isSecret key = true) ([] : List Str)]
      exact forall_texts_unless hmark hstr
  | .list items => forall_texts_unless hmark (forall_texts_redactItems key items)
  | .tuple items => forall_texts_unless hmark (forall_texts_redactItems key items)
  | .dict entries => forall_texts_unless hmark (forall_texts_redactEntries entries)

theorem forall_texts_redactItems (key : Option Str) : ∀ items : List Artifact,
    (∀ text ∈ textsOfItems (redactItems isSecret redactText key items), P text) ↔
      ∀ name ∈ exposedInItems isSecret key items, P name
  | [] => Iff.rfl
  | item :: items => by
      rw [redactItems, textsOfItems, exposedInItems, List.forall_mem_append,
        List.forall_mem_append, forall_texts_redactWith key item,
        forall_texts_redactItems key items]

theorem forall_texts_redactEntries : ∀ entries : List (Str × Artifact),
    (∀ text ∈ textsOfEntries (redactEntries isSecret redactText entries), P text) ↔
      ∀ name ∈ exposedInEntries isSecret entries, P name
  | [] => Iff.rfl
  | (key, value) :: entries => by
      rw [redactEntries, textsOfEntries, exposedInEntries, List.forall_mem_cons,
        List.forall_mem_cons, List.forall_mem_append, List.forall_mem_append,
        forall_texts_redactWith (some key) value, forall_texts_redactEntries entries]

end

end Walk

section Exposed

set_option linter.unusedSectionVars false

variable {isSecret stricter : Str → Bool} (h : ∀ name, isSecret name = true → stricter name = true)

include h

theorem unless_subset {key : Option Str} {names names' : List Str} (hsub : names ⊆ names') :
    (if underSecret stricter key then [] else names) ⊆
      if underSecret isSecret key then [] else names' := by
  by_cases hunder : underSecret isSecret key = true
  · have hstricter : underSecret stricter key = true := by
      cases key with
      | none => cases hunder
      | some name =>
          simp only [underSecret, Option.any_some, Bool.and_eq_true] at hunder ⊢
          exact ⟨hunder.1, h name hunder.2⟩
    rw [if_pos hunder, if_pos hstricter]
    exact List.Subset.refl _
  · rw [if_neg hunder]
    split
    · exact List.nil_subset _
    · exact hsub

mutual

/-- A rule that calls more names secret comes to fewer keys. -/
theorem exposedKeys_anti (key : Option Str) : ∀ a : Artifact,
    exposedKeys stricter key a ⊆ exposedKeys isSecret key a
  | .str _ => List.Subset.refl _
  | .list items => unless_subset h (exposedInItems_anti key items)
  | .tuple items => unless_subset h (exposedInItems_anti key items)
  | .dict entries => unless_subset h (exposedInEntries_anti entries)

theorem exposedInItems_anti (key : Option Str) : ∀ items : List Artifact,
    exposedInItems stricter key items ⊆ exposedInItems isSecret key items
  | [] => List.Subset.refl _
  | item :: items => by
      intro name hname
      rcases List.mem_append.mp hname with hname | hname
      · exact List.mem_append_left _ (exposedKeys_anti key item hname)
      · exact List.mem_append_right _ (exposedInItems_anti key items hname)

theorem exposedInEntries_anti : ∀ entries : List (Str × Artifact),
    exposedInEntries stricter entries ⊆ exposedInEntries isSecret entries
  | [] => List.Subset.refl _
  | (key, value) :: entries => by
      intro name hname
      rcases List.mem_cons.mp hname with rfl | hname
      · exact List.mem_cons_self ..
      apply List.mem_cons_of_mem
      rcases List.mem_append.mp hname with hname | hname
      · exact List.mem_append_left _ (exposedKeys_anti (some key) value hname)
      · exact List.mem_append_right _ (exposedInEntries_anti entries hname)

end

end Exposed

/-! ## What the redactors promise -/

section Promise

variable (p : Process)

def Process.secrets : List Str := (Pico.detectedSecretEnvItems p).map Prod.snd

/-- No string in the artifact contains a secret. -/
def CarriesNoSecret (artifact : Artifact) : Prop :=
  ∀ text ∈ artifact.texts, ∀ secret ∈ p.secrets, ¬ secret <:+: text

/-- The three rules agree on every variable of the environment. -/
def SameNames : Prop :=
  ∀ item ∈ p.environ, LoopObserver.isSensitiveKey p item.1 = Pico.isSecretEnvName p item.1 ∧
    LegacyContextAdapter.isSecretEnvName p item.1 = Pico.isSecretEnvName p item.1

/-- No key of the artifact contains a secret, except below a key that ends in a marker. -/
def KeysHoldNoSecret (artifact : Artifact) : Prop :=
  ∀ name ∈ exposedKeys (LoopObserver.isSensitiveKey p) none artifact,
    ∀ secret ∈ p.secrets, ¬ secret <:+: name

/-- A variable with a configured name, or a marker in its name, has one at the end of it. -/
def NamesEndInMarkers : Prop :=
  ∀ item ∈ p.environ,
    p.casing.upper item.1 ∈ p.secretEnvNames ∨
        (∃ marker ∈ sensitiveEnvNameMarkers, marker <:+: p.casing.upper item.1) →
      ∃ marker ∈ sensitiveEnvNameMarkers, marker <:+ p.casing.upper item.1

variable {p}

theorem isSensitiveKey_iff {name : Str} : LoopObserver.isSensitiveKey p name = true ↔
    ∃ marker ∈ sensitiveEnvNameMarkers, marker <:+ p.casing.upper name := by
  have hends : ∀ marker upper : Str, (upper == marker || marker.isSuffixOf upper ||
      ('_' :: marker).isSuffixOf upper) = true ↔ marker <:+ upper := by
    intro marker upper
    simp only [Bool.or_eq_true, beq_iff_eq, List.isSuffixOf_iff_suffix]
    constructor
    · rintro ((rfl | h) | h)
      · exact List.suffix_refl _
      · exact h
      · exact (List.suffix_cons _ _).trans h
    · exact fun h => .inl (.inr h)
  simp only [LoopObserver.isSensitiveKey, List.any_eq_true, hends]

theorem looksSensitiveEnvName_upper {name : Str} :
    Pico.looksSensitiveEnvName p (p.casing.upper name) = LoopObserver.isSensitiveKey p name := by
  simp only [Pico.looksSensitiveEnvName, LoopObserver.isSensitiveKey, upper_upper]

theorem pico_isSecretEnvName_iff {name : Str} : Pico.isSecretEnvName p name = true ↔
    p.casing.upper name ∈ p.secretEnvNames ∨ LoopObserver.isSensitiveKey p name = true := by
  simp only [Pico.isSecretEnvName, looksSensitiveEnvName_upper, Bool.or_eq_true, decide_eq_true_eq]

theorem adapter_isSecretEnvName_iff {name : Str} :
    LegacyContextAdapter.isSecretEnvName p name = true ↔
      p.casing.upper name ∈ p.secretEnvNames ∨
        ∃ marker ∈ sensitiveEnvNameMarkers, marker <:+: p.casing.upper name := by
  have hupper : p.secretEnvNames.map p.casing.upper = p.secretEnvNames := by
    simp [Process.secretEnvNames]
  simp only [LegacyContextAdapter.isSecretEnvName, hupper, Bool.or_eq_true, decide_eq_true_eq,
    List.any_eq_true]

theorem sameNames_iff : SameNames p ↔ NamesEndInMarkers p := by
  refine forall₂_congr fun item _ => ?_
  rw [Bool.eq_iff_iff, Bool.eq_iff_iff (a := LegacyContextAdapter.isSecretEnvName p item.1),
    pico_isSecretEnvName_iff, adapter_isSecretEnvName_iff, isSensitiveKey_iff]
  constructor
  · rintro ⟨hkey, hadapter⟩ h
    exact hkey.mpr (hadapter.mp h)
  · intro h
    have hinside : (∃ marker ∈ sensitiveEnvNameMarkers, marker <:+ p.casing.upper item.1) →
        ∃ marker ∈ sensitiveEnvNameMarkers, marker <:+: p.casing.upper item.1 :=
      fun ⟨marker, hmem, hends⟩ => ⟨marker, hmem, hends.isInfix⟩
    refine ⟨⟨.inr, ?_⟩, ⟨fun hname => .inr (h hname), ?_⟩⟩
    · rintro (hconfigured | hends)
      · exact h (.inl hconfigured)
      · exact hends
    · rintro (hconfigured | hends)
      · exact .inl hconfigured
      · exact .inr (hinside hends)

/-! ## Redacted texts -/

theorem secret_ne_nil {secret : Str} (h : secret ∈ p.secrets) : secret ≠ [] := by
  obtain ⟨item, hitem, rfl⟩ := List.mem_map.mp h
  have hdetected := (List.mem_insertionSort byName).mp hitem
  have hfilter := (List.mem_filter.mp hdetected).2
  simp only [Bool.and_eq_true, decide_eq_true_eq] at hfilter
  exact hfilter.2

variable (hmarker : ∀ secret ∈ p.secrets, ∀ c ∈ secret, c ∉ redactedValue)

include hmarker

theorem not_infix_redactedValue {secret : Str} (h : secret ∈ p.secrets) :
    ¬ secret <:+: redactedValue := by
  intro hinside
  obtain ⟨c, hc⟩ := List.exists_mem_of_ne_nil secret (secret_ne_nil h)
  exact hmarker secret h c hc (hinside.subset hc)

/-- Replacing the secrets in any order leaves none of them. -/
theorem not_infix_replaceSecrets {values : List Str} (hvalues : ∀ v, v ∈ values ↔ v ∈ p.secrets)
    (text : Str) {secret : Str} (h : secret ∈ p.secrets) :
    ¬ secret <:+: replaceAll redactedValue values text :=
  not_infix_replaceAll (fun pat hpat => secret_ne_nil ((hvalues pat).mp hpat)) (by decide)
    (fun pat hpat => hmarker pat ((hvalues pat).mp hpat)) ((hvalues secret).mpr h)

theorem pico_redactText_spotless (text : Str) :
    ∀ secret ∈ p.secrets, ¬ secret <:+: Pico.redactText p text := fun _ =>
  not_infix_replaceSecrets hmarker (fun _ => List.mem_insertionSort longerFirst) text

theorem observer_redactText_spotless (text : Str) :
    ∀ secret ∈ p.secrets, ¬ secret <:+: LoopObserver.redactText p text := by
  intro secret
  apply not_infix_replaceSecrets hmarker
  intro v
  rw [LoopObserver.secretValues, List.mem_insertionSort, List.mem_filter]
  constructor
  · exact fun h => h.1
  · exact fun h => ⟨h, by simpa using secret_ne_nil h⟩

/-- With secrets that share no character with the marker, both artifact redactors keep their
promise, and the three name rules agree, exactly when no exposed key contains a secret and
every secret name ends in a marker. -/
theorem redaction_holds_iff (artifact : Artifact) :
    (CarriesNoSecret p (Pico.redactArtifact p artifact) ∧
        CarriesNoSecret p (LoopObserver.redactArtifact p artifact) ∧ SameNames p) ↔
      KeysHoldNoSecret p artifact ∧ NamesEndInMarkers p := by
  have hmark : ∀ secret ∈ p.secrets, ¬ secret <:+: redactedValue := fun _ h =>
    not_infix_redactedValue hmarker h
  have hpico : CarriesNoSecret p (Pico.redactArtifact p artifact) ↔
      ∀ name ∈ exposedKeys (Pico.isSecretEnvName p) none artifact,
        ∀ secret ∈ p.secrets, ¬ secret <:+: name :=
    forall_texts_redactWith (P := fun text => ∀ secret ∈ p.secrets, ¬ secret <:+: text) hmark
      (pico_redactText_spotless hmarker) none artifact
  have hobserver : CarriesNoSecret p (LoopObserver.redactArtifact p artifact) ↔
      KeysHoldNoSecret p artifact :=
    forall_texts_redactWith (P := fun text => ∀ secret ∈ p.secrets, ¬ secret <:+: text) hmark
      (observer_redactText_spotless hmarker) none artifact
  have hfewer : exposedKeys (Pico.isSecretEnvName p) none artifact ⊆
      exposedKeys (LoopObserver.isSensitiveKey p) none artifact :=
    exposedKeys_anti (fun name h => pico_isSecretEnvName_iff.mpr (.inr h)) none artifact
  rw [← sameNames_iff]
  constructor
  · rintro ⟨-, hclean, hnames⟩
    exact ⟨hobserver.mp hclean, hnames⟩
  · rintro ⟨hkeys, hnames⟩
    exact ⟨hpico.mpr fun name hname => hkeys name (hfewer hname), hobserver.mpr hkeys, hnames⟩

end Promise

/-! ## A key and a name -/

theorem toUpper_toUpper (c : Char) : c.toUpper.toUpper = c.toUpper := by
  by_cases h : 'a'.val ≤ c.val ∧ c.val ≤ 'z'.val
  · have hval : c.toUpper.val = c.val + ('A'.val - 'a'.val) := by
      delta Char.toUpper
      rw [dif_pos h]
    have hupper : ¬ ('a'.val ≤ c.toUpper.val ∧ c.toUpper.val ≤ 'z'.val) := by
      rw [hval]
      simp only [UInt32.le_iff_toNat_le, UInt32.toNat_add] at h ⊢
      simp only [Char.reduceVal, UInt32.reduceToNat, UInt32.reduceSub] at h ⊢
      omega
    exact dif_neg hupper
  · have hsame : c.toUpper = c := dif_neg h
    rw [hsame, hsame]

def upperAscii : UpperCasing where
  up c := [c.toUpper]
  up_up c d hd := by rw [List.mem_singleton.mp hd, toUpper_toUpper]

def apiKeyProcess : Process where
  casing := upperAscii
  environ := [("API_KEY".toList, "sk-1".toList)]

def apiKeyArtifact : Artifact :=
  .dict [("api_key".toList, .str "sk-1".toList), ("args".toList, .tuple [.str "use sk-1".toList])]

theorem apiKey_redacted :
    CarriesNoSecret apiKeyProcess (Pico.redactArtifact apiKeyProcess apiKeyArtifact) ∧
      CarriesNoSecret apiKeyProcess (LoopObserver.redactArtifact apiKeyProcess apiKeyArtifact) ∧
      SameNames apiKeyProcess := by
  have hmarker : ∀ secret ∈ apiKeyProcess.secrets, ∀ c ∈ secret, c ∉ redactedValue := by decide
  have hkeys : KeysHoldNoSecret apiKeyProcess apiKeyArtifact := by
    unfold KeysHoldNoSecret
    decide
  have hnames : NamesEndInMarkers apiKeyProcess := by
    unfold NamesEndInMarkers
    decide
  exact (redaction_holds_iff hmarker apiKeyArtifact).mpr ⟨hkeys, hnames⟩

/-- A key that is the secret, and a name with its marker in front. -/
def tokenFileProcess : Process where
  casing := upperAscii
  environ := [("API_KEY".toList, "sk-1".toList), ("TOKEN_FILE".toList, "/v".toList)]

theorem secretKey_written :
    (∀ secret ∈ tokenFileProcess.secrets, ∀ c ∈ secret, c ∉ redactedValue) ∧
      ¬ CarriesNoSecret tokenFileProcess
        (Pico.redactArtifact tokenFileProcess (.dict [("sk-1".toList, .str [])])) ∧
      ¬ CarriesNoSecret tokenFileProcess
        (LoopObserver.redactArtifact tokenFileProcess (.dict [("sk-1".toList, .str [])])) ∧
      ¬ SameNames tokenFileProcess := by
  unfold CarriesNoSecret SameNames
  decide

end Redaction
end Agent
end CodeCub
