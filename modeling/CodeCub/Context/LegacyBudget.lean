import Mathlib.Data.Finmap
import CodeCub.Native.Compiler

/-!
# The final bound of the legacy pipeline

`compile_text` renders its layers into one prompt and hands it to
`_enforce_legacy_budget`, which drains the mutable layers one after the other until the
prompt fits, and drops pinned extras last.  The pinned segments that are required stay,
whatever the token counter says.
-/

namespace CodeCub
namespace Context

open Python Native

variable {V : Type}

/-! ## Layers -/

/-- One auditable unit of context; `V` are the values of its provenance. -/
structure ContextItem (V : Type) where
  key : String
  kind : String
  text : String
  provenance : Finmap fun _ : String => V := ∅
  freshnessHash : String := ""
  deriving DecidableEq

structure Layers (V : Type) where
  pinned : List (ContextItem V)
  workingState : WorkingState
  recentItems : List (ContextItem V)
  rawEvidenceItems : List (ContextItem V)
  compressedHistoryItems : List (ContextItem V)
  repoMapItems : List (ContextItem V)
  memoryLayer : Option String

structure CompiledContext (V : Type) where
  text : String
  pinned : List (ContextItem V)
  workingState : WorkingState
  recentItems : List (ContextItem V)
  rawEvidenceItems : List (ContextItem V)
  compressedHistoryItems : List (ContextItem V)
  repoMapItems : List (ContextItem V)
  deriving DecidableEq

/-- `separator.join(item.text for item in items)`. -/
def joinTexts (separator : String) (items : List (ContextItem V)) : String :=
  separator.intercalate (items.map ContextItem.text)

def renderPinned (pinned : List (ContextItem V)) : String := joinTexts "\n" pinned

def renderCompressedItems (items : List (ContextItem V)) : String := joinTexts "\n\n" items

namespace Layers

def memoryText (layers : Layers V) : String := strip (layers.memoryLayer.getD "")

/-- The parts of the prompt; an empty layer has none. -/
def parts (layers : Layers V) : List String :=
  (if renderPinned layers.pinned = "" then [] else [renderPinned layers.pinned]) ++
  (if strip layers.workingState.toText = "" then [] else [layers.workingState.toText]) ++
  (if layers.memoryText = "" then [] else [layers.memoryText]) ++
  (if layers.compressedHistoryItems = [] then []
    else [renderCompressedItems layers.compressedHistoryItems]) ++
  (if layers.rawEvidenceItems = [] then []
    else ["High-value raw evidence:\n" ++ joinTexts "\n\n" layers.rawEvidenceItems]) ++
  (if layers.repoMapItems = [] then []
    else ["Repository map:\n" ++ joinTexts "\n" layers.repoMapItems]) ++
  (if layers.recentItems = [] then []
    else ["Transcript:\n" ++ joinTexts "\n\n" layers.recentItems])

/-- `_assemble`. -/
def assemble (layers : Layers V) : CompiledContext V where
  text := strip ("\n\n".intercalate layers.parts)
  pinned := layers.pinned
  workingState := layers.workingState
  recentItems := layers.recentItems
  rawEvidenceItems := layers.rawEvidenceItems
  compressedHistoryItems := layers.compressedHistoryItems
  repoMapItems := layers.repoMapItems

/-- Nothing but these pinned items and the working state. -/
def base (layers : Layers V) (pinned : List (ContextItem V)) : Layers V where
  pinned := pinned
  workingState := layers.workingState
  recentItems := []
  rawEvidenceItems := []
  compressedHistoryItems := []
  repoMapItems := []
  memoryLayer := some ""

end Layers

/-! ## Enforcing the bound -/

/-- The fields of the budget that the bound reads. -/
structure LegacyBudget where
  usableInputBudget : Int
  budgetSource : String := "configured"

def startsWith (text start : String) : Bool := start.toList.isPrefixOf text.toList

section Enforcement

variable (truthy : V → Bool)

/-- The task, the runtime constraints, the instructions and what is marked protected. -/
def isRequiredPinned (item : ContextItem V) : Bool :=
  item.key = pinnedUserTask || startsWith item.key "pinned:runtime-constraints" ||
    (startsWith item.key "instruction:" && !startsWith item.key "instruction:legacy:") ||
    (item.provenance.lookup "protected").any truthy

/-- The layers while they are drained, with the context last compiled from them. -/
structure Enforcement (V : Type) where
  layers : Layers V
  compiled : CompiledContext V
  enforced : Bool := false

namespace Enforcement

/-- Render again after a removal. -/
def rebuild (layers : Layers V) : Enforcement V where
  layers := layers
  compiled := layers.assemble
  enforced := true

variable (fits : CompiledContext V → Bool)

/-- `while not fits and items: items.pop(0); rebuild`, over the layer that `put` writes. -/
def drain (put : List (ContextItem V) → Layers V → Layers V) :
    List (ContextItem V) → Enforcement V → Enforcement V
  | [], s => s
  | _ :: rest, s => if fits s.compiled then s else drain put rest (rebuild (put rest s.layers))

def putRawEvidence (items : List (ContextItem V)) (layers : Layers V) : Layers V :=
  { layers with rawEvidenceItems := items }

def putRecent (items : List (ContextItem V)) (layers : Layers V) : Layers V :=
  { layers with recentItems := items }

def putRepoMap (items : List (ContextItem V)) (layers : Layers V) : Layers V :=
  { layers with repoMapItems := items }

def drainRawEvidence (s : Enforcement V) : Enforcement V :=
  drain fits putRawEvidence s.layers.rawEvidenceItems s

def drainRecent (s : Enforcement V) : Enforcement V :=
  drain fits putRecent s.layers.recentItems s

def drainRepoMap (s : Enforcement V) : Enforcement V :=
  drain fits putRepoMap s.layers.repoMapItems s

def clearCompressedHistory (s : Enforcement V) : Enforcement V :=
  if !fits s.compiled ∧ s.layers.compressedHistoryItems ≠ [] then
    rebuild { s.layers with compressedHistoryItems := [] }
  else s

def clearMemory (s : Enforcement V) : Enforcement V :=
  if !fits s.compiled ∧ s.layers.memoryText ≠ "" then
    rebuild { s.layers with memoryLayer := some "" }
  else s

variable [DecidableEq V]

/-- `for item in reversed(pinned)`, whose iterator counts an index down while the body
removes items from the list. -/
def dropExtras : Nat → Enforcement V → Enforcement V
  | 0, s => s
  | index + 1, s =>
      match s.layers.pinned[index]? with
      | none => s
      | some item =>
          if fits s.compiled then s
          else if isRequiredPinned truthy item then dropExtras index s
          else dropExtras index (rebuild { s.layers with pinned := s.layers.pinned.erase item })

/-- The phases in their order: what is cheapest to lose goes first. -/
def trim (s : Enforcement V) : Enforcement V :=
  let drained := (((s.drainRawEvidence fits).drainRecent fits).drainRepoMap fits)
  let cleared := (drained.clearCompressedHistory fits).clearMemory fits
  cleared.dropExtras truthy fits cleared.layers.pinned.length

end Enforcement

variable [DecidableEq V]

/-- `_enforce_legacy_budget`, with the memory layer that is left and whether anything
was removed. -/
def enforceLegacyBudget (count : String → Int) (budget : LegacyBudget) (layers : Layers V)
    (compiled : CompiledContext V) : CompiledContext V × Option String × Bool :=
  let fits (context : CompiledContext V) : Bool := count context.text ≤ budget.usableInputBudget
  if budget.usableInputBudget ≤ 0 ∨ budget.budgetSource = "fallback" ∨ fits compiled then
    (compiled, layers.memoryLayer, false)
  else if !fits (layers.base (layers.pinned.filter (isRequiredPinned truthy))).assemble then
    (compiled, layers.memoryLayer, false)
  else
    let final := ({ layers, compiled } : Enforcement V).trim truthy fits
    (final.compiled, final.layers.memoryLayer, final.enforced)

end Enforcement

/-! ## What each phase leaves -/

/-- Only the pinned items and the working state are left to render. -/
def Layers.Bare (layers : Layers V) : Prop :=
  layers.rawEvidenceItems = [] ∧ layers.recentItems = [] ∧ layers.repoMapItems = [] ∧
    layers.compressedHistoryItems = [] ∧ layers.memoryText = ""

theorem Layers.assemble_text_of_bare {layers : Layers V} (h : layers.Bare) :
    layers.assemble.text = (layers.base layers.pinned).assemble.text := by
  obtain ⟨hraw, hrecent, hrepo, hcompressed, hmemory⟩ := h
  have hblank : (layers.base layers.pinned).memoryText = "" := by
    show strip "" = ""
    decide
  unfold assemble parts
  rw [hraw, hrecent, hrepo, hcompressed, hmemory, hblank]
  rfl

namespace Enforcement

variable {truthy : V → Bool} {fits : CompiledContext V → Bool} {s : Enforcement V}
  {source : Layers V} {emptied : Layers V → Prop}

/-- The trimming of `source` so far: the context is the one of the layers, the required
pinned items and the working state are all there, and the layers drained so far are empty
unless the context fits. -/
structure Trimmed (truthy : V → Bool) (fits : CompiledContext V → Bool) (source : Layers V)
    (emptied : Layers V → Prop) (s : Enforcement V) : Prop where
  built : s.compiled = s.layers.assemble
  required : s.layers.pinned.filter (isRequiredPinned truthy) =
    source.pinned.filter (isRequiredPinned truthy)
  workingState : s.layers.workingState = source.workingState
  drained : fits s.compiled = true ∨ emptied s.layers

/-- Draining one layer: `items` is what is left of it. -/
theorem trimmed_drain (get : Layers V → List (ContextItem V))
    (put : List (ContextItem V) → Layers V → Layers V)
    (hget : ∀ items layers, get (put items layers) = items)
    (hpinned : ∀ items layers, (put items layers).pinned = layers.pinned)
    (hstate : ∀ items layers, (put items layers).workingState = layers.workingState)
    (hemptied : ∀ items layers, emptied layers → emptied (put items layers))
    (items : List (ContextItem V)) (hitems : get s.layers = items)
    (h : Trimmed truthy fits source emptied s) :
    Trimmed truthy fits source (fun layers => emptied layers ∧ get layers = [])
      (drain fits put items s) := by
  induction items generalizing s with
  | nil => exact ⟨h.built, h.required, h.workingState, h.drained.imp_right fun he => ⟨he, hitems⟩⟩
  | cons item rest ih =>
      rw [drain]
      by_cases hfits : fits s.compiled = true
      · rw [if_pos hfits]
        exact ⟨h.built, h.required, h.workingState, Or.inl hfits⟩
      · rw [if_neg hfits]
        refine ih (hget rest s.layers) ⟨rfl, ?_, ?_, Or.inr ?_⟩
        · rw [rebuild, hpinned]
          exact h.required
        · rw [rebuild, hstate]
          exact h.workingState
        · exact hemptied rest s.layers (h.drained.resolve_left hfits)

theorem trimmed_clearCompressedHistory (h : Trimmed truthy fits source emptied s)
    (hemptied : ∀ layers : Layers V, emptied layers →
      emptied { layers with compressedHistoryItems := [] }) :
    Trimmed truthy fits source
      (fun layers => emptied layers ∧ layers.compressedHistoryItems = [])
      (s.clearCompressedHistory fits) := by
  unfold clearCompressedHistory
  by_cases hfits : fits s.compiled = true
  · rw [if_neg (by simp [hfits])]
    exact ⟨h.built, h.required, h.workingState, Or.inl hfits⟩
  · have hdrained := h.drained.resolve_left hfits
    by_cases hitems : s.layers.compressedHistoryItems = []
    · rw [if_neg (by simp [hitems])]
      exact ⟨h.built, h.required, h.workingState, Or.inr ⟨hdrained, hitems⟩⟩
    · rw [if_pos ⟨by simp [hfits], hitems⟩]
      exact ⟨rfl, h.required, h.workingState, Or.inr ⟨hemptied _ hdrained, rfl⟩⟩

theorem trimmed_clearMemory (h : Trimmed truthy fits source emptied s)
    (hemptied : ∀ layers : Layers V, emptied layers →
      emptied { layers with memoryLayer := some "" }) :
    Trimmed truthy fits source (fun layers => emptied layers ∧ layers.memoryText = "")
      (s.clearMemory fits) := by
  unfold clearMemory
  by_cases hfits : fits s.compiled = true
  · rw [if_neg (by simp [hfits])]
    exact ⟨h.built, h.required, h.workingState, Or.inl hfits⟩
  · have hdrained := h.drained.resolve_left hfits
    by_cases hmemory : s.layers.memoryText = ""
    · rw [if_neg (by simp [hmemory])]
      exact ⟨h.built, h.required, h.workingState, Or.inr ⟨hdrained, hmemory⟩⟩
    · rw [if_pos ⟨by simp [hfits], hmemory⟩]
      refine ⟨rfl, h.required, h.workingState, Or.inr ⟨hemptied _ hdrained, ?_⟩⟩
      show strip "" = ""
      decide

/-! ### Pinned extras -/

variable [DecidableEq V]

theorem filter_erase_of_not {p : ContextItem V → Bool} {item : ContextItem V}
    (hitem : p item = false) (items : List (ContextItem V)) :
    (items.erase item).filter p = items.filter p := by
  induction items with
  | nil => rfl
  | cons head rest ih =>
      by_cases hhead : head = item
      · subst hhead
        rw [List.erase_cons_head, List.filter_cons_of_neg (by simp [hitem])]
      · rw [List.erase_cons_tail (by simpa using hhead), List.filter_cons, List.filter_cons, ih]

/-- Removing the first copy of what stands at an index moves what follows it up. -/
theorem getElem?_erase_of_le {items : List (ContextItem V)} {item : ContextItem V} {index : Nat}
    (hitem : items[index]? = some item) {k : Nat} (hk : index ≤ k) :
    (items.erase item)[k]? = items[k + 1]? := by
  induction items generalizing index k with
  | nil => simp at hitem
  | cons head rest ih =>
      by_cases hhead : head = item
      · subst hhead
        rw [List.erase_cons_head, List.getElem?_cons_succ]
      · rw [List.erase_cons_tail (by simpa using hhead)]
        cases index with
        | zero =>
            rw [List.getElem?_cons_zero, Option.some.injEq] at hitem
            exact absurd hitem hhead
        | succ index =>
            obtain ⟨k, rfl⟩ : ∃ j, k = j + 1 := ⟨k - 1, by omega⟩
            rw [List.getElem?_cons_succ] at hitem
            rw [List.getElem?_cons_succ, List.getElem?_cons_succ]
            exact ih hitem (by omega)

/-- The walk from the end: what stands at or after the index is required, and at its end
everything is, unless the context fits. -/
theorem trimmed_dropExtras (index : Nat)
    (hdrop : ∀ item layers, emptied layers →
      emptied { layers with pinned := layers.pinned.erase item })
    (h : Trimmed truthy fits source emptied s) (hindex : index ≤ s.layers.pinned.length)
    (hafter : ∀ k item, index ≤ k → s.layers.pinned[k]? = some item →
      isRequiredPinned truthy item = true) :
    Trimmed truthy fits source
      (fun layers => emptied layers ∧ ∀ item ∈ layers.pinned, isRequiredPinned truthy item = true)
      (s.dropExtras truthy fits index) := by
  induction index generalizing s with
  | zero =>
      refine ⟨h.built, h.required, h.workingState, h.drained.imp_right fun he => ⟨he, ?_⟩⟩
      intro item hitem
      obtain ⟨k, hk⟩ := List.mem_iff_getElem?.mp hitem
      exact hafter k item (Nat.zero_le k) hk
  | succ index ih =>
      rw [dropExtras]
      split
      · next hnone =>
          rw [List.getElem?_eq_none_iff] at hnone
          omega
      · next item hitem =>
          by_cases hfits : fits s.compiled = true
          · rw [if_pos hfits]
            exact ⟨h.built, h.required, h.workingState, Or.inl hfits⟩
          rw [if_neg hfits]
          by_cases hrequired : isRequiredPinned truthy item = true
          · rw [if_pos hrequired]
            refine ih h (by omega) ?_
            intro k other hk hother
            by_cases hsame : k = index
            · subst hsame
              rw [hitem, Option.some.injEq] at hother
              rwa [← hother]
            · exact hafter k other (by omega) hother
          · rw [if_neg hrequired]
            rw [Bool.not_eq_true] at hrequired
            have hfilter := filter_erase_of_not hrequired s.layers.pinned
            have hlength := List.length_erase_of_mem (List.mem_of_getElem? hitem)
            refine ih ⟨rfl, ?_, h.workingState, Or.inr ?_⟩ ?_ ?_
            · exact hfilter.trans h.required
            · exact hdrop item _ (h.drained.resolve_left hfits)
            · show index ≤ (s.layers.pinned.erase item).length
              omega
            · intro k other hk hother
              have hmoved : s.layers.pinned[k + 1]? = some other :=
                (getElem?_erase_of_le hitem hk).symm.trans hother
              exact hafter (k + 1) other (by omega) hmoved

/-- After all phases only the required base is left, unless the context fits. -/
theorem trimmed_trim (truthy : V → Bool) (fits : CompiledContext V → Bool) (source : Layers V)
    (h : Trimmed truthy fits source (fun _ => True) s) :
    Trimmed truthy fits source
      (fun layers => layers.Bare ∧ ∀ item ∈ layers.pinned, isRequiredPinned truthy item = true)
      (s.trim truthy fits) := by
  have hraw := trimmed_drain Layers.rawEvidenceItems putRawEvidence (fun _ _ => rfl)
    (fun _ _ => rfl) (fun _ _ => rfl) (fun _ _ _ => trivial) _ rfl h
  have hrecent := trimmed_drain Layers.recentItems putRecent (fun _ _ => rfl)
    (fun _ _ => rfl) (fun _ _ => rfl) (fun _ _ hraw => hraw) _ rfl hraw
  have hrepo := trimmed_drain Layers.repoMapItems putRepoMap (fun _ _ => rfl)
    (fun _ _ => rfl) (fun _ _ => rfl) (fun _ _ hrecent => hrecent) _ rfl hrecent
  have hcleared := trimmed_clearMemory
    (trimmed_clearCompressedHistory hrepo fun _ hrepo => hrepo) fun _ hcompressed => hcompressed
  have hdropped := trimmed_dropExtras _ (fun _ _ hcleared => hcleared) hcleared (Nat.le_refl _)
    fun k item hk hitem => by
      rw [List.getElem?_eq_none hk] at hitem
      cases hitem
  refine ⟨hdropped.built, hdropped.required, hdropped.workingState, hdropped.drained.imp_right ?_⟩
  rintro ⟨⟨⟨⟨⟨⟨-, hraw⟩, hrecent⟩, hrepo⟩, hcompressed⟩, hmemory⟩, hrequired⟩
  exact ⟨⟨hraw, hrecent, hrepo, hcompressed, hmemory⟩, hrequired⟩

end Enforcement

/-! ## The bound -/

section Bound

variable [DecidableEq V] (truthy : V → Bool) (count : String → Int) (budget : LegacyBudget)
  (layers : Layers V)

/-- The required pinned items and the working state alone fit the budget. -/
def RequiredFits : Prop :=
  count (layers.base (layers.pinned.filter (isRequiredPinned truthy))).assemble.text ≤
    budget.usableInputBudget

omit [DecidableEq V] in
/-- When the required parts fit, so does what the trimming leaves. -/
theorem trim_fits {fits : CompiledContext V → Bool}
    (hbase : fits (layers.base (layers.pinned.filter (isRequiredPinned truthy))).assemble = true)
    (htext : ∀ a b : CompiledContext V, a.text = b.text → fits a = fits b)
    {final : Enforcement V}
    (h : final.Trimmed truthy fits layers
      (fun layers => layers.Bare ∧ ∀ item ∈ layers.pinned, isRequiredPinned truthy item = true)) :
    fits final.compiled = true := by
  rcases h.drained with hfits | ⟨hbare, hrequired⟩
  · exact hfits
  · have hpinned : final.layers.pinned = layers.pinned.filter (isRequiredPinned truthy) := by
      rw [← h.required, List.filter_eq_self.mpr hrequired]
    rw [← hbase, h.built]
    apply htext
    rw [Layers.assemble_text_of_bare hbare, hpinned]
    unfold Layers.base
    rw [h.workingState]

/-- For every counter and every budget that is positive and known, the bound is met and
every required pinned item is kept as soon as these fit; otherwise nothing changes. -/
theorem legacy_bound_is_hard (hpositive : 0 < budget.usableInputBudget)
    (hknown : budget.budgetSource ≠ "fallback") :
    (RequiredFits truthy count budget layers →
      count (enforceLegacyBudget truthy count budget layers layers.assemble).1.text ≤
          budget.usableInputBudget ∧
        ∀ item ∈ layers.pinned, isRequiredPinned truthy item = true →
          item ∈ (enforceLegacyBudget truthy count budget layers layers.assemble).1.pinned) ∧
    (¬ RequiredFits truthy count budget layers →
      enforceLegacyBudget truthy count budget layers layers.assemble =
        (layers.assemble, layers.memoryLayer, false)) := by
  unfold enforceLegacyBudget RequiredFits
  dsimp only
  by_cases hfits : count layers.assemble.text ≤ budget.usableInputBudget
  · rw [if_pos (Or.inr (Or.inr (by simpa using hfits)))]
    exact ⟨fun _ => ⟨hfits, fun item hitem _ => hitem⟩, fun _ => rfl⟩
  rw [if_neg (by simp [hfits, hknown, not_le.mpr hpositive])]
  by_cases hbase : count (layers.base (layers.pinned.filter (isRequiredPinned truthy))).assemble.text ≤
      budget.usableInputBudget
  · refine ⟨fun _ => ?_, fun hnot => absurd hbase hnot⟩
    rw [if_neg (by simpa using hbase)]
    have hfinal := Enforcement.trimmed_trim truthy
      (fun context => decide (count context.text ≤ budget.usableInputBudget)) layers
      (s := { layers, compiled := layers.assemble }) ⟨rfl, rfl, rfl, Or.inr trivial⟩
    constructor
    · refine of_decide_eq_true (trim_fits truthy layers (decide_eq_true hbase) ?_ hfinal)
      intro a b htext
      rw [htext]
    · intro item hitem hrequired
      rw [hfinal.built]
      have hkept := List.mem_filter.mpr ⟨hitem, hrequired⟩
      rw [← hfinal.required] at hkept
      exact List.mem_of_mem_filter hkept
  · refine ⟨fun hholds => absurd hholds hbase, fun _ => ?_⟩
    rw [if_pos (by simpa using hbase)]

end Bound

/-- A task with a constraint, notes and a transcript. -/
def smallWindow : Layers Bool where
  pinned :=
    [{ key := pinnedUserTask, kind := "pinned", text := "User task: fix" },
     { key := "pinned:runtime-constraints", kind := "pinned", text := "No network." },
     { key := "pinned:notes", kind := "pinned", text := "Some notes." }]
  workingState := { goal := "fix" }
  recentItems := [{ key := "history:0", kind := "recent_verbatim", text := "[user] fix" }]
  rawEvidenceItems := []
  compressedHistoryItems := []
  repoMapItems := []
  memoryLayer := some "Memory:"

def characters (text : String) : Int := text.length

/-- In fifty-six characters there is room for the task and the constraint. -/
theorem smallWindow_bounded :
    characters (enforceLegacyBudget id characters { usableInputBudget := 56 } smallWindow
        smallWindow.assemble).1.text ≤ 56 ∧
      ∀ item ∈ smallWindow.pinned, isRequiredPinned id item = true →
        item ∈ (enforceLegacyBudget id characters { usableInputBudget := 56 } smallWindow
          smallWindow.assemble).1.pinned := by
  have hbound := (legacy_bound_is_hard id characters { usableInputBudget := 56 } smallWindow
    (by decide) (by decide)).1
  have hfits : RequiredFits id characters { usableInputBudget := 56 } smallWindow := by
    unfold RequiredFits
    decide +kernel
  exact hbound hfits

end Context
end CodeCub
