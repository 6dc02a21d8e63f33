import CodeCub.Python.JsonEq
import Mathlib.Data.List.Lex
import Mathlib.Data.List.Sort

/-!
# Sorted keys

What `json.dumps(value, sort_keys=True)` writes.  A `dict` does not depend on the order
of its keys, so two values are the same when they agree with their keys sorted.
-/

namespace Python

variable {S F : Type} [LinearOrder S]

/-- The items of a `dict`, by their keys. -/
def byKey (a b : S × Json S F) : Prop := a.1 ≤ b.1

instance : DecidableRel (byKey (S := S) (F := F)) := fun a b => inferInstanceAs (Decidable (a.1 ≤ b.1))

instance : Std.Total (byKey (S := S) (F := F)) := ⟨fun a b => le_total a.1 b.1⟩

instance : IsTrans (S × Json S F) byKey := ⟨fun _ _ _ hab hbc => le_trans hab hbc⟩

mutual

/-- The value with the keys of every object in order. -/
def Json.sortKeys : Json S F → Json S F
  | .arr items => .arr (Json.sortItems items)
  | .obj fields => .obj ((Json.sortFields fields).insertionSort byKey)
  | v => v

def Json.sortItems : List (Json S F) → List (Json S F)
  | [] => []
  | item :: items => item.sortKeys :: Json.sortItems items

def Json.sortFields : List (S × Json S F) → List (S × Json S F)
  | [] => []
  | (key, value) :: fields => (key, value.sortKeys) :: Json.sortFields fields

end

/-- The same value, up to the order of the keys. -/
def Json.Same (a b : Json S F) : Prop := a.sortKeys = b.sortKeys

theorem sortItems_eq (items : List (Json S F)) : Json.sortItems items = items.map Json.sortKeys := by
  induction items with
  | nil => rfl
  | cons item items ih => exact congrArg _ ih

theorem sortFields_eq (fields : List (S × Json S F)) :
    Json.sortFields fields = fields.map fun field => (field.1, field.2.sortKeys) := by
  induction fields with
  | nil => rfl
  | cons field fields ih => exact congrArg _ ih

theorem sortKeys_arr (items : List (Json S F)) :
    (Json.arr items).sortKeys = .arr (items.map Json.sortKeys) :=
  congrArg Json.arr (sortItems_eq items)

/-- The items of a `dict` in order. -/
def sortedFields (fields : List (S × Json S F)) : List (S × Json S F) :=
  (fields.map fun field => (field.1, field.2.sortKeys)).insertionSort byKey

theorem sortKeys_obj (fields : List (S × Json S F)) :
    (Json.obj fields).sortKeys = .obj (sortedFields fields) :=
  congrArg (fun sorted : List (S × Json S F) => Json.obj (sorted.insertionSort byKey))
    (sortFields_eq fields)

theorem sortKeys_scalar {v : Json S F} (harr : ∀ items, v ≠ .arr items)
    (hobj : ∀ fields, v ≠ .obj fields) : v.sortKeys = v := by
  cases v with
  | arr items => exact absurd rfl (harr items)
  | obj fields => exact absurd rfl (hobj fields)
  | _ => rfl

theorem perm_sortedFields (fields : List (S × Json S F)) :
    (sortedFields fields).Perm (fields.map fun field => (field.1, field.2.sortKeys)) :=
  List.perm_insertionSort byKey _

theorem keys_sortedFields (fields : List (S × Json S F)) :
    ((sortedFields fields).map Prod.fst).Perm (fields.map Prod.fst) := by
  have hkeys := (perm_sortedFields fields).map Prod.fst
  rw [List.map_map] at hkeys
  exact hkeys

/-- Sorting twice is sorting once. -/
theorem sortKeys_sortKeys : ∀ v : Json S F, v.sortKeys.sortKeys = v.sortKeys := by
  refine Json.induction ?_ ?_ ?_
  · intro v harr hobj
    rw [sortKeys_scalar harr hobj, sortKeys_scalar harr hobj]
  · intro items ih
    rw [sortKeys_arr, sortKeys_arr, List.map_map]
    exact congrArg Json.arr (List.map_congr_left ih)
  · intro fields ih
    rw [sortKeys_obj, sortKeys_obj]
    have hfixed : (sortedFields fields).map (fun field => (field.1, field.2.sortKeys)) =
        sortedFields fields := by
      conv_rhs => rw [← List.map_id (sortedFields fields)]
      apply List.map_congr_left
      intro field hfield
      obtain ⟨old, hold, rfl⟩ := List.mem_map.mp ((perm_sortedFields fields).mem_iff.mp hfield)
      exact congrArg (Prod.mk old.1) (ih old hold)
    rw [sortedFields, hfixed, List.Pairwise.insertionSort_eq]
    exact List.pairwise_insertionSort byKey _

theorem same_sortKeys (v : Json S F) : v.sortKeys.Same v := sortKeys_sortKeys v

theorem representable_sortKeys : ∀ v : Json S F, v.Representable → v.sortKeys.Representable := by
  refine Json.induction ?_ ?_ ?_
  · intro v harr hobj h
    rw [sortKeys_scalar harr hobj]
    exact h
  · intro items ih h
    rw [representable_arr] at h
    rw [sortKeys_arr, representable_arr, List.forall_mem_map]
    exact fun item hitem => ih item hitem (h item hitem)
  · intro fields ih h
    rw [representable_obj] at h
    rw [sortKeys_obj, representable_obj]
    refine ⟨(keys_sortedFields fields).nodup_iff.mpr h.1, ?_⟩
    intro field hfield
    obtain ⟨old, hold, rfl⟩ := List.mem_map.mp ((perm_sortedFields fields).mem_iff.mp hfield)
    exact ih old hold (h.2 old hold)

omit [LinearOrder S] in
theorem mem_textsItems {items : List (Json S F)} {s : S} :
    s ∈ Json.textsItems items ↔ ∃ item ∈ items, s ∈ item.texts := by
  induction items with
  | nil => simp [Json.textsItems]
  | cons item items ih => rw [Json.textsItems, List.mem_append, ih, List.exists_mem_cons_iff]

omit [LinearOrder S] in
theorem mem_textsFields {fields : List (S × Json S F)} {s : S} :
    s ∈ Json.textsFields fields ↔ ∃ field ∈ fields, s = field.1 ∨ s ∈ field.2.texts := by
  induction fields with
  | nil => simp [Json.textsFields]
  | cons field fields ih =>
      rw [Json.textsFields, List.mem_cons, List.mem_append, ih, List.exists_mem_cons_iff, or_assoc]

/-- The strings stay. -/
theorem mem_texts_sortKeys : ∀ (v : Json S F) (s : S), s ∈ v.sortKeys.texts ↔ s ∈ v.texts := by
  refine Json.induction ?_ ?_ ?_
  · intro v harr hobj s
    rw [sortKeys_scalar harr hobj]
  · intro items ih s
    rw [sortKeys_arr, Json.texts, Json.texts, mem_textsItems, mem_textsItems]
    constructor
    · rintro ⟨item, hitem, hs⟩
      obtain ⟨old, hold, rfl⟩ := List.mem_map.mp hitem
      exact ⟨old, hold, (ih old hold s).mp hs⟩
    · rintro ⟨item, hitem, hs⟩
      exact ⟨item.sortKeys, List.mem_map_of_mem hitem, (ih item hitem s).mpr hs⟩
  · intro fields ih s
    rw [sortKeys_obj, Json.texts, Json.texts, mem_textsFields, mem_textsFields]
    constructor
    · rintro ⟨field, hfield, hs⟩
      obtain ⟨old, hold, rfl⟩ := List.mem_map.mp ((perm_sortedFields fields).mem_iff.mp hfield)
      exact ⟨old, hold, hs.imp_right (ih old hold s).mp⟩
    · rintro ⟨field, hfield, hs⟩
      refine ⟨(field.1, field.2.sortKeys), ?_, hs.imp_right (ih field hfield s).mpr⟩
      exact (perm_sortedFields fields).mem_iff.mpr (List.mem_map_of_mem hfield)

end Python
