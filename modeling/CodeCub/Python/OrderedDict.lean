import Mathlib.Data.List.Nodup
import Mathlib.Data.List.Basic

/-!
# Dictionaries in insertion order

A Python `dict` whose iteration order is observed: assigning to a key that is
there keeps its place, a new key goes to the end.
-/

namespace Python

structure OrderedDict (α β : Type) where
  entries : List (α × β) := []
  nodup : (entries.map Prod.fst).Nodup := by simp

namespace OrderedDict

variable {α β : Type} [DecidableEq α]

instance : EmptyCollection (OrderedDict α β) := ⟨{}⟩

instance : Inhabited (OrderedDict α β) := ⟨∅⟩

def keys (d : OrderedDict α β) : List α := d.entries.map Prod.fst

def values (d : OrderedDict α β) : List β := d.entries.map Prod.snd

/-- `d.get(k)`. -/
def get (d : OrderedDict α β) (k : α) : Option β :=
  (d.entries.find? fun entry => entry.1 = k).map Prod.snd

/-- The entries after `d[k] = v`. -/
def setEntries (entries : List (α × β)) (k : α) (v : β) : List (α × β) :=
  match entries with
  | [] => [(k, v)]
  | (k', v') :: rest => if k' = k then (k, v) :: rest else (k', v') :: setEntries rest k v

theorem mem_setEntries_key {entries : List (α × β)} {k j : α} {v : β} :
    j ∈ (setEntries entries k v).map Prod.fst ↔ j = k ∨ j ∈ entries.map Prod.fst := by
  induction entries with
  | nil => simp [setEntries]
  | cons entry rest ih =>
      rw [setEntries]
      split
      · next hsame =>
          subst hsame
          simp
      · simp only [List.map_cons, List.mem_cons, ih]
        tauto

theorem setEntries_nodup {entries : List (α × β)} (h : (entries.map Prod.fst).Nodup) (k : α)
    (v : β) : ((setEntries entries k v).map Prod.fst).Nodup := by
  induction entries with
  | nil => simp [setEntries]
  | cons entry rest ih =>
      obtain ⟨hnot, hrest⟩ := List.nodup_cons.mp h
      rw [setEntries]
      split
      · next hsame =>
          subst hsame
          exact List.nodup_cons.mpr ⟨hnot, hrest⟩
      · next hne =>
          refine List.nodup_cons.mpr ⟨?_, ih hrest⟩
          rw [mem_setEntries_key]
          rintro (hsame | hmem)
          · exact hne hsame
          · exact hnot hmem

/-- `d[k] = v`. -/
def set (d : OrderedDict α β) (k : α) (v : β) : OrderedDict α β :=
  { entries := setEntries d.entries k v, nodup := setEntries_nodup d.nodup k v }

/-- `d.pop(k, None)`, without its result. -/
def pop (d : OrderedDict α β) (k : α) : OrderedDict α β where
  entries := d.entries.filter fun entry => entry.1 ≠ k
  nodup := (List.filter_sublist.map Prod.fst).nodup d.nodup

@[simp] theorem get_empty (k : α) : (∅ : OrderedDict α β).get k = none := rfl

theorem find?_setEntries (entries : List (α × β)) (k j : α) (v : β) :
    ((setEntries entries k v).find? fun entry => entry.1 = j).map Prod.snd =
      if j = k then some v else (entries.find? fun entry => entry.1 = j).map Prod.snd := by
  induction entries with
  | nil =>
      by_cases h : j = k
      · simp [setEntries, h]
      · simp [setEntries, h, Ne.symm h]
  | cons entry rest ih =>
      obtain ⟨k', v'⟩ := entry
      by_cases hk : k' = k
      · by_cases h : j = k
        · simp [setEntries, hk, h]
        · simp [setEntries, hk, h, Ne.symm h]
      · by_cases hj : k' = j
        · have hne : j ≠ k := fun h => hk (hj.trans h)
          simp [setEntries, hj, hne]
        · simp only [setEntries, hk, if_false, List.find?_cons, hj, decide_false, ih]

theorem get_set (d : OrderedDict α β) (k j : α) (v : β) :
    (d.set k v).get j = if j = k then some v else d.get j :=
  find?_setEntries d.entries k j v

@[simp] theorem get_set_self (d : OrderedDict α β) (k : α) (v : β) : (d.set k v).get k = some v := by
  rw [get_set, if_pos rfl]

theorem get_set_ne (d : OrderedDict α β) {k j : α} (v : β) (h : j ≠ k) :
    (d.set k v).get j = d.get j := by
  rw [get_set, if_neg h]

theorem get_pop (d : OrderedDict α β) (k j : α) :
    (d.pop k).get j = if j = k then none else d.get j := by
  show ((d.entries.filter _).find? _).map Prod.snd = _
  rw [List.find?_filter]
  by_cases h : j = k
  · have hnone : (d.entries.find? fun entry => decide (entry.1 ≠ k) && decide (entry.1 = j)) =
        none := by
      rw [List.find?_eq_none]
      intro entry _
      simp [h]
    rw [if_pos h]
    simpa using hnone
  · rw [if_neg h, get]
    congr 2
    funext entry
    by_cases hj : entry.1 = j
    · simp [hj, h]
    · simp [hj]

@[simp] theorem get_pop_self (d : OrderedDict α β) (k : α) : (d.pop k).get k = none := by
  rw [get_pop, if_pos rfl]

theorem get_pop_ne (d : OrderedDict α β) {k j : α} (h : j ≠ k) : (d.pop k).get j = d.get j := by
  rw [get_pop, if_neg h]

theorem get_of_mem (d : OrderedDict α β) {k : α} {v : β} (h : (k, v) ∈ d.entries) :
    d.get k = some v := by
  have hfind : ∀ entries : List (α × β), (entries.map Prod.fst).Nodup → (k, v) ∈ entries →
      entries.find? (fun entry => entry.1 = k) = some (k, v) := by
    intro entries hnodup hmem
    induction entries with
    | nil => cases hmem
    | cons entry rest ih =>
        obtain ⟨hnot, hrest⟩ := List.nodup_cons.mp hnodup
        rcases List.mem_cons.mp hmem with hhere | hthere
        · rw [← hhere, List.find?_cons_of_pos (by simp)]
        · have hne : entry.1 ≠ k := fun hsame =>
            hnot (hsame ▸ List.mem_map_of_mem (f := Prod.fst) hthere)
          rw [List.find?_cons_of_neg (by simpa using hne), ih hrest hthere]
  rw [get, hfind d.entries d.nodup h, Option.map_some]

theorem mem_of_get (d : OrderedDict α β) {k : α} {v : β} (h : d.get k = some v) :
    (k, v) ∈ d.entries := by
  obtain ⟨entry, hfind, rfl⟩ := Option.map_eq_some_iff.mp h
  have hkey : entry.1 = k := by simpa using List.find?_some hfind
  rw [← hkey]
  exact List.mem_of_find?_eq_some hfind

/-- What is found after some assignments was assigned or was there. -/
theorem get_foldl_set {pairs : List (α × β)} {d : OrderedDict α β} {k : α} {v : β}
    (h : (pairs.foldl (fun d pair => d.set pair.1 pair.2) d).get k = some v) :
    (k, v) ∈ pairs ∨ d.get k = some v := by
  induction pairs generalizing d with
  | nil => exact Or.inr h
  | cons pair rest ih =>
      rcases ih h with hrest | hset
      · exact Or.inl (List.mem_cons_of_mem _ hrest)
      · rw [get_set] at hset
        split at hset
        · next hkey =>
            cases hset
            rw [hkey]
            exact Or.inl List.mem_cons_self
        · exact Or.inr hset

/-- `d.update(other)`. -/
theorem get_update (other d : OrderedDict α β) (k : α) :
    (other.entries.foldl (fun d pair => d.set pair.1 pair.2) d).get k = (other.get k).or (d.get k) := by
  have hfold : ∀ (pairs : List (α × β)) (d : OrderedDict α β), (pairs.map Prod.fst).Nodup →
      (pairs.foldl (fun d pair => d.set pair.1 pair.2) d).get k =
        ((pairs.find? fun entry => entry.1 = k).map Prod.snd).or (d.get k) := by
    intro pairs
    induction pairs with
    | nil => exact fun d _ => rfl
    | cons pair rest ih =>
        intro d hnodup
        obtain ⟨hnot, hrest⟩ := List.nodup_cons.mp hnodup
        rw [List.foldl_cons, ih _ hrest]
        by_cases hkey : pair.1 = k
        · have hnone : rest.find? (fun entry => entry.1 = k) = none := by
            rw [List.find?_eq_none]
            intro entry hentry hsame
            exact hnot (List.mem_map.mpr ⟨entry, hentry, by simpa [hkey] using hsame⟩)
          rw [hnone, List.find?_cons_of_pos (by simpa using hkey), get_set, if_pos hkey.symm]
          rfl
        · rw [List.find?_cons_of_neg (by simpa using hkey), get_set_ne _ _ (Ne.symm hkey)]
  exact hfold other.entries d other.nodup

/-- `dict(pairs)`. -/
def ofEntries (pairs : List (α × β)) : OrderedDict α β :=
  pairs.foldl (fun d pair => d.set pair.1 pair.2) ∅

theorem setEntries_new {entries : List (α × β)} {k : α} (v : β) (h : k ∉ entries.map Prod.fst) :
    setEntries entries k v = entries ++ [(k, v)] := by
  induction entries with
  | nil => rfl
  | cons entry rest ih =>
      rw [List.map_cons, List.mem_cons, not_or] at h
      rw [setEntries, if_neg (Ne.symm h.1), ih h.2, List.cons_append]

theorem foldl_set_entries {pairs : List (α × β)} {d : OrderedDict α β}
    (h : (d.keys ++ pairs.map Prod.fst).Nodup) :
    (pairs.foldl (fun d pair => d.set pair.1 pair.2) d).entries = d.entries ++ pairs := by
  induction pairs generalizing d with
  | nil => exact (List.append_nil _).symm
  | cons pair rest ih =>
      have hnew : pair.1 ∉ d.entries.map Prod.fst := fun hmem =>
        (List.nodup_append.mp h).2.2 _ hmem _ List.mem_cons_self rfl
      have hset : (d.set pair.1 pair.2).entries = d.entries ++ [pair] := setEntries_new _ hnew
      have hkeys : (d.set pair.1 pair.2).keys = d.keys ++ [pair.1] := by
        rw [keys, hset, List.map_append]
        rfl
      rw [List.foldl_cons, ih, hset, List.append_assoc]
      · rfl
      · rw [hkeys, List.append_assoc]
        exact h

/-- A dictionary is rebuilt from its items. -/
theorem ofEntries_entries (d : OrderedDict α β) : ofEntries d.entries = d := by
  have hentries : (ofEntries d.entries).entries = d.entries := by
    refine (foldl_set_entries ?_).trans (List.nil_append _)
    rw [keys]
    exact d.nodup
  obtain ⟨entries, nodup⟩ := d
  generalize ofEntries entries = rebuilt at hentries
  obtain ⟨entries', nodup'⟩ := rebuilt
  cases hentries
  rfl

/-- Pairs with distinct keys are the items. -/
theorem entries_ofEntries {pairs : List (α × β)} (h : (pairs.map Prod.fst).Nodup) :
    (ofEntries pairs).entries = pairs :=
  (foldl_set_entries (d := ∅) h).trans (List.nil_append _)

/-- The dictionary with `f` of each value. -/
def mapValues {γ : Type} (f : β → γ) (d : OrderedDict α β) : OrderedDict α γ where
  entries := d.entries.map fun entry => (entry.1, f entry.2)
  nodup := by
    rw [List.map_map]
    exact d.nodup

theorem get_mapValues {γ : Type} (f : β → γ) (d : OrderedDict α β) (k : α) :
    (d.mapValues f).get k = (d.get k).map f := by
  show ((d.entries.map fun entry => (entry.1, f entry.2)).find? _).map Prod.snd = _
  rw [List.find?_map, get, Option.map_map, Option.map_map]
  rfl

end OrderedDict

end Python
