import CodeCub.Python.Json

/-!
# Equality of JSON values

`==` is an equivalence on the values that JSON can represent, and equal values hold
the same strings.
-/

namespace Python

variable {S F : Type}

/-- The parts of a value come first. -/
theorem Json.induction {P : Json S F → Prop}
    (scalar : ∀ v : Json S F, (∀ items, v ≠ .arr items) → (∀ fields, v ≠ .obj fields) → P v)
    (arr : ∀ items, (∀ item ∈ items, P item) → P (.arr items))
    (obj : ∀ fields : List (S × Json S F), (∀ field ∈ fields, P field.2) → P (.obj fields)) :
    ∀ v : Json S F, P v
  | .arr items => arr items fun item _ => Json.induction scalar arr obj item
  | .obj fields => obj fields fun field _ => Json.induction scalar arr obj field.2
  | .null => scalar _ (by simp) (by simp)
  | .bool _ => scalar _ (by simp) (by simp)
  | .int _ => scalar _ (by simp) (by simp)
  | .float _ => scalar _ (by simp) (by simp)
  | .nonFinite _ => scalar _ (by simp) (by simp)
  | .str _ => scalar _ (by simp) (by simp)
termination_by v => sizeOf v
decreasing_by
  · have hlt := List.sizeOf_lt_of_mem ‹item ∈ items›
    simp only [Json.arr.sizeOf_spec]
    omega
  · have hlt := List.sizeOf_lt_of_mem ‹field ∈ fields›
    obtain ⟨key, value⟩ := field
    simp only [Json.obj.sizeOf_spec, Prod.mk.sizeOf_spec] at hlt ⊢
    omega

theorem representable_arr {items : List (Json S F)} :
    (Json.arr items).Representable ↔ ∀ item ∈ items, item.Representable := by
  show Json.RepresentableItems items ↔ _
  induction items with
  | nil => exact ⟨fun _ _ hmem => absurd hmem List.not_mem_nil, fun _ => trivial⟩
  | cons item items ih =>
      rw [List.forall_mem_cons, ← ih]
      rfl

theorem representableFields_iff {fields : List (S × Json S F)} :
    Json.RepresentableFields fields ↔ ∀ field ∈ fields, field.2.Representable := by
  induction fields with
  | nil => exact ⟨fun _ _ hmem => absurd hmem List.not_mem_nil, fun _ => trivial⟩
  | cons field fields ih =>
      rw [List.forall_mem_cons, ← ih]
      rfl

theorem representable_obj {fields : List (S × Json S F)} :
    (Json.obj fields).Representable ↔
      (fields.map Prod.fst).Nodup ∧ ∀ field ∈ fields, field.2.Representable := by
  show _ ∧ Json.RepresentableFields fields ↔ _
  rw [representableFields_iff]

theorem mem_texts_arr {items : List (Json S F)} {s : S} :
    s ∈ (Json.arr items).texts ↔ ∃ item ∈ items, s ∈ item.texts := by
  show s ∈ Json.textsItems items ↔ _
  induction items with
  | nil => exact ⟨fun hmem => absurd hmem List.not_mem_nil, fun ⟨_, hmem, _⟩ => by cases hmem⟩
  | cons item items ih =>
      show s ∈ item.texts ++ Json.textsItems items ↔ _
      rw [List.mem_append, ih, List.exists_mem_cons_iff]

theorem mem_texts_obj {fields : List (S × Json S F)} {s : S} :
    s ∈ (Json.obj fields).texts ↔ ∃ field ∈ fields, s = field.1 ∨ s ∈ field.2.texts := by
  show s ∈ Json.textsFields fields ↔ _
  induction fields with
  | nil => exact ⟨fun hmem => absurd hmem List.not_mem_nil, fun ⟨_, hmem, _⟩ => by cases hmem⟩
  | cons field fields ih =>
      show s ∈ field.1 :: (field.2.texts ++ Json.textsFields fields) ↔ _
      rw [List.mem_cons, List.mem_append, ih, List.exists_mem_cons_iff, or_assoc]

/-! ## The parts of `==` -/

section Equality

variable [DecidableEq S] [FiniteFloat F]

omit [DecidableEq S] in
theorem scalar?_isSome {v : Json S F} (harr : ∀ items, v ≠ .arr items)
    (hobj : ∀ fields, v ≠ .obj fields) : ∃ x, v.scalar? = some x := by
  cases v with
  | arr items => exact absurd rfl (harr items)
  | obj fields => exact absurd rfl (hobj fields)
  | _ => exact ⟨_, rfl⟩

theorem eqv_scalar {a b : Json S F} {x : Scalar S} (h : a.scalar? = some x) :
    a.eqv b = true ↔ b.scalar? = some x ∧ x ≠ .nonFinite .nan := by
  have heqv : a.eqv b = scalarsEqv a.scalar? b.scalar? := by
    cases a with
    | arr items => cases h
    | obj fields => cases h
    | _ => rfl
  rw [heqv, h]
  cases hb : b.scalar? with
  | none => simp [scalarsEqv]
  | some y =>
      simp only [scalarsEqv, Bool.and_eq_true, decide_eq_true_eq, Option.some.injEq]
      constructor
      · rintro ⟨rfl, hx⟩
        exact ⟨rfl, hx⟩
      · rintro ⟨rfl, hx⟩
        exact ⟨rfl, hx⟩

theorem eqv_arr_iff {items : List (Json S F)} {v : Json S F} :
    (Json.arr items).eqv v = true ↔
      ∃ items', v = .arr items' ∧ List.Forall₂ (fun a b => a.eqv b = true) items items' := by
  have hitems : ∀ xs ys : List (Json S F), Json.eqvItems xs ys = true ↔
      List.Forall₂ (fun a b => a.eqv b = true) xs ys := by
    intro xs
    induction xs with
    | nil =>
        intro ys
        cases ys with
        | nil => exact ⟨fun _ => List.Forall₂.nil, fun _ => rfl⟩
        | cons y ys => exact ⟨(by cases ·), (by cases ·)⟩
    | cons x xs ih =>
        intro ys
        cases ys with
        | nil => exact ⟨(by cases ·), (by cases ·)⟩
        | cons y ys =>
            show (x.eqv y && Json.eqvItems xs ys) = true ↔ _
            rw [Bool.and_eq_true, ih, List.forall₂_cons]
  constructor
  · intro heqv
    cases v with
    | arr items' => exact ⟨items', rfl, (hitems items items').mp heqv⟩
    | _ => cases heqv
  · rintro ⟨items', rfl, hall⟩
    exact (hitems items items').mpr hall

theorem eqvFields_cons (key : S) (value : Json S F) (xs ys : List (S × Json S F)) :
    Json.eqvFields ((key, value) :: xs) ys =
      match ys.lookup key with
      | some value' => value.eqv value' && Json.eqvFields xs ys
      | none => false := rfl

theorem eqv_obj_iff {fields : List (S × Json S F)} {v : Json S F} :
    (Json.obj fields).eqv v = true ↔
      ∃ fields', v = .obj fields' ∧ fields.length = fields'.length ∧
        ∀ field ∈ fields, ∃ value', fields'.lookup field.1 = some value' ∧
          field.2.eqv value' = true := by
  have hfields : ∀ xs ys : List (S × Json S F), Json.eqvFields xs ys = true ↔
      ∀ field ∈ xs, ∃ value', ys.lookup field.1 = some value' ∧ field.2.eqv value' = true := by
    intro xs ys
    induction xs with
    | nil => exact ⟨fun _ _ hmem => absurd hmem List.not_mem_nil, fun _ => rfl⟩
    | cons x xs ih =>
        obtain ⟨key, value⟩ := x
        rw [eqvFields_cons, List.forall_mem_cons, ← ih]
        cases ys.lookup key with
        | none => simp
        | some value' => simp
  have hobj : ∀ fields' : List (S × Json S F), (Json.obj fields).eqv (.obj fields') = true ↔
      fields.length = fields'.length ∧ Json.eqvFields fields fields' = true := by
    intro fields'
    show (decide _ && _) = true ↔ _
    rw [Bool.and_eq_true, decide_eq_true_eq]
  constructor
  · intro heqv
    cases v with
    | obj fields' =>
        obtain ⟨hlength, hall⟩ := (hobj fields').mp heqv
        exact ⟨fields', rfl, hlength, (hfields fields fields').mp hall⟩
    | _ => cases heqv
  · rintro ⟨fields', rfl, hlength, hall⟩
    exact (hobj fields').mpr ⟨hlength, (hfields fields fields').mpr hall⟩

theorem lookup_of_mem {V : Type} {fields : List (S × V)} {field : S × V}
    (hnodup : (fields.map Prod.fst).Nodup) (h : field ∈ fields) :
    fields.lookup field.1 = some field.2 := by
  induction fields with
  | nil => cases h
  | cons first rest ih =>
      rw [List.map_cons, List.nodup_cons] at hnodup
      rcases List.mem_cons.mp h with rfl | h
      · rw [List.lookup_cons, beq_self_eq_true]
      · have hne : field.1 ≠ first.1 := by
          intro hsame
          exact hnodup.1 (hsame ▸ List.mem_map_of_mem h)
        rw [List.lookup_cons, beq_false_of_ne hne]
        exact ih hnodup.2 h

omit [DecidableEq S] in
theorem mem_of_lookup {V : Type} [BEq S] [LawfulBEq S] {fields : List (S × V)} {key : S}
    {value : V} (h : fields.lookup key = some value) : (key, value) ∈ fields := by
  induction fields with
  | nil => cases h
  | cons first rest ih =>
      obtain ⟨k, v⟩ := first
      rw [List.lookup_cons] at h
      by_cases hkey : key = k
      · subst hkey
        simp at h
        rw [h]
        exact List.mem_cons_self
      · rw [beq_false_of_ne hkey] at h
        exact List.mem_cons_of_mem _ (ih h)

/-! ## Equivalence -/

theorem eqv_refl : ∀ v : Json S F, v.Representable → v.eqv v = true := by
  refine Json.induction ?_ ?_ ?_
  · intro v harr hobj hv
    obtain ⟨x, hx⟩ := scalar?_isSome harr hobj
    refine (eqv_scalar hx).mpr ⟨hx, ?_⟩
    rintro rfl
    cases v with
    | nonFinite _ => exact hv
    | _ => cases hx
  · intro items ih hv
    rw [representable_arr] at hv
    refine eqv_arr_iff.mpr ⟨items, rfl, ?_⟩
    rw [List.forall₂_same]
    exact fun item hitem => ih item hitem (hv item hitem)
  · intro fields ih hv
    rw [representable_obj] at hv
    refine eqv_obj_iff.mpr ⟨fields, rfl, rfl, ?_⟩
    exact fun field hfield =>
      ⟨field.2, lookup_of_mem hv.1 hfield, ih field hfield (hv.2 field hfield)⟩

omit [DecidableEq S] in
/-- Two objects of the same size whose keys are distinct have the same keys, if the one
has those of the other. -/
theorem keys_subset {V : Type} {fields fields' : List (S × V)}
    (hnodup : (fields.map Prod.fst).Nodup) (hlength : fields.length = fields'.length)
    (hsub : ∀ field ∈ fields, field.1 ∈ fields'.map Prod.fst) :
    ∀ field ∈ fields', field.1 ∈ fields.map Prod.fst := by
  have hsubset : fields.map Prod.fst ⊆ fields'.map Prod.fst := by
    intro key hkey
    obtain ⟨field, hfield, rfl⟩ := List.mem_map.mp hkey
    exact hsub field hfield
  have hperm := (List.subperm_of_subset hnodup hsubset).perm_of_length_le (by simp [hlength])
  exact fun field hfield => hperm.mem_iff.mpr (List.mem_map_of_mem hfield)

theorem eqv_symm : ∀ a b : Json S F, a.Representable → b.Representable → a.eqv b = true →
    b.eqv a = true := by
  refine Json.induction ?_ ?_ ?_
  · intro a harr hobj b _ _ h
    obtain ⟨x, hx⟩ := scalar?_isSome harr hobj
    obtain ⟨hb, hnan⟩ := (eqv_scalar hx).mp h
    exact (eqv_scalar hb).mpr ⟨hx, hnan⟩
  · intro items ih b ha hb h
    obtain ⟨items', rfl, hall⟩ := eqv_arr_iff.mp h
    rw [representable_arr] at ha hb
    refine eqv_arr_iff.mpr ⟨items, rfl, ?_⟩
    clear h
    induction hall with
    | nil => exact List.Forall₂.nil
    | cons hhead _ ih' =>
        rw [List.forall_mem_cons] at ih ha hb
        exact List.Forall₂.cons (ih.1 _ ha.1 hb.1 hhead) (ih' ih.2 ha.2 hb.2)
  · intro fields ih b ha hb h
    obtain ⟨fields', rfl, hlength, hall⟩ := eqv_obj_iff.mp h
    rw [representable_obj] at ha hb
    refine eqv_obj_iff.mpr ⟨fields, rfl, hlength.symm, ?_⟩
    intro field' hfield'
    have hkey := keys_subset ha.1 hlength (fun field hfield => by
      obtain ⟨value', hlookup, _⟩ := hall field hfield
      exact List.mem_map.mpr ⟨_, mem_of_lookup hlookup, rfl⟩) field' hfield'
    obtain ⟨field, hfield, hsame⟩ := List.mem_map.mp hkey
    obtain ⟨value', hlookup, heqv⟩ := hall field hfield
    rw [hsame, lookup_of_mem hb.1 hfield'] at hlookup
    cases hlookup
    refine ⟨field.2, ?_, ih field hfield _ (ha.2 field hfield) (hb.2 field' hfield') heqv⟩
    rw [← hsame, lookup_of_mem ha.1 hfield]

theorem eqv_trans : ∀ a b c : Json S F, a.eqv b = true → b.eqv c = true → a.eqv c = true := by
  refine Json.induction ?_ ?_ ?_
  · intro a harr hobj b c hab hbc
    obtain ⟨x, hx⟩ := scalar?_isSome harr hobj
    obtain ⟨hb, hnan⟩ := (eqv_scalar hx).mp hab
    exact (eqv_scalar hx).mpr ⟨((eqv_scalar hb).mp hbc).1, hnan⟩
  · intro items ih b c hab hbc
    obtain ⟨items', rfl, hall⟩ := eqv_arr_iff.mp hab
    obtain ⟨items'', rfl, hall'⟩ := eqv_arr_iff.mp hbc
    refine eqv_arr_iff.mpr ⟨items'', rfl, ?_⟩
    clear hab hbc
    induction hall generalizing items'' with
    | nil =>
        cases hall'
        exact List.Forall₂.nil
    | cons hhead _ ih' =>
        rw [List.forall_mem_cons] at ih
        cases hall' with
        | cons hhead' htail' => exact List.Forall₂.cons (ih.1 _ _ hhead hhead') (ih' ih.2 _ htail')
  · intro fields ih b c hab hbc
    obtain ⟨fields', rfl, hlength, hall⟩ := eqv_obj_iff.mp hab
    obtain ⟨fields'', rfl, hlength', hall'⟩ := eqv_obj_iff.mp hbc
    refine eqv_obj_iff.mpr ⟨fields'', rfl, hlength.trans hlength', ?_⟩
    intro field hfield
    obtain ⟨value', hlookup, heqv⟩ := hall field hfield
    obtain ⟨value'', hlookup', heqv'⟩ := hall' _ (mem_of_lookup hlookup)
    exact ⟨value'', hlookup', ih field hfield _ _ heqv heqv'⟩

omit [DecidableEq S] [FiniteFloat F] in
theorem exists_mem_of_forall₂ {R : Json S F → Json S F → Prop} {xs ys : List (Json S F)}
    (h : List.Forall₂ R xs ys) {x : Json S F} (hx : x ∈ xs) : ∃ y ∈ ys, R x y := by
  induction h with
  | nil => cases hx
  | cons hhead _ ih =>
      rcases List.mem_cons.mp hx with rfl | hx
      · exact ⟨_, List.mem_cons_self, hhead⟩
      · obtain ⟨y, hy, hR⟩ := ih hx
        exact ⟨y, List.mem_cons_of_mem _ hy, hR⟩

/-- Equal values hold the same strings. -/
theorem texts_subset : ∀ a b : Json S F, a.eqv b = true → ∀ s ∈ a.texts, s ∈ b.texts := by
  refine Json.induction ?_ ?_ ?_
  · intro a harr hobj b h s hs
    cases a with
    | str t =>
        obtain ⟨hb, _⟩ := (eqv_scalar (x := .str t) rfl).mp h
        cases b with
        | str t' =>
            cases hb
            exact hs
        | _ => cases hb
    | arr items => exact absurd rfl (harr items)
    | obj fields => exact absurd rfl (hobj fields)
    | _ => cases hs
  · intro items ih b h s hs
    obtain ⟨items', rfl, hall⟩ := eqv_arr_iff.mp h
    rw [mem_texts_arr] at hs ⊢
    obtain ⟨item, hitem, hs⟩ := hs
    obtain ⟨item', hitem', heqv⟩ := exists_mem_of_forall₂ hall hitem
    exact ⟨item', hitem', ih item hitem _ heqv s hs⟩
  · intro fields ih b h s hs
    obtain ⟨fields', rfl, _, hall⟩ := eqv_obj_iff.mp h
    rw [mem_texts_obj] at hs ⊢
    obtain ⟨field, hfield, hs⟩ := hs
    obtain ⟨value', hlookup, heqv⟩ := hall field hfield
    refine ⟨_, mem_of_lookup hlookup, ?_⟩
    rcases hs with rfl | hs
    · exact Or.inl rfl
    · exact Or.inr (ih field hfield _ heqv s hs)

/-! ## Dictionaries -/

section Dict

variable {V : Type}

theorem assign_cons (key : S) (value : V) (entry : S × V) (rest : List (S × V)) :
    assign key value (entry :: rest) =
      if entry.1 = key then (key, value) :: rest else entry :: assign key value rest := rfl

theorem keys_assign (key : S) (value : V) (d : List (S × V)) :
    (assign key value d).map Prod.fst =
      if key ∈ d.map Prod.fst then d.map Prod.fst else d.map Prod.fst ++ [key] := by
  induction d with
  | nil => rfl
  | cons entry rest ih =>
      rw [assign_cons]
      split
      · next hsame =>
          rw [if_pos (by rw [List.map_cons, hsame]; exact List.mem_cons_self)]
          simp [hsame]
      · next hne =>
          rw [List.map_cons, ih]
          by_cases hmem : key ∈ rest.map Prod.fst
          · have hmem' : key ∈ (entry :: rest).map Prod.fst := List.mem_cons_of_mem _ hmem
            rw [if_pos hmem, if_pos hmem']
            rfl
          · have hnot : key ∉ (entry :: rest).map Prod.fst := by
              rw [List.map_cons, List.mem_cons, not_or]
              exact ⟨Ne.symm hne, hmem⟩
            rw [if_neg hmem, if_neg hnot]
            rfl

theorem of_mem_assign {key : S} {value : V} {d : List (S × V)} {entry : S × V}
    (h : entry ∈ assign key value d) : entry = (key, value) ∨ entry ∈ d := by
  induction d with
  | nil => exact Or.inl (List.mem_singleton.mp h)
  | cons first rest ih =>
      rw [assign_cons] at h
      split at h
      · rcases List.mem_cons.mp h with rfl | h
        · exact Or.inl rfl
        · exact Or.inr (List.mem_cons_of_mem _ h)
      · rcases List.mem_cons.mp h with rfl | h
        · exact Or.inr List.mem_cons_self
        · exact (ih h).imp id (List.mem_cons_of_mem _)

theorem mem_assign_self (key : S) (value : V) (d : List (S × V)) :
    (key, value) ∈ assign key value d := by
  induction d with
  | nil => exact List.mem_singleton_self _
  | cons first rest ih =>
      rw [assign_cons]
      split
      · exact List.mem_cons_self
      · exact List.mem_cons_of_mem _ ih

theorem mem_assign_of_ne {key : S} {value : V} {d : List (S × V)} {entry : S × V}
    (h : entry ∈ d) (hne : entry.1 ≠ key) : entry ∈ assign key value d := by
  induction d with
  | nil => cases h
  | cons first rest ih =>
      rw [assign_cons]
      rcases List.mem_cons.mp h with rfl | h
      · rw [if_neg hne]
        exact List.mem_cons_self
      · split
        · exact List.mem_cons_of_mem _ h
        · exact List.mem_cons_of_mem _ (ih h)

theorem nodup_assign {key : S} {value : V} {d : List (S × V)} (h : (d.map Prod.fst).Nodup) :
    ((assign key value d).map Prod.fst).Nodup := by
  rw [keys_assign]
  split
  · exact h
  · next hnew => exact List.nodup_append.mpr ⟨h, List.nodup_singleton _, by
      rintro a ha b hb rfl
      exact hnew (List.mem_singleton.mp hb ▸ ha)⟩

theorem lookup_assign [BEq S] [LawfulBEq S] (key other : S) (value : V) (d : List (S × V)) :
    (assign key value d).lookup other = if other = key then some value else d.lookup other := by
  induction d with
  | nil =>
      show [(key, value)].lookup other = _
      split
      · next hsame => rw [hsame, List.lookup_cons_self]
      · next hne => rw [List.lookup_cons, beq_false_of_ne hne]
  | cons entry rest ih =>
      rw [assign_cons]
      by_cases hentry : entry.1 = key
      · rw [if_pos hentry]
        split
        · next hsame => rw [hsame, List.lookup_cons_self]
        · next hne => rw [List.lookup_cons, List.lookup_cons, hentry, beq_false_of_ne hne]
      · rw [if_neg hentry]
        by_cases hother : other = entry.1
        · have hne : ¬ other = key := fun h => hentry (hother.symm.trans h)
          rw [if_neg hne, hother, List.lookup_cons, List.lookup_cons, beq_self_eq_true]
        · rw [List.lookup_cons, List.lookup_cons, beq_false_of_ne hother]
          exact ih

/-- Writing the value that is there already. -/
theorem assign_of_lookup [BEq S] [LawfulBEq S] {key : S} {value : V} {d : List (S × V)} (h : d.lookup key = some value) :
    assign key value d = d := by
  induction d with
  | nil => cases h
  | cons entry rest ih =>
      rw [assign_cons]
      split
      · next hsame =>
          rw [← hsame, List.lookup_cons_self] at h
          cases h
          rw [← hsame]
      · next hne =>
          rw [List.lookup_cons, beq_false_of_ne (Ne.symm hne)] at h
          rw [ih h]

theorem nodup_dict (pairs : List (S × V)) : ((dict pairs).map Prod.fst).Nodup := by
  have hfold : ∀ rest d : List (S × V), (d.map Prod.fst).Nodup →
      ((rest.foldl (fun d pair => assign pair.1 pair.2 d) d).map Prod.fst).Nodup := by
    intro rest
    induction rest with
    | nil => exact fun d h => h
    | cons pair rest ih => exact fun d h => ih _ (nodup_assign h)
  exact hfold pairs [] List.nodup_nil

theorem of_mem_dict {pairs : List (S × V)} {entry : S × V} (h : entry ∈ dict pairs) :
    entry ∈ pairs := by
  have hfold : ∀ rest d : List (S × V),
      entry ∈ rest.foldl (fun d pair => assign pair.1 pair.2 d) d → entry ∈ d ∨ entry ∈ rest := by
    intro rest
    induction rest with
    | nil => exact fun d h => Or.inl h
    | cons pair rest ih =>
        intro d h
        rcases ih _ h with h | h
        · rcases of_mem_assign h with rfl | h
          · exact Or.inr List.mem_cons_self
          · exact Or.inl h
        · exact Or.inr (List.mem_cons_of_mem _ h)
  exact (hfold pairs [] h).resolve_left List.not_mem_nil

/-- The last assignments of a dictionary stay. -/
theorem mem_dict_append {first pairs : List (S × V)} (hnodup : (pairs.map Prod.fst).Nodup)
    {entry : S × V} (h : entry ∈ pairs) : entry ∈ dict (first ++ pairs) := by
  have hkeep : ∀ rest d : List (S × V), entry ∈ d → entry.1 ∉ rest.map Prod.fst →
      entry ∈ rest.foldl (fun d pair => assign pair.1 pair.2 d) d := by
    intro rest
    induction rest with
    | nil => exact fun d h _ => h
    | cons pair rest ih =>
        intro d hd hnot
        rw [List.map_cons, List.mem_cons, not_or] at hnot
        exact ih _ (mem_assign_of_ne hd hnot.1) hnot.2
  have hfold : ∀ rest d : List (S × V), (rest.map Prod.fst).Nodup → entry ∈ rest →
      entry ∈ rest.foldl (fun d pair => assign pair.1 pair.2 d) d := by
    intro rest
    induction rest with
    | nil => exact fun d _ h => absurd h List.not_mem_nil
    | cons pair rest ih =>
        intro d hnodup h
        rw [List.map_cons, List.nodup_cons] at hnodup
        rcases List.mem_cons.mp h with rfl | h
        · exact hkeep rest _ (mem_assign_self _ _ _) hnodup.1
        · exact ih _ hnodup.2 h
  rw [dict, List.foldl_append]
  exact hfold pairs _ hnodup h

end Dict

end Equality

end Python
