import CodeCub.Python.Newlines
import CodeCub.Python.Utf8

/-!
# The paths a candidate may change

`pico/evolver/applier/path_guard.py`: a target is normalised to a repository-relative
path and compared, without regard to case, with the patterns of the kernel that no
candidate may change.
-/

namespace CodeCub
namespace Evolver

open Python

/-- `str.casefold` character by character; on ASCII it is `lower`. -/
structure CaseFolding where
  fold : Char → Str
  fold_ascii : ∀ c, c.toNat < 0x80 → fold c = [c.toLower]

def CaseFolding.casefold (folding : CaseFolding) (s : Str) : Str := s.flatMap folding.fold

def immutablePatterns : List Str :=
  ["pico/evolver/".toList, "pico/eval_engine/engine.py".toList,
    "pico/eval_engine/adapter/".toList, "pico/eval_engine/judge/".toList,
    "benchmarks/appworld/evolve/".toList, "benchmarks/appworld/batch.py".toList,
    "pico/agent/loop/main.py".toList, "pico/agent/context/".toList,
    "pico/agent/tools/base.py".toList, "pico/agent/tools/registry.py".toList,
    "pico/agent/personalizer/".toList, "pico/agent/subagent/".toList,
    "pico/agent/spine_runner.py".toList, "pico/spine/".toList, "pico/providers/".toList,
    "pico/session/".toList, "pico/memory_engine/".toList, "pico/context_engine/".toList,
    "pico/sandbox/".toList, "pico/security/".toList, "pico/config/__init__.py".toList,
    "pico/config/pico.py".toList, "pico/config/loader.py".toList, "pico/config/paths.py".toList,
    "pico/config/schema.py".toList, "pico/config/update.py".toList,
    "pico/config/update_channels.py".toList, "pico/config/update_providers.py".toList,
    "pico/eval_engine/hooks/tool_audit_hook.py".toList, "tests/".toList,
    "pyproject.toml".toList, "uv.lock".toList, ".github/".toList, "pico/__init__.py".toList]

def mutableOverrides : List Str := []

/-- Why a path is unsafe. -/
inductive UnsafePath where
  | nul
  | empty
  | notRelative
  | component
  | symlink
  | uninspected
  deriving DecidableEq

/-! ## Normalisation -/

def forwardSlashes (path : Str) : Str := path.map fun c => if c = backslash then '/' else c

/-- `while p.startswith("./"): p = p[2:]`. -/
def dropDotSlash : Str → Str
  | a :: b :: rest => if a = '.' ∧ b = '/' then dropDotSlash rest else a :: b :: rest
  | path => path

/-- `re.match(r"^[A-Za-z]:/", p)`. -/
def isDrive : Str → Bool
  | a :: b :: c :: _ => a.isAlpha && b = ':' && c = '/'
  | _ => false

def unsafeComponent (part : Str) : Bool := part = [] || part = ['.'] || part = ['.', '.']

/-- `_normalise`. -/
def normalise (path : Str) : Except UnsafePath Str :=
  if Char.ofNat 0 ∈ path then .error .nul
  else
    let p := dropDotSlash (forwardSlashes path)
    if p = [] then .error .empty
    else if p.head? = some '/' || isDrive p then .error .notRelative
    else if (p.splitOn '/').any unsafeComponent then .error .component
    else .ok p

/-! ## The kernel -/

/-- `_match`. -/
def matchesPattern (folding : CaseFolding) (path pattern : Str) : Bool :=
  let candidate := folding.casefold path
  let expected := folding.casefold pattern
  if expected.getLast? = some '/' then
    candidate = expected.rdropWhile (· = '/') || expected.isPrefixOf candidate
  else candidate = expected

def isImmutable (folding : CaseFolding) (path : Str) : Bool :=
  match normalise path with
  | .error _ => true
  | .ok norm =>
      if mutableOverrides.any (matchesPattern folding norm) then false
      else immutablePatterns.any (matchesPattern folding norm)

/-- The targets that are unsafe or immutable; `inspect` is `_assert_no_tree_symlink`. -/
def checkPatchPaths (folding : CaseFolding) (inspect : Str → Except UnsafePath Unit)
    (targetFiles : List Str) : List Str :=
  targetFiles.filter fun path =>
    match normalise path with
    | .error _ => true
    | .ok norm =>
        match inspect norm with
        | .error _ => true
        | .ok _ => isImmutable folding norm

/-- `assert_patch_allowed`: the offenders, where there are any. -/
def assertPatchAllowed (folding : CaseFolding) (inspect : Str → Except UnsafePath Unit)
    (targetFiles : List Str) : Except (List Str) Unit :=
  match checkPatchPaths folding inspect targetFiles with
  | [] => .ok ()
  | offenders => .error offenders

/-! ## Normalised paths -/

theorem dropDotSlash_idem (path : Str) : dropDotSlash (dropDotSlash path) = dropDotSlash path := by
  fun_induction dropDotSlash path with
  | case1 a b rest h ih => exact ih
  | case2 a b rest h => rw [dropDotSlash, if_neg h]
  | case3 path h => rw [dropDotSlash.eq_2 path h]

theorem dropDotSlash_suffix (path : Str) : dropDotSlash path <:+ path := by
  fun_induction dropDotSlash path with
  | case1 a b rest h ih => exact ih.trans ⟨[a, b], rfl⟩
  | case2 a b rest h => exact List.suffix_rfl
  | case3 path h => exact List.suffix_rfl

/-- What `_normalise` returns is normal. -/
theorem normalise_idem {path norm : Str} (h : normalise path = .ok norm) :
    normalise norm = .ok norm := by
  rw [normalise] at h
  split at h
  · cases h
  next hnul =>
  dsimp only at h
  split at h
  · cases h
  next hne =>
  split at h
  · cases h
  next hrelative =>
  split at h
  · cases h
  next hparts =>
  injection h with h
  have hplain : forwardSlashes norm = norm := by
    rw [forwardSlashes, List.map_congr_left (g := id), List.map_id]
    intro c hc
    rw [← h] at hc
    obtain ⟨d, _, hd⟩ := List.mem_map.mp ((dropDotSlash_suffix _).subset hc)
    refine if_neg ?_
    rintro rfl
    split at hd
    · cases hd
    · next hback => exact hback hd
  have hzero : Char.ofNat 0 ∉ norm := by
    intro hmem
    rw [← h] at hmem
    obtain ⟨d, hd, hsame⟩ := List.mem_map.mp ((dropDotSlash_suffix _).subset hmem)
    split at hsame
    · cases hsame
    · exact hnul (hsame ▸ hd)
  have hdrop : dropDotSlash norm = norm := by
    rw [← h]
    exact dropDotSlash_idem _
  rw [normalise, if_neg hzero]
  simp only [hplain, hdrop]
  rw [← h, if_neg hne, if_neg hrelative, if_neg hparts]

theorem isImmutable_normalise {folding : CaseFolding} {path norm : Str}
    (h : normalise path = .ok norm) : isImmutable folding norm = isImmutable folding path := by
  rw [isImmutable, isImmutable, h, normalise_idem h]

/-- Every target of an allowed patch may be changed. -/
theorem mutable_of_allowed {folding : CaseFolding} {inspect : Str → Except UnsafePath Unit}
    {targetFiles : List Str} (h : assertPatchAllowed folding inspect targetFiles = .ok ()) :
    ∀ path ∈ targetFiles, isImmutable folding path = false := by
  have hnone : checkPatchPaths folding inspect targetFiles = [] := by
    rw [assertPatchAllowed] at h
    split at h
    · assumption
    · cases h
  intro path hpath
  have hkept := List.filter_eq_nil_iff.mp hnone path hpath
  split at hkept
  · exact absurd rfl hkept
  next norm hnorm =>
  split at hkept
  · exact absurd rfl hkept
  · rw [isImmutable_normalise hnorm] at hkept
    simpa using hkept

/-! ## Carriage returns -/

theorem forwardSlashes_universalNewlines (path : Str) :
    forwardSlashes (universalNewlines path) = universalNewlines (forwardSlashes path) := by
  induction path with
  | nil => rfl
  | cons c rest ih =>
      by_cases hc : c = '\r'
      · subst hc
        have hhead : (forwardSlashes rest).head? = some '\n' ↔ rest.head? = some '\n' := by
          cases rest with
          | nil => exact Iff.rfl
          | cons d rest =>
              show some (if d = backslash then '/' else d) = some '\n' ↔ some d = some '\n'
              rw [Option.some.injEq, Option.some.injEq]
              split
              · next hd =>
                  subst hd
                  decide
              · exact Iff.rfl
        have hreturn : forwardSlashes ('\r' :: rest) = '\r' :: forwardSlashes rest := rfl
        rw [hreturn, universalNewlines, universalNewlines, if_pos rfl, if_pos rfl]
        by_cases hnewline : rest.head? = some '\n'
        · rw [if_pos hnewline, if_pos (hhead.mpr hnewline), ih]
        · rw [if_neg hnewline, if_neg (fun h => hnewline (hhead.mp h)), ← ih]
          rfl
      · have hslash : (if c = backslash then '/' else c) ≠ '\r' := by
          split
          · decide
          · exact hc
        have hcons : ∀ tail, forwardSlashes (c :: tail) =
            (if c = backslash then '/' else c) :: forwardSlashes tail := fun _ => rfl
        rw [universalNewlines_cons rest hc, hcons, hcons, universalNewlines_cons _ hslash, ih]

theorem dropDotSlash_universalNewlines (path : Str) :
    dropDotSlash (universalNewlines path) = universalNewlines (dropDotSlash path) := by
  have hkeep : ∀ path : Str, (∀ rest, path ≠ '.' :: '/' :: rest) → dropDotSlash path = path := by
    intro path h
    match path with
    | [] => rfl
    | [_] => rfl
    | a :: b :: rest =>
        rw [dropDotSlash, if_neg]
        rintro ⟨rfl, rfl⟩
        exact h rest rfl
  fun_induction dropDotSlash path with
  | case1 a b rest h ih =>
      obtain ⟨rfl, rfl⟩ := h
      rw [universalNewlines_cons _ (by decide), universalNewlines_cons _ (by decide), dropDotSlash,
        if_pos ⟨rfl, rfl⟩]
      exact ih
  | case2 a b rest h =>
      apply hkeep
      intro tail htail
      obtain ⟨more, hmore, hrest⟩ := universalNewlines_eq_cons htail (by decide)
      obtain ⟨last, hlast, _⟩ := universalNewlines_eq_cons hrest (by decide)
      rw [hlast] at hmore
      cases hmore
      exact h ⟨rfl, rfl⟩
  | case3 path h =>
      apply hkeep
      intro tail htail
      obtain ⟨more, hmore, hrest⟩ := universalNewlines_eq_cons htail (by decide)
      obtain ⟨last, hlast, _⟩ := universalNewlines_eq_cons hrest (by decide)
      rw [hlast] at hmore
      exact h _ _ _ hmore

theorem head_universalNewlines (path : Str) :
    (universalNewlines path).head? = some '/' ↔ path.head? = some '/' := by
  constructor
  · intro h
    obtain ⟨rest, hrest⟩ := List.head?_eq_some_iff.mp h
    obtain ⟨more, rfl, _⟩ := universalNewlines_eq_cons hrest (by decide)
    rfl
  · intro h
    obtain ⟨rest, rfl⟩ := List.head?_eq_some_iff.mp h
    rw [universalNewlines_cons _ (by decide)]
    rfl

theorem isDrive_iff {path : Str} :
    isDrive path = true ↔ ∃ a rest, a.isAlpha = true ∧ path = a :: ':' :: '/' :: rest := by
  constructor
  · intro h
    unfold isDrive at h
    split at h
    · next a b c rest =>
        simp only [Bool.and_eq_true, decide_eq_true_eq] at h
        obtain ⟨⟨ha, rfl⟩, rfl⟩ := h
        exact ⟨a, rest, ha, rfl⟩
    · cases h
  · rintro ⟨a, rest, ha, rfl⟩
    simp [isDrive, ha]

theorem isDrive_universalNewlines (path : Str) :
    isDrive (universalNewlines path) = true ↔ isDrive path = true := by
  rw [isDrive_iff, isDrive_iff]
  constructor
  · rintro ⟨a, rest, ha, hpath⟩
    have hnewline : a ≠ '\n' := by
      rintro rfl
      cases ha
    obtain ⟨p, rfl, hp⟩ := universalNewlines_eq_cons hpath hnewline
    obtain ⟨q, rfl, hq⟩ := universalNewlines_eq_cons hp (by decide)
    obtain ⟨r, rfl, _⟩ := universalNewlines_eq_cons hq (by decide)
    exact ⟨a, r, ha, rfl⟩
  · rintro ⟨a, rest, ha, rfl⟩
    have hreturn : a ≠ '\r' := by
      rintro rfl
      cases ha
    refine ⟨a, universalNewlines rest, ha, ?_⟩
    rw [universalNewlines_cons _ hreturn, universalNewlines_cons _ (by decide),
      universalNewlines_cons _ (by decide)]

theorem unsafeComponent_universalNewlines (part : Str) :
    unsafeComponent (universalNewlines part) = unsafeComponent part := by
  by_cases hreturn : '\r' ∈ part
  · obtain ⟨a, b, rfl⟩ := List.append_of_mem hreturn
    have hpart : unsafeComponent (a ++ '\r' :: b) = false := by
      rw [Bool.eq_false_iff]
      intro h
      simp only [unsafeComponent, Bool.or_eq_true, decide_eq_true_eq] at h
      rcases h with (h | h) | h
      all_goals
        rw [h] at hreturn
        exact absurd hreturn (by decide)
    have hnewline : '\n' ∈ universalNewlines (a ++ '\r' :: b) := by
      clear hreturn hpart
      induction a with
      | nil =>
          obtain ⟨rest, hrest⟩ := universalNewlines_return b
          rw [List.nil_append, hrest]
          exact List.mem_cons_self
      | cons c a ih =>
          rw [List.cons_append, universalNewlines]
          split
          · split
            · exact ih
            · exact List.mem_cons_self
          · exact List.mem_cons_of_mem _ ih
    rw [hpart, Bool.eq_false_iff]
    intro h
    simp only [unsafeComponent, Bool.or_eq_true, decide_eq_true_eq] at h
    rcases h with (h | h) | h
    all_goals
      rw [h] at hnewline
      exact absurd hnewline (by decide)
  · rw [universalNewlines_of_not_mem hreturn]

/-- Newlines play no part in what is a safe path. -/
theorem normalise_universalNewlines (path : Str) :
    normalise (universalNewlines path) = (normalise path).map universalNewlines := by
  have hnul : Char.ofNat 0 ∈ universalNewlines path ↔ Char.ofNat 0 ∈ path :=
    mem_universalNewlines (by decide) (by decide)
  have hparts : ∀ p : Str, ((universalNewlines p).splitOn '/').any unsafeComponent =
      (p.splitOn '/').any unsafeComponent := by
    intro p
    rw [splitOn_universalNewlines (by decide) (by decide), List.any_map]
    exact congrArg _ (funext unsafeComponent_universalNewlines)
  rw [normalise, normalise]
  by_cases hzero : Char.ofNat 0 ∈ path
  · rw [if_pos hzero, if_pos (hnul.mpr hzero)]
    rfl
  rw [if_neg hzero, if_neg (fun h => hzero (hnul.mp h))]
  simp only [forwardSlashes_universalNewlines, dropDotSlash_universalNewlines,
    universalNewlines_eq_nil, hparts, Bool.or_eq_true, decide_eq_true_eq, head_universalNewlines,
    isDrive_universalNewlines]
  split
  · rfl
  split
  · rfl
  split
  · rfl
  · rfl

/-! ## Patterns -/

theorem casefold_append (folding : CaseFolding) (a b : Str) :
    folding.casefold (a ++ b) = folding.casefold a ++ folding.casefold b := List.flatMap_append

theorem casefold_return (folding : CaseFolding) (rest : Str) :
    folding.casefold ('\r' :: rest) = '\r' :: folding.casefold rest := by
  rw [CaseFolding.casefold, List.flatMap_cons, folding.fold_ascii _ (by decide)]
  rfl

theorem casefold_ascii (folding : CaseFolding) {s : Str} (h : IsAscii s) :
    folding.casefold s = s.map Char.toLower := by
  induction s with
  | nil => rfl
  | cons c s ih =>
      rw [CaseFolding.casefold, List.flatMap_cons, folding.fold_ascii c (h c List.mem_cons_self)]
      exact congrArg _ (ih fun d hd => h d (List.mem_cons_of_mem _ hd))

/-- The patterns are lower case and hold no carriage return. -/
theorem casefold_pattern (folding : CaseFolding) {pattern : Str} (h : pattern ∈ immutablePatterns) :
    folding.casefold pattern = pattern ∧ '\r' ∉ pattern := by
  have hall : ∀ pattern ∈ immutablePatterns,
      IsAscii pattern ∧ pattern.map Char.toLower = pattern ∧ '\r' ∉ pattern := by decide +kernel
  obtain ⟨hascii, hlower, hreturn⟩ := hall pattern h
  exact ⟨(casefold_ascii folding hascii).trans hlower, hreturn⟩

/-- What begins a text and does not hold `c` ends before the first `c`. -/
theorem prefix_before {l a b : Str} {c : Char} (h : l <+: a ++ c :: b) (hc : c ∉ l) : l <+: a := by
  rcases List.prefix_or_prefix_of_prefix h (List.prefix_append a (c :: b)) with hla | ⟨m, rfl⟩
  · exact hla
  · rw [List.prefix_append_right_inj] at h
    cases m with
    | nil => simp
    | cons d m =>
        rw [List.cons_prefix_cons] at h
        exact absurd (List.mem_append_right a (h.1 ▸ List.mem_cons_self)) hc

theorem matchesPattern_universalNewlines {folding : CaseFolding} {path pattern : Str}
    (hpattern : pattern ∈ immutablePatterns) (h : matchesPattern folding path pattern = true) :
    matchesPattern folding (universalNewlines path) pattern = true := by
  by_cases hmem : '\r' ∈ path
  swap
  · rw [universalNewlines_of_not_mem hmem]
    exact h
  obtain ⟨hfold, hreturn⟩ := casefold_pattern folding hpattern
  obtain ⟨a, b, rfl, hfirst⟩ := List.eq_append_cons_of_mem hmem
  have hcandidate : folding.casefold (a ++ '\r' :: b) =
      folding.casefold a ++ '\r' :: folding.casefold b := by
    rw [casefold_append, casefold_return]
  have hne : ∀ text : Str, '\r' ∉ text → folding.casefold (a ++ '\r' :: b) ≠ text := by
    rintro text htext rfl
    rw [hcandidate] at htext
    exact htext (List.mem_append_right _ List.mem_cons_self)
  unfold matchesPattern at h ⊢
  rw [hfold] at h ⊢
  simp only at h ⊢
  split at h
  · next hdirectory =>
      rw [if_pos hdirectory]
      rw [Bool.or_eq_true, decide_eq_true_eq, List.isPrefixOf_iff_prefix] at h
      have hprefix := h.resolve_left
        (hne _ fun hr => hreturn ((List.rdropWhile_prefix _ _).subset hr))
      rw [hcandidate] at hprefix
      rw [Bool.or_eq_true, List.isPrefixOf_iff_prefix, universalNewlines_append _ hfirst,
        casefold_append]
      exact Or.inr ((prefix_before hprefix hreturn).trans (List.prefix_append _ _))
  · rw [decide_eq_true_eq] at h
    exact absurd h (hne _ hreturn)

/-- A path of the kernel is one still when it is read in text mode. -/
theorem isImmutable_universalNewlines {folding : CaseFolding} {path : Str}
    (h : isImmutable folding path = true) :
    isImmutable folding (universalNewlines path) = true := by
  rw [isImmutable, normalise_universalNewlines]
  rw [isImmutable] at h
  cases hnorm : normalise path with
  | error reason => rfl
  | ok norm =>
      rw [hnorm] at h
      obtain ⟨pattern, hpattern, hmatch⟩ := List.any_eq_true.mp h
      exact List.any_eq_true.mpr
        ⟨pattern, hpattern, matchesPattern_universalNewlines hpattern hmatch⟩

end Evolver
end CodeCub
