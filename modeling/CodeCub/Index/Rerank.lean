import CodeCub.Python.Json
import CodeCub.Python.StableSort
import Mathlib.Algebra.Order.Ring.Rat
import Mathlib.Data.Finset.Card

/-!
# Reranking

`codecub/retrieval.py`: the candidates that go to the reranker, and the list that `retrieve`
goes on with.  Up to two protected candidates are pulled in front of the others before the
batch is filled up, wherever in the ranking they stood.
-/

namespace CodeCub
namespace Index

open Python
open scoped List

/-- The arithmetic of floats, as far as the scores ask for it. -/
structure Arithmetic (F : Type) where
  ofNat : ℕ → F
  half : F
  mul : F → F → F
  div : F → F → F
  sum : List F → F

structure FusionWeights (F : Type) where
  lexical : F
  ast : F
  semantic : F
  rerank : F
  pathAffinity : F
  symbolAffinity : F

structure Ranks where
  lexical : Option ℕ
  ast : Option ℕ
  semantic : Option ℕ
  rerank : Option ℕ
  deriving DecidableEq

structure Candidate (F : Type) where
  path : Str
  start : ℤ
  stop : ℤ
  text : Str
  symbol : Str
  score : F
  ranks : Ranks
  deriving DecidableEq

variable {F : Type}

def Candidate.key (candidate : Candidate F) : Str × ℤ × ℤ :=
  (candidate.path, candidate.start, candidate.stop)

/-! ## Affinity -/

def stopWords : List Str :=
  ["where", "is", "the", "of", "to", "in", "a", "an"].map String.toList

/-- `re.sub(r"(?<=[a-z0-9])(?=[A-Z])", " ", value)`. -/
def camelSplit : Str → Str
  | a :: b :: rest =>
      if (a.isLower || a.isDigit) && b.isUpper then a :: ' ' :: camelSplit (b :: rest)
      else a :: camelSplit (b :: rest)
  | text => text

/-- `[\\/_\-.\s]`. -/
def isSeparator (c : Char) : Bool :=
  c = '\\' || c = '/' || c = '_' || c = '-' || c = '.' || isSpace c

section
variable (lower : Str → Str) (ops : Arithmetic F)

def normalizedTokens (value : Str) : Finset Str :=
  ((((camelSplit value).splitOnP isSeparator).filter fun token =>
    token ≠ [] ∧ lower token ∉ stopWords).map lower).toFinset

def pathAffinityScore (query path : Str) : F :=
  let queryTokens := normalizedTokens lower query
  let pathTokens := normalizedTokens lower path
  if queryTokens.card = 0 then ops.ofNat 0
  else ops.div (ops.ofNat (queryTokens ∩ pathTokens).card) (ops.ofNat queryTokens.card)

def symbolAffinityScore (query symbol : Str) : F :=
  let queryTokens := normalizedTokens lower query
  if queryTokens.card = 0 ∨ symbol = [] then ops.ofNat 0
  else
    ops.div (ops.ofNat (queryTokens ∩ normalizedTokens lower symbol).card)
      (ops.ofNat queryTokens.card)

/-! ## Evidence -/

/-- The component of one source.  A rank 0 counts as none. -/
def rankComponent (weight : F) : Option ℕ → F
  | none => ops.ofNat 0
  | some 0 => ops.ofNat 0
  | some rank => ops.div weight (ops.ofNat (60 + rank))

def fuseCandidateEvidence (candidate : Candidate F) (query : Str) (weights : FusionWeights F) :
    F :=
  ops.sum [
    rankComponent ops weights.lexical candidate.ranks.lexical,
    rankComponent ops weights.ast candidate.ranks.ast,
    rankComponent ops weights.semantic candidate.ranks.semantic,
    rankComponent ops weights.rerank candidate.ranks.rerank,
    ops.mul weights.pathAffinity (pathAffinityScore lower ops query candidate.path),
    ops.mul weights.symbolAffinity (symbolAffinityScore lower ops query candidate.symbol)]

def truthy (rank : Option ℕ) : Bool := rank.any (· ≠ 0)

inductive ProtectionReason
  | pathAffinity
  | symbolAffinity
  | lexicalSemantic
  | astEvidence
  deriving DecidableEq, Repr

variable [LinearOrder F]

def protectionReasons (query : Str) (candidate : Candidate F) : List ProtectionReason :=
  (if ops.half ≤ pathAffinityScore lower ops query candidate.path then [.pathAffinity] else []) ++
  (if ops.half ≤ symbolAffinityScore lower ops query candidate.symbol then [.symbolAffinity]
    else []) ++
  (if truthy candidate.ranks.lexical && truthy candidate.ranks.semantic then [.lexicalSemantic]
    else []) ++
  (if truthy candidate.ranks.ast then [.astEvidence] else [])

def isProtected (query : Str) (candidate : Candidate F) : Bool :=
  !(protectionReasons lower ops query candidate).isEmpty

/-- The order of `sorted(.., key=pre_rerank_score, reverse=True)`. -/
def strongerFirst (query : Str) (weights : FusionWeights F) (a b : Candidate F) : Bool :=
  fuseCandidateEvidence lower ops b query weights ≤ fuseCandidateEvidence lower ops a query weights

/-! ## The batch -/

omit [LinearOrder F] in
/-- The loop that fills the batch up to the limit. -/
def fillUp (limit : ℕ) : List (Candidate F) → List (Candidate F) → List (Candidate F)
  | selected, [] => selected
  | selected, candidate :: candidates =>
      if limit ≤ selected.length then selected
      else if candidate.key ∈ selected.map Candidate.key then fillUp limit selected candidates
      else fillUp limit (selected ++ [candidate]) candidates

def protectedFirst (candidates : List (Candidate F)) (query : Str) (limit : ℕ)
    (weights : FusionWeights F) : List (Candidate F) :=
  ((candidates.filter (isProtected lower ops query)).mergeSort
    (strongerFirst lower ops query weights)).take (min 2 limit)

def selectPreRerankCandidates (candidates : List (Candidate F)) (query : Str) (limit : ℕ)
    (weights : FusionWeights F) : List (Candidate F) :=
  fillUp limit (protectedFirst lower ops candidates query limit weights) candidates

/-- The limit that the retriever keeps. -/
def rerankLimit (candidateLimit : ℤ) : ℕ := (max 1 candidateLimit).toNat

/-- The list that `retrieve` goes on with: what the reranker answered, the rest of the batch,
and the candidates behind as many as the batch has.  A reranker that raises changes
nothing. -/
def continuesWith (reranker : Str → List (Candidate F) → Option (List (Candidate F)))
    (query : Str) (candidateLimit : ℤ) (weights : FusionWeights F)
    (ranked : List (Candidate F)) : List (Candidate F) :=
  if ranked = [] then ranked
  else
    let inputs := selectPreRerankCandidates lower ops ranked query (rerankLimit candidateLimit)
      weights
    match reranker query inputs with
    | none => ranked
    | some items =>
        let rest := inputs.filter fun item => item.key ∉ items.map Candidate.key
        (items ++ rest) ++ ranked.drop inputs.length

end

/-! ## What is asked of it -/

/-- An answer that has documents of the batch, and none of them twice.  A reranker may answer
copies with scores of its own. -/
structure IsSelection (documents answer : List (Candidate F)) : Prop where
  given : ∀ item ∈ answer, item.key ∈ documents.map Candidate.key
  once : (answer.map Candidate.key).Nodup

/-- Every candidate stands in the list once. -/
def KeepsEach (ranked result : List (Candidate F)) : Prop :=
  ∀ candidate ∈ ranked, (result.map Candidate.key).count candidate.key = 1

/-- The protected candidates that go in front, those with less than two protected ones
before them in the order of their scores, are among the first ones of the ranking. -/
def ProtectedInFront [LinearOrder F] (lower : Str → Str) (ops : Arithmetic F) (query : Str)
    (limit : ℕ) (weights : FusionWeights F) (ranked : List (Candidate F)) : Prop :=
  ∀ p ∈ (ranked.filter (isProtected lower ops query)).zipIdx,
    sortedPlace (strongerFirst lower ops query weights)
      (ranked.filter (isProtected lower ops query)) p < min 2 limit →
    p.1 ∈ ranked.take limit

/-! ## Filling the batch -/

theorem isSelection_self {documents : List (Candidate F)}
    (hkeys : (documents.map Candidate.key).Nodup) : IsSelection documents documents :=
  ⟨fun _ hitem => List.mem_map_of_mem hitem, hkeys⟩

section
variable {ranked : List (Candidate F)}

theorem eq_of_key_eq (hkeys : (ranked.map Candidate.key).Nodup) {a b : Candidate F}
    (ha : a ∈ ranked) (hb : b ∈ ranked) (h : a.key = b.key) : a = b :=
  List.inj_on_of_nodup_map hkeys ha hb h

/-- The candidates that are not selected yet come in their order, as many as there is room
for. -/
theorem fillUp_eq (limit : ℕ) {candidates : List (Candidate F)}
    (hkeys : (candidates.map Candidate.key).Nodup) (selected : List (Candidate F)) :
    fillUp limit selected candidates = selected ++
      (candidates.filter fun c => c.key ∉ selected.map Candidate.key).take
        (limit - selected.length) := by
  induction candidates generalizing selected with
  | nil => rw [fillUp, List.filter_nil, List.take_nil, List.append_nil]
  | cons candidate candidates ih =>
      obtain ⟨hnew, hkeys⟩ := List.nodup_cons.mp hkeys
      rw [fillUp]
      by_cases hfull : limit ≤ selected.length
      · have hroom : limit - selected.length = 0 := by omega
        rw [if_pos hfull, hroom, List.take_zero, List.append_nil]
      rw [if_neg hfull]
      by_cases hmem : candidate.key ∈ selected.map Candidate.key
      · rw [if_pos hmem, ih hkeys, List.filter_cons_of_neg (by simpa using hmem)]
      · have hroom : limit - selected.length = limit - (selected ++ [candidate]).length + 1 := by
          rw [List.length_append, List.length_singleton]
          omega
        have hsame : candidates.filter (fun c => c.key ∉ (selected ++ [candidate]).map
              Candidate.key) =
            candidates.filter fun c => c.key ∉ selected.map Candidate.key := by
          refine List.filter_congr fun c hc => ?_
          have hne : c.key ≠ candidate.key := fun he => hnew (he ▸ List.mem_map_of_mem hc)
          rw [List.map_append, List.map_singleton, decide_eq_decide, List.mem_append,
            List.mem_singleton]
          simp [hne]
        rw [if_neg hmem, ih hkeys, hsame, List.filter_cons_of_pos (by simpa using hmem), hroom,
          List.take_succ_cons, List.append_assoc]
        rfl

theorem length_fillUp {limit : ℕ} (hkeys : (ranked.map Candidate.key).Nodup)
    {chosen : List (Candidate F)} (hchosen : chosen.length ≤ limit) :
    (fillUp limit chosen ranked).length ≤ limit := by
  rw [fillUp_eq limit hkeys, List.length_append, List.length_take]
  omega

/-- Candidates chosen from the front, and the rest of the front, are the front. -/
theorem chosen_perm (hkeys : (ranked.map Candidate.key).Nodup) {front chosen : List (Candidate F)}
    (hfront : front.Sublist ranked) (hchosen : chosen.Nodup) (hsub : ∀ c ∈ chosen, c ∈ front) :
    chosen ++ front.filter (fun c => c.key ∉ chosen.map Candidate.key) ~ front := by
  have hnodup : front.Nodup := (hfront.map Candidate.key).nodup hkeys |>.of_map
  have hapart : ∀ a ∈ chosen, ∀ b ∈ front.filter (fun c => c.key ∉ chosen.map Candidate.key),
      a ≠ b := by
    rintro a ha b hb rfl
    have hnot := (List.mem_filter.mp hb).2
    exact absurd (List.mem_map_of_mem ha) (by simpa using hnot)
  refine (List.perm_ext_iff_of_nodup ?_ hnodup).mpr fun c => ?_
  · exact List.nodup_append.mpr ⟨hchosen, hnodup.filter _, hapart⟩
  · rw [List.mem_append, List.mem_filter, decide_eq_true_eq]
    constructor
    · rintro (hc | ⟨hc, _⟩)
      · exact hsub c hc
      · exact hc
    · intro hc
      by_cases hmem : c.key ∈ chosen.map Candidate.key
      · obtain ⟨d, hd, hkey⟩ := List.mem_map.mp hmem
        have heq := eq_of_key_eq hkeys (hfront.subset (hsub d hd)) (hfront.subset hc) hkey
        exact Or.inl (heq ▸ hd)
      · exact Or.inr ⟨hc, hmem⟩

/-- If the chosen ones stood in front, the batch is the front. -/
theorem batch_perm (hkeys : (ranked.map Candidate.key).Nodup) {chosen : List (Candidate F)}
    {limit : ℕ} (hchosen : chosen.Nodup) (hsub : ∀ c ∈ chosen, c ∈ ranked.take limit) :
    fillUp limit chosen ranked ~ ranked.take limit := by
  have hperm := chosen_perm hkeys (List.take_sublist limit ranked) hchosen hsub
  have hlength := hperm.length_eq
  rw [List.length_append, List.length_take] at hlength
  rw [fillUp_eq limit hkeys]
  rcases Nat.le_total limit ranked.length with hle | hle
  · have htake : (ranked.filter fun c => c.key ∉ chosen.map Candidate.key).take
          (limit - chosen.length) =
        (ranked.take limit).filter fun c => c.key ∉ chosen.map Candidate.key := by
      conv_lhs => rw [← List.take_append_drop limit ranked, List.filter_append]
      rw [List.take_left' (by omega)]
    rw [htake]
    exact hperm
  · rw [List.take_of_length_le hle] at hperm hlength ⊢
    rw [List.take_of_length_le (by omega)]
    exact hperm

/-- An answer and what it left out are the batch. -/
theorem answer_perm {inputs items : List (Candidate F)}
    (hinputs : (inputs.map Candidate.key).Nodup) (hitems : IsSelection inputs items) :
    (items ++ inputs.filter fun c => c.key ∉ items.map Candidate.key).map Candidate.key ~
      inputs.map Candidate.key := by
  have hrest : ((inputs.filter fun c => c.key ∉ items.map Candidate.key).map
      Candidate.key).Nodup := (List.filter_sublist.map Candidate.key).nodup hinputs
  have hapart : ∀ a ∈ items.map Candidate.key,
      ∀ b ∈ (inputs.filter fun c => c.key ∉ items.map Candidate.key).map Candidate.key,
        a ≠ b := by
    rintro a ha b hb rfl
    obtain ⟨c, hc, rfl⟩ := List.mem_map.mp hb
    exact absurd ha (by simpa using (List.mem_filter.mp hc).2)
  rw [List.map_append]
  refine (List.perm_ext_iff_of_nodup
    (List.nodup_append.mpr ⟨hitems.once, hrest, hapart⟩) hinputs).mpr fun key => ?_
  rw [List.mem_append]
  constructor
  · rintro (hkey | hkey)
    · obtain ⟨item, hitem, rfl⟩ := List.mem_map.mp hkey
      exact hitems.given item hitem
    · obtain ⟨c, hc, rfl⟩ := List.mem_map.mp hkey
      exact List.mem_map_of_mem (List.mem_filter.mp hc).1
  · intro hkey
    by_cases hmem : key ∈ items.map Candidate.key
    · exact Or.inl hmem
    · obtain ⟨c, hc, rfl⟩ := List.mem_map.mp hkey
      exact Or.inr (List.mem_map_of_mem (List.mem_filter.mpr ⟨hc, by simpa using hmem⟩))

/-! ## The ranking after the reranker -/

variable [LinearOrder F] (lower : Str → Str) (ops : Arithmetic F) (query : Str)
  (weights : FusionWeights F)

theorem strongerFirst_total (a b : Candidate F) :
    (strongerFirst lower ops query weights a b || strongerFirst lower ops query weights b a) =
      true := by
  simp [strongerFirst, le_total]

theorem strongerFirst_trans (a b c : Candidate F)
    (hab : strongerFirst lower ops query weights a b = true)
    (hbc : strongerFirst lower ops query weights b c = true) :
    strongerFirst lower ops query weights a c = true := by
  simp only [strongerFirst, decide_eq_true_eq] at hab hbc ⊢
  exact le_trans hbc hab

variable {lower ops query weights}

theorem protectedInFront_iff {limit : ℕ} :
    ProtectedInFront lower ops query limit weights ranked ↔
      ∀ c ∈ protectedFirst lower ops ranked query limit weights, c ∈ ranked.take limit := by
  have hplaces := fun c : Candidate F =>
    mem_take_mergeSort (strongerFirst_total lower ops query weights)
      (strongerFirst_trans lower ops query weights)
      (l := ranked.filter (isProtected lower ops query)) (k := min 2 limit) (a := c)
  constructor
  · intro h c hc
    obtain ⟨p, hp, hplace, rfl⟩ := (hplaces c).mp hc
    exact h p hp hplace
  · exact fun h p hp hplace => h p.1 ((hplaces p.1).mpr ⟨p, hp, hplace, rfl⟩)

theorem protectedFirst_subperm (limit : ℕ) :
    protectedFirst lower ops ranked query limit weights <+~ ranked :=
  (List.take_sublist _ _).subperm.trans
    ((List.mergeSort_perm _ _).subperm.trans List.filter_sublist.subperm)

theorem nodup_protectedFirst (hkeys : (ranked.map Candidate.key).Nodup) (limit : ℕ) :
    (protectedFirst lower ops ranked query limit weights).Nodup := by
  have hsubperm : protectedFirst lower ops ranked query limit weights <+~ ranked :=
    protectedFirst_subperm limit
  obtain ⟨l, hperm, hsub⟩ := hsubperm
  exact hperm.nodup_iff.mp (hsub.nodup hkeys.of_map)

theorem length_protectedFirst (limit : ℕ) :
    (protectedFirst lower ops ranked query limit weights).length ≤ limit := by
  rw [protectedFirst, List.length_take]
  omega

/-- The batch has candidates of the ranking, and none of them twice. -/
theorem isSelection_batch (hkeys : (ranked.map Candidate.key).Nodup) (limit : ℕ) :
    IsSelection ranked (selectPreRerankCandidates lower ops ranked query limit weights) := by
  have hsub : protectedFirst lower ops ranked query limit weights <+~ ranked :=
    protectedFirst_subperm limit
  rw [selectPreRerankCandidates, fillUp_eq limit hkeys]
  refine ⟨fun item hitem => List.mem_map_of_mem ?_, ?_⟩
  · rcases List.mem_append.mp hitem with hitem | hitem
    · exact hsub.subset hitem
    · exact (List.mem_filter.mp (List.mem_of_mem_take hitem)).1
  · obtain ⟨l, hperm, hlist⟩ := hsub
    have hchosen := (hperm.map Candidate.key).nodup_iff.mp ((hlist.map Candidate.key).nodup hkeys)
    rw [List.map_append]
    refine List.nodup_append.mpr ⟨hchosen, ?_, ?_⟩
    · exact (((List.take_sublist _ _).trans List.filter_sublist).map Candidate.key).nodup hkeys
    · rintro key hkey key' hkey' rfl
      obtain ⟨c, hc, rfl⟩ := List.mem_map.mp hkey'
      exact absurd hkey (by simpa using (List.mem_filter.mp (List.mem_of_mem_take hc)).2)

theorem continuesWith_eq {reranker : Str → List (Candidate F) → Option (List (Candidate F))}
    {candidateLimit : ℤ} {items : List (Candidate F)} (hranked : ranked ≠ [])
    (hanswer : reranker query (selectPreRerankCandidates lower ops ranked query
      (rerankLimit candidateLimit) weights) = some items) :
    continuesWith lower ops reranker query candidateLimit weights ranked =
      (items ++ (selectPreRerankCandidates lower ops ranked query (rerankLimit candidateLimit)
        weights).filter fun item => item.key ∉ items.map Candidate.key) ++
        ranked.drop (selectPreRerankCandidates lower ops ranked query
          (rerankLimit candidateLimit) weights).length := by
  rw [continuesWith, if_neg hranked]
  simp only [hanswer]

section
variable {reranker : Str → List (Candidate F) → Option (List (Candidate F))}
  {candidateLimit : ℤ} {items : List (Candidate F)}
  (hkeys : (ranked.map Candidate.key).Nodup)
  (hanswer : reranker query (selectPreRerankCandidates lower ops ranked query
    (rerankLimit candidateLimit) weights) = some items)
  (hselection : IsSelection (selectPreRerankCandidates lower ops ranked query
    (rerankLimit candidateLimit) weights) items)
include hkeys hanswer hselection

/-- A protected candidate from behind the front is in the batch, and in the tail too. -/
theorem protectedInFront_of_keepsEach
    (hkeeps : KeepsEach ranked
      (continuesWith lower ops reranker query candidateLimit weights ranked)) :
    ProtectedInFront lower ops query (rerankLimit candidateLimit) weights ranked := by
  rw [protectedInFront_iff]
  intro c hc
  have hranked : c ∈ ranked := (protectedFirst_subperm _).subset hc
  have hinputs : IsSelection ranked (selectPreRerankCandidates lower ops ranked query
      (rerankLimit candidateLimit) weights) := isSelection_batch hkeys _
  have hcount := hkeeps c hranked
  rw [continuesWith_eq (List.ne_nil_of_mem hranked) hanswer, List.map_append, List.count_append,
    (answer_perm hinputs.once hselection).count_eq] at hcount
  set inputs := selectPreRerankCandidates lower ops ranked query (rerankLimit candidateLimit)
    weights with hbatch
  have hinput : c ∈ inputs := by
    rw [hbatch, selectPreRerankCandidates, fillUp_eq _ hkeys]
    exact List.mem_append_left _ hc
  by_contra hback
  have hbound : inputs.length ≤ rerankLimit candidateLimit :=
    length_fillUp hkeys (length_protectedFirst _)
  have hdrop : c ∈ ranked.drop inputs.length := by
    rw [← List.take_append_drop (rerankLimit candidateLimit) ranked, List.mem_append] at hranked
    exact List.drop_subset_drop_left ranked hbound (hranked.resolve_left hback)
  have hfirst := List.count_pos_iff.mpr (List.mem_map_of_mem (f := Candidate.key) hinput)
  have hsecond := List.count_pos_iff.mpr (List.mem_map_of_mem (f := Candidate.key) hdrop)
  omega

/-- If the batch is the front of the ranking, the parts make up the ranking. -/
theorem keepsEach_of_protectedInFront
    (hfront : ProtectedInFront lower ops query (rerankLimit candidateLimit) weights ranked) :
    KeepsEach ranked (continuesWith lower ops reranker query candidateLimit weights ranked) := by
  rw [protectedInFront_iff] at hfront
  intro c hc
  have hinputs : IsSelection ranked (selectPreRerankCandidates lower ops ranked query
      (rerankLimit candidateLimit) weights) := isSelection_batch hkeys _
  have hanswered := answer_perm hinputs.once hselection
  rw [continuesWith_eq (List.ne_nil_of_mem hc) hanswer]
  set limit := rerankLimit candidateLimit
  set inputs := selectPreRerankCandidates lower ops ranked query limit weights
  have hperm : inputs ~ ranked.take limit := batch_perm hkeys (nodup_protectedFirst hkeys limit)
    hfront
  have hrest : ranked.drop inputs.length = ranked.drop limit := by
    have hlength := hperm.length_eq
    rw [List.length_take] at hlength
    rcases Nat.le_total limit ranked.length with hle | hle
    · rw [hlength, Nat.min_eq_left hle]
    · rw [List.drop_eq_nil_of_le hle, List.drop_eq_nil_of_le (by omega)]
  have hall : ((items ++ inputs.filter fun item => item.key ∉ items.map Candidate.key) ++
      ranked.drop inputs.length).map Candidate.key ~ ranked.map Candidate.key := by
    rw [List.map_append, hrest]
    refine (hanswered.append_right _).trans ?_
    rw [← List.map_append]
    refine ((hperm.append_right _).map Candidate.key).trans ?_
    rw [List.take_append_drop]
  rw [hall.count_eq]
  exact List.count_eq_one_of_mem hkeys (List.mem_map_of_mem hc)

end

/-- Reranking loses no candidate, and doubles none, if and only if the protected candidates
that it pulls in front of the batch stood among the first ones already. -/
theorem reranking_keepsEach_iff
    (reranker : Str → List (Candidate F) → Option (List (Candidate F))) (candidateLimit : ℤ)
    (items : List (Candidate F)) (hkeys : (ranked.map Candidate.key).Nodup)
    (hanswer : reranker query (selectPreRerankCandidates lower ops ranked query
      (rerankLimit candidateLimit) weights) = some items)
    (hselection : IsSelection (selectPreRerankCandidates lower ops ranked query
      (rerankLimit candidateLimit) weights) items) :
    KeepsEach ranked
        (continuesWith lower ops reranker query candidateLimit weights ranked) ↔
      ProtectedInFront lower ops query (rerankLimit candidateLimit) weights ranked :=
  ⟨protectedInFront_of_keepsEach hkeys hanswer hselection,
    keepsEach_of_protectedInFront hkeys hanswer hselection⟩

end

/-! The second candidate has a definition behind it, and the batch has one place. -/

def rationalArithmetic : Arithmetic ℚ where
  ofNat := fun n => n
  half := 1 / 2
  mul := (· * ·)
  div := (· / ·)
  sum := List.sum

def defaultWeights : FusionWeights ℚ where
  lexical := 7 / 10
  ast := 8 / 10
  semantic := 1
  rerank := 11 / 10
  pathAffinity := 4 / 1000
  symbolAffinity := 4 / 1000

def foundIn (path : String) (ranks : Ranks) : Candidate ℚ where
  path := path.toList
  start := 1
  stop := 9
  text := []
  symbol := []
  score := 0
  ranks := ranks

def semanticHit : Candidate ℚ := foundIn "a.py" ⟨none, none, some 1, none⟩

def definitionHit : Candidate ℚ := foundIn "b.py" ⟨none, some 1, none, none⟩

def asciiLower (text : Str) : Str := text.map Char.toLower

/-- A reranker that leaves the order as it is. -/
def sameOrder (_ : Str) (documents : List (Candidate ℚ)) : Option (List (Candidate ℚ)) :=
  some documents

theorem reranking_keepsEach_definitionFirst :
    KeepsEach [definitionHit, semanticHit]
      (continuesWith asciiLower rationalArithmetic sameOrder "load".toList 1 defaultWeights
        [definitionHit, semanticHit]) :=
  (reranking_keepsEach_iff sameOrder 1 _ (by decide) rfl
    (isSelection_self (isSelection_batch (by decide) _).once)).mpr
    (by unfold ProtectedInFront; decide +kernel)

/-- The hit of the vectors is lost, and the other one comes twice. -/
theorem reranking_loses_candidate :
    ¬ ∀ (reranker : Str → List (Candidate ℚ) → Option (List (Candidate ℚ))) (query : Str)
      (candidateLimit : ℤ) (ranked items : List (Candidate ℚ)),
      (ranked.map Candidate.key).Nodup →
        reranker query (selectPreRerankCandidates asciiLower rationalArithmetic ranked query
          (rerankLimit candidateLimit) defaultWeights) = some items →
        IsSelection (selectPreRerankCandidates asciiLower rationalArithmetic ranked query
          (rerankLimit candidateLimit) defaultWeights) items →
        KeepsEach ranked (continuesWith asciiLower rationalArithmetic reranker query
          candidateLimit defaultWeights ranked) := by
  intro hclaim
  have hkeys : ([semanticHit, definitionHit].map Candidate.key).Nodup := by decide
  have hbatch : IsSelection [semanticHit, definitionHit] (selectPreRerankCandidates asciiLower
      rationalArithmetic [semanticHit, definitionHit] "load".toList (rerankLimit 1)
      defaultWeights) := isSelection_batch hkeys _
  have hselection := isSelection_self hbatch.once
  have hkeeps := hclaim sameOrder "load".toList 1 _ _ hkeys rfl hselection
  have hfront := protectedInFront_of_keepsEach hkeys rfl hselection hkeeps
  exact absurd hfront (by unfold ProtectedInFront; decide +kernel)

end Index
end CodeCub
