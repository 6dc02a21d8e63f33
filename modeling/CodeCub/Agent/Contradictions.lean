import CodeCub.Agent.Instructions

/-!
# What the losers of a conflict say

The conflict pass of `codecub/instructions.py` takes a whole group of one conflict key at once:
whoever is not the winner loses, also where he says the same as the winner.
-/

namespace CodeCub
namespace Agent

open Python

section Candidates

variable {casefold : Str → Str}

/-- The first of its kind in a list that goes on is at the front, or the first of its kind
behind an instruction of another kind. -/
theorem first_cons_iff {item first : Instruction} {items : List Instruction} :
    (∃ before after, first :: items = before ++ item :: after ∧
      ∀ earlier ∈ before, earlier.dedupKey casefold ≠ item.dedupKey casefold) ↔
    item = first ∨ first.dedupKey casefold ≠ item.dedupKey casefold ∧
      ∃ before after, items = before ++ item :: after ∧
        ∀ earlier ∈ before, earlier.dedupKey casefold ≠ item.dedupKey casefold := by
  constructor
  · rintro ⟨before, after, hsplit, hfirst⟩
    cases before with
    | nil => exact Or.inl (List.cons.inj hsplit).1.symm
    | cons head before =>
        obtain ⟨rfl, hrest⟩ := List.cons.inj hsplit
        refine Or.inr ⟨hfirst first List.mem_cons_self, before, after, hrest, ?_⟩
        exact fun earlier hearlier => hfirst earlier (List.mem_cons_of_mem _ hearlier)
  · rintro (rfl | ⟨hne, before, after, rfl, hfirst⟩)
    · exact ⟨[], items, rfl, by intro earlier hearlier; cases hearlier⟩
    · exact ⟨first :: before, after, rfl, List.forall_mem_cons.mpr ⟨hne, hfirst⟩⟩

/-- What is kept is the first of its kind. -/
theorem mem_dedupe {item : Instruction} {items : List Instruction}
    {seen : List (Str × Str × Str × Str × Str × Str × Bool × Str × Str)} :
    item ∈ (dedupe casefold seen items).1 ↔ item.dedupKey casefold ∉ seen ∧
      ∃ before after, items = before ++ item :: after ∧
        ∀ earlier ∈ before, earlier.dedupKey casefold ≠ item.dedupKey casefold := by
  induction items generalizing seen with
  | nil =>
      constructor
      · intro h
        cases h
      · rintro ⟨_, before, after, hsplit, _⟩
        exact absurd hsplit.symm (List.append_ne_nil_of_right_ne_nil _ (List.cons_ne_nil _ _))
  | cons first items ih =>
      rw [dedupe_cons, first_cons_iff]
      split
      · next hseen =>
          rw [ih]
          constructor
          · rintro ⟨hnew, hrest⟩
            exact ⟨hnew, Or.inr ⟨fun hsame => hnew (hsame ▸ hseen), hrest⟩⟩
          · rintro ⟨hnew, rfl | ⟨_, hrest⟩⟩
            · exact absurd hseen hnew
            · exact ⟨hnew, hrest⟩
      · next hunseen =>
          rw [List.mem_cons, ih, List.mem_cons, not_or]
          constructor
          · rintro (rfl | ⟨⟨hne, hnew⟩, hrest⟩)
            · exact ⟨hunseen, Or.inl rfl⟩
            · exact ⟨hnew, Or.inr ⟨Ne.symm hne, hrest⟩⟩
          · rintro ⟨hnew, rfl | ⟨hne, hrest⟩⟩
            · exact Or.inl rfl
            · exact Or.inr ⟨⟨Ne.symm hne, hnew⟩, hrest⟩

/-- An active instruction with a subject and a polarity, and no repetition of an earlier one. -/
def Candidate (casefold : Str → Str) (items : List Instruction) (key : Str)
    (item : Instruction) : Prop :=
  (item.conflictKey = key ∧ item.conflictKey ≠ [] ∧ item.polarity ≠ []) ∧
    ∃ before after, items = before ++ item :: after ∧
      ∀ earlier ∈ before, earlier.dedupKey casefold ≠ item.dedupKey casefold

/-- Where a group has two polarities, nobody else says what its strongest instruction says. -/
def WinnersAlone (casefold : Str → Str) (items : List Instruction) : Prop :=
  ∀ key winner rival item, Candidate casefold items key winner →
    Candidate casefold items key rival → rival.polarity ≠ winner.polarity →
    (∀ other, Candidate casefold items key other →
      winnerKey casefold other ≤ winnerKey casefold winner) →
    Candidate casefold items key item → item.polarity = winner.polarity → item.id = winner.id

variable {request : ScopeRequest} {values : List (Option Instruction)}

theorem candidate_iff {key : Str} {item : Instruction} :
    Candidate casefold (active request values) key item ↔
      item ∈ conflictGroup (distinct casefold request values) key := by
  rw [mem_conflictGroup, distinct, mem_dedupe, Candidate]
  constructor
  · rintro ⟨hgroup, hfirst⟩
    exact ⟨⟨List.not_mem_nil, hfirst⟩, hgroup⟩
  · rintro ⟨⟨_, hfirst⟩, hgroup⟩
    exact ⟨hgroup, hfirst⟩

/-- A contest has somebody who contradicts the winner. -/
theorem exists_rival {group : List Instruction} {winner : Instruction}
    (h : verdict casefold group = some winner) :
    ∃ rival ∈ group, rival.polarity ≠ winner.polarity := by
  by_contra hnone
  push Not at hnone
  have hsame : ∀ polarity ∈ (group.map Instruction.polarity).dedup,
      polarity = winner.polarity := by
    intro polarity hpolarity
    obtain ⟨item, hitem, rfl⟩ := List.mem_map.mp (List.mem_dedup.mp hpolarity)
    exact hnone item hitem
  have hshort : (group.map Instruction.polarity).dedup.length < 2 := by
    have hreplicate := List.eq_replicate_of_mem hsame
    have hnodup := List.nodup_dedup (group.map Instruction.polarity)
    rw [hreplicate, List.nodup_replicate] at hnodup
    omega
  rw [verdict, if_pos hshort] at h
  cases h

end Candidates

/-- Who is shadowed contradicts the winner that it lost to, and a protected instruction that
agrees with a winner is not shadowed. -/
structure ShadowsContradicted (casefold : Str → Str) (request : ScopeRequest)
    (values : List (Option Instruction)) : Prop where
  contradicted : ∀ loser ∈ (resolve casefold request values).shadowed,
    ∀ conflict ∈ (resolve casefold request values).conflicts, conflict.loserId = loser.id →
      ∀ winner ∈ active request values, winner.id = conflict.winnerId →
        winner.polarity ≠ loser.polarity
  agreeing : ∀ conflict ∈ (resolve casefold request values).conflicts,
    ∀ winner ∈ active request values, winner.id = conflict.winnerId →
      ∀ item, Candidate casefold (active request values) conflict.key item →
        item.guarded = true → item.polarity = winner.polarity →
          item ∈ (resolve casefold request values).instructions

section Result

variable {casefold : Str → Str} {request : ScopeRequest} {values : List (Option Instruction)}
variable (hids : ((active request values).map Instruction.id).Nodup)

theorem active_of_distinct {item : Instruction} (h : item ∈ distinct casefold request values) :
    item ∈ active request values :=
  (dedupe_spec casefold (active request values) []).1.subset h

theorem conflictGroup_active {key : Str} {item : Instruction}
    (h : item ∈ conflictGroup (distinct casefold request values) key) :
    item ∈ active request values :=
  active_of_distinct (mem_conflictGroup.mp h).1

/-- Where a conflict comes from. -/
theorem conflict_spec {conflict : InstructionConflict}
    (h : conflict ∈ (resolve casefold request values).conflicts) :
    ∃ winner loser,
      verdict casefold (conflictGroup (distinct casefold request values) conflict.key) =
        some winner ∧
      loser ∈ losers casefold (conflictGroup (distinct casefold request values) conflict.key) ∧
      conflict.winnerId = winner.id ∧ conflict.loserId = loser.id := by
  obtain ⟨key, hrecord⟩ := mem_conflicts.mp h
  rw [conflictRecords] at hrecord
  split at hrecord
  · cases hrecord
  · next winner hverdict =>
      obtain ⟨loser, hloser, rfl⟩ := List.mem_map.mp hrecord
      exact ⟨winner, loser, hverdict, hloser, rfl, rfl⟩

include hids

theorem active_inj {a b : Instruction} (ha : a ∈ active request values)
    (hb : b ∈ active request values) (h : a.id = b.id) : a = b :=
  List.inj_on_of_nodup_map hids ha hb h

/-- The strongest of a group with a rival wins. -/
theorem verdict_eq {key : Str} {winner rival : Instruction}
    (hwinner : winner ∈ conflictGroup (distinct casefold request values) key)
    (hrival : rival ∈ conflictGroup (distinct casefold request values) key)
    (hne : rival.polarity ≠ winner.polarity)
    (hmax : ∀ other ∈ conflictGroup (distinct casefold request values) key,
      winnerKey casefold other ≤ winnerKey casefold winner) :
    verdict casefold (conflictGroup (distinct casefold request values) key) = some winner := by
  obtain ⟨found, hfound⟩ := @verdict_isSome casefold _ _ _ hrival hwinner hne
  have hkey := le_antisymm (verdict_max hfound hwinner) (hmax found (verdict_mem hfound))
  rw [hfound, active_inj hids (conflictGroup_active hwinner)
    (conflictGroup_active (verdict_mem hfound)) (id_of_winnerKey hkey)]

theorem contradicted_of_winnersAlone
    (halone : WinnersAlone casefold (active request values)) {conflict : InstructionConflict}
    (hconflict : conflict ∈ (resolve casefold request values).conflicts) {winner : Instruction}
    (hwinner : winner ∈ active request values) (hid : winner.id = conflict.winnerId) :
    verdict casefold (conflictGroup (distinct casefold request values) conflict.key) =
        some winner ∧
      ∀ item ∈ conflictGroup (distinct casefold request values) conflict.key,
        item.polarity = winner.polarity → item = winner := by
  obtain ⟨found, _, hverdict, _, hwins, _⟩ := conflict_spec hconflict
  have hmem := verdict_mem hverdict
  obtain rfl := active_inj hids hwinner (conflictGroup_active hmem) (hid.trans hwins)
  refine ⟨hverdict, fun item hitem hsame => ?_⟩
  obtain ⟨rival, hrival, hne⟩ := exists_rival hverdict
  have hitemId := halone conflict.key winner rival item (candidate_iff.mpr hmem)
    (candidate_iff.mpr hrival) hne
    (fun other hother => verdict_max hverdict (candidate_iff.mp hother))
    (candidate_iff.mpr hitem) hsame
  exact active_inj hids (conflictGroup_active hitem) hwinner hitemId

/-- Only who contradicts the winner is shadowed exactly if in every group with two polarities
the winner is alone with its own. -/
theorem shadowsContradicted_iff : ShadowsContradicted casefold request values ↔
    WinnersAlone casefold (active request values) := by
  constructor
  · intro hshadows key winner rival item hwinner hrival hne hmax hitem hsame
    rw [candidate_iff] at hwinner hrival hitem
    have hverdict := verdict_eq hids hwinner hrival hne
      fun other hother => hmax other (candidate_iff.mpr hother)
    by_contra hother
    have hloser : item ∈ losers casefold (conflictGroup (distinct casefold request values) key) :=
      mem_losers.mpr ⟨winner, hverdict, hitem, hother⟩
    have hconflict : conflictRecord key winner item ∈
        (resolve casefold request values).conflicts := by
      refine mem_conflicts.mpr ⟨key, ?_⟩
      rw [conflictRecords, hverdict]
      exact List.mem_map_of_mem hloser
    have hshadowed : item ∈ (resolve casefold request values).shadowed := by
      rw [perm_shadowed.mem_iff, mem_allLosers, (mem_conflictGroup.mp hitem).2.1]
      exact hloser
    exact hshadows.contradicted item hshadowed _ hconflict rfl winner
      (conflictGroup_active hwinner) rfl hsame.symm
  · intro halone
    refine ⟨?_, ?_⟩
    · intro loser hshadowed conflict hconflict hid winner hwinner hwinnerId hsame
      obtain ⟨hverdict, honly⟩ :=
        contradicted_of_winnersAlone hids halone hconflict hwinner hwinnerId
      obtain ⟨_, lost, _, hlost, _, hlostId⟩ := conflict_spec hconflict
      obtain ⟨found, hfound, hgroup, hdiffers⟩ := mem_losers.mp hlost
      have hloser := mem_of_allLosers (perm_shadowed.mem_iff.mp hshadowed)
      obtain rfl := active_inj hids (active_of_distinct hloser) (conflictGroup_active hgroup)
        (hid.symm.trans hlostId)
      rw [hverdict, Option.some.injEq] at hfound
      rw [← hfound, honly loser hgroup hsame.symm] at hdiffers
      exact hdiffers rfl
    · intro conflict hconflict winner hwinner hwinnerId item hitem _ hsame
      obtain ⟨hverdict, honly⟩ :=
        contradicted_of_winnersAlone hids halone hconflict hwinner hwinnerId
      rw [honly item (candidate_iff.mp hitem) hsame]
      exact verdict_wins hids hverdict

end Result

theorem opposed_shadowsContradicted :
    ShadowsContradicted (List.map Char.toLower) {} (opposed "indent") ↔
      WinnersAlone (List.map Char.toLower) (active {} (opposed "indent")) :=
  shadowsContradicted_iff (by decide)

/-- A rule for one file. -/
def fileRule (id content polarity : String) (layer : InstructionLayer) (guarded : Bool)
    (hcontent : content.toList ≠ []) (hlayer : layer = .protectedRuntime → guarded = true) :
    Instruction where
  id := id.toList
  content := content.toList
  source := layer.value
  layer := layer
  scope := .global
  scopeId := []
  guarded := guarded
  conflictKey := "action:auth.py".toList
  polarity := polarity.toList
  metadata := []
  nonempty := hcontent
  protectedLayer := hlayer

def safetyRule : Instruction :=
  fileRule "i1" "Do not modify auth.py" "deny" .runtimeSafety true (by decide) (by decide)

def constraintRule : Instruction :=
  fileRule "i2" "Never edit auth.py" "deny" .protectedRuntime true (by decide) (by decide)

def wishRule : Instruction :=
  userInstruction "i3" "You may edit auth.py" "action:auth.py" "allow" (by decide)

/-- The protected constraint agrees with the rule that wins, and loses against it. -/
theorem constraint_shadowed :
    ¬ ∀ (casefold : Str → Str) (request : ScopeRequest) (values : List (Option Instruction)),
      ((active request values).map Instruction.id).Nodup →
        ShadowsContradicted casefold request values := by
  intro hclaim
  have hshadows := hclaim (List.map Char.toLower) {}
    [some safetyRule, some constraintRule, some wishRule] (by decide)
  have hcontradicted := hshadows.contradicted constraintRule (by decide +kernel)
    (conflictRecord safetyRule.conflictKey safetyRule constraintRule) (by decide +kernel) rfl
    safetyRule (by decide +kernel) rfl
  exact hcontradicted rfl

end Agent
end CodeCub
