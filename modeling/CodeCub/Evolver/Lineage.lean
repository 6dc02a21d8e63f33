import CodeCub.Evolver.Archive
import CodeCub.Machine.Run
import Mathlib.Data.List.Dedup

/-!
# Recombination and the lineage

Beside the archive runs a chronicle of what it considered.  While every promoted
candidate has declared a WHY, the files noted for a node are those of its whole lineage,
and a proposal touches none of them.
-/

namespace CodeCub
namespace Evolver

open Python

/-! ## The chronicle -/

/-- An archive with everything it has considered and the pairings that were tried. -/
structure Chronicle where
  archive : GsmeArchive := {}
  considered : List Considered := []
  paired : List (Str × Str) := []

inductive ArchiveStep where
  | consider (c : Considered)
  | recordPairing (parentId eliteNodeId status : Str)
  /-- The archive is saved and loaded. -/
  | reload

def Considered.pairing (c : Considered) : List (Str × Str) :=
  if c.cand.eliteNodeId = [] then [] else [(c.parentId, c.cand.eliteNodeId)]

def chronicleMachine (lower : Str → Str) : Machine Chronicle ArchiveStep Unit where
  step s
    | .consider c =>
        ({ archive := s.archive.consider lower c
           considered := s.considered ++ [c]
           paired := s.paired ++ c.pairing }, ())
    | .recordPairing parentId eliteNodeId status =>
        ({ s with
            archive := s.archive.recordPairing parentId eliteNodeId status
            paired := s.paired ++ [(parentId, eliteNodeId)] }, ())
    | .reload => ({ s with archive := GsmeArchive.load (some s.archive.toDict) }, ())

/-- The paths that a candidate changes or deletes. -/
def touched (cand : Candidate) : List Str := (touchedPaths cand).1 ++ (touchedPaths cand).2

def cellKeyOf (lower : Str → Str) (cand : Candidate) : Option Str :=
  (cellOf lower cand).map fun coord => GsmeArchive.cellKey coord.1 coord.2

/-- The edit of the node, or of a promoted ancestor of it. -/
inductive LineageEdit (considered : List Considered) : Str → Considered → Prop where
  | own {c : Considered} (hmem : c ∈ considered) (hpromoted : c.outcome.promoted = true) :
      LineageEdit considered c.nodeId c
  | inherited {c e : Considered} (hmem : c ∈ considered) (hpromoted : c.outcome.promoted = true)
      (hparent : LineageEdit considered c.parentId e) : LineageEdit considered c.nodeId e

/-- The node was promoted. -/
def Promoted (considered : List Considered) (nodeId : Str) : Prop :=
  ∃ c ∈ considered, c.outcome.promoted = true ∧ c.nodeId = nodeId

/-- Promoted nodes are new and grow from the root. -/
def Grows (root : Str) (s : Chronicle) : ArchiveStep → Prop
  | .consider c => c.outcome.promoted = true →
      (c.parentId = root ∨ Promoted s.considered c.parentId) ∧ c.nodeId ≠ root ∧
        ¬ Promoted s.considered c.nodeId
  | _ => True

/-- A promoted candidate has a coordinate, and its outcome the confirmation that the gates
base a promotion on. -/
def Declared (lower : Str → Str) (_ : Chronicle) : ArchiveStep → Prop
  | .consider c => c.outcome.promoted = true →
      (cellOf lower c.cand).isSome = true ∧ c.outcome.confirmEvals.entries ≠ []
  | _ => True

/-- Promoted with a score above the vanilla mean of its time. -/
def Considered.Beats (c : Considered) : Prop :=
  c.outcome.promoted = true ∧ c.vanillaTrainMean < c.outcome.score

/-- The elite is the record of this candidate. -/
def RecordOf (lower : Str → Str) (c : Considered) (elite : CellElite) : Prop :=
  ∃ lever why, cellOf lower c.cand = some (lever, why) ∧
    elite = GsmeArchive.eliteOf c (GsmeArchive.cellKey lever why) lever why

/-- A proposal for `p` that clobbers nothing. -/
structure SoundProposal (lower : Str → Str) (s : Chronicle) (p : Str) (elite : CellElite) :
    Prop where
  disjoint : ∀ c, LineageEdit s.considered p c → ∀ path ∈ touched c.cand,
    path ∉ elite.files ++ elite.deletions
  promoted : ∃ c ∈ s.considered, c.Beats ∧ RecordOf lower c elite
  best : ∀ c ∈ s.considered, c.Beats → cellKeyOf lower c.cand = some elite.cell →
    c.outcome.score ≤ elite.score
  unpaired : (p, elite.nodeId) ∉ s.paired

/-! ## The invariant -/

/-- The cells are right about what was considered. -/
structure CellsRight (lower : Str → Str) (considered : List Considered)
    (cells : OrderedDict Str CellElite) : Prop where
  elites : ∀ key elite, cells.get key = some elite → elite.cell = key ∧
    ∃ c ∈ considered, c.Beats ∧ RecordOf lower c elite
  best : ∀ c ∈ considered, c.Beats → ∀ key, cellKeyOf lower c.cand = some key →
    ∃ elite, cells.get key = some elite ∧ c.outcome.score ≤ elite.score

structure Chronicle.Inv (lower : Str → Str) (root : Str) (s : Chronicle) : Prop where
  grown : ∀ c ∈ s.considered, c.outcome.promoted = true →
    (c.parentId = root ∨ Promoted s.considered c.parentId) ∧ c.nodeId ≠ root
  lineage : ∀ p c, LineageEdit s.considered p c → ∀ path ∈ touched c.cand,
    path ∈ (s.archive.metaOf p).files
  cells : CellsRight lower s.considered s.archive.cells
  pairings : ∀ p eliteId, (p, eliteId) ∈ s.paired →
    (((s.archive.pairings.get p).getD ∅).get eliteId).isSome = true

namespace GsmeArchive

variable (archive : GsmeArchive) (c : Considered) (key lever why : Str)

@[simp] theorem considerPairing_cells : (archive.considerPairing c).cells = archive.cells := by
  rw [considerPairing]
  split <;> rfl

@[simp] theorem considerPairing_nodeMeta :
    (archive.considerPairing c).nodeMeta = archive.nodeMeta := by
  rw [considerPairing]
  split <;> rfl

@[simp] theorem considerLineage_cells :
    (archive.considerLineage c key).cells = archive.cells := by
  rw [considerLineage]
  split <;> rfl

@[simp] theorem considerLineage_pairings :
    (archive.considerLineage c key).pairings = archive.pairings := by
  rw [considerLineage]
  split <;> rfl

@[simp] theorem considerElite_nodeMeta :
    (archive.considerElite c key lever why).nodeMeta = archive.nodeMeta := by
  rw [considerElite]
  split
  · rfl
  · split <;> rfl

@[simp] theorem considerElite_pairings :
    (archive.considerElite c key lever why).pairings = archive.pairings := by
  rw [considerElite]
  split
  · rfl
  · split <;> rfl

theorem consider_pairings (lower : Str → Str) :
    (archive.consider lower c).pairings = (archive.considerPairing c).pairings := by
  rw [consider]
  cases cellOf lower c.cand with
  | none => rfl
  | some coord => simp

end GsmeArchive

/-! ### Pairings -/

theorem paired_recordPairing {archive : GsmeArchive} {paired : List (Str × Str)}
    (h : ∀ p e, (p, e) ∈ paired → (((archive.pairings.get p).getD ∅).get e).isSome = true)
    (parentId eliteId status : Str) :
    ∀ p e, (p, e) ∈ paired ++ [(parentId, eliteId)] →
      ((((archive.recordPairing parentId eliteId status).pairings.get p).getD ∅).get e).isSome =
        true := by
  intro p e hmem
  rw [GsmeArchive.recordPairing, OrderedDict.get_set]
  by_cases hp : p = parentId
  · rw [if_pos hp, Option.getD_some, OrderedDict.get_set]
    by_cases he : e = eliteId
    · rw [if_pos he]
      rfl
    · rw [if_neg he]
      rcases List.mem_append.mp hmem with hold | hnew
      · exact hp ▸ h p e hold
      · rw [List.mem_singleton, Prod.mk.injEq] at hnew
        exact absurd hnew.2 he
  · rw [if_neg hp]
    rcases List.mem_append.mp hmem with hold | hnew
    · exact h p e hold
    · rw [List.mem_singleton, Prod.mk.injEq] at hnew
      exact absurd hnew.1 hp

theorem paired_considerPairing {archive : GsmeArchive} {paired : List (Str × Str)}
    (h : ∀ p e, (p, e) ∈ paired → (((archive.pairings.get p).getD ∅).get e).isSome = true)
    (c : Considered) :
    ∀ p e, (p, e) ∈ paired ++ c.pairing →
      ((((archive.considerPairing c).pairings.get p).getD ∅).get e).isSome = true := by
  rw [Considered.pairing, GsmeArchive.considerPairing]
  split
  · rw [List.append_nil]
    exact h
  · exact paired_recordPairing h _ _ _

/-! ### Lineages -/

theorem Promoted.mono {considered more : List Considered} {nodeId : Str}
    (h : Promoted considered nodeId) : Promoted (considered ++ more) nodeId := by
  obtain ⟨c, hc, hrest⟩ := h
  exact ⟨c, List.mem_append_left _ hc, hrest⟩

/-- A new node is not an ancestor of the others. -/
theorem LineageEdit.of_append {considered : List Considered} {root : Str}
    (hgrown : ∀ c ∈ considered, c.outcome.promoted = true →
      (c.parentId = root ∨ Promoted considered c.parentId) ∧ c.nodeId ≠ root)
    {last : Considered} (hnew : last.outcome.promoted = true →
      last.nodeId ≠ root ∧ ¬ Promoted considered last.nodeId)
    {p : Str} {e : Considered} (h : LineageEdit (considered ++ [last]) p e)
    (hp : last.outcome.promoted = true → p ≠ last.nodeId) : LineageEdit considered p e := by
  induction h with
  | own hmem hpromoted =>
      rcases List.mem_append.mp hmem with hold | hlast
      · exact .own hold hpromoted
      · rw [List.mem_singleton] at hlast
        subst hlast
        exact absurd rfl (hp hpromoted)
  | inherited hmem hpromoted _ ih =>
      rcases List.mem_append.mp hmem with hold | hlast
      · refine .inherited hold hpromoted (ih fun hlast hsame => ?_)
        rcases (hgrown _ hold hpromoted).1 with hroot | hparent
        · exact (hnew hlast).1 (hsame.symm.trans hroot)
        · exact (hnew hlast).2 (hsame ▸ hparent)
      · rw [List.mem_singleton] at hlast
        subst hlast
        exact absurd rfl (hp hpromoted)

/-- The edits of the lineage of a node that was just promoted. -/
theorem LineageEdit.of_last {considered : List Considered} {root : Str}
    (hgrown : ∀ c ∈ considered, c.outcome.promoted = true →
      (c.parentId = root ∨ Promoted considered c.parentId) ∧ c.nodeId ≠ root)
    {last : Considered} (hparent : last.parentId = root ∨ Promoted considered last.parentId)
    (hroot : last.nodeId ≠ root) (hnew : ¬ Promoted considered last.nodeId) {e : Considered}
    (h : LineageEdit (considered ++ [last]) last.nodeId e) :
    e = last ∨ LineageEdit considered last.parentId e := by
  have hne : last.parentId ≠ last.nodeId := by
    intro hsame
    rcases hparent with heq | hpromoted
    · exact hroot (hsame.symm.trans heq)
    · exact hnew (hsame ▸ hpromoted)
  have hlast : ∀ c ∈ considered ++ [last], c.outcome.promoted = true → c.nodeId = last.nodeId →
      c = last := by
    intro c hmem hpromoted hsame
    rcases List.mem_append.mp hmem with hold | heq
    · exact absurd ⟨c, hold, hpromoted, hsame⟩ hnew
    · exact List.mem_singleton.mp heq
  generalize hnode : last.nodeId = node at h
  cases h with
  | own hmem hpromoted => exact .inl (hlast _ hmem hpromoted hnode.symm)
  | inherited hmem hpromoted hrest =>
      obtain rfl := hlast _ hmem hpromoted hnode.symm
      exact .inr (hrest.of_append hgrown (fun _ => ⟨hroot, hnew⟩) fun _ => hne)

theorem mem_sortedUnion {a b : List Str} {x : Str} : x ∈ sortedUnion a b ↔ x ∈ a ∨ x ∈ b := by
  rw [sortedUnion, sortedStrs, List.mem_mergeSort, List.mem_dedup, List.mem_append]

/-! ### One step -/

namespace GsmeArchive

variable (archive : GsmeArchive) {c : Considered}

theorem metaOf_considerLineage (key q : Str) (hpromoted : c.outcome.promoted = true) :
    ((archive.considerLineage c key).metaOf q).files =
      if q = c.nodeId then sortedUnion (archive.metaOf c.parentId).files (touched c.cand)
      else (archive.metaOf q).files := by
  rw [considerLineage, if_pos hpromoted, metaOf, OrderedDict.get_set]
  split <;> rfl

theorem metaOf_of_nodeMeta {archive other : GsmeArchive}
    (h : archive.nodeMeta = other.nodeMeta) (q : Str) : archive.metaOf q = other.metaOf q := by
  rw [metaOf, metaOf, h]

/-- A candidate that was not promoted leaves nothing but its pairing. -/
theorem consider_of_not_promoted (lower : Str → Str) (h : c.outcome.promoted = false) :
    archive.consider lower c = archive.considerPairing c := by
  rw [consider]
  cases cellOf lower c.cand with
  | none => rfl
  | some coord =>
      dsimp only
      rw [considerLineage, if_neg (by simp [h]), considerElite, if_pos (by simp [h])]

/-- What `consider` does with the elite of the cell of a promoted candidate. -/
theorem considerElite_cases (key lever why : Str) (hpromoted : c.outcome.promoted = true)
    (hconfirmed : c.outcome.confirmEvals.entries ≠ []) :
    (¬ c.Beats ∧ archive.considerElite c key lever why = archive) ∨
    (c.Beats ∧ ∃ prev, archive.cells.get key = some prev ∧ c.outcome.score ≤ prev.score ∧
      archive.considerElite c key lever why = archive) ∨
    (c.Beats ∧ (∀ prev, archive.cells.get key = some prev → prev.score < c.outcome.score) ∧
      (archive.considerElite c key lever why).cells =
        archive.cells.set key (eliteOf c key lever why)) := by
  by_cases hbeats : c.Beats
  · have hguard : (!c.outcome.promoted || c.outcome.confirmEvals.entries.isEmpty ||
        decide (c.outcome.score ≤ c.vanillaTrainMean)) = false := by
      simp [hpromoted, hconfirmed, hbeats.2]
    rw [considerElite, hguard, if_neg Bool.false_ne_true]
    cases hprev : archive.cells.get key with
    | none => exact .inr (.inr ⟨hbeats, nofun, rfl⟩)
    | some prev =>
        by_cases hle : c.outcome.score ≤ prev.score
        · rw [if_pos (by simpa using hle)]
          exact .inr (.inl ⟨hbeats, prev, rfl, hle, rfl⟩)
        · rw [if_neg (by simpa using hle)]
          refine .inr (.inr ⟨hbeats, fun other hother => ?_, rfl⟩)
          rw [← Option.some.inj hother]
          exact not_le.mp hle
  · refine .inl ⟨hbeats, ?_⟩
    have hle : c.outcome.score ≤ c.vanillaTrainMean := not_lt.mp fun h => hbeats ⟨hpromoted, h⟩
    rw [considerElite, if_pos (by simp [hle])]

end GsmeArchive

section Cells

variable {lower : Str → Str} {considered : List Considered} {cells : OrderedDict Str CellElite}
  {c : Considered}

/-- A candidate that does not beat the vanilla mean, or not the elite of its cell, leaves the
cells. -/
theorem CellsRight.keep (h : CellsRight lower considered cells)
    (hc : c.Beats → ∀ key, cellKeyOf lower c.cand = some key →
      ∃ elite, cells.get key = some elite ∧ c.outcome.score ≤ elite.score) :
    CellsRight lower (considered ++ [c]) cells where
  elites key elite hget := by
    obtain ⟨hcell, d, hd, hrest⟩ := h.elites key elite hget
    exact ⟨hcell, d, List.mem_append_left _ hd, hrest⟩
  best d hd hbeats := by
    rcases List.mem_append.mp hd with hold | hlast
    · exact h.best d hold hbeats
    · rw [List.mem_singleton] at hlast
      subst hlast
      exact hc hbeats

/-- A better candidate takes its cell. -/
theorem CellsRight.replace (h : CellsRight lower considered cells) {lever why : Str}
    (hcell : cellOf lower c.cand = some (lever, why)) (hbeats : c.Beats)
    (hbest : ∀ prev, cells.get (GsmeArchive.cellKey lever why) = some prev →
      prev.score < c.outcome.score) :
    CellsRight lower (considered ++ [c]) (cells.set (GsmeArchive.cellKey lever why)
      (GsmeArchive.eliteOf c (GsmeArchive.cellKey lever why) lever why)) where
  elites key elite hget := by
    rw [OrderedDict.get_set] at hget
    split at hget
    · next hkey =>
        subst hkey
        rw [← Option.some.inj hget]
        exact ⟨rfl, c, List.mem_append_right _ List.mem_cons_self, hbeats, lever, why, hcell, rfl⟩
    · obtain ⟨hcellKey, d, hd, hrest⟩ := h.elites key elite hget
      exact ⟨hcellKey, d, List.mem_append_left _ hd, hrest⟩
  best d hd hdBeats key hkey := by
    rw [OrderedDict.get_set]
    rcases List.mem_append.mp hd with hold | hlast
    · obtain ⟨elite, hget, hle⟩ := h.best d hold hdBeats key hkey
      split
      · next hsame =>
          subst hsame
          exact ⟨_, rfl, hle.trans (hbest elite hget).le⟩
      · exact ⟨elite, hget, hle⟩
    · rw [List.mem_singleton] at hlast
      subst hlast
      rw [cellKeyOf, hcell] at hkey
      rw [if_pos (Option.some.inj hkey).symm]
      exact ⟨_, rfl, le_rfl⟩

end Cells

namespace Chronicle.Inv

variable {lower : Str → Str} {root : Str} {s : Chronicle} {c : Considered}

/-- A promoted candidate with a coordinate adds its edit to the files of its parent. -/
theorem consider_promoted (h : s.Inv lower root) (hpromoted : c.outcome.promoted = true)
    (hparent : c.parentId = root ∨ Promoted s.considered c.parentId) (hroot : c.nodeId ≠ root)
    (hnew : ¬ Promoted s.considered c.nodeId)
    (hconfirmed : c.outcome.confirmEvals.entries ≠ []) {lever why : Str}
    (hcell : cellOf lower c.cand = some (lever, why)) :
    ((chronicleMachine lower).next s (.consider c)).Inv lower root := by
  have harchive : s.archive.consider lower c =
      ((s.archive.considerPairing c).considerLineage c (GsmeArchive.cellKey lever why)).considerElite
        c (GsmeArchive.cellKey lever why) lever why := by
    rw [GsmeArchive.consider, hcell]
  have hmeta : ∀ q, ((s.archive.consider lower c).metaOf q).files =
      if q = c.nodeId then sortedUnion (s.archive.metaOf c.parentId).files (touched c.cand)
      else (s.archive.metaOf q).files := by
    intro q
    rw [harchive, GsmeArchive.metaOf_of_nodeMeta (GsmeArchive.considerElite_nodeMeta ..),
      GsmeArchive.metaOf_considerLineage _ _ _ hpromoted,
      GsmeArchive.metaOf_of_nodeMeta (GsmeArchive.considerPairing_nodeMeta ..),
      GsmeArchive.metaOf_of_nodeMeta (GsmeArchive.considerPairing_nodeMeta ..)]
  have hcells : CellsRight lower (s.considered ++ [c]) (s.archive.consider lower c).cells := by
    have hsame : ((s.archive.considerPairing c).considerLineage c
        (GsmeArchive.cellKey lever why)).cells = s.archive.cells := by simp
    rw [harchive]
    rcases GsmeArchive.considerElite_cases ((s.archive.considerPairing c).considerLineage c
      (GsmeArchive.cellKey lever why)) (GsmeArchive.cellKey lever why) lever why hpromoted
        hconfirmed with ⟨hbeats, heq⟩ | ⟨_, prev, hprev, hle, heq⟩ | ⟨hbeats, hbest, heq⟩
    · rw [heq, hsame]
      exact h.cells.keep fun hc => absurd hc hbeats
    · rw [heq, hsame]
      refine h.cells.keep fun _ key hkey => ⟨prev, ?_, hle⟩
      rw [cellKeyOf, hcell] at hkey
      rw [← Option.some.inj hkey, ← hsame, hprev]
    · rw [heq, hsame]
      rw [hsame] at hbest
      exact h.cells.replace hcell hbeats hbest
  refine ⟨?_, ?_, hcells, ?_⟩
  · intro d hd hd'
    rcases List.mem_append.mp hd with hold | hlast
    · exact ⟨(h.grown d hold hd').1.imp_right Promoted.mono, (h.grown d hold hd').2⟩
    · rw [List.mem_singleton] at hlast
      subst hlast
      exact ⟨hparent.imp_right Promoted.mono, hroot⟩
  · intro p e hedit path hpath
    show path ∈ ((s.archive.consider lower c).metaOf p).files
    rw [hmeta]
    split
    · next hp =>
        subst hp
        rw [mem_sortedUnion]
        rcases hedit.of_last h.grown hparent hroot hnew with rfl | hold
        · exact .inr hpath
        · exact .inl (h.lineage _ e hold path hpath)
    · next hp =>
        exact h.lineage p e (hedit.of_append h.grown (fun _ => ⟨hroot, hnew⟩) fun _ => hp) path
          hpath
  · intro p eliteId hmem
    show (((((s.archive.consider lower c).pairings).get p).getD ∅).get eliteId).isSome = true
    rw [GsmeArchive.consider_pairings]
    exact paired_considerPairing h.pairings c p eliteId hmem

/-- A candidate that was not promoted changes no lineage. -/
theorem consider_not_promoted (h : s.Inv lower root) (hpromoted : c.outcome.promoted = false) :
    ((chronicleMachine lower).next s (.consider c)).Inv lower root := by
  have hnot : ¬ c.outcome.promoted = true := by simp [hpromoted]
  have harchive := s.archive.consider_of_not_promoted lower hpromoted
  refine ⟨?_, ?_, ?_, ?_⟩
  · intro d hd hd'
    rcases List.mem_append.mp hd with hold | hlast
    · exact ⟨(h.grown d hold hd').1.imp_right Promoted.mono, (h.grown d hold hd').2⟩
    · exact absurd (List.mem_singleton.mp hlast ▸ hd') hnot
  · intro p e hedit path hpath
    show path ∈ ((s.archive.consider lower c).metaOf p).files
    rw [harchive, GsmeArchive.metaOf_of_nodeMeta (GsmeArchive.considerPairing_nodeMeta ..)]
    exact h.lineage p e (hedit.of_append h.grown (fun hc => absurd hc hnot) fun hc => absurd hc hnot)
      path hpath
  · show CellsRight lower (s.considered ++ [c]) (s.archive.consider lower c).cells
    rw [harchive, GsmeArchive.considerPairing_cells]
    exact h.cells.keep fun hbeats => absurd hbeats.1 hnot
  · intro p eliteId hmem
    show (((((s.archive.consider lower c).pairings).get p).getD ∅).get eliteId).isSome = true
    rw [harchive]
    exact paired_considerPairing h.pairings c p eliteId hmem

theorem recordPairing (h : s.Inv lower root) (parentId eliteNodeId status : Str) :
    ((chronicleMachine lower).next s (.recordPairing parentId eliteNodeId status)).Inv lower
      root :=
  ⟨h.grown, h.lineage, h.cells, paired_recordPairing h.pairings parentId eliteNodeId status⟩

theorem reload (h : s.Inv lower root) : ((chronicleMachine lower).next s .reload).Inv lower root := by
  have hsame : (chronicleMachine lower).next s .reload = s := by
    show ({ s with archive := GsmeArchive.load (some s.archive.toDict) } : Chronicle) = s
    rw [GsmeArchive.load_toDict]
  rw [hsame]
  exact h

theorem next (h : s.Inv lower root) (step : ArchiveStep) (hgrows : Grows root s step)
    (hdeclared : Declared lower s step) : ((chronicleMachine lower).next s step).Inv lower root := by
  cases step with
  | consider c =>
      cases hpromoted : c.outcome.promoted with
      | false => exact h.consider_not_promoted hpromoted
      | true =>
          obtain ⟨hparent, hroot, hnew⟩ := hgrows hpromoted
          obtain ⟨hcell, hconfirmed⟩ := hdeclared hpromoted
          obtain ⟨coord, hcoord⟩ := Option.isSome_iff_exists.mp hcell
          exact h.consider_promoted hpromoted hparent hroot hnew hconfirmed hcoord
  | recordPairing parentId eliteNodeId status => exact h.recordPairing parentId eliteNodeId status
  | reload => exact h.reload

theorem initial (lower : Str → Str) (root : Str) : ({} : Chronicle).Inv lower root where
  grown c hc := absurd hc List.not_mem_nil
  lineage p c h := by
    cases h with
    | own hmem => exact absurd hmem List.not_mem_nil
    | inherited hmem => exact absurd hmem List.not_mem_nil
  cells :=
    { elites := fun key elite hget => absurd hget (by simp [OrderedDict.get_empty])
      best := fun c hc => absurd hc List.not_mem_nil }
  pairings p eliteId hmem := absurd hmem List.not_mem_nil

/-- The elites that an archive in order proposes are sound. -/
theorem sound (h : s.Inv lower root) {p : Str} {limit : Int} {elite : CellElite}
    (hmem : elite ∈ s.archive.eligibleElites p limit) : SoundProposal lower s p elite := by
  rw [GsmeArchive.eligibleElites] at hmem
  split at hmem
  · cases hmem
  · obtain ⟨⟨key, other⟩, htaken, rfl⟩ := List.mem_map.mp hmem
    obtain ⟨hranked, heligible⟩ := List.mem_filter.mp (List.mem_of_mem_take htaken)
    have hget := s.archive.cells.get_of_mem (List.mem_mergeSort.mp hranked)
    obtain ⟨hcell, hrecord⟩ := h.cells.elites key other hget
    simp only [GsmeArchive.eligible, Bool.and_eq_true, List.all_eq_true, decide_eq_true_eq,
      Option.isNone_iff_eq_none] at heligible
    obtain ⟨⟨⟨_, _⟩, hnew⟩, hapart⟩ := heligible
    refine ⟨?_, hrecord, ?_, ?_⟩
    · intro c hedit path hpath hboth
      exact hapart path hboth (h.lineage p c hedit path hpath)
    · intro c hc hbeats hkey
      obtain ⟨best, hbest, hle⟩ := h.cells.best c hc hbeats _ hkey
      rw [hcell, hget] at hbest
      exact Option.some.inj hbest ▸ hle
    · intro hpaired
      have hsome := h.pairings p other.nodeId hpaired
      rw [hnew] at hsome
      cases hsome

end Chronicle.Inv

/-- While every promoted candidate has declared a WHY, a proposed elite touches nothing that
the lineage has touched, was promoted above the vanilla mean, is the best of its cell and is
new to the parent. -/
theorem proposals_keep_lineage (lower : Str → Str) (root : Str) {steps : List ArchiveStep}
    (hgrows : (chronicleMachine lower).Along (Grows root) {} steps)
    (hdeclared : (chronicleMachine lower).Along (Declared lower) {} steps) (p : Str) (limit : Int)
    (elite : CellElite)
    (hmem : elite ∈ ((chronicleMachine lower).run {} steps).archive.eligibleElites p limit) :
    SoundProposal lower ((chronicleMachine lower).run {} steps) p elite := by
  have hboth := Machine.along_and.mpr ⟨hgrows, hdeclared⟩
  have hinv : ((chronicleMachine lower).run {} steps).Inv lower root :=
    Machine.run_invariant (P := Chronicle.Inv lower root)
      (fun s step h hstep => h.next step hstep.1 hstep.2) (Chronicle.Inv.initial lower root) hboth
  exact hinv.sound hmem

/-! ## Runs -/

/-- A promoted edit of one file, scored above a vanilla mean of 0. -/
def promotedEdit (parentId nodeId why file : String) : Considered where
  parentId := parentId.toList
  nodeId := nodeId.toList
  gitCommitSha := nodeId.toList
  cand := .bench { why := why.toList, files := [file.toList] }
  outcome :=
    { nodeId := nodeId.toList
      status := .promotedToBaseline
      score := 1 / 2
      confirmEvals := (∅ : Evals).set "t".toList (halfPassed "t".toList)
      verdict := .accepted }
  vanillaTrainMean := 0
  roundIndex := 1

/-- Two edits of two files, saved in between; the second does not beat the vanilla mean. -/
def twoEdits : List ArchiveStep :=
  [.consider (promotedEdit "v0" "v1" "tool_clarity" "a.py"), .reload,
    .consider { promotedEdit "v0" "v2" "budget_awareness" "b.md" with vanillaTrainMean := 1 / 2 }]

/-- `str.lower` of an ASCII text. -/
def asciiLower (text : Str) : Str := text.map Char.toLower

theorem twoEdits_keep_lineage :
    ∃ elite ∈ ((chronicleMachine asciiLower).run {} twoEdits).archive.eligibleElites "v2".toList 1,
      SoundProposal asciiLower ((chronicleMachine asciiLower).run {} twoEdits) "v2".toList elite := by
  have hgrows : (chronicleMachine asciiLower).Along (Grows "v0".toList) {} twoEdits := by
    refine ⟨fun _ => ⟨.inl rfl, by decide, ?_⟩, trivial, fun _ => ⟨.inl rfl, by decide, ?_⟩, trivial⟩
    · rintro ⟨c, hc, _⟩
      exact absurd hc List.not_mem_nil
    · rintro ⟨c, hc, _, hid⟩
      obtain rfl := List.mem_singleton.mp hc
      exact absurd hid (by decide)
  have hdeclared : (chronicleMachine asciiLower).Along (Declared asciiLower) {} twoEdits :=
    ⟨fun _ => ⟨by decide, by decide⟩, trivial, fun _ => ⟨by decide, by decide⟩, trivial⟩
  have hproposed : (((chronicleMachine asciiLower).run {} twoEdits).archive.eligibleElites
      "v2".toList 1).map CellElite.nodeId = ["v1".toList] := by
    decide +kernel
  obtain ⟨elite, hmem, _⟩ := List.mem_map.mp (hproposed ▸ List.mem_cons_self)
  exact ⟨elite, hmem, proposals_keep_lineage asciiLower "v0".toList hgrows hdeclared _ 1 elite hmem⟩

/-- The second edit of the file declares no WHY. -/
def undeclaredEdit : List ArchiveStep :=
  [.consider (promotedEdit "v0" "v1" "tool_clarity" "a.py"),
    .consider (promotedEdit "v0" "v2" "" "a.py")]

/-- The files of a promoted node without a WHY are unknown to the archive: it proposes for
the node an elite that replaces the file the node was promoted for. -/
theorem undeclaredEdit_is_clobbered :
    (chronicleMachine asciiLower).Along (Grows "v0".toList) {} undeclaredEdit ∧
    LineageEdit ((chronicleMachine asciiLower).run {} undeclaredEdit).considered "v2".toList
      (promotedEdit "v0" "v2" "" "a.py") ∧
    "a.py".toList ∈ touched (promotedEdit "v0" "v2" "" "a.py").cand ∧
    ∃ elite ∈ ((chronicleMachine asciiLower).run {} undeclaredEdit).archive.eligibleElites
      "v2".toList 1, "a.py".toList ∈ elite.files ++ elite.deletions := by
  refine ⟨?_, .own (List.mem_append_right _ List.mem_cons_self) (by decide), by decide +kernel, ?_⟩
  · refine ⟨fun _ => ⟨.inl rfl, by decide, ?_⟩, fun _ => ⟨.inl rfl, by decide, ?_⟩, trivial⟩
    · rintro ⟨c, hc, _⟩
      exact absurd hc List.not_mem_nil
    · rintro ⟨c, hc, _, hid⟩
      obtain rfl := List.mem_singleton.mp hc
      exact absurd hid (by decide)
  · have hproposed : (((chronicleMachine asciiLower).run {} undeclaredEdit).archive.eligibleElites
        "v2".toList 1).map CellElite.files = [["a.py".toList]] := by
      decide +kernel
    obtain ⟨elite, hmem, hfiles⟩ := List.mem_map.mp (hproposed ▸ List.mem_cons_self)
    exact ⟨elite, hmem, List.mem_append_left _ (hfiles ▸ List.mem_cons_self)⟩

end Evolver
end CodeCub
