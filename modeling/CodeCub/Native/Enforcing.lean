import CodeCub.Native.Trimming

/-!
# How the budget loop ends

A round of the budget loop gives one group to the condenser, and the new summary may
well be longer than the group was, so the size of the list says nothing about when the
loop ends.  What each round does lower is the number of groups that may still go.  The
condenser keeps a record of its summaries and may answer differently every time; here
it is any function of a state of its own and the older groups.
-/

namespace CodeCub
namespace Native
namespace Compiler

variable {c : Compiler} {frame : Frame} {group : Group} {raw recent raw' recent' : List Group}

/-! ## What one removal takes -/

/-- A group of the system or of the user, which the loop never gives up. -/
def anchored (group : Group) : Bool :=
  group.message.role == .system || group.message.role == .user

theorem anchored_eq_not_removable (group : Group) : anchored group = !removable group := by
  unfold anchored removable
  cases group.message.role <;> rfl

theorem leastFrom_lt (best : Nat) (least : Group) (index : Nat) (groups : List Group)
    (hbest : best < index) : leastFrom best least index groups < index + groups.length := by
  induction groups generalizing best least index with
  | nil => exact hbest
  | cons group rest ih =>
      unfold leastFrom
      rw [List.length_cons]
      split
      · have := ih index group (index + 1) (by omega)
        omega
      · have := ih best least (index + 1) (by omega)
        omega

/-- There is a worst raw group as long as there is any. -/
theorem leastIndex_lt (hraw : raw ≠ []) : leastIndex raw < raw.length := by
  cases raw with
  | nil => exact absurd rfl hraw
  | cons group rest =>
      have hlt := leastFrom_lt 0 group 1 rest Nat.zero_lt_one
      rw [List.length_cons]
      show leastFrom 0 group 1 rest < rest.length + 1
      omega

/-- Nothing may go exactly when the raw evidence is used up and every recent group is
anchored. -/
theorem trim_eq_none_iff :
    trim raw recent = none ↔ raw = [] ∧ ∀ other ∈ recent, removable other = false := by
  unfold trim
  constructor
  · intro htrim
    split at htrim
    · cases htrim
    · next hworst =>
        split at htrim
        · cases htrim
        · next hfirst =>
            rw [List.getElem?_eq_none_iff] at hworst hfirst
            refine ⟨?_, fun other hother => ?_⟩
            · by_contra hraw
              have := leastIndex_lt hraw
              omega
            · have hindex : recent.findIdx removable = recent.length :=
                Nat.le_antisymm List.findIdx_le_length hfirst
              simpa using List.findIdx_eq_length.mp hindex other hother
  · rintro ⟨rfl, hkept⟩
    have hindex : recent.findIdx removable = recent.length := by
      rw [List.findIdx_eq_length]
      intro other hother
      simpa using hkept other hother
    rw [hindex]
    simp [leastIndex]

/-- The two ways a round can go. -/
theorem trim_cases (htrim : trim raw recent = some (group, raw', recent')) :
    (raw' = raw.eraseIdx (leastIndex raw) ∧ recent' = recent) ∨
      (raw = [] ∧ raw' = [] ∧ removable group = true ∧ ∃ before after,
        recent = before ++ group :: after ∧ recent' = before ++ after) := by
  by_cases hraw : raw = []
  · subst hraw
    obtain ⟨hremovable, hnil, before, after, hsplit, hrest, -⟩ := trim_recent htrim
    exact .inr ⟨rfl, hnil, hremovable, before, after, hsplit, hrest⟩
  · have hlt := leastIndex_lt hraw
    unfold trim at htrim
    rw [List.getElem?_eq_getElem hlt] at htrim
    cases htrim
    exact .inl ⟨rfl, rfl⟩

theorem trim_raw_sublist (htrim : trim raw recent = some (group, raw', recent')) :
    raw'.Sublist raw := by
  rcases trim_cases htrim with ⟨rfl, -⟩ | ⟨rfl, rfl, -⟩
  · exact List.eraseIdx_sublist raw _
  · exact List.Sublist.refl []

theorem trim_recent_sublist (htrim : trim raw recent = some (group, raw', recent')) :
    recent'.Sublist recent := by
  rcases trim_cases htrim with ⟨-, rfl⟩ | ⟨-, -, -, before, after, rfl, rfl⟩
  · exact List.Sublist.refl recent'
  · exact (List.sublist_cons_self group after).append_left before

/-- A removal passes over the anchored groups and leaves them where they stood. -/
theorem trim_anchored (htrim : trim raw recent = some (group, raw', recent')) :
    recent'.filter anchored = recent.filter anchored := by
  rcases trim_cases htrim with ⟨-, rfl⟩ | ⟨-, -, hremovable, before, after, rfl, rfl⟩
  · rfl
  · have hgroup : anchored group = false := by
      rw [anchored_eq_not_removable, hremovable, Bool.not_true]
    rw [List.filter_append, List.filter_append, List.filter_cons_of_neg (by simp [hgroup])]

theorem trim_length_eq (htrim : trim raw recent = some (group, raw', recent')) :
    raw'.length + recent'.length + 1 = raw.length + recent.length := by
  have hlength := (trim_perm htrim).length_eq
  rw [List.length_cons, List.length_append, List.length_append] at hlength
  omega

/-! ## The loop with any condenser -/

/-- The loop's variables: what was removed so far, the condenser's own state and the
layout. -/
structure Enforcement (σ : Type) where
  removals : Nat
  condenser : σ
  layout : Layout

variable {σ : Type}

/-- One round: `group` goes to the condenser, whose answer is rendered. -/
def Enforcement.remove (frame : Frame) (condense : σ → List Group → List String × σ)
    (loop : Enforcement σ) (group : Group) (raw recent : List Group) : Enforcement σ :=
  let older := group :: loop.layout.older
  let answer := condense loop.condenser older
  { removals := loop.removals + 1
    condenser := answer.2
    layout :=
      { messages := assembleNativeMessages frame answer.1 raw recent
        raw := raw, recent := recent, older := older, condensed := older } }

/-- `_enforce_native_budget`, the call of the condenser left open. -/
def enforceNativeBudgetWith (c : Compiler) (frame : Frame)
    (condense : σ → List Group → List String × σ) (loop : Enforcement σ) : Enforcement σ :=
  if c.budget.usableInputBudget < c.estimateNativeTokens loop.layout.messages then
    match h : trim loop.layout.raw loop.layout.recent with
    | none => loop
    | some (group, raw, recent) =>
        have := trim_length h
        enforceNativeBudgetWith c frame condense (loop.remove frame condense group raw recent)
  else
    loop
termination_by loop.layout.raw.length + loop.layout.recent.length

section Loop

variable {condense : σ → List Group → List String × σ} {loop : Enforcement σ}

theorem enforceNativeBudgetWith_of_trim (hover : c.Over loop.layout)
    (htrim : trim loop.layout.raw loop.layout.recent = some (group, raw, recent)) :
    c.enforceNativeBudgetWith frame condense loop =
      c.enforceNativeBudgetWith frame condense (loop.remove frame condense group raw recent) := by
  unfold Over at hover
  rw [enforceNativeBudgetWith, if_pos hover]
  split
  · next hnone =>
      rw [htrim] at hnone
      cases hnone
  · next hsome =>
      rw [htrim] at hsome
      cases hsome
      rfl

theorem enforceNativeBudgetWith_of_stop
    (hstop : c.Over loop.layout → trim loop.layout.raw loop.layout.recent = none) :
    c.enforceNativeBudgetWith frame condense loop = loop := by
  rw [enforceNativeBudgetWith]
  split
  · next hover =>
      have hnone := hstop hover
      split
      · rfl
      · next hsome =>
          rw [hnone] at hsome
          cases hsome
  · rfl

/-- The induction over the rounds: the loop stops, or it removes a group and goes on. -/
theorem enforceNativeBudgetWith_induction (c : Compiler) (frame : Frame)
    (condense : σ → List Group → List String × σ) {P : Enforcement σ → Prop}
    (hstop : ∀ loop : Enforcement σ,
      (c.Over loop.layout → trim loop.layout.raw loop.layout.recent = none) → P loop)
    (hround : ∀ (loop : Enforcement σ) group raw recent, c.Over loop.layout →
      trim loop.layout.raw loop.layout.recent = some (group, raw, recent) →
        P (loop.remove frame condense group raw recent) → P loop)
    (loop : Enforcement σ) : P loop := by
  induction loop using enforceNativeBudgetWith.induct c frame condense with
  | case1 loop hover htrim => exact hstop loop fun _ => htrim
  | case2 loop hover group raw recent htrim hlt ih =>
      exact hround loop group raw recent hover htrim ih
  | case3 loop hfit => exact hstop loop fun hover => absurd hover hfit

/-- With the compiler's own condenser it is the loop of one compilation. -/
theorem enforceNativeBudgetWith_compressOlderGroups (c : Compiler) (frame : Frame)
    (loop : Enforcement Unit) :
    (c.enforceNativeBudgetWith frame
        (fun _ older => (c.compressOlderGroups older frame.workingState, ())) loop).layout =
      c.enforceNativeBudget frame loop.layout := by
  induction loop using enforceNativeBudgetWith_induction c frame
    (fun _ older => (c.compressOlderGroups older frame.workingState, ())) with
  | hstop loop hstop =>
      rw [enforceNativeBudgetWith_of_stop hstop, enforceNativeBudget_eq_getLast,
        rounds_of_stop hstop]
      rfl
  | hround loop group raw recent hover htrim ih =>
      rw [enforceNativeBudgetWith_of_trim hover htrim, ih, enforceNativeBudget_eq_getLast,
        enforceNativeBudget_eq_getLast, rounds_of_trim hover htrim, List.getLastD_cons]
      rfl

end Loop

/-! ## What the loop keeps -/

/-- What holds between a layout and what some rounds made of it. -/
structure Spends (start : Layout) (loop : Enforcement σ) : Prop where
  /-- Every removal takes one group out of the raw evidence or the recent groups. -/
  removals : loop.removals + (loop.layout.raw.length + loop.layout.recent.length) =
    start.raw.length + start.recent.length
  raw : loop.layout.raw.Sublist start.raw
  recent : loop.layout.recent.Sublist start.recent
  /-- No group is lost or made up, and each has its results. -/
  groups : (loop.layout.raw ++ loop.layout.recent ++ loop.layout.older).Perm
    (start.raw ++ start.recent ++ start.older)
  anchored : loop.layout.recent.filter anchored = start.recent.filter anchored

theorem Spends.start (start : Layout) (condenser : σ) : Spends start ⟨0, condenser, start⟩ where
  removals := Nat.zero_add _
  raw := List.Sublist.refl _
  recent := List.Sublist.refl _
  groups := List.Perm.refl _
  anchored := rfl

theorem Spends.remove {start : Layout} {condense : σ → List Group → List String × σ}
    {loop : Enforcement σ} (h : Spends start loop)
    (htrim : trim loop.layout.raw loop.layout.recent = some (group, raw, recent)) :
    Spends start (loop.remove frame condense group raw recent) where
  removals := by
    have hone := trim_length_eq htrim
    have hall := h.removals
    show loop.removals + 1 + (raw.length + recent.length) = _
    omega
  raw := (trim_raw_sublist htrim).trans h.raw
  recent := (trim_recent_sublist htrim).trans h.recent
  groups := by
    have hmove : (raw ++ recent ++ group :: loop.layout.older).Perm
        (loop.layout.raw ++ loop.layout.recent ++ loop.layout.older) :=
      List.perm_middle.trans ((trim_perm htrim).append_right loop.layout.older)
    exact hmove.trans h.groups
  anchored := (trim_anchored htrim).trans h.anchored

theorem spends_enforceNativeBudgetWith (c : Compiler) (frame : Frame)
    (condense : σ → List Group → List String × σ) {start : Layout} {loop : Enforcement σ}
    (h : Spends start loop) : Spends start (c.enforceNativeBudgetWith frame condense loop) := by
  induction loop using enforceNativeBudgetWith_induction c frame condense with
  | hstop loop hstop =>
      rw [enforceNativeBudgetWith_of_stop hstop]
      exact h
  | hround loop group raw recent hover htrim ih =>
      rw [enforceNativeBudgetWith_of_trim hover htrim]
      exact ih (h.remove htrim)

/-- The list fits, or only anchored recent groups are left. -/
def Settled (c : Compiler) (layout : Layout) : Prop :=
  c.estimateNativeTokens layout.messages ≤ c.budget.usableInputBudget ∨
    (layout.raw = [] ∧ ∀ other ∈ layout.recent, removable other = false)

theorem settled_enforceNativeBudgetWith (c : Compiler) (frame : Frame)
    (condense : σ → List Group → List String × σ) (loop : Enforcement σ) :
    c.Settled (c.enforceNativeBudgetWith frame condense loop).layout := by
  induction loop using enforceNativeBudgetWith_induction c frame condense with
  | hstop loop hstop =>
      rw [enforceNativeBudgetWith_of_stop hstop]
      by_cases hover : c.Over loop.layout
      · exact .inr (trim_eq_none_iff.mp (hstop hover))
      · exact .inl (Nat.le_of_not_lt hover)
  | hround loop group raw recent hover htrim ih =>
      rw [enforceNativeBudgetWith_of_trim hover htrim]
      exact ih

/-- What the loop returns is the rendering of the groups it returns, unless it removed
nothing. -/
theorem enforceNativeBudgetWith_rendered (c : Compiler) (frame : Frame)
    (condense : σ → List Group → List String × σ) {start : Layout} {loop : Enforcement σ}
    (h : loop.layout = start ∨ ∃ summaries, loop.layout.messages =
      assembleNativeMessages frame summaries loop.layout.raw loop.layout.recent) :
    (c.enforceNativeBudgetWith frame condense loop).layout = start ∨ ∃ summaries,
      (c.enforceNativeBudgetWith frame condense loop).layout.messages =
        assembleNativeMessages frame summaries
          (c.enforceNativeBudgetWith frame condense loop).layout.raw
          (c.enforceNativeBudgetWith frame condense loop).layout.recent := by
  induction loop using enforceNativeBudgetWith_induction c frame condense with
  | hstop loop hstop =>
      rw [enforceNativeBudgetWith_of_stop hstop]
      exact h
  | hround loop group raw recent hover htrim ih =>
      rw [enforceNativeBudgetWith_of_trim hover htrim]
      exact ih (.inr ⟨(condense loop.condenser (group :: loop.layout.older)).1, rfl⟩)

/-- Whatever the condenser answers, the loop ends within one removal per group, with
every group accounted for and every anchored one in its place, and it ends within the
budget or with nothing left to remove. -/
theorem enforceNativeBudgetWith_ends (c : Compiler) (frame : Frame)
    (condense : σ → List Group → List String × σ) (condenser : σ) (start : Layout) :
    let out := c.enforceNativeBudgetWith frame condense ⟨0, condenser, start⟩
    out.removals ≤ start.raw.length + start.recent.length ∧
      out.layout.raw.Sublist start.raw ∧ out.layout.recent.Sublist start.recent ∧
      (out.layout.raw ++ out.layout.recent ++ out.layout.older).Perm
        (start.raw ++ start.recent ++ start.older) ∧
      out.layout.recent.filter anchored = start.recent.filter anchored ∧
      (out.layout = start ∨ ∃ summaries, out.layout.messages =
        assembleNativeMessages frame summaries out.layout.raw out.layout.recent) ∧
      (c.estimateNativeTokens out.layout.messages ≤ c.budget.usableInputBudget ∨
        (out.layout.raw = [] ∧ ∀ other ∈ out.layout.recent, removable other = false)) := by
  intro out
  have hspends : Spends start out :=
    spends_enforceNativeBudgetWith c frame condense (Spends.start start condenser)
  have hremovals := hspends.removals
  refine ⟨by omega, hspends.raw, hspends.recent, hspends.groups, hspends.anchored, ?_,
    settled_enforceNativeBudgetWith c frame condense _⟩
  exact enforceNativeBudgetWith_rendered c frame condense (.inl rfl)

end Compiler
end Native
end CodeCub
