import CodeCub.Evolver.Scoring
import Mathlib.Data.Option.Basic

/-!
# Reruns cannot pick scores

A rerun asks only for tasks without a clean measurement, and what it answers is kept or
not without a look at the passes.
-/

namespace CodeCub
namespace Evolver

open Python

variable {E : Type}

/-! ## One rerun -/

/-- What is kept of a task that a call was asked for. -/
def better (k call : Nat) : Option Kept → Option TaskEval → Option Kept
  | old, none => old
  | none, some eval => some { eval, call }
  | some old, some eval => if wins k old.eval eval then some { eval, call } else some old

theorem keepBetter_cons {k : Nat} (hk : 1 ≤ k) (call : Nat) (redo : Evals) (t : Str)
    (rest : List Str) (evals : KeptEvals) :
    ∃ evals', (keepBetter k call redo (t :: rest) evals : Except (EvolverError E) KeptEvals) =
        keepBetter k call redo rest evals' ∧
      evals'.get t = better k call (evals.get t) (redo.get t) ∧
      ∀ s, s ≠ t → evals'.get s = evals.get s := by
  rw [keepBetter]
  cases hnew : redo.get t with
  | none =>
      refine ⟨evals, ?_, rfl, fun _ _ => rfl⟩
      cases (evals.get t).map Kept.eval with
      | none => rfl
      | some old => rfl
  | some eval =>
      cases hold : evals.get t with
      | none =>
          refine ⟨evals.set t { eval, call }, rfl, ?_, ?_⟩
          · rw [OrderedDict.get_set_self]
            rfl
          · exact fun s hs => OrderedDict.get_set_ne _ _ hs
      | some old =>
          rw [Option.map_some, preferRerunMeasurement_some hk]
          cases hwins : wins k old.eval eval with
          | true =>
              refine ⟨evals.set t { eval, call }, rfl, ?_, ?_⟩
              · rw [OrderedDict.get_set_self, better, if_pos hwins]
              · exact fun s hs => OrderedDict.get_set_ne _ _ hs
          | false =>
              refine ⟨evals, rfl, ?_, fun _ _ => rfl⟩
              rw [hold, better, hwins, if_neg (by decide)]

/-- The loop over the tasks returns, and changes the tasks that it was given. -/
theorem keepBetter_ok {k : Nat} (hk : 1 ≤ k) (call : Nat) (redo : Evals) {tasks : List Str}
    (hnodup : tasks.Nodup) (evals : KeptEvals) :
    ∃ evals', (keepBetter k call redo tasks evals : Except (EvolverError E) KeptEvals) = .ok evals' ∧
      ∀ t, evals'.get t =
        if t ∈ tasks then better k call (evals.get t) (redo.get t) else evals.get t := by
  induction tasks generalizing evals with
  | nil => exact ⟨evals, rfl, by simp⟩
  | cons t rest ih =>
      obtain ⟨hnot, hrest⟩ := List.nodup_cons.mp hnodup
      obtain ⟨evals₁, hstep, hself, hother⟩ := keepBetter_cons (E := E) hk call redo t rest evals
      obtain ⟨evals₂, hloop, hget⟩ := ih hrest evals₁
      refine ⟨evals₂, hstep.trans hloop, fun s => ?_⟩
      rw [hget s]
      by_cases hs : s = t
      · subst hs
        rw [if_neg hnot, if_pos List.mem_cons_self, hself]
      · rw [hother s hs]
        simp only [List.mem_cons, hs, false_or]

theorem needsRerun_clean {k : Nat} {ev : TaskEval} (h : ev.Clean k) :
    needsRerun k (some ev) = false := by
  obtain ⟨hattempts, hinfra, hfailure⟩ := h
  simp [needsRerun, hattempts, hinfra, hfailure]

/-- A clean measurement replaces one that is not clean. -/
theorem better_clean {k call : Nat} {old : Option Kept} {eval : TaskEval} (heval : eval.Clean k)
    (hold : needsRerun k (old.map Kept.eval) = true) :
    better k call old (some eval) = some { eval, call } := by
  cases old with
  | none => rfl
  | some old =>
      have hnot : ¬ old.eval.Clean k := by
        intro hclean
        rw [Option.map_some, needsRerun_clean hclean] at hold
        cases hold
      rw [better, if_pos]
      simp [wins, heval, hnot]

theorem better_source {k call : Nat} {old : Option Kept} {new : Option TaskEval} {ev : Kept}
    (h : better k call old new = some ev) : old = some ev ∨ new = some ev.eval ∧ ev.call = call := by
  cases new with
  | none =>
      cases old with
      | none => cases h
      | some old => exact Or.inl h
  | some eval =>
      cases old with
      | none =>
          cases h
          exact Or.inr ⟨rfl, rfl⟩
      | some old =>
          rw [better] at h
          split at h
          · cases h
            exact Or.inr ⟨rfl, rfl⟩
          · exact Or.inl h

/-! ## What the ladder keeps -/

/-- The call `j` was asked for the task and returned a clean measurement of it. -/
def ReturnedClean (calls : List (EvalCall × Except E Evals)) (k : Nat) (t : Str) (j : Nat)
    (eval : TaskEval) : Prop :=
  ∃ call answer, calls[j]? = some (call, .ok answer) ∧ t ∈ call.taskIds ∧
    answer.get t = some eval ∧ eval.Clean k

/-- The first call that did. -/
def FirstClean (calls : List (EvalCall × Except E Evals)) (k : Nat) (t : Str) (j : Nat)
    (eval : TaskEval) : Prop :=
  ReturnedClean calls k t j eval ∧ ∀ i < j, ∀ other, ¬ ReturnedClean calls k t i other

/-- Each measurement is one that a call returned, and a first clean one is kept. -/
structure Tracked (calls : List (EvalCall × Except E Evals)) (k : Nat) (evals : KeptEvals) :
    Prop where
  source : ∀ t ev, evals.get t = some ev →
    ∃ call answer, calls[ev.call]? = some (call, .ok answer) ∧ answer.get t = some ev.eval
  first : ∀ t j eval, FirstClean calls k t j eval → evals.get t = some { eval, call := j }

namespace Tracked

theorem keepAll_get (answer : Evals) (t : Str) :
    (keepAll 0 answer).get t = (answer.get t).map fun eval => { eval, call := 0 } := by
  rw [OrderedDict.get, OrderedDict.get, keepAll, List.find?_map, Option.map_map, Option.map_map]
  rfl

theorem start (call : EvalCall) (answer : Evals) (k : Nat) :
    Tracked [(call, (.ok answer : Except E Evals))] k (keepAll 0 answer) where
  source t ev h := by
    rw [keepAll_get, Option.map_eq_some_iff] at h
    obtain ⟨eval, hget, rfl⟩ := h
    exact ⟨call, answer, rfl, hget⟩
  first t j eval h := by
    obtain ⟨⟨call', answer', hcall, _, hget, _⟩, _⟩ := h
    cases j with
    | zero =>
        cases hcall
        rw [keepAll_get, hget]
        rfl
    | succ j => cases hcall

/-- A rerun. -/
theorem rerun {calls : List (EvalCall × Except E Evals)} {k : Nat} {evals evals' : KeptEvals}
    (h : Tracked calls k evals) {taskIds : List Str} {call : EvalCall}
    (hcall : call.taskIds = infraTasks evals taskIds k) {redo : Evals}
    (hget : ∀ t, evals'.get t =
      if t ∈ call.taskIds then better k calls.length (evals.get t) (redo.get t) else evals.get t) :
    Tracked (calls ++ [(call, .ok redo)]) k evals' := by
  constructor
  · intro t ev hev
    have hold : evals.get t = some ev → ∃ c a, (calls ++ [(call, .ok redo)])[ev.call]? =
        some (c, .ok a) ∧ a.get t = some ev.eval := by
      intro hkept
      obtain ⟨c, a, hc, ha⟩ := h.source t ev hkept
      have hlt := (List.getElem?_eq_some_iff.mp hc).1
      exact ⟨c, a, by rw [List.getElem?_append_left hlt]; exact hc, ha⟩
    rw [hget] at hev
    split at hev
    · rcases better_source hev with hkept | ⟨hnew, hlast⟩
      · exact hold hkept
      · refine ⟨call, redo, ?_, hnew⟩
        rw [hlast, List.getElem?_concat_length]
    · exact hold hev
  · intro t j eval hfirst
    obtain ⟨⟨c, a, hc, ht, heval, hclean⟩, hbefore⟩ := hfirst
    rcases Nat.lt_trichotomy j calls.length with hlt | rfl | hgt
    · rw [List.getElem?_append_left hlt] at hc
      have hkept : evals.get t = some { eval, call := j } := by
        refine h.first t j eval ⟨⟨c, a, hc, ht, heval, hclean⟩, ?_⟩
        rintro i hi other ⟨c', a', hc', hrest⟩
        refine hbefore i hi other ⟨c', a', ?_, hrest⟩
        rw [List.getElem?_append_left (by omega)]
        exact hc'
      -- A clean measurement is not asked for again.
      have hnot : t ∉ call.taskIds := by
        rw [hcall, infraTasks, List.mem_filter, hkept, Option.map_some, needsRerun_clean hclean]
        simp
      rw [hget, if_neg hnot, hkept]
    · rw [List.getElem?_concat_length] at hc
      cases hc
      have hneeds : needsRerun k ((evals.get t).map Kept.eval) = true := by
        rw [hcall, infraTasks, List.mem_filter] at ht
        exact ht.2
      rw [hget, if_pos ht, heval, better_clean hclean hneeds]
    · rw [List.getElem?_eq_none (by simp; omega)] at hc
      cases hc

end Tracked

/-- The measurement of a task that is clean is not changed by a rerun. -/
theorem get_of_clean {k call : Nat} {evals evals' : KeptEvals} {taskIds : List Str} {redo : Evals}
    (hget : ∀ t, evals'.get t = if t ∈ infraTasks evals taskIds k then
      better k call (evals.get t) (redo.get t) else evals.get t) {t : Str} {ev : Kept}
    (hev : evals.get t = some ev) (hclean : ev.eval.Clean k) : evals'.get t = some ev := by
  have hnot : t ∉ infraTasks evals taskIds k := by
    rw [infraTasks, List.mem_filter, hev, Option.map_some, needsRerun_clean hclean]
    simp
  rw [hget, if_neg hnot, hev]

section Ladder

variable {evalFn : Scorer E} {taskIds : List Str} {k : Nat} {jobName : Str}

/-- The ladder from one state on: it stops, the scorer raises, or it goes on from the
measurements that are kept then. -/
theorem rerunFrom_cases (evalFn : Scorer E) (jobName : Str) (hk : 1 ≤ k)
    (hnodup : taskIds.Nodup) (i : Nat)
    (calls : List (EvalCall × Except E Evals)) (evals : KeptEvals) :
    (∀ n, rerunFrom evalFn taskIds k jobName n i calls evals = { calls, result := .ok evals }) ∨
      (∃ error, evalFn (calls.map Prod.fst) (rerunCall evals taskIds k jobName i) = .error error ∧
        ∀ n, rerunFrom evalFn taskIds k jobName (n + 1) i calls evals =
          { calls := calls ++ [(rerunCall evals taskIds k jobName i, .error error)]
            result := .error (.raised error) }) ∨
      ∃ redo evals', evalFn (calls.map Prod.fst) (rerunCall evals taskIds k jobName i) = .ok redo ∧
        (∀ t, evals'.get t = if t ∈ infraTasks evals taskIds k then
          better k calls.length (evals.get t) (redo.get t) else evals.get t) ∧
        ∀ n, rerunFrom evalFn taskIds k jobName (n + 1) i calls evals =
          rerunFrom evalFn taskIds k jobName n (i + 1)
            (calls ++ [(rerunCall evals taskIds k jobName i, .ok redo)]) evals' := by
  by_cases hstop : infraTasks evals taskIds k = []
  · refine Or.inl fun n => ?_
    cases n with
    | zero => rfl
    | succ n => rw [rerunFrom, if_pos hstop]
  · refine Or.inr ?_
    cases hanswer : evalFn (calls.map Prod.fst) (rerunCall evals taskIds k jobName i) with
    | error error =>
        refine Or.inl ⟨error, rfl, fun n => ?_⟩
        rw [rerunFrom, if_neg hstop]
        simp only [hanswer]
    | ok redo =>
        obtain ⟨evals', hkeep, hget⟩ := keepBetter_ok (E := E) hk calls.length redo
          (hnodup.filter fun t => needsRerun k ((evals.get t).map Kept.eval)) evals
        refine Or.inr ⟨redo, evals', rfl, hget, fun n => ?_⟩
        rw [rerunFrom, if_neg hstop]
        simp only [hanswer]
        rw [rerunCall, infraTasks, hkeep]

theorem length_rerunFrom (evalFn : Scorer E) (jobName : Str) (hk : 1 ≤ k) (hnodup : taskIds.Nodup)
    (n i : Nat)
    (calls : List (EvalCall × Except E Evals)) (evals : KeptEvals) :
    (rerunFrom evalFn taskIds k jobName n i calls evals).calls.length ≤ calls.length + n := by
  induction n generalizing i calls evals with
  | zero => simp [rerunFrom]
  | succ n ih =>
      rcases rerunFrom_cases evalFn jobName hk hnodup i calls evals with
        heq | ⟨error, _, heq⟩ | ⟨redo, evals', _, _, heq⟩
      · rw [heq]
        simp
      · rw [heq, List.length_append, List.length_singleton]
        omega
      · have hrest := ih (i + 1) (calls ++ [(rerunCall evals taskIds k jobName i, .ok redo)]) evals'
        rw [heq]
        rw [List.length_append, List.length_singleton] at hrest
        omega

theorem tracked_rerunFrom (hk : 1 ≤ k) (hnodup : taskIds.Nodup) (n i : Nat)
    {calls : List (EvalCall × Except E Evals)} {evals kept : KeptEvals} (h : Tracked calls k evals)
    (hresult : (rerunFrom evalFn taskIds k jobName n i calls evals).result = .ok kept) :
    Tracked (rerunFrom evalFn taskIds k jobName n i calls evals).calls k kept := by
  induction n generalizing i calls evals with
  | zero =>
      cases hresult
      exact h
  | succ n ih =>
      rcases rerunFrom_cases evalFn jobName hk hnodup i calls evals with
        heq | ⟨error, _, heq⟩ | ⟨redo, evals', _, hget, heq⟩
      · rw [heq] at hresult ⊢
        cases hresult
        exact h
      · rw [heq] at hresult
        cases hresult
      · rw [heq] at hresult ⊢
        exact ih (i + 1) (h.rerun rfl hget) hresult

theorem clean_rerunFrom (hk : 1 ≤ k) (hnodup : taskIds.Nodup) (n i : Nat)
    {calls : List (EvalCall × Except E Evals)} {evals kept : KeptEvals} {t : Str} {ev : Kept}
    (hev : evals.get t = some ev) (hclean : ev.eval.Clean k)
    (hresult : (rerunFrom evalFn taskIds k jobName n i calls evals).result = .ok kept) :
    kept.get t = some ev := by
  induction n generalizing i calls evals with
  | zero =>
      cases hresult
      exact hev
  | succ n ih =>
      rcases rerunFrom_cases evalFn jobName hk hnodup i calls evals with
        heq | ⟨error, _, heq⟩ | ⟨redo, evals', _, hget, heq⟩
      · rw [heq] at hresult
        cases hresult
        exact hev
      · rw [heq] at hresult
        cases hresult
      · rw [heq] at hresult
        exact ih (i + 1) (get_of_clean hget hev hclean) hresult

/-- A ladder with more reruns goes on where one with fewer stopped. -/
theorem rerunFrom_add (hk : 1 ≤ k) (hnodup : taskIds.Nodup) (m n i : Nat)
    {calls : List (EvalCall × Except E Evals)} {evals kept : KeptEvals}
    (hresult : (rerunFrom evalFn taskIds k jobName m i calls evals).result = .ok kept) :
    ∃ j, rerunFrom evalFn taskIds k jobName (m + n) i calls evals =
      rerunFrom evalFn taskIds k jobName n j
        (rerunFrom evalFn taskIds k jobName m i calls evals).calls kept := by
  induction m generalizing i calls evals with
  | zero =>
      cases hresult
      rw [Nat.zero_add]
      exact ⟨i, rfl⟩
  | succ m ih =>
      rw [Nat.succ_add]
      rcases rerunFrom_cases evalFn jobName hk hnodup i calls evals with
        heq | ⟨error, _, heq⟩ | ⟨redo, evals', _, _, heq⟩
      · rw [heq] at hresult
        cases hresult
        exact ⟨i, by rw [heq, heq, heq]⟩
      · rw [heq] at hresult
        cases hresult
      · rw [heq] at hresult
        rw [heq, heq]
        exact ih (i + 1) hresult

end Ladder

/-! ## Blindness to passes -/

def Evals.Alike (a b : Evals) : Prop := ∀ t, Option.Rel TaskEval.Alike (a.get t) (b.get t)

/-- Two answers that differ only in the number of passes. -/
inductive AnswersAlike : Except E Evals → Except E Evals → Prop where
  | raised (e e' : E) : AnswersAlike (.error e) (.error e')
  | returned {a b : Evals} (h : a.Alike b) : AnswersAlike (.ok a) (.ok b)

/-- Kept from the same call. -/
structure Kept.Alike (a b : Kept) : Prop where
  eval : a.eval.Alike b.eval
  call : a.call = b.call

def KeptEvals.Alike (a b : KeptEvals) : Prop := ∀ t, Option.Rel Kept.Alike (a.get t) (b.get t)

namespace TaskEval.Alike

variable {a b : TaskEval}

theorem clean_iff (h : a.Alike b) (k : Nat) : a.Clean k ↔ b.Clean k := by
  rw [Clean, Clean, h.attempts, h.infraAttempts, h.failure]

theorem isInfrastructureFailure_eq (h : a.Alike b) :
    a.isInfrastructureFailure = b.isInfrastructureFailure := by
  rw [isInfrastructureFailure, isInfrastructureFailure, h.infraAttempts, h.failure]

theorem needsRerun_eq (h : a.Alike b) (k : Nat) : needsRerun k (some a) = needsRerun k (some b) := by
  rw [needsRerun, needsRerun, h.attempts, h.infraAttempts, h.failure]

end TaskEval.Alike

theorem wins_alike {k : Nat} {a a' b b' : TaskEval} (ha : a.Alike a') (hb : b.Alike b') :
    wins k a b = wins k a' b' := by
  rw [wins, wins, decide_eq_decide.mpr (ha.clean_iff k), decide_eq_decide.mpr (hb.clean_iff k),
    ha.isInfrastructureFailure_eq, hb.isInfrastructureFailure_eq, ha.infraAttempts,
    hb.infraAttempts]

theorem better_alike {k call : Nat} {old old' : Option Kept} {new new' : Option TaskEval}
    (hold : Option.Rel Kept.Alike old old') (hnew : Option.Rel TaskEval.Alike new new') :
    Option.Rel Kept.Alike (better k call old new) (better k call old' new') := by
  cases hnew with
  | none =>
      cases hold with
      | none => exact .none
      | some h => exact .some h
  | some hnew =>
      cases hold with
      | none => exact .some ⟨hnew, rfl⟩
      | some hold =>
          rw [better, better, wins_alike hold.eval hnew]
          split
          · exact .some ⟨hnew, rfl⟩
          · exact .some hold

theorem infraTasks_alike {a b : KeptEvals} (h : a.Alike b) (taskIds : List Str) (k : Nat) :
    infraTasks a taskIds k = infraTasks b taskIds k := by
  rw [infraTasks, infraTasks]
  refine List.filter_congr fun t _ => ?_
  have ht := h t
  cases ha : a.get t with
  | none =>
      rw [ha] at ht
      cases hb : b.get t with
      | none => rfl
      | some _ =>
          rw [hb] at ht
          cases ht
  | some ev =>
      rw [ha] at ht
      cases hb : b.get t with
      | none =>
          rw [hb] at ht
          cases ht
      | some ev' =>
          rw [hb] at ht
          cases ht with
          | some hev => exact hev.eval.needsRerun_eq k

/-- The same calls, and measurements kept from the same ones. -/
structure Ladder.Alike (a b : Ladder E) : Prop where
  calls : a.calls.map Prod.fst = b.calls.map Prod.fst
  returned : ∀ kept, a.result = .ok kept → ∃ kept', b.result = .ok kept' ∧ kept.Alike kept'
  raised : ∀ error, a.result = .error error → ∃ error', b.result = .error error'

section Blind

variable {s s' : Scorer E} {taskIds : List Str} {k : Nat} {jobName : Str}

theorem rerunFrom_alike (hk : 1 ≤ k) (hnodup : taskIds.Nodup)
    (hs : ∀ before call, AnswersAlike (s before call) (s' before call)) (n i : Nat)
    {calls calls' : List (EvalCall × Except E Evals)} {evals evals' : KeptEvals}
    (hcalls : calls.map Prod.fst = calls'.map Prod.fst) (hevals : evals.Alike evals') :
    (rerunFrom s taskIds k jobName n i calls evals).Alike
      (rerunFrom s' taskIds k jobName n i calls' evals') := by
  have hsame : ∀ {calls calls' : List (EvalCall × Except E Evals)} {evals evals' : KeptEvals},
      calls.map Prod.fst = calls'.map Prod.fst → evals.Alike evals' →
      Ladder.Alike { calls, result := .ok evals } { calls := calls', result := .ok evals' } := by
    intro calls calls' evals evals' hcalls hevals
    refine ⟨hcalls, ?_, ?_⟩
    · rintro _ ⟨⟩
      exact ⟨evals', rfl, hevals⟩
    · rintro _ ⟨⟩
  induction n generalizing i calls calls' evals evals' with
  | zero => exact hsame hcalls hevals
  | succ n ih =>
      have htasks := infraTasks_alike hevals taskIds k
      have hcall : rerunCall evals taskIds k jobName i = rerunCall evals' taskIds k jobName i := by
        rw [rerunCall, rerunCall, htasks]
      have hanswers := hs (calls.map Prod.fst) (rerunCall evals taskIds k jobName i)
      have hlength : calls.length = calls'.length := by
        rw [← List.length_map Prod.fst, hcalls, List.length_map]
      rw [rerunFrom, rerunFrom, ← htasks, ← hcall, ← hcalls]
      split
      · exact hsame hcalls hevals
      · cases hanswer : s (calls.map Prod.fst) (rerunCall evals taskIds k jobName i) with
        | error error =>
            rw [hanswer] at hanswers
            cases hanswer' : s' (calls.map Prod.fst) (rerunCall evals taskIds k jobName i) with
            | ok answer =>
                rw [hanswer'] at hanswers
                cases hanswers
            | error error' =>
                simp only [hanswer, hanswer']
                refine ⟨by simp [hcalls], ?_, fun _ _ => ⟨_, rfl⟩⟩
                rintro _ ⟨⟩
        | ok redo =>
            rw [hanswer] at hanswers
            cases hanswer' : s' (calls.map Prod.fst) (rerunCall evals taskIds k jobName i) with
            | error error =>
                rw [hanswer'] at hanswers
                cases hanswers
            | ok redo' =>
                rw [hanswer'] at hanswers
                cases hanswers with
                | returned hredo =>
                    have hdistinct : (rerunCall evals taskIds k jobName i).taskIds.Nodup :=
                      hnodup.filter _
                    obtain ⟨kept, hkeep, hget⟩ := keepBetter_ok (E := E) hk calls.length redo
                      hdistinct evals
                    obtain ⟨kept', hkeep', hget'⟩ := keepBetter_ok (E := E) hk calls.length redo'
                      hdistinct evals'
                    simp only [hanswer, hanswer', hkeep, ← hlength, hkeep']
                    refine ih (i + 1) (by simp [hcalls]) fun t => ?_
                    rw [hget, hget']
                    split
                    · exact better_alike (hevals t) (hredo t)
                    · exact hevals t

theorem evalWithInfraRerun_alike (hk : 1 ≤ k) (hnodup : taskIds.Nodup)
    (hs : ∀ before call, AnswersAlike (s before call) (s' before call)) (maxReruns : Int) :
    (evalWithInfraRerun s taskIds k jobName maxReruns).Alike
      (evalWithInfraRerun s' taskIds k jobName maxReruns) := by
  have hanswers := hs [] { taskIds, k, jobName }
  rw [evalWithInfraRerun, evalWithInfraRerun]
  cases hanswer : s [] { taskIds, k, jobName } with
  | error error =>
      rw [hanswer] at hanswers
      cases hanswer' : s' [] { taskIds, k, jobName } with
      | ok answer =>
          rw [hanswer'] at hanswers
          cases hanswers
      | error error' =>
          refine ⟨rfl, ?_, fun _ _ => ⟨_, rfl⟩⟩
          rintro _ ⟨⟩
  | ok answer =>
      rw [hanswer] at hanswers
      cases hanswer' : s' [] { taskIds, k, jobName } with
      | error error =>
          rw [hanswer'] at hanswers
          cases hanswers
      | ok answer' =>
          rw [hanswer'] at hanswers
          cases hanswers with
          | returned h =>
              refine rerunFrom_alike hk hnodup hs _ 1 rfl fun t => ?_
              rw [Tracked.keepAll_get, Tracked.keepAll_get]
              have ht := h t
              generalize answer.get t = old, answer'.get t = new at ht
              cases ht with
              | none => exact .none
              | some hev => exact .some ⟨hev, rfl⟩

end Blind

/-! ## The whole ladder -/

/-- How often the scorer is called and what is kept of its answers. -/
structure Honest (evalFn : Scorer E) (taskIds : List Str) (k : Nat) (jobName : Str)
    (maxReruns : Int) : Prop where
  bounded : (evalWithInfraRerun evalFn taskIds k jobName maxReruns).calls.length ≤ max maxReruns 0 + 1
  tracked : ∀ kept, (evalWithInfraRerun evalFn taskIds k jobName maxReruns).result = .ok kept →
    Tracked (evalWithInfraRerun evalFn taskIds k jobName maxReruns).calls k kept
  /-- What is kept clean after fewer reruns is never replaced. -/
  stable : ∀ fewer ≤ maxReruns, ∀ before after,
    (evalWithInfraRerun evalFn taskIds k jobName fewer).result = .ok before →
    (evalWithInfraRerun evalFn taskIds k jobName maxReruns).result = .ok after →
    ∀ t ev, before.get t = some ev → ev.eval.Clean k → after.get t = some ev

theorem honest (evalFn : Scorer E) {taskIds : List Str} {k : Nat} (jobName : Str) (hk : 1 ≤ k)
    (hnodup : taskIds.Nodup) (maxReruns : Int) : Honest evalFn taskIds k jobName maxReruns := by
  cases hanswer : evalFn [] { taskIds, k, jobName } with
  | error error =>
      have heq : ∀ n, evalWithInfraRerun evalFn taskIds k jobName n =
          { calls := [({ taskIds, k, jobName }, .error error)], result := .error (.raised error) } := by
        intro n
        rw [evalWithInfraRerun]
        simp only [hanswer]
      refine ⟨?_, ?_, ?_⟩
      · rw [heq, List.length_singleton]
        omega
      · intro kept h
        rw [heq] at h
        cases h
      · intro _ _ _ _ h
        rw [heq] at h
        cases h
  | ok answer =>
      have heq : ∀ n, evalWithInfraRerun evalFn taskIds k jobName n =
          rerunFrom evalFn taskIds k jobName n.toNat 1 [({ taskIds, k, jobName }, .ok answer)]
            (keepAll 0 answer) := by
        intro n
        rw [evalWithInfraRerun]
        simp only [hanswer]
      refine ⟨?_, ?_, ?_⟩
      · have hlength := length_rerunFrom evalFn jobName hk hnodup
          maxReruns.toNat 1 [({ taskIds, k, jobName }, .ok answer)] (keepAll 0 answer)
        rw [heq]
        rw [List.length_singleton] at hlength
        omega
      · intro kept h
        rw [heq] at h ⊢
        exact tracked_rerunFrom hk hnodup _ 1 (Tracked.start _ answer k) h
      · intro fewer hle before after hbefore hafter t ev hev hclean
        rw [heq] at hbefore hafter
        obtain ⟨n, hn⟩ : ∃ n, maxReruns.toNat = fewer.toNat + n :=
          ⟨maxReruns.toNat - fewer.toNat, by omega⟩
        obtain ⟨j, hadd⟩ := rerunFrom_add hk hnodup fewer.toNat n 1 hbefore
        rw [hn, hadd] at hafter
        exact clean_rerunFrom hk hnodup n j hev hclean hafter

/-- Reruns keep the first clean measurement of a task, and which one they keep does not
depend on the passes. -/
theorem reruns_cannot_pick_scores (evalFn evalFn' : Scorer E) (taskIds : List Str) (k : Nat)
    (jobName : Str) (maxReruns : Int) (hk : 1 ≤ k) (hnodup : taskIds.Nodup)
    (halike : ∀ before call, AnswersAlike (evalFn before call) (evalFn' before call)) :
    Honest evalFn taskIds k jobName maxReruns ∧
      (evalWithInfraRerun evalFn taskIds k jobName maxReruns).Alike
        (evalWithInfraRerun evalFn' taskIds k jobName maxReruns) :=
  ⟨honest evalFn jobName hk hnodup maxReruns, evalWithInfraRerun_alike hk hnodup halike maxReruns⟩

theorem spoilt_le {p : Prop} [Decidable p] {a b n : Nat} (ha : a ≤ n) (hb : b ≤ n) :
    (if p then a else b) ≤ n := by
  split
  · exact ha
  · exact hb

/-- The first call meets an infrastructure failure, the next ones do not. -/
def spoiltOnce (passes : Fin 4) : Scorer Empty := fun before _ =>
  .ok ((∅ : Evals).set "t".toList
    { taskId := "t".toList
      passes := if before = [] then 0 else passes
      attempts := 3
      infraAttempts := if before = [] then 1 else 0
      passes_le := spoilt_le (Nat.zero_le 3) passes.is_le
      infraAttempts_le := spoilt_le (Nat.le_add_left 1 2) (Nat.zero_le 3) })

theorem spoiltOnce_alike (before : List EvalCall) (call : EvalCall) :
    AnswersAlike (spoiltOnce 0 before call) (spoiltOnce 3 before call) := by
  refine .returned fun t => ?_
  rw [OrderedDict.get_set, OrderedDict.get_set]
  split
  · exact .some ⟨rfl, rfl, rfl, rfl⟩
  · exact .none

theorem spoilt_once_is_rerun :
    Honest (spoiltOnce 0) ["t".toList] 3 "job".toList 2 ∧
      (evalWithInfraRerun (spoiltOnce 0) ["t".toList] 3 "job".toList 2).Alike
        (evalWithInfraRerun (spoiltOnce 3) ["t".toList] 3 "job".toList 2) ∧
      (evalWithInfraRerun (spoiltOnce 0) ["t".toList] 3 "job".toList 2).calls.length = 2 := by
  obtain ⟨hhonest, halike⟩ := reruns_cannot_pick_scores (spoiltOnce 0) (spoiltOnce 3)
    ["t".toList] 3 "job".toList 2 (by decide) (List.nodup_singleton _) spoiltOnce_alike
  exact ⟨hhonest, halike, by decide⟩

/-- With a negative number of reruns the scorer is still called once. -/
theorem negative_reruns_call_once :
    ¬ ∀ (evalFn : Scorer Empty) (taskIds : List Str) (k : Nat) (jobName : Str) (maxReruns : Int),
      taskIds.Nodup → 1 ≤ k →
      (evalWithInfraRerun evalFn taskIds k jobName maxReruns).calls.length ≤ maxReruns + 1 := by
  intro h
  have hcalls := h (spoiltOnce 0) ["t".toList] 3 "job".toList (-1) (List.nodup_singleton _)
    (by decide)
  exact absurd hcalls (by decide)

end Evolver
end CodeCub
