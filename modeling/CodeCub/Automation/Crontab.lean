import CodeCub.Automation.Scheduler
import CodeCub.Python.Calendar

/-!
# What the next time of a cron expression is

`cron_next` of `codecub/automation.py` against the fields of the expression: the minutes,
hours, days, months and days of the week they denote, and the first minute that has all of
them.  The search ends after 366 days, and Monday is day 0 of the week.
-/

namespace CodeCub
namespace Automation

open Python

/-! ## What a field denotes -/

section
variable {F M : Type} (host : Host F M)

/-- The first and the last value of an atom without its step. -/
def BaseDenotes (base : List Char) (minimum maximum : ℕ) (start stop : ℤ) : Prop :=
  if base = ['*'] then start = minimum ∧ stop = maximum
  else if '-' ∈ base then
    pyInt host (base.takeWhile (· ≠ '-')) = some start ∧
      pyInt host ((base.dropWhile (· ≠ '-')).drop 1) = some stop
  else pyInt host base = some start ∧ stop = start

/-- The step of an atom, 1 where it has none. -/
def StepDenotes (stepText : List Char) (step : ℤ) : Prop :=
  if stepText = [] then step = 1 else pyInt host stepText = some step

/-- `base/step`: every step-th value from the first to the last one. -/
def AtomDenotes (atom : List Char) (minimum maximum : ℕ) (n : ℤ) : Prop :=
  ∃ start stop step,
    BaseDenotes host ((stripList isSpace atom).takeWhile (· ≠ '/')) minimum maximum start stop ∧
      StepDenotes host (((stripList isSpace atom).dropWhile (· ≠ '/')).drop 1) step ∧
      start ≤ n ∧ n ≤ stop ∧ step ∣ n - start

/-- A list of atoms with commas between them. -/
def FieldDenotes (field : List Char) (minimum maximum : ℕ) (n : ℤ) : Prop :=
  ∃ atom ∈ field.splitOn ',', AtomDenotes host atom minimum maximum n

/-- The minute, the hour, the day, the month and the day of the week are all denoted. -/
def ExpressionMatches (dayOfWeek : DateTime → ℕ) (expression : String) (d : DateTime) : Prop :=
  ∃ minute hour day month weekday, words expression.toList = [minute, hour, day, month, weekday] ∧
    FieldDenotes host minute 0 59 d.minute ∧ FieldDenotes host hour 0 23 d.hour ∧
      FieldDenotes host day 1 31 d.day ∧ FieldDenotes host month 1 12 d.month ∧
        FieldDenotes host weekday 0 6 (dayOfWeek d)

end

/-- Sunday is 0. -/
def crontabWeekday (d : DateTime) : ℕ := (d.weekday + 1) % 7

def WholeMinute (d : DateTime) : Prop := d.second = 0 ∧ d.microsecond = 0

/-! ## Fields -/

section
variable {F M : Type} {host : Host F M}

theorem mem_steppedRange {start stop step n : ℕ} (hstep : 0 < step) :
    n ∈ steppedRange start stop step ↔
      start ≤ n ∧ (n ≤ stop ∨ n = start) ∧ step ∣ n - start := by
  rw [steppedRange, List.mem_map]
  constructor
  · rintro ⟨i, hi, rfl⟩
    rw [List.mem_range] at hi
    refine ⟨Nat.le_add_right _ _, ?_, ?_⟩
    · have hle : i * step ≤ stop - start :=
        (Nat.le_div_iff_mul_le hstep).mp (Nat.le_of_lt_succ hi)
      rcases Nat.eq_zero_or_pos (i * step) with hzero | hpos
      · exact Or.inr (by omega)
      · exact Or.inl (by omega)
    · rw [Nat.add_sub_cancel_left]
      exact Nat.dvd_mul_left step i
  · rintro ⟨hstart, hstop, i, hi⟩
    refine ⟨i, List.mem_range.mpr (Nat.lt_succ_of_le ((Nat.le_div_iff_mul_le hstep).mpr ?_)), ?_⟩
    · rw [Nat.mul_comm]
      omega
    · rw [Nat.mul_comm]
      omega

theorem intOr_eq_ok {l : List Char} {message : String} {n : ℤ}
    (h : intOr host l message = .ok n) : pyInt host l = some n := by
  rw [intOr] at h
  cases hint : pyInt host l with
  | none =>
      rw [hint] at h
      cases h
  | some n' =>
      rw [hint, Except.ok.injEq] at h
      rw [h]

/-- The bounds that are read are the ones denoted. -/
theorem baseDenotes_iff {base : List Char} {minimum maximum : ℕ} {bounds : ℤ × ℤ}
    (h : cronBounds host base minimum maximum = .ok bounds) {start stop : ℤ} :
    BaseDenotes host base minimum maximum start stop ↔ start = bounds.1 ∧ stop = bounds.2 := by
  rw [cronBounds] at h
  rw [BaseDenotes]
  by_cases hstar : base = ['*']
  · rw [if_pos hstar, Except.ok.injEq] at h
    rw [if_pos hstar, ← h]
  · rw [if_neg hstar] at h ⊢
    by_cases hdash : '-' ∈ base
    · rw [if_pos hdash] at h ⊢
      obtain ⟨left, hleft, h⟩ := bind_eq_ok h
      obtain ⟨right, hright, h⟩ := bind_eq_ok h
      rw [intOr_eq_ok hleft, intOr_eq_ok hright, ← Except.ok.inj h]
      simp only [Option.some.injEq]
      rw [eq_comm (a := left), eq_comm (a := right)]
    · rw [if_neg hdash] at h ⊢
      obtain ⟨value, hvalue, h⟩ := bind_eq_ok h
      rw [intOr_eq_ok hvalue, ← Except.ok.inj h]
      simp only [Option.some.injEq]
      constructor
      · rintro ⟨rfl, rfl⟩
        exact ⟨rfl, rfl⟩
      · rintro ⟨rfl, rfl⟩
        exact ⟨rfl, rfl⟩

theorem stepDenotes_iff {stepText : List Char} {step : ℤ}
    (h : (if stepText = [] then .ok 1 else intOr host stepText "cron step must be an integer") =
      .ok step) {step' : ℤ} : StepDenotes host stepText step' ↔ step' = step := by
  rw [StepDenotes]
  by_cases hempty : stepText = []
  · rw [if_pos hempty, Except.ok.injEq] at h
    rw [if_pos hempty, ← h]
  · rw [if_neg hempty] at h
    rw [if_neg hempty, intOr_eq_ok h, Option.some.injEq, eq_comm]

/-- What an accepted atom has passed. -/
theorem cronAtom_eq_ok {atom : List Char} {minimum maximum : ℕ} {values : List ℕ}
    (h : cronAtom host atom minimum maximum = .ok values) :
    ∃ step bounds,
      (if ((stripList isSpace atom).dropWhile (· ≠ '/')).drop 1 = [] then .ok 1
        else intOr host (((stripList isSpace atom).dropWhile (· ≠ '/')).drop 1)
          "cron step must be an integer") = .ok step ∧
      cronBounds host ((stripList isSpace atom).takeWhile (· ≠ '/')) minimum maximum =
        .ok bounds ∧
      0 < step ∧ ¬ (bounds.1 < minimum ∨ (maximum : ℤ) < bounds.2 ∨ bounds.2 < bounds.1) ∧
      values = steppedRange bounds.1.toNat bounds.2.toNat step.toNat := by
  have hrest : ∀ step : ℤ, (if step ≤ 0 then
        .error (.cronScheduleError "cron step must be positive")
      else do
        let bounds ← cronBounds host ((stripList isSpace atom).takeWhile (· ≠ '/'))
          minimum maximum
        if bounds.1 < minimum ∨ maximum < bounds.2 ∨ bounds.2 < bounds.1 then
          .error (.cronScheduleError s!"cron field must be in [{minimum}, {maximum}]")
        else .ok (steppedRange bounds.1.toNat bounds.2.toNat step.toNat)) = Except.ok values →
      ∃ bounds,
        cronBounds host ((stripList isSpace atom).takeWhile (· ≠ '/')) minimum maximum =
          .ok bounds ∧
        0 < step ∧ ¬ (bounds.1 < minimum ∨ (maximum : ℤ) < bounds.2 ∨ bounds.2 < bounds.1) ∧
        values = steppedRange bounds.1.toNat bounds.2.toNat step.toNat := by
    intro step h
    by_cases hpos : step ≤ 0
    · rw [if_pos hpos] at h
      cases h
    rw [if_neg hpos] at h
    obtain ⟨bounds, hbounds, h⟩ := bind_eq_ok h
    by_cases hbad : bounds.1 < minimum ∨ (maximum : ℤ) < bounds.2 ∨ bounds.2 < bounds.1
    · simp only [if_pos hbad] at h
      cases h
    · simp only [if_neg hbad] at h
      exact ⟨bounds, hbounds, by omega, hbad, (Except.ok.inj h).symm⟩
  rw [cronAtom] at h
  by_cases hempty : stripList isSpace atom = []
  · rw [if_pos hempty] at h
    cases h
  rw [if_neg hempty] at h
  by_cases hstep : ((stripList isSpace atom).dropWhile (· ≠ '/')).drop 1 = []
  · rw [if_pos hstep] at h ⊢
    obtain ⟨step, hone, h⟩ := bind_eq_ok h
    obtain ⟨bounds, hbounds⟩ := hrest step h
    exact ⟨step, bounds, hone, hbounds⟩
  · rw [if_neg hstep] at h ⊢
    obtain ⟨step, hread, h⟩ := bind_eq_ok h
    obtain ⟨bounds, hbounds⟩ := hrest step h
    exact ⟨step, bounds, hread, hbounds⟩

theorem mem_cronAtom {atom : List Char} {minimum maximum : ℕ} {values : List ℕ}
    (h : cronAtom host atom minimum maximum = .ok values) (n : ℕ) :
    n ∈ values ↔ AtomDenotes host atom minimum maximum n := by
  obtain ⟨step, bounds, hstep, hbounds, hpos, hinside, rfl⟩ := cronAtom_eq_ok h
  have hdenotes : AtomDenotes host atom minimum maximum n ↔
      bounds.1 ≤ n ∧ (n : ℤ) ≤ bounds.2 ∧ step ∣ n - bounds.1 := by
    rw [AtomDenotes]
    simp only [baseDenotes_iff hbounds, stepDenotes_iff hstep]
    constructor
    · rintro ⟨start, stop, step', ⟨rfl, rfl⟩, rfl, hn⟩
      exact hn
    · exact fun hn => ⟨_, _, _, ⟨rfl, rfl⟩, rfl, hn⟩
  obtain ⟨start, hstart⟩ := Int.eq_ofNat_of_zero_le (a := bounds.1) (by omega)
  obtain ⟨stop, hstop⟩ := Int.eq_ofNat_of_zero_le (a := bounds.2) (by omega)
  obtain ⟨k, hk⟩ := Int.eq_ofNat_of_zero_le (a := step) (by omega)
  rw [hdenotes, mem_steppedRange (by omega)]
  rw [hstart, hstop] at hinside ⊢
  rw [hk, Int.toNat_natCast, Int.toNat_natCast, Int.toNat_natCast]
  constructor
  · rintro ⟨hle, hn, hdvd⟩
    refine ⟨by omega, by omega, ?_⟩
    rw [← Int.ofNat_sub hle]
    exact Int.natCast_dvd_natCast.mpr hdvd
  · rintro ⟨hle, hn, hdvd⟩
    have hle : start ≤ n := by omega
    rw [← Int.ofNat_sub hle] at hdvd
    exact ⟨hle, Or.inl (by omega), Int.natCast_dvd_natCast.mp hdvd⟩

/-- Every atom of an accepted list is accepted. -/
theorem ok_of_mapM {A B : Type} {f : A → Except Raised B} {l : List A} {results : List B}
    (h : l.mapM f = .ok results) : List.Forall₂ (fun a b => f a = .ok b) l results := by
  induction l generalizing results with
  | nil =>
      cases h
      exact .nil
  | cons a rest ih =>
      rw [List.mapM_cons] at h
      obtain ⟨first, hfirst, h⟩ := bind_eq_ok h
      obtain ⟨others, hothers, h⟩ := bind_eq_ok h
      cases h
      exact .cons hfirst (ih hothers)

theorem mem_atoms {texts : List (List Char)} {minimum maximum : ℕ} {atoms : List (List ℕ)}
    (h : List.Forall₂ (fun text values => cronAtom host text minimum maximum = .ok values) texts
      atoms) (n : ℕ) :
    n ∈ atoms.flatten ↔ ∃ text ∈ texts, AtomDenotes host text minimum maximum n := by
  induction h with
  | nil => simp
  | cons hfirst _ ih =>
      rw [List.flatten_cons, List.mem_append, ih, mem_cronAtom hfirst]
      simp only [List.mem_cons, exists_eq_or_imp]

theorem mem_cronField {field : List Char} {minimum maximum : ℕ} {values : List ℕ}
    (h : cronField host field minimum maximum = .ok values) (n : ℕ) :
    n ∈ values ↔ FieldDenotes host field minimum maximum n := by
  obtain ⟨atoms, hatoms, h⟩ := bind_eq_ok h
  obtain rfl := Except.ok.inj h
  exact mem_atoms (ok_of_mapM hatoms) n

/-- The sets of an accepted expression are those that its fields denote. -/
theorem expressionMatches_iff {expression : String} {fields : CronFields}
    (h : parseCron host expression = .ok fields) (dayOfWeek : DateTime → ℕ) (d : DateTime) :
    ExpressionMatches host dayOfWeek expression d ↔
      d.minute ∈ fields.minute ∧ d.hour ∈ fields.hour ∧ d.day ∈ fields.day ∧
        d.month ∈ fields.month ∧ dayOfWeek d ∈ fields.weekday := by
  rw [parseCron] at h
  split at h
  · next minute hour day month weekday hwords =>
      obtain ⟨minutes, hminute, h⟩ := bind_eq_ok h
      obtain ⟨hours, hhour, h⟩ := bind_eq_ok h
      obtain ⟨days, hday, h⟩ := bind_eq_ok h
      obtain ⟨months, hmonth, h⟩ := bind_eq_ok h
      obtain ⟨weekdays, hweekday, h⟩ := bind_eq_ok h
      obtain rfl := Except.ok.inj h
      simp only [mem_cronField hminute, mem_cronField hhour, mem_cronField hday,
        mem_cronField hmonth, mem_cronField hweekday]
      constructor
      · rintro ⟨minute', hour', day', month', weekday', hwords', hall⟩
        rw [hwords] at hwords'
        cases hwords'
        exact hall
      · exact fun hall => ⟨minute, hour, day, month, weekday, hwords, hall⟩
  · cases h

theorem matches_iff {expression : String} {fields : CronFields}
    (h : parseCron host expression = .ok fields) (d : DateTime) :
    fields.Matches d ↔ ExpressionMatches host DateTime.weekday expression d :=
  (expressionMatches_iff h DateTime.weekday d).symm

end

/-! ## Minutes -/

theorem wholeMinute_iff (d : DateTime) : WholeMinute d ↔ d.micros % 60000000 = 0 := by
  obtain ⟨_, _, _, _, _, hsecond, hmicro⟩ := d.valid
  simp only [WholeMinute, DateTime.micros]
  omega

theorem micros_floorMinute (d : DateTime) :
    d.floorMinute.micros = d.micros - d.micros % 60000000 := by
  obtain ⟨_, _, _, _, _, hsecond, hmicro⟩ := d.valid
  have hsame : d.floorMinute.ordinal = d.ordinal := rfl
  simp only [DateTime.micros, hsame]
  simp only [DateTime.floorMinute]
  omega

theorem addMinute_eq_ok {d next : DateTime} (h : addMinute d = .ok next) :
    next.micros = d.micros + 60000000 := by
  rw [addMinute, DateTime.add] at h
  cases hadd : DateTime.ofMicros (60000000 + d.micros) with
  | none =>
      rw [hadd] at h
      cases h
  | some found =>
      rw [hadd, Except.ok.injEq] at h
      rw [← h, DateTime.micros_of_ofMicros hadd, Int.add_comm]

/-- The last minute has no whole minute after it. -/
theorem addMinute_eq_error {d : DateTime} {e : Raised} (h : addMinute d = .error e)
    (other : DateTime) : other.micros < d.micros + 60000000 := by
  by_contra hlater
  have hexists : ∃ e : DateTime, e.micros = d.micros + 60000000 :=
    @DateTime.exists_micros d other _ (by omega) (by omega)
  obtain ⟨next, hnext⟩ := hexists
  rw [addMinute, DateTime.add, Int.add_comm, DateTime.ofMicros_eq_some_iff.mpr hnext] at h
  cases h

/-! ## The search -/

section
variable {fields : CronFields}

/-- What is found comes after so many minutes, and none of those matches. -/
theorem cronSearch_eq_ok {rounds : ℕ} {candidate found : DateTime}
    (h : cronSearch fields rounds candidate = .ok found) :
    ∃ i < rounds, found.micros = candidate.micros + 60000000 * i ∧ fields.Matches found ∧
      ∀ j < i, ∀ d : DateTime, d.micros = candidate.micros + 60000000 * j → ¬ fields.Matches d := by
  induction rounds generalizing candidate with
  | zero => cases h
  | succ rounds ih =>
      rw [cronSearch] at h
      by_cases hmatches : fields.Matches candidate
      · rw [if_pos hmatches, Except.ok.injEq] at h
        subst h
        exact ⟨0, by omega, by omega, hmatches, fun j hj => absurd hj (Nat.not_lt_zero j)⟩
      rw [if_neg hmatches] at h
      cases hnext : addMinute candidate with
      | error e =>
          rw [hnext] at h
          cases h
      | ok next =>
          rw [hnext] at h
          obtain ⟨i, hi, hfound, hholds, hfirst⟩ := ih h
          have hmicros := addMinute_eq_ok hnext
          refine ⟨i + 1, by omega, by omega, hholds, fun j hj d hd => ?_⟩
          cases j with
          | zero =>
              rw [@DateTime.micros_injective d candidate (by omega)]
              exact hmatches
          | succ j => exact hfirst j (by omega) d (by omega)

/-- If the search fails, none of its minutes matches. -/
theorem cronSearch_eq_error {rounds : ℕ} {candidate : DateTime} {e : Raised}
    (h : cronSearch fields rounds candidate = .error e) :
    ∀ i < rounds, ∀ d : DateTime, d.micros = candidate.micros + 60000000 * i →
      ¬ fields.Matches d := by
  induction rounds generalizing candidate with
  | zero => exact fun i hi => absurd hi (Nat.not_lt_zero i)
  | succ rounds ih =>
      rw [cronSearch] at h
      by_cases hmatches : fields.Matches candidate
      · rw [if_pos hmatches] at h
        cases h
      rw [if_neg hmatches] at h
      intro i hi d hd
      cases i with
      | zero =>
          rw [@DateTime.micros_injective d candidate (by omega)]
          exact hmatches
      | succ i =>
          cases hnext : addMinute candidate with
          | error e =>
              have hlast := addMinute_eq_error hnext d
              omega
          | ok next =>
              rw [hnext] at h
              have hmicros := addMinute_eq_ok hnext
              exact ih h i (by omega) d (by omega)

end

/-! ## The next time -/

/-- The first whole minute after a time that matches. -/
structure NextMinute (matching : DateTime → Prop) (after found : DateTime) : Prop where
  whole : WholeMinute found
  later : after.micros < found.micros
  holds : matching found
  first : ∀ d, WholeMinute d → after.micros < d.micros → d.micros < found.micros → ¬ matching d

section
variable {F M : Type} {host : Host F M}

/-- `cron_next` on accepted fields. -/
theorem cronNext_of_fields {expression : String} {fields : CronFields}
    (hparse : parseCron host expression = .ok fields) (after : DateTime) :
    cronNext host expression after = (do
      let candidate ← addMinute after.floorMinute
      cronSearch fields searchMinutes candidate) := by
  rw [cronNext, hparse]
  rfl

/-- A whole minute after a time is one of the minutes that follow the time's own minute. -/
theorem exists_minutes_after {after candidate d : DateTime}
    (hcandidate : addMinute after.floorMinute = .ok candidate) (hwhole : WholeMinute d)
    (hlater : after.micros < d.micros) :
    ∃ i : ℕ, d.micros = candidate.micros + 60000000 * i := by
  have hfirst := addMinute_eq_ok hcandidate
  have hfloor := micros_floorMinute after
  rw [wholeMinute_iff] at hwhole
  refine ⟨((d.micros - candidate.micros) / 60000000).toNat, ?_⟩
  omega

theorem nextMinute_of_cronNext {expression : String} {fields : CronFields}
    (hparse : parseCron host expression = .ok fields) {after found : DateTime}
    (h : cronNext host expression after = .ok found) :
    NextMinute fields.Matches after found := by
  rw [cronNext_of_fields hparse] at h
  obtain ⟨candidate, hcandidate, h⟩ := bind_eq_ok h
  obtain ⟨i, hi, hmicros, hholds, hfirst⟩ := cronSearch_eq_ok h
  have hstart := addMinute_eq_ok hcandidate
  have hfloor := micros_floorMinute after
  refine ⟨?_, by omega, hholds, fun d hwhole hlater hbefore => ?_⟩
  · rw [wholeMinute_iff]
    omega
  · obtain ⟨j, hj⟩ := exists_minutes_after hcandidate hwhole hlater
    exact hfirst j (by omega) d hj

/-- No minute of the search matches if it raises. -/
theorem not_matches_of_cronNext {expression : String} {fields : CronFields}
    (hparse : parseCron host expression = .ok fields) {after : DateTime} {e : Raised}
    (h : cronNext host expression after = .error e) {d : DateTime} (hwhole : WholeMinute d)
    (hlater : after.micros < d.micros)
    (hwithin : d.micros ≤ after.floorMinute.micros + 60000000 * searchMinutes) :
    ¬ fields.Matches d := by
  rw [cronNext_of_fields hparse] at h
  cases hcandidate : addMinute after.floorMinute with
  | error e' =>
      have hlast := addMinute_eq_error hcandidate d
      have hfloor := micros_floorMinute after
      rw [wholeMinute_iff] at hwhole
      omega
  | ok candidate =>
      rw [hcandidate] at h
      obtain ⟨i, hi⟩ := exists_minutes_after hcandidate hwhole hlater
      have hstart := addMinute_eq_ok hcandidate
      exact cronSearch_eq_error h i (by omega) d hi

theorem found_within {expression : String} {fields : CronFields}
    (hparse : parseCron host expression = .ok fields) {after found : DateTime}
    (h : cronNext host expression after = .ok found) :
    found.micros ≤ after.floorMinute.micros + 60000000 * searchMinutes := by
  rw [cronNext_of_fields hparse] at h
  obtain ⟨candidate, hcandidate, h⟩ := bind_eq_ok h
  obtain ⟨i, hi, hmicros, _⟩ := cronSearch_eq_ok h
  have hstart := addMinute_eq_ok hcandidate
  omega

/-- For an accepted expression the next time is the first whole minute after the given time
that the fields denote, Monday being day 0; it raises only if none of the minutes of 366 days
matches. -/
theorem cronNext_successor (expression : String) (after : DateTime)
    (haccepted : ∃ fields, parseCron host expression = .ok fields) :
    (∀ found, cronNext host expression after = .ok found →
      NextMinute (ExpressionMatches host DateTime.weekday expression) after found) ∧
    ∀ e, cronNext host expression after = .error e → ∀ d, WholeMinute d →
      after.micros < d.micros →
        d.micros ≤ after.floorMinute.micros + 60000000 * searchMinutes →
          ¬ ExpressionMatches host DateTime.weekday expression d := by
  obtain ⟨fields, hparse⟩ := haccepted
  have hmatches := matches_iff hparse
  constructor
  · intro found hfound
    obtain ⟨hwhole, hlater, hholds, hfirst⟩ := nextMinute_of_cronNext hparse hfound
    exact ⟨hwhole, hlater, (hmatches found).mp hholds, fun d hd hlt hbefore hm =>
      hfirst d hd hlt hbefore ((hmatches d).mpr hm)⟩
  · intro e herror d hwhole hlater hwithin hm
    exact not_matches_of_cronNext hparse herror hwhole hlater hwithin ((hmatches d).mpr hm)

/-- What crontab would answer, with a numbering of the days of the week: the first minute
that matches, and an exception only if there is none. -/
def IsCrontabSuccessor (host : Host F M) (dayOfWeek : DateTime → ℕ) : Prop :=
  ∀ (expression : String) (after : DateTime),
    (∃ fields, parseCron host expression = .ok fields) →
      (∀ found, cronNext host expression after = .ok found →
        NextMinute (ExpressionMatches host dayOfWeek expression) after found) ∧
      ∀ e, cronNext host expression after = .error e → ∀ d, WholeMinute d →
        after.micros < d.micros → ¬ ExpressionMatches host dayOfWeek expression d

end

/-! Wednesday is day 3 of a crontab, and Thursday is day 3 here.  The year 2026 has no 29
February, and the next one is further away than the search goes. -/

theorem wednesdays_accepted :
    parseCron secondsHost "* * * * 3" = .ok {
      minute := List.range 60
      hour := List.range 24
      day := steppedRange 1 31 1
      month := steppedRange 1 12 1
      weekday := [3] } := by
  decide +kernel

theorem leapDays_accepted :
    parseCron secondsHost "* * 29 2 *" = .ok {
      minute := List.range 60
      hour := List.range 24
      day := [29]
      month := [2]
      weekday := List.range 7 } := by
  decide +kernel

def wednesday : DateTime := { newYear with day := 7, valid := by decide }

def leapDay : DateTime := { newYear with year := 2028, month := 2, day := 29, valid := by decide }

theorem cronNext_successor_everyWednesday :
    (∀ found, cronNext secondsHost "* * * * 3" newYear = .ok found →
      NextMinute (ExpressionMatches secondsHost DateTime.weekday "* * * * 3") newYear found) ∧
    ∀ e, cronNext secondsHost "* * * * 3" newYear = .error e → ∀ d, WholeMinute d →
      newYear.micros < d.micros →
        d.micros ≤ newYear.floorMinute.micros + 60000000 * searchMinutes →
          ¬ ExpressionMatches secondsHost DateTime.weekday "* * * * 3" d :=
  cronNext_successor "* * * * 3" newYear ⟨_, wednesdays_accepted⟩

/-- A year after the new year, no 29 February has come. -/
theorem no_leapDay {d : DateTime} (hlater : newYear.micros < d.micros)
    (hwithin : d.micros ≤ newYear.floorMinute.micros + 60000000 * searchMinutes) :
    ¬ (d.month = 2 ∧ d.day = 29) := by
  rintro ⟨hmonth, hday⟩
  obtain ⟨hyear, hmonths, hdays, hclock⟩ := d.valid
  have hordinal : newYear.ordinal = 739617 := rfl
  have hstart : newYear.micros = 86400000000 * 739617 := rfl
  have hfloor : newYear.floorMinute.micros = newYear.micros := rfl
  have hminutes : searchMinutes = 527040 := rfl
  have hbefore : 739617 ≤ d.ordinal ∧ d.ordinal < 740346 := by
    simp only [DateTime.micros] at hlater hwithin hstart hfloor
    omega
  have hfirst : 2026 ≤ d.year := by
    by_contra hearly
    have hlt : d.ordinal < DateTime.ordinalOf 2026 1 1 :=
      DateTime.ordinalOf_lt (by omega) hyear.1 hmonths hdays (by omega)
    have hjanuary : DateTime.ordinalOf 2026 1 1 = 739617 := hordinal
    omega
  have hlast : d.year ≤ 2027 := by
    by_contra hlate
    have hlt : DateTime.ordinalOf 2027 12 31 < d.ordinal :=
      DateTime.ordinalOf_lt (by omega) (by omega) ⟨by omega, by omega⟩ ⟨by omega, by decide⟩
        hdays.1
    have hdecember : DateTime.ordinalOf 2027 12 31 = 740346 := rfl
    omega
  have hshort : daysInMonth d.year 2 = 28 := by
    obtain h | h : d.year = 2026 ∨ d.year = 2027 := by omega
    · rw [h]
      decide
    · rw [h]
      decide
  rw [hmonth, hshort] at hdays
  omega

/-- With neither numbering of the days is it what crontab says: Sunday is not day 0, and
with Monday as day 0 the search ends before the next leap day. -/
theorem cronNext_not_crontab :
    ¬ IsCrontabSuccessor secondsHost crontabWeekday ∧
      ¬ IsCrontabSuccessor secondsHost DateTime.weekday := by
  constructor
  · intro hclaim
    have hsuccessor := hclaim "* * * * 3" newYear ⟨_, wednesdays_accepted⟩
    have hmatches := expressionMatches_iff wednesdays_accepted
    cases hnext : cronNext secondsHost "* * * * 3" newYear with
    | ok found =>
        have hcode := (nextMinute_of_cronNext wednesdays_accepted hnext).holds
        have hcrontab := (hmatches crontabWeekday found).mp (hsuccessor.1 found hnext).holds
        have hthree := List.mem_singleton.mp hcode.2.2.2.2
        have hfour := List.mem_singleton.mp hcrontab.2.2.2.2
        rw [crontabWeekday, hthree] at hfour
        cases hfour
    | error e =>
        exact hsuccessor.2 e hnext wednesday ⟨rfl, rfl⟩ (by decide)
          ((hmatches crontabWeekday wednesday).mpr (by decide +kernel))
  · intro hclaim
    have hsuccessor := hclaim "* * 29 2 *" newYear ⟨_, leapDays_accepted⟩
    have hmatches := expressionMatches_iff leapDays_accepted
    cases hnext : cronNext secondsHost "* * 29 2 *" newYear with
    | ok found =>
        have hcode := nextMinute_of_cronNext leapDays_accepted hnext
        exact no_leapDay hcode.later (found_within leapDays_accepted hnext)
          ⟨List.mem_singleton.mp hcode.holds.2.2.2.1, List.mem_singleton.mp hcode.holds.2.2.1⟩
    | error e =>
        exact hsuccessor.2 e hnext leapDay ⟨rfl, rfl⟩ (by decide)
          ((hmatches DateTime.weekday leapDay).mpr (by decide +kernel))

end Automation
end CodeCub
