import CodeCub.Python.DateTime

/-!
# The calendar and its days

The day number of a date and the date of a day number are inverse to each other, so a
`datetime` is the same as its number of microseconds, and every number between the first and
the last one has a `datetime`.
-/

namespace Python

/-! ## The months of a year -/

/-- The days before a month of a leap year or another one. -/
def monthStart (leap : Bool) (month : Nat) : Nat :=
  [0, 31, 59, 90, 120, 151, 181, 212, 243, 273, 304, 334].getD (month - 1) 0 +
    if 2 < month ∧ leap then 1 else 0

def monthLength (leap : Bool) (month : Nat) : Nat :=
  if month = 2 then if leap then 29 else 28
  else if month ∈ [4, 6, 9, 11] then 30 else 31

/-- The month and the day of a day of the year, the first day being 0. -/
def monthDay (leap : Bool) (n : Nat) : Nat × Nat :=
  let month := (n + 50) / 32
  if monthStart leap month ≤ n then (month, n - monthStart leap month + 1)
  else (month - 1, n - monthStart leap (month - 1) + 1)

theorem daysBeforeMonth_eq (year month : Nat) :
    DateTime.daysBeforeMonth year month = monthStart (isLeap year) month := rfl

theorem daysInMonth_eq (year month : Nat) :
    daysInMonth year month = monthLength (isLeap year) month := rfl

theorem monthDay_valid : ∀ (leap : Bool), ∀ n < 365 + leap.toNat,
    1 ≤ (monthDay leap n).1 ∧ (monthDay leap n).1 ≤ 12 ∧ 1 ≤ (monthDay leap n).2 ∧
      (monthDay leap n).2 ≤ monthLength leap (monthDay leap n).1 ∧
      monthStart leap (monthDay leap n).1 + (monthDay leap n).2 = n + 1 := by
  decide +kernel

theorem monthStart_lt : ∀ (leap : Bool), ∀ month < 13, ∀ day < 32,
    1 ≤ month ∧ 1 ≤ day ∧ day ≤ monthLength leap month →
      monthStart leap month + day - 1 < 365 + leap.toNat := by
  decide +kernel

theorem monthDay_monthStart : ∀ (leap : Bool), ∀ month < 13, ∀ day < 32,
    1 ≤ month ∧ 1 ≤ day ∧ day ≤ monthLength leap month →
      monthDay leap (monthStart leap month + day - 1) = (month, day) := by
  decide +kernel

example : monthDay true 59 = (2, 29) := by decide +kernel

theorem monthLength_le (leap : Bool) (month : Nat) : monthLength leap month < 32 := by
  rw [monthLength]
  split
  · cases leap <;> decide
  · split <;> decide

/-! ## The years of a cycle -/

theorem daysBeforeYear_cycle {a b c e : Nat} (hb : b ≤ 3) (hc : c ≤ 24) (he : e ≤ 3) :
    DateTime.daysBeforeYear (400 * a + 100 * b + 4 * c + e + 1) =
      146097 * a + 36524 * b + 1461 * c + 365 * e := by
  simp only [DateTime.daysBeforeYear]
  omega

theorem isLeap_cycle {a b c e : Nat} (hb : b ≤ 3) (hc : c ≤ 24) (he : e ≤ 3) :
    isLeap (400 * a + 100 * b + 4 * c + e + 1) = decide (e = 3 ∧ (c ≠ 24 ∨ b = 3)) := by
  rw [Bool.eq_iff_iff]
  simp only [isLeap, Bool.and_eq_true, Bool.or_eq_true, decide_eq_true_eq]
  omega

/-- A year as its place in the cycles of 400, 100 and 4 years. -/
theorem exists_cycle {year : Nat} (hyear : 1 ≤ year) :
    ∃ a b c e, b ≤ 3 ∧ c ≤ 24 ∧ e ≤ 3 ∧ year = 400 * a + 100 * b + 4 * c + e + 1 :=
  ⟨(year - 1) / 400, (year - 1) % 400 / 100, (year - 1) % 100 / 4, (year - 1) % 4,
    by omega, by omega, by omega, by omega⟩

/-- The date of the day with a number in a year. -/
theorem ofOrdinal_cycle {a b c e n : Nat} (hb : b ≤ 3) (hc : c ≤ 24) (he : e ≤ 3)
    (hn : n < 365 + (isLeap (400 * a + 100 * b + 4 * c + e + 1)).toNat) :
    DateTime.ofOrdinal (146097 * a + 36524 * b + 1461 * c + 365 * e + n + 1) =
      (400 * a + 100 * b + 4 * c + e + 1,
        monthDay (isLeap (400 * a + 100 * b + 4 * c + e + 1)) n) := by
  have hleap := isLeap_cycle (a := a) hb hc he
  by_cases hlast : n = 365
  · -- the last day of a leap year
    subst hlast
    have hyear : isLeap (400 * a + 100 * b + 4 * c + e + 1) = true := by
      cases hl : isLeap (400 * a + 100 * b + 4 * c + e + 1) with
      | true => rfl
      | false =>
          rw [hl] at hn
          exact absurd hn (by decide)
    rw [hyear] at hleap ⊢
    have hplace : e = 3 ∧ (c ≠ 24 ∨ b = 3) := of_decide_eq_true hleap.symm
    have hlastDay : monthDay true 365 = (12, 31) := by decide
    rw [hlastDay]
    simp only [DateTime.ofOrdinal, Nat.add_sub_cancel]
    by_cases hcentury : c = 24
    · have h400 : (146097 * a + 36524 * b + 1461 * c + 365 * e + 365) / 146097 = a := by omega
      have h100 : (146097 * a + 36524 * b + 1461 * c + 365 * e + 365) % 146097 / 36524 = 4 := by
        omega
      rw [if_pos (Or.inr h100), Prod.mk.injEq]
      exact ⟨by omega, rfl⟩
    · have hr400 : (146097 * a + 36524 * b + 1461 * c + 365 * e + 365) % 146097 =
          36524 * b + 1461 * c + 365 * e + 365 := by omega
      have hr100 : (36524 * b + 1461 * c + 365 * e + 365) % 36524 = 1461 * c + 1460 := by omega
      have hr4 : (1461 * c + 1460) % 1461 = 1460 := by omega
      have h1 : (146097 * a + 36524 * b + 1461 * c + 365 * e + 365) % 146097 % 36524 % 1461 / 365
          = 4 := by rw [hr400, hr100, hr4]
      have h4 : (146097 * a + 36524 * b + 1461 * c + 365 * e + 365) % 146097 % 36524 / 1461 =
          c := by
        rw [hr400, hr100]
        omega
      rw [if_pos (Or.inl h1), Prod.mk.injEq]
      exact ⟨by omega, rfl⟩
  · have hlt : n < 365 := by
      have hle : (isLeap (400 * a + 100 * b + 4 * c + e + 1)).toNat ≤ 1 := Bool.toNat_le _
      omega
    have h400 : (146097 * a + 36524 * b + 1461 * c + 365 * e + n) / 146097 = a := by omega
    have hr400 : (146097 * a + 36524 * b + 1461 * c + 365 * e + n) % 146097 =
        36524 * b + 1461 * c + 365 * e + n := by omega
    have h100 : (36524 * b + 1461 * c + 365 * e + n) / 36524 = b := by omega
    have hr100 : (36524 * b + 1461 * c + 365 * e + n) % 36524 = 1461 * c + 365 * e + n := by omega
    have h4 : (1461 * c + 365 * e + n) / 1461 = c := by omega
    have hr4 : (1461 * c + 365 * e + n) % 1461 = 365 * e + n := by omega
    have h1 : (365 * e + n) / 365 = e := by omega
    have hr1 : (365 * e + n) % 365 = n := by omega
    have hyear : a * 400 + 1 + b * 100 + c * 4 + e = 400 * a + 100 * b + 4 * c + e + 1 := by omega
    simp only [DateTime.ofOrdinal, Nat.add_sub_cancel, h400, hr400, h100, hr100, h4, hr4, h1, hr1,
      hyear, daysBeforeMonth_eq]
    rw [if_neg (by omega), monthDay]
    split <;> rfl

/-- Every number from 1 on is that of a day in a year. -/
theorem exists_dayPlace {n : Nat} (hn : 1 ≤ n) :
    ∃ a b c e d, b ≤ 3 ∧ c ≤ 24 ∧ e ≤ 3 ∧
      d < 365 + (isLeap (400 * a + 100 * b + 4 * c + e + 1)).toNat ∧
      n = 146097 * a + 36524 * b + 1461 * c + 365 * e + d + 1 := by
  have hlong : ∀ a b c : Nat, b ≤ 3 → c ≤ 24 → (c ≠ 24 ∨ b = 3) →
      (isLeap (400 * a + 100 * b + 4 * c + 3 + 1)).toNat = 1 := by
    intro a b c hb hc hplace
    rw [isLeap_cycle hb hc (Nat.le_refl 3), decide_eq_true ⟨rfl, hplace⟩]
    rfl
  obtain ⟨r, hr⟩ : ∃ r, r = (n - 1) % 146097 := ⟨_, rfl⟩
  by_cases hcentury : r / 36524 = 4
  · exact ⟨(n - 1) / 146097, 3, 24, 3, 365, by omega, by omega, by omega,
      by
        have h := hlong ((n - 1) / 146097) 3 24 (by omega) (by omega) (Or.inr rfl)
        omega,
      by omega⟩
  obtain ⟨s, hs⟩ : ∃ s, s = r % 36524 := ⟨_, rfl⟩
  obtain ⟨t, ht⟩ : ∃ t, t = s % 1461 := ⟨_, rfl⟩
  by_cases hleap : t / 365 = 4
  · exact ⟨(n - 1) / 146097, r / 36524, s / 1461, 3, 365, by omega, by omega, by omega,
      by
        have h := hlong ((n - 1) / 146097) (r / 36524) (s / 1461) (by omega) (by omega)
          (Or.inl (by omega))
        omega,
      by omega⟩
  · exact ⟨(n - 1) / 146097, r / 36524, s / 1461, t / 365, t % 365, by omega, by omega, by omega,
      by omega, by omega⟩

/-! ## Dates and numbers -/

namespace DateTime

theorem ofOrdinal_ordinalOf {year month day : Nat} (hyear : 1 ≤ year)
    (hmonth : 1 ≤ month ∧ month ≤ 12) (hday : 1 ≤ day ∧ day ≤ daysInMonth year month) :
    ofOrdinal (ordinalOf year month day) = (year, month, day) := by
  obtain ⟨a, b, c, e, hb, hc, he, rfl⟩ := exists_cycle hyear
  rw [daysInMonth_eq] at hday
  have hshort := monthLength_le (isLeap (400 * a + 100 * b + 4 * c + e + 1)) month
  have hlt := monthStart_lt (isLeap (400 * a + 100 * b + 4 * c + e + 1)) month (by omega) day
    (by omega) ⟨hmonth.1, hday⟩
  have hordinal : ordinalOf (400 * a + 100 * b + 4 * c + e + 1) month day =
      146097 * a + 36524 * b + 1461 * c + 365 * e +
        (monthStart (isLeap (400 * a + 100 * b + 4 * c + e + 1)) month + day - 1) + 1 := by
    rw [ordinalOf, daysBeforeYear_cycle hb hc he, daysBeforeMonth_eq]
    omega
  rw [hordinal, ofOrdinal_cycle hb hc he hlt, monthDay_monthStart _ month (by omega) day
    (by omega) ⟨hmonth.1, hday⟩]

/-- Every number from 1 on is the day number of a date. -/
theorem exists_ordinalOf {n : Nat} (hn : 1 ≤ n) :
    ∃ year month day, 1 ≤ year ∧ (1 ≤ month ∧ month ≤ 12) ∧
      (1 ≤ day ∧ day ≤ daysInMonth year month) ∧ ordinalOf year month day = n := by
  obtain ⟨a, b, c, e, d, hb, hc, he, hd, rfl⟩ := exists_dayPlace hn
  have hvalid := monthDay_valid (isLeap (400 * a + 100 * b + 4 * c + e + 1)) d hd
  refine ⟨400 * a + 100 * b + 4 * c + e + 1, _, _, by omega, ⟨hvalid.1, hvalid.2.1⟩,
    ⟨hvalid.2.2.1, hvalid.2.2.2.1⟩, ?_⟩
  rw [ordinalOf, daysBeforeYear_cycle hb hc he, daysBeforeMonth_eq]
  omega

/-- A quotient grows at the multiples. -/
theorem succ_div_eq (n k : Nat) :
    (n + 1) / k = n / k + if (n + 1) % k = 0 then 1 else 0 := by
  rw [Nat.succ_div]
  simp only [Nat.dvd_iff_mod_eq_zero]

theorem daysBeforeYear_succ {year : Nat} (hyear : 1 ≤ year) :
    daysBeforeYear (year + 1) = daysBeforeYear year + (365 + (isLeap year).toNat) := by
  obtain ⟨n, rfl⟩ : ∃ n, year = n + 1 := ⟨year - 1, by omega⟩
  have hle : n / 100 ≤ n / 4 := Nat.div_le_div_left (by omega) (by omega)
  simp only [daysBeforeYear, Nat.add_sub_cancel, succ_div_eq n 4, succ_div_eq n 100,
    succ_div_eq n 400]
  by_cases h4 : (n + 1) % 4 = 0
  · by_cases h100 : (n + 1) % 100 = 0
    · by_cases h400 : (n + 1) % 400 = 0
      · have hleap : isLeap (n + 1) = true := by simp [isLeap, h4, h400]
        rw [hleap, if_pos h4, if_pos h100, if_pos h400, Bool.toNat_true]
        omega
      · have hleap : isLeap (n + 1) = false := by simp [isLeap, h100, h400]
        rw [hleap, if_pos h4, if_pos h100, if_neg h400, Bool.toNat_false]
        omega
    · have h400 : (n + 1) % 400 ≠ 0 := by omega
      have hleap : isLeap (n + 1) = true := by simp [isLeap, h4, h100]
      rw [hleap, if_pos h4, if_neg h100, if_neg h400, Bool.toNat_true]
      omega
  · have h100 : (n + 1) % 100 ≠ 0 := by omega
    have h400 : (n + 1) % 400 ≠ 0 := by omega
    have hleap : isLeap (n + 1) = false := by simp [isLeap, h4]
    rw [hleap, if_neg h4, if_neg h100, if_neg h400, Bool.toNat_false]
    omega

theorem daysBeforeYear_mono : Monotone daysBeforeYear := by
  refine monotone_nat_of_le_succ fun year => ?_
  rcases Nat.eq_zero_or_pos year with rfl | hyear
  · simp [daysBeforeYear]
  · rw [daysBeforeYear_succ hyear]
    exact Nat.le_add_right _ _

/-- The days of a year come before those of a later one. -/
theorem ordinalOf_lt {year month day year' month' day' : Nat} (h : year < year')
    (hyear : 1 ≤ year) (hmonth : 1 ≤ month ∧ month ≤ 12)
    (hday : 1 ≤ day ∧ day ≤ daysInMonth year month) (hday' : 1 ≤ day') :
    ordinalOf year month day < ordinalOf year' month' day' := by
  rw [daysInMonth_eq] at hday
  have hshort := monthLength_le (isLeap year) month
  have hlt := monthStart_lt (isLeap year) month (by omega) day (by omega) ⟨hmonth.1, hday⟩
  have hnext := daysBeforeYear_succ hyear
  have hmono : daysBeforeYear (year + 1) ≤ daysBeforeYear year' := daysBeforeYear_mono h
  simp only [ordinalOf, daysBeforeMonth_eq]
  omega

/-! ## Microseconds -/

theorem ofOrdinal_ordinal (d : DateTime) : ofOrdinal d.ordinal = (d.year, d.month, d.day) :=
  ofOrdinal_ordinalOf d.valid.1.1 d.valid.2.1 d.valid.2.2.1

theorem ordinal_pos (d : DateTime) : 1 ≤ d.ordinal := by
  have hday := d.valid.2.2.1.1
  rw [ordinal, ordinalOf]
  omega

/-- A `datetime` from its number. -/
theorem ofMicros_micros (d : DateTime) : ofMicros d.micros = some d := by
  obtain ⟨hyear, hmonth, hday, hhour, hminute, hsecond, hmicro⟩ := d.valid
  have hpos := d.ordinal_pos
  have hn : d.micros.toNat = 1000000 * (60 * (60 * (24 * d.ordinal + d.hour) + d.minute) +
      d.second) + d.microsecond := rfl
  have hneg : ¬ d.micros < 0 := by
    rw [micros]
    omega
  have hseconds : d.micros.toNat / 1000000 =
      60 * (60 * (24 * d.ordinal + d.hour) + d.minute) + d.second := by omega
  have hminutes : (60 * (60 * (24 * d.ordinal + d.hour) + d.minute) + d.second) / 60 =
      60 * (24 * d.ordinal + d.hour) + d.minute := by omega
  have hhours : (60 * (24 * d.ordinal + d.hour) + d.minute) / 60 = 24 * d.ordinal + d.hour := by
    omega
  have hdays : (24 * d.ordinal + d.hour) / 24 = d.ordinal := by omega
  have hr : d.micros.toNat % 1000000 = d.microsecond := by omega
  have hr1 : (60 * (60 * (24 * d.ordinal + d.hour) + d.minute) + d.second) % 60 = d.second := by
    omega
  have hr2 : (60 * (24 * d.ordinal + d.hour) + d.minute) % 60 = d.minute := by omega
  have hr3 : (24 * d.ordinal + d.hour) % 24 = d.hour := by omega
  rw [ofMicros, if_neg hneg]
  simp only [hseconds, hminutes, hhours, hdays, hr, hr1, hr2, hr3, ofOrdinal_ordinal]
  rw [if_neg (by omega), make_fields]

theorem micros_injective {d d' : DateTime} (h : d.micros = d'.micros) : d = d' := by
  have hd := ofMicros_micros d
  rw [h, ofMicros_micros d', Option.some.injEq] at hd
  exact hd.symm

/-- The date and the clock of a number. -/
theorem ofMicros_parts {m : Int} (hm : 86400000000 ≤ m) :
    ∃ year month day : Nat, 1 ≤ year ∧ (1 ≤ month ∧ month ≤ 12) ∧
      (1 ≤ day ∧ day ≤ daysInMonth year month) ∧
      ordinalOf year month day = m.toNat / 1000000 / 60 / 60 / 24 ∧
      ofMicros m = make year month day (m.toNat / 1000000 / 60 / 60 % 24)
        (m.toNat / 1000000 / 60 % 60) (m.toNat / 1000000 % 60) (m.toNat % 1000000) := by
  obtain ⟨year, month, day, hyear, hmonth, hday, hordinal⟩ :=
    exists_ordinalOf (n := m.toNat / 1000000 / 60 / 60 / 24) (by omega)
  refine ⟨year, month, day, hyear, hmonth, hday, hordinal, ?_⟩
  have hdate := ofOrdinal_ordinalOf hyear hmonth hday
  rw [hordinal] at hdate
  rw [ofMicros, if_neg (by omega)]
  simp only [hdate]
  rw [if_neg (by omega)]

/-- The number of what is made from a number. -/
theorem micros_of_ofMicros {m : Int} {d : DateTime} (h : ofMicros m = some d) : d.micros = m := by
  have hm : 86400000000 ≤ m := by
    by_contra hsmall
    rw [ofMicros] at h
    by_cases hneg : m < 0
    · rw [if_pos hneg] at h
      cases h
    · have hzero : m.toNat / 1000000 / 60 / 60 / 24 = 0 := by omega
      rw [if_neg hneg] at h
      simp only [hzero, if_true] at h
      cases h
  obtain ⟨year, month, day, _, _, _, hordinal, hmake⟩ := ofMicros_parts hm
  rw [hmake, make] at h
  by_cases hvalid : ValidFields year month day (m.toNat / 1000000 / 60 / 60 % 24)
      (m.toNat / 1000000 / 60 % 60) (m.toNat / 1000000 % 60) (m.toNat % 1000000)
  · rw [dif_pos hvalid] at h
    obtain rfl := Option.some.inj h
    simp only [micros, ordinal, hordinal]
    omega
  · rw [dif_neg hvalid] at h
    cases h

theorem ofMicros_eq_some_iff {m : Int} {d : DateTime} : ofMicros m = some d ↔ d.micros = m := by
  constructor
  · exact micros_of_ofMicros
  · rintro rfl
    exact ofMicros_micros d

/-- There is a `datetime` for every number between two of them. -/
theorem exists_micros {d d' : DateTime} {m : Int} (hd : d.micros ≤ m) (hd' : m ≤ d'.micros) :
    ∃ e : DateTime, e.micros = m := by
  have hpos := d.ordinal_pos
  have hm : 86400000000 ≤ m := by
    simp only [micros] at hd
    omega
  obtain ⟨year, month, day, hyear, hmonth, hday, hordinal, hmake⟩ := ofMicros_parts hm
  have hlast : year ≤ 9999 := by
    refine Nat.le_trans (Nat.le_of_not_lt fun hlate => ?_) d'.valid.1.2
    have hlt : d'.ordinal < ordinalOf year month day :=
      ordinalOf_lt hlate d'.valid.1.1 d'.valid.2.1 d'.valid.2.2.1 hday.1
    simp only [micros] at hd'
    have hclock := d'.valid.2.2.2
    omega
  have hvalid : ValidFields year month day (m.toNat / 1000000 / 60 / 60 % 24)
      (m.toNat / 1000000 / 60 % 60) (m.toNat / 1000000 % 60) (m.toNat % 1000000) :=
    ⟨⟨hyear, hlast⟩, hmonth, hday, by omega, by omega, by omega, by omega⟩
  rw [make, dif_pos hvalid] at hmake
  exact ⟨_, micros_of_ofMicros hmake⟩

end DateTime

end Python
