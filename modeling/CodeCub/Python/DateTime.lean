import CodeCub.Python.Str
import Mathlib.Tactic.IntervalCases

/-!
# Dates and times in UTC

The aware `datetime` values of one time zone: fields that are always in range, addition
of a number of microseconds that fails outside the years 1 to 9999, and the ISO 8601
texts that `isoformat` writes and `fromisoformat` reads.  Reading a text that was written
gives the same value back.
-/

namespace Python

def isLeap (year : Nat) : Bool := year % 4 = 0 && (year % 100 ≠ 0 || year % 400 = 0)

def daysInMonth (year month : Nat) : Nat :=
  if month = 2 then if isLeap year then 29 else 28
  else if month ∈ [4, 6, 9, 11] then 30 else 31

/-- The ranges that the constructor of `datetime` checks. -/
def ValidFields (year month day hour minute second microsecond : Nat) : Prop :=
  (1 ≤ year ∧ year ≤ 9999) ∧ (1 ≤ month ∧ month ≤ 12) ∧
    (1 ≤ day ∧ day ≤ daysInMonth year month) ∧ hour < 24 ∧ minute < 60 ∧ second < 60 ∧
    microsecond < 1000000

instance (year month day hour minute second microsecond : Nat) :
    Decidable (ValidFields year month day hour minute second microsecond) :=
  inferInstanceAs (Decidable (_ ∧ _))

structure DateTime where
  year : Nat
  month : Nat
  day : Nat
  hour : Nat
  minute : Nat
  second : Nat
  microsecond : Nat
  valid : ValidFields year month day hour minute second microsecond
  deriving DecidableEq

namespace DateTime

/-- The constructor, with `none` for its `ValueError`. -/
def make (year month day hour minute second microsecond : Nat) : Option DateTime :=
  if h : ValidFields year month day hour minute second microsecond then
    some { year, month, day, hour, minute, second, microsecond, valid := h }
  else none

/-! ## The calendar -/

def daysBeforeYear (year : Nat) : Nat :=
  let y := year - 1
  y * 365 + y / 4 - y / 100 + y / 400

def daysBeforeMonth (year month : Nat) : Nat :=
  [0, 31, 59, 90, 120, 151, 181, 212, 243, 273, 304, 334].getD (month - 1) 0 +
    if 2 < month ∧ isLeap year then 1 else 0

/-- `_ymd2ord`: 1 is 1 January of the year 1. -/
def ordinalOf (year month day : Nat) : Nat :=
  daysBeforeYear year + daysBeforeMonth year month + day

/-- `_ord2ymd`. -/
def ofOrdinal (ordinal : Nat) : Nat × Nat × Nat :=
  let n := ordinal - 1
  let n400 := n / 146097
  let n := n % 146097
  let n100 := n / 36524
  let n := n % 36524
  let n4 := n / 1461
  let n := n % 1461
  let n1 := n / 365
  let n := n % 365
  let year := n400 * 400 + 1 + n100 * 100 + n4 * 4 + n1
  if n1 = 4 ∨ n100 = 4 then (year - 1, 12, 31)
  else
    let month := (n + 50) / 32
    if daysBeforeMonth year month ≤ n then (year, month, n - daysBeforeMonth year month + 1)
    else (year, month - 1, n - daysBeforeMonth year (month - 1) + 1)

def ordinal (d : DateTime) : Nat := ordinalOf d.year d.month d.day

/-- Monday is 0. -/
def weekday (d : DateTime) : Nat := (d.ordinal + 6) % 7

/-- Microseconds since the beginning of the day with ordinal 0. -/
def micros (d : DateTime) : Int :=
  (1000000 * (60 * (60 * (24 * d.ordinal + d.hour) + d.minute) + d.second) + d.microsecond : Nat)

/-- The value at a number of microseconds, with `none` for `OverflowError`. -/
def ofMicros (micros : Int) : Option DateTime :=
  if micros < 0 then none
  else
    let n := micros.toNat
    let seconds := n / 1000000
    let minutes := seconds / 60
    let hours := minutes / 60
    let (year, month, day) := ofOrdinal (hours / 24)
    if hours / 24 = 0 then none
    else make year month day (hours % 24) (minutes % 60) (seconds % 60) (n % 1000000)

/-- `d + timedelta(microseconds=delta)`.  With the literal first, the sum of an unknown
time does not unfold. -/
def add (d : DateTime) (delta : Int) : Option DateTime := ofMicros (delta + d.micros)

/-- `d.replace(second=0, microsecond=0)`. -/
def floorMinute (d : DateTime) : DateTime :=
  { d with
    second := 0
    microsecond := 0
    valid := ⟨d.valid.1, d.valid.2.1, d.valid.2.2.1, d.valid.2.2.2.1, d.valid.2.2.2.2.1,
      by decide, by decide⟩ }

instance : LE DateTime := ⟨fun a b => a.micros ≤ b.micros⟩

instance (a b : DateTime) : Decidable (a ≤ b) := inferInstanceAs (Decidable (a.micros ≤ b.micros))

theorem le_refl (d : DateTime) : d ≤ d := Int.le_refl d.micros

/-! ## Texts -/

def digit (n : Nat) : Char := Char.ofNat (48 + n % 10)

def isDigit (c : Char) : Bool := 48 ≤ c.toNat && c.toNat ≤ 57

def pad2 (n : Nat) : List Char := [digit (n / 10), digit n]

def pad4 (n : Nat) : List Char := [digit (n / 1000), digit (n / 100), digit (n / 10), digit n]

def pad6 (n : Nat) : List Char :=
  [digit (n / 100000), digit (n / 10000), digit (n / 1000), digit (n / 100), digit (n / 10), digit n]

/-- The text of a value in UTC; the fraction is left out when it is zero. -/
def isoChars (d : DateTime) : List Char :=
  pad4 d.year ++ '-' :: pad2 d.month ++ '-' :: pad2 d.day ++ 'T' ::
    pad2 d.hour ++ ':' :: pad2 d.minute ++ ':' :: pad2 d.second ++
      ((if d.microsecond = 0 then [] else '.' :: pad6 d.microsecond) ++
        ['+', '0', '0', ':', '0', '0'])

def isoformat (d : DateTime) : String := String.ofList d.isoChars

/-- Exactly `n` ASCII digits at the beginning of a text. -/
def number (n : Nat) (l : List Char) : Option Nat :=
  let digits := l.take n
  if digits.length = n ∧ digits.all isDigit then
    some (digits.foldl (fun value c => value * 10 + (c.toNat - 48)) 0)
  else none

/-- `_find_isoformat_datetime_separator`. -/
def findSeparator (l : List Char) : Option Nat :=
  if l.length = 7 then some 7
  else if l[4]? = some '-' then
    if l[5]? = some 'W' then
      if l[8]? = some '-' then
        if l.length = 9 then none
        else if l[10]?.any isDigit then some 8 else some 10
      else some 8
    else some 10
  else if l[4]? = some 'W' then
    let index := 7 + ((l.drop 7).takeWhile isDigit).length
    if index < 9 then some index else if index % 2 = 0 then some 7 else some 8
  else some 8

/-- `_isoweek_to_gregorian`. -/
def ofIsoWeek (year week day : Nat) : Option (Nat × Nat × Nat) :=
  let first := ordinalOf year 1 1
  let longYear := first % 7 = 4 ∨ (first % 7 = 3 ∧ isLeap year)
  if ¬(1 ≤ year ∧ year ≤ 9999) ∨ ¬((0 < week ∧ week < 53) ∨ (week = 53 ∧ longYear)) ∨
      ¬(0 < day ∧ day < 8) then none
  else
    let firstWeekday := (first + 6) % 7
    let week1Monday := if 3 < firstWeekday then first + 7 - firstWeekday else first - firstWeekday
    some (ofOrdinal (week1Monday + (week - 1) * 7 + (day - 1)))

/-- `_parse_isoformat_date`. -/
def parseDate (l : List Char) : Option (Nat × Nat × Nat) := do
  let year ← number 4 l
  let hasSep : Bool := l[4]? = some '-'
  let rest := l.drop (4 + hasSep.toNat)
  if rest.head? = some 'W' then
    let week ← number 2 (rest.drop 1)
    let rest := rest.drop 3
    if rest = [] then ofIsoWeek year week 1
    else if (rest.head? = some '-' : Bool) ≠ hasSep then none
    else ofIsoWeek year week (← number 1 (rest.drop hasSep.toNat))
  else
    let month ← number 2 rest
    let rest := rest.drop 2
    if (rest.head? = some '-' : Bool) ≠ hasSep then none
    else some (year, month, ← number 2 (rest.drop hasSep.toNat))

/-- The fraction of a second after its mark, cut to microseconds. -/
def parseFraction (l : List Char) : Option Nat :=
  let used := min 6 l.length
  if used = 0 ∨ ¬(l.drop used).all isDigit then none
  else (number used l).map (· * 10 ^ (6 - used))

/-- `_parse_hh_mm_ss_ff`. -/
def parseClock (l : List Char) : Option (Nat × Nat × Nat × Nat) := do
  let hour ← number 2 l
  match l.drop 2 with
  | [] => some (hour, 0, 0, 0)
  | mark :: rest =>
      let hasSep : Bool := mark = ':'
      let rest := if hasSep then rest else mark :: rest
      let minute ← number 2 rest
      match rest.drop 2 with
      | [] => some (hour, minute, 0, 0)
      | mark :: rest =>
          if hasSep ∧ mark ≠ ':' then none
          else
            let rest := if hasSep then rest else mark :: rest
            let second ← number 2 rest
            match rest.drop 2 with
            | [] => some (hour, minute, second, 0)
            | mark :: rest =>
                if mark = '.' ∨ mark = ',' then
                  some (hour, minute, second, ← parseFraction rest)
                else none

/-- The offset from UTC in microseconds, after its sign; it is less than a day. -/
def parseOffset (negative : Bool) (l : List Char) : Option Int := do
  let (hour, minute, second, micro) ← parseClock l
  let offset := ((hour * 60 + minute) * 60 + second) * 1000000 + micro
  if offset < 86400000000 then some (if negative then -(offset : Int) else offset) else none

def isZone (c : Char) : Bool := c = '+' || c = '-' || c = 'Z'

/-- `_parse_isoformat_time`: the clock, and the offset when there is one. -/
def parseTime (l : List Char) : Option ((Nat × Nat × Nat × Nat) × Option Int) := do
  let clock ← parseClock (l.takeWhile fun c => !isZone c)
  match l.dropWhile fun c => !isZone c with
  | [] => some (clock, none)
  | sign :: rest =>
      if sign = 'Z' then if rest = [] then some (clock, some 0) else none
      else some (clock, some (← parseOffset (sign = '-') rest))

/-- `datetime.fromisoformat`: the local value and its offset. -/
def fromisoformat (l : List Char) : Option (DateTime × Option Int) := do
  if l.length < 7 then none
  else
    let separator ← findSeparator l
    let (year, month, day) ← parseDate (l.take separator)
    let rest := l.drop (separator + 1)
    let ((hour, minute, second, micro), offset) ←
      if rest = [] then some ((0, 0, 0, 0), none) else parseTime rest
    some (← make year month day hour minute second micro, offset)

/-! ## Reading what was written -/

theorem toNat_digit (n : Nat) : (digit n).toNat = 48 + n % 10 := by
  have hlt : n % 10 < 10 := Nat.mod_lt _ (by decide)
  unfold digit
  generalize n % 10 = r at hlt
  interval_cases r <;> rfl

theorem isDigit_digit (n : Nat) : isDigit (digit n) = true := by
  have hlt : n % 10 < 10 := Nat.mod_lt _ (by decide)
  unfold isDigit
  rw [toNat_digit]
  simp
  omega

theorem digit_ne {n : Nat} {c : Char} (h : isDigit c = false) : digit n ≠ c := by
  intro heq
  rw [← heq, isDigit_digit] at h
  cases h

theorem number_pad2 (n : Nat) (rest : List Char) (h : n < 100) :
    number 2 (digit (n / 10) :: digit n :: rest) = some n := by
  simp [number, isDigit_digit, toNat_digit]
  omega

theorem number_pad4 (n : Nat) (rest : List Char) (h : n < 10000) :
    number 4 (digit (n / 1000) :: digit (n / 100) :: digit (n / 10) :: digit n :: rest) = some n := by
  simp [number, isDigit_digit, toNat_digit]
  omega

theorem number_pad6 (n : Nat) (rest : List Char) (h : n < 1000000) :
    number 6 (digit (n / 100000) :: digit (n / 10000) :: digit (n / 1000) :: digit (n / 100) ::
      digit (n / 10) :: digit n :: rest) = some n := by
  simp [number, isDigit_digit, toNat_digit]
  omega

theorem daysInMonth_le (year month : Nat) : daysInMonth year month ≤ 31 := by
  unfold daysInMonth
  split
  · split <;> decide
  · split <;> decide

theorem make_fields (d : DateTime) :
    make d.year d.month d.day d.hour d.minute d.second d.microsecond = some d := by
  rw [make, dif_pos d.valid]

/-- The clock of a text. -/
def clockChars (d : DateTime) : List Char :=
  pad2 d.hour ++ ':' :: pad2 d.minute ++ ':' :: pad2 d.second ++
    if d.microsecond = 0 then [] else '.' :: pad6 d.microsecond

theorem parseClock_clockChars (d : DateTime) :
    parseClock d.clockChars = some (d.hour, d.minute, d.second, d.microsecond) := by
  obtain ⟨-, -, -, hhour, hminute, hsecond, hmicro⟩ := d.valid
  by_cases hzero : d.microsecond = 0
  · simp [parseClock, clockChars, hzero, pad2, number_pad2 _ _ (by omega : d.hour < 100),
      number_pad2 _ _ (by omega : d.minute < 100), number_pad2 _ _ (by omega : d.second < 100)]
  · simp [parseClock, clockChars, hzero, pad2, pad6, parseFraction,
      number_pad2 _ _ (by omega : d.hour < 100), number_pad2 _ _ (by omega : d.minute < 100),
      number_pad2 _ _ (by omega : d.second < 100), number_pad6 _ _ hmicro]

theorem isZone_digit (n : Nat) : isZone (digit n) = false := by
  have hplus : digit n ≠ '+' := digit_ne (by decide)
  have hminus : digit n ≠ '-' := digit_ne (by decide)
  have hzulu : digit n ≠ 'Z' := digit_ne (by decide)
  simp [isZone, hplus, hminus, hzulu]

theorem clockChars_not_zone (d : DateTime) : ∀ c ∈ d.clockChars, (!isZone c) = true := by
  have hcolon : isZone ':' = false := by decide
  have hpoint : isZone '.' = false := by decide
  have hall : d.clockChars.all (fun c => !isZone c) = true := by
    by_cases hzero : d.microsecond = 0
    · simp [clockChars, hzero, pad2, isZone_digit, hcolon]
    · simp [clockChars, hzero, pad2, pad6, isZone_digit, hcolon, hpoint]
  exact List.all_eq_true.mp hall

theorem parseTime_clockChars (d : DateTime) :
    parseTime (d.clockChars ++ ['+', '0', '0', ':', '0', '0']) =
      some ((d.hour, d.minute, d.second, d.microsecond), some 0) := by
  have hall := d.clockChars_not_zone
  have htake : (d.clockChars ++ ['+', '0', '0', ':', '0', '0']).takeWhile (fun c => !isZone c) =
      d.clockChars := by
    rw [List.takeWhile_append_of_pos hall]
    simp [isZone]
  have hdrop : (d.clockChars ++ ['+', '0', '0', ':', '0', '0']).dropWhile (fun c => !isZone c) =
      ['+', '0', '0', ':', '0', '0'] := by
    rw [List.dropWhile_append_of_pos hall]
    simp [isZone]
  have hoffset : parseOffset false ['0', '0', ':', '0', '0'] = some 0 := by decide
  rw [parseTime, htake, parseClock_clockChars, hdrop]
  simp [hoffset]

theorem isoChars_eq (d : DateTime) :
    d.isoChars = pad4 d.year ++ '-' :: pad2 d.month ++ '-' :: pad2 d.day ++ 'T' ::
      (d.clockChars ++ ['+', '0', '0', ':', '0', '0']) := by
  simp [isoChars, clockChars]

theorem fromisoformat_isoChars (d : DateTime) : fromisoformat d.isoChars = some (d, some 0) := by
  obtain ⟨⟨-, hyear⟩, ⟨-, hmonth⟩, ⟨-, hday⟩, -⟩ := d.valid
  have hday' := daysInMonth_le d.year d.month
  have hweek : digit (d.month / 10) ≠ 'W' := digit_ne (by decide)
  have hchars := d.isoChars_eq
  have hdate : parseDate (d.isoChars.take 10) = some (d.year, d.month, d.day) := by
    simp [hchars, parseDate, pad4, pad2, hweek, number_pad4 _ _ (by omega : d.year < 10000),
      number_pad2 _ _ (by omega : d.month < 100), number_pad2 _ _ (by omega : d.day < 100)]
  have hlength : ¬ d.isoChars.length < 7 := by
    simp [hchars, pad4, pad2]
  have hseparator : findSeparator d.isoChars = some 10 := by
    simp [hchars, findSeparator, pad4, pad2, hweek]
  have hrest : d.isoChars.drop 11 = d.clockChars ++ ['+', '0', '0', ':', '0', '0'] := by
    simp [hchars, pad4, pad2]
  have hne : d.clockChars ++ ['+', '0', '0', ':', '0', '0'] ≠ [] := by simp
  rw [fromisoformat, if_neg hlength, hseparator]
  simp only [Option.bind_eq_bind, Option.bind_some, hdate, hrest, if_neg hne,
    parseTime_clockChars, make_fields]

/-- The text of a value without an offset. -/
def localChars (d : DateTime) : List Char :=
  pad4 d.year ++ '-' :: pad2 d.month ++ '-' :: pad2 d.day ++ 'T' :: d.clockChars

theorem digit_ascii (n : Nat) : (digit n).toNat < 0x80 := by
  rw [toNat_digit]
  omega

theorem localChars_ascii (d : DateTime) : ∀ c ∈ d.localChars, c.toNat < 0x80 := by
  have hall : d.localChars.all (fun c => decide (c.toNat < 0x80)) = true := by
    by_cases hzero : d.microsecond = 0
    · simp [localChars, clockChars, hzero, pad2, pad4, digit_ascii]
    · simp [localChars, clockChars, hzero, pad2, pad4, pad6, digit_ascii]
  intro c hc
  simpa using List.all_eq_true.mp hall c hc

theorem fromisoformat_localChars (d : DateTime) : fromisoformat d.localChars = some (d, none) := by
  obtain ⟨⟨-, hyear⟩, ⟨-, hmonth⟩, ⟨-, hday⟩, -⟩ := d.valid
  have hday' := daysInMonth_le d.year d.month
  have hweek : digit (d.month / 10) ≠ 'W' := digit_ne (by decide)
  have hdate : parseDate (d.localChars.take 10) = some (d.year, d.month, d.day) := by
    simp [localChars, parseDate, pad4, pad2, hweek, number_pad4 _ _ (by omega : d.year < 10000),
      number_pad2 _ _ (by omega : d.month < 100), number_pad2 _ _ (by omega : d.day < 100)]
  have hlength : ¬ d.localChars.length < 7 := by
    simp [localChars, pad4, pad2]
  have hseparator : findSeparator d.localChars = some 10 := by
    simp [localChars, clockChars, findSeparator, pad4, pad2, hweek]
  have hrest : d.localChars.drop 11 = d.clockChars := by
    simp [localChars, pad4, pad2]
  have hne : d.clockChars ≠ [] := by simp [clockChars, pad2]
  have htime : parseTime d.clockChars =
      some ((d.hour, d.minute, d.second, d.microsecond), none) := by
    have htake : d.clockChars.takeWhile (fun c => !isZone c) = d.clockChars :=
      List.takeWhile_eq_self_iff.mpr d.clockChars_not_zone
    have hdrop : d.clockChars.dropWhile (fun c => !isZone c) = [] :=
      List.dropWhile_eq_nil_iff.mpr d.clockChars_not_zone
    rw [parseTime, htake, parseClock_clockChars, hdrop]
    rfl
  rw [fromisoformat, if_neg hlength, hseparator]
  simp only [Option.bind_eq_bind, Option.bind_some, hdate, hrest, if_neg hne, htime, make_fields]

theorem isSpace_digit (n : Nat) : isSpace (digit n) = false := by
  have hlt : n % 10 < 10 := Nat.mod_lt _ (by decide)
  unfold isSpace
  rw [toNat_digit]
  simp
  omega

/-- The text has no white space around it. -/
theorem strip_isoformat (d : DateTime) : strip d.isoformat = d.isoformat := by
  have hfirst : d.isoChars.dropWhile isSpace = d.isoChars := by
    simp [isoChars, pad4, isSpace_digit]
  have hlast : d.isoChars.rdropWhile isSpace = d.isoChars := by
    rw [isoChars, List.rdropWhile_eq_self_iff]
    intro _
    simp [isSpace]
  rw [strip, isoformat, String.toList_ofList, stripList, hfirst, hlast]

theorem isoformat_ne_empty (d : DateTime) : d.isoformat ≠ "" := by
  rw [isoformat, Ne, String.ofList_eq_empty_iff]
  simp [isoChars, pad4]

theorem isoChars_ne_zulu (d : DateTime) : ∀ c ∈ d.isoChars, c ≠ 'Z' := by
  have hdigit : ∀ n, digit n ≠ 'Z' := fun n => digit_ne (by decide)
  have hall : d.isoChars.all (fun c => c ≠ 'Z') = true := by
    by_cases hzero : d.microsecond = 0
    · simp [isoChars, hzero, pad4, pad2, hdigit]
    · simp [isoChars, hzero, pad4, pad2, pad6, hdigit]
  intro c hc
  simpa using List.all_eq_true.mp hall c hc

end DateTime

end Python
