import CodeCub.Python.DateTime

/-!
# Schedules

A job runs once at a time, every so many seconds, or when the clock matches a cron
expression.  This module has the readers of the three kinds of schedule, and the search
for the next matching minute, which gives up after a leap year of minutes.

The arithmetic of floats and the interpreter's table of decimal digits are parameters.
-/

namespace CodeCub
namespace Automation

open Python

/-- An exception of this part of the program. -/
inductive Raised where
  | cronScheduleError (message : String)
  | overflowError
  | valueError (message : String)
  | keyError (key : String)
  | baseException
  deriving DecidableEq, Repr

/-- What the interpreter says of floats, of decimal digits and of the text of a mapping.
`micros` is `timedelta(seconds=x)` in microseconds. -/
structure Host (F M : Type) where
  decimal : Char → Option Nat
  ofInt : Int → Option F
  ofDecimal : List Char → F
  times : F → Nat → F
  nonpos : F → Bool
  truthy : F → Bool
  text : F → String
  micros : F → Option Int
  mappingText : Option M → String

/-- The values of a JSON-like mapping; `mapping none` is the empty one, and any other
object is known by its truth value and its text. -/
inductive PyValue (F M : Type) where
  | none
  | bool (b : Bool)
  | int (n : Int)
  | float (x : F)
  | str (s : String)
  | mapping (content : Option M)
  | other (truthy : Bool) (text : String)

namespace PyValue

variable {F M : Type} (host : Host F M)

def truthy : PyValue F M → Bool
  | .none => false
  | .bool b => b
  | .int n => n ≠ 0
  | .float x => host.truthy x
  | .str s => s ≠ ""
  | .mapping content => content.isSome
  | .other truthy _ => truthy

/-- `str(value)`. -/
def toStr : PyValue F M → String
  | .none => "None"
  | .bool b => if b then "True" else "False"
  | .int n => toString n
  | .float x => host.text x
  | .str s => s
  | .mapping content => host.mappingText content
  | .other _ text => text

/-- `str(a or b or ... or "")`. -/
def orText : List (PyValue F M) → String
  | [] => ""
  | value :: rest => if value.truthy host then value.toStr host else orText rest

end PyValue

variable {F M : Type} (host : Host F M)

/-! ## Times -/

/-- `text.replace("Z", "+00:00")`. -/
def replaceZulu (l : List Char) : List Char :=
  l.flatMap fun c => if c = 'Z' then ['+', '0', '0', ':', '0', '0'] else [c]

/-- `_utc` of what `fromisoformat` read. -/
def toUtc : DateTime × Option Int → Except Raised DateTime
  | (d, none) => .ok d
  | (d, some offset) =>
      if offset = 0 then .ok d
      else
        match d.add (-offset) with
        | some utc => .ok utc
        | none => .error .overflowError

/-- `_parse_datetime`. -/
def parseDatetime (value : PyValue F M) : Except Raised DateTime :=
  let text := strip (PyValue.orText host [value])
  if text = "" then .error (.cronScheduleError "at schedule requires an ISO timestamp")
  else
    match DateTime.fromisoformat (replaceZulu text.toList) with
    | none => .error (.cronScheduleError "at schedule must be an ISO timestamp")
    | some parsed => toUtc parsed

/-! ## Intervals -/

/-- The match of `\s*(\d+(?:\.\d+)?)\s*(s|m|h|d)?\s*` on a whole text: the number and the
letter of the unit. -/
def matchDuration (l : List Char) : Option (List Char × Option Char) :=
  let isDecimal (c : Char) : Bool := (host.decimal c).isSome
  let l := l.dropWhile isSpace
  let whole := l.takeWhile isDecimal
  let l := l.dropWhile isDecimal
  let fraction :=
    match l with
    | '.' :: rest => rest.takeWhile isDecimal
    | _ => []
  let (number, l) :=
    if fraction = [] then (whole, l) else (whole ++ '.' :: fraction, l.drop (fraction.length + 1))
  let l := l.dropWhile isSpace
  let (unit, l) :=
    match l with
    | c :: rest =>
        -- Without regard to case, the long s (U+017F) is an s as well.
        if c ∈ ['s', 'S', Char.ofNat 0x17f, 'm', 'M', 'h', 'H', 'd', 'D'] then (some c, rest)
        else (none, l)
    | [] => (none, l)
  if whole ≠ [] ∧ l.all isSpace then some (number, unit) else none

/-- The seconds of a unit; the long s is no key of the table. -/
def unitSeconds : Option Char → Except Raised Nat
  | none => .ok 1
  | some c =>
      if c = 's' ∨ c = 'S' then .ok 1
      else if c = 'm' ∨ c = 'M' then .ok 60
      else if c = 'h' ∨ c = 'H' then .ok 3600
      else if c = 'd' ∨ c = 'D' then .ok 86400
      else .error (.keyError (String.singleton c))

/-- The number of seconds before it is compared with zero. -/
def everySeconds : PyValue F M → Except Raised F
  | .int n =>
      match host.ofInt n with
      | some x => .ok x
      | none => .error .overflowError
  | .float x => .ok x
  | value =>
      match matchDuration host (PyValue.orText host [value]).toList with
      | none =>
          .error (.cronScheduleError "every schedule must be seconds or a duration such as 5m")
      | some (number, unit) => do
          let factor ← unitSeconds unit
          .ok (host.times (host.ofDecimal number) factor)

/-- `_parse_every`. -/
def parseEvery (value : PyValue F M) : Except Raised F := do
  let seconds ← everySeconds host value
  if host.nonpos seconds then .error (.cronScheduleError "every schedule must be positive")
  else .ok seconds

/-! ## Cron expressions -/

/-- `int(text)`: a sign, decimal digits with single underscores between them, at most
4300 of them. -/
def pyInt (l : List Char) : Option Int :=
  let l := stripList isSpace l
  let (negative, l) :=
    match l with
    | '-' :: rest => (true, rest)
    | '+' :: rest => (false, rest)
    | _ => (false, l)
  let groups := l.splitOn '_'
  let digits := groups.flatten.map host.decimal
  if groups.all (· ≠ []) ∧ digits.all Option.isSome ∧ digits.length ≤ 4300 then
    let value := digits.foldl (fun (value : Nat) digit => value * 10 + digit.getD 0) 0
    some (if negative then -(value : Int) else value)
  else none

/-- `int(text)`, with the message of the handler around it. -/
def intOr (l : List Char) (message : String) : Except Raised Int :=
  match pyInt host l with
  | some n => .ok n
  | none => .error (.cronScheduleError message)

/-- The bounds of an atom without its step. -/
def cronBounds (base : List Char) (minimum maximum : Nat) : Except Raised (Int × Int) :=
  if base = ['*'] then .ok (minimum, maximum)
  else if '-' ∈ base then do
    let left ← intOr host (base.takeWhile (· ≠ '-')) "cron range must be numeric"
    let right ← intOr host ((base.dropWhile (· ≠ '-')).drop 1) "cron range must be numeric"
    .ok (left, right)
  else do
    let value ← intOr host base "cron field must be numeric, '*', range, or list"
    .ok (value, value)

/-- `range(start, stop + 1, step)`. -/
def steppedRange (start stop step : Nat) : List Nat :=
  (List.range ((stop - start) / step + 1)).map fun i => start + i * step

/-- One atom of a field. -/
def cronAtom (atom : List Char) (minimum maximum : Nat) : Except Raised (List Nat) :=
  let atom := stripList isSpace atom
  if atom = [] then .error (.cronScheduleError "cron schedule contains an empty field")
  else do
    let base := atom.takeWhile (· ≠ '/')
    let stepText := (atom.dropWhile (· ≠ '/')).drop 1
    let step ← if stepText = [] then .ok 1 else intOr host stepText "cron step must be an integer"
    if step ≤ 0 then .error (.cronScheduleError "cron step must be positive")
    else
      let (start, stop) ← cronBounds host base minimum maximum
      if start < minimum ∨ maximum < stop ∨ stop < start then
        .error (.cronScheduleError s!"cron field must be in [{minimum}, {maximum}]")
      else .ok (steppedRange start.toNat stop.toNat step.toNat)

/-- `_cron_field`. -/
def cronField (value : List Char) (minimum maximum : Nat) : Except Raised (List Nat) := do
  let atoms ← (value.splitOn ',').mapM fun atom => cronAtom host atom minimum maximum
  .ok atoms.flatten

structure CronFields where
  minute : List Nat
  hour : List Nat
  day : List Nat
  month : List Nat
  weekday : List Nat
  deriving DecidableEq, Repr

/-- `str.split()`. -/
def words (l : List Char) : List (List Char) := (l.splitOnP isSpace).filter (· ≠ [])

/-- `_parse_cron`. -/
def parseCron (expression : String) : Except Raised CronFields :=
  match words expression.toList with
  | [minute, hour, day, month, weekday] => do
      .ok {
        minute := ← cronField host minute 0 59
        hour := ← cronField host hour 0 23
        day := ← cronField host day 1 31
        month := ← cronField host month 1 12
        weekday := ← cronField host weekday 0 6 }
  | _ => .error (.cronScheduleError "cron schedule must contain five fields")

def CronFields.Matches (fields : CronFields) (d : DateTime) : Prop :=
  d.minute ∈ fields.minute ∧ d.hour ∈ fields.hour ∧ d.day ∈ fields.day ∧
    d.month ∈ fields.month ∧ d.weekday ∈ fields.weekday

instance (fields : CronFields) (d : DateTime) : Decidable (fields.Matches d) :=
  inferInstanceAs (Decidable (_ ∧ _))

def addMinute (d : DateTime) : Except Raised DateTime :=
  match d.add 60000000 with
  | some next => .ok next
  | none => .error .overflowError

/-- The loop of `cron_next`. -/
def cronSearch (fields : CronFields) : Nat → DateTime → Except Raised DateTime
  | 0, _ => .error (.cronScheduleError "cron schedule has no match within one year")
  | rounds + 1, candidate =>
      if fields.Matches candidate then .ok candidate
      else
        match addMinute candidate with
        | .ok next => cronSearch fields rounds next
        | .error e => .error e

def searchMinutes : Nat := 366 * 24 * 60

def cronNext (expression : String) (after : DateTime) : Except Raised DateTime := do
  let fields ← parseCron host expression
  let candidate ← addMinute after.floorMinute
  cronSearch fields searchMinutes candidate

/-- What the search finds matches. -/
theorem cronSearch_matches {fields : CronFields} {rounds : Nat} {candidate found : DateTime}
    (h : cronSearch fields rounds candidate = .ok found) : fields.Matches found := by
  induction rounds generalizing candidate with
  | zero => cases h
  | succ rounds ih =>
      rw [cronSearch] at h
      by_cases hmatches : fields.Matches candidate
      · rw [if_pos hmatches, Except.ok.injEq] at h
        rw [← h]
        exact hmatches
      · rw [if_neg hmatches] at h
        cases hnext : addMinute candidate with
        | ok next =>
            rw [hnext] at h
            exact ih h
        | error e =>
            rw [hnext] at h
            cases h

/-- An expression that no time matches is accepted, and its next time cannot be
computed. -/
theorem cronNext_raises {expression : String} {fields : CronFields} (after : DateTime)
    (hparse : parseCron host expression = .ok fields) (hnever : ∀ d, ¬ fields.Matches d) :
    ∃ e, cronNext host expression after = .error e := by
  cases hnext : cronNext host expression after with
  | error e => exact ⟨e, rfl⟩
  | ok found =>
      rw [cronNext, hparse] at hnext
      change (do
        let candidate ← addMinute after.floorMinute
        cronSearch fields searchMinutes candidate) = .ok found at hnext
      cases hminute : addMinute after.floorMinute with
      | error e =>
          rw [hminute] at hnext
          cases hnext
      | ok candidate =>
          rw [hminute] at hnext
          exact absurd (cronSearch_matches hnext) (hnever found)

/-! ## Reading back a time -/

theorem replaceZulu_of_ne {l : List Char} (h : ∀ c ∈ l, c ≠ 'Z') : replaceZulu l = l := by
  induction l with
  | nil => rfl
  | cons c rest ih =>
      have hrest : ∀ c ∈ rest, c ≠ 'Z' := fun c hc => h c (List.mem_cons_of_mem _ hc)
      have hc : c ≠ 'Z' := h c List.mem_cons_self
      rw [replaceZulu] at ih ⊢
      rw [List.flatMap_cons, ih hrest, if_neg hc]
      rfl

theorem parseDatetime_isoformat (d : DateTime) :
    parseDatetime host (.str d.isoformat) = .ok d := by
  have htext : strip (PyValue.orText host [.str d.isoformat]) = d.isoformat := by
    rw [PyValue.orText, if_pos (by simp [PyValue.truthy, d.isoformat_ne_empty])]
    exact d.strip_isoformat
  have hchars : replaceZulu d.isoformat.toList = d.isoChars := by
    rw [DateTime.isoformat, String.toList_ofList, replaceZulu_of_ne d.isoChars_ne_zulu]
  rw [parseDatetime]
  simp only [htext, if_neg d.isoformat_ne_empty, hchars, DateTime.fromisoformat_isoChars]
  rfl

end Automation
end CodeCub
