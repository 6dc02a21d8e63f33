import CodeCub.Python.Str
import Mathlib.Data.Rat.Defs
import Mathlib.Algebra.Order.Ring.Rat

/-!
# The tool circuit breaker

One `CircuitState` per tool name.  `allow` takes the half-open probe, and the
probe is given back by `recordSuccess` and `recordFailure` only.  Every reading of
the monotonic clock is an argument.
-/

namespace CodeCub
namespace Tooling

open Python

structure CircuitState where
  failures : Nat := 0
  openedAt : Option ℚ := none
  halfOpenInFlight : Bool := false
  deriving DecidableEq

inductive CircuitStatus
  | closed
  | opened
  | halfOpen
  deriving DecidableEq, Repr

/-- The circuit states by tool name, with the two thresholds of the breaker. -/
structure ToolCircuitBreaker where
  failureThreshold : Nat := 3
  resetSeconds : ℚ := 60
  states : Dict String CircuitState := ∅

namespace ToolCircuitBreaker

variable (breaker : ToolCircuitBreaker)

def state (name : String) : CircuitState := (breaker.states.lookup name).getD {}

def setState (name : String) (state : CircuitState) : ToolCircuitBreaker :=
  { breaker with states := breaker.states.insert name state }

def status (name : String) (now : ℚ) : CircuitStatus :=
  match (breaker.state name).openedAt with
  | some openedAt => if breaker.resetSeconds ≤ now - openedAt then .halfOpen else .opened
  | none => .closed

def allow (name : String) (now : ℚ) : Bool × ToolCircuitBreaker :=
  let state := breaker.state name
  match breaker.status name now with
  | .opened => (false, breaker.setState name state)
  | .halfOpen =>
      if state.halfOpenInFlight then (false, breaker.setState name state)
      else (true, breaker.setState name { state with halfOpenInFlight := true })
  | .closed => (true, breaker.setState name state)

def recordSuccess (name : String) : ToolCircuitBreaker := breaker.setState name {}

def recordFailure (name : String) (now : ℚ) : ToolCircuitBreaker :=
  let state := breaker.state name
  let failures := state.failures + 1
  breaker.setState name
    { failures
      openedAt := if breaker.failureThreshold ≤ failures then some now else state.openedAt
      halfOpenInFlight := false }

/-- No tool has its half-open probe out. -/
def Idle : Prop := ∀ name, (breaker.state name).halfOpenInFlight = false

/-- The next `allow` of this tool would take the half-open probe. -/
def HalfOpen (name : String) (now : ℚ) : Prop := breaker.status name now = .halfOpen

instance (name : String) (now : ℚ) : Decidable (breaker.HalfOpen name now) :=
  inferInstanceAs (Decidable (_ = _))

variable {breaker} {name other : String} {now : ℚ}

@[simp] theorem state_setState_self (s : CircuitState) :
    (breaker.setState name s).state name = s := by
  simp [state, setState]

theorem state_setState_ne (s : CircuitState) (h : other ≠ name) :
    (breaker.setState name s).state other = breaker.state other := by
  simp [state, setState, AList.lookup_insert_ne h]

/-- Every tool but `name` keeps its probe at home. -/
def IdleExcept (breaker : ToolCircuitBreaker) (name : String) : Prop :=
  ∀ other, other ≠ name → (breaker.state other).halfOpenInFlight = false

theorem Idle.idleExcept (h : breaker.Idle) (name : String) : breaker.IdleExcept name :=
  fun other _ => h other

theorem IdleExcept.setState {s : CircuitState} (h : breaker.IdleExcept name) :
    (breaker.setState name s).IdleExcept name := by
  intro other ho
  rw [state_setState_ne s ho]
  exact h other ho

theorem IdleExcept.idle (h : breaker.IdleExcept name)
    (hname : (breaker.state name).halfOpenInFlight = false) : breaker.Idle := by
  intro other
  by_cases ho : other = name
  · rw [ho]
    exact hname
  · exact h other ho

/-- Recording a result gives the tool's probe back, whatever the result was. -/
theorem IdleExcept.recordSuccess (h : breaker.IdleExcept name) :
    (breaker.recordSuccess name).Idle :=
  IdleExcept.idle (IdleExcept.setState h) (by simp [ToolCircuitBreaker.recordSuccess])

theorem IdleExcept.recordFailure (h : breaker.IdleExcept name) :
    (breaker.recordFailure name now).Idle :=
  IdleExcept.idle (IdleExcept.setState h) (by simp [ToolCircuitBreaker.recordFailure])

theorem allow_idleExcept (h : breaker.Idle) : (breaker.allow name now).2.IdleExcept name := by
  have hset : ∀ s, (breaker.setState name s).IdleExcept name := fun s =>
    IdleExcept.setState (h.idleExcept name)
  unfold allow
  cases breaker.status name now with
  | opened => exact hset _
  | closed => exact hset _
  | halfOpen =>
      simp only
      split
      · exact hset _
      · exact hset _

/-- From an idle breaker only a half-open circuit sends a probe out. -/
theorem allow_halfOpenInFlight (h : breaker.Idle) :
    ((breaker.allow name now).2.state name).halfOpenInFlight = true ↔
      breaker.HalfOpen name now := by
  have hname := h name
  unfold HalfOpen
  cases hs : breaker.status name now <;> simp [allow, hs, hname]

theorem allow_of_halfOpen (h : breaker.Idle) (ho : breaker.HalfOpen name now) :
    (breaker.allow name now).1 = true := by
  have hname := h name
  unfold HalfOpen at ho
  simp [allow, ho, hname]

end ToolCircuitBreaker
end Tooling
end CodeCub
