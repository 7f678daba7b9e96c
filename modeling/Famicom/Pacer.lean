import Famicom.Binary64

/-! # Keeping pace with time

A pacer holds a running console back to the speed of its clock.  It keeps the time at which the
cycles told so far are due, and after each step asks for a sleep until then.  One that is more than
a second late gives up the arrears and starts anew with the next step. -/

namespace Famicom

/-- A pacer for a clock. -/
structure Pacer where
  /-- Seconds in a cycle. -/
  cycleDuration : Binary64
  /-- When the cycles told so far are due, if any have been told. -/
  deadline : Option Binary64 := none

namespace Pacer

/-- Why a pacer failed. -/
inductive Fault where
  /-- A clock that does not run has no cycle. -/
  | zeroClock
  /-- A number of cycles is beyond the greatest number of seconds. -/
  | tooManyCycles
deriving Repr, DecidableEq

/-- The report of a fault. -/
def Fault.message : Fault → String
  | zeroClock => "division by zero"
  | tooManyCycles => "int too large to convert to float"

/-- A pacer for a clock of the given rate. -/
def ofRate (rate : Int) : Except Fault Pacer :=
  if rate = 0 then .error .zeroClock
  else
    match Binary64.ofQuotient? rate.sign rate.natAbs with
    | none => .error .zeroClock
    | some duration => .ok { cycleDuration := duration }

/-- Seconds that a pacer may be late before it gives up the arrears. -/
def patience : Float := 1

/-- Tells a pacer of cycles at the time `now`.  The result is the time to sleep, if any. -/
def tell (p : Pacer) (now : Binary64) (cycles : Int) :
    Except Fault (Option Binary64) × Pacer :=
  let start := p.deadline.getD now
  match Binary64.ofInt? cycles with
  | none => (.error .tooManyCycles, { p with deadline := some start })
  | some count =>
    let due := start.later (count.toFloat * p.cycleDuration.toFloat)
    let delay := due.toFloat - now.toFloat
    if 0 < delay then (.ok (some (.ofFloat delay)), { p with deadline := some due })
    else if delay < -patience then (.ok none, { p with deadline := none })
    else (.ok none, { p with deadline := some due })

end Pacer

end Famicom
