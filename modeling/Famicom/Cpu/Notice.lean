import Famicom.Cpu.Step

/-! # Notices

What an observer of the processor is told: that an instruction begins, each of its bytes as it is
fetched, and that it is complete.  Notices are read off what happened, so an observer cannot change
it.  An instruction that fails or halts is never reported complete. -/

namespace Famicom

/-- A message to an observer. -/
inductive Notice where
  /-- An instruction begins in the given state. -/
  | began (cpu : Cpu)
  | fetched (data : Byte)
  /-- An instruction is complete and took the given number of cycles. -/
  | completed (cycles : Nat)
deriving Repr, DecidableEq

namespace Outcome

/-- The notices of an activity that is not an instruction: the bytes it fetched. -/
def fetchNotices {α β : Type} (o : Outcome α β) : List Notice :=
  o.fetched.map .fetched

/-- The notice of the end of an instruction, if it was completed. -/
def completion {β : Type} (o : Outcome (Option Nat) β) : List Notice :=
  match o.result with
  | .ok (some cycles) => [.completed cycles]
  | _ => []

/-- The notices of an instruction that began in the given state. -/
def stepNotices {β : Type} (start : Cpu) (o : Outcome (Option Nat) β) : List Notice :=
  .began start :: o.fetchNotices ++ o.completion

end Outcome

end Famicom
