import Famicom.Cpu.Notice
import Famicom.Trace.Entry

/-! # Journals

A journal is an observer that writes a trace.  When an instruction begins it takes down the state;
each byte is added as it is fetched, and the first one also gives the name; when the instruction is
complete the entry is filed.  An instruction that does not complete leaves its entry pending until
the next one begins. -/

namespace Famicom.Trace

/-- The entries filed, in order, and the one being written. -/
structure Journal where
  entries : Array Entry := #[]
  pending : Option Entry := none
deriving Repr, DecidableEq

namespace Journal

/-- The entry of an instruction of which no byte has been fetched. -/
def opening (c : Cpu) : Entry where
  pc := c.pc.toNat
  data := []
  a := c.a.toNat
  x := c.x.toNat
  y := c.y.toNat
  flags := c.statusByte.toNat
  sp := c.sp.toNat
  cycles := c.cycles

/-- The name of the instruction with an opcode, or nothing if there is none. -/
def nameOf (opcode : Int) : String :=
  match Instruction.decode (BitVec.ofInt 8 opcode) with
  | none => ""
  | some i => i.mnemonic.name

/-- Takes down the state in which an instruction begins. -/
def begin (j : Journal) (c : Cpu) : Journal := { j with pending := some (opening c) }

/-- The entry with a byte added. -/
def withByte (e : Entry) (value : Int) : Entry :=
  { e with
    data := e.data ++ [value]
    mnemonic := if e.data.isEmpty then nameOf value else e.mnemonic }

/-- Adds an instruction byte to the pending entry. -/
def fetch (j : Journal) (value : Int) : Journal :=
  { j with pending := j.pending.map (withByte · value) }

/-- Files the pending entry. -/
def complete : Journal → Journal
  | ⟨entries, some e⟩ => ⟨entries.push e, none⟩
  | ⟨entries, none⟩ => ⟨entries, none⟩

/-- Takes notice of what the processor does. -/
def observe (j : Journal) : Notice → Journal
  | .began c => j.begin c
  | .fetched d => j.fetch d.toNat
  | .completed _ => j.complete

/-- Forgets all entries. -/
def clear (_ : Journal) : Journal := {}

/-- The filed entries as lines, without a line end after the last. -/
def dump (j : Journal) : String := "\n".intercalate (j.entries.toList.map Entry.text)

end Journal

end Famicom.Trace
