import Std.Data.TreeMap
import MeteredLedger.Machine.Fault

/-!
# Hosts, memory and machine states

A machine reaches outside itself in two ways only: it asks for the timestamp of
a block that is named by text, and it prints values. A host answers both.
Answering a question does not change the host; printing may.

`Store` is what an operation works on: the stack, the memory, the host's memory
and the values printed. Position and gas are not part of it, so no operation
can touch them; the machine itself moves and charges.
-/

namespace MeteredLedger.Machine

/-! ## Hosts -/

/-- The services a machine runs with. `σ` is what the host remembers. -/
structure Host (σ : Type) where
  /-- The timestamp of the block that a text refers to, or why there is none. -/
  timestamp : σ → String → Except String Int64
  /-- Takes a printed value. -/
  print : σ → Value → σ

namespace Host

/-- A host that knows the timestamps of the blocks in a table and drops what is printed. -/
def ofTimestamps (table : String → Option Int64) : Host Unit where
  timestamp _ block := (table block).elim (.error "unknown block") .ok
  print _ _ := ()

/-- A host without a ledger: it knows no block and drops what is printed. -/
def detached : Host Unit where
  timestamp _ _ := .error "no ledger attached"
  print _ _ := ()

end Host

/-!
## Memory

Memory is sparse: a cell exists once it is written, and any other cell reads as
undefined.
-/

/-- The written cells of a machine, by address. -/
structure Memory where
  cells : Std.TreeMap UInt64 Value

namespace Memory

instance : EmptyCollection Memory := ⟨⟨∅⟩⟩

def read (m : Memory) (address : UInt64) : Value :=
  m.cells[address]?.getD .undefined

def write (m : Memory) (address : UInt64) (v : Value) : Memory :=
  ⟨m.cells.insert address v⟩

/-- Number of cells that were written. -/
def size (m : Memory) : Nat :=
  m.cells.size

@[simp] theorem read_empty (a : UInt64) : (∅ : Memory).read a = .undefined := by
  change (∅ : Std.TreeMap UInt64 Value)[a]?.getD .undefined = .undefined
  simp

/-- A written cell reads as what was written, and no other cell changes. -/
theorem read_write (m : Memory) (a b : UInt64) (v : Value) :
    (m.write a v).read b = if a = b then v else m.read b := by
  simp only [read, write, Std.TreeMap.getElem?_insert, Std.LawfulEqCmp.compare_eq_iff_eq]
  split <;> rfl

/-- Writing adds at most one cell. -/
theorem size_write_le (m : Memory) (a : UInt64) (v : Value) :
    (m.write a v).size ≤ m.size + 1 := by
  simp only [size, write, Std.TreeMap.size_insert]
  split <;> omega

end Memory

/-! ## States -/

/-- What operations read and change. -/
structure Store (σ : Type) where
  /-- The operand stack, its top first. -/
  stack : List Value
  memory : Memory
  /-- What the host remembers. -/
  host : σ
  /-- The values printed in this evaluation, the latest first. -/
  printed : List Value

/-- An instruction that passed the gas check. -/
structure Charge where
  index : Nat
  opcode : Opcode
  /-- Gas remaining before the instruction is charged. -/
  gas : Nat
  deriving DecidableEq, Repr

/-- The state of a machine between two lines. -/
structure State (σ : Type) where
  store : Store σ
  /-- Index of the line that comes next. -/
  pc : Nat
  gas : Nat
  /-- The instructions that passed the gas check, the latest first. -/
  trace : List Charge

/-- The state in which an evaluation starts: nothing carries over but the host. -/
def State.initial (limit : Nat) (host : σ) : State σ where
  store := { stack := [], memory := ∅, host, printed := [] }
  pc := 0
  gas := limit
  trace := []

/-- How an evaluation ends when it does not fail. -/
inductive Outcome where
  | returned (v : Value)
  | endOfProgram
  deriving DecidableEq, Repr

/-- The value a caller sees: what was returned, or undefined. -/
def Outcome.value : Outcome → Value
  | returned v => v
  | endOfProgram => .undefined

/-- A finished evaluation: its result and the state it left. -/
structure Halt (σ : Type) where
  state : State σ
  result : Except Error Outcome

end MeteredLedger.Machine
