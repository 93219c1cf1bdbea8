/-!
# Operation codes

The instruction set is closed: twenty-one operations, each with a fixed
mnemonic, a fixed gas cost and a fixed number of argument tokens. Only a jump
moves backwards, and every jump costs at least eight units of gas.
-/

namespace MeteredLedger

/-- The operation an instruction performs. In the comments `x` is the value
popped first and `y` the value popped second. -/
inductive Opcode where
  /-- Push `y + x`. -/
  | add
  /-- Push `y - x`. -/
  | sub
  /-- Push `y * x`. -/
  | mul
  /-- Push the quotient of `y` by `x`. -/
  | div
  /-- Push the remainder of `y` by `x`. -/
  | mod
  /-- Push whether `x < y`. -/
  | lt
  /-- Push whether `x > y`. -/
  | gt
  /-- Push whether `x = y`. -/
  | eq
  /-- Push whether `x` is the integer zero. -/
  | isZero
  /-- Push an integer literal. -/
  | push
  /-- Push a bound argument. -/
  | pushArg
  /-- Discard `x`. -/
  | pop
  /-- Push the content of a memory cell. -/
  | load
  /-- Write `x` to a memory cell. -/
  | store
  /-- Continue after a label. -/
  | jump
  /-- Continue after a label if `x` is the integer zero. -/
  | jz
  /-- Continue after a label unless `x` is the integer zero. -/
  | jnz
  /-- End the evaluation with `x` as its result. -/
  | ret
  /-- Push the timestamp of the block that `x` refers to. -/
  | timestamp
  /-- Print `x`, as an integer where it has an integer reading. -/
  | print
  /-- Print `x` unchanged. -/
  | printArg
  deriving DecidableEq, Repr

namespace Opcode

/-- Every operation, in table order. -/
def all : List Opcode :=
  [add, sub, mul, div, mod, lt, gt, eq, isZero, push, pushArg, pop, load, store, jump, jz, jnz,
    ret, timestamp, print, printArg]

/-- The word by which source text names the operation. -/
def mnemonic : Opcode → String
  | add => "ADD"
  | sub => "SUB"
  | mul => "MUL"
  | div => "DIV"
  | mod => "MOD"
  | lt => "LT"
  | gt => "GT"
  | eq => "EQ"
  | isZero => "ISZERO"
  | push => "PUSH"
  | pushArg => "PUSHARG"
  | pop => "POP"
  | load => "LOAD"
  | store => "STORE"
  | jump => "JUMP"
  | jz => "JZ"
  | jnz => "JNZ"
  | ret => "RETURN"
  | timestamp => "TIMESTAMP"
  | print => "PRINT"
  | printArg => "PRINTARG"

/-- Gas charged each time the operation executes. -/
def cost : Opcode → Nat
  | add | sub => 3
  | mul | div | mod => 5
  | lt | gt | eq | isZero => 3
  | push | pushArg => 3
  | pop => 2
  | load | store => 3
  | jump => 8
  | jz | jnz => 10
  | timestamp => 5
  | ret | print | printArg => 0

/-- Number of argument tokens the operation reads. -/
def arity : Opcode → Nat
  | push | pushArg | load | store | jump | jz | jnz => 1
  | _ => 0

/-- Whether the operation names a label to continue at. -/
def isJump : Opcode → Bool
  | jump | jz | jnz => true
  | _ => false

/-- The operation a mnemonic names. Mnemonics are case sensitive. -/
def ofMnemonic? (word : String) : Option Opcode :=
  all.find? (·.mnemonic == word)

/-- Every jump costs gas. -/
theorem cost_pos_of_isJump {op : Opcode} (h : op.isJump = true) : 0 < op.cost := by
  cases op <;> simp_all [isJump, cost]

theorem mem_all (op : Opcode) : op ∈ all := by
  cases op <;> decide

/-- A mnemonic names the operation that carries it, and no other. -/
theorem ofMnemonic?_eq_some_iff {word : String} {op : Opcode} :
    ofMnemonic? word = some op ↔ word = op.mnemonic := by
  constructor
  · intro h
    have hw := List.find?_some (p := fun op : Opcode => op.mnemonic == word) h
    exact (beq_iff_eq.mp hw).symm
  · rintro rfl
    cases op <;> decide

end Opcode

end MeteredLedger
