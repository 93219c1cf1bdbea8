import MeteredLedger.Machine.Fault
import MeteredLedger.Program

/-!
# Operations

An operation is an instruction whose argument has been read: its literal, its
memory address or the index of its label. Reading the argument looks at the
program only, never at the stack, so what can go wrong with an argument goes
wrong before the operation takes any operand.
-/

namespace MeteredLedger.Machine

/-- The arithmetic operations on signed words. -/
inductive Arithmetic where
  | add
  | sub
  | mul
  | div
  | mod
  deriving DecidableEq, Repr

namespace Arithmetic

def opcode : Arithmetic → Opcode
  | add => .add
  | sub => .sub
  | mul => .mul
  | div => .div
  | mod => .mod

/-- The result on two words. Results wrap, quotients are rounded toward zero,
and there is none for a zero divisor. -/
def result? : Arithmetic → Int64 → Int64 → Option Int64
  | add, y, x => some (y + x)
  | sub, y, x => some (y - x)
  | mul, y, x => some (y * x)
  | div, y, x => if x = 0 then none else some (y / x)
  | mod, y, x => if x = 0 then none else some (y % x)

end Arithmetic

/-- The two strict orders between operands. -/
inductive Comparison where
  | less
  | greater
  deriving DecidableEq, Repr

namespace Comparison

def opcode : Comparison → Opcode
  | less => .lt
  | greater => .gt

/-- Whether an ordering of the operands satisfies the comparison. -/
def holds : Comparison → Ordering → Bool
  | less, o => o.isLT
  | greater, o => o.isGT

end Comparison

/-- An instruction whose argument has been read. -/
inductive Operation where
  | arithmetic (op : Arithmetic)
  | compare (op : Comparison)
  | equal
  | isZero
  | push (v : Value)
  | pop
  | load (address : UInt64)
  | store (address : UInt64)
  /-- Continue after the marker at an index. -/
  | jump (target : Nat)
  /-- Continue after the marker at an index if testing the operand for zero gives `onZero`. -/
  | branch (onZero : Bool) (target : Nat)
  | ret
  | timestamp
  /-- Print the operand, in its integer reading if `coerced` and it has one. -/
  | print (coerced : Bool)
  deriving DecidableEq, Repr

namespace Operation

/-- The first token of an instruction that needs one. -/
def argument (opcode : Opcode) : List String → Except Fault String
  | [] => .error (.missingArgument opcode)
  | token :: _ => .ok token

/-- Reads the first token with a reader that may refuse it. -/
def readArgument (opcode : Opcode) (args : List String) (read : String → Option α) :
    Except Fault α :=
  match argument opcode args with
  | .error fault => .error fault
  | .ok token =>
    match read token with
    | some a => .ok a
    | none => .error (.invalidArgument opcode token)

/-- The index of the label that a jump names. -/
def readLabel (p : Program) (opcode : Opcode) (args : List String) : Except Fault Nat :=
  match argument opcode args with
  | .error fault => .error fault
  | .ok label =>
    match p.labelIndex? label with
    | some target => .ok target
    | none => .error (.unknownLabel label)

/-- Reads the argument of an instruction with a known operation code. -/
def decode (p : Program) (opcode : Opcode) (args : List String) : Except Fault Operation :=
  match opcode with
  | .add => .ok (.arithmetic .add)
  | .sub => .ok (.arithmetic .sub)
  | .mul => .ok (.arithmetic .mul)
  | .div => .ok (.arithmetic .div)
  | .mod => .ok (.arithmetic .mod)
  | .lt => .ok (.compare .less)
  | .gt => .ok (.compare .greater)
  | .eq => .ok .equal
  | .isZero => .ok .isZero
  | .push => (readArgument opcode args Decimal.readInt64?).map fun n => .push (.int n)
  | .pushArg => (argument opcode args).map fun token => .push (.ofLiteral token)
  | .pop => .ok .pop
  | .load => (readArgument opcode args Decimal.readUInt64?).map .load
  | .store => (readArgument opcode args Decimal.readUInt64?).map .store
  | .jump => (readLabel p opcode args).map .jump
  | .jz => (readLabel p opcode args).map (.branch true)
  | .jnz => (readLabel p opcode args).map (.branch false)
  | .ret => .ok .ret
  | .timestamp => .ok .timestamp
  | .print => .ok (.print true)
  | .printArg => .ok (.print false)

/-- Whether the operation may continue anywhere but at the next line. -/
def isJump : Operation → Bool
  | jump _ | branch _ _ => true
  | _ => false

/-- Only the three jumps decode to an operation that can leave the line order. -/
theorem isJump_of_decode {p : Program} {opcode : Opcode} {args : List String} {op : Operation}
    (h : decode p opcode args = .ok op) : op.isJump = opcode.isJump := by
  cases opcode <;>
    simp only [decode, Except.map, Except.ok.injEq] at h <;>
    first
      | (subst h; rfl)
      | (split at h <;> simp_all; subst h; rfl)

end Operation

end MeteredLedger.Machine
