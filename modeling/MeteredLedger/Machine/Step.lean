import MeteredLedger.Machine.Operation
import MeteredLedger.Machine.State

/-!
# Execution of one line

A label marker is passed over. An instruction is looked up, its cost is compared
with the gas that remains, its argument is read, its operands are popped, and
its effect takes place; the first of these that fails ends the evaluation. Gas
is charged last, so a failing instruction costs nothing, but operands that it
has popped stay popped.
-/

namespace MeteredLedger.Machine

/-- Where control goes after an operation. -/
inductive Flow where
  | next
  /-- To the line after the marker at an index. -/
  | jump (target : Nat)
  /-- Nowhere: the evaluation ends with a value. -/
  | ret (v : Value)
  deriving DecidableEq, Repr

/-- What an operation leaves, also when it fails. -/
structure Effect (σ : Type) where
  store : Store σ
  flow : Except Fault Flow

namespace Store

/-- Fails without a change. -/
def fail (s : Store σ) (fault : Fault) : Effect σ :=
  ⟨s, .error fault⟩

def push (s : Store σ) (v : Value) : Effect σ :=
  ⟨{ s with stack := v :: s.stack }, .ok .next⟩

def withOperand (s : Store σ) (continuation : Value → Store σ → Effect σ) : Effect σ :=
  match s.stack with
  | x :: rest => continuation x { s with stack := rest }
  | [] => s.fail .stackUnderflow

/-- Pops two operands. A single operand is popped before the second is missed. -/
def withOperands (s : Store σ) (continuation : Value → Value → Store σ → Effect σ) : Effect σ :=
  match s.stack with
  | x :: y :: rest => continuation x y { s with stack := rest }
  | _ => fail { s with stack := [] } .stackUnderflow

def print (host : Host σ) (s : Store σ) (v : Value) : Effect σ :=
  ⟨{ s with host := host.print s.host v, printed := v :: s.printed }, .ok .next⟩

end Store

/-- The arithmetic of the popped operands `x` and `y`, in that order of popping. -/
def performArithmetic (op : Arithmetic) (x y : Value) (s : Store σ) : Effect σ :=
  match y, x with
  | .int b, .int a =>
    match op.result? b a with
    | some n => s.push (.int n)
    | none => s.fail .divisionByZero
  | .int _, other => s.fail (.typeMismatch op.opcode other.kind)
  | other, _ => s.fail (.typeMismatch op.opcode other.kind)

/-- The comparison of the popped operands `x` and `y`, in that order of popping.
Integers compare by value and text by code points. -/
def performComparison (op : Comparison) (x y : Value) (s : Store σ) : Effect σ :=
  match x, y with
  | .int a, .int b => s.push (.ofBool (op.holds (compare a b)))
  | .text a, .text b => s.push (.ofBool (op.holds (compare a b)))
  | .undefined, _ => s.fail (.typeMismatch op.opcode .undefined)
  | _, other => s.fail (.typeMismatch op.opcode other.kind)

/-- The timestamp of the block that the popped operand refers to. -/
def performTimestamp (host : Host σ) (x : Value) (s : Store σ) : Effect σ :=
  match x with
  | .text block =>
    match host.timestamp s.host block with
    | .ok t => s.push (.int t)
    | .error reason => s.fail (.invalidBlock reason)
  | other => s.fail (.typeMismatch .timestamp other.kind)

def perform (host : Host σ) (op : Operation) (s : Store σ) : Effect σ :=
  match op with
  | .arithmetic op => s.withOperands (performArithmetic op)
  | .compare op => s.withOperands (performComparison op)
  | .equal => s.withOperands fun x y s => s.push (.ofBool (x = y))
  | .isZero => s.withOperand fun x s => s.push (.ofBool x.isZero)
  | .push v => s.push v
  | .pop => s.withOperand fun _ s => ⟨s, .ok .next⟩
  | .load address => s.push (s.memory.read address)
  | .store address =>
    s.withOperand fun x s => ⟨{ s with memory := s.memory.write address x }, .ok .next⟩
  | .jump target => ⟨s, .ok (.jump target)⟩
  | .branch onZero target =>
    s.withOperand fun x s => ⟨s, .ok (if x.isZero = onZero then .jump target else .next)⟩
  | .ret => s.withOperand fun x s => ⟨s, .ok (.ret x)⟩
  | .timestamp => s.withOperand (performTimestamp host)
  | .print coerced =>
    s.withOperand fun x s =>
      match (if coerced then x.coerceInt? else none) with
      | some n => s.print host (.int n)
      | none => s.print host x

/-- What one line leads to. -/
inductive Step (σ : Type) where
  | next (s : State σ)
  | halt (h : Halt σ)

/-- Ends the evaluation with a fault at the current line. -/
def State.fault (s : State σ) (fault : Fault) : Step σ :=
  .halt ⟨s, .error ⟨s.pc, fault⟩⟩

/-- Notes that an instruction passed the gas check. -/
def State.record (s : State σ) (opcode : Opcode) : State σ :=
  { s with trace := ⟨s.pc, opcode, s.gas⟩ :: s.trace }

/-- Moves on after an operation with the given cost. -/
def State.advance (s : State σ) (cost : Nat) (effect : Effect σ) : Step σ :=
  match effect.flow with
  | .error fault => State.fault { s with store := effect.store } fault
  | .ok .next => .next { s with store := effect.store, gas := s.gas - cost, pc := s.pc + 1 }
  | .ok (.jump target) =>
    .next { s with store := effect.store, gas := s.gas - cost, pc := target + 1 }
  | .ok (.ret v) =>
    .halt ⟨{ s with store := effect.store, gas := s.gas - cost }, .ok (.returned v)⟩

/-- Executes an instruction whose operation is known and affordable. -/
def execute (p : Program) (host : Host σ) (opcode : Opcode) (args : List String) (s : State σ) :
    Step σ :=
  match Operation.decode p opcode args with
  | .error fault => (s.record opcode).fault fault
  | .ok op => (s.record opcode).advance opcode.cost (perform host op s.store)

/-- Executes the current line. -/
def step (p : Program) (host : Host σ) (s : State σ) : Step σ :=
  match p.line? s.pc with
  | none => .halt ⟨s, .ok .endOfProgram⟩
  | some (.label _) => .next { s with pc := s.pc + 1 }
  | some (.instruction i) =>
    match i.opcode? with
    | none => s.fault (.unknownOpcode i.mnemonic)
    | some opcode =>
      if opcode.cost ≤ s.gas then execute p host opcode i.args s
      else s.fault (.outOfGas opcode opcode.cost s.gas)

end MeteredLedger.Machine
