import MeteredLedger.Opcode
import MeteredLedger.Value

/-!
# Faults

A fault ends an evaluation at the instruction that caused it. The fault itself
does not say where it happened; an `Error` adds the index of the instruction.
-/

namespace MeteredLedger.Machine

/-- Why an instruction could not be executed. -/
inductive Fault where
  | unknownOpcode (mnemonic : String)
  | stackUnderflow
  | unknownLabel (label : String)
  | outOfGas (opcode : Opcode) (required remaining : Nat)
  | missingArgument (opcode : Opcode)
  /-- The argument does not have the form the operation needs. -/
  | invalidArgument (opcode : Opcode) (token : String)
  | typeMismatch (opcode : Opcode) (found : Value.Kind)
  | divisionByZero
  /-- The host knows no such block. -/
  | invalidBlock (reason : String)
  deriving DecidableEq, Repr

/-- A fault at the instruction with a given index. -/
structure Error where
  index : Nat
  fault : Fault
  deriving DecidableEq, Repr

namespace Error

/-- Whether the budget ended the evaluation, rather than the program. -/
def isOutOfGas (e : Error) : Bool :=
  match e.fault with
  | .outOfGas .. => true
  | _ => false

def message (e : Error) : String :=
  let index := e.index
  match e.fault with
  | .unknownOpcode mnemonic => s!"unknown opcode '{mnemonic}' at instruction {index}"
  | .stackUnderflow => s!"stack underflow at instruction {index}"
  | .unknownLabel label => s!"unknown label '{label}' at instruction {index}"
  | .outOfGas opcode required remaining =>
    s!"out of gas at instruction {index}: {opcode.mnemonic} costs {required}, {remaining} remaining"
  | .missingArgument opcode => s!"{opcode.mnemonic} expects an argument at instruction {index}"
  | .invalidArgument opcode token =>
    s!"invalid argument '{token}' for {opcode.mnemonic} at instruction {index}"
  | .typeMismatch opcode found =>
    s!"type mismatch at instruction {index}: {opcode.mnemonic} cannot take {found.name}"
  | .divisionByZero => s!"division by zero at instruction {index}"
  | .invalidBlock reason => s!"invalid block reference at instruction {index}: {reason}"

end Error

end MeteredLedger.Machine
