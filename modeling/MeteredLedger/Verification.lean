import MeteredLedger.Program
import MeteredLedger.Text.Decimal

/-!
# Verification

A program is verified before it runs, or not at all: the machine does not ask
for it. A finding is about the whole program or about the instruction at one
index, and the verifier collects every finding; it does not stop at the first.

Each instruction is checked on its own: its mnemonic is known, it has as many
tokens as its operation reads, and a token has the form the operation needs.
That jumps name existing labels is checked against the label table. Dead code is
looked for only in a program that is otherwise sound, because an unknown
operation or a missing label leaves the flow of control open.
-/

namespace MeteredLedger

namespace Verification

/-! ## Findings -/

/-- What is wrong with one instruction. -/
inductive Flaw where
  | unknownOpcode (mnemonic : String)
  | missingArgument (opcode : Opcode)
  | extraArguments (opcode : Opcode) (found : Nat)
  /-- The literal to push is not a signed word. -/
  | invalidLiteral (token : String)
  /-- The address of a memory cell is not an unsigned word. -/
  | invalidAddress (opcode : Opcode) (token : String)
  | unresolvedLabel (label : String)
  | unreachable
  deriving DecidableEq, Repr

/-- A reason not to run a program. -/
inductive Finding where
  | tooLarge (size : Nat)
  | flawed (index : Nat) (flaw : Flaw)
  deriving DecidableEq, Repr

def maxSize : Nat := 65536

/-- The report of a flaw in the instruction at `index`. -/
def Flaw.message (index : Nat) : Flaw → String
  | unknownOpcode mnemonic => s!"unknown opcode '{mnemonic}' at instruction {index}"
  | missingArgument opcode => s!"{opcode.mnemonic} expects an argument at instruction {index}"
  | extraArguments opcode found =>
    s!"{opcode.mnemonic} takes {opcode.arity} argument(s), found {found} at instruction {index}"
  | invalidLiteral token => s!"invalid integer literal '{token}' at instruction {index}"
  | invalidAddress opcode token =>
    s!"invalid memory address '{token}' for {opcode.mnemonic} at instruction {index}"
  | unresolvedLabel label => s!"unresolved label '{label}' at instruction {index}"
  | unreachable => s!"unreachable instruction at {index}"

namespace Finding

/-- The index a finding is about, if it is about one. -/
def index? : Finding → Option Nat
  | tooLarge _ => none
  | flawed index _ => some index

def message : Finding → String
  | tooLarge size => s!"program too large: {size} lines (max {maxSize})"
  | flawed index flaw => flaw.message index

end Finding

/-! ## Single instructions -/

/-- What is wrong with the form of the first token of an instruction. -/
def tokenFlaws (opcode : Opcode) (token : String) : List Flaw :=
  match opcode with
  | .push => if (Decimal.readInt64? token).isNone then [.invalidLiteral token] else []
  | .load | .store =>
    if (Decimal.readUInt64? token).isNone then [.invalidAddress opcode token] else []
  | _ => []

/-- What is wrong with an instruction, seen by itself. An instruction without a
known mnemonic, or without its argument, has no further flaw. -/
def instructionFlaws (i : Instruction) : List Flaw :=
  match i.opcode? with
  | none => [.unknownOpcode i.mnemonic]
  | some opcode =>
    if i.args.length < opcode.arity then [.missingArgument opcode]
    else
      (if opcode.arity < i.args.length then [.extraArguments opcode i.args.length] else []) ++
        i.args.head?.toList.flatMap (tokenFlaws opcode)

/-- The label a jump names, if the program does not declare it. -/
def unresolved? (p : Program) (i : Instruction) : Option String :=
  if i.opcode?.any Opcode.isJump then
    i.args.head?.filter fun label => (p.labelIndex? label).isNone
  else none

/-- Whether the program has too many lines. -/
def checkSize (p : Program) : List Finding :=
  if maxSize < p.size then [.tooLarge p.size] else []

/-- The flaws of the instructions of a program, each seen by itself. -/
def checkInstructions (p : Program) : List Finding :=
  p.instructions.flatMap fun (index, i) => (instructionFlaws i).map (.flawed index)

/-- The jumps of a program that name no label of it. -/
def checkLabels (p : Program) : List Finding :=
  p.instructions.filterMap fun (index, i) =>
    (unresolved? p i).map fun label => .flawed index (.unresolvedLabel label)

/-!
## Reachable lines

Control starts at the first line. The search keeps a mark for every line and a
list of lines still to be visited; visiting a line that is already marked only
shortens the list, and visiting any other line uses up one of the finitely many
missing marks, so the search ends.
-/

/-- The indices control may move to from line `i`. An operation that is not in
the instruction set fails, so nothing follows it. -/
def successors (p : Program) (i : Nat) : List Nat :=
  match p.line? i with
  | none => []
  | some (.label _) => [i + 1]
  | some (.instruction instr) =>
    let target := (instr.args.head?.bind p.labelIndex?).toList
    match instr.opcode? with
    | none | some .ret => []
    | some .jump => target
    | some .jz | some .jnz => (i + 1) :: target
    | some _ => [i + 1]

/-- The lines found so far: one mark for each line of the program. -/
abbrev Marks (n : Nat) := Vector Bool n

/-- Marking a line that was not marked leaves fewer lines without a mark. -/
theorem count_false_set_lt {n : Nat} (marks : Marks n) (i : Nat) (h : i < n)
    (hi : marks[i] = false) : (marks.set i true).count false < marks.count false := by
  have hpos : 0 < marks.count false := Vector.count_pos_iff.mpr (hi ▸ Vector.getElem_mem h)
  rw [Vector.count_set, hi]
  change marks.count false - 1 + 0 < marks.count false
  omega

/-- Marks every line that can be reached from a pending line. -/
def explore (p : Program) (marks : Marks p.size) (pending : List Nat) : Marks p.size :=
  match pending with
  | [] => marks
  | i :: rest =>
    if h : i < p.size then
      if hi : marks[i] = false then explore p (marks.set i true) (successors p i ++ rest)
      else explore p marks rest
    else explore p marks rest
termination_by (marks.count false, pending.length)
decreasing_by
  · exact Prod.Lex.left _ _ (count_false_set_lt marks i h hi)
  · exact Prod.Lex.right _ (by simp)
  · exact Prod.Lex.right _ (by simp)

section

variable {p : Program} {marks : Marks p.size} {i : Nat} {rest : List Nat}

@[simp] theorem explore_nil : explore p marks [] = marks := by
  rw [explore]

/-- A line without a mark is marked, and its successors are visited next. -/
theorem explore_cons_of_unmarked (h : i < p.size) (hi : marks[i] = false) :
    explore p marks (i :: rest) = explore p (marks.set i true) (successors p i ++ rest) := by
  rw [explore, dif_pos h, dif_pos hi]

/-- A line that has its mark, or that is not there, is dropped. -/
theorem explore_cons_of_done (done : ∀ h : i < p.size, marks[i] = true) :
    explore p marks (i :: rest) = explore p marks rest := by
  rw [explore]
  split
  · next h => rw [dif_neg (by simp [done h])]
  · rfl

end

/-- The marks of the lines that control can reach from the first line. -/
def reachable (p : Program) : Marks p.size :=
  explore p (Vector.replicate p.size false) [0]

/-- Whether control can reach a line. -/
def isReachable (p : Program) (marks : Marks p.size) (i : Nat) : Bool :=
  if h : i < p.size then marks[i] else false

/-- The instructions that control cannot reach. A marker that nothing reaches is no finding. -/
def checkReachability (p : Program) : List Finding :=
  let marks := reachable p
  p.instructions.filterMap fun (index, _) =>
    if isReachable p marks index then none else some (.flawed index .unreachable)

end Verification

/-- Every reason not to run a program; none means that it is verified. -/
def Program.verify (p : Program) : List Verification.Finding :=
  let findings := Verification.checkSize p ++ Verification.checkInstructions p ++
    Verification.checkLabels p
  if findings.isEmpty then Verification.checkReachability p else findings

end MeteredLedger
