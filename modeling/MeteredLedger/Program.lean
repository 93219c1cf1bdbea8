import Std.Data.TreeMap
import MeteredLedger.Opcode

/-!
# Programs

A program is a sequence of lines, each a label marker or an instruction. An
instruction keeps its words as they were written: whether its mnemonic and its
arguments mean anything is found out when it is verified or executed.

Labels are unique. `Program.ofLines` is the only way to build a program, and it
refuses a label that was declared before, naming both places.
-/

namespace MeteredLedger

/-- A mnemonic with its argument tokens, as written. -/
structure Instruction where
  mnemonic : String
  args : List String
  deriving DecidableEq, Repr

namespace Instruction

/-- The operation the mnemonic names, if it is in the instruction set. -/
def opcode? (i : Instruction) : Option Opcode :=
  Opcode.ofMnemonic? i.mnemonic

end Instruction

/-- One line of a program. -/
inductive Line where
  /-- A marker that jumps refer to by name. -/
  | label (name : String)
  | instruction (i : Instruction)
  deriving DecidableEq, Repr

def Line.text : Line → String
  | .label name => name ++ ":"
  | .instruction i => i.args.foldl (fun text arg => text ++ " " ++ arg) i.mnemonic

/-- A label that is declared a second time. -/
structure DuplicateLabel where
  label : String
  /-- Index of the first declaration. -/
  first : Nat
  /-- Index of the declaration that repeats it. -/
  index : Nat
  deriving DecidableEq, Repr

def DuplicateLabel.message (e : DuplicateLabel) : String :=
  s!"duplicate label '{e.label}' at index {e.index} (first defined at index {e.first})"

/-- The index of each label, ordered by name. -/
abbrev LabelTable := Std.TreeMap String Nat

namespace LabelTable

/-- Enters the labels of the remaining lines, the first of which has index `i`. -/
def extend (table : LabelTable) (i : Nat) : List Line → Except DuplicateLabel LabelTable
  | [] => .ok table
  | .instruction _ :: rest => extend table (i + 1) rest
  | .label name :: rest =>
    match table[name]? with
    | some first => .error ⟨name, first, i⟩
    | none => extend (table.insert name i) (i + 1) rest

/-- The labels declared by a sequence of lines. -/
def ofLines (lines : Array Line) : Except DuplicateLabel LabelTable :=
  extend ∅ 0 lines.toList

end LabelTable

/-- A sequence of lines with unique labels, kept together with its label table. -/
structure Program where
  lines : Array Line
  labels : LabelTable
  labels_eq : LabelTable.ofLines lines = .ok labels

namespace Program

/-- The lines determine the program, since they determine its label table. -/
theorem eq_of_lines_eq {p q : Program} (h : p.lines = q.lines) : p = q := by
  obtain ⟨lines, labels, hp⟩ := p
  obtain ⟨lines', labels', hq⟩ := q
  obtain rfl : lines = lines' := h
  obtain rfl : labels = labels' := by simpa [hp] using hq
  rfl

instance : DecidableEq Program := fun p q =>
  decidable_of_iff (p.lines = q.lines) ⟨eq_of_lines_eq, fun h => h ▸ rfl⟩

/-- Builds a program, or names the first label that is declared twice. -/
def ofLines (lines : Array Line) : Except DuplicateLabel Program :=
  match h : LabelTable.ofLines lines with
  | .ok labels => .ok ⟨lines, labels, h⟩
  | .error e => .error e

/-- Number of lines, label markers included. -/
def size (p : Program) : Nat :=
  p.lines.size

/-- The line at an index, if the index is inside the program. -/
def line? (p : Program) (i : Nat) : Option Line :=
  p.lines[i]?

/-- The index of the marker with a given name. -/
def labelIndex? (p : Program) (name : String) : Option Nat :=
  p.labels[name]?

/-- The instructions with their indices, in order. -/
def instructions (p : Program) : List (Nat × Instruction) :=
  p.lines.toList.zipIdx.filterMap fun
    | (.instruction i, index) => some (index, i)
    | (.label _, _) => none

/-- The canonical source text of a program: one line of text for each of its
lines, with single spaces between words and a line feed at the end. -/
def render (p : Program) : String :=
  String.join (p.lines.toList.map fun line => line.text ++ "\n")

end Program

end MeteredLedger
