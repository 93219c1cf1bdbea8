import MeteredLedger.Bindings
import MeteredLedger.Program
import MeteredLedger.Source.Row

/-!
# Loading and binding source text

Loading reads every line before it looks at labels, so a malformed line is
reported in preference to a repeated label, wherever the two stand. Blank lines
leave no trace: the indices of a program count labels and instructions only. An
error names the line of the source text that it is about, counted from one.

Binding replaces each placeholder line by an instruction that pushes the bound
value and copies every other line. A value has to be a single token, since the
bound text is read again and nothing else would come back as one argument.
-/

namespace MeteredLedger.Source

/-! ## Errors -/

/-- What is wrong with a line of source text. -/
inductive Cause where
  /-- The line is no label, no instruction and no placeholder that may stand there. -/
  | malformed (text : String)
  | duplicateLabel (label : String)
  /-- The line holds a place for an argument that is not bound. -/
  | unboundArgument (name : String)
  /-- The argument bound to the placeholder is not a single token. -/
  | unrepresentableArgument (name value : String)
  deriving DecidableEq, Repr

/-- An error in a line of source text. -/
structure Error where
  /-- Number of the line, counted from one. -/
  line : Nat
  cause : Cause
  deriving DecidableEq, Repr

namespace Cause

def message : Cause → String
  | malformed text => s!"malformed line '{text}'"
  | duplicateLabel label => s!"duplicate label '{label}'"
  | unboundArgument name => s!"unbound argument '{name}'"
  | unrepresentableArgument name value =>
    s!"argument '{name}' has unrepresentable value '{value}'"

end Cause

def Error.message (e : Error) : String :=
  s!"line {e.line}: {e.cause.message}"

/-! ## Loading -/

/-- What a placeholder means to a reader of source text. -/
inductive Placeholders where
  /-- It is malformed, as in text that is ready to run. -/
  | refused
  /-- It stands for the instruction that will take its place. -/
  | kept
  deriving DecidableEq, Repr

def pushArgument (value : String) : Line :=
  .instruction ⟨Opcode.pushArg.mnemonic, [value]⟩

/-- The line that a row contributes to a program: none for a blank row. The
outer `none` refuses the row. -/
def Row.line? (placeholders : Placeholders) : Row → Option (Option Line)
  | .blank => some none
  | .label name => some (some (.label name))
  | .placeholder name =>
    match placeholders with
    | .refused => none
    | .kept => some (some (pushArgument s!"<{name}>"))
  | .words (first :: rest) =>
    if isIdentifier first then
      some (some (.instruction ⟨String.ofList first, rest.map String.ofList⟩))
    else none
  | .words [] => none

/-- Reads the line with a given number. -/
def readLine (placeholders : Placeholders) (number : Nat) (text : List Char) :
    Except Error (Option (Nat × Line)) :=
  match (Row.ofLine text).line? placeholders with
  | some line => .ok (line.map fun l => (number, l))
  | none => .error ⟨number, .malformed (String.ofList (Text.trim text))⟩

/-- The lines of a text with their numbers, counted from one. -/
def numberedLines (text : String) : List (Nat × List Char) :=
  (Text.lines text.toList).zipIdx.map fun (line, index) => (index + 1, line)

/-- The lines that a text contributes to a program, each with the number of the
source line it comes from. -/
def readLines (placeholders : Placeholders) (text : String) :
    Except Error (List (Nat × Line)) := do
  let lines ← (numberedLines text).mapM fun (number, line) => readLine placeholders number line
  return lines.filterMap id

/-- Builds a program, blaming a repeated label on its source line. -/
def assemble (lines : List (Nat × Line)) : Except Error Program :=
  match Program.ofLines (lines.map (·.2)).toArray with
  | .ok program => .ok program
  | .error e => .error ⟨(lines.map (·.1)).getD e.index 0, .duplicateLabel e.label⟩

def parse (placeholders : Placeholders) (text : String) : Except Error Program :=
  readLines placeholders text >>= assemble

/-- Loads text that is ready to run. -/
def load (text : String) : Except Error Program :=
  parse .refused text

/-- The program of a template, each placeholder pushing its own text. -/
def loadTemplate (template : String) : Except Error Program :=
  parse .kept template

/-- Accepts the templates that can be loaded once their placeholders are bound. -/
def checkTemplate (template : String) : Except Error Unit := do
  let _ ← loadTemplate template

/-! ## Binding -/

/-- Whether a value survives as one argument of one line of source text. -/
def isToken (value : String) : Bool :=
  !value.isEmpty && value.toList.all fun c => !Text.isBlank c && c != '#'

/-- The text that takes the place of a line. -/
def bindLine (bindings : Bindings) (number : Nat) (text : List Char) :
    Except Error (List Char) :=
  match Row.ofLine text with
  | .placeholder name =>
    match bindings.get? name with
    | none => .error ⟨number, .unboundArgument name⟩
    | some value =>
      if isToken value then .ok (pushArgument value).text.toList
      else .error ⟨number, .unrepresentableArgument name value⟩
  | _ => .ok text

/-- The text of a template with its placeholders replaced. Every line of it
ends with a line feed. -/
def bind (template : String) (bindings : Bindings) : Except Error String := do
  let lines ← (numberedLines template).mapM fun (number, line) => bindLine bindings number line
  return String.ofList (lines.flatMap (· ++ ['\n']))

/-- The program of a template whose placeholders are bound. -/
def compile (template : String) (bindings : Bindings) : Except Error Program :=
  bind template bindings >>= load

end MeteredLedger.Source
