import MeteredLedger.Cli.Interaction
import MeteredLedger.Cli.Options
import MeteredLedger.Cli.Path
import MeteredLedger.Ledger.Client
import MeteredLedger.Machine.Run
import MeteredLedger.Program
import MeteredLedger.Source.Load
import MeteredLedger.Verification

/-!
# Commands

Five commands work on contracts: `bind` stages a template, `check` verifies a
program, `run` evaluates it, `fmt` prints it in canonical form, and `block`
prints a block to call contracts with. The exit code tells failures apart: one
for what cannot be read, two for what does not verify, three for an evaluation
that fails and four for one that runs out of gas.
-/

namespace MeteredLedger.Cli

/-- The lines of the summary of the commands. -/
def usageLines : List String := [
  "Usage: gleam [-v] <command> [args]",
  "",
  "Commands:",
  "  bind <template> --arg k=v... [-o out.gleam]   Bind placeholders, write staged bytecode",
  "  check <file>                                  Load and verify bytecode",
  "  run <file> [--arg k=v]... [--gas N] [--no-verify]",
  "                                                Evaluate and print the returned value",
  "  fmt <file>                                    Print canonical bytecode",
  "  block [--timestamp MS]                        Print a serialized genesis block",
  "",
  "Set GLEAM_LOG (e.g. GLEAM_LOG=debug) to control logging; -v implies debug."]

def usage : String :=
  String.join (usageLines.map (· ++ "\n"))

inductive Command where
  | bind
  | check
  | run
  | fmt
  | block
  | help
  deriving DecidableEq, Repr

namespace Command

def ofWord? : String → Option Command
  | "bind" => some bind
  | "check" => some check
  | "run" => some run
  | "fmt" => some fmt
  | "block" => some block
  | "help" | "--help" | "-h" => some help
  | _ => none

/-- A report of what is wrong. -/
def errorLine (report : String) : String :=
  s!"error: {report}\n"

/-- Goes on with the input of a command, which it cannot do without. -/
def withInput (o : Options) (missing synopsis : String) (next : String → Interaction) :
    Interaction :=
  match o.input with
  | none => .fail 1 (errorLine missing ++ s!"Usage: gleam {synopsis}\n")
  | some input => next input

/-- Goes on with the text of a file. -/
def withText (path : String) (next : String → Interaction) : Interaction :=
  .read path (.ofExcept (fun e => errorLine s!"cannot read '{path}': {e.message}") next)

/-- Goes on with the program in a file, its placeholders bound. -/
def withProgram (path : String) (bindings : Bindings) (next : Program → Interaction) :
    Interaction :=
  withText path fun text =>
    .ofExcept (fun e : Source.Error => errorLine s!"{path}: {e.message}") next
      (Source.compile text bindings)

/-- Goes on if a program verifies. -/
def whenVerified (p : Program) (next : Interaction) : Interaction :=
  match p.verify with
  | [] => next
  | findings => .fail 2 (String.join (findings.map fun f => errorLine f.message))

/-- Where a bound template is written if the options do not say. -/
def defaultOutput (input : String) : String :=
  .ofList (Path.withExtension input.toList "gleam".toList)

/-- Binds the placeholders of a template and writes the program. -/
def bindFile (o : Options) : Interaction :=
  withInput o "bind requires a template file" "bind <template> --arg name=value... [-o output.gleam]"
    fun input =>
      let output := o.output.getD (defaultOutput input)
      if output = input then
        .fail 1 (errorLine s!"output would overwrite the template '{input}'; pass -o")
      else
        withText input fun template =>
          .ofExcept (fun e : Source.Error => errorLine e.message)
            (fun p => .write output p.render
              (.ofExcept (fun e => errorLine s!"cannot write '{output}': {e.message}")
                fun _ => .done ⟨0, "", s!"bound {p.size} lines -> {output}\n"⟩))
            (Source.compile template o.bindings)

def checkFile (o : Options) : Interaction :=
  withInput o "check requires an input file" "check <file>" fun input =>
    withProgram input o.bindings fun p =>
      whenVerified p
        (.succeed s!"OK: {input} ({p.size} lines, {p.labels.size} labels)\n")

/-- The host of an evaluation. It reads blocks from their text, and what is printed
it writes to the error output, one value a line. -/
def host [Ledger.Block.Wording] : Machine.Host String where
  timestamp _ text := Ledger.blockTimestamp text
  print stderr v := stderr ++ v.display ++ "\n"

/-- The reply to a finished evaluation: the returned value, after what was printed. -/
def evaluationReply (h : Machine.Halt String) : Reply :=
  let printed := h.state.store.host
  match h.result with
  | .ok outcome => ⟨0, outcome.value.display ++ "\n", printed⟩
  | .error e =>
    ⟨if e.isOutOfGas then 4 else 3, "", printed ++ s!"runtime error: {e.message}\n"⟩

def gasLimit (o : Options) : Nat :=
  (o.gas.map UInt64.toNat).getD Machine.defaultGas

def runFile [Ledger.Block.Wording] (o : Options) : Interaction :=
  withInput o "run requires an input file"
    "run <file> [--arg name=value]... [--gas N] [--no-verify]" fun input =>
      withProgram input o.bindings fun p =>
        let evaluation : Interaction :=
          .done (evaluationReply (Machine.evaluate p host (gasLimit o) ""))
        if o.verified then whenVerified p evaluation else evaluation

def formatFile (o : Options) : Interaction :=
  withInput o "fmt requires an input file" "fmt <file>" fun input =>
    withProgram input o.bindings fun p => .succeed p.render

/-- Prints a first block. It gets the time of the clock if the options give
none; there is no such time if the clock stands before the epoch. -/
def printBlock (now : Option Int64) (o : Options) : Interaction :=
  match o.timestamp.or now with
  | none => .fail 1 (errorLine "system clock is before the Unix epoch")
  | some timestamp => .succeed ((Ledger.Block.genesis timestamp).serialize ++ "\n")

/-- Carries out a command with the words that follow it. -/
def interaction [Ledger.Block.Wording] (now : Option Int64) (command : Command)
    (words : List String) : Interaction :=
  let withOptions (next : Options → Interaction) : Interaction :=
    .ofExcept (fun e : Options.Error => errorLine e.message) next (Options.ofWords words)
  match command with
  | bind => withOptions bindFile
  | check => withOptions checkFile
  | run => withOptions runFile
  | fmt => withOptions formatFile
  | block => withOptions (printBlock now)
  | help => .fail 0 usage

end Command

/-- Whether a word asks for more logging, and nothing else. -/
def asksForLog (word : String) : Bool :=
  word == "-v" || word == "--verbose"

/-- Carries out a command line. `now` is the time of the clock in milliseconds. -/
def interaction [Ledger.Block.Wording] (now : Option Int64) (words : List String) : Interaction :=
  match words.filter (!asksForLog ·) with
  | [] => .fail 1 usage
  | word :: rest =>
    match Command.ofWord? word with
    | none => .fail 1 (Command.errorLine s!"unknown command '{word}'" ++ "\n" ++ usage)
    | some command => command.interaction now rest

end MeteredLedger.Cli
