import MeteredLedger.Bindings
import MeteredLedger.Text.Decimal

/-!
# Options

All commands share one set of options, and each uses those it needs. Options
are read in order; the first one that cannot be read is reported. Of an option
given twice the later one counts, but the first input is the one that is used.
-/

namespace MeteredLedger.Cli

/-- The options that take a value. -/
inductive Flag where
  /-- Binds a placeholder. -/
  | binding
  | output
  | gas
  | timestamp
  deriving DecidableEq, Repr

namespace Flag

def word : Flag → String
  | binding => "--arg"
  | output => "-o"
  | gas => "--gas"
  | timestamp => "--timestamp"

/-- The flag that a word is, if it is one. -/
def ofWord? (text : String) : Option Flag :=
  [binding, output, gas, timestamp].find? (·.word == text)

end Flag

/-- What a command is asked to do. -/
structure Options where
  /-- The first word that is no option. -/
  input : Option String := none
  bindings : Bindings := ∅
  output : Option String := none
  gas : Option UInt64 := none
  timestamp : Option Int64 := none
  /-- Whether a program is verified before it is run. -/
  verified : Bool := true

namespace Options

/-- Why the options of a command cannot be read. -/
inductive Error where
  | missingValue (flag : Flag)
  /-- A binding has no equals sign. -/
  | notBinding (text : String)
  | notNumber (flag : Flag) (text : String)
  | unknownFlag (text : String)
  deriving DecidableEq, Repr

def Error.message : Error → String
  | missingValue flag => s!"{flag.word} requires a value"
  | notBinding text => s!"{Flag.binding.word} expects name=value, got '{text}'"
  | notNumber flag text => s!"{flag.word} expects a number, got '{text}'"
  | unknownFlag text => s!"unknown flag '{text}'"

/-- The parts of a text before and after its first equals sign. -/
def splitBinding? (text : String) : Option (String × String) :=
  match text.toList.dropWhile (· != '=') with
  | [] => none
  | _ :: value => some (.ofList (text.toList.takeWhile (· != '=')), .ofList value)

/-- Takes a flag with its value. -/
def set (o : Options) (flag : Flag) (value : String) : Except Error Options :=
  match flag with
  | .binding =>
    match splitBinding? value with
    | none => .error (.notBinding value)
    | some (name, bound) => .ok { o with bindings := o.bindings.insert name bound }
  | .output => .ok { o with output := some value }
  | .gas =>
    match Decimal.readUInt64? value with
    | none => .error (.notNumber .gas value)
    | some n => .ok { o with gas := some n }
  | .timestamp =>
    match Decimal.readInt64? value with
    | none => .error (.notNumber .timestamp value)
    | some n => .ok { o with timestamp := some n }

/-- Takes a word that is no flag with a value. -/
def take (o : Options) (word : String) : Except Error Options :=
  if word = "--no-verify" then .ok { o with verified := false }
  else if "--".toList.isPrefixOf word.toList then .error (.unknownFlag word)
  else .ok { o with input := o.input.or (some word) }

/-- Reads the words that follow a command into options read so far. -/
def extend (o : Options) : List String → Except Error Options
  | [] => .ok o
  | [word] =>
    match Flag.ofWord? word with
    | some flag => .error (.missingValue flag)
    | none => o.take word
  | word :: value :: rest =>
    match Flag.ofWord? word with
    | some flag => o.set flag value >>= fun o => o.extend rest
    | none => o.take word >>= fun o => o.extend (value :: rest)

/-- Reads the words that follow a command. -/
def ofWords (words : List String) : Except Error Options :=
  extend {} words

end Options

end MeteredLedger.Cli
