import MeteredLedger.Text.Decimal
import MeteredLedger.Text.Split

/-!
# Runtime values

The values on the stack and in memory: signed words, text, and the content of a
cell that was never written. A bound token becomes an integer only when it is
the canonical decimal form of one, so every value displays as it was bound.
-/

namespace MeteredLedger

/-- A value the machine works on. -/
inductive Value where
  /-- A signed 64-bit word. -/
  | int (n : Int64)
  /-- Opaque text, such as an address or a serialized block. -/
  | text (s : String)
  /-- The content of an unwritten memory cell. -/
  | undefined
  deriving DecidableEq, Repr, Inhabited

inductive Value.Kind where
  | int
  | text
  | undefined
  deriving DecidableEq, Repr

namespace Value

/-- The word by which messages name a kind. -/
def Kind.name : Kind → String
  | int => "int"
  | text => "text"
  | undefined => "undefined"

def kind : Value → Kind
  | int _ => .int
  | text _ => .text
  | undefined => .undefined

/-- The value a bound token stands for. -/
def ofLiteral (token : String) : Value :=
  match Decimal.readInt64? token with
  | some n => if Decimal.ofInt64 n = token then int n else text token
  | none => text token

/-- Truth values are the integers one and zero. -/
def ofBool (b : Bool) : Value :=
  int (if b then 1 else 0)

def asInt? : Value → Option Int64
  | int n => some n
  | _ => none

def asText? : Value → Option String
  | text s => some s
  | _ => none

/-- The integer reading of a value: an integer itself, or trimmed text that reads as one. -/
def coerceInt? : Value → Option Int64
  | int n => some n
  | text s => Decimal.readInt64? (String.ofList (Text.trim s.toList))
  | undefined => none

def isZero : Value → Bool
  | int n => n == 0
  | _ => false

/-- The value as it is printed and as it names an address. -/
def display : Value → String
  | int n => Decimal.ofInt64 n
  | text s => s
  | undefined => "undefined"

end Value

end MeteredLedger
