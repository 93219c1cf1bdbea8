/-!
# Decimal numbers

Numbers are written in decimal without leading zeros. Reading is more liberal:
leading zeros and a single plus sign are accepted, a minus sign only where the
number may be negative, and a number outside the word it is read into is
refused. A digit is one of the ten ASCII digits.
-/

namespace MeteredLedger.Decimal

/-- The number written by a non-empty run of digits. -/
def magnitude? (cs : List Char) : Option Nat :=
  if !cs.isEmpty && cs.all Char.isDigit then some (Nat.ofDigitChars 10 cs 0) else none

/-- A number with an optional plus sign. -/
def unsigned? : List Char → Option Nat
  | '+' :: cs => magnitude? cs
  | cs => magnitude? cs

/-- A number with an optional sign. -/
def signed? : List Char → Option Int
  | '-' :: cs => (magnitude? cs).map fun n => -(n : Int)
  | cs => (unsigned? cs).map Int.ofNat

/-- The word with value `n`, if there is one. -/
def natToUInt64? (n : Nat) : Option UInt64 :=
  if n < UInt64.size then some (UInt64.ofNat n) else none

/-- The word with value `n`, if there is one. -/
def intToInt64? (n : Int) : Option Int64 :=
  if Int64.minValue.toInt ≤ n ∧ n ≤ Int64.maxValue.toInt then some (Int64.ofInt n) else none

def readUInt64? (text : String) : Option UInt64 :=
  (unsigned? text.toList).bind natToUInt64?

def readInt64? (text : String) : Option Int64 :=
  (signed? text.toList).bind intToInt64?

/-- The canonical decimal form of a signed word. -/
def ofInt64 (n : Int64) : String :=
  n.toInt.repr

/-- The canonical decimal form of an unsigned word. -/
def ofUInt64 (n : UInt64) : String :=
  n.toNat.repr

end MeteredLedger.Decimal
