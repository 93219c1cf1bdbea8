/-!
# Hexadecimal text

Bytes are written as pairs of lower-case digits and read in either case. A text
with an odd number of bytes is refused before its characters are looked at;
after that the first character that is no digit is reported, by the first byte
of its encoding and by its place. Every character before it takes one byte, so
its place among the characters is its place among the bytes.

A report shows the byte as a character between single quotes. Quotes,
backslashes and the characters that would not be seen are written as escapes.
-/

namespace MeteredLedger

/-! ## Quoted characters -/

namespace Text

/-- Whether a character up to U+00FF leaves no mark of its own: the controls,
the no-break space and the soft hyphen. -/
def isUnseen (c : Char) : Bool :=
  c.toNat < 0x20 || (0x7F ≤ c.toNat && c.toNat ≤ 0xA0) || c.toNat == 0xAD

/-- What stands for a character between single quotes. -/
def escapeQuoted (c : Char) : String :=
  if c = '\x00' then "\\0"
  else if c = '\t' then "\\t"
  else if c = '\n' then "\\n"
  else if c = '\r' then "\\r"
  else if c = '\'' then "\\'"
  else if c = '\\' then "\\\\"
  else if isUnseen c then "\\u\x7b" ++ String.ofList (Nat.toDigits 16 c.toNat) ++ "\x7d"
  else c.toString

/-- A character between single quotes. -/
def quoted (c : Char) : String :=
  "'" ++ escapeQuoted c ++ "'"

example : quoted '\x7f' = "'\\u\x7b7f\x7d'" := by decide

end Text

/-! ## Digits -/

namespace Hex

/-- Why a text does not denote bytes. -/
inductive Error where
  | oddLength
  /-- The byte at a position starts no hexadecimal digit. -/
  | invalidDigit (byte : UInt8) (position : Nat)
  deriving DecidableEq, Repr

/-- The report of an error. The byte is shown as the character with its number. -/
def Error.message : Error → String
  | oddLength => "Odd number of digits"
  | invalidDigit byte position =>
    s!"Invalid character {Text.quoted (Char.ofNat byte.toNat)} at position {position}"

def digit? (c : Char) : Option Nat :=
  if '0' ≤ c ∧ c ≤ '9' then some (c.toNat - '0'.toNat)
  else if 'a' ≤ c ∧ c ≤ 'f' then some (c.toNat - 'a'.toNat + 10)
  else if 'A' ≤ c ∧ c ≤ 'F' then some (c.toNat - 'A'.toNat + 10)
  else none

/-- The two digits of a byte, the high one first. -/
def pair (b : UInt8) : List Char :=
  [Nat.digitChar (b.toNat / 16), Nat.digitChar (b.toNat % 16)]

/-- The text of a sequence of bytes. -/
def encode (bytes : List UInt8) : String :=
  String.ofList (bytes.flatMap pair)

/-- The bytes whose digits are given in pairs, put in front of `done` reversed. -/
def joinPairs (done : List UInt8) : List Nat → List UInt8
  | high :: low :: rest => joinPairs (UInt8.ofNat (16 * high + low) :: done) rest
  | _ => done.reverse

/-- The bytes that a text denotes. -/
def decode (text : List Char) : Except Error (List UInt8) :=
  if (String.ofList text).utf8ByteSize % 2 = 1 then .error .oddLength
  else
    match text.findIdx? fun c => (digit? c).isNone with
    | some i =>
      .error (.invalidDigit ((String.utf8EncodeChar (text.getD i '0')).headD 0) i)
    | none => .ok (joinPairs [] (text.filterMap digit?))

end Hex

end MeteredLedger
