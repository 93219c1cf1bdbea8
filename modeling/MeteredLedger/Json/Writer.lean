/-!
# Writing JSON

The compact form: no space between tokens, members in the order given, and in
strings only what has to be escaped. Quotation mark, backslash and the controls
that have a short escape use it, the other controls are written by number, and
every other character stands for itself.
-/

namespace MeteredLedger.Json

/-- A character inside a string. -/
def escape (c : Char) : List Char :=
  if c = '"' then ['\\', '"']
  else if c = '\\' then ['\\', '\\']
  else if c = '\x08' then ['\\', 'b']
  else if c = '\x0c' then ['\\', 'f']
  else if c = '\n' then ['\\', 'n']
  else if c = '\r' then ['\\', 'r']
  else if c = '\t' then ['\\', 't']
  else if c.toNat < 0x20 then
    ['\\', 'u', '0', '0', Nat.digitChar (c.toNat / 16), Nat.digitChar (c.toNat % 16)]
  else [c]

/-- A string. -/
def string (s : String) : String :=
  String.ofList ('"' :: s.toList.flatMap escape ++ ['"'])

/-- A string, or null. -/
def optionalString : Option String → String
  | some s => string s
  | none => "null"

/-- Values between brackets. -/
def array (values : List String) : String :=
  "[" ++ String.intercalate "," values ++ "]"

/-- Members between braces. -/
def object (members : List (String × String)) : String :=
  "\x7b" ++ String.intercalate "," (members.map fun (key, value) => string key ++ ":" ++ value) ++
    "\x7d"

end MeteredLedger.Json
