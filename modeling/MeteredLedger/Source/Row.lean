import MeteredLedger.Text.Split

/-!
# Rows of source text

A row is what one line of source text says. A comment starts at the first
number sign and runs to the end of the line; what stands before it is trimmed of
blanks. A name with a colon after it declares a label, a name in angle brackets
holds a place for an argument, and anything else is cut into words, which form
an instruction.
-/

namespace MeteredLedger.Source

/-- Whether a text may name a label or an operation: letters, digits and
underscores of ASCII, not starting with a digit. -/
def isIdentifier : List Char → Bool
  | [] => false
  | c :: cs => (c.isAlpha || c == '_') && cs.all fun d => d.isAlphanum || d == '_'

/-- What is left of a line without its comment and the blanks around the rest. -/
def content (line : List Char) : List Char :=
  Text.trim (line.takeWhile (· != '#'))

/-- The name that the text `name:` declares. -/
def labelName? (text : List Char) : Option (List Char) :=
  if text.getLast? = some ':' && isIdentifier text.dropLast then some text.dropLast else none

/-- The name inside the text `<name>`. It may hold anything but blanks and angle
brackets. -/
def placeholderName? : List Char → Option (List Char)
  | '<' :: body =>
    let name := body.dropLast
    if body.getLast? = some '>' && !name.isEmpty &&
        name.all (fun c => !Text.isBlank c && c != '<' && c != '>')
    then some name else none
  | _ => none

/-- What one line of source text says. -/
inductive Row where
  /-- Nothing but blanks and a comment. -/
  | blank
  | label (name : String)
  | placeholder (name : String)
  | words (ws : List (List Char))
  deriving DecidableEq, Repr

namespace Row

/-- The row of one line of source text. -/
def ofLine (line : List Char) : Row :=
  let text := content line
  if text.isEmpty then .blank
  else
    match labelName? text with
    | some name => .label (String.ofList name)
    | none =>
      match placeholderName? text with
      | some name => .placeholder (String.ofList name)
      | none => .words (Text.words text)

example : ofLine "loop:  # again".toList = .label "loop" := by decide

example : ofLine " <to> ".toList = .placeholder "to" := by decide

end Row

end MeteredLedger.Source
