/-!
# Cutting text

Text is cut at every character of a class. Lines are cut at line feeds, where a
single carriage return before the line feed belongs to the ending; text after the
last line feed is a line as it stands, its carriage returns included, unless it
is empty. Words are cut at blanks, which are the characters with the Unicode
property `White_Space`. Source text is trimmed of blanks too, and a bound value
may not hold one.

Lines and words are both read from `splitWhere`, so their laws come from its two
equations.
-/

namespace MeteredLedger.Text

/-- The pieces of a text between the characters satisfying `p`. There is always
one piece more than there are such characters. -/
def splitWhere (p : Char → Bool) (cs : List Char) : List (List Char) :=
  cs.foldr (fun c pieces => if p c then [] :: pieces else pieces.modifyHead (c :: ·)) [[]]

@[simp] theorem splitWhere_nil (p : Char → Bool) : splitWhere p [] = [[]] := rfl

theorem splitWhere_cons_of_pos {p : Char → Bool} {c : Char} (h : p c = true) (cs : List Char) :
    splitWhere p (c :: cs) = [] :: splitWhere p cs := by
  simp [splitWhere, h]

theorem splitWhere_cons_of_neg {p : Char → Bool} {c : Char} (h : p c = false) (cs : List Char) :
    splitWhere p (c :: cs) = (splitWhere p cs).modifyHead (c :: ·) := by
  simp [splitWhere, h]

/-- Splitting never loses the text altogether: some piece remains, if an empty one. -/
theorem splitWhere_ne_nil (p : Char → Bool) (cs : List Char) : splitWhere p cs ≠ [] := by
  induction cs with
  | nil => simp
  | cons c cs ih =>
    cases h : p c with
    | true => simp [splitWhere_cons_of_pos h]
    | false =>
      rw [splitWhere_cons_of_neg h]
      cases hs : splitWhere p cs with
      | nil => exact absurd hs ih
      | cons piece pieces => simp

/-! ## Lines -/

/-- A line without the carriage return that stands before its line feed. -/
def dropReturn (cs : List Char) : List Char :=
  if cs.getLast? = some '\r' then cs.dropLast else cs

/-- The lines of a text, without their endings. -/
def lines (cs : List Char) : List (List Char) :=
  let pieces := splitWhere (· == '\n') cs
  pieces.dropLast.map dropReturn ++ (pieces.getLast?.toList.filter (! ·.isEmpty))

example : lines "a\r\n\nb\r".toList = [['a'], [], ['b', '\r']] := by decide

example : lines "a\n".toList = [['a']] := by decide

/-! ## Blanks and words -/

/-- The inclusive code point ranges of the Unicode property `White_Space`. -/
def blankRanges : List (Nat × Nat) :=
  [(0x0009, 0x000D), (0x0020, 0x0020), (0x0085, 0x0085), (0x00A0, 0x00A0), (0x1680, 0x1680),
    (0x2000, 0x200A), (0x2028, 0x2029), (0x202F, 0x202F), (0x205F, 0x205F), (0x3000, 0x3000)]

/-- Whether a character lies in one of the ranges of `blankRanges`. -/
def isBlank (c : Char) : Bool :=
  blankRanges.any fun (low, high) => low ≤ c.toNat && c.toNat ≤ high

/-- A text without the blanks at its two ends. -/
def trim (cs : List Char) : List Char :=
  ((cs.dropWhile isBlank).reverse.dropWhile isBlank).reverse

/-- The maximal runs of characters that are not blank, in order. -/
def words (cs : List Char) : List (List Char) :=
  (splitWhere isBlank cs).filter (! ·.isEmpty)

example : words "  LOAD \t 7 ".toList = ["LOAD".toList, "7".toList] := by decide

end MeteredLedger.Text
