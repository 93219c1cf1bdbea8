import MeteredLedger.Proofs.Text.Split
import MeteredLedger.Source.Row

/-!
# Names and tokens of a line

A line is read as it stands, trimmed of blanks: by the colon at its end, by the
brackets around it, and only then by its words. All of this can be told from its
tokens, which are the words before its comment. What declares a label or holds a
place has no blank in it, so it is a single word; and text with a single word is
trimmed to that word. So `ofLine`, which looks at characters, is the same as
`ofTokens`, which looks at words.

A blank ends a token and belongs to none, unless it stands in the comment, where
nothing matters. What can be changed in a line without changing a token follows
from this.
-/

namespace MeteredLedger

/-! ## Names -/

/-- A letter of ASCII or an underscore. -/
def IsNameStart (c : Char) : Prop :=
  'A' ≤ c ∧ c ≤ 'Z' ∨ 'a' ≤ c ∧ c ≤ 'z' ∨ c = '_'

/-- A letter or digit of ASCII, or an underscore. -/
def IsNameChar (c : Char) : Prop :=
  IsNameStart c ∨ '0' ≤ c ∧ c ≤ '9'

/-- A non-empty run of ASCII letters, digits and underscores that does not start
with a digit. -/
def IsName (s : String) : Prop :=
  ∃ c cs, s.toList = c :: cs ∧ IsNameStart c ∧ ∀ d ∈ cs, IsNameChar d

section

variable {s : String} {c : Char}

theorem isNameStart_iff : IsNameStart c ↔ (c.isAlpha || c == '_') = true := by
  have hupper : c.isUpper = true ↔ 'A' ≤ c ∧ c ≤ 'Z' := decide_eq_true_iff
  have hlower : c.isLower = true ↔ 'a' ≤ c ∧ c ≤ 'z' := by
    change (decide ('a' ≤ c) && decide (c ≤ 'z')) = true ↔ _
    rw [Bool.and_eq_true, decide_eq_true_iff, decide_eq_true_iff]
  have halpha : c.isAlpha = (c.isUpper || c.isLower) := rfl
  simp only [halpha, Bool.or_eq_true, hupper, hlower, beq_iff_eq, or_assoc]
  exact Iff.rfl

theorem isNameChar_iff : IsNameChar c ↔ (c.isAlphanum || c == '_') = true := by
  rw [IsNameChar, isNameStart_iff, Char.isAlphanum, Char.isDigit]
  simp only [Bool.or_eq_true, Bool.and_eq_true, decide_eq_true_eq]
  exact or_right_comm

/-- A name is what the reader of source text takes for an identifier. -/
theorem isName_iff_isIdentifier : IsName s ↔ Source.isIdentifier s.toList = true := by
  cases h : s.toList with
  | nil => simp [IsName, h, Source.isIdentifier]
  | cons c cs =>
    simp only [IsName, h, Source.isIdentifier, Bool.and_eq_true, List.all_eq_true,
      ← isNameStart_iff, ← isNameChar_iff]
    constructor
    · rintro ⟨_, _, ⟨⟩, hstart, hrest⟩
      exact ⟨hstart, hrest⟩
    · rintro ⟨hstart, hrest⟩
      exact ⟨c, cs, rfl, hstart, hrest⟩

instance : DecidablePred IsName := fun _ => decidable_of_iff _ isName_iff_isIdentifier.symm

theorem IsNameChar.toNat_cases (h : IsNameChar c) :
    48 ≤ c.toNat ∧ c.toNat ≤ 57 ∨ 65 ≤ c.toNat ∧ c.toNat ≤ 90 ∨ c.toNat = 95 ∨
      97 ≤ c.toNat ∧ c.toNat ≤ 122 := by
  rcases h with (⟨hlow, hhigh⟩ | ⟨hlow, hhigh⟩ | rfl) | ⟨hlow, hhigh⟩
  · exact .inr (.inl ⟨hlow, hhigh⟩)
  · exact .inr (.inr (.inr ⟨hlow, hhigh⟩))
  · exact .inr (.inr (.inl rfl))
  · exact .inl ⟨hlow, hhigh⟩

theorem IsNameChar.isBlank_eq_false (h : IsNameChar c) : Text.isBlank c = false := by
  have hcases := h.toNat_cases
  simp only [Text.isBlank, Text.blankRanges, List.any_cons, List.any_nil, Bool.or_false,
    Bool.or_eq_false_iff, Bool.and_eq_false_iff, decide_eq_false_iff_not]
  omega

theorem IsName.forall_isNameChar (h : IsName s) : ∀ c ∈ s.toList, IsNameChar c := by
  obtain ⟨c, cs, hs, hc, hcs⟩ := h
  rw [hs, List.forall_mem_cons]
  exact ⟨.inl hc, hcs⟩

end

namespace Source

variable {text name : List Char}

theorem isBlank_of_isIdentifier (h : isIdentifier text = true) :
    ∀ c ∈ text, Text.isBlank c = false := by
  have hname : IsName (String.ofList text) := isName_iff_isIdentifier.mpr (by simpa using h)
  intro c hc
  exact (hname.forall_isNameChar c (by simpa using hc)).isBlank_eq_false

theorem labelName?_eq_some_iff :
    labelName? text = some name ↔ isIdentifier name = true ∧ text = name ++ [':'] := by
  rw [labelName?]
  constructor
  · intro h
    obtain ⟨⟨hlast, hname⟩, rfl⟩ : (text.getLast? = some ':' ∧ isIdentifier text.dropLast = true) ∧
        text.dropLast = name := by simpa using h
    obtain ⟨init, rfl⟩ := List.getLast?_eq_some_iff.mp hlast
    exact ⟨hname, by simp⟩
  · rintro ⟨hname, rfl⟩
    simp [hname]

theorem placeholderName?_eq_some_iff :
    placeholderName? text = some name ↔
      text = '<' :: (name ++ ['>']) ∧ name ≠ [] ∧
        ∀ c ∈ name, Text.isBlank c = false ∧ c ≠ '<' ∧ c ≠ '>' := by
  constructor
  · intro h
    rw [placeholderName?.eq_def] at h
    split at h
    · next body =>
      obtain ⟨⟨⟨hlast, hne⟩, hall⟩, rfl⟩ : ((body.getLast? = some '>' ∧ body.dropLast ≠ []) ∧
          ∀ c ∈ body.dropLast, (Text.isBlank c = false ∧ c ≠ '<') ∧ c ≠ '>') ∧
          body.dropLast = name := by simpa using h
      obtain ⟨init, rfl⟩ := List.getLast?_eq_some_iff.mp hlast
      rw [List.dropLast_concat] at hne hall ⊢
      exact ⟨rfl, hne, fun c hc => and_assoc.mp (hall c hc)⟩
    · simp at h
  · rintro ⟨rfl, hne, hall⟩
    simpa [placeholderName?, hne, and_assoc] using hall

/-- What declares a label is a single word. -/
theorem words_of_labelName? (h : labelName? text = some name) : Text.words text = [text] := by
  obtain ⟨hname, rfl⟩ := labelName?_eq_some_iff.mp h
  apply Text.words_of_forall (by simp)
  intro c hc
  rcases List.mem_append.mp hc with hc | hc
  · exact isBlank_of_isIdentifier hname c hc
  · obtain rfl : c = ':' := by simpa using hc
    decide

/-- What holds a place is a single word. -/
theorem words_of_placeholderName? (h : placeholderName? text = some name) :
    Text.words text = [text] := by
  obtain ⟨rfl, -, hname⟩ := placeholderName?_eq_some_iff.mp h
  apply Text.words_of_forall (by simp)
  intro c hc
  have hcases : c = '<' ∨ c ∈ name ∨ c = '>' := by simpa using hc
  rcases hcases with rfl | hc | rfl
  · decide
  · exact (hname c hc).1
  · decide

end Source

namespace Source.Row

/-! ## Tokens -/

/-- The words of a line, its comment left out. -/
def tokens (line : List Char) : List (List Char) :=
  Text.words (line.takeWhile (· != '#'))

variable {c : Char} {line : List Char}

/-- The comment starts at the first number sign. -/
theorem takeWhile_append_of_mem (h : '#' ∈ line) (after : List Char) :
    (line ++ after).takeWhile (· != '#') = line.takeWhile (· != '#') := by
  rw [List.takeWhile_append, if_neg]
  intro hlength
  rw [← (List.takeWhile_prefix _).eq_of_length hlength] at h
  simpa using List.mem_takeWhile_imp h

theorem takeWhile_append_of_not_mem (h : '#' ∉ line) (after : List Char) :
    (line ++ after).takeWhile (· != '#') = line ++ after.takeWhile (· != '#') := by
  apply List.takeWhile_append_of_pos
  intro d hd
  rw [bne_iff_ne]
  rintro rfl
  exact h hd

theorem tokens_append_of_mem (h : '#' ∈ line) (after : List Char) :
    tokens (line ++ after) = tokens line := by
  rw [tokens, takeWhile_append_of_mem h, tokens]

theorem tokens_append_of_not_mem (h : '#' ∉ line) (after : List Char) :
    tokens (line ++ after) = Text.words (line ++ after.takeWhile (· != '#')) := by
  rw [tokens, takeWhile_append_of_not_mem h]

theorem tokens_of_not_mem (h : '#' ∉ line) : tokens line = Text.words line := by
  simpa using tokens_append_of_not_mem h []

theorem tokens_append_comment (line note : List Char) :
    tokens (line ++ '#' :: note) = tokens line := by
  by_cases h : '#' ∈ line
  · exact tokens_append_of_mem h _
  · simp [tokens_append_of_not_mem h, tokens_of_not_mem h]

/-- A blank ends a token, unless it stands in the comment. -/
theorem tokens_append_cons (hc : Text.isBlank c = true) (line after : List Char) :
    tokens (line ++ c :: after) =
      if '#' ∈ line then tokens line else tokens line ++ tokens after := by
  have hsharp : (c != '#') = true := by
    rw [bne_iff_ne]
    rintro rfl
    exact absurd hc (by decide)
  split
  · next h => exact tokens_append_of_mem h _
  · next h =>
    rw [tokens_append_of_not_mem h, tokens_of_not_mem h]
    simp only [List.takeWhile_cons, hsharp, ↓reduceIte, Text.words_append_cons hc]
    rfl

theorem tokens_cons_blank (hc : Text.isBlank c = true) (line : List Char) :
    tokens (c :: line) = tokens line :=
  tokens_append_cons hc [] line

theorem tokens_append_blank (hc : Text.isBlank c = true) (line : List Char) :
    tokens (line ++ [c]) = tokens line := by
  have hnil : tokens [] = [] := rfl
  rw [tokens_append_cons hc, hnil, List.append_nil, ite_self]

theorem tokens_dropReturn (line : List Char) : tokens (Text.dropReturn line) = tokens line := by
  by_cases hlast : line.getLast? = some '\r'
  · obtain ⟨init, rfl⟩ := List.getLast?_eq_some_iff.mp hlast
    simpa [Text.dropReturn] using (tokens_append_blank (by decide) init).symm
  · rw [Text.dropReturn, if_neg hlast]

theorem tokens_comp_dropReturn : tokens ∘ Text.dropReturn = tokens :=
  funext tokens_dropReturn

/-! ## Rows by tokens -/

theorem words_content (line : List Char) : Text.words (content line) = tokens line :=
  Text.words_trim _

theorem content_eq_nil_iff : content line = [] ↔ tokens line = [] :=
  Text.trim_eq_nil_iff

/-- The row that a sequence of words makes. -/
def ofTokens : List (List Char) → Row
  | [] => .blank
  | [word] =>
    match labelName? word with
    | some name => .label (String.ofList name)
    | none =>
      match placeholderName? word with
      | some name => .placeholder (String.ofList name)
      | none => .words [word]
  | first :: second :: rest => .words (first :: second :: rest)

/-- The row of a line is a matter of its tokens. -/
theorem ofLine_eq_ofTokens (line : List Char) : ofLine line = ofTokens (tokens line) := by
  have hwords := words_content line
  match htokens : tokens line with
  | [] =>
    have hnil := content_eq_nil_iff.mpr htokens
    simp [ofLine, hnil, ofTokens]
  | [word] =>
    obtain rfl : content line = word := Text.trim_of_words_eq_singleton htokens
    have hne : content line ≠ [] := by simp [content_eq_nil_iff, htokens]
    simp only [ofLine, List.isEmpty_iff, hne, ↓reduceIte, hwords, htokens]
    rfl
  | first :: second :: rest =>
    rw [htokens] at hwords
    have hne : content line ≠ [] := by simp [content_eq_nil_iff, htokens]
    have hlabel : labelName? (content line) = none := by
      rw [Option.eq_none_iff_forall_ne_some]
      intro name hname
      simp [words_of_labelName? hname] at hwords
    have hplaceholder : placeholderName? (content line) = none := by
      rw [Option.eq_none_iff_forall_ne_some]
      intro name hname
      simp [words_of_placeholderName? hname] at hwords
    simp [ofLine, hne, hlabel, hplaceholder, hwords, ofTokens]

theorem ofTokens_eq_blank_iff {words : List (List Char)} :
    ofTokens words = .blank ↔ words = [] := by
  refine ⟨fun h => ?_, fun h => h ▸ rfl⟩
  match words with
  | [] => rfl
  | [word] =>
    simp only [ofTokens] at h
    split at h
    · simp at h
    · split at h <;> simp at h
  | first :: second :: rest => simp [ofTokens] at h

end Source.Row

end MeteredLedger
