import MeteredLedger.Proofs.Source.Substitution

/-!
# The layout of source text

Only the tokens of a text matter, line by line, and lines without a token do
not matter at all. This is not how text is read: a line is judged by the
characters at its two ends, and binding writes a line as it stands and lets it be
judged again. But the row of a line depends on its tokens only, so reading and
binding can both be repeated here on lists of tokens. What they give agrees with
the original up to the numbers and texts of lines in errors.

What an author may change without changing a token is given by `Reformatted`:
comments, blank lines, blanks around tokens and the way a line ends.
-/

namespace MeteredLedger.Source

/-- The tokens of a text, line by line, without the lines that have none. -/
def tokenLines (text : String) : List (List (List Char)) :=
  ((Text.lines text.toList).map Row.tokens).filter (· ≠ [])

/-- Causes that differ in the text of a malformed line at most. -/
inductive Cause.Alike : Cause → Cause → Prop where
  | malformed (text text' : String) : Alike (.malformed text) (.malformed text')
  | same (cause : Cause) : Alike cause cause

/-- Two attempts succeed with the same result or fail for the same reason. -/
structure SameOutcome {α : Type} (a b : Except Error α) : Prop where
  ok_iff : ∀ x, a = .ok x ↔ b = .ok x
  alike : ∀ e e', a = .error e → b = .error e' → e.cause.Alike e'.cause

/-- Ways to change a line without changing a token of it. -/
inductive LineEdit : List Char → List Char → Prop where
  | comment (line note : List Char) : LineEdit (line ++ '#' :: note) line
  | indentation {c : Char} (line : List Char) : Text.isBlank c = true → LineEdit (c :: line) line
  /-- A blank at the end of a line, such as the carriage return before a line feed. -/
  | ending {c : Char} (line : List Char) : Text.isBlank c = true → LineEdit (line ++ [c]) line
  | spacing {c d : Char} (before after : List Char) : Text.isBlank c = true →
      Text.isBlank d = true → LineEdit (before ++ c :: d :: after) (before ++ c :: after)
  /-- One blank in place of another, such as a space in place of a tab. -/
  | exchange {c d : Char} (before after : List Char) : Text.isBlank c = true →
      Text.isBlank d = true → LineEdit (before ++ c :: after) (before ++ d :: after)

/-- Texts that differ in edits of their lines and in empty lines. -/
inductive Reformatted : List Char → List Char → Prop where
  | refl (text : List Char) : Reformatted text text
  | symm {text text' : List Char} : Reformatted text text' → Reformatted text' text
  | trans {text text' text'' : List Char} : Reformatted text text' → Reformatted text' text'' →
      Reformatted text text''
  | line {line line' : List Char} : '\n' ∉ line → '\n' ∉ line' → LineEdit line line' →
      Reformatted line line'
  /-- Edits are made before and after a line feed independently. -/
  | join {before before' after after' : List Char} : Reformatted before before' →
      Reformatted after after' →
      Reformatted (before ++ '\n' :: after) (before' ++ '\n' :: after')
  | emptyLine (text : List Char) : Reformatted ('\n' :: text) text
  | lastLineFeed (text : List Char) : Reformatted (text ++ ['\n']) text

section

variable {α β : Type}

/-- A cause without the text of the line it is about. -/
def Cause.gist : Cause → Cause
  | malformed _ => malformed ""
  | cause => cause

theorem Cause.alike_of_gist_eq {c c' : Cause} (h : c.gist = c'.gist) : c.Alike c' := by
  cases c <;> cases c' <;> simp only [gist, reduceCtorEq] at h
  · exact .malformed _ _
  all_goals
    rw [h]
    exact .same _

/-- A result, or what is left of an error when lines are not looked at. -/
def outcome (r : Except Error α) : Except Cause α :=
  r.mapError fun e => e.cause.gist

@[simp] theorem outcome_ok (x : α) : outcome (.ok x) = .ok x := rfl

@[simp] theorem outcome_error (e : Error) :
    outcome (.error e : Except Error α) = .error e.cause.gist := rfl

theorem outcome_bind (r : Except Error α) (f : α → Except Error β) :
    outcome (r >>= f) = outcome r >>= fun x => outcome (f x) := by
  cases r <;> rfl

theorem sameOutcome_of_outcome_eq {a b : Except Error α} (h : outcome a = outcome b) :
    SameOutcome a b := by
  constructor
  · intro x
    cases a <;> cases b <;> simp_all
  · rintro e e' rfl rfl
    exact Cause.alike_of_gist_eq (by simpa using h)

/-- Goes through a list and puts the results together. -/
def collect {ε : Type} (f : α → Except ε (List β)) (xs : List α) : Except ε (List β) :=
  (xs.mapM f).map List.flatten

theorem collect_cons {ε : Type} (f : α → Except ε (List β)) (x : α) (xs : List α) :
    collect f (x :: xs) = f x >>= fun ys => (collect f xs).map (ys ++ ·) := by
  rw [collect, collect, List.mapM_cons]
  cases f x with
  | error e => rfl
  | ok y => cases xs.mapM f <;> rfl

/-- Items that contribute nothing can be left out. -/
theorem collect_filter {ε : Type} {f : α → Except ε (List β)} {keep : α → Bool}
    (h : ∀ x, keep x = false → f x = .ok []) (xs : List α) :
    collect f (xs.filter keep) = collect f xs := by
  induction xs with
  | nil => rfl
  | cons x xs ih =>
    cases hx : keep x with
    | true => rw [List.filter_cons_of_pos hx, collect_cons, collect_cons, ih]
    | false =>
      rw [List.filter_cons_of_neg (by simp [hx]), ih, collect_cons, h x hx]
      cases collect f xs <;> rfl

/-- A pass over lines that looks only at their tokens. -/
theorem outcome_mapM {γ : Type} {f : α → Except Error β} {φ : β → List γ} {τ : α → List (List Char)}
    {g : List (List Char) → Except Cause (List γ)} {xs : List α}
    (h : ∀ x ∈ xs, (outcome (f x)).map φ = g (τ x)) :
    (outcome (xs.mapM f)).map (List.flatMap φ) = collect g (xs.map τ) := by
  induction xs with
  | nil => rfl
  | cons x xs ih =>
    rw [List.forall_mem_cons] at h
    rw [List.mapM_cons, List.map_cons, collect_cons, ← h.1, ← ih h.2]
    cases f x with
    | error e => rfl
    | ok y => cases xs.mapM f <;> rfl

end

/-- Reads one line of tokens. -/
def readTokens (placeholders : Placeholders) (words : List (List Char)) :
    Except Cause (List Line) :=
  match (Row.ofTokens words).line? placeholders with
  | some line => .ok line.toList
  | none => .error (.malformed "")

/-- Binds one line of tokens. -/
def bindTokens (bindings : Bindings) (words : List (List Char)) :
    Except Cause (List (List (List Char))) :=
  match Row.ofTokens words with
  | .blank => .ok []
  | .placeholder name =>
    match bindings.get? name with
    | none => .error (.unboundArgument name)
    | some value =>
      if isToken value then .ok [["PUSHARG".toList, value.toList]]
      else .error (.unrepresentableArgument name value)
  | _ => .ok [words]

/-- A placeholder becomes an instruction with the token that is bound to it. -/
theorem bindTokens_of_placeholder {bindings : Bindings} {words : List (List Char)}
    {name value : String} (hrow : Row.ofTokens words = .placeholder name)
    (hvalue : bindings.get? name = some value) (htoken : isToken value = true) :
    bindTokens bindings words = .ok [["PUSHARG".toList, value.toList]] := by
  simp only [bindTokens, hrow, hvalue, htoken, if_true]

theorem readTokens_pushArgument (placeholders : Placeholders) (value : String) :
    readTokens placeholders ["PUSHARG".toList, value.toList] = .ok [pushArgument value] := by
  have hrow : Row.line? placeholders (.words ["PUSHARG".toList, value.toList]) =
      some (some (pushArgument value)) := by
    rw [Row.line?, if_pos (by decide), List.map_singleton, String.ofList_toList,
      String.ofList_toList]
    rfl
  rw [readTokens, Row.ofTokens, hrow]
  rfl

/-- Builds a program from lines that have no numbers. -/
def assembleLines (lines : List Line) : Except Cause Program :=
  match Program.ofLines lines.toArray with
  | .ok program => .ok program
  | .error e => .error (.duplicateLabel e.label)

def parseTokens (placeholders : Placeholders) (lines : List (List (List Char))) :
    Except Cause Program :=
  collect (readTokens placeholders) lines >>= assembleLines

section

variable {bindings : Bindings}

/-- A pass over the tokens of a text skips the lines that have none. -/
theorem collect_tokenLines {β : Type} {g : List (List Char) → Except Cause (List β)}
    (h : g [] = .ok []) (text : String) :
    collect g (tokenLines text) =
      collect g ((numberedLines text).map fun x => Row.tokens x.2) := by
  rw [map_numberedLines]
  apply collect_filter
  intro words hwords
  obtain rfl : words = [] := by simpa using hwords
  exact h

theorem outcome_assemble (lines : List (Nat × Line)) :
    outcome (assemble lines) = assembleLines (lines.map (·.2)) := by
  rw [assemble, assembleLines]
  cases Program.ofLines (lines.map (·.2)).toArray <;> rfl

theorem outcome_readLines (placeholders : Placeholders) (text : String) :
    (outcome (readLines placeholders text)).map (List.map (·.2)) =
      collect (readTokens placeholders) (tokenLines text) := by
  have hline (x : Nat × List Char) : (outcome (readLine placeholders x.1 x.2)).map
      (fun read => (read.map (·.2)).toList) = readTokens placeholders (Row.tokens x.2) := by
    rw [readLine, readTokens, Row.ofLine_eq_ofTokens]
    cases (Row.ofTokens (Row.tokens x.2)).line? placeholders with
    | none => rfl
    | some line => cases line <;> rfl
  have hskip : readTokens placeholders [] = .ok [] := rfl
  rw [collect_tokenLines hskip, ← outcome_mapM fun x _ => hline x, readLines]
  cases (numberedLines text).mapM fun x => readLine placeholders x.1 x.2 with
  | error e => rfl
  | ok lines =>
    change Except.ok ((lines.filterMap id).map (·.2)) = .ok (lines.flatMap _)
    rw [List.map_filterMap, List.filterMap_eq_flatMap_toList]
    rfl

theorem outcome_parse (placeholders : Placeholders) (text : String) :
    outcome (parse placeholders text) = parseTokens placeholders (tokenLines text) := by
  rw [parse, parseTokens, outcome_bind, ← outcome_readLines]
  cases readLines placeholders text with
  | error e => rfl
  | ok lines => exact outcome_assemble lines

/-- The tokens of lines that are written one after the other. -/
theorem tokenLines_flatMap {ls : List (List Char)} (h : ∀ l ∈ ls, '\n' ∉ l) :
    tokenLines (String.ofList (ls.flatMap (· ++ ['\n']))) =
      ls.flatMap fun l => [Row.tokens l].filter (· ≠ []) := by
  rw [tokenLines, String.toList_ofList, Text.lines_flatMap h, List.map_map,
    Row.tokens_comp_dropReturn, ← List.filter_flatMap, ← List.map_eq_flatMap]

/-- A line that is bound is written as it stands, or it has two tokens. -/
theorem outcome_bindLine (number : Nat) (line : List Char) :
    (outcome (bindLine bindings number line)).map (fun l => [Row.tokens l].filter (· ≠ [])) =
      bindTokens bindings (Row.tokens line) := by
  rw [bindLine, bindTokens, Row.ofLine_eq_ofTokens]
  cases hrow : Row.ofTokens (Row.tokens line) with
  | blank =>
    have hnil := Row.ofTokens_eq_blank_iff.mp hrow
    simp [Except.map, hnil]
  | placeholder name =>
    cases hvalue : bindings.get? name with
    | none => simp [Except.map, hvalue, Cause.gist]
    | some value =>
      cases htoken : isToken value with
      | true => simp [Except.map, hvalue, htoken, tokens_text_pushArgument htoken]
      | false => simp [Except.map, hvalue, htoken, Cause.gist]
  | label name | words ws =>
    have hne : Row.tokens line ≠ [] := by
      intro hnil
      simp [hnil, Row.ofTokens] at hrow
    simp [Except.map, hne]

theorem outcome_bind_template (template : String) (bindings : Bindings) :
    (outcome (bind template bindings)).map tokenLines =
      collect (bindTokens bindings) (tokenLines template) := by
  have hskip : bindTokens bindings [] = .ok [] := rfl
  rw [collect_tokenLines hskip, ← outcome_mapM fun x _ => outcome_bindLine x.1 x.2, bind]
  cases hm : (numberedLines template).mapM fun x => bindLine bindings x.1 x.2 with
  | error e => rfl
  | ok bound =>
    change Except.ok (tokenLines (String.ofList (bound.flatMap (· ++ ['\n'])))) = .ok _
    rw [tokenLines_flatMap (newline_not_mem_of_mapM_bindLine hm)]

theorem outcome_compile (template : String) (bindings : Bindings) :
    outcome (compile template bindings) =
      collect (bindTokens bindings) (tokenLines template) >>= parseTokens .refused := by
  rw [compile, outcome_bind, ← outcome_bind_template]
  cases bind template bindings with
  | error e => rfl
  | ok text =>
    simp only [outcome_ok, Except.map, Bind.bind, Except.bind, load, outcome_parse]

end

section

variable {line line' : List Char}

theorem LineEdit.tokens_eq (h : LineEdit line line') : Row.tokens line = Row.tokens line' := by
  cases h with
  | comment line note => exact Row.tokens_append_comment line' note
  | indentation line hc => exact Row.tokens_cons_blank hc line'
  | ending line hc => exact Row.tokens_append_blank hc line'
  | spacing before after hc hd =>
    rw [Row.tokens_append_cons hc, Row.tokens_append_cons hc, Row.tokens_cons_blank hd]
  | exchange before after hc hd => rw [Row.tokens_append_cons hc, Row.tokens_append_cons hd]

end

/-- The tokens of a text that is cut at its line feeds only. -/
def pieceTokens (cs : List Char) : List (List (List Char)) :=
  ((Text.splitWhere (· == '\n') cs).map Row.tokens).filter (· ≠ [])

/-- It makes no difference to the tokens how lines end. -/
theorem tokenLines_eq (text : String) : tokenLines text = pieceTokens text.toList := by
  have hne := Text.splitWhere_ne_nil (· == '\n') text.toList
  rw [tokenLines, pieceTokens, Text.lines]
  generalize Text.splitWhere (· == '\n') text.toList = pieces at hne ⊢
  obtain ⟨init, last, rfl⟩ := (List.eq_nil_or_concat' pieces).resolve_left hne
  -- text after the last line feed counts as a line only if there is any
  have hlast : (([last].filter (! ·.isEmpty)).map Row.tokens).filter (· ≠ []) =
      [Row.tokens last].filter (· ≠ []) := by
    cases last <;> rfl
  rw [List.dropLast_concat, List.getLast?_concat, Option.toList_some, List.map_append,
    List.map_map, Row.tokens_comp_dropReturn, List.filter_append, hlast, List.map_append,
    List.filter_append]
  rfl

theorem pieceTokens_nil : pieceTokens [] = [] := rfl

theorem pieceTokens_append (before after : List Char) :
    pieceTokens (before ++ '\n' :: after) = pieceTokens before ++ pieceTokens after := by
  rw [pieceTokens, Text.splitWhere_append_cons (by rfl), List.map_append, List.filter_append]
  rfl

theorem pieceTokens_of_not_mem {line : List Char} (h : '\n' ∉ line) :
    pieceTokens line = [Row.tokens line].filter (· ≠ []) := by
  rw [pieceTokens, Text.splitWhere_of_forall]
  · rfl
  · intro c hc
    rw [beq_eq_false_iff_ne]
    rintro rfl
    exact h hc

/-- Reformatting changes no token. -/
theorem Reformatted.pieceTokens_eq {text text' : List Char} (h : Reformatted text text') :
    pieceTokens text = pieceTokens text' := by
  induction h with
  | refl text => rfl
  | symm _ ih => exact ih.symm
  | trans _ _ ih ih' => exact ih.trans ih'
  | line hline hline' edit =>
    rw [pieceTokens_of_not_mem hline, pieceTokens_of_not_mem hline', edit.tokens_eq]
  | join _ _ ih ih' => rw [pieceTokens_append, pieceTokens_append, ih, ih']
  | emptyLine text =>
    rw [← List.nil_append ('\n' :: text), pieceTokens_append, pieceTokens_nil, List.nil_append]
  | lastLineFeed text => rw [pieceTokens_append, pieceTokens_nil, List.append_nil]

theorem outcome_checkTemplate (template : String) :
    outcome (checkTemplate template) =
      parseTokens .kept (tokenLines template) >>= fun _ => .ok () := by
  rw [checkTemplate, outcome_bind, ← outcome_parse, loadTemplate]
  rfl

/-- Texts with the same tokens are compiled, loaded and checked with the same
outcome, whatever the arguments are. Reformatting a text changes no token, so
comments, blank lines, indentation, spacing and the way lines end never change a
program. -/
theorem layout_does_not_matter (s t : String) :
    (tokenLines s = tokenLines t →
      (∀ bindings, SameOutcome (compile s bindings) (compile t bindings)) ∧
      SameOutcome (load s) (load t) ∧
      SameOutcome (checkTemplate s) (checkTemplate t)) ∧
    (Reformatted s.toList t.toList → tokenLines s = tokenLines t) := by
  constructor
  · intro h
    refine ⟨fun bindings => ?_, ?_, ?_⟩
    · apply sameOutcome_of_outcome_eq
      rw [outcome_compile, outcome_compile, h]
    · apply sameOutcome_of_outcome_eq
      rw [load, load, outcome_parse, outcome_parse, h]
    · apply sameOutcome_of_outcome_eq
      rw [outcome_checkTemplate, outcome_checkTemplate, h]
  · intro h
    rw [tokenLines_eq, tokenLines_eq, h.pieceTokens_eq]

/-- A template as somebody might write it. -/
def untidyTemplate : String := "# pays\n\na:\r\n\t<x>   # whom\r\nPOP \u3000 a:"

/-- The same template in as few characters as possible. -/
def tidyTemplate : String := "a:\n<x>\nPOP a:\n"

/-- The two templates compile to the same program, fail for the same argument and
cannot be loaded for the same reason. Brackets around a blank hold no place, even
for an argument of that name, whichever blank it is. And a text is reformatted in
the middle of it, at the end of a line and after it. -/
theorem untidyTemplate_compiles_as_tidyTemplate :
    tokenLines untidyTemplate = tokenLines tidyTemplate ∧
    (∃ p, compile untidyTemplate (.ofList [("x", "7")]) = .ok p ∧
      compile tidyTemplate (.ofList [("x", "7")]) = .ok p) ∧
    compile untidyTemplate ∅ = .error ⟨4, .unboundArgument "x"⟩ ∧
    (∀ e, compile tidyTemplate ∅ = .error e → e.cause = .unboundArgument "x") ∧
    checkTemplate tidyTemplate = .ok () ∧
    load untidyTemplate = .error ⟨4, .malformed "<x>   # whom"⟩ ∧
    (∀ p, load tidyTemplate ≠ .ok p) ∧
    compile "<a b>" (.ofList [("a b", "7")]) = .error ⟨1, .malformed "<a b>"⟩ ∧
    (∃ line text, compile "<a\t b>" (.ofList [("a b", "7")]) = .error ⟨line, .malformed text⟩) ∧
    tokenLines "PUSH 1 # one\r\n\nPOP" = tokenLines "PUSH 1\nPOP" := by
  have htokens : tokenLines untidyTemplate = tokenLines tidyTemplate := by decide +kernel
  obtain ⟨compiled, loaded, checked⟩ := (layout_does_not_matter _ _).1 htokens
  obtain ⟨p, hp⟩ : ∃ p, compile untidyTemplate (.ofList [("x", "7")]) = .ok p := ⟨_, rfl⟩
  have hunbound : compile untidyTemplate ∅ = .error ⟨4, .unboundArgument "x"⟩ := rfl
  have hload : load untidyTemplate = .error ⟨4, .malformed "<x>   # whom"⟩ := rfl
  have hcheck : checkTemplate untidyTemplate = .ok () := rfl
  have hblank : compile "<a b>" (.ofList [("a b", "7")]) = .error ⟨1, .malformed "<a b>"⟩ := rfl
  refine ⟨htokens, ⟨p, hp, ((compiled _).ok_iff p).mp hp⟩, hunbound, ?_, ?_, hload, ?_, hblank,
    ?_, ?_⟩
  · rintro ⟨line, cause⟩ he
    cases (compiled ∅).alike _ _ hunbound he with
    | same => rfl
  · exact (checked.ok_iff ()).mp hcheck
  · intro p hp
    have hp' := (loaded.ok_iff p).mpr hp
    simp [hload] at hp'
  · have hspaces : tokenLines "<a b>" = tokenLines "<a\t b>" := by decide +kernel
    obtain ⟨compiled, -, -⟩ := (layout_does_not_matter _ _).1 hspaces
    cases htab : compile "<a\t b>" (.ofList [("a b", "7")]) with
    | ok p =>
      have hp := ((compiled _).ok_iff p).mpr htab
      simp [hblank] at hp
    | error e =>
      obtain ⟨line, cause⟩ := e
      cases (compiled _).alike _ _ hblank htab with
      | malformed | same => exact ⟨line, _, rfl⟩
  · have uncommented : Reformatted "PUSH 1 # one\r".toList "PUSH 1 ".toList :=
      .line (by decide) (by decide) (.comment "PUSH 1 ".toList " one\r".toList)
    have trimmed : Reformatted "PUSH 1 ".toList "PUSH 1".toList :=
      .line (by decide) (by decide) (.ending "PUSH 1".toList (by decide))
    have edited := (uncommented.trans trimmed).join (.emptyLine "POP".toList)
    apply (layout_does_not_matter _ _).2
    simpa using edited

end MeteredLedger.Source
