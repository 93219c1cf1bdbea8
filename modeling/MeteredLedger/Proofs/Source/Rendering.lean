import MeteredLedger.Proofs.Source.Load

/-!
# Rendering programs and loading them again

A program may be built from any lines, and the text of a line need not say what
the line is: a token may hold a blank, a label may look like an instruction.
`Program.WellFormed` singles out the programs whose names and tokens can be
written down. These are the programs that come back when their text is loaded,
and loading never gives any other.
-/

namespace MeteredLedger

/-- A token that is read back from source text as it was written. -/
structure IsArgument (s : String) : Prop where
  nonempty : s ≠ ""
  unbroken : ∀ c ∈ s.toList, Text.isBlank c = false
  uncommented : '#' ∉ s.toList

/-- A line whose name and tokens can be written in source text. -/
def Line.WellFormed : Line → Prop
  | .label name => IsName name
  | .instruction i => IsName i.mnemonic ∧ ∀ arg ∈ i.args, IsArgument arg

/-- A program all of whose names and tokens can be written in source text. -/
def Program.WellFormed (p : Program) : Prop :=
  ∀ line ∈ p.lines.toList, line.WellFormed

section

variable {s : String} {c : Char}

theorem isArgument_iff_isToken : IsArgument s ↔ Source.isToken s = true := by
  constructor
  · intro h
    simp only [Source.isToken, Bool.and_eq_true, Bool.not_eq_true', String.isEmpty_eq_false_iff,
      List.all_eq_true, bne_iff_ne]
    refine ⟨h.nonempty, ?_⟩
    intro c hc
    refine ⟨h.unbroken c hc, ?_⟩
    rintro rfl
    exact h.uncommented hc
  · intro h
    obtain ⟨hne, hblank, hsharp⟩ := Source.forall_of_isToken h
    refine ⟨?_, hblank, ?_⟩
    · rintro rfl
      exact hne rfl
    · intro hc
      exact hsharp '#' hc rfl

instance : DecidablePred IsArgument := fun _ => decidable_of_iff _ isArgument_iff_isToken.symm

instance : DecidablePred Line.WellFormed
  | .label name => inferInstanceAs (Decidable (IsName name))
  | .instruction i =>
    inferInstanceAs (Decidable (IsName i.mnemonic ∧ ∀ arg ∈ i.args, IsArgument arg))

instance : DecidablePred Program.WellFormed := fun p =>
  inferInstanceAs (Decidable (∀ line ∈ p.lines.toList, line.WellFormed))

/-- A name is a token. -/
theorem IsName.isArgument (h : IsName s) : IsArgument s := by
  refine ⟨?_, ?_, ?_⟩
  · rintro rfl
    obtain ⟨c, cs, hs, -⟩ := h
    simp at hs
  · intro c hc
    exact (h.forall_isNameChar c hc).isBlank_eq_false
  · intro hc
    have hcases := (h.forall_isNameChar '#' hc).toNat_cases
    simp at hcases

end

namespace Source

section

variable {name : String} {i : Instruction} {line : Line} {text : List Char}

/-- The tokens of a line can be written in source text. -/
theorem isArgument_of_mem_tokens {word : List Char} (h : word ∈ Row.tokens text) :
    IsArgument (String.ofList word) := by
  obtain ⟨hne, hword⟩ := Text.forall_of_mem_words h
  refine ⟨by simpa using hne, ?_, ?_⟩
  · intro c hc
    exact (hword c (by simpa using hc)).1
  · intro hc
    have hsharp := List.mem_takeWhile_imp (hword '#' (by simpa using hc)).2
    simp at hsharp

/-- What is read from a line of text can be written in source text. -/
theorem wellFormed_of_line? (h : (Row.ofLine text).line? .refused = some (some line)) :
    line.WellFormed := by
  have arguments : ∀ word ∈ Row.tokens text, IsArgument (String.ofList word) :=
    fun _ => isArgument_of_mem_tokens
  rw [Row.ofLine_eq_ofTokens] at h
  -- the words of a row are tokens, whether or not it turns out to be a label
  have instruction {first : List Char} {rest : List (List Char)}
      (hrest : ∀ word ∈ rest, IsArgument (String.ofList word))
      (hline : (Row.words (first :: rest)).line? .refused = some (some line)) :
      line.WellFormed := by
    simp only [Row.line?, Option.ite_none_right_eq_some, Option.some.injEq] at hline
    obtain ⟨hfirst, rfl⟩ := hline
    exact ⟨isName_iff_isIdentifier.mpr (by simpa using hfirst), by simpa using hrest⟩
  generalize Row.tokens text = words at h arguments
  cases words with
  | nil => simp [Row.ofTokens, Row.line?] at h
  | cons first rest =>
    rw [List.forall_mem_cons] at arguments
    cases rest with
    | nil =>
      simp only [Row.ofTokens] at h
      split at h
      · next name hname =>
        obtain rfl : Line.label (String.ofList name) = line := by simpa [Row.line?] using h
        simp only [labelName?, Option.ite_none_right_eq_some, Option.some.injEq,
          Bool.and_eq_true] at hname
        obtain ⟨⟨-, hidentifier⟩, rfl⟩ := hname
        exact isName_iff_isIdentifier.mpr (by simpa using hidentifier)
      · split at h
        · simp [Row.line?] at h
        · exact instruction arguments.2 h
    | cons second rest => exact instruction arguments.2 h

theorem wellFormed_of_readLine {number : Nat} {read : Nat × Line}
    (h : readLine .refused number text = .ok (some read)) : read.2.WellFormed := by
  rw [readLine] at h
  split at h
  · next result hresult =>
    obtain ⟨line, rfl, rfl⟩ : ∃ line, result = some line ∧ (number, line) = read := by
      simpa using h
    exact wellFormed_of_line? hresult
  · simp at h

/-- Words with a single space between them. -/
def spaced (word : String) (words : List String) : List Char :=
  word.toList ++ (words.map String.toList).flatMap (' ' :: ·)

theorem forall_mem_spaced {word : String} {words : List String} (hword : IsArgument word)
    (hwords : ∀ w ∈ words, IsArgument w) {c : Char} (hc : c ∈ spaced word words) :
    c = ' ' ∨ Text.isBlank c = false ∧ c ≠ '#' := by
  have inside {w : String} (hw : IsArgument w) (hmem : c ∈ w.toList) :
      Text.isBlank c = false ∧ c ≠ '#' := by
    refine ⟨hw.unbroken c hmem, ?_⟩
    rintro rfl
    exact hw.uncommented hmem
  rcases List.mem_append.mp hc with hc | hc
  · exact .inr (inside hword hc)
  · obtain ⟨_, hmem, hc⟩ := List.mem_flatMap.mp hc
    obtain ⟨w, hw, rfl⟩ := List.mem_map.mp hmem
    rcases List.mem_cons.mp hc with rfl | hc
    · exact .inl rfl
    · exact .inr (inside (hwords w hw) hc)

/-- Tokens that are written with single spaces between them are read back. -/
theorem tokens_spaced {word : String} {words : List String} (hword : IsArgument word)
    (hwords : ∀ w ∈ words, IsArgument w) :
    Row.tokens (spaced word words) = word.toList :: words.map String.toList := by
  have huncommented : '#' ∉ spaced word words := by
    intro hc
    simpa using forall_mem_spaced hword hwords hc
  have hne {w : String} (h : IsArgument w) : w.toList ≠ [] := by
    simpa using h.nonempty
  have hblank : Text.isBlank ' ' = true := by decide
  rw [Row.tokens_of_not_mem huncommented, spaced, Text.words_append_flatMap hblank,
    Text.words_of_forall (hne hword) hword.unbroken, List.singleton_append]
  rintro _ hmem
  obtain ⟨w, hw, rfl⟩ := List.mem_map.mp hmem
  exact ⟨hne (hwords w hw), (hwords w hw).unbroken⟩

theorem toList_text_label : (Line.label name).text.toList = spaced (name ++ ":") [] := by
  simp [Line.text, spaced]

theorem toList_text_instruction :
    (Line.instruction i).text.toList = spaced i.mnemonic i.args := by
  obtain ⟨mnemonic, args⟩ := i
  induction args generalizing mnemonic with
  | nil => simp [Line.text, spaced]
  | cons arg args ih =>
    have hfold := ih (mnemonic ++ " " ++ arg)
    simpa [Line.text, spaced] using hfold

/-- A name with a colon after it is a token. -/
theorem isArgument_colon (h : IsName name) : IsArgument (name ++ ":") := by
  have hargument := h.isArgument
  refine ⟨by simp, ?_, ?_⟩
  · intro c hc
    rw [String.toList_append, List.mem_append] at hc
    rcases hc with hc | hc
    · exact hargument.unbroken c hc
    · obtain rfl : c = ':' := by simpa using hc
      decide
  · simpa using hargument.uncommented

/-- The text of a line that can be written is a single line. -/
theorem newline_not_mem_text (h : line.WellFormed) : '\n' ∉ line.text.toList := by
  have hblank : Text.isBlank '\n' = true := by decide
  intro hc
  cases line with
  | label name =>
    rw [toList_text_label] at hc
    simpa [hblank] using forall_mem_spaced (isArgument_colon h) (by simp) hc
  | instruction i =>
    rw [toList_text_instruction] at hc
    simpa [hblank] using forall_mem_spaced h.1.isArgument h.2 hc

/-- A name with a colon after it declares the name. -/
theorem ofLine_text_label (h : IsName name) :
    Row.ofLine (Line.label name).text.toList = .label name := by
  have hlabel : labelName? (name ++ ":").toList = some name.toList := by
    simp [labelName?, isName_iff_isIdentifier.mp h]
  rw [Row.ofLine_eq_ofTokens, toList_text_label, tokens_spaced (isArgument_colon h) (by simp)]
  simp only [List.map_nil, Row.ofTokens, hlabel, String.ofList_toList]

/-- A name by itself is neither a label nor a placeholder. -/
theorem ofTokens_singleton (h : IsName name) :
    Row.ofTokens [name.toList] = .words [name.toList] := by
  have hlabel : labelName? name.toList = none := by
    have hcolon : name.toList.getLast? ≠ some ':' := by
      intro hlast
      have hcases := (h.forall_isNameChar ':' (List.mem_of_getLast? hlast)).toNat_cases
      simp at hcases
    simp [labelName?, hcolon]
  have hplaceholder : placeholderName? name.toList = none := by
    rw [placeholderName?.eq_def]
    split
    · next body hbody =>
      have hcases := (h.forall_isNameChar '<' (by simp [hbody])).toNat_cases
      simp at hcases
    · rfl
  simp [Row.ofTokens, hlabel, hplaceholder]

/-- The text of a line that can be written is read as that line. -/
theorem readLine_text (h : line.WellFormed) (number : Nat) :
    readLine .refused number line.text.toList = .ok (some (number, line)) := by
  cases line with
  | label name => simp [readLine, ofLine_text_label h, Row.line?]
  | instruction i =>
    obtain ⟨hmnemonic, hargs⟩ := h
    have hrow : Row.ofLine (Line.instruction i).text.toList =
        .words (i.mnemonic.toList :: i.args.map String.toList) := by
      rw [Row.ofLine_eq_ofTokens, toList_text_instruction, tokens_spaced hmnemonic.isArgument hargs]
      cases i.args with
      | nil => exact ofTokens_singleton hmnemonic
      | cons arg args => rfl
    simp [readLine, hrow, Row.line?, isName_iff_isIdentifier.mp hmnemonic, Function.comp_def]

end

section

variable {text : String} {p : Program}

theorem wellFormed_of_readLines {lines : List (Nat × Line)}
    (h : readLines .refused text = .ok lines) : ∀ line ∈ lines, line.2.WellFormed := by
  rw [readLines_eq_ok_iff] at h
  generalize codeLines text = sources at h
  induction h with
  | nil => simp
  | cons hline _ ih => exact List.forall_mem_cons.mpr ⟨wellFormed_of_readLine hline, ih⟩

/-- Loading gives programs that can be written in source text. -/
theorem wellFormed_of_load (h : load text = .ok p) : p.WellFormed := by
  obtain ⟨lines, hread, hlines⟩ := load_eq_ok_iff.mp h
  intro line hline
  rw [hlines] at hline
  obtain ⟨numbered, hnumbered, rfl⟩ := List.mem_map.mp hline
  exact wellFormed_of_readLines hread numbered hnumbered

/-- The text of a program has the text of its lines, line by line. -/
theorem numberedLines_render (h : p.WellFormed) :
    numberedLines p.render = p.lines.toList.zipIdx.map fun x =>
      (x.2 + 1, Text.dropReturn x.1.text.toList) := by
  have hrender : p.render.toList =
      (p.lines.toList.map fun line => line.text.toList).flatMap (· ++ ['\n']) := by
    simp [Program.render, List.flatMap_map]
  have hnewline : ∀ text ∈ p.lines.toList.map fun line => line.text.toList, '\n' ∉ text := by
    intro text htext
    obtain ⟨line, hline, rfl⟩ := List.mem_map.mp htext
    exact newline_not_mem_text (h line hline)
  rw [numberedLines, hrender, Text.lines_flatMap hnewline, List.map_map, List.zipIdx_map,
    List.map_map]
  rfl

/-- A program that can be written is read back from its text. -/
theorem load_render (h : p.WellFormed) : load p.render = .ok p := by
  have hread : ∀ x ∈ p.lines.toList.zipIdx,
      readLine .refused (x.2 + 1) (Text.dropReturn x.1.text.toList) =
        .ok (some (x.2 + 1, x.1)) := by
    intro x hx
    rw [readLine_dropReturn]
    exact readLine_text (h x.1 (List.fst_mem_of_mem_zipIdx hx)) _
  -- no line of the text is blank, so that the lines keep their places
  have hcode : codeLines p.render = numberedLines p.render := by
    rw [codeLines, List.filter_eq_self, numberedLines_render h]
    intro x hx
    obtain ⟨numbered, hnumbered, rfl⟩ := List.mem_map.mp hx
    have hsome := hread numbered hnumbered
    rw [decide_eq_true_eq, ne_eq, ← readLine_eq_none_iff .refused, hsome]
    simp
  refine load_eq_ok_iff.mpr ⟨p.lines.toList.zipIdx.map fun x => (x.2 + 1, x.1), ?_, ?_⟩
  · rw [readLines_eq_ok_iff, hcode, numberedLines_render h, List.forall₂_map_left_iff,
      List.forall₂_map_right_iff, List.forall₂_same]
    exact hread
  · rw [List.map_map]
    change p.lines = (p.lines.toList.zipIdx.map Prod.fst).toArray
    rw [List.zipIdx_map_fst, Array.toArray_toList]

end

/-- Loading and compiling give programs that can be written in source text, and
these are exactly the programs that are read back from their text. -/
theorem load_render_iff_wellFormed :
    (∀ text p, load text = .ok p → p.WellFormed) ∧
    (∀ template bindings p, compile template bindings = .ok p → p.WellFormed) ∧
    ∀ p : Program, load p.render = .ok p ↔ p.WellFormed := by
  refine ⟨fun _ _ => wellFormed_of_load, ?_, ?_⟩
  · intro template bindings p h
    obtain ⟨text, -, hload⟩ := compile_eq_ok_iff.mp h
    exact wellFormed_of_load hload
  · intro p
    exact ⟨wellFormed_of_load, load_render⟩

/-- A literal that is pushed and returned, with a label that nothing jumps to. -/
def literalReturn : Program :=
  ⟨#[.instruction ⟨"PUSH", ["1"]⟩, .label "end", .instruction ⟨"RETURN", []⟩],
    (∅ : LabelTable).insert "end" 1, rfl⟩

/-- An argument that looks like a label is returned. -/
def argumentReturn : Program :=
  ⟨#[.instruction ⟨"PUSHARG", ["x:"]⟩, .instruction ⟨"RETURN", []⟩], ∅, rfl⟩

/-- The token of the only instruction starts a comment. -/
def commentedToken : Program :=
  ⟨#[.instruction ⟨"PUSH", ["1#2"]⟩], ∅, rfl⟩

/-- What is loaded from untidy text, or bound to an odd value, can be written;
a token with a comment in it cannot, and is not read back. -/
theorem load_render_iff_wellFormed_at_examples :
    load "  PUSH   1   # one\n\nend:\r\nRETURN" = .ok literalReturn ∧
    literalReturn.WellFormed ∧
    load literalReturn.render = .ok literalReturn ∧
    compile "<x>\nRETURN" (.ofList [("x", "x:")]) = .ok argumentReturn ∧
    argumentReturn.WellFormed ∧
    load commentedToken.render ≠ .ok commentedToken := by
  obtain ⟨loaded, compiled, reloaded⟩ := load_render_iff_wellFormed
  have hload : load "  PUSH   1   # one\n\nend:\r\nRETURN" = .ok literalReturn := by
    decide +kernel
  have hcompile : compile "<x>\nRETURN" (.ofList [("x", "x:")]) = .ok argumentReturn := by
    decide +kernel
  have hbroken : ¬ commentedToken.WellFormed := by decide
  refine ⟨hload, loaded _ _ hload, ?_, hcompile, compiled _ _ _ hcompile, ?_⟩
  · exact (reloaded literalReturn).mpr (loaded _ _ hload)
  · intro h
    exact hbroken ((reloaded commentedToken).mp h)

end Source

end MeteredLedger
