import MeteredLedger.Proofs.Source.Rendering

/-!
# The grammar of a line

A line is judged by what is left of it when its comment is cut off and the
blanks around the rest are dropped: nothing, a name with a colon after it, a
name in angle brackets, or words of which the first is a name. In text that is
ready to run a name in angle brackets is malformed, as is anything else.
-/

namespace MeteredLedger.Source

/-- The line is a name with a colon after it. -/
def Declares (line : List Char) (name : String) : Prop :=
  IsName name ∧ content line = name.toList ++ [':']

/-- The line is a name in angle brackets. The name has no blank in it, and no
bracket. -/
structure HoldsPlace (line : List Char) (name : String) : Prop where
  content_eq : content line = '<' :: (name.toList ++ ['>'])
  nonempty : name ≠ ""
  plain : ∀ c ∈ name.toList, Text.isBlank c = false ∧ c ≠ '<' ∧ c ≠ '>'

/-- The line of a program that a line of text stands for. -/
def StandsFor (line : List Char) : Line → Prop
  | .label name => Declares line name
  | .instruction i => IsName i.mnemonic ∧
      Text.words (content line) = i.mnemonic.toList :: i.args.map String.toList

/-- The line says something, but it declares no label and its first word is not a name. -/
structure Malformed (line : List Char) : Prop where
  nonblank : content line ≠ []
  undeclared : ∀ name, ¬ Declares line name
  unnamed : ∀ word ∈ (Text.words (content line)).head?, ¬ IsName (String.ofList word)

section

variable {line : List Char} {name : String} {l : Line}

theorem declares_iff : Declares line name ↔ labelName? (content line) = some name.toList := by
  rw [labelName?_eq_some_iff, Declares, isName_iff_isIdentifier]

theorem holdsPlace_iff :
    HoldsPlace line name ↔ placeholderName? (content line) = some name.toList := by
  rw [placeholderName?_eq_some_iff]
  constructor
  · rintro ⟨hcontent, hne, hplain⟩
    exact ⟨hcontent, by simpa using hne, hplain⟩
  · rintro ⟨hcontent, hne, hplain⟩
    exact ⟨hcontent, by simpa using hne, hplain⟩

theorem isIdentifier_of_placeholderName? {text name : List Char}
    (h : placeholderName? text = some name) : isIdentifier text = false := by
  obtain ⟨rfl, -⟩ := placeholderName?_eq_some_iff.mp h
  simp [isIdentifier]

theorem ofLine_eq_label (h : Declares line name) : Row.ofLine line = .label name := by
  have hne : content line ≠ [] := by simp [h.2]
  simp [Row.ofLine, hne, declares_iff.mp h]

/-- A name in angle brackets holds a place, and nothing else does. -/
theorem ofLine_eq_placeholder_iff : Row.ofLine line = .placeholder name ↔ HoldsPlace line name := by
  rw [holdsPlace_iff]
  constructor
  · intro h
    rw [Row.ofLine] at h
    split at h
    · simp at h
    · split at h
      · simp at h
      · split at h
        · next body hbody =>
          obtain rfl : String.ofList body = name := by simpa using h
          rw [hbody, String.toList_ofList]
        · simp at h
  · intro h
    obtain ⟨hcontent, -⟩ := placeholderName?_eq_some_iff.mp h
    have hne : content line ≠ [] := by simp [hcontent]
    have hlabel : labelName? (content line) = none := by
      simp [labelName?, hcontent, List.getLast?_cons]
    simp [Row.ofLine, hne, hlabel, h]

/-- Text that declares nothing makes an instruction or nothing, a placeholder included. -/
theorem line?_ofLine_of_not_declares (h : ∀ name, ¬ Declares line name) (hne : content line ≠ []) :
    (Row.ofLine line).line? .refused = (Row.words (Text.words (content line))).line? .refused := by
  have hlabel : labelName? (content line) = none := by
    rw [Option.eq_none_iff_forall_ne_some]
    intro body hbody
    exact h (String.ofList body) (declares_iff.mpr (by simpa using hbody))
  cases hplaceholder : placeholderName? (content line) with
  | none => simp [Row.ofLine, hne, hlabel, hplaceholder]
  | some body =>
    simp [Row.ofLine, hne, hlabel, hplaceholder, Row.line?,
      words_of_placeholderName? hplaceholder, isIdentifier_of_placeholderName? hplaceholder]

theorem words_content_ne_nil (h : content line ≠ []) : Text.words (content line) ≠ [] := by
  rw [Row.words_content]
  exact mt Row.content_eq_nil_iff.mpr h

/-- A name ends in no colon. -/
theorem toList_ne_append_colon {word : String} (h : IsName word) (body : List Char) :
    word.toList ≠ body ++ [':'] := by
  intro heq
  have hcases := (h.forall_isNameChar ':' (by simp [heq])).toNat_cases
  simp at hcases

/-- An instruction declares no label. -/
theorem StandsFor.not_declares {i : Instruction} (h : StandsFor line (.instruction i)) :
    ¬ Declares line name := by
  intro hdeclares
  obtain ⟨hmnemonic, hwords⟩ := h
  rw [words_of_labelName? (declares_iff.mp hdeclares), hdeclares.2] at hwords
  exact toList_ne_append_colon hmnemonic name.toList (List.cons.inj hwords).1.symm

theorem StandsFor.line?_eq (h : StandsFor line l) :
    (Row.ofLine line).line? .refused = some (some l) := by
  cases l with
  | label name => simp [ofLine_eq_label h, Row.line?]
  | instruction i =>
    obtain ⟨hmnemonic, hwords⟩ := id h
    have hne : content line ≠ [] := by
      intro hnil
      simp [hnil, Text.words] at hwords
    rw [line?_ofLine_of_not_declares (fun _ => h.not_declares) hne, hwords]
    simp [Row.line?, isName_iff_isIdentifier.mp hmnemonic, Function.comp_def]

theorem Malformed.line?_eq (h : Malformed line) : (Row.ofLine line).line? .refused = none := by
  obtain ⟨first, rest, hwords⟩ := List.exists_cons_of_ne_nil (words_content_ne_nil h.nonblank)
  have hfirst : ¬ isIdentifier first = true := by
    have hname := h.unnamed first (by simp [hwords])
    simpa [isName_iff_isIdentifier] using hname
  rw [line?_ofLine_of_not_declares h.undeclared h.nonblank, hwords]
  simp [Row.line?, hfirst]

theorem ofLine_eq_blank (h : content line = []) : Row.ofLine line = .blank := by
  rw [Row.ofLine, h]
  rfl

/-- A line is blank, or it says something, or it is malformed. -/
theorem content_cases (line : List Char) :
    content line = [] ∨ (∃ l, StandsFor line l) ∨ Malformed line := by
  by_cases hne : content line = []
  · exact .inl hne
  · obtain ⟨first, rest, hwords⟩ := List.exists_cons_of_ne_nil (words_content_ne_nil hne)
    refine .inr (or_iff_not_imp_left.mpr fun hsilent => ⟨hne, ?_, ?_⟩)
    · intro name hdeclares
      exact hsilent ⟨.label name, hdeclares⟩
    · rintro word hword hname
      obtain rfl : first = word := by simpa [hwords] using hword
      refine hsilent ⟨.instruction ⟨String.ofList first, rest.map String.ofList⟩, hname, ?_⟩
      simp [hwords, Function.comp_def]

theorem line?_eq_some_iff :
    (Row.ofLine line).line? .refused = some (some l) ↔ StandsFor line l := by
  refine ⟨fun h => ?_, StandsFor.line?_eq⟩
  rcases content_cases line with hblank | ⟨l', hl⟩ | malformed
  · simp [ofLine_eq_blank hblank, Row.line?] at h
  · obtain rfl : l' = l := by simpa [hl.line?_eq] using h
    exact hl
  · simp [malformed.line?_eq] at h

theorem line?_eq_none_iff : (Row.ofLine line).line? .refused = none ↔ Malformed line := by
  refine ⟨fun h => ?_, Malformed.line?_eq⟩
  rcases content_cases line with hblank | ⟨l', hl⟩ | malformed
  · simp [ofLine_eq_blank hblank, Row.line?] at h
  · simp [hl.line?_eq] at h
  · exact malformed

theorem ofLine_eq_blank_iff : Row.ofLine line = .blank ↔ content line = [] := by
  refine ⟨fun h => ?_, ofLine_eq_blank⟩
  rcases content_cases line with hblank | ⟨l, hl⟩ | malformed
  · exact hblank
  · simpa [h, Row.line?] using hl.line?_eq
  · simpa [h, Row.line?] using malformed.line?_eq

theorem ofLine_eq_label_iff : Row.ofLine line = .label name ↔ Declares line name := by
  refine ⟨fun h => ?_, ofLine_eq_label⟩
  have hl : StandsFor line (.label name) := line?_eq_some_iff.mp (by simp [h, Row.line?])
  exact hl

theorem StandsFor.content_ne_nil (h : StandsFor line l) : content line ≠ [] := by
  intro hnil
  simpa [ofLine_eq_blank hnil, Row.line?] using h.line?_eq

instance : DecidablePred Malformed := fun _ => decidable_of_iff _ line?_eq_none_iff

theorem readLine_eq_some_iff {number : Nat} {read : Nat × Line} :
    readLine .refused number line = .ok (some read) ↔ read.1 = number ∧ StandsFor line read.2 := by
  rw [readLine, ← line?_eq_some_iff]
  cases (Row.ofLine line).line? .refused with
  | none => simp
  | some result => cases result <;> simp [Prod.ext_iff, eq_comm]

theorem readLine_eq_error_iff {number : Nat} {e : Error} :
    readLine .refused number line = .error e ↔
      Malformed line ∧ e = ⟨number, .malformed (String.ofList (Text.trim line))⟩ := by
  rw [readLine, ← line?_eq_none_iff]
  cases (Row.ofLine line).line? .refused <;> simp [eq_comm]

end

end MeteredLedger.Source
