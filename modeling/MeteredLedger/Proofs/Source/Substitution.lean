import MeteredLedger.Proofs.Source.Load
import MeteredLedger.Proofs.Source.TemplateCheck

/-!
# Bound values stay where they are bound

Values are spliced into the text of a template, and the text is read again, so
a value that could pass for more than one token would become code. None can:
each line of a compiled program comes from one line of its template, and only a
placeholder depends on the arguments, as the operand of one instruction.

Two compilations of a template therefore differ in these operands alone, and
arguments that no placeholder names make no difference at all.
-/

namespace MeteredLedger.Source

/-- The name of the placeholder that a row is. -/
def Row.placeholder? : Row → Option String
  | .placeholder name => some name
  | _ => none

/-- The names of the placeholders of a template. -/
def placeholderNames (template : String) : List String :=
  (Text.lines template.toList).filterMap fun line => (Row.ofLine line).placeholder?

/-- What a line of a template becomes once the arguments are bound. A placeholder
pushes the value of its name, and any other line is what it says by itself. -/
inductive Becomes (bindings : Bindings) (source : Nat × List Char) : Line → Prop where
  | push {name value : String} : Row.ofLine source.2 = .placeholder name →
      bindings.get? name = some value →
      Becomes bindings source (.instruction ⟨"PUSHARG", [value]⟩)
  | own {line : Line} : (Row.ofLine source.2).placeholder? = none →
      readLine .refused source.1 source.2 = .ok (some (source.1, line)) →
      Becomes bindings source line

section

variable {template : String} {bindings : Bindings} {p : Program}

theorem Row.placeholder?_eq_some_iff {row : Row} {name : String} :
    row.placeholder? = some name ↔ row = .placeholder name := by
  cases row <;> simp [placeholder?]

theorem mem_placeholderNames {name : String} :
    name ∈ placeholderNames template ↔
      ∃ line ∈ Text.lines template.toList, Row.ofLine line = .placeholder name := by
  simp [placeholderNames, Row.placeholder?_eq_some_iff]

theorem mem_lines_of_mem_numberedLines {source : Nat × List Char}
    (h : source ∈ numberedLines template) : source.2 ∈ Text.lines template.toList := by
  obtain ⟨⟨line, index⟩, hline, rfl⟩ := List.mem_map.mp h
  exact List.fst_mem_of_mem_zipIdx hline

theorem Becomes.exists_value {source : Nat × List Char} {line : Line} {name : String}
    (h : Becomes bindings source line) (hrow : Row.ofLine source.2 = .placeholder name) :
    ∃ value, bindings.get? name = some value ∧ line = .instruction ⟨"PUSHARG", [value]⟩ := by
  cases h with
  | push hrow' hvalue =>
    obtain rfl : name = _ := by simpa [hrow] using hrow'
    exact ⟨_, hvalue, rfl⟩
  | own hother => simp [hrow, Row.placeholder?] at hother

theorem Becomes.readLine_eq {source : Nat × List Char} {line : Line}
    (h : Becomes bindings source line) (hother : ∀ name, Row.ofLine source.2 ≠ .placeholder name) :
    readLine .refused source.1 source.2 = .ok (some (source.1, line)) := by
  cases h with
  | push hrow => exact absurd hrow (hother _)
  | own _ hread => exact hread

/-- The program of a template is its outline, filled with the bound values. -/
theorem exists_outline_of_compile (h : compile template bindings = .ok p) :
    ∃ slots, outline template = .ok slots ∧
      p.lines.toList = (slots.map (·.2)).map (Slot.fill (boundValue bindings)) := by
  obtain ⟨text, hbind, -⟩ := compile_eq_ok_iff.mp h
  rw [compile_eq_of_bind hbind] at h
  cases houtline : outline template with
  | error e => simp [houtline, Bind.bind, Except.bind] at h
  | ok slots =>
    rw [houtline] at h
    have hlines := assemble_eq_ok_iff.mp h
    refine ⟨slots, rfl, ?_⟩
    simp [hlines, fillSlot]

/-- Arguments that were compiled are bound. -/
theorem exists_value_of_compile {source : Nat × List Char} {name : String}
    (h : compile template bindings = .ok p) (hsource : source ∈ numberedLines template)
    (hrow : Row.ofLine source.2 = .placeholder name) :
    ∃ value, bindings.get? name = some value := by
  obtain ⟨text, hbind, -⟩ := compile_eq_ok_iff.mp h
  have hline := (numberedLines_of_bind hbind).1 source hsource
  obtain ⟨value, hvalue, -⟩ := exists_value_of_bindLine hrow hline
  exact ⟨value, hvalue⟩

/-- A slot, filled, is what its line becomes. -/
theorem Becomes.of_readSlot {source : Nat × List Char} {slot : Nat × Slot}
    (bound : ∀ name, Row.ofLine source.2 = .placeholder name →
      ∃ value, bindings.get? name = some value)
    (h : readSlot source.1 source.2 = .ok (some slot)) :
    Becomes bindings source (slot.2.fill (boundValue bindings)) := by
  cases hrow : Row.ofLine source.2 with
  | placeholder name =>
    obtain ⟨value, hvalue⟩ := bound name hrow
    obtain rfl : (source.1, Slot.hole name) = slot := by
      simpa [readSlot, hrow, Row.slot?] using h
    have hfill : Slot.fill (boundValue bindings) (.hole name) =
        .instruction ⟨"PUSHARG", [value]⟩ := by
      simp [Slot.fill, boundValue, hvalue, pushArgument, Opcode.mnemonic]
    rw [hfill]
    exact .push hrow hvalue
  | blank | label name | words ws =>
    -- without a hole, the slot holds the line itself
    have hown : ∃ line, slot = (source.1, .line line) ∧
        readLine .refused source.1 source.2 = .ok (some (source.1, line)) := by
      simp only [readSlot, readLine, hrow, Row.slot?] at h ⊢
      cases hline : Row.line? .refused _ with
      | none => simp [hline] at h
      | some result =>
        cases result with
        | none => simp [hline] at h
        | some line => exact ⟨line, by simpa [hline, eq_comm] using h, rfl⟩
    obtain ⟨line, rfl, hread⟩ := hown
    exact .own (by rw [hrow]; rfl) hread

/-- Each line of a compiled program is what a line of the template becomes. -/
theorem forall₂_becomes_of_compile (h : compile template bindings = .ok p) :
    List.Forall₂ (Becomes bindings) (codeLines template) p.lines.toList := by
  obtain ⟨slots, houtline, hlines⟩ := exists_outline_of_compile h
  have bound : ∀ source ∈ codeLines template, ∀ name, Row.ofLine source.2 = .placeholder name →
      ∃ value, bindings.get? name = some value := by
    intro source hsource name hrow
    exact exists_value_of_compile h (List.mem_of_mem_filter hsource) hrow
  rw [hlines, List.map_map, List.forall₂_map_right_iff]
  refine ((List.forall₂_and_left _ _).mpr ⟨bound, outline_eq_ok_iff.mp houtline⟩).imp ?_
  rintro source slot ⟨hbound, hslot⟩
  exact .of_readSlot hbound hslot

theorem size_eq_of_compile (h : compile template bindings = .ok p) :
    p.size = (codeLines template).length := by
  simpa [Program.size] using (forall₂_becomes_of_compile h).length_eq.symm

theorem exists_becomes_of_compile (h : compile template bindings = .ok p) {i : Nat}
    {source : Nat × List Char} (hsource : (codeLines template)[i]? = some source) :
    ∃ line, p.line? i = some line ∧ Becomes bindings source line := by
  obtain ⟨-, hget⟩ := List.forall₂_iff_get.mp (forall₂_becomes_of_compile h)
  obtain ⟨hi, rfl⟩ := List.getElem?_eq_some_iff.mp hsource
  have hi' : i < p.lines.size := by
    rw [← size_eq_of_compile h] at hi
    exact hi
  exact ⟨p.lines[i], Array.getElem?_eq_getElem hi', by simpa using hget i hi (by simpa using hi')⟩

/-- The label table of a compiled program is that of its template's outline. -/
theorem labels_eq_of_compile {bindings' : Bindings} {q : Program}
    (hp : compile template bindings = .ok p) (hq : compile template bindings' = .ok q) :
    p.labels = q.labels := by
  obtain ⟨slots, houtline, hlines⟩ := exists_outline_of_compile hp
  obtain ⟨slots', houtline', hlines'⟩ := exists_outline_of_compile hq
  obtain rfl : slots = slots' := by simpa [houtline] using houtline'
  have htable : LabelTable.ofLines p.lines = LabelTable.ofLines q.lines := by
    rw [LabelTable.ofLines, LabelTable.ofLines, hlines, hlines', extend_map_fill]
  simpa [p.labels_eq, q.labels_eq] using htable

theorem bind_eq_map (template : String) (bindings : Bindings) :
    bind template bindings =
      ((numberedLines template).mapM fun x => bindLine bindings x.1 x.2).map fun lines =>
        String.ofList (lines.flatMap (· ++ ['\n'])) := by
  change ((numberedLines template).mapM fun x => bindLine bindings x.1 x.2) >>= _ = _
  cases (numberedLines template).mapM fun x => bindLine bindings x.1 x.2 <;> rfl

/-- Where every placeholder is bound to a single token, the template can be bound. -/
theorem exists_bind_of_forall_isToken
    (h : ∀ name ∈ placeholderNames template,
      ∃ value, bindings.get? name = some value ∧ isToken value = true) :
    ∃ text, bind template bindings = .ok text := by
  cases hm : (numberedLines template).mapM fun x => bindLine bindings x.1 x.2 with
  | ok lines =>
    refine ⟨String.ofList (lines.flatMap (· ++ ['\n'])), ?_⟩
    rw [bind_eq_map, hm]
    rfl
  | error e =>
    obtain ⟨source, hsource, hfail⟩ := exists_of_mapM_eq_error hm
    cases hrow : Row.ofLine source.2 with
    | placeholder name =>
      have hname := mem_placeholderNames.mpr ⟨_, mem_lines_of_mem_numberedLines hsource, hrow⟩
      obtain ⟨value, hvalue, htoken⟩ := h name hname
      simp [bindLine, hrow, hvalue, htoken] at hfail
    | blank | label name | words ws => simp [bindLine, hrow] at hfail

/-- A template that passed its check compiles with any single tokens for its placeholders. -/
theorem exists_compile_of_checkTemplate (hcheck : checkTemplate template = .ok ())
    (h : ∀ name ∈ placeholderNames template,
      ∃ value, bindings.get? name = some value ∧ isToken value = true) :
    ∃ p, compile template bindings = .ok p := by
  obtain ⟨text, hbind⟩ := exists_bind_of_forall_isToken h
  rw [checkTemplate_eq_map_compile hbind] at hcheck
  cases hcompile : compile template bindings with
  | ok p => exact ⟨p, rfl⟩
  | error e => simp [hcompile, Except.map] at hcheck

/-- Only the arguments that a placeholder names are looked at. -/
theorem bind_congr {bindings' : Bindings}
    (h : ∀ name ∈ placeholderNames template, bindings.get? name = bindings'.get? name) :
    bind template bindings = bind template bindings' := by
  have hline : ∀ source ∈ numberedLines template,
      bindLine bindings source.1 source.2 = bindLine bindings' source.1 source.2 := by
    intro source hsource
    cases hrow : Row.ofLine source.2 with
    | placeholder name =>
      have hname := mem_placeholderNames.mpr ⟨_, mem_lines_of_mem_numberedLines hsource, hrow⟩
      simp only [bindLine, hrow, h name hname]
    | blank | label name | words ws => simp only [bindLine, hrow]
  have hmapM : ((numberedLines template).mapM fun x => bindLine bindings x.1 x.2) =
      ((numberedLines template).mapM fun x => bindLine bindings' x.1 x.2).map (List.map id) :=
    mapM_eq_map_mapM fun source hsource => by simpa using hline source hsource
  rw [List.map_id_fun, Except.map_id, id_eq] at hmapM
  rw [bind_eq_map, bind_eq_map, hmapM]

theorem compile_congr {bindings' : Bindings}
    (h : ∀ name ∈ placeholderNames template, bindings.get? name = bindings'.get? name) :
    compile template bindings = compile template bindings' := by
  rw [compile, compile, bind_congr h]

end

/-- Compiling a template with two sets of arguments gives programs of the same
length and with the same labels. Line by line, a placeholder has become the
instruction that pushes its argument, and every other line is what the template
says there. Arguments that agree on the placeholders give the same program, or
the same error. -/
theorem compile_differs_only_at_placeholders (template : String) (a b : Bindings) :
    (∀ p q, compile template a = .ok p → compile template b = .ok q →
      p.size = q.size ∧ p.labels = q.labels ∧ p.size = (codeLines template).length ∧
      ∀ i number text, (codeLines template)[i]? = some (number, text) →
        (∀ name, Row.ofLine text = .placeholder name → ∃ v w,
          a.get? name = some v ∧ p.line? i = some (.instruction ⟨"PUSHARG", [v]⟩) ∧
          b.get? name = some w ∧ q.line? i = some (.instruction ⟨"PUSHARG", [w]⟩)) ∧
        ((∀ name, Row.ofLine text ≠ .placeholder name) → ∃ line,
          readLine .refused number text = .ok (some (number, line)) ∧
          p.line? i = some line ∧ q.line? i = some line)) ∧
    ((∀ name ∈ placeholderNames template, a.get? name = b.get? name) →
      compile template a = compile template b) := by
  refine ⟨?_, compile_congr⟩
  intro p q hp hq
  have hsize := size_eq_of_compile hp
  refine ⟨hsize.trans (size_eq_of_compile hq).symm, labels_eq_of_compile hp hq, hsize, ?_⟩
  intro i number text hsource
  obtain ⟨line, hline, becomes⟩ := exists_becomes_of_compile hp hsource
  obtain ⟨line', hline', becomes'⟩ := exists_becomes_of_compile hq hsource
  constructor
  · intro name hrow
    obtain ⟨v, hv, rfl⟩ := becomes.exists_value hrow
    obtain ⟨w, hw, rfl⟩ := becomes'.exists_value hrow
    exact ⟨v, w, hv, hline, hw, hline'⟩
  · intro hother
    have hread := becomes.readLine_eq hother
    obtain rfl : line = line' := by
      simpa [hread] using becomes'.readLine_eq hother
    exact ⟨line, hread, hline, hline'⟩

/-- A label, a placeholder with a remark, a blank line and an instruction. -/
def mixedTemplate : String := "a:\r\n<x> # v\n\n  POP  # w"

/-- A value that looks like a label and one that looks like a placeholder are
pushed by the second line, the third line stays as it is, and an argument that
is not asked for changes nothing. -/
theorem mixedTemplate_differs_only_at_placeholder :
    (∃ p q, compile mixedTemplate (.ofList [("x", "a:")]) = .ok p ∧
      compile mixedTemplate (.ofList [("x", "<x>")]) = .ok q ∧
      p.size = 3 ∧ q.size = 3 ∧ p.labels = q.labels ∧
      p.line? 1 = some (.instruction ⟨"PUSHARG", ["a:"]⟩) ∧
      q.line? 1 = some (.instruction ⟨"PUSHARG", ["<x>"]⟩) ∧
      p.line? 2 = q.line? 2) ∧
    compile mixedTemplate (.ofList [("x", "a:")]) =
      compile mixedTemplate (.ofList [("x", "a:"), ("y", "b c")]) := by
  obtain ⟨p, hp⟩ : ∃ p, compile mixedTemplate (.ofList [("x", "a:")]) = .ok p := ⟨_, rfl⟩
  obtain ⟨q, hq⟩ : ∃ q, compile mixedTemplate (.ofList [("x", "<x>")]) = .ok q := ⟨_, rfl⟩
  have hnames : placeholderNames mixedTemplate = ["x"] := rfl
  have hsecond : (codeLines mixedTemplate)[1]? = some (2, "<x> # v".toList) := rfl
  have hthird : (codeLines mixedTemplate)[2]? = some (4, "  POP  # w".toList) := rfl
  have hpop : ∀ name, Row.ofLine "  POP  # w".toList ≠ .placeholder name := by
    intro name hrow
    have hwords : Row.ofLine "  POP  # w".toList = .words ["POP".toList] := by decide
    rw [hwords] at hrow
    simp at hrow
  constructor
  · obtain ⟨hsize, hlabels, hlength, hlines⟩ :=
      (compile_differs_only_at_placeholders mixedTemplate _ _).1 p q hp hq
    obtain ⟨v, w, hv, hpv, hw, hqw⟩ := (hlines 1 _ _ hsecond).1 "x" (by decide)
    obtain rfl : "a:" = v := Option.some.inj hv
    obtain rfl : "<x>" = w := Option.some.inj hw
    obtain ⟨line, -, hpline, hqline⟩ := (hlines 2 _ _ hthird).2 hpop
    exact ⟨p, q, hp, hq, hlength, hsize ▸ hlength, hlabels, hpv, hqw, hpline.trans hqline.symm⟩
  · apply (compile_differs_only_at_placeholders mixedTemplate _ _).2
    rw [hnames, List.forall_mem_singleton]
    rfl

end MeteredLedger.Source
