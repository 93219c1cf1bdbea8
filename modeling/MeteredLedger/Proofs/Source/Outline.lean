import Mathlib.Data.List.TakeWhile
import MeteredLedger.Proofs.Source.Tokens
import MeteredLedger.Source.Load

/-!
# Outlines of templates

The outline of a template is what its text says before any argument is known: a
list of lines, some of them holes. Reading the template itself fills each hole
with the placeholder, and reading the bound text fills it with the bound value,
although that text is written out and read again in between. The two readings
share everything but the values in the holes, errors included.
-/

namespace MeteredLedger.Source

/-- A line of a program, or a hole that an argument will fill. -/
inductive Slot where
  | line (l : Line)
  | hole (name : String)

/-- The line that a slot becomes when arguments have values. -/
def Slot.fill (value : String → String) : Slot → Line
  | line l => l
  | hole name => pushArgument (value name)

/-- The slot that a row contributes. As in `Row.line?`, the outer `none` refuses
the row. -/
def Row.slot? : Row → Option (Option Slot)
  | .placeholder name => some (some (.hole name))
  | row => (row.line? .refused).map (Option.map .line)

def readSlot (number : Nat) (text : List Char) : Except Error (Option (Nat × Slot)) :=
  match (Row.ofLine text).slot? with
  | some slot => .ok (slot.map fun s => (number, s))
  | none => .error ⟨number, .malformed (String.ofList (Text.trim text))⟩

/-- The slots of a template, each with the number of the source line it comes from. -/
def outline (template : String) : Except Error (List (Nat × Slot)) :=
  ((numberedLines template).mapM fun (number, line) => readSlot number line).map
    (List.filterMap id)

/-- A numbered slot, filled. -/
def fillSlot (value : String → String) (slot : Nat × Slot) : Nat × Line :=
  (slot.1, slot.2.fill value)

section

variable {α β γ ε : Type} {xs : List α}

theorem mapM_eq_map_mapM {f : α → Except ε γ} {g : α → Except ε β} {φ : β → γ}
    (h : ∀ x ∈ xs, f x = (g x).map φ) : xs.mapM f = (xs.mapM g).map (List.map φ) := by
  induction xs with
  | nil => rfl
  | cons x xs ih =>
    rw [List.forall_mem_cons] at h
    rw [List.mapM_cons, List.mapM_cons, h.1, ih h.2]
    cases g x with
    | error e => rfl
    | ok y => cases xs.mapM g <;> rfl

/-- A traversal that succeeds is a map. -/
theorem eq_map_of_mapM_eq_ok {f : α → Except ε β} {g : α → β} {ys : List β}
    (h : xs.mapM f = .ok ys) (hg : ∀ x y, f x = .ok y → y = g x) :
    ys = xs.map g ∧ ∀ x ∈ xs, f x = .ok (g x) := by
  induction xs generalizing ys with
  | nil =>
    obtain rfl : [] = ys := by simpa [pure, Except.pure] using h
    simp
  | cons x xs ih =>
    rw [List.mapM_cons] at h
    cases hx : f x with
    | error e => simp [hx, Bind.bind, Except.bind] at h
    | ok y =>
      cases hxs : xs.mapM f with
      | error e => simp [hx, hxs, Bind.bind, Except.bind] at h
      | ok zs =>
        obtain rfl : y :: zs = ys := by
          simpa [hx, hxs, Bind.bind, Except.bind, pure, Except.pure] using h
        obtain rfl := hg x y hx
        obtain ⟨rfl, hall⟩ := ih hxs
        exact ⟨rfl, List.forall_mem_cons.mpr ⟨hx, hall⟩⟩

theorem exists_of_mapM_eq_error {f : α → Except ε β} {e : ε} (h : xs.mapM f = .error e) :
    ∃ x ∈ xs, f x = .error e := by
  induction xs with
  | nil => simp [pure, Except.pure] at h
  | cons x xs ih =>
    rw [List.mapM_cons] at h
    cases hx : f x with
    | error e' =>
      obtain rfl : e' = e := by simpa [hx, Bind.bind, Except.bind] using h
      exact ⟨x, List.mem_cons_self, hx⟩
    | ok y =>
      cases hxs : xs.mapM f with
      | error e' =>
        obtain rfl : e' = e := by simpa [hx, hxs, Bind.bind, Except.bind] using h
        obtain ⟨x', hx', hfail⟩ := ih hxs
        exact ⟨x', List.mem_cons_of_mem _ hx', hfail⟩
      | ok ys => simp [hx, hxs, Bind.bind, Except.bind, pure, Except.pure] at h

end

section

variable {bindings : Bindings} {number : Nat} {text : List Char}

/-- A carriage return at the end of a line says nothing. -/
theorem readLine_append_return (placeholders : Placeholders) :
    readLine placeholders number (text ++ ['\r']) = readLine placeholders number text := by
  have hblank : Text.isBlank '\r' = true := by decide
  simp only [readLine, Row.ofLine_eq_ofTokens, Row.tokens_append_blank hblank,
    Text.trim_append_blank hblank]

theorem readLine_dropReturn (placeholders : Placeholders) :
    readLine placeholders number (Text.dropReturn text) = readLine placeholders number text := by
  by_cases hlast : text.getLast? = some '\r'
  · obtain ⟨init, rfl⟩ := List.getLast?_eq_some_iff.mp hlast
    simp [Text.dropReturn, readLine_append_return]
  · rw [Text.dropReturn, if_neg hlast]

theorem forall_of_isToken {value : String} (h : isToken value = true) :
    value.toList ≠ [] ∧ (∀ c ∈ value.toList, Text.isBlank c = false) ∧
      ∀ c ∈ value.toList, c ≠ '#' := by
  simp only [isToken, Bool.and_eq_true, List.all_eq_true, Bool.not_eq_true',
    String.isEmpty_eq_false_iff, bne_iff_ne] at h
  refine ⟨by simpa using h.1, ?_, ?_⟩
  · intro c hc
    exact (h.2 c hc).1
  · intro c hc
    exact (h.2 c hc).2

theorem toList_text_pushArgument (value : String) :
    (pushArgument value).text.toList = "PUSHARG".toList ++ ' ' :: value.toList := by
  simp [pushArgument, Line.text, Opcode.mnemonic]

theorem tokens_text_pushArgument {value : String} (h : isToken value = true) :
    Row.tokens (pushArgument value).text.toList = ["PUSHARG".toList, value.toList] := by
  have hmnemonic : isToken "PUSHARG" = true := by decide
  obtain ⟨hne, hblank, hsharp⟩ := forall_of_isToken h
  obtain ⟨hne', hblank', hsharp'⟩ := forall_of_isToken hmnemonic
  have huncommented : '#' ∉ (pushArgument value).text.toList := by
    rw [toList_text_pushArgument]
    intro hc
    rcases List.mem_append.mp hc with hc | hc
    · exact hsharp' '#' hc rfl
    · rcases List.mem_cons.mp hc with hc | hc
      · exact absurd hc (by decide)
      · exact hsharp '#' hc rfl
  rw [Row.tokens_of_not_mem huncommented, toList_text_pushArgument,
    Text.words_append_cons (by decide), Text.words_of_forall hne' hblank',
    Text.words_of_forall hne hblank]
  rfl

/-- The instruction that pushes a single token is read back as it was written. -/
theorem ofLine_text_pushArgument {value : String} (h : isToken value = true) :
    Row.ofLine (pushArgument value).text.toList = .words ["PUSHARG".toList, value.toList] := by
  rw [Row.ofLine_eq_ofTokens, tokens_text_pushArgument h]
  rfl

theorem readLine_text_pushArgument {value : String} (h : isToken value = true)
    (placeholders : Placeholders) :
    readLine placeholders number (pushArgument value).text.toList =
      .ok (some (number, pushArgument value)) := by
  have hword : isIdentifier "PUSHARG".toList = true := by decide
  simp only [readLine, ofLine_text_pushArgument h, Row.line?, hword, ↓reduceIte]
  simp [pushArgument, Opcode.mnemonic]

/-- The value of an argument, where it is bound. -/
def boundValue (bindings : Bindings) (name : String) : String :=
  (bindings.get? name).getD ""

/-- The text that takes the place of a line, if any does. -/
def boundLine (bindings : Bindings) (text : List Char) : List Char :=
  match Row.ofLine text with
  | .placeholder name => (pushArgument (boundValue bindings name)).text.toList
  | _ => text

/-- A placeholder is bound to a single token or not at all. -/
theorem exists_value_of_bindLine {name : String} {line : List Char}
    (hrow : Row.ofLine text = .placeholder name)
    (h : bindLine bindings number text = .ok line) :
    ∃ value, bindings.get? name = some value ∧ isToken value = true ∧
      line = (pushArgument value).text.toList := by
  simp only [bindLine, hrow] at h
  split at h
  · simp at h
  · next value hvalue =>
    split at h
    · next htoken => exact ⟨value, hvalue, htoken, by simpa using h.symm⟩
    · simp at h

theorem eq_boundLine_of_bindLine {line : List Char} (h : bindLine bindings number text = .ok line) :
    line = boundLine bindings text := by
  cases hrow : Row.ofLine text with
  | placeholder name =>
    obtain ⟨value, hvalue, -, rfl⟩ := exists_value_of_bindLine hrow h
    simp [boundLine, hrow, boundValue, hvalue]
  | blank | label name | words ws =>
    obtain rfl : text = line := by simpa [bindLine, hrow] using h
    simp [boundLine, hrow]

/-- Binding does not break lines. -/
theorem newline_not_mem_of_bindLine {line : List Char}
    (h : bindLine bindings number text = .ok line) (htext : '\n' ∉ text) : '\n' ∉ line := by
  cases hrow : Row.ofLine text with
  | placeholder name =>
    obtain ⟨value, -, htoken, rfl⟩ := exists_value_of_bindLine hrow h
    have hblank := (forall_of_isToken htoken).2.1
    rw [toList_text_pushArgument]
    intro hmem
    rcases List.mem_append.mp hmem with hmem | hmem
    · exact absurd hmem (by decide)
    · rcases List.mem_cons.mp hmem with hmem | hmem
      · exact absurd hmem (by decide)
      · exact absurd (hblank '\n' hmem) (by decide)
  | blank | label name | words ws =>
    obtain rfl : text = line := by simpa [bindLine, hrow] using h
    exact htext

/-- A line that can be bound has the same slot as before, filled. -/
theorem readLine_boundLine (h : bindLine bindings number text = .ok (boundLine bindings text)) :
    readLine .refused number (Text.dropReturn (boundLine bindings text)) =
      (readSlot number text).map (Option.map (fillSlot (boundValue bindings))) := by
  rw [readLine_dropReturn]
  cases hrow : Row.ofLine text with
  | placeholder name =>
    obtain ⟨value, hvalue, htoken, hline⟩ := exists_value_of_bindLine hrow h
    rw [hline, readLine_text_pushArgument htoken]
    simp [readSlot, hrow, Row.slot?, Except.map, fillSlot, Slot.fill, boundValue, hvalue]
  | blank | label name | words ws =>
    simp only [boundLine, hrow, readLine, readSlot, Row.slot?]
    cases Row.line? .refused _ with
    | none => rfl
    | some line => cases line <;> rfl

/-- A template that is read as it stands has its placeholders in its holes. -/
theorem readLine_kept :
    readLine .kept number text =
      (readSlot number text).map (Option.map (fillSlot fun name => s!"<{name}>")) := by
  cases hrow : Row.ofLine text with
  | placeholder name =>
    simp [readLine, readSlot, hrow, Row.line?, Row.slot?, Except.map, fillSlot, Slot.fill]
  | blank => simp [readLine, readSlot, hrow, Row.line?, Row.slot?, Except.map]
  | label name =>
    simp [readLine, readSlot, hrow, Row.line?, Row.slot?, Except.map, fillSlot, Slot.fill]
  | words ws =>
    cases ws with
    | nil => simp [readLine, readSlot, hrow, Row.line?, Row.slot?, Except.map]
    | cons first rest =>
      by_cases hfirst : isIdentifier first = true <;>
        simp [readLine, readSlot, hrow, Row.line?, Row.slot?, Except.map, hfirst, fillSlot, Slot.fill]

end

section

variable {template text : String} {bindings : Bindings}

theorem map_numberedLines {α : Type} (f : List Char → α) :
    (numberedLines template).map (fun x => f x.2) = (Text.lines template.toList).map f := by
  change ((Text.lines template.toList).zipIdx.map _).map _ = _
  rw [List.map_map]
  change (Text.lines template.toList).zipIdx.map (f ∘ Prod.fst) = _
  rw [← List.map_map, List.zipIdx_map_fst]

/-- Lines that are bound one by one stay lines. -/
theorem newline_not_mem_of_mapM_bindLine {bound : List (List Char)}
    (h : (numberedLines template).mapM (fun (number, line) => bindLine bindings number line) =
      .ok bound) : ∀ l ∈ bound, '\n' ∉ l := by
  obtain ⟨rfl, hall⟩ := eq_map_of_mapM_eq_ok h fun _ _ => eq_boundLine_of_bindLine
  intro l hl
  obtain ⟨x, hx, rfl⟩ := List.mem_map.mp hl
  refine newline_not_mem_of_bindLine (hall x hx) ?_
  obtain ⟨⟨line, index⟩, hline, rfl⟩ := List.mem_map.mp hx
  exact Text.newline_not_mem_of_mem_lines (List.fst_mem_of_mem_zipIdx hline)

/-- The bound text has the lines of the template, each one bound. -/
theorem numberedLines_of_bind (h : bind template bindings = .ok text) :
    (∀ x ∈ numberedLines template,
      bindLine bindings x.1 x.2 = .ok (boundLine bindings x.2)) ∧
    numberedLines text = (numberedLines template).map fun (number, line) =>
      (number, Text.dropReturn (boundLine bindings line)) := by
  rw [bind] at h
  cases hm : (numberedLines template).mapM
      (fun (number, line) => bindLine bindings number line) with
  | error e => simp [hm, Bind.bind, Except.bind] at h
  | ok bound =>
    obtain rfl : String.ofList (bound.flatMap (· ++ ['\n'])) = text := by
      simpa [hm, Bind.bind, Except.bind, pure, Except.pure] using h
    have hnewline := newline_not_mem_of_mapM_bindLine hm
    obtain ⟨rfl, hall⟩ := eq_map_of_mapM_eq_ok hm fun _ _ => eq_boundLine_of_bindLine
    refine ⟨hall, ?_⟩
    rw [numberedLines, String.toList_ofList, Text.lines_flatMap hnewline, map_numberedLines,
      List.map_map, List.zipIdx_map, numberedLines, List.map_map, List.map_map]
    rfl

/-- A text whose lines are read as the slots of a template is read as its outline. -/
theorem readLines_eq_map_outline {placeholders : Placeholders} {value : String → String}
    (φ : List Char → List Char)
    (hlines : numberedLines text = (numberedLines template).map fun x => (x.1, φ x.2))
    (hread : ∀ x ∈ numberedLines template, readLine placeholders x.1 (φ x.2) =
      (readSlot x.1 x.2).map (Option.map (fillSlot value))) :
    readLines placeholders text = (outline template).map (List.map (fillSlot value)) := by
  have hmapM : ((numberedLines text).mapM fun (number, line) => readLine placeholders number line) =
      ((numberedLines template).mapM fun (number, line) => readSlot number line).map
        (List.map (Option.map (fillSlot value))) := by
    rw [hlines, List.mapM_map]
    exact mapM_eq_map_mapM hread
  rw [readLines, hmapM, outline]
  cases (numberedLines template).mapM fun (number, line) => readSlot number line with
  | error e => rfl
  | ok slots => simp [Except.map, List.filterMap_map, List.map_filterMap]

/-- Binding fails at a placeholder: for lack of a value, or for a value that is
no single token. -/
theorem exists_placeholder_of_bind {e : Error} (h : bind template bindings = .error e) :
    ∃ line name, Row.ofLine line = .placeholder name ∧
      (e.cause = .unboundArgument name ∨
        ∃ value, e.cause = .unrepresentableArgument name value) := by
  rw [bind] at h
  cases hm : (numberedLines template).mapM
      (fun (number, line) => bindLine bindings number line) with
  | ok bound => simp [hm, Bind.bind, Except.bind, pure, Except.pure] at h
  | error e' =>
    obtain rfl : e' = e := by simpa [hm, Bind.bind, Except.bind] using h
    obtain ⟨⟨number, line⟩, -, hline⟩ := exists_of_mapM_eq_error hm
    cases hrow : Row.ofLine line with
    | placeholder name =>
      refine ⟨line, name, hrow, ?_⟩
      simp only [bindLine, hrow] at hline
      split at hline
      · exact .inl (congrArg Error.cause (Except.error.inj hline)).symm
      · next value _ =>
        split at hline
        · simp at hline
        · exact .inr ⟨value, (congrArg Error.cause (Except.error.inj hline)).symm⟩
    | blank | label name | words ws => simp [bindLine, hrow] at hline

theorem cause_of_bind {e : Error} (h : bind template bindings = .error e) :
    (∃ name, e.cause = .unboundArgument name) ∨
      ∃ name value, e.cause = .unrepresentableArgument name value := by
  obtain ⟨-, name, -, hcause⟩ := exists_placeholder_of_bind h
  exact hcause.imp (⟨name, ·⟩) (⟨name, ·⟩)

/-- Reading the bound text fills the holes with the bound values. -/
theorem readLines_of_bind (h : bind template bindings = .ok text) :
    readLines .refused text =
      (outline template).map (List.map (fillSlot (boundValue bindings))) := by
  obtain ⟨hall, hlines⟩ := numberedLines_of_bind h
  apply readLines_eq_map_outline (fun line => Text.dropReturn (boundLine bindings line)) hlines
  intro x hx
  exact readLine_boundLine (hall x hx)

/-- Reading the template itself fills the holes with the placeholders. -/
theorem readLines_kept (template : String) :
    readLines .kept template =
      (outline template).map (List.map (fillSlot fun name => s!"<{name}>")) := by
  apply readLines_eq_map_outline id (List.map_id _).symm
  intro x _
  exact readLine_kept

end

end MeteredLedger.Source
