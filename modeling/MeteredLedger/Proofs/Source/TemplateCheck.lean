import MeteredLedger.Proofs.Program
import MeteredLedger.Proofs.Source.Outline

/-!
# What the check of a template promises

A template is checked when nothing is known about its arguments. Checking and
compiling both read the outline of the template and both assemble it, with
different instructions in the holes. Only markers matter to the label table, so
whether assembling succeeds, and which line it blames, does not depend on what
the holes are filled with.
-/

namespace MeteredLedger.Source

theorem extend_map_fill (value value' : String → String) (table : LabelTable) (i : Nat)
    (slots : List Slot) :
    table.extend i (slots.map (Slot.fill value)) = table.extend i (slots.map (Slot.fill value')) := by
  apply LabelTable.extend_congr
  rw [List.map_map, List.map_map]
  apply List.map_congr_left
  intro slot _
  cases slot with
  | line l => rfl
  | hole name => rfl

/-- Whether lines can be assembled is a matter of their numbers and markers. -/
theorem assemble_map_unit (lines : List (Nat × Line)) :
    (assemble lines).map (fun _ => ()) =
      match LabelTable.ofLines (lines.map (·.2)).toArray with
      | .ok _ => .ok ()
      | .error e => .error ⟨(lines.map (·.1)).getD e.index 0, .duplicateLabel e.label⟩ := by
  rw [assemble]
  cases h : Program.ofLines (lines.map (·.2)).toArray with
  | ok p =>
    have hp := Program.ofLines_eq_ok_iff.mp h
    rw [← hp, p.labels_eq]
    rfl
  | error e =>
    rw [Program.ofLines_eq_error_iff.mp h]
    rfl

theorem assemble_fillSlot (value value' : String → String) (slots : List (Nat × Slot)) :
    (assemble (slots.map (fillSlot value))).map (fun _ => ()) =
      (assemble (slots.map (fillSlot value'))).map (fun _ => ()) := by
  have numbers (v : String → String) : (slots.map (fillSlot v)).map (·.1) = slots.map (·.1) := by
    simp [fillSlot]
  have lines (v : String → String) :
      (slots.map (fillSlot v)).map (·.2) = (slots.map (·.2)).map (Slot.fill v) := by
    simp [fillSlot]
  rw [assemble_map_unit, assemble_map_unit, numbers, numbers, lines, lines]
  simp only [LabelTable.ofLines, extend_map_fill value value']

section

variable {template text : String} {bindings : Bindings}

theorem loadTemplate_eq (template : String) :
    loadTemplate template =
      outline template >>= fun slots => assemble (slots.map (fillSlot fun name => s!"<{name}>")) := by
  rw [loadTemplate, parse, readLines_kept]
  cases outline template <;> rfl

theorem compile_eq_of_bind (h : bind template bindings = .ok text) :
    compile template bindings =
      outline template >>= fun slots => assemble (slots.map (fillSlot (boundValue bindings))) := by
  rw [compile, h]
  change load text = _
  rw [load, parse, readLines_of_bind h]
  cases outline template <;> rfl

theorem checkTemplate_eq_map_compile (h : bind template bindings = .ok text) :
    checkTemplate template = (compile template bindings).map fun _ => () := by
  rw [compile_eq_of_bind h, checkTemplate, loadTemplate_eq]
  cases outline template with
  | error e => rfl
  | ok slots =>
    change (assemble _ >>= fun _ => pure ()) = (assemble _).map _
    rw [← assemble_fillSlot (fun name => s!"<{name}>")]
    cases assemble (slots.map (fillSlot fun name => s!"<{name}>")) <;> rfl

/-- Compiling fails for an argument, or with the error that the check reports. -/
theorem cause_or_checkTemplate_of_compile {e : Error}
    (failed : compile template bindings = .error e) :
    (∃ name, e.cause = .unboundArgument name) ∨
      (∃ name value, e.cause = .unrepresentableArgument name value) ∨
      checkTemplate template = .error e := by
  cases h : bind template bindings with
  | error e' =>
    obtain rfl : e' = e := by simpa [compile, h, Bind.bind, Except.bind] using failed
    exact (cause_of_bind h).imp_right .inl
  | ok text =>
    rw [checkTemplate_eq_map_compile h, failed]
    exact .inr (.inr rfl)

end

/-- Where the arguments of a template can be bound, checking it and compiling it
succeed together, and fail together with the same error at the same line. What
passed the check can only fail to compile for its arguments. -/
theorem checkTemplate_agrees_with_compile (template : String) (bindings : Bindings) :
    (∀ text, bind template bindings = .ok text →
      (checkTemplate template = .ok () ↔ ∃ p, compile template bindings = .ok p) ∧
      ∀ e, checkTemplate template = .error e ↔ compile template bindings = .error e) ∧
    (checkTemplate template = .ok () → ∀ e, compile template bindings = .error e →
      (∃ name, e.cause = .unboundArgument name) ∨
        ∃ name value, e.cause = .unrepresentableArgument name value) := by
  constructor
  · intro text h
    rw [checkTemplate_eq_map_compile h]
    cases compile template bindings <;> simp [Except.map]
  · intro accepted e failed
    cases h : bind template bindings with
    | error e' =>
      obtain rfl : e' = e := by simpa [compile, h, Bind.bind, Except.bind] using failed
      exact cause_of_bind h
    | ok text =>
      rw [checkTemplate_eq_map_compile h, failed] at accepted
      simp [Except.map] at accepted

/-- A value that looks like a label does not add one to a template that repeats
its own, on its fourth line; and a template that is sound stays so with a value
that looks like a placeholder, or fails for want of it. -/
theorem checkTemplate_agrees_on_odd_values :
    bind "a:\r\n<x> # v\r\n\na:\r" (.ofList [("x", "x:")]) =
      .ok "a:\nPUSHARG x:\n\na:\r\n" ∧
    compile "a:\r\n<x> # v\r\n\na:\r" (.ofList [("x", "x:")]) = .error ⟨4, .duplicateLabel "a"⟩ ∧
    (∃ p, compile "<x>\nRETURN" (.ofList [("x", "<y>")]) = .ok p) ∧
    ∀ e, compile "<x>\nRETURN" ∅ = .error e →
      (∃ name, e.cause = .unboundArgument name) ∨
        ∃ name value, e.cause = .unrepresentableArgument name value := by
  have bound : bind "a:\r\n<x> # v\r\n\na:\r" (.ofList [("x", "x:")]) =
      .ok "a:\nPUSHARG x:\n\na:\r\n" := rfl
  have bound' : bind "<x>\nRETURN" (.ofList [("x", "<y>")]) = .ok "PUSHARG <y>\nRETURN\n" := rfl
  have rejected : checkTemplate "a:\r\n<x> # v\r\n\na:\r" = .error ⟨4, .duplicateLabel "a"⟩ := rfl
  have accepted : checkTemplate "<x>\nRETURN" = .ok () := rfl
  refine ⟨bound, ?_, ?_, ?_⟩
  · exact (((checkTemplate_agrees_with_compile _ _).1 _ bound).2 _).mp rejected
  · exact ((checkTemplate_agrees_with_compile _ _).1 _ bound').1.mp accepted
  · exact (checkTemplate_agrees_with_compile _ _).2 accepted

end MeteredLedger.Source
