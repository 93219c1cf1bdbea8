import Mathlib.Data.List.Forall2
import MeteredLedger.Proofs.Program
import MeteredLedger.Proofs.Source.Outline

/-!
# What loading leaves

Blank lines leave no trace, and every other line of a text contributes one line
to the program. `codeLines` lists those other lines, and the lines of a program
and of an outline are described by it, one by one. Only the labels can stand
between lines that were read and the program they make.
-/

namespace MeteredLedger.Source

/-- The lines of a text that are not blank, with their numbers. -/
def codeLines (text : String) : List (Nat × List Char) :=
  (numberedLines text).filter fun x => Row.ofLine x.2 ≠ .blank

section

variable {α β ε : Type} {xs : List α}

/-- A traversal that may skip items succeeds if each item that it does not skip
gives a result, and these are the results. -/
theorem map_filterMap_mapM_eq_ok_iff {f : α → Except ε (Option β)} {keep : α → Bool}
    (hkeep : ∀ x, f x = .ok none ↔ keep x = false) {zs : List β} :
    (xs.mapM f).map (List.filterMap id) = .ok zs ↔
      List.Forall₂ (fun x z => f x = .ok (some z)) (xs.filter keep) zs := by
  induction xs generalizing zs with
  | nil => cases zs <;> simp [pure, Except.pure, Except.map]
  | cons x xs ih =>
    have kept (h : f x ≠ .ok none) : keep x = true := by
      rw [← Bool.not_eq_false, ← hkeep x]
      exact h
    rw [List.mapM_cons]
    cases hx : f x with
    | error e =>
      rw [List.filter_cons_of_pos (kept (by simp [hx]))]
      cases zs <;> simp [Bind.bind, Except.bind, Except.map, hx]
    | ok result =>
      cases result with
      | none =>
        rw [List.filter_cons_of_neg (by simp [(hkeep x).mp hx]), ← ih]
        cases xs.mapM f <;> rfl
      | some z =>
        rw [List.filter_cons_of_pos (kept (by simp [hx]))]
        cases hxs : xs.mapM f with
        | error e =>
          rw [hxs] at ih
          cases zs <;> simp [Bind.bind, Except.bind, Except.map, hx, ← ih]
        | ok ys =>
          rw [hxs] at ih
          cases zs <;>
            simp [Bind.bind, Except.bind, pure, Except.pure, Except.map, hx, ← ih]

end

section

variable {placeholders : Placeholders} {text : String} {number : Nat} {line : List Char}

theorem readLine_eq_none_iff (placeholders : Placeholders) :
    readLine placeholders number line = .ok none ↔ Row.ofLine line = .blank := by
  rw [readLine]
  cases Row.ofLine line with
  | blank => simp [Row.line?]
  | label name => simp [Row.line?]
  | placeholder name => cases placeholders <;> simp [Row.line?]
  | words ws =>
    cases ws with
    | nil => simp [Row.line?]
    | cons first rest => by_cases h : isIdentifier first = true <;> simp [Row.line?, h]

theorem readSlot_eq_none_iff : readSlot number line = .ok none ↔ Row.ofLine line = .blank := by
  rw [readSlot]
  cases Row.ofLine line with
  | blank => simp [Row.slot?, Row.line?]
  | label name => simp [Row.slot?, Row.line?]
  | placeholder name => simp [Row.slot?]
  | words ws =>
    cases ws with
    | nil => simp [Row.slot?, Row.line?]
    | cons first rest => by_cases h : isIdentifier first = true <;> simp [Row.slot?, Row.line?, h]

/-- The lines of a text that are not blank are read one by one. -/
theorem readLines_eq_ok_iff {lines : List (Nat × Line)} :
    readLines placeholders text = .ok lines ↔
      List.Forall₂ (fun x l => readLine placeholders x.1 x.2 = .ok (some l))
        (codeLines text) lines := by
  have hmap : readLines placeholders text =
      ((numberedLines text).mapM fun x => readLine placeholders x.1 x.2).map
        (List.filterMap id) := by
    rw [readLines]
    cases (numberedLines text).mapM fun x => readLine placeholders x.1 x.2 <;> rfl
  rw [hmap]
  apply map_filterMap_mapM_eq_ok_iff
  simp [readLine_eq_none_iff]

/-- The lines of a template that are not blank have one slot each. -/
theorem outline_eq_ok_iff {slots : List (Nat × Slot)} :
    outline text = .ok slots ↔
      List.Forall₂ (fun x s => readSlot x.1 x.2 = .ok (some s)) (codeLines text) slots := by
  rw [outline]
  apply map_filterMap_mapM_eq_ok_iff
  simp [readSlot_eq_none_iff]

end

section

variable {placeholders : Placeholders} {text : String} {lines : List (Nat × Line)} {p : Program}

/-- A program that was assembled holds the lines it was assembled from. -/
theorem assemble_eq_ok_iff : assemble lines = .ok p ↔ p.lines = (lines.map (·.2)).toArray := by
  rw [assemble, ← Program.ofLines_eq_ok_iff]
  cases Program.ofLines (lines.map (·.2)).toArray <;> simp

theorem load_eq_ok_iff :
    load text = .ok p ↔
      ∃ lines, readLines .refused text = .ok lines ∧ p.lines = (lines.map (·.2)).toArray := by
  rw [load, parse]
  cases readLines .refused text with
  | error e => simp [Bind.bind, Except.bind]
  | ok lines => simp [Bind.bind, Except.bind, assemble_eq_ok_iff]

theorem compile_eq_ok_iff {template : String} {bindings : Bindings} :
    compile template bindings = .ok p ↔
      ∃ text, bind template bindings = .ok text ∧ load text = .ok p := by
  rw [compile]
  cases bind template bindings <;> simp [Bind.bind, Except.bind]

end

end MeteredLedger.Source
