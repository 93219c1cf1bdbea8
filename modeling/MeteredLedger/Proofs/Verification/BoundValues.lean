import MeteredLedger.Proofs.Source.Substitution
import MeteredLedger.Proofs.Verification.Reachability
import MeteredLedger.Verification

/-!
# Verification does not look at bound values

A bound value ends up as the argument of an instruction that pushes it, and may
be anything: the name of a label, a number, or neither. Programs that differ in
such arguments alone are alike, and every pass of the verifier gives the same
findings for both, in the same order: the checks of single instructions do not
read the argument of a push, and control goes to the next line after it.

The programs of a template are alike whatever is bound, and they are like the
template itself. So a template can be verified before its arguments are known.
-/

namespace MeteredLedger

open Source (pushArgument)

/-- Lines that are the same but for an argument that they push. -/
inductive Line.Alike : Line → Line → Prop where
  | refl (line : Line) : Alike line line
  | push (v w : String) : Alike (pushArgument v) (pushArgument w)

/-- Programs that are the same but for the arguments that they push. -/
def Program.Alike (p q : Program) : Prop :=
  List.Forall₂ Line.Alike p.lines.toList q.lines.toList

namespace Program.Alike

variable {p q : Program}

theorem size_eq (h : p.Alike q) : p.size = q.size := by
  simpa [size] using List.Forall₂.length_eq h

/-- Alike programs have lines at the same indices, and these are alike. -/
theorem line?_cases (h : p.Alike q) (i : Nat) :
    p.line? i = none ∧ q.line? i = none ∨
      ∃ l m, p.line? i = some l ∧ q.line? i = some m ∧ l.Alike m := by
  rw [line?, line?, ← Array.getElem?_toList, ← Array.getElem?_toList]
  rw [Program.Alike] at h
  generalize p.lines.toList = lines, q.lines.toList = lines' at h
  induction h generalizing i with
  | nil => exact .inl ⟨rfl, rfl⟩
  | @cons l m lines lines' alike _ ih =>
    cases i with
    | zero => exact .inr ⟨l, m, rfl, rfl, alike⟩
    | succ i => exact ih i

/-- Markers stand at the same indices. -/
theorem labelIndex?_eq (h : p.Alike q) (name : String) :
    p.labelIndex? name = q.labelIndex? name := by
  apply Option.ext
  intro i
  rw [labelIndex?_eq_some_iff, labelIndex?_eq_some_iff]
  rcases h.line?_cases i with ⟨hp, hq⟩ | ⟨l, m, hp, hq, alike⟩
  · rw [hp, hq]
  · rw [hp, hq]
    cases alike with
    | refl => rfl
    | push => simp [pushArgument]

/-- What does not look at pushed arguments gives the same for the instructions
of alike programs. -/
theorem map_instructions {β : Type} (h : p.Alike q) {f g : Nat × Instruction → β}
    (same : ∀ index i j, Line.Alike (.instruction i) (.instruction j) →
      f (index, i) = g (index, j)) :
    p.instructions.map f = q.instructions.map g := by
  rw [Program.Alike] at h
  rw [instructions, instructions]
  generalize p.lines.toList = lines, q.lines.toList = lines' at h
  generalize 0 = start
  induction h generalizing start with
  | nil => rfl
  | @cons l m lines lines' alike _ ih =>
    rw [List.zipIdx_cons, List.zipIdx_cons]
    cases l with
    | label name =>
      obtain rfl : m = .label name := by
        cases alike
        rfl
      simpa using ih (start + 1)
    | instruction i =>
      obtain ⟨j, rfl⟩ : ∃ j, m = .instruction j := by
        cases alike with
        | refl => exact ⟨i, rfl⟩
        | push v w => exact ⟨_, rfl⟩
      simpa using ⟨same start i j alike, ih (start + 1)⟩

theorem filterMap_instructions {β : Type} (h : p.Alike q) {f g : Nat × Instruction → Option β}
    (same : ∀ index i j, Line.Alike (.instruction i) (.instruction j) →
      f (index, i) = g (index, j)) :
    p.instructions.filterMap f = q.instructions.filterMap g := by
  have hmap := congrArg (List.filterMap id) (h.map_instructions same)
  rwa [List.filterMap_map, List.filterMap_map] at hmap

end Program.Alike

namespace Verification

section

variable {p q : Program}

theorem checkSize_eq_of_alike (h : p.Alike q) : checkSize p = checkSize q := by
  rw [checkSize, checkSize, h.size_eq]

theorem checkInstructions_eq_of_alike (h : p.Alike q) :
    checkInstructions p = checkInstructions q := by
  rw [checkInstructions, checkInstructions, List.flatMap_def, List.flatMap_def]
  congr 1
  apply h.map_instructions
  intro index i j alike
  cases alike with
  | refl => rfl
  | push v w => rfl

theorem checkLabels_eq_of_alike (h : p.Alike q) : checkLabels p = checkLabels q := by
  have hlabel : p.labelIndex? = q.labelIndex? := funext h.labelIndex?_eq
  apply h.filterMap_instructions
  intro index i j alike
  cases alike with
  | refl => simp only [unresolved?, hlabel]
  | push v w => rfl

/-- Control moves alike in alike programs. -/
theorem successors_eq_of_alike (h : p.Alike q) (i : Nat) : successors p i = successors q i := by
  have hlabel : p.labelIndex? = q.labelIndex? := funext h.labelIndex?_eq
  rw [successors, successors]
  rcases h.line?_cases i with ⟨hp, hq⟩ | ⟨l, m, hp, hq, alike⟩
  · rw [hp, hq]
  · rw [hp, hq, hlabel]
    cases alike with
    | refl => rfl
    | push v w => rfl

/-- The search visits the same lines in both programs, in the same order. -/
theorem isReachable_explore_eq (h : p.Alike q) {marks : Marks p.size} {marks' : Marks q.size}
    (same : isReachable p marks = isReachable q marks') (pending : List Nat) :
    isReachable p (explore p marks pending) = isReachable q (explore q marks' pending) := by
  have hsize := h.size_eq
  fun_induction explore p marks pending generalizing marks' with
  | case1 marks => simpa using same
  | case2 marks i rest hi unmarked ih =>
    have hi' : i < q.size := hsize ▸ hi
    have unmarked' : marks'[i] = false := by
      rw [← isReachable_of_lt hi', ← same, isReachable_of_lt hi, unmarked]
    rw [explore_cons_of_unmarked hi' unmarked', ← successors_eq_of_alike h]
    apply ih
    funext j
    rw [isReachable_set hi, isReachable_set hi', same]
  | case3 marks i rest hi marked ih =>
    have marked' (hi' : i < q.size) : marks'[i] = true := by
      rw [← isReachable_of_lt hi', ← same, isReachable_of_lt hi]
      simpa using marked
    rw [explore_cons_of_done marked']
    exact ih same
  | case4 marks i rest hi ih =>
    rw [explore_cons_of_done fun hi' => absurd (hsize ▸ hi') hi]
    exact ih same

theorem checkReachability_eq_of_alike (h : p.Alike q) :
    checkReachability p = checkReachability q := by
  have unmarked (r : Program) : isReachable r (Vector.replicate r.size false) = fun _ => false := by
    funext i
    simp [isReachable]
  have hmarks : isReachable p (reachable p) = isReachable q (reachable q) :=
    isReachable_explore_eq h ((unmarked p).trans (unmarked q).symm) [0]
  apply h.filterMap_instructions
  intro index i j _
  simp only [hmarks]

/-- Programs that are alike are verified alike. -/
theorem verify_eq_of_alike (h : p.Alike q) : p.verify = q.verify := by
  rw [Program.verify, Program.verify, checkSize_eq_of_alike h, checkInstructions_eq_of_alike h,
    checkLabels_eq_of_alike h, checkReachability_eq_of_alike h]

end

end Verification

namespace Source

section

variable {template : String} {bindings : Bindings} {p q : Program}

/-- What fills the holes of an outline makes no difference but in the arguments pushed. -/
theorem forall₂_alike_fill (value value' : String → String) (slots : List Slot) :
    List.Forall₂ Line.Alike (slots.map (Slot.fill value)) (slots.map (Slot.fill value')) := by
  rw [List.forall₂_map_left_iff, List.forall₂_map_right_iff, List.forall₂_same]
  intro slot _
  cases slot with
  | line l => exact .refl l
  | hole name => exact .push _ _

theorem alike_of_compile {bindings' : Bindings} (hp : compile template bindings = .ok p)
    (hq : compile template bindings' = .ok q) : p.Alike q := by
  obtain ⟨slots, houtline, hlines⟩ := exists_outline_of_compile hp
  obtain ⟨slots', houtline', hlines'⟩ := exists_outline_of_compile hq
  obtain rfl : slots = slots' := by simpa [houtline] using houtline'
  rw [Program.Alike, hlines, hlines']
  exact forall₂_alike_fill _ _ _

/-- A template that compiles loads by itself, and is like its programs then. -/
theorem exists_loadTemplate_alike (h : compile template bindings = .ok p) :
    ∃ r, loadTemplate template = .ok r ∧ p.Alike r := by
  obtain ⟨slots, houtline, hlines⟩ := exists_outline_of_compile h
  obtain ⟨text, hbind, -⟩ := compile_eq_ok_iff.mp h
  have accepted : checkTemplate template = .ok () := by
    rw [checkTemplate_eq_map_compile hbind, h]
    rfl
  cases hload : loadTemplate template with
  | error e => simp [checkTemplate, hload, Bind.bind, Except.bind] at accepted
  | ok r =>
    have hlines' : r.lines.toList =
        (slots.map (·.2)).map (Slot.fill fun name => s!"<{name}>") := by
      rw [loadTemplate_eq, houtline] at hload
      simp [assemble_eq_ok_iff.mp hload, fillSlot]
    refine ⟨r, rfl, ?_⟩
    rw [Program.Alike, hlines, hlines']
    exact forall₂_alike_fill _ _ _

end

/-- Verification does not depend on argument values. However the arguments of a
template are bound, its programs have the same findings in the same order, and
these are the findings of the template itself, with its placeholders pushed. -/
theorem verify_ignores_bound_values (template : String) (a b : Bindings) (p q : Program)
    (hp : compile template a = .ok p) (hq : compile template b = .ok q) :
    p.verify = q.verify ∧ ∃ r, loadTemplate template = .ok r ∧ p.verify = r.verify := by
  obtain ⟨r, hload, alike⟩ := exists_loadTemplate_alike hp
  refine ⟨Verification.verify_eq_of_alike (alike_of_compile hp hq), r, hload, ?_⟩
  exact Verification.verify_eq_of_alike alike

/-- A jump to a label that is not declared, with dead code after it. -/
def strayTemplate : String := "<to>\nJUMP bob\n<to>\nRETURN"

/-- The program of the template for an argument. -/
def strayProgram (value : String) : Program :=
  ⟨#[.instruction ⟨"PUSHARG", [value]⟩, .instruction ⟨"JUMP", ["bob"]⟩,
    .instruction ⟨"PUSHARG", [value]⟩, .instruction ⟨"RETURN", []⟩], ∅, rfl⟩

/-- Neither the name of the missing label nor a number resolves the jump, and in
the template itself it is found as well. -/
theorem verify_strayTemplate :
    (strayProgram "bob").verify = [.flawed 1 (.unresolvedLabel "bob")] ∧
    (strayProgram "7").verify = [.flawed 1 (.unresolvedLabel "bob")] ∧
    ∃ r, loadTemplate strayTemplate = .ok r ∧ r.verify = [.flawed 1 (.unresolvedLabel "bob")] := by
  have bob : compile strayTemplate (.ofList [("to", "bob")]) = .ok (strayProgram "bob") := by
    decide +kernel
  have seven : compile strayTemplate (.ofList [("to", "7")]) = .ok (strayProgram "7") := by
    decide +kernel
  obtain ⟨same, r, hload, hverify⟩ := verify_ignores_bound_values _ _ _ _ _ bob seven
  have found : (strayProgram "bob").verify = [.flawed 1 (.unresolvedLabel "bob")] := rfl
  exact ⟨found, same ▸ found, r, hload, hverify ▸ found⟩

end Source

end MeteredLedger
