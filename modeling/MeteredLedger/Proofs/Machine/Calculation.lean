import Mathlib.Data.Int.ModEq
import MeteredLedger.Proofs.Machine.Operands
import MeteredLedger.Proofs.Machine.Segment
import MeteredLedger.Proofs.Source.Layout
import MeteredLedger.Proofs.Source.Rendering

/-!
# Calculations

A calculation is source text that pushes two integers, applies an operation to
them and returns what comes of it. The integers are written in decimal, read into
words when they are pushed, and the second one is on top of the stack when the
operation takes them.

On its way from the text to the result nothing is lost but multiples of 2^64. What
the operation would give on integers of any size (`Arithmetic.unbounded?`) is the
result up to such a multiple, quotients being truncated; and an operation without
a result is the one failure there is.
-/

namespace MeteredLedger.Machine

open Source

/-! ## Arithmetic on words and on integers -/

namespace Arithmetic

/-- The result on integers of any size. A quotient is truncated, a remainder is
what the truncated quotient leaves, and there is neither for a zero divisor. -/
def unbounded? : Arithmetic → Int → Int → Option Int
  | add, a, b => some (a + b)
  | sub, a, b => some (a - b)
  | mul, a, b => some (a * b)
  | div, a, b => if b = 0 then none else some (a.tdiv b)
  | mod, a, b => if b = 0 then none else some (a - b * a.tdiv b)

variable {op : Arithmetic} {a b : Int64}

theorem toInt_eq_zero_iff : b.toInt = 0 ↔ b = 0 := by
  rw [← Int64.toInt_zero, Int64.toInt_inj]

theorem bmod_modEq (n : Int) : n.bmod (2 ^ 64) ≡ n [ZMOD 2 ^ 64] :=
  Int.bmod_emod

/-- Words wrap, so that their result is the exact one up to a multiple of 2^64. -/
theorem exists_result?_of_unbounded? {value : Int}
    (h : op.unbounded? a.toInt b.toInt = some value) :
    ∃ n, op.result? a b = some n ∧ n.toInt ≡ value [ZMOD 2 ^ 64] := by
  cases op with
  | add =>
    obtain rfl := Option.some.inj h
    exact ⟨a + b, rfl, Int64.toInt_add a b ▸ bmod_modEq _⟩
  | sub =>
    obtain rfl := Option.some.inj h
    exact ⟨a - b, rfl, Int64.toInt_sub a b ▸ bmod_modEq _⟩
  | mul =>
    obtain rfl := Option.some.inj h
    exact ⟨a * b, rfl, Int64.toInt_mul a b ▸ bmod_modEq _⟩
  | div =>
    obtain ⟨hb, rfl⟩ : b ≠ 0 ∧ a.toInt.tdiv b.toInt = value := by
      simpa [unbounded?, toInt_eq_zero_iff] using h
    exact ⟨a / b, if_neg hb, Int64.toInt_div a b ▸ bmod_modEq _⟩
  | mod =>
    obtain ⟨hb, rfl⟩ : b ≠ 0 ∧ a.toInt - b.toInt * a.toInt.tdiv b.toInt = value := by
      simpa [unbounded?, toInt_eq_zero_iff] using h
    refine ⟨a % b, if_neg hb, ?_⟩
    rw [Int64.toInt_mod, Int.tmod_def]

/-- Quotient and remainder make up the dividend, and the remainder is smaller than
the divisor and has the sign of the dividend unless it is zero. -/
theorem div_mod_laws (a : Int64) {b : Int64} (hb : b ≠ 0) :
    (a / b).toInt * b.toInt + (a % b).toInt ≡ a.toInt [ZMOD 2 ^ 64] ∧
      (a % b).toInt.natAbs < b.toInt.natAbs ∧
      (a % b = 0 ∨ (a % b).toInt.sign = a.toInt.sign) := by
  refine ⟨?_, ?_, ?_⟩
  · have hquotient : (a / b).toInt ≡ a.toInt.tdiv b.toInt [ZMOD 2 ^ 64] :=
      Int64.toInt_div a b ▸ bmod_modEq _
    calc (a / b).toInt * b.toInt + (a % b).toInt
      _ ≡ a.toInt.tdiv b.toInt * b.toInt + (a % b).toInt [ZMOD 2 ^ 64] :=
        (hquotient.mul_right _).add_right _
      _ = a.toInt := by rw [Int64.toInt_mod, Int.tdiv_mul_add_tmod]
  · rw [Int64.toInt_mod, Int.natAbs_tmod]
    apply Nat.mod_lt
    rw [Int.natAbs_pos, Ne, toInt_eq_zero_iff]
    exact hb
  · rw [← toInt_eq_zero_iff, Int64.toInt_mod, Int.sign_tmod, ← Int.dvd_iff_tmod_eq_zero]
    by_cases h : b.toInt ∣ a.toInt
    · exact .inl h
    · exact .inr (if_neg h)

end Arithmetic

/-! ## Programs that calculate -/

/-- The source text that applies an operation to two integers in decimal. -/
def calculationText (op : Arithmetic) (a b : Int64) : String :=
  String.join (["PUSH " ++ Decimal.ofInt64 a, "PUSH " ++ Decimal.ofInt64 b, op.opcode.mnemonic,
    "RETURN"].map (· ++ "\n"))

def calculation (op : Arithmetic) (a b : Int64) : Program :=
  ⟨#[.instruction ⟨"PUSH", [Decimal.ofInt64 a]⟩, .instruction ⟨"PUSH", [Decimal.ofInt64 b]⟩,
    .instruction ⟨op.opcode.mnemonic, []⟩, .instruction ⟨"RETURN", []⟩], ∅, rfl⟩

/-- The text of a calculation, laid out in any way, loads, and the program that it
makes ends with the result under every limit that covers 11 units of gas. -/
def Computes (op : Arithmetic) (a b : Int64) (result : Except Error Outcome) : Prop :=
  ∀ text, tokenLines text = tokenLines (calculationText op a b) →
    ∃ p, load text = .ok p ∧ ∀ {σ : Type} (host : Host σ) (memory : σ) (limit : Nat), 11 ≤ limit →
      (evaluate p host limit memory).result = result

section

variable {op : Arithmetic} {a b : Int64}

theorem render_calculation (op : Arithmetic) (a b : Int64) :
    (calculation op a b).render = calculationText op a b := by
  have hpush : "PUSH" ++ " " = "PUSH " := rfl
  simp only [calculation, calculationText, Program.render, Line.text, List.map_cons, List.map_nil,
    List.foldl_cons, List.foldl_nil, hpush]

/-- An integer in decimal is a token. -/
theorem isArgument_ofInt64 (n : Int64) : IsArgument (Decimal.ofInt64 n) := by
  have canonical : Decimal.IsCanonical (Decimal.ofInt64 n).toList n.toInt :=
    Decimal.isCanonical_iff.mpr rfl
  refine ⟨?_, ?_, ?_⟩
  · intro hempty
    exact canonical.ne_nil (by simp [hempty])
  · intro c hc
    rcases canonical.isDigit_or_eq hc with hdigit | rfl
    · exact IsNameChar.isBlank_eq_false (isNameChar_iff.mpr (by simp [Char.isAlphanum, hdigit]))
    · decide
  · intro hc
    rcases canonical.isDigit_or_eq hc with hdigit | hminus
    · exact absurd hdigit (by decide)
    · exact absurd hminus (by decide)

theorem wellFormed_calculation (op : Arithmetic) (a b : Int64) :
    (calculation op a b).WellFormed := by
  have hmnemonic : IsName op.opcode.mnemonic := by cases op <;> decide
  have hpush : IsName "PUSH" := by decide
  have hreturn : IsName "RETURN" := by decide
  intro line hline
  simp only [calculation, List.mem_cons, List.not_mem_nil, or_false] at hline
  rcases hline with rfl | rfl | rfl | rfl
  · exact ⟨hpush, by simpa using isArgument_ofInt64 a⟩
  · exact ⟨hpush, by simpa using isArgument_ofInt64 b⟩
  · exact ⟨hmnemonic, by simp⟩
  · exact ⟨hreturn, by simp⟩

/-- However a calculation is laid out, it is loaded as the same program. -/
theorem load_calculation {text : String}
    (h : tokenLines text = tokenLines (calculationText op a b)) :
    load text = .ok (calculation op a b) := by
  have hplain : load (calculationText op a b) = .ok (calculation op a b) := by
    rw [← render_calculation]
    exact load_render (wellFormed_calculation op a b)
  have same : SameOutcome (load text) (load (calculationText op a b)) := by
    apply sameOutcome_of_outcome_eq
    rw [load, load, outcome_parse, outcome_parse, h]
  exact (same.ok_iff _).mpr hplain

end

section

variable {p : Program} {host : Host σ} {opcode : Opcode} {args : List String} {i : Nat}
variable {taken left rest : List Value} {fault : Fault} {s : Store σ}

/-- An instruction with a known effect on the stack is a segment. -/
theorem Exchanges.segment (h : Exchanges opcode args taken left)
    (hline : p.line? i = some (.instruction ⟨opcode.mnemonic, args⟩))
    (hstack : s.stack = taken ++ rest) :
    Segment p host opcode.cost i s (i + 1) { s with stack := left ++ rest } := by
  intro gas trace
  have fetched : Fetched p ⟨s, i, gas + opcode.cost, trace⟩ ⟨opcode.mnemonic, args⟩ opcode :=
    fetched_of_line hline (Nat.le_add_left _ _)
  refine ⟨⟨i, opcode, gas + opcode.cost⟩ :: trace, ?_⟩
  rw [run_of_next (h.step_eq host fetched hstack), State.charge]
  simp [State.record]

theorem FailsOn.result_eq (h : FailsOn opcode args taken fault)
    (hline : p.line? i = some (.instruction ⟨opcode.mnemonic, args⟩))
    (hstack : s.stack = taken ++ rest) {gas : Nat} (paid : opcode.cost ≤ gas)
    (trace : List Charge) :
    (run p host ⟨s, i, gas, trace⟩).result = .error ⟨i, fault⟩ := by
  have fetched : Fetched p ⟨s, i, gas, trace⟩ ⟨opcode.mnemonic, args⟩ opcode :=
    fetched_of_line hline paid
  rw [run_of_halt (h.step_eq host fetched hstack)]

end

section

variable {op : Arithmetic} {a b n : Int64}

theorem cost_le_five (op : Arithmetic) : op.opcode.cost ≤ 5 := by
  cases op <;> decide

/-- Both integers are pushed, the second one on top of the first. -/
theorem segment_operands (op : Arithmetic) (a b : Int64) (host : Host σ) (memory : σ) :
    Segment (calculation op a b) host 6 0 ⟨[], ∅, memory, []⟩
      2 ⟨[.int b, .int a], ∅, memory, []⟩ := by
  have push (n : Int64) : Exchanges .push [Decimal.ofInt64 n] [] [.int n] :=
    exchanges_push (Decimal.readInt64?_ofInt64 n)
  have first : Segment (calculation op a b) host 3 0 ⟨[], ∅, memory, []⟩
      1 ⟨[.int a], ∅, memory, []⟩ := (push a).segment rfl rfl
  have second : Segment (calculation op a b) host 3 1 ⟨[.int a], ∅, memory, []⟩
      2 ⟨[.int b, .int a], ∅, memory, []⟩ := (push b).segment rfl rfl
  exact first.trans second

theorem returns_calculation (h : op.result? a b = some n) (host : Host σ) (memory : σ) :
    Returns (calculation op a b) host (6 + op.opcode.cost) 0 ⟨[], ∅, memory, []⟩ (.int n) := by
  have applied : Segment (calculation op a b) host op.opcode.cost
      2 ⟨[.int b, .int a], ∅, memory, []⟩ 3 ⟨[.int n], ∅, memory, []⟩ :=
    (exchanges_arithmetic h []).segment rfl rfl
  have ret : Codes (calculation op a b) 3 .ret .ret := ⟨_, rfl, rfl⟩
  have returned : Returns (calculation op a b) host 0 3 ⟨[.int n], ∅, memory, []⟩ (.int n) :=
    returns_of_ret ret rfl
  exact ((segment_operands op a b host memory).trans applied).returns returned

theorem computes_of_result? (h : op.result? a b = some n) :
    Computes op a b (.ok (.returned (.int n))) := by
  intro text htext
  refine ⟨calculation op a b, load_calculation htext, ?_⟩
  intro σ host memory limit enough
  apply (returns_calculation h host memory).evaluate_result
  have hcost := cost_le_five op
  omega

theorem computes_divisionByZero (h : op.result? a b = none) :
    Computes op a b (.error ⟨2, .divisionByZero⟩) := by
  intro text htext
  refine ⟨calculation op a b, load_calculation htext, ?_⟩
  intro σ host memory limit enough
  obtain ⟨gas, rfl⟩ := Nat.exists_eq_add_of_le' enough
  obtain ⟨trace, hpushed⟩ := segment_operands op a b host memory (gas + 5) []
  have hcost := cost_le_five op
  calc (evaluate (calculation op a b) host (gas + 11) memory).result
    _ = (run (calculation op a b) host
          ⟨⟨[.int b, .int a], ∅, memory, []⟩, 2, gas + 5, trace⟩).result :=
      congrArg Halt.result hpushed
    _ = .error ⟨2, .divisionByZero⟩ :=
      (failsOn_arithmetic h []).result_eq rfl rfl (by omega) trace

end

/-- Arithmetic in programs is exact up to multiples of 2^64. For any two words and
any operation, a calculation returns the word that is congruent to the exact
result, quotients being truncated; a division by zero fails at its line instead.
A quotient and a remainder by anything else make up the dividend, and the
remainder is smaller than the divisor and is zero or has the sign of the dividend.
The last two conclusions are about the one quotient that is no word. -/
theorem calculations_are_exact (a b : Int64) :
    (∀ op value, Arithmetic.unbounded? op a.toInt b.toInt = some value →
      ∃ n : Int64, n.toInt ≡ value [ZMOD 2 ^ 64] ∧ Computes op a b (.ok (.returned (.int n)))) ∧
    (b = 0 → Computes .div a b (.error ⟨2, .divisionByZero⟩) ∧
      Computes .mod a b (.error ⟨2, .divisionByZero⟩)) ∧
    (b ≠ 0 → ∃ q r : Int64, Computes .div a b (.ok (.returned (.int q))) ∧
      Computes .mod a b (.ok (.returned (.int r))) ∧
      q.toInt * b.toInt + r.toInt ≡ a.toInt [ZMOD 2 ^ 64] ∧
      r.toInt.natAbs < b.toInt.natAbs ∧ (r = 0 ∨ r.toInt.sign = a.toInt.sign)) ∧
    Computes .div .minValue (-1) (.ok (.returned (.int .minValue))) ∧
    Computes .mod .minValue (-1) (.ok (.returned (.int 0))) := by
  refine ⟨?_, ?_, ?_, ?_, ?_⟩
  · intro op value hvalue
    obtain ⟨n, hresult, hcongruent⟩ := Arithmetic.exists_result?_of_unbounded? hvalue
    exact ⟨n, hcongruent, computes_of_result? hresult⟩
  · intro hb
    exact ⟨computes_divisionByZero (if_pos hb), computes_divisionByZero (if_pos hb)⟩
  · intro hb
    exact ⟨a / b, a % b, computes_of_result? (if_neg hb), computes_of_result? (if_neg hb),
      Arithmetic.div_mod_laws a hb⟩
  · exact computes_of_result? (by decide)
  · exact computes_of_result? (by decide)

/-- The largest word has a successor that wraps, a remainder by zero fails however
the calculation is laid out, and a negative dividend leaves a remainder that is
not positive. -/
theorem calculations_at_limits :
    (∃ n : Int64, n.toInt ≡ 2 ^ 63 [ZMOD 2 ^ 64] ∧
      Computes .add .maxValue 1 (.ok (.returned (.int n)))) ∧
    (∃ p, load "PUSH -7\r\n\tPUSH 0 # nothing\n\nMOD\nRETURN" = .ok p ∧
      (evaluate p .detached 11 ()).result = .error ⟨2, .divisionByZero⟩) ∧
    ∃ q r : Int64, Computes .div (-7) 2 (.ok (.returned (.int q))) ∧
      Computes .mod (-7) 2 (.ok (.returned (.int r))) ∧
      q.toInt * 2 + r.toInt ≡ -7 [ZMOD 2 ^ 64] ∧ r.toInt.natAbs < 2 ∧
      (r = 0 ∨ r.toInt.sign = -1) := by
  obtain ⟨congruent, -⟩ := calculations_are_exact .maxValue 1
  obtain ⟨-, zero, -⟩ := calculations_are_exact (-7) 0
  obtain ⟨-, -, nonzero, -⟩ := calculations_are_exact (-7) 2
  refine ⟨congruent .add _ rfl, ?_, nonzero (by decide)⟩
  obtain ⟨p, hload, hresult⟩ := (zero rfl).2 "PUSH -7\r\n\tPUSH 0 # nothing\n\nMOD\nRETURN"
    (by decide +kernel)
  exact ⟨p, hload, hresult .detached () 11 (by decide)⟩

end MeteredLedger.Machine
