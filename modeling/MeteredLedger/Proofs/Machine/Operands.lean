import MeteredLedger.Proofs.Machine.Execution
import MeteredLedger.Proofs.Value

/-!
# What an instruction does to the stack

Instructions that neither jump nor reach outside the machine do the same wherever
they stand: in every program, with every host, and on top of whatever else is on
the stack. `Exchanges` says which values such an instruction takes off the stack
and which ones it leaves in their place, and `FailsOn` says for which values it
fails. An instruction does only one of these things for given values, since there
is always a program in which it is executed.
-/

namespace MeteredLedger.Machine

/-- Wherever the instruction is executed, it takes the values `taken` off the
stack, given with the top first, and leaves the values `left` in their place. It
is charged, control is at the next line, and nothing else changes. -/
structure Exchanges (opcode : Opcode) (args : List String) (taken left : List Value) : Prop where
  step_eq : ∀ {σ : Type} {p : Program} (host : Host σ) {s : State σ} {rest : List Value},
    Fetched p s ⟨opcode.mnemonic, args⟩ opcode → s.store.stack = taken ++ rest →
      step p host s = .next (s.charge opcode { s.store with stack := left ++ rest } (s.pc + 1))

/-- Wherever the instruction is executed, it takes the values `taken` off the
stack and fails. -/
structure FailsOn (opcode : Opcode) (args : List String) (taken : List Value) (fault : Fault) :
    Prop where
  step_eq : ∀ {σ : Type} {p : Program} (host : Host σ) {s : State σ} {rest : List Value},
    Fetched p s ⟨opcode.mnemonic, args⟩ opcode → s.store.stack = taken ++ rest →
      step p host s = .halt ⟨{ s.record opcode with store := { s.store with stack := rest } },
        .error ⟨s.pc, fault⟩⟩

section

variable {opcode : Opcode} {op : Operation} {args : List String} {taken left left' : List Value}
variable {fault : Fault}

theorem exchanges_of_perform (hdecode : ∀ p, Operation.decode p opcode args = .ok op)
    (hperform : ∀ {σ : Type} (host : Host σ) (s : Store σ) (rest : List Value),
      s.stack = taken ++ rest → perform host op s = ⟨{ s with stack := left ++ rest }, .ok .next⟩) :
    Exchanges opcode args taken left := by
  constructor
  intro σ p host s rest fetched hstack
  exact (Rule.proceeds fetched (hdecode p) (hperform host s.store rest hstack)).step_eq

theorem failsOn_of_perform (hdecode : ∀ p, Operation.decode p opcode args = .ok op)
    (hperform : ∀ {σ : Type} (host : Host σ) (s : Store σ) (rest : List Value),
      s.stack = taken ++ rest → perform host op s = ⟨{ s with stack := rest }, .error fault⟩) :
    FailsOn opcode args taken fault := by
  constructor
  intro σ p host s rest fetched hstack
  exact (Rule.fails fetched (hdecode p) (hperform host s.store rest hstack)).step_eq

/-- Every instruction of the instruction set is executed somewhere, with any
values on the stack. -/
theorem exists_fetched (opcode : Opcode) (args : List String) (stack : List Value) :
    ∃ (p : Program) (s : State Unit),
      Fetched p s ⟨opcode.mnemonic, args⟩ opcode ∧ s.store.stack = stack := by
  let alone : Program := ⟨#[.instruction ⟨opcode.mnemonic, args⟩], ∅, rfl⟩
  exact ⟨alone, ⟨⟨stack, ∅, (), []⟩, 0, opcode.cost, []⟩, fetched_of_line rfl (Nat.le_refl _), rfl⟩

/-- An instruction leaves the same values each time. -/
theorem Exchanges.unique (h : Exchanges opcode args taken left)
    (h' : Exchanges opcode args taken left') : left = left' := by
  obtain ⟨p, s, fetched, hstack⟩ := exists_fetched opcode args taken
  have hempty : s.store.stack = taken ++ [] := by rw [hstack, List.append_nil]
  have hsteps := (h.step_eq .detached fetched hempty).symm.trans
    (h'.step_eq .detached fetched hempty)
  have hstores := congrArg (fun t => t.store.stack) (Step.next.inj hsteps)
  simpa using hstores

theorem FailsOn.not_exchanges (h : FailsOn opcode args taken fault) :
    ¬ Exchanges opcode args taken left := by
  intro exchanges
  obtain ⟨p, s, fetched, hstack⟩ := exists_fetched opcode args taken
  have hempty : s.store.stack = taken ++ [] := by rw [hstack, List.append_nil]
  have hsteps := (h.step_eq .detached fetched hempty).symm.trans
    (exchanges.step_eq .detached fetched hempty)
  simp at hsteps

end

/-! ## Literals -/

section

variable {token : String} {more : List String} {n : Int64}

theorem exchanges_push (h : Decimal.readInt64? token = some n) :
    Exchanges .push (token :: more) [] [.int n] := by
  have hdecode (p : Program) :
      Operation.decode p .push (token :: more) = .ok (.push (.int n)) := by
    simp only [Operation.decode, Operation.readArgument, Operation.argument, h]
    rfl
  apply exchanges_of_perform hdecode
  rintro σ host s rest rfl
  rfl

theorem exchanges_pushArg (token : String) (more : List String) :
    Exchanges .pushArg (token :: more) [] [.ofLiteral token] := by
  have hdecode (p : Program) :
      Operation.decode p .pushArg (token :: more) = .ok (.push (.ofLiteral token)) := rfl
  apply exchanges_of_perform hdecode
  rintro σ host s rest rfl
  rfl

/-- What is pushed for a bound token as an integer is pushed for it as a literal too. -/
theorem Exchanges.push_of_pushArg (h : Exchanges .pushArg (token :: more) [] [.int n]) :
    Exchanges .push (token :: more) [] [.int n] := by
  have hvalue : Value.ofLiteral token = .int n :=
    List.singleton_inj.mp ((exchanges_pushArg token more).unique h)
  obtain rfl := Value.ofLiteral_eq_int_iff.mp hvalue
  exact exchanges_push (Decimal.readInt64?_ofInt64 n)

end

/-- Bound tokens keep their spelling. Whatever the token, its value is displayed
as the token and is never undefined; it is an integer exactly if the token is the
canonical decimal form of this integer, which the display of an integer always
is. So different tokens have different values, and an instruction that pushes a
bound token as an integer pushes what the same token pushes as a literal. -/
theorem bound_tokens_keep_spelling :
    (∀ token, (Value.ofLiteral token).display = token ∧ Value.ofLiteral token ≠ .undefined) ∧
    (∀ token n, Value.ofLiteral token = .int n ↔ Decimal.IsCanonical token.toList n.toInt) ∧
    (∀ n, Value.ofLiteral (Value.int n).display = .int n) ∧
    (∀ token token', Value.ofLiteral token = Value.ofLiteral token' → token = token') ∧
    ∀ token more n, Exchanges .pushArg (token :: more) [] [.int n] →
      Exchanges .push (token :: more) [] [.int n] := by
  refine ⟨?_, ?_, ?_, ?_, ?_⟩
  · intro token
    exact ⟨Value.display_ofLiteral token, Value.ofLiteral_ne_undefined token⟩
  · intro token n
    exact Value.ofLiteral_eq_int_iff_isCanonical
  · intro n
    exact Value.ofLiteral_eq_int_iff.mpr rfl
  · intro token token'
    exact Value.ofLiteral_inj
  · intro token more n
    exact Exchanges.push_of_pushArg

/-- The least integer is pushed alike in both ways. A number that is too large, or
that has a plus sign, a leading zero or a negative zero, stays the text that it
is. -/
theorem odd_tokens_keep_spelling :
    (Exchanges .pushArg ["-9223372036854775808"] [] [.int .minValue] ∧
      Exchanges .push ["-9223372036854775808"] [] [.int .minValue]) ∧
    (∀ token ∈ ["9223372036854775808", "+5", "007", "-0", "", "-", "5 "],
      Value.ofLiteral token = .text token ∧
        ∀ n : Int64, ¬ Decimal.IsCanonical token.toList n.toInt) ∧
    Value.ofLiteral "007" ≠ Value.ofLiteral "7" := by
  obtain ⟨-, canonical, integer, injective, pushed⟩ := bound_tokens_keep_spelling
  have hleast : Value.ofLiteral "-9223372036854775808" = .int .minValue := integer .minValue
  have least : Exchanges .pushArg ["-9223372036854775808"] [] [.int .minValue] :=
    hleast ▸ exchanges_pushArg "-9223372036854775808" []
  have texts : ∀ token ∈ ["9223372036854775808", "+5", "007", "-0", "", "-", "5 "],
      Value.ofLiteral token = .text token := by decide +kernel
  refine ⟨⟨least, pushed _ _ _ least⟩, ?_, ?_⟩
  · intro token htoken
    refine ⟨texts token htoken, ?_⟩
    intro n hn
    simp [texts token htoken, ← canonical token n] at hn
  · intro heq
    exact absurd (injective _ _ heq) (by decide)

/-! ## Operations on two values -/

section

variable {x y : Value} {rest : List Value} {s : Store σ}

theorem Store.withOperands_of_stack (h : s.stack = [x, y] ++ rest)
    (continuation : Value → Value → Store σ → Effect σ) :
    s.withOperands continuation = continuation x y { s with stack := rest } := by
  rw [withOperands, h]
  rfl

end

section

variable {a b n : Int64} {op : Arithmetic}

theorem decode_arithmetic (p : Program) (op : Arithmetic) (args : List String) :
    Operation.decode p op.opcode args = .ok (.arithmetic op) := by
  cases op <;> rfl

/-- The value on top of the stack is the right operand. -/
theorem exchanges_arithmetic (h : op.result? a b = some n) (args : List String) :
    Exchanges op.opcode args [.int b, .int a] [.int n] := by
  apply exchanges_of_perform fun p => decode_arithmetic p op args
  intro σ host s rest hstack
  simp only [perform, Store.withOperands_of_stack hstack, performArithmetic, h]
  rfl

theorem failsOn_arithmetic (h : op.result? a b = none) (args : List String) :
    FailsOn op.opcode args [.int b, .int a] .divisionByZero := by
  apply failsOn_of_perform fun p => decode_arithmetic p op args
  intro σ host s rest hstack
  simp only [perform, Store.withOperands_of_stack hstack, performArithmetic, h]
  rfl

end

end MeteredLedger.Machine
