import MeteredLedger.Proofs.Machine.Execution

/-!
# What lies deeper on the stack

An operation takes its operands from the top of the stack and never looks
further down. As long as it finds them, values that lie deeper are left alone,
and it makes no difference whether there are any.

`onTopOf` puts such values below the stack of a store, a state or the end of an
evaluation. Each operation, each line and each evaluation commutes with it,
unless an operand is missing: then the values below would be taken instead.
-/

namespace MeteredLedger.Machine

/-- The store with more values at the bottom of its stack, the deepest one last. -/
def Store.onTopOf (below : List Value) (s : Store σ) : Store σ :=
  { s with stack := s.stack ++ below }

def Effect.onTopOf (below : List Value) (effect : Effect σ) : Effect σ :=
  { effect with store := effect.store.onTopOf below }

def State.onTopOf (below : List Value) (s : State σ) : State σ :=
  { s with store := s.store.onTopOf below }

def Halt.onTopOf (below : List Value) (h : Halt σ) : Halt σ :=
  { h with state := h.state.onTopOf below }

/-! ## Single operations -/

section

variable {below : List Value} {s : Store σ}

theorem Store.fail_onTopOf (fault : Fault) :
    (s.onTopOf below).fail fault = (s.fail fault).onTopOf below := rfl

theorem Store.push_onTopOf (v : Value) :
    (s.onTopOf below).push v = (s.push v).onTopOf below := rfl

theorem Store.print_onTopOf (host : Host σ) (v : Value) :
    (s.onTopOf below).print host v = (s.print host v).onTopOf below := rfl

/-- An operand that is there is the same with other values below it. -/
theorem Store.withOperand_onTopOf {continuation : Value → Store σ → Effect σ}
    (enough : (s.withOperand continuation).flow ≠ .error .stackUnderflow)
    (rest : ∀ x t, continuation x (t.onTopOf below) = (continuation x t).onTopOf below) :
    (s.onTopOf below).withOperand continuation = (s.withOperand continuation).onTopOf below := by
  obtain ⟨stack, memory, remembered, printed⟩ := s
  cases stack with
  | nil => exact absurd rfl enough
  | cons x deeper => exact rest x ⟨deeper, memory, remembered, printed⟩

theorem Store.withOperands_onTopOf {continuation : Value → Value → Store σ → Effect σ}
    (enough : (s.withOperands continuation).flow ≠ .error .stackUnderflow)
    (rest : ∀ x y t, continuation x y (t.onTopOf below) = (continuation x y t).onTopOf below) :
    (s.onTopOf below).withOperands continuation = (s.withOperands continuation).onTopOf below := by
  obtain ⟨stack, memory, remembered, printed⟩ := s
  match stack with
  | [] | [_] => exact absurd rfl enough
  | x :: y :: deeper => exact rest x y ⟨deeper, memory, remembered, printed⟩

theorem performArithmetic_onTopOf (op : Arithmetic) (x y : Value) :
    performArithmetic op x y (s.onTopOf below) = (performArithmetic op x y s).onTopOf below := by
  unfold performArithmetic
  split
  · split
    · exact Store.push_onTopOf _
    · exact Store.fail_onTopOf _
  · exact Store.fail_onTopOf _
  · exact Store.fail_onTopOf _

theorem performComparison_onTopOf (op : Comparison) (x y : Value) :
    performComparison op x y (s.onTopOf below) = (performComparison op x y s).onTopOf below := by
  unfold performComparison
  split
  · exact Store.push_onTopOf _
  · exact Store.push_onTopOf _
  · exact Store.fail_onTopOf _
  · exact Store.fail_onTopOf _

theorem performTimestamp_onTopOf (host : Host σ) (x : Value) :
    performTimestamp host x (s.onTopOf below) = (performTimestamp host x s).onTopOf below := by
  cases x with
  | text block =>
    have same : host.timestamp (s.onTopOf below).host block = host.timestamp s.host block := rfl
    simp only [performTimestamp, same]
    cases host.timestamp s.host block with
    | ok time => exact Store.push_onTopOf _
    | error reason => exact Store.fail_onTopOf _
  | int n => exact Store.fail_onTopOf _
  | undefined => exact Store.fail_onTopOf _

/-- An operation that finds its operands leaves what lies deeper alone. -/
theorem perform_onTopOf {host : Host σ} {op : Operation}
    (enough : (perform host op s).flow ≠ .error .stackUnderflow) :
    perform host op (s.onTopOf below) = (perform host op s).onTopOf below := by
  unfold perform at enough ⊢
  cases op with
  | push | load => exact Store.push_onTopOf _
  | jump => rfl
  | arithmetic op =>
    exact Store.withOperands_onTopOf enough fun x y t => performArithmetic_onTopOf op x y
  | compare op =>
    exact Store.withOperands_onTopOf enough fun x y t => performComparison_onTopOf op x y
  | equal => exact Store.withOperands_onTopOf enough fun x y t => Store.push_onTopOf _
  | isZero => exact Store.withOperand_onTopOf enough fun x t => Store.push_onTopOf _
  | pop | store | branch | ret => exact Store.withOperand_onTopOf enough fun x t => rfl
  | timestamp => exact Store.withOperand_onTopOf enough fun x t => performTimestamp_onTopOf host x
  | print coerced =>
    refine Store.withOperand_onTopOf enough fun x t => ?_
    split
    · exact Store.print_onTopOf host _
    · exact Store.print_onTopOf host _

end

/-! ## Lines and evaluations -/

section

variable {p : Program} {host : Host σ} {s t : State σ} {h : Halt σ} {below : List Value}

/-- Whether the evaluation ended because an operand was missing. -/
def Halt.Underflows (h : Halt σ) : Prop :=
  ∃ index, h.result = .error ⟨index, .stackUnderflow⟩

theorem Fetched.onTopOf {i : Instruction} {opcode : Opcode} (fetched : Fetched p s i opcode) :
    Fetched p (s.onTopOf below) i opcode :=
  ⟨fetched.line, fetched.known, fetched.paid⟩

/-- What an operation leaves with other values below its operands. -/
theorem perform_onTopOf_of_eq {op : Operation} {store : Store σ} {flow : Except Fault Flow}
    (hperform : perform host op s.store = ⟨store, flow⟩) (enough : flow ≠ .error .stackUnderflow)
    (below : List Value) :
    perform host op (s.onTopOf below).store = ⟨store.onTopOf below, flow⟩ := by
  have found : (perform host op s.store).flow ≠ .error .stackUnderflow := by
    rw [hperform]
    exact enough
  have hbelow : perform host op (s.store.onTopOf below) = (perform host op s.store).onTopOf below :=
    perform_onTopOf found
  rw [hperform] at hbelow
  exact hbelow

theorem Rule.onTopOf_next (rule : Rule p host s (.next t)) (below : List Value) :
    Rule p host (s.onTopOf below) (.next (t.onTopOf below)) := by
  cases rule with
  | marker hline => exact .marker hline
  | proceeds fetched hdecode hperform =>
    exact .proceeds fetched.onTopOf hdecode (perform_onTopOf_of_eq hperform (by simp) below)
  | jumps fetched hdecode hperform =>
    exact .jumps fetched.onTopOf hdecode (perform_onTopOf_of_eq hperform (by simp) below)

theorem Rule.onTopOf_halt (rule : Rule p host s (.halt h)) (enough : ¬ h.Underflows)
    (below : List Value) : Rule p host (s.onTopOf below) (.halt (h.onTopOf below)) := by
  cases rule with
  | finish hline => exact .finish hline
  | unknown hline hopcode => exact .unknown hline hopcode
  | unaffordable hline hopcode hcost => exact .unaffordable hline hopcode hcost
  | undecodable fetched hdecode => exact .undecodable fetched.onTopOf hdecode
  | fails fetched hdecode hperform =>
    refine .fails fetched.onTopOf hdecode (perform_onTopOf_of_eq hperform ?_ below)
    rintro ⟨⟩
    exact enough ⟨_, rfl⟩
  | returns fetched hdecode hperform =>
    exact .returns fetched.onTopOf hdecode (perform_onTopOf_of_eq hperform (by simp) below)

/-- An evaluation that never misses an operand leaves what lies deeper alone. -/
theorem run_onTopOf (p : Program) (host : Host σ) (below : List Value) (s : State σ) :
    ¬ (run p host s).Underflows → run p host (s.onTopOf below) = (run p host s).onTopOf below := by
  apply run_induction (motive := fun s h =>
    ¬ h.Underflows → run p host (s.onTopOf below) = h.onTopOf below)
  · intro s h rule enough
    exact run_of_halt (rule.onTopOf_halt enough below).step_eq
  · intro s t h rule ih enough
    rw [run_of_next (rule.onTopOf_next below).step_eq]
    exact ih enough

end

/-! ## Stacks from the bottom up -/

namespace State

/-- The stack, its bottom first. -/
def stackUp (s : State σ) : List Value :=
  s.store.stack.reverse

/-- The same state with another stack, which is given with its bottom first. -/
def withStackUp (s : State σ) (stack : List Value) : State σ :=
  { s with store := { s.store with stack := stack.reverse } }

@[simp] theorem stackUp_withStackUp (s : State σ) (stack : List Value) :
    (s.withStackUp stack).stackUp = stack :=
  List.reverse_reverse stack

theorem withStackUp_append (s : State σ) (base stack : List Value) :
    s.withStackUp (base ++ stack) = (s.withStackUp stack).onTopOf base.reverse := by
  simp [withStackUp, onTopOf, Store.onTopOf]

theorem withStackUp_append_stackUp (s : State σ) (base : List Value) :
    s.withStackUp (base ++ s.stackUp) = s.onTopOf base.reverse := by
  simp [withStackUp, stackUp, onTopOf, Store.onTopOf]

end State

/-- The frame rule for the stack. From any state, an evaluation that does not end
for lack of an operand ends in the same way if its stack starts on top of other
values, given with the bottom first: with the same result, memory, position,
gas, printed values and instructions executed, and with its final stack on top
of the same values. -/
theorem run_on_deeper_stack (p : Program) (host : Host σ) (s : State σ) (base stack : List Value)
    (enough : ∀ index,
      (run p host (s.withStackUp stack)).result ≠ .error ⟨index, .stackUnderflow⟩) :
    let shallow := run p host (s.withStackUp stack)
    run p host (s.withStackUp (base ++ stack)) =
      ⟨shallow.state.withStackUp (base ++ shallow.state.stackUp), shallow.result⟩ := by
  intro shallow
  have never : ¬ shallow.Underflows := fun ⟨index, missing⟩ => enough index missing
  calc run p host (s.withStackUp (base ++ stack))
    _ = run p host ((s.withStackUp stack).onTopOf base.reverse) := by rw [s.withStackUp_append]
    _ = shallow.onTopOf base.reverse := run_onTopOf p host base.reverse _ never
    _ = ⟨shallow.state.onTopOf base.reverse, shallow.result⟩ := rfl
    _ = ⟨shallow.state.withStackUp (base ++ shallow.state.stackUp), shallow.result⟩ := by
      rw [shallow.state.withStackUp_append_stackUp]

/-- Divides a value by twice the value on top of it, which is doubled by way of memory. -/
def halvedQuotient : Program :=
  ⟨#[.instruction ⟨"STORE", ["0"]⟩, .instruction ⟨"LOAD", ["0"]⟩, .instruction ⟨"LOAD", ["0"]⟩,
    .instruction ⟨"ADD", []⟩, .instruction ⟨"DIV", []⟩], ∅, rfl⟩

/-- How the division ends with the gas it needs, from a stack given with the bottom first. -/
def halvedQuotientEnd (stack : List Value) : Halt Unit :=
  run halvedQuotient .detached ((State.initial 17 ()).withStackUp stack)

/-- On top of other values the division gives the same quotient, and it fails in
the same way for a zero, with both operands taken. A missing operand is the
exception: the value on which the stack stands is divided in its place. -/
theorem halvedQuotient_on_deeper_stack :
    ((halvedQuotientEnd [.int 20, .int 2]).result = .ok .endOfProgram ∧
      (halvedQuotientEnd [.int 20, .int 2]).state.stackUp = [.int 5] ∧
      (halvedQuotientEnd [.text "a", .int 9, .int 20, .int 2]).result = .ok .endOfProgram ∧
      (halvedQuotientEnd [.text "a", .int 9, .int 20, .int 2]).state.stackUp =
        [.text "a", .int 9, .int 5]) ∧
    ((halvedQuotientEnd [.int 20, .int 0]).result = .error ⟨4, .divisionByZero⟩ ∧
      (halvedQuotientEnd [.text "a", .int 9, .int 20, .int 0]).result =
        .error ⟨4, .divisionByZero⟩ ∧
      (halvedQuotientEnd [.text "a", .int 9, .int 20, .int 0]).state.stackUp =
        [.text "a", .int 9]) ∧
    (halvedQuotientEnd [.int 2]).result = .error ⟨4, .stackUnderflow⟩ := by
  have within (stack : List Value) (ends : (runWithin halvedQuotient .detached 6
      ((State.initial 17 ()).withStackUp stack)).isSome) :
      halvedQuotientEnd stack = (runWithin halvedQuotient .detached 6 _).get ends := run_eq_get ends
  have deeper (stack : List Value) {result : Except Error Outcome} {final : List Value}
      (hresult : (halvedQuotientEnd stack).result = result)
      (hfinal : (halvedQuotientEnd stack).state.stackUp = final)
      (enough : ∀ index, result ≠ .error ⟨index, .stackUnderflow⟩) :
      (halvedQuotientEnd ([.text "a", .int 9] ++ stack)).result = result ∧
        (halvedQuotientEnd ([.text "a", .int 9] ++ stack)).state.stackUp =
          [.text "a", .int 9] ++ final := by
    subst hresult hfinal
    have hdeeper : halvedQuotientEnd ([.text "a", .int 9] ++ stack) = _ :=
      run_on_deeper_stack halvedQuotient .detached (.initial 17 ()) [.text "a", .int 9] stack enough
    rw [hdeeper]
    exact ⟨rfl, State.stackUp_withStackUp _ _⟩
  have quotient : (halvedQuotientEnd [.int 20, .int 2]).result = .ok .endOfProgram ∧
      (halvedQuotientEnd [.int 20, .int 2]).state.stackUp = [.int 5] := by
    rw [within _ rfl]
    exact ⟨rfl, rfl⟩
  have failure : (halvedQuotientEnd [.int 20, .int 0]).result = .error ⟨4, .divisionByZero⟩ ∧
      (halvedQuotientEnd [.int 20, .int 0]).state.stackUp = [] := by
    rw [within _ rfl]
    exact ⟨rfl, rfl⟩
  have missing : (halvedQuotientEnd [.int 2]).result = .error ⟨4, .stackUnderflow⟩ := by
    rw [within _ rfl]
    rfl
  refine ⟨⟨quotient.1, quotient.2, ?_⟩, ⟨failure.1, ?_⟩, missing⟩
  · exact deeper _ quotient.1 quotient.2 (by simp)
  · exact deeper _ failure.1 failure.2 (by simp)

end MeteredLedger.Machine
