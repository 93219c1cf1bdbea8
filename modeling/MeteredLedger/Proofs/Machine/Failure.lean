import MeteredLedger.Proofs.Verification.StaticFaults

/-!
# How evaluations fail

An instruction that fails may have taken its operands from the stack by then,
and that is all it may have done. An operation takes its operands first and
writes, prints and pushes last, so `Abandons` describes every failure of an
operation: an operand was missing and the stack is now empty, or the operands
were taken and are to blame. Every other failure comes before the first operand
is taken and leaves the store alone.

The state that an evaluation leaves when it fails is therefore the state in
which it came to its last line, but for the operands of that line.
-/

namespace MeteredLedger.Machine

/-- Whether a fault blames the operands of an operation. A missing operand is not one of them. -/
def Fault.blamesOperands : Fault → Bool
  | typeMismatch _ _ | divisionByZero | invalidBlock _ => true
  | _ => false

/-- An operation with the operands of `s` failed, and left another store. -/
inductive Abandons (s : Store σ) : Fault → Store σ → Prop where
  | underflow : s.stack.length < 2 → Abandons s .stackUnderflow { s with stack := [] }
  | one {x : Value} {rest : List Value} {fault : Fault} : s.stack = x :: rest →
      fault.blamesOperands = true → Abandons s fault { s with stack := rest }
  | two {x y : Value} {rest : List Value} {fault : Fault} : s.stack = x :: y :: rest →
      fault.blamesOperands = true → Abandons s fault { s with stack := rest }

/-! ## Single operations -/

/-- Once the operands are taken and `s` is left, an effect that fails blames the
operands and changes nothing more. -/
def Effect.Keeps (s : Store σ) (effect : Effect σ) : Prop :=
  ∀ store fault, effect = ⟨store, .error fault⟩ → store = s ∧ fault.blamesOperands = true

namespace Effect.Keeps

variable {s : Store σ}

theorem of_ok {t : Store σ} {flow : Flow} : Keeps s ⟨t, .ok flow⟩ := by
  intro store fault h
  simp at h

theorem fail {fault : Fault} (h : fault.blamesOperands = true) : Keeps s (s.fail fault) := by
  intro store fault' heq
  obtain ⟨rfl, rfl⟩ : s = store ∧ fault = fault' := by simpa [Store.fail] using heq
  exact ⟨rfl, h⟩

theorem performArithmetic (op : Arithmetic) (x y : Value) :
    Keeps s (performArithmetic op x y s) := by
  unfold Machine.performArithmetic
  split
  · split
    · exact of_ok
    · exact fail rfl
  · exact fail rfl
  · exact fail rfl

theorem performComparison (op : Comparison) (x y : Value) :
    Keeps s (performComparison op x y s) := by
  unfold Machine.performComparison
  split
  · exact of_ok
  · exact of_ok
  · exact fail rfl
  · exact fail rfl

theorem performTimestamp (host : Host σ) (x : Value) : Keeps s (performTimestamp host x s) := by
  unfold Machine.performTimestamp
  split
  · split
    · exact of_ok
    · exact fail rfl
  · exact fail rfl

end Effect.Keeps

namespace Abandons

variable {s store : Store σ} {fault : Fault}

theorem of_withOperand {continuation : Value → Store σ → Effect σ}
    (h : s.withOperand continuation = ⟨store, .error fault⟩)
    (keeps : ∀ x t, (continuation x t).Keeps t) : Abandons s fault store := by
  rw [Store.withOperand] at h
  split at h
  · next x rest hstack =>
    obtain ⟨rfl, blames⟩ := keeps x _ store fault h
    exact .one hstack blames
  · next hstack =>
    obtain ⟨rfl, rfl⟩ : s = store ∧ .stackUnderflow = fault := by simpa [Store.fail] using h
    have missing : Abandons s .stackUnderflow { s with stack := [] } :=
      .underflow (by simp [hstack])
    rwa [← hstack] at missing

theorem of_withOperands {continuation : Value → Value → Store σ → Effect σ}
    (h : s.withOperands continuation = ⟨store, .error fault⟩)
    (keeps : ∀ x y t, (continuation x y t).Keeps t) : Abandons s fault store := by
  rw [Store.withOperands] at h
  split at h
  · next x y rest hstack =>
    obtain ⟨rfl, blames⟩ := keeps x y _ store fault h
    exact .two hstack blames
  · next hstack =>
    obtain ⟨rfl, rfl⟩ : { s with stack := [] } = store ∧ .stackUnderflow = fault := by
      simpa [Store.fail] using h
    refine .underflow ?_
    cases hs : s.stack with
    | nil => simp
    | cons x below =>
      cases below with
      | nil => simp
      | cons y rest => exact absurd hs (hstack x y rest)

/-- Every operation that fails abandons its operands, and does nothing else. -/
theorem of_perform {host : Host σ} {op : Operation}
    (h : perform host op s = ⟨store, .error fault⟩) : Abandons s fault store := by
  unfold Machine.perform at h
  cases op with
  | push | load | jump => simp [Store.push] at h
  | arithmetic op => exact of_withOperands h fun x y _ => .performArithmetic op x y
  | compare op => exact of_withOperands h fun x y _ => .performComparison op x y
  | equal => exact of_withOperands h fun _ _ _ => .of_ok
  | isZero | pop | store | branch | ret => exact of_withOperand h fun _ _ => .of_ok
  | timestamp => exact of_withOperand h fun x _ => .performTimestamp host x
  | print coerced =>
    refine of_withOperand h fun x t => ?_
    split
    · exact .of_ok
    · exact .of_ok

/-- Nothing but the stack has changed. -/
theorem frame (h : Abandons s fault store) :
    store.memory = s.memory ∧ store.host = s.host ∧ store.printed = s.printed := by
  cases h <;> exact ⟨rfl, rfl, rfl⟩

theorem exists_popped (h : Abandons s fault store) :
    ∃ popped, popped.length ≤ 2 ∧ s.stack = popped ++ store.stack := by
  cases h with
  | underflow few => exact ⟨s.stack, Nat.le_of_lt few, by simp⟩
  | @one x rest _ hstack => exact ⟨[x], by simp, hstack⟩
  | @two x y rest _ hstack => exact ⟨[x, y], by simp, hstack⟩

theorem underflow_or_blamesOperands (h : Abandons s fault store) :
    fault = .stackUnderflow ∧ store.stack = [] ∨ fault.blamesOperands = true := by
  cases h with
  | underflow => exact .inl ⟨rfl, rfl⟩
  | one _ blames | two _ blames => exact .inr blames

end Abandons

namespace Operation

variable {p : Program} {opcode : Opcode} {args : List String} {fault : Fault}

theorem isStatic_of_argument (h : argument opcode args = .error fault) : fault.isStatic = true := by
  cases args with
  | nil =>
    obtain rfl := Except.error.inj h
    rfl
  | cons token rest => simp [argument] at h

theorem isStatic_of_readArgument {read : String → Option α}
    (h : readArgument opcode args read = .error fault) : fault.isStatic = true := by
  rw [readArgument] at h
  split at h
  · next fault' hargument =>
    obtain rfl := Except.error.inj h
    exact isStatic_of_argument hargument
  · split at h
    · simp at h
    · obtain rfl := Except.error.inj h
      rfl

theorem isStatic_of_readLabel (h : readLabel p opcode args = .error fault) :
    fault.isStatic = true := by
  rw [readLabel] at h
  split at h
  · next fault' hargument =>
    obtain rfl := Except.error.inj h
    exact isStatic_of_argument hargument
  · split at h
    · simp at h
    · obtain rfl := Except.error.inj h
      rfl

/-- What is wrong with an argument shows in the text of the instruction. -/
theorem isStatic_of_decode (h : decode p opcode args = .error fault) : fault.isStatic = true := by
  have inner {α : Type} {read : Except Fault α} {f : α → Operation}
      (hmap : read.map f = .error fault) : read = .error fault := by
    cases read with
    | error fault' => simpa [Except.map] using hmap
    | ok a => simp [Except.map] at hmap
  cases opcode with
  | push | load | store => exact isStatic_of_readArgument (inner h)
  | pushArg => exact isStatic_of_argument (inner h)
  | jump | jz | jnz => exact isStatic_of_readLabel (inner h)
  | _ => simp [decode] at h

end Operation

/-! ## Whole evaluations -/

/-- An evaluation from `s` is in the state `t` when it comes to its last line. -/
def LastFetch (p : Program) (host : Host σ) (s t : State σ) : Prop :=
  (∃ n, Steps p host n s t) ∧ ∃ h, step p host t = .halt h

/-- The evaluation of an instruction from `s` failed with `e` and left `t`. At
most two operands are gone, and what else there was is still there. -/
structure CleanFailure (p : Program) (s t : State σ) (e : Error) : Prop where
  /-- Control has come to the instruction that fails, and stays there. -/
  fetched : s.pc = e.index
  pc : t.pc = e.index
  inside : e.index < p.size
  memory : t.store.memory = s.store.memory
  host : t.store.host = s.store.host
  printed : t.store.printed = s.store.printed
  gas : t.gas = s.gas
  stack : ∃ popped, popped.length ≤ 2 ∧ s.store.stack = popped ++ t.store.stack
  untouched : e.fault.isStatic = true ∨ e.isOutOfGas = true → t.store.stack = s.store.stack
  emptied : e.fault = .stackUnderflow → t.store.stack = []
  /-- The instruction runs out of gas exactly if it is known and costs more than there is. -/
  line : ∃ i, p.line? e.index = some (.instruction i) ∧
    ∀ opcode required remaining, e.fault = .outOfGas opcode required remaining ↔
      i.opcode? = some opcode ∧ required = opcode.cost ∧ remaining = s.gas ∧ remaining < required

section

variable {p : Program} {host : Host σ} {s t : State σ} {e : Error}

theorem Steps.run_eq {n : Nat} (steps : Steps p host n s t) : run p host s = run p host t := by
  induction steps with
  | refl => rfl
  | cons hstep _ ih => rw [run_of_next hstep, ih]

theorem exists_lastFetch (p : Program) (host : Host σ) (s : State σ) :
    ∃ t, LastFetch p host s t := by
  obtain ⟨n, t, steps, rule⟩ := exists_steps_halt p host s
  exact ⟨t, ⟨n, steps⟩, _, rule.step_eq⟩

/-- The last line decides how the evaluation ends. -/
theorem LastFetch.rule (last : LastFetch p host s t) : Rule p host t (.halt (run p host s)) := by
  obtain ⟨⟨n, steps⟩, h, hstep⟩ := last
  rw [steps.run_eq, run_of_halt hstep]
  exact step_eq_iff.mp hstep

/-- An instruction that is paid for does not run out of gas. -/
theorem Fetched.eq_outOfGas_iff {i : Instruction} {opcode : Opcode} {fault : Fault}
    (fetched : Fetched p s i opcode) (other : ∀ op cost gas, fault ≠ .outOfGas op cost gas)
    (opcode' : Opcode) (required remaining : Nat) :
    fault = .outOfGas opcode' required remaining ↔
      i.opcode? = some opcode' ∧ required = opcode'.cost ∧ remaining = s.gas ∧
        remaining < required := by
  constructor
  · intro h
    exact absurd h (other _ _ _)
  · rintro ⟨known, rfl, rfl, short⟩
    obtain rfl : opcode = opcode' := by simpa [fetched.known] using known
    exact absurd fetched.paid (Nat.not_le_of_gt short)

/-- A failure before the first operand is taken leaves the store alone. -/
theorem CleanFailure.of_store {i : Instruction} {fault : Fault} {trace : List Charge}
    (hline : p.line? s.pc = some (.instruction i)) (other : fault ≠ .stackUnderflow)
    (hgas : ∀ opcode required remaining, fault = .outOfGas opcode required remaining ↔
      i.opcode? = some opcode ∧ required = opcode.cost ∧ remaining = s.gas ∧
        remaining < required) :
    CleanFailure p s { s with trace } ⟨s.pc, fault⟩ where
  fetched := rfl
  pc := rfl
  inside := Program.lt_size_of_line? hline
  memory := rfl
  host := rfl
  printed := rfl
  gas := rfl
  stack := ⟨[], by simp⟩
  untouched _ := rfl
  emptied h := absurd h other
  line := ⟨i, hline, hgas⟩

/-- An operation that fails takes nothing but its operands along. -/
theorem Abandons.cleanFailure {i : Instruction} {opcode : Opcode} {fault : Fault}
    {store : Store σ} (fetched : Fetched p s i opcode) (abandons : Abandons s.store fault store) :
    CleanFailure p s { s.record opcode with store } ⟨s.pc, fault⟩ where
  fetched := rfl
  pc := rfl
  inside := Program.lt_size_of_line? fetched.line
  memory := abandons.frame.1
  host := abandons.frame.2.1
  printed := abandons.frame.2.2
  gas := rfl
  stack := abandons.exists_popped
  untouched h := by
    -- neither a missing operand nor a wrong one is a matter of the text or of the gas
    rcases abandons.underflow_or_blamesOperands with ⟨rfl, -⟩ | blames
    · simp [Fault.isStatic, Error.isOutOfGas] at h
    · cases fault <;> simp [Fault.blamesOperands, Fault.isStatic, Error.isOutOfGas] at blames h
  emptied h := by
    rcases abandons.underflow_or_blamesOperands with ⟨-, empty⟩ | blames
    · exact empty
    · simp [show fault = .stackUnderflow from h, Fault.blamesOperands] at blames
  line := by
    refine ⟨i, fetched.line, fetched.eq_outOfGas_iff ?_⟩
    rintro op cost gas rfl
    rcases abandons.underflow_or_blamesOperands with ⟨h, -⟩ | blames
    · simp at h
    · simp [Fault.blamesOperands] at blames

/-- A line that fails does so cleanly. -/
theorem Rule.cleanFailure (rule : Rule p host s (.halt ⟨t, .error e⟩)) : CleanFailure p s t e := by
  cases rule with
  | unknown hline hopcode =>
    exact .of_store hline (by simp) (by simp [hopcode])
  | @unaffordable i opcode hline hopcode short =>
    refine .of_store hline (by simp) ?_
    intro opcode' required remaining
    constructor
    · intro h
      obtain ⟨rfl, rfl, rfl⟩ : opcode = opcode' ∧ opcode.cost = required ∧ s.gas = remaining := by
        simpa using h
      exact ⟨hopcode, rfl, rfl, short⟩
    · rintro ⟨known, rfl, rfl, -⟩
      obtain rfl : opcode = opcode' := by simpa [hopcode] using known
      rfl
  | undecodable fetched hdecode =>
    have static := Operation.isStatic_of_decode hdecode
    refine .of_store fetched.line ?_ (fetched.eq_outOfGas_iff ?_)
    · rintro rfl
      simp [Fault.isStatic] at static
    · rintro op cost gas rfl
      simp [Fault.isStatic] at static
  | fails fetched hdecode hperform => exact (Abandons.of_perform hperform).cleanFailure fetched

end

/-- A failing evaluation stops cleanly at the instruction that fails. Its last
line is that instruction, where control stays. Nothing is charged, written or
printed for it, and at most its two operands are taken from the stack: none of
them where the text of the instruction or the gas is to blame, and all that
there were where one is missing. The gas is to blame exactly if the operation is
known and costs more than is left. -/
theorem failure_is_clean (p : Program) (host : Host σ) (limit : Nat) (memory : σ) (e : Error)
    (failed : (evaluate p host limit memory).result = .error e) :
    (∃ s, LastFetch p host (.initial limit memory) s) ∧
    ∀ s, LastFetch p host (.initial limit memory) s →
      CleanFailure p s (evaluate p host limit memory).state e := by
  refine ⟨exists_lastFetch p host _, ?_⟩
  intro s last
  have rule := last.rule
  change Rule p host s (.halt (evaluate p host limit memory)) at rule
  generalize evaluate p host limit memory = h at failed rule
  obtain ⟨final, result⟩ := h
  obtain rfl : result = .error e := failed
  exact rule.cleanFailure

/-- Stores a value, prints another one, and divides a third one by zero. -/
def spoiledDivision : Program :=
  ⟨#[.instruction ⟨"PUSH", ["7"]⟩, .instruction ⟨"STORE", ["0"]⟩,
    .instruction ⟨"PUSHARG", ["x"]⟩, .instruction ⟨"PRINTARG", []⟩, .instruction ⟨"PUSH", ["1"]⟩,
    .instruction ⟨"PUSH", ["2"]⟩, .instruction ⟨"PUSH", ["0"]⟩, .instruction ⟨"DIV", []⟩], ∅, rfl⟩

/-- The division takes its two operands from the stack and is not charged. The
value below them, the written cell and the printed value stay. -/
theorem spoiledDivision_failure_is_clean :
    (evaluate spoiledDivision .detached 24 ()).result = .error ⟨7, .divisionByZero⟩ ∧
    ∃ s, LastFetch spoiledDivision .detached (.initial 24 ()) s ∧
      s.store.stack = [.int 0, .int 2, .int 1] ∧ s.store.printed = [.text "x"] ∧ s.gas = 6 ∧
      (evaluate spoiledDivision .detached 24 ()).state.store.stack = [.int 1] ∧
      CleanFailure spoiledDivision s (evaluate spoiledDivision .detached 24 ()).state
        ⟨7, .divisionByZero⟩ := by
  have within : (runWithin spoiledDivision .detached 8 (.initial 24 ())).isSome := rfl
  have failed : (evaluate spoiledDivision .detached 24 ()).result =
      .error ⟨7, .divisionByZero⟩ := by
    rw [evaluate, run_eq_get within]
    rfl
  have steps : Steps spoiledDivision .detached 7 (.initial 24 ()) _ :=
    .cons rfl (.cons rfl (.cons rfl (.cons rfl (.cons rfl (.cons rfl (.cons rfl (.refl _)))))))
  have last : LastFetch spoiledDivision .detached (.initial 24 ()) _ := ⟨⟨7, steps⟩, _, rfl⟩
  refine ⟨failed, _, last, rfl, rfl, rfl, ?_, ?_⟩
  · rw [evaluate, run_eq_get within]
    rfl
  · exact (failure_is_clean spoiledDivision .detached 24 () _ failed).2 _ last

end MeteredLedger.Machine
