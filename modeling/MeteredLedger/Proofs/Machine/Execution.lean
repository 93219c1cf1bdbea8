import MeteredLedger.Machine.Run

/-!
# Rules of execution

`Rule p host s r` says that the current line of `s` leads to `r`. There is one
rule for each way a line can go, with every condition under which it goes that
way, and together they describe `step` exactly. Laws about single lines are
proved by cases on the rules and never open `step` itself.

`Steps p host n s t` is a run of exactly `n` lines, none of which halts, and
`runWithin` is an evaluation that is cut off after a number of lines. A law about
whole evaluations follows from what one line does by `run_induction`.
-/

namespace MeteredLedger.Machine

/-- The current line is the instruction `i`, its operation is known, and the
remaining gas pays for it. -/
structure Fetched (p : Program) (s : State σ) (i : Instruction) (opcode : Opcode) : Prop where
  line : p.line? s.pc = some (.instruction i)
  known : i.opcode? = some opcode
  paid : opcode.cost ≤ s.gas

namespace State

/-- The state after an instruction that was charged: it left `store`, and
control is at `pc`. -/
def charge (s : State σ) (opcode : Opcode) (store : Store σ) (pc : Nat) : State σ :=
  { s.record opcode with store, gas := s.gas - opcode.cost, pc }

variable (s : State σ) (opcode : Opcode) (store : Store σ) (pc : Nat)

@[simp] theorem charge_store : (s.charge opcode store pc).store = store := rfl

@[simp] theorem charge_pc : (s.charge opcode store pc).pc = pc := rfl

@[simp] theorem charge_gas : (s.charge opcode store pc).gas = s.gas - opcode.cost := rfl

@[simp] theorem charge_trace :
    (s.charge opcode store pc).trace = ⟨s.pc, opcode, s.gas⟩ :: s.trace := rfl

end State

/-- What the current line leads to. A fault that comes from the argument leaves
the store alone; one that comes from the operands leaves them popped. -/
inductive Rule (p : Program) (host : Host σ) (s : State σ) : Step σ → Prop where
  | finish : p.line? s.pc = none → Rule p host s (.halt ⟨s, .ok .endOfProgram⟩)
  | marker {name : String} : p.line? s.pc = some (.label name) →
      Rule p host s (.next { s with pc := s.pc + 1 })
  | unknown {i : Instruction} : p.line? s.pc = some (.instruction i) → i.opcode? = none →
      Rule p host s (.halt ⟨s, .error ⟨s.pc, .unknownOpcode i.mnemonic⟩⟩)
  | unaffordable {i : Instruction} {opcode : Opcode} :
      p.line? s.pc = some (.instruction i) → i.opcode? = some opcode → s.gas < opcode.cost →
      Rule p host s (.halt ⟨s, .error ⟨s.pc, .outOfGas opcode opcode.cost s.gas⟩⟩)
  | undecodable {i : Instruction} {opcode : Opcode} {fault : Fault} :
      Fetched p s i opcode → Operation.decode p opcode i.args = .error fault →
      Rule p host s (.halt ⟨s.record opcode, .error ⟨s.pc, fault⟩⟩)
  | fails {i : Instruction} {opcode : Opcode} {op : Operation} {store : Store σ} {fault : Fault} :
      Fetched p s i opcode → Operation.decode p opcode i.args = .ok op →
      perform host op s.store = ⟨store, .error fault⟩ →
      Rule p host s (.halt ⟨{ s.record opcode with store }, .error ⟨s.pc, fault⟩⟩)
  | proceeds {i : Instruction} {opcode : Opcode} {op : Operation} {store : Store σ} :
      Fetched p s i opcode → Operation.decode p opcode i.args = .ok op →
      perform host op s.store = ⟨store, .ok .next⟩ →
      Rule p host s (.next (s.charge opcode store (s.pc + 1)))
  | jumps {i : Instruction} {opcode : Opcode} {op : Operation} {store : Store σ} {target : Nat} :
      Fetched p s i opcode → Operation.decode p opcode i.args = .ok op →
      perform host op s.store = ⟨store, .ok (.jump target)⟩ →
      Rule p host s (.next (s.charge opcode store (target + 1)))
  | returns {i : Instruction} {opcode : Opcode} {op : Operation} {store : Store σ} {v : Value} :
      Fetched p s i opcode → Operation.decode p opcode i.args = .ok op →
      perform host op s.store = ⟨store, .ok (.ret v)⟩ →
      Rule p host s (.halt ⟨s.charge opcode store s.pc, .ok (.returned v)⟩)

section

variable {p : Program} {host : Host σ} {s t : State σ} {h : Halt σ}

theorem Fetched.step_eq {i : Instruction} {opcode : Opcode} (fetched : Fetched p s i opcode) :
    step p host s = execute p host opcode i.args s := by
  simp only [step, fetched.line, fetched.known, if_pos fetched.paid]

/-- An instruction that is written with the mnemonic of an operation is known. -/
theorem fetched_of_line {opcode : Opcode} {args : List String}
    (hline : p.line? s.pc = some (.instruction ⟨opcode.mnemonic, args⟩))
    (paid : opcode.cost ≤ s.gas) : Fetched p s ⟨opcode.mnemonic, args⟩ opcode :=
  ⟨hline, Opcode.ofMnemonic?_eq_some_iff.mpr rfl, paid⟩

/-- The rules leave no state without a successor. -/
theorem rule_step (p : Program) (host : Host σ) (s : State σ) : Rule p host s (step p host s) := by
  cases hl : p.line? s.pc with
  | none =>
    simp only [step, hl]
    exact .finish hl
  | some line =>
    cases line with
    | label name =>
      simp only [step, hl]
      exact .marker hl
    | instruction i =>
      cases ho : i.opcode? with
      | none =>
        simp only [step, hl, ho, State.fault]
        exact .unknown hl ho
      | some opcode =>
        by_cases hc : opcode.cost ≤ s.gas
        · have fetched : Fetched p s i opcode := ⟨hl, ho, hc⟩
          rw [fetched.step_eq]
          cases hd : Operation.decode p opcode i.args with
          | error fault =>
            simp only [execute, hd, State.fault]
            exact .undecodable fetched hd
          | ok op =>
            simp only [execute, hd]
            cases he : perform host op s.store with
            | mk store flow =>
              -- the operation alone decides where control goes
              cases flow with
              | error fault => exact .fails fetched hd he
              | ok flow =>
                cases flow with
                | next => exact .proceeds fetched hd he
                | jump target => exact .jumps fetched hd he
                | ret v => exact .returns fetched hd he
        · simp only [step, hl, ho, if_neg hc, State.fault]
          exact .unaffordable hl ho (Nat.lt_of_not_le hc)

/-- At most one rule applies, and it gives the step that is taken. -/
theorem Rule.step_eq {r : Step σ} (rule : Rule p host s r) : step p host s = r := by
  cases rule with
  | finish hl => simp only [step, hl]
  | marker hl => simp only [step, hl]
  | unknown hl ho => simp only [step, hl, ho, State.fault]
  | unaffordable hl ho hc => simp only [step, hl, ho, if_neg (Nat.not_le_of_gt hc), State.fault]
  | undecodable fetched hd =>
    rw [fetched.step_eq]
    simp only [execute, hd]
    rfl
  | fails fetched hd he | proceeds fetched hd he | jumps fetched hd he | returns fetched hd he =>
    rw [fetched.step_eq]
    simp only [execute, hd, he]
    rfl

/-- The rules describe the execution of one line exactly. -/
theorem step_eq_iff {r : Step σ} : step p host s = r ↔ Rule p host s r := by
  constructor
  · rintro rfl
    exact rule_step p host s
  · exact Rule.step_eq

end

namespace Operation

/-- The index of the marker at which an operation may continue. -/
def target? : Operation → Option Nat
  | jump target | branch _ target => some target
  | _ => none

theorem readLabel_eq_ok_iff {p : Program} {opcode : Opcode} {args : List String} {target : Nat} :
    readLabel p opcode args = .ok target ↔
      ∃ label rest, args = label :: rest ∧ p.labelIndex? label = some target := by
  cases args with
  | nil => simp [readLabel, argument]
  | cons label rest => cases hr : p.labelIndex? label <;> simp [readLabel, argument, hr]

/-- A target is decoded from the label of a jump. -/
theorem exists_label_of_decode {p : Program} {opcode : Opcode} {args : List String}
    {op : Operation} {target : Nat} (hd : decode p opcode args = .ok op)
    (ht : op.target? = some target) :
    opcode.isJump = true ∧
      ∃ label rest, args = label :: rest ∧ p.labelIndex? label = some target := by
  have hjump : opcode.isJump = true := by
    rw [← isJump_of_decode hd]
    cases op <;> simp_all [target?, isJump]
  have hread : readLabel p opcode args = .ok target := by
    cases hr : readLabel p opcode args <;> cases opcode <;>
      simp only [Opcode.isJump, Bool.false_eq_true] at hjump <;>
      simp only [decode, hr, Except.map, Except.ok.injEq, reduceCtorEq] at hd
    all_goals
      subst hd
      simpa [target?] using ht
  exact ⟨hjump, readLabel_eq_ok_iff.mp hread⟩

end Operation

/-- An operation sends control to its target only. -/
theorem target?_of_perform {host : Host σ} {op : Operation} {s store : Store σ} {target : Nat}
    (h : perform host op s = ⟨store, .ok (.jump target)⟩) : op.target? = some target := by
  have hjump : op.isJump = true := isJump_of_flow_jump (congrArg Effect.flow h)
  cases op with
  | jump index =>
    obtain ⟨-, rfl⟩ : s = store ∧ index = target := by simpa [perform] using h
    rfl
  | branch onZero index =>
    simp only [perform, Store.withOperand] at h
    split at h
    · split at h
      · obtain ⟨-, rfl⟩ : _ ∧ index = target := by simpa using h
        rfl
      · simp at h
    · simp [Store.fail] at h
  | _ => simp [Operation.isJump] at hjump

/-- Evaluates at most `fuel` lines. The line that halts is one of them, and so
is the look past the last line. -/
def runWithin (p : Program) (host : Host σ) : Nat → State σ → Option (Halt σ)
  | 0, _ => none
  | fuel + 1, s =>
    match step p host s with
    | .halt h => some h
    | .next t => runWithin p host fuel t

/-- A run of exactly `n` lines, none of which halts. -/
inductive Steps (p : Program) (host : Host σ) : Nat → State σ → State σ → Prop where
  | refl (s : State σ) : Steps p host 0 s s
  | cons {n : Nat} {s u t : State σ} :
      step p host s = .next u → Steps p host n u t → Steps p host (n + 1) s t

section

variable {p : Program} {host : Host σ} {s t : State σ} {h : Halt σ}

theorem run_of_halt (hs : step p host s = .halt h) : run p host s = h := by
  rw [run]
  split
  · next hs' => simpa [hs] using hs'.symm
  · next hs' => simp [hs] at hs'

theorem run_of_next (hs : step p host s = .next t) : run p host s = run p host t := by
  rw [run]
  split
  · next hs' => simp [hs] at hs'
  · next hs' =>
    obtain rfl : t = _ := by simpa [hs] using hs'
    rfl

/-- An evaluation that is not cut off gives the answer of the whole one. -/
theorem run_eq_get {fuel : Nat} (ends : (runWithin p host fuel s).isSome) :
    run p host s = (runWithin p host fuel s).get ends := by
  induction fuel generalizing s with
  | zero => simp [runWithin] at ends
  | succ fuel ih =>
    cases hs : step p host s with
    | halt h =>
      simp only [runWithin, hs, Option.get_some]
      exact run_of_halt hs
    | next t =>
      simp only [runWithin, hs] at ends ⊢
      rw [run_of_next hs]
      exact ih ends

/-- What holds of a line that halts, and passes from each line to the line
before it, holds of the evaluation from any state. -/
theorem run_induction {motive : State σ → Halt σ → Prop}
    (halt : ∀ s h, Rule p host s (.halt h) → motive s h)
    (next : ∀ s t h, Rule p host s (.next t) → motive t h → motive s h) (s : State σ) :
    motive s (run p host s) := by
  fun_induction run p host s with
  | case1 s h hs => exact halt s h (step_eq_iff.mp hs)
  | case2 s t hs ih => exact next s t _ (step_eq_iff.mp hs) ih

/-- An evaluation is a run of lines followed by one line that halts. -/
theorem exists_steps_halt (p : Program) (host : Host σ) (s : State σ) :
    ∃ n t, Steps p host n s t ∧ Rule p host t (.halt (run p host s)) := by
  apply run_induction (motive := fun s h => ∃ n t, Steps p host n s t ∧ Rule p host t (.halt h))
  · intro s h rule
    exact ⟨0, s, .refl s, rule⟩
  · rintro s u h rule ⟨n, t, steps, last⟩
    exact ⟨n + 1, t, .cons rule.step_eq steps, last⟩

end

end MeteredLedger.Machine
