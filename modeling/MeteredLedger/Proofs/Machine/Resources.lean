import MeteredLedger.Proofs.Machine.Termination

/-!
# What gas pays for

Printing and returning are free, but they use up a value, and no value comes
about for nothing: only three operations leave more values than they find, each
leaves one more, and each costs three units of gas. So the gas that was used
bounds the stack, the memory and the printed values together, and also how often
a free operation can succeed.

`Runs` and `Reaches` collect the operations that were executed to their end on
the way to a state. A line that fails is not among them, and is not charged.
-/

namespace MeteredLedger

namespace Opcode

/-- The operations that cost nothing. -/
def isFree : Opcode → Bool
  | ret | print | printArg => true
  | _ => false

theorem isFree_iff {opcode : Opcode} : opcode.isFree = true ↔ opcode.cost = 0 := by
  cases opcode <;> decide

/-- The price of operations executed one after the other. -/
def totalCost : List Opcode → Nat
  | [] => 0
  | opcode :: rest => opcode.cost + totalCost rest

theorem totalCost_concat (done : List Opcode) (opcode : Opcode) :
    totalCost (done ++ [opcode]) = totalCost done + opcode.cost := by
  induction done with
  | nil => simp [totalCost]
  | cons first rest ih => rw [List.cons_append, totalCost, ih, totalCost, Nat.add_assoc]

theorem countP_isFree_concat (done : List Opcode) (opcode : Opcode) :
    (done ++ [opcode]).countP isFree = done.countP isFree + if opcode.isFree then 1 else 0 := by
  rw [List.countP_append, List.countP_singleton]

end Opcode

/-- The operation that a line names. -/
def Line.opcode? : Line → Option Opcode
  | label _ => none
  | instruction i => i.opcode?

namespace Machine

/-- The state that a line leaves. -/
def Step.state : Step σ → State σ
  | next s => s
  | halt h => h.state

def Step.isFailure : Step σ → Bool
  | halt ⟨_, .error _⟩ => true
  | _ => false

/-- The operation that the current line executes to its end: none for a marker,
past the last line, and where the line fails. -/
def completed? (p : Program) (host : Host σ) (s : State σ) : Option Opcode :=
  if (step p host s).isFailure then none else (p.line? s.pc).bind Line.opcode?

/-- The machine comes from `s` to another line, having executed the operations
in the list, the earliest first. -/
inductive Runs (p : Program) (host : Host σ) (s : State σ) : List Opcode → State σ → Prop where
  | refl : Runs p host s [] s
  | next {done : List Opcode} {t u : State σ} : Runs p host s done t → step p host t = .next u →
      Runs p host s (done ++ (completed? p host t).toList) u

/-- The states of an evaluation from `s`: the first, and the one that each line
leaves, also where the evaluation ends there. -/
inductive Reaches (p : Program) (host : Host σ) (s : State σ) : List Opcode → State σ → Prop where
  | refl : Reaches p host s [] s
  | line {done : List Opcode} {t : State σ} : Runs p host s done t →
      Reaches p host s (done ++ (completed? p host t).toList) (step p host t).state

/-! ## Single operations -/

/-- Number of values on the stack and in written cells. -/
def Store.held (s : Store σ) : Nat :=
  s.stack.length + s.memory.size

namespace Operation

/-- How many values more than before an operation may leave. -/
def growth : Operation → Nat
  | push _ | load _ => 1
  | _ => 0

/-- How many values an operation takes without a charge. -/
def releases : Operation → Nat
  | ret | print _ => 1
  | _ => 0

theorem exists_of_map_eq_ok {read : Except Fault α} {f : α → Operation} {op : Operation}
    (h : read.map f = .ok op) : ∃ a, f a = op := by
  cases read with
  | error fault => simp [Except.map] at h
  | ok a => exact ⟨a, Except.ok.inj h⟩

/-- A value that an operation adds is paid for with three units of gas. -/
theorem growth_of_decode {p : Program} {opcode : Opcode} {args : List String} {op : Operation}
    (h : decode p opcode args = .ok op) :
    3 * op.growth ≤ opcode.cost ∧ op.releases = if opcode.isFree then 1 else 0 := by
  cases opcode with
  | push | pushArg | load | store | jump | jz | jnz =>
    obtain ⟨a, rfl⟩ := exists_of_map_eq_ok h
    exact ⟨by simp [growth, Opcode.cost], rfl⟩
  | _ =>
    obtain rfl := Except.ok.inj h
    exact ⟨by decide, rfl⟩

end Operation

/-- What an effect leaves of the store `s`, if the operation may add `growth`
values and takes `releases` of them for free. An effect that fails adds nothing. -/
def Effect.Within (s : Store σ) (growth releases : Nat) (effect : Effect σ) : Prop :=
  match effect.flow with
  | .ok _ =>
    effect.store.held + releases ≤ s.held + growth ∧
      effect.store.printed.length ≤ s.printed.length + releases
  | .error _ => effect.store.held ≤ s.held ∧ effect.store.printed.length ≤ s.printed.length

namespace Effect.Within

variable {s t : Store σ} {growth releases : Nat}

theorem withOperand {continuation : Value → Store σ → Effect σ}
    (h : ∀ x t, t.held + 1 = s.held → t.printed = s.printed →
      (continuation x t).Within s growth releases) :
    (s.withOperand continuation).Within s growth releases := by
  rw [Store.withOperand]
  split
  · next x rest hstack =>
    refine h x _ ?_ rfl
    simp only [Store.held, hstack, List.length_cons]
    omega
  · exact ⟨Nat.le_refl _, Nat.le_refl _⟩

theorem withOperands {continuation : Value → Value → Store σ → Effect σ}
    (h : ∀ x y t, t.held + 2 = s.held → t.printed = s.printed →
      (continuation x y t).Within s growth releases) :
    (s.withOperands continuation).Within s growth releases := by
  rw [Store.withOperands]
  split
  · next x y rest hstack =>
    refine h x y _ ?_ rfl
    simp only [Store.held, hstack, List.length_cons]
    omega
  · refine ⟨?_, Nat.le_refl _⟩
    simp [Store.fail, Store.held]

theorem fail {fault : Fault} (held : t.held ≤ s.held) (printed : t.printed = s.printed) :
    (t.fail fault).Within s growth releases :=
  ⟨held, Nat.le_of_eq (congrArg List.length printed)⟩

theorem push {v : Value} (held : t.held + 1 ≤ s.held + growth) (printed : t.printed = s.printed) :
    (t.push v).Within s growth 0 := by
  refine ⟨?_, Nat.le_of_eq (congrArg List.length printed)⟩
  simp only [Store.push, Store.held, List.length_cons] at held ⊢
  omega

/-- An operation that only takes values from the store. -/
theorem taken {flow : Flow} (held : t.held + releases ≤ s.held) (printed : t.printed = s.printed) :
    Within s growth releases ⟨t, .ok flow⟩ := by
  refine ⟨Nat.le_add_right_of_le held, ?_⟩
  simp [printed]

theorem write {address : UInt64} {x : Value} (held : t.held + 1 = s.held)
    (printed : t.printed = s.printed) :
    Within s 0 0 ⟨{ t with memory := t.memory.write address x }, .ok .next⟩ := by
  have hsize := t.memory.size_write_le address x
  refine taken ?_ printed
  simp only [Store.held] at held ⊢
  omega

theorem print {host : Host σ} {v : Value} (held : t.held + 1 = s.held)
    (printed : t.printed = s.printed) : (t.print host v).Within s 0 1 := by
  refine ⟨Nat.le_of_eq held, ?_⟩
  simp [Store.print, printed]

theorem performArithmetic (op : Arithmetic) (x y : Value) (held : t.held + 2 = s.held)
    (printed : t.printed = s.printed) : (performArithmetic op x y t).Within s 0 0 := by
  unfold Machine.performArithmetic
  split
  · split
    · exact push (by omega) printed
    · exact fail (by omega) printed
  · exact fail (by omega) printed
  · exact fail (by omega) printed

theorem performComparison (op : Comparison) (x y : Value) (held : t.held + 2 = s.held)
    (printed : t.printed = s.printed) : (performComparison op x y t).Within s 0 0 := by
  unfold Machine.performComparison
  split
  · exact push (by omega) printed
  · exact push (by omega) printed
  · exact fail (by omega) printed
  · exact fail (by omega) printed

theorem performTimestamp (host : Host σ) (x : Value) (held : t.held + 1 = s.held)
    (printed : t.printed = s.printed) : (performTimestamp host x t).Within s 0 0 := by
  unfold Machine.performTimestamp
  split
  · split
    · exact push (by omega) printed
    · exact fail (by omega) printed
  · exact fail (by omega) printed

/-- Every operation keeps within what its growth and its releases allow. -/
theorem perform (host : Host σ) (op : Operation) (s : Store σ) :
    (perform host op s).Within s op.growth op.releases := by
  cases op with
  | arithmetic op => exact withOperands fun x y _ => performArithmetic op x y
  | compare op => exact withOperands fun x y _ => performComparison op x y
  | equal => exact withOperands fun x y t held printed => push (by omega) printed
  | isZero => exact withOperand fun x t held printed => push (by omega) printed
  | push v => exact push (Nat.le_refl _) rfl
  | pop => exact withOperand fun x t held printed => taken (Nat.le.intro held) printed
  | load address => exact push (Nat.le_refl _) rfl
  | store address => exact withOperand fun x t held printed => write held printed
  | jump target => exact taken (Nat.le_refl _) rfl
  | branch onZero target =>
    exact withOperand fun x t held printed => taken (Nat.le.intro held) printed
  | ret => exact withOperand fun x t held printed => taken (Nat.le_of_eq held) printed
  | timestamp => exact withOperand fun x _ => performTimestamp host x
  | print coerced =>
    refine withOperand fun x t held printed => ?_
    split
    · exact print held printed
    · exact print held printed

end Effect.Within

/-! ## Single lines -/

section

variable {p : Program} {host : Host σ} {s t : State σ} {r : Step σ} {limit : Nat}
variable {done : List Opcode}

/-- The accounts of a state that was reached with the operations `done`. Every
value held, and every free operation executed, is paid for with three units. -/
structure Paid (p : Program) (limit : Nat) (done : List Opcode) (s : State σ) : Prop where
  gas : s.gas + Opcode.totalCost done = limit
  pc : s.pc ≤ p.size
  held : 3 * (s.store.held + done.countP Opcode.isFree) ≤ Opcode.totalCost done
  printed : s.store.printed.length ≤ done.countP Opcode.isFree

theorem paid_initial (p : Program) (limit : Nat) (host : σ) :
    Paid p limit [] (.initial limit host) where
  gas := rfl
  pc := Nat.zero_le _
  held := Nat.le_refl _
  printed := Nat.le_refl _

theorem Fetched.line_opcode? {i : Instruction} {opcode : Opcode} (fetched : Fetched p s i opcode) :
    (p.line? s.pc).bind Line.opcode? = some opcode := by
  rw [fetched.line, Option.bind_some, Line.opcode?, fetched.known]

/-- What an operation executed to its end does to the store is covered by its cost. -/
theorem Fetched.account {i : Instruction} {opcode : Opcode} {op : Operation} {store : Store σ}
    {flow : Flow} (fetched : Fetched p s i opcode)
    (hdecode : Operation.decode p opcode i.args = .ok op)
    (hperform : perform host op s.store = ⟨store, .ok flow⟩) (pc : Nat) :
    (s.charge opcode store pc).gas + opcode.cost = s.gas ∧
    3 * (store.held + if opcode.isFree then 1 else 0) ≤ 3 * s.store.held + opcode.cost ∧
    store.printed.length ≤ s.store.printed.length + if opcode.isFree then 1 else 0 := by
  obtain ⟨hgrowth, hreleases⟩ := Operation.growth_of_decode hdecode
  have within := Effect.Within.perform host op s.store
  rw [hperform, hreleases] at within
  obtain ⟨hheld, hprinted⟩ := within
  refine ⟨Nat.sub_add_cancel fetched.paid, ?_, hprinted⟩
  dsimp only at hheld
  omega

/-- A line executes an operation to its end and is charged for it, or it is free
and adds nothing to the store. -/
theorem Rule.account (rule : Rule p host s r) :
    (completed? p host s = none ∧ r.state.gas = s.gas ∧
      r.state.store.held ≤ s.store.held ∧
      r.state.store.printed.length ≤ s.store.printed.length) ∨
    ∃ opcode, completed? p host s = some opcode ∧ r.state.gas + opcode.cost = s.gas ∧
      3 * (r.state.store.held + if opcode.isFree then 1 else 0) ≤ 3 * s.store.held + opcode.cost ∧
      r.state.store.printed.length ≤ s.store.printed.length + if opcode.isFree then 1 else 0 := by
  rw [completed?, rule.step_eq]
  cases rule with
  | finish hl | marker hl => exact .inl ⟨by rw [hl]; rfl, rfl, Nat.le_refl _, Nat.le_refl _⟩
  | unknown | unaffordable | undecodable => exact .inl ⟨rfl, rfl, Nat.le_refl _, Nat.le_refl _⟩
  | @fails i opcode op store fault fetched hdecode hperform =>
    -- operands that were popped stay popped, but nothing has been added
    have within := Effect.Within.perform host op s.store
    rw [hperform] at within
    exact .inl ⟨rfl, rfl, within⟩
  | proceeds fetched hdecode hperform | jumps fetched hdecode hperform
  | returns fetched hdecode hperform =>
    exact .inr ⟨_, fetched.line_opcode?, fetched.account hdecode hperform _⟩

/-- A line is charged the cost of the operation it executes to its end, exactly. -/
theorem Rule.gas_add_totalCost (rule : Rule p host s r) :
    r.state.gas + Opcode.totalCost (completed? p host s).toList = s.gas := by
  rcases rule.account with ⟨hcompleted, hgas, -⟩ | ⟨opcode, hcompleted, hgas, -⟩
  · simpa [hcompleted, Opcode.totalCost] using hgas
  · simpa [hcompleted, Opcode.totalCost] using hgas

theorem Rule.pc_le (rule : Rule p host s r) (h : s.pc ≤ p.size) : r.state.pc ≤ p.size := by
  cases r with
  | next t => exact rule.next_or_jump.2.1
  | halt result => cases rule <;> exact h

/-- Every line keeps the accounts. -/
theorem Paid.line (paid : Paid p limit done s) (rule : Rule p host s r) :
    Paid p limit (done ++ (completed? p host s).toList) r.state := by
  obtain ⟨hgas, hpc, hheld, hprinted⟩ := paid
  rcases rule.account with ⟨hcompleted, hgas', hheld', hprinted'⟩ |
    ⟨opcode, hcompleted, hgas', hheld', hprinted'⟩
  · rw [hcompleted, Option.toList_none, List.append_nil]
    exact ⟨by omega, rule.pc_le hpc, by omega, by omega⟩
  · rw [hcompleted, Option.toList_some]
    have hcost := Opcode.totalCost_concat done opcode
    have hfree := Opcode.countP_isFree_concat done opcode
    exact ⟨by omega, rule.pc_le hpc, by omega, by omega⟩

/-! ## Whole evaluations -/

theorem Runs.paid (runs : Runs p host s done t) (paid : Paid p limit [] s) :
    Paid p limit done t := by
  induction runs with
  | refl => exact paid
  | next _ hstep ih => exact ih.line (step_eq_iff.mp hstep)

theorem Reaches.paid (reaches : Reaches p host s done t) (paid : Paid p limit [] s) :
    Paid p limit done t := by
  cases reaches with
  | refl => exact paid
  | line runs => exact (runs.paid paid).line (rule_step p host _)

/-- An evaluation ends in a state that it reaches. -/
theorem Runs.exists_reaches_run (p : Program) (host : Host σ) (s t : State σ) :
    ∀ done, Runs p host s done t → ∃ done', Reaches p host s done' (run p host t).state := by
  apply run_induction (motive := fun t h => ∀ done, Runs p host s done t →
    ∃ done', Reaches p host s done' h.state)
  · intro t h rule done runs
    have reaches := Reaches.line runs
    rw [rule.step_eq] at reaches
    exact ⟨_, reaches⟩
  · intro t u h rule ih done runs
    exact ih _ (runs.next rule.step_eq)

end

/-- Gas bounds every resource of an evaluation. In every state that it reaches,
also at its end and after a failure, the gas used is the price of the operations
executed to their end, and it covers three units for each value on the stack, in
a written cell or printed. Hence the limit admits one free operation for each
three of its units. The charges are exact: no line adds gas, and none takes more
than there is. -/
theorem evaluate_resources (p : Program) (host : Host σ) (limit : Nat) (memory : σ) :
    (∀ done t, Reaches p host (.initial limit memory) done t →
      limit - t.gas = Opcode.totalCost done ∧ t.gas ≤ limit ∧ t.pc ≤ p.size ∧
      3 * (t.store.stack.length + t.store.memory.size + t.store.printed.length) ≤ limit - t.gas ∧
      done.countP Opcode.isFree ≤ limit / 3) ∧
    (∀ t, (step p host t).state.gas + Opcode.totalCost (completed? p host t).toList = t.gas) ∧
    ∃ done, Reaches p host (.initial limit memory) done (evaluate p host limit memory).state := by
  refine ⟨?_, ?_, Runs.exists_reaches_run p host _ _ [] .refl⟩
  · intro done t reaches
    obtain ⟨hgas, hpc, hheld, hprinted⟩ := reaches.paid (paid_initial p limit memory)
    rw [Store.held] at hheld
    refine ⟨by omega, by omega, hpc, by omega, ?_⟩
    exact (Nat.le_div_iff_mul_le (by decide)).mpr (by omega)
  · intro t
    exact (rule_step p host t).gas_add_totalCost

/-- Prints two values and has none left to return. -/
def barePrinter : Program :=
  ⟨#[.instruction ⟨"PUSH", ["1"]⟩, .instruction ⟨"PRINT", []⟩, .instruction ⟨"PUSHARG", ["x"]⟩,
    .instruction ⟨"PRINTARG", []⟩, .instruction ⟨"RETURN", []⟩], ∅, rfl⟩

/-- With six units of gas two free operations succeed, as many as the limit
allows. The third one passes the gas check with nothing left and fails. -/
theorem barePrinter_resources :
    (evaluate barePrinter .detached 6 ()).result = .error ⟨4, .stackUnderflow⟩ ∧
    ∃ t, Reaches barePrinter .detached (.initial 6 ()) [.push, .print, .pushArg, .printArg] t ∧
      t.gas = 0 ∧ t.pc = 4 ∧ t.store.printed = [.text "x", .int 1] ∧
      3 * (t.store.stack.length + t.store.memory.size + t.store.printed.length) ≤ 6 - t.gas ∧
      [Opcode.push, .print, .pushArg, .printArg].countP Opcode.isFree = 2 ∧
      [Opcode.push, .print, .pushArg, .printArg].countP Opcode.isFree ≤ 6 / 3 := by
  have within : (runWithin barePrinter .detached 5 (.initial 6 ())).isSome := rfl
  have opening : Runs barePrinter .detached (.initial 6 ()) [] _ := .refl
  have printed := (opening.next rfl).next rfl
  have bare := (printed.next rfl).next rfl
  have failed := Reaches.line bare
  obtain ⟨-, -, -, hheld, hfree⟩ :=
    (evaluate_resources barePrinter .detached 6 ()).1 _ _ failed
  refine ⟨?_, _, failed, rfl, rfl, rfl, hheld, rfl, hfree⟩
  rw [evaluate, run_eq_get within]
  rfl

end Machine

end MeteredLedger
