import MeteredLedger.Proofs.Machine.Execution
import MeteredLedger.Proofs.Program
import MeteredLedger.Verification

/-!
# Static faults

Four faults can be read off an instruction before it runs: an unknown mnemonic,
a missing argument, an argument of the wrong form and an unknown label. The
verifier and the machine look for them in different places and by different
code. Both are compared with `staticFault?`, which looks at the instruction and
the program only: the verifier announces exactly that fault, and the machine
ends in exactly that fault, whatever the store holds.

Gas is not static. An instruction that cannot be paid for is not looked at any
further, so the comparison is about instructions that can be.
-/

namespace MeteredLedger

namespace Machine

/-- Whether a fault is found in the text of an instruction, not in the state. -/
def Fault.isStatic : Fault → Bool
  | unknownOpcode _ | missingArgument _ | invalidArgument _ _ | unknownLabel _ => true
  | _ => false

/-- The current line ends the evaluation with a given fault. -/
def FailsWith (p : Program) (host : Host σ) (s : State σ) (fault : Fault) : Prop :=
  ∃ t, step p host s = .halt ⟨t, .error ⟨s.pc, fault⟩⟩

/-- The fault an instruction ends in before it takes any operand. -/
def staticFault? (p : Program) (i : Instruction) : Option Fault :=
  match i.opcode? with
  | none => some (.unknownOpcode i.mnemonic)
  | some opcode =>
    match Operation.decode p opcode i.args with
    | .error fault => some fault
    | .ok _ => none

/-- The effect does not fail for a static reason. -/
def Effect.Dynamic (effect : Effect σ) : Prop :=
  ∀ fault, effect.flow = .error fault → fault.isStatic = false

namespace Effect.Dynamic

variable {s : Store σ}

theorem of_ok {effect : Effect σ} {flow : Flow} (h : effect.flow = .ok flow) :
    effect.Dynamic := by
  intro fault hf
  simp [h] at hf

theorem fail {fault : Fault} (h : fault.isStatic = false) : (s.fail fault).Dynamic := by
  intro fault' hf
  obtain rfl : fault = fault' := by simpa [Store.fail] using hf
  exact h

theorem withOperand {continuation : Value → Store σ → Effect σ}
    (h : ∀ x s, (continuation x s).Dynamic) : (s.withOperand continuation).Dynamic := by
  rw [Store.withOperand]
  split
  · exact h _ _
  · exact fail rfl

theorem withOperands {continuation : Value → Value → Store σ → Effect σ}
    (h : ∀ x y s, (continuation x y s).Dynamic) : (s.withOperands continuation).Dynamic := by
  rw [Store.withOperands]
  split
  · exact h _ _ _
  · exact fail rfl

theorem performArithmetic (op : Arithmetic) (x y : Value) :
    (performArithmetic op x y s).Dynamic := by
  unfold Machine.performArithmetic
  split
  · split
    · exact of_ok rfl
    · exact fail rfl
  · exact fail rfl
  · exact fail rfl

theorem performComparison (op : Comparison) (x y : Value) :
    (performComparison op x y s).Dynamic := by
  unfold Machine.performComparison
  split
  · exact of_ok rfl
  · exact of_ok rfl
  · exact fail rfl
  · exact fail rfl

theorem performTimestamp (host : Host σ) (x : Value) : (performTimestamp host x s).Dynamic := by
  unfold Machine.performTimestamp
  split
  · split
    · exact of_ok rfl
    · exact fail rfl
  · exact fail rfl

/-- An operation whose argument was read can only fail because of its operands. -/
theorem perform (host : Host σ) (op : Operation) (s : Store σ) : (perform host op s).Dynamic := by
  cases op with
  | arithmetic op => exact withOperands fun x y _ => performArithmetic op x y
  | compare op => exact withOperands fun x y _ => performComparison op x y
  | equal => exact withOperands fun _ _ _ => of_ok rfl
  | isZero => exact withOperand fun _ _ => of_ok rfl
  | push v => exact of_ok rfl
  | pop => exact withOperand fun _ _ => of_ok rfl
  | load address => exact of_ok rfl
  | store address => exact withOperand fun _ _ => of_ok rfl
  | jump target => exact of_ok rfl
  | branch onZero target => exact withOperand fun _ _ => of_ok rfl
  | ret => exact withOperand fun _ _ => of_ok rfl
  | timestamp => exact withOperand fun x _ => performTimestamp host x
  | print coerced =>
    refine withOperand fun x s => ?_
    split
    · exact of_ok rfl
    · exact of_ok rfl

end Effect.Dynamic

section

variable {p : Program} {host : Host σ} {s t : State σ} {i : Instruction} {fault : Fault}

/-- A static fault comes from the text of the current line. -/
theorem Rule.staticFault?_eq {e : Error} (rule : Rule p host s (.halt ⟨t, .error e⟩))
    (static : e.fault.isStatic = true) :
    e.index = s.pc ∧ ∃ i, p.line? s.pc = some (.instruction i) ∧ staticFault? p i = some e.fault := by
  cases rule with
  | unknown hl ho => exact ⟨rfl, _, hl, by simp [staticFault?, ho]⟩
  | unaffordable hl ho hc => simp [Fault.isStatic] at static
  | undecodable fetched hd =>
    exact ⟨rfl, _, fetched.line, by simp [staticFault?, fetched.known, hd]⟩
  | @fails i opcode op store fault fetched hd he =>
    have dynamic := Effect.Dynamic.perform host op s.store fault (by rw [he])
    simp [dynamic] at static

/-- The machine ends in the static fault of an instruction it can pay for,
whatever the stack and the memory hold. -/
theorem failsWith_iff (hl : p.line? s.pc = some (.instruction i))
    (paid : ∀ opcode, i.opcode? = some opcode → opcode.cost ≤ s.gas)
    (static : fault.isStatic = true) :
    FailsWith p host s fault ↔ staticFault? p i = some fault := by
  constructor
  · rintro ⟨t, ht⟩
    obtain ⟨-, j, hj, hf⟩ := (step_eq_iff.mp ht).staticFault?_eq static
    obtain rfl : i = j := by simpa [hl] using hj
    exact hf
  · intro hf
    rw [staticFault?] at hf
    split at hf
    · next ho =>
      obtain rfl : _ = fault := by simpa using hf
      exact ⟨_, (Rule.unknown hl ho).step_eq⟩
    · next opcode ho =>
      split at hf
      · next fault' hd =>
        obtain rfl : fault' = fault := by simpa using hf
        exact ⟨_, (Rule.undecodable ⟨hl, ho, paid opcode ho⟩ hd).step_eq⟩
      · simp at hf

end

end Machine

namespace Verification

open Machine

/-- The fault that a flaw announces. Tokens past the argument are never read,
and whether an instruction is reached is not a matter of its own text. -/
def Flaw.fault? : Flaw → Option Fault
  | unknownOpcode mnemonic => some (.unknownOpcode mnemonic)
  | missingArgument opcode => some (.missingArgument opcode)
  | invalidLiteral token => some (.invalidArgument .push token)
  | invalidAddress opcode token => some (.invalidArgument opcode token)
  | unresolvedLabel label => some (.unknownLabel label)
  | extraArguments _ _ | unreachable => none

/-- Whether the flaw is that there are tokens nothing reads. -/
def Flaw.isExtra : Flaw → Bool
  | extraArguments _ _ => true
  | _ => false

/-- A check of single instructions reports a flaw of the instruction at an index. -/
def Reported (p : Program) (index : Nat) (flaw : Flaw) : Prop :=
  .flawed index flaw ∈ checkInstructions p ∨ .flawed index flaw ∈ checkLabels p

/-- Everything the two checks find in an instruction. -/
def flaws (p : Program) (i : Instruction) : List Flaw :=
  instructionFlaws i ++ ((unresolved? p i).map .unresolvedLabel).toList

section

variable {p : Program} {i : Instruction} {index : Nat} {flaw : Flaw}

/-- Only a static fault is announced. -/
theorem Flaw.isStatic_of_fault? {fault : Fault} (h : flaw.fault? = some fault) :
    fault.isStatic = true := by
  cases flaw <;> simp only [Flaw.fault?, Option.some.injEq, reduceCtorEq] at h <;>
    (subst h; rfl)

theorem Flaw.isExtra_of_fault? {fault : Fault} (h : flaw.fault? = some fault) :
    flaw.isExtra = false := by
  cases flaw with
  | extraArguments => simp [Flaw.fault?] at h
  | _ => rfl

/-- The checks find in each instruction what its own text shows, and report it
at its index. -/
theorem reported_iff (hl : p.line? index = some (.instruction i)) :
    Reported p index flaw ↔ flaw ∈ flaws p i := by
  have unique {j : Instruction} (hj : (index, j) ∈ p.instructions) : j = i := by
    simpa [hl, eq_comm] using Program.mem_instructions.mp hj
  have listed : (index, i) ∈ p.instructions := Program.mem_instructions.mpr hl
  simp only [Reported, checkInstructions, checkLabels, flaws, List.mem_flatMap, List.mem_map,
    List.mem_filterMap, List.mem_append, Option.mem_toList, Option.map_eq_some_iff]
  constructor
  · rintro (⟨⟨k, j⟩, hj, flaw', hflaw, heq⟩ | ⟨⟨k, j⟩, hj, label, hlabel, heq⟩)
    · obtain ⟨rfl, rfl⟩ : k = index ∧ flaw' = flaw := by simpa using heq
      exact .inl (unique hj ▸ hflaw)
    · obtain ⟨rfl, hflaw⟩ : k = index ∧ Flaw.unresolvedLabel label = flaw := by simpa using heq
      exact .inr ⟨label, unique hj ▸ hlabel, hflaw⟩
  · rintro (hflaw | ⟨label, hlabel, rfl⟩)
    · exact .inl ⟨(index, i), listed, flaw, hflaw, rfl⟩
    · exact .inr ⟨(index, i), listed, label, hlabel, rfl⟩

/-- With its argument at hand, an instruction has the flaws of its token and
those of its label; superfluous tokens announce no fault. -/
theorem filterMap_fault?_flaws_cons {opcode : Opcode} {token : String} {rest : List String}
    (ho : i.opcode? = some opcode) (ha : i.args = token :: rest) :
    (flaws p i).filterMap Flaw.fault? =
      (tokenFlaws opcode token).filterMap Flaw.fault? ++
        (if opcode.isJump ∧ p.labelIndex? token = none then [.unknownLabel token] else []) := by
  have enough : ¬ i.args.length < opcode.arity := by
    cases opcode <;> simp [ha, Opcode.arity]
  have extra : List.filterMap Flaw.fault?
      (if opcode.arity < i.args.length then [.extraArguments opcode i.args.length] else []) = [] := by
    split <;> rfl
  have unresolved : unresolved? p i =
      if opcode.isJump ∧ p.labelIndex? token = none then some token else none := by
    cases hj : opcode.isJump <;> cases hr : p.labelIndex? token <;>
      simp [unresolved?, ho, ha, hj, hr, Option.filter]
  simp only [flaws, instructionFlaws, ho, if_neg enough, List.filterMap_append, extra, unresolved]
  simp only [ha, List.head?_cons, Option.toList_some, List.flatMap_singleton, List.nil_append]
  split <;> rfl

/-- The flaws of an instruction announce its static fault and no other. -/
theorem filterMap_fault?_flaws (p : Program) (i : Instruction) :
    (flaws p i).filterMap Flaw.fault? = (staticFault? p i).toList := by
  cases ho : i.opcode? with
  | none => simp [flaws, instructionFlaws, unresolved?, staticFault?, ho, Flaw.fault?]
  | some opcode =>
    cases ha : i.args with
    | nil =>
      cases opcode <;>
        simp [flaws, instructionFlaws, unresolved?, staticFault?, ho, ha, Flaw.fault?, Opcode.arity,
          Opcode.isJump, Operation.decode, Operation.readArgument, Operation.argument,
          Operation.readLabel, Except.map]
    | cons token rest =>
      rw [filterMap_fault?_flaws_cons ho ha]
      simp only [staticFault?, ho, ha]
      -- what the machine reads out of the token is what the verifier tries to read
      cases opcode with
      | push =>
        cases hr : Decimal.readInt64? token <;>
          simp [tokenFlaws, Opcode.isJump, Operation.decode, Operation.readArgument,
            Operation.argument, Except.map, hr, Flaw.fault?]
      | load | store =>
        cases hr : Decimal.readUInt64? token <;>
          simp [tokenFlaws, Opcode.isJump, Operation.decode, Operation.readArgument,
            Operation.argument, Except.map, hr, Flaw.fault?]
      | jump | jz | jnz =>
        cases hr : p.labelIndex? token <;>
          simp [tokenFlaws, Opcode.isJump, Operation.decode, Operation.readLabel,
            Operation.argument, Except.map, hr]
      | _ => simp [tokenFlaws, Opcode.isJump, Operation.decode, Operation.argument, Except.map]

theorem unreachable_not_mem_flaws (p : Program) (i : Instruction) :
    Flaw.unreachable ∉ flaws p i := by
  have token (opcode : Opcode) (word : String) : Flaw.unreachable ∉ tokenFlaws opcode word := by
    unfold tokenFlaws
    split <;> (try split) <;> simp
  have single : Flaw.unreachable ∉ instructionFlaws i := by
    rw [instructionFlaws]
    split
    · simp
    · split
      · simp
      · split <;> simp [token]
  simp [flaws, single]

/-- Of the flaws the checks find, those without a fault are the extra tokens. -/
theorem exists_fault?_of_mem_flaws (h : flaw ∈ flaws p i) (extra : flaw.isExtra = false) :
    ∃ fault, flaw.fault? = some fault := by
  cases flaw with
  | extraArguments => simp [Flaw.isExtra] at extra
  | unreachable => exact absurd h (unreachable_not_mem_flaws p i)
  | _ => exact ⟨_, rfl⟩

/-- An instruction has a flaw that announces a fault exactly if the fault is its static one. -/
theorem staticFault?_eq_some_iff {fault : Fault} :
    staticFault? p i = some fault ↔ ∃ flaw ∈ flaws p i, flaw.fault? = some fault := by
  rw [← List.mem_filterMap, filterMap_fault?_flaws, Option.mem_toList]

theorem checks_eq_nil_of_verify (h : p.verify = []) :
    checkInstructions p = [] ∧ checkLabels p = [] := by
  simp only [Program.verify] at h
  split at h
  · next hempty =>
    simp only [List.isEmpty_iff, List.append_eq_nil_iff] at hempty
    exact ⟨hempty.1.2, hempty.2⟩
  · next hfound => simp [h] at hfound

/-- The last line of an evaluation that ends in a static fault is reported. -/
theorem exists_reported_of_result {host : Host σ} {s : State σ} {e : Error}
    (he : (run p host s).result = .error e) (static : e.fault.isStatic = true) :
    ∃ flaw, Reported p e.index flaw := by
  obtain ⟨n, t, -, rule⟩ := exists_steps_halt p host s
  generalize run p host s = h at he rule
  obtain ⟨final, result⟩ := h
  subst he
  obtain ⟨hindex, i, hl, hf⟩ := rule.staticFault?_eq static
  obtain ⟨flaw, hflaw, -⟩ := staticFault?_eq_some_iff.mp hf
  exact ⟨flaw, hindex ▸ (reported_iff hl).mpr hflaw⟩

end

/-- The verifier and the machine agree on every static fault. An instruction
that can be paid for ends in one exactly if a check of single instructions
reports a flaw of it other than extra tokens, and then the flaw announces that
fault. Nothing is assumed about the store or about how the state was reached.
A program without findings therefore never ends in a static fault. -/
theorem static_fault_iff_reported (p : Program) :
    (∀ (σ : Type) (host : Host σ) (s : State σ) (i : Instruction),
      p.line? s.pc = some (.instruction i) →
      (∀ opcode, i.opcode? = some opcode → opcode.cost ≤ s.gas) →
      ((∃ fault, fault.isStatic = true ∧ FailsWith p host s fault) ↔
        ∃ flaw, Reported p s.pc flaw ∧ flaw.isExtra = false) ∧
      ∀ fault flaw, fault.isStatic = true → FailsWith p host s fault →
        Reported p s.pc flaw → flaw.isExtra = false → flaw.fault? = some fault) ∧
    (p.verify = [] → ∀ (σ : Type) (host : Host σ) (limit : Nat) (memory : σ) (e : Error),
      (evaluate p host limit memory).result = .error e → e.fault.isStatic = false) := by
  constructor
  · intro σ host s i hl paid
    refine ⟨⟨?_, ?_⟩, ?_⟩
    · rintro ⟨fault, static, fails⟩
      obtain ⟨flaw, hflaw, hfault⟩ :=
        staticFault?_eq_some_iff.mp ((failsWith_iff hl paid static).mp fails)
      exact ⟨flaw, (reported_iff hl).mpr hflaw, Flaw.isExtra_of_fault? hfault⟩
    · rintro ⟨flaw, reported, extra⟩
      have hflaw := (reported_iff hl).mp reported
      obtain ⟨fault, hfault⟩ := exists_fault?_of_mem_flaws hflaw extra
      have static := Flaw.isStatic_of_fault? hfault
      refine ⟨fault, static, ?_⟩
      rw [failsWith_iff hl paid static]
      exact staticFault?_eq_some_iff.mpr ⟨flaw, hflaw, hfault⟩
    · intro fault flaw static fails reported extra
      have hflaw := (reported_iff hl).mp reported
      obtain ⟨fault', hfault'⟩ := exists_fault?_of_mem_flaws hflaw extra
      -- one instruction has one static fault, which both sides name
      have hs := (failsWith_iff hl paid static).mp fails
      have hs' := staticFault?_eq_some_iff.mpr ⟨flaw, hflaw, hfault'⟩
      rw [hfault', ← hs, hs']
  · intro verified σ host limit memory e he
    obtain ⟨hinstructions, hlabels⟩ := checks_eq_nil_of_verify verified
    cases static : e.fault.isStatic with
    | false => rfl
    | true =>
      obtain ⟨flaw, reported⟩ := exists_reported_of_result he static
      simp [Reported, hinstructions, hlabels] at reported

/-- A branch to nowhere, with a token too many. -/
def strayBranch : Program :=
  ⟨#[.instruction ⟨"JZ", ["nowhere", "x"]⟩], ∅, rfl⟩

/-- A program in which the checks find nothing. -/
def soundLoop : Program :=
  ⟨#[.label "top", .instruction ⟨"PUSH", ["0"]⟩, .instruction ⟨"JZ", ["top"]⟩],
    (∅ : LabelTable).insert "top" 0, rfl⟩

theorem reachable_soundLoop : reachable soundLoop = Vector.replicate soundLoop.size true :=
  calc explore soundLoop (Vector.replicate _ false) [0]
    _ = explore soundLoop #v[true, false, false] [1] := explore_cons_of_unmarked (by decide) rfl
    _ = explore soundLoop #v[true, true, false] [2] := explore_cons_of_unmarked (by decide) rfl
    _ = explore soundLoop #v[true, true, true] [3, 0] := explore_cons_of_unmarked (by decide) rfl
    _ = explore soundLoop #v[true, true, true] [0] := explore_cons_of_done (by decide)
    _ = explore soundLoop #v[true, true, true] [] := explore_cons_of_done (by decide)
    _ = Vector.replicate soundLoop.size true := explore_nil

theorem verify_soundLoop : soundLoop.verify = [] := by
  have checked : checkReachability soundLoop = [] := by
    rw [checkReachability, reachable_soundLoop]
    rfl
  rw [Program.verify, checked]
  rfl

/-- On an empty stack the stray branch fails for its label, not for its missing
operand, and the sound loop runs out of gas without a static fault. -/
theorem strayBranch_fails_and_soundLoop_does_not :
    strayBranch.line? 0 = some (.instruction ⟨"JZ", ["nowhere", "x"]⟩) ∧
    (∃ fault, fault.isStatic = true ∧ FailsWith strayBranch .detached (.initial 10 ()) fault) ∧
    soundLoop.verify = [] ∧
    ∀ e, (evaluate soundLoop .detached 100 ()).result = .error e → e.fault.isStatic = false := by
  have hl : strayBranch.line? 0 = some (.instruction ⟨"JZ", ["nowhere", "x"]⟩) := rfl
  have paid : ∀ opcode, Instruction.opcode? ⟨"JZ", ["nowhere", "x"]⟩ = some opcode →
      opcode.cost ≤ 10 := by
    intro opcode _
    cases opcode <;> decide
  have reported : Reported strayBranch 0 (.unresolvedLabel "nowhere") := .inr (by decide)
  refine ⟨hl, ?_, verify_soundLoop, ?_⟩
  · exact ((static_fault_iff_reported strayBranch).1 Unit .detached (.initial 10 ()) _ hl paid).1.mpr
      ⟨_, reported, rfl⟩
  · exact (static_fault_iff_reported soundLoop).2 verify_soundLoop Unit .detached 100 ()

end Verification

end MeteredLedger
