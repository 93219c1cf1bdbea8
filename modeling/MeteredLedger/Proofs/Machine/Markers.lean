import MeteredLedger.Proofs.Machine.Gas
import MeteredLedger.Proofs.Program

/-!
# Markers have no effect of their own

A marker that no jump names can be put anywhere into a program. The lines behind
it move up by one, and with them the labels and the places to which jumps lead.
`Relocation p q ρ` collects what a run needs to know of such a change: each line
of `p` stands in `q` at its new place, its jumps lead to the new places of their
targets, and at most a marker lies between a line and the new place of the next
one. An evaluation of `q` is then the evaluation of `p`, relocated.

Control resumes behind the marker that a jump names. If the new marker stands
there, it is passed over before the line that comes next in `p`.
-/

namespace MeteredLedger

/-! ## Lines and labels -/

/-- Where line `k` stands once a line has been inserted at `i`. -/
def shifted (i k : Nat) : Nat :=
  if i ≤ k then k + 1 else k

theorem shifted_inj {i j k : Nat} : shifted i j = shifted i k ↔ j = k := by
  simp only [shifted]
  split <;> split <;> omega

/-- Every place but that of the inserted line is the new place of some line. -/
theorem eq_or_exists_shifted (i k : Nat) : k = i ∨ ∃ j, k = shifted i j := by
  rcases Nat.lt_trichotomy k i with hlt | heq | hgt
  · exact .inr ⟨k, by simp [shifted, Nat.not_le_of_gt hlt]⟩
  · exact .inl heq
  · refine .inr ⟨k - 1, ?_⟩
    simp only [shifted]
    split <;> omega

namespace Program

/-- The lines of a program with a marker inserted. -/
def insertMarker (p : Program) (i : Nat) (name : String) (inside : i ≤ p.size) : Array Line :=
  p.lines.insertIdx i (.label name) inside

section

variable {p : Program} {i : Nat} {name : String} (inside : i ≤ p.size)

theorem getElem?_insertMarker_self : (p.insertMarker i name inside)[i]? = some (.label name) :=
  Array.getElem?_insertIdx_self inside

theorem getElem?_insertMarker_shifted (k : Nat) :
    (p.insertMarker i name inside)[shifted i k]? = p.line? k := by
  rw [insertMarker, Array.getElem?_insertIdx inside, shifted, line?]
  split
  · next hle =>
    simp [Nat.not_lt_of_le (Nat.le_succ_of_le hle), Nat.ne_of_gt (Nat.lt_succ_of_le hle)]
  · next hlt => simp [Nat.lt_of_not_le hlt]

/-- A marker among the lines is the inserted one, or one of the program. -/
theorem getElem?_insertMarker_eq_label_iff {label : String} {k : Nat} :
    (p.insertMarker i name inside)[k]? = some (.label label) ↔
      k = i ∧ name = label ∨ ∃ j, p.labelIndex? label = some j ∧ k = shifted i j := by
  rcases eq_or_exists_shifted i k with rfl | ⟨j, rfl⟩
  · have moved (j : Nat) : k ≠ shifted k j := by
      simp only [shifted]
      split <;> omega
    simp [getElem?_insertMarker_self, moved]
  · have moved : shifted i j ≠ i := by
      simp only [shifted]
      split <;> omega
    simp [getElem?_insertMarker_shifted, moved, shifted_inj, labelIndex?_eq_some_iff]

/-- A marker with a new name can be inserted anywhere. -/
theorem exists_ofLines_insertMarker (fresh : p.labelIndex? name = none) :
    ∃ q, ofLines (p.insertMarker i name inside) = .ok q := by
  rw [exists_ofLines_iff]
  rintro k label ⟨hk, j, hlt, hj⟩
  rw [Array.getElem?_toList, getElem?_insertMarker_eq_label_iff] at hk hj
  rcases hk with ⟨rfl, rfl⟩ | ⟨k', hk', rfl⟩
  · simp [fresh, Nat.ne_of_lt hlt] at hj
  · rcases hj with ⟨-, rfl⟩ | ⟨j', hj', rfl⟩
    · simp [fresh] at hk'
    · obtain rfl : k' = j' := by simpa [hk'] using hj'
      exact absurd hlt (Nat.lt_irrefl _)

theorem labelIndex?_of_insertMarker {q : Program} (hq : q.lines = p.insertMarker i name inside)
    {label : String} (hne : label ≠ name) :
    q.labelIndex? label = (p.labelIndex? label).map (shifted i) := by
  apply Option.ext
  intro k
  rw [labelIndex?_eq_some_iff, line?, hq, getElem?_insertMarker_eq_label_iff,
    Option.map_eq_some_iff]
  simp [hne.symm, eq_comm (a := k)]

end

end Program

namespace Machine

/-! ## Relocated runs -/

/-- The operation with its target relocated. -/
def Operation.relocate (ρ : Nat → Nat) : Operation → Operation
  | jump target => jump (ρ target)
  | branch onZero target => branch onZero (ρ target)
  | op => op

/-- The same destination, relocated. -/
def Flow.relocate (ρ : Nat → Nat) : Flow → Flow
  | jump target => jump (ρ target)
  | flow => flow

def State.relocate (ρ : Nat → Nat) (s : State σ) : State σ :=
  { s with pc := ρ s.pc, trace := s.trace.map fun c => { c with index := ρ c.index } }

/-- The same end of an evaluation, at its new place. -/
def Halt.relocate (ρ : Nat → Nat) (h : Halt σ) : Halt σ :=
  ⟨h.state.relocate ρ, h.result.mapError fun e => { e with index := ρ e.index }⟩

/-- From line `a`, control comes to line `b` and passes at most a marker. -/
def Leads (p : Program) (a b : Nat) : Prop :=
  a = b ∨ (∃ name, p.line? a = some (.label name)) ∧ b = a + 1

/-- The lines of `p` stand in `q` at the places that `ρ` gives them. -/
structure Relocation (p q : Program) (ρ : Nat → Nat) : Prop where
  line : ∀ k, q.line? (ρ k) = p.line? k
  decode : ∀ k i opcode, p.line? k = some (.instruction i) → i.opcode? = some opcode →
    Operation.decode q opcode i.args = (Operation.decode p opcode i.args).map (·.relocate ρ)
  start : Leads q 0 (ρ 0)
  next : ∀ k, Leads q (ρ k + 1) (ρ (k + 1))

/-- Relocating the target of an operation relocates the jump to it and nothing else. -/
theorem perform_relocate (ρ : Nat → Nat) (host : Host σ) (op : Operation) (s : Store σ) :
    perform host (op.relocate ρ) s =
      { perform host op s with flow := (perform host op s).flow.map (Flow.relocate ρ) } := by
  cases hjump : op.isJump with
  | false =>
    have hop : op.relocate ρ = op := by
      cases op <;> simp_all [Operation.relocate, Operation.isJump]
    have hflow : (perform host op s).flow.map (Flow.relocate ρ) = (perform host op s).flow := by
      cases hf : (perform host op s).flow with
      | error fault => rfl
      | ok flow =>
        cases flow with
        | next | ret value => rfl
        | jump target => simp [isJump_of_flow_jump hf] at hjump
    rw [hop, hflow]
  | true =>
    cases op with
    | jump target => rfl
    | branch onZero target =>
      simp only [Operation.relocate, perform, Store.withOperand]
      split
      · split <;> rfl
      · rfl
    | _ => simp [Operation.isJump] at hjump

theorem perform_relocate_of_eq (ρ : Nat → Nat) {host : Host σ} {op : Operation} {s store : Store σ}
    {flow : Except Fault Flow} (h : perform host op s = ⟨store, flow⟩) :
    perform host (op.relocate ρ) s = ⟨store, flow.map (Flow.relocate ρ)⟩ := by
  rw [perform_relocate, h]

section

variable {p q : Program} {ρ : Nat → Nat} {host : Host σ} {s t : State σ} {h : Halt σ}

theorem Leads.run_eq {a b : Nat} (leads : Leads p a b) (s : State σ) :
    run p host { s with pc := a } = run p host { s with pc := b } := by
  rcases leads with rfl | ⟨⟨name, hline⟩, rfl⟩
  · rfl
  · exact run_of_next (Rule.marker hline).step_eq

namespace Relocation

variable (relocation : Relocation p q ρ)

include relocation

theorem fetched {i : Instruction} {opcode : Opcode} (fetched : Fetched p s i opcode) :
    Fetched q (s.relocate ρ) i opcode :=
  ⟨(relocation.line _).trans fetched.line, fetched.known, fetched.paid⟩

theorem decode_ok {i : Instruction} {opcode : Opcode} {op : Operation}
    (fetched : Fetched p s i opcode) (hdecode : Operation.decode p opcode i.args = .ok op) :
    Operation.decode q opcode i.args = .ok (op.relocate ρ) := by
  rw [relocation.decode _ i opcode fetched.line fetched.known, hdecode]
  rfl

/-- A line that halts does so at its new place. -/
theorem rule_halt (rule : Rule p host s (.halt h)) :
    Rule q host (s.relocate ρ) (.halt (h.relocate ρ)) := by
  cases rule with
  | finish hline => exact .finish ((relocation.line _).trans hline)
  | unknown hline hopcode => exact .unknown ((relocation.line _).trans hline) hopcode
  | unaffordable hline hopcode short =>
    exact .unaffordable ((relocation.line _).trans hline) hopcode short
  | @undecodable i opcode fault fetched hdecode =>
    refine .undecodable (relocation.fetched fetched) ?_
    rw [relocation.decode _ i opcode fetched.line fetched.known, hdecode]
    rfl
  | fails fetched hdecode hperform =>
    exact .fails (relocation.fetched fetched) (relocation.decode_ok fetched hdecode)
      (perform_relocate_of_eq ρ hperform)
  | returns fetched hdecode hperform =>
    exact .returns (relocation.fetched fetched) (relocation.decode_ok fetched hdecode)
      (perform_relocate_of_eq ρ hperform)

/-- A line that does not halt comes to the new place of the line that follows,
if past a marker. -/
theorem run_next (rule : Rule p host s (.next t)) :
    run q host (s.relocate ρ) = run q host (t.relocate ρ) := by
  cases rule with
  | marker hline =>
    rw [run_of_next (Rule.marker ((relocation.line _).trans hline)).step_eq]
    exact (relocation.next s.pc).run_eq (s.relocate ρ)
  | @proceeds i opcode op store fetched hdecode hperform =>
    have rule := Rule.proceeds (relocation.fetched fetched) (relocation.decode_ok fetched hdecode)
      (perform_relocate_of_eq ρ hperform)
    rw [run_of_next rule.step_eq]
    exact (relocation.next s.pc).run_eq ((s.relocate ρ).charge opcode store (ρ s.pc))
  | @jumps i opcode op store target fetched hdecode hperform =>
    have rule := Rule.jumps (relocation.fetched fetched) (relocation.decode_ok fetched hdecode)
      (perform_relocate_of_eq ρ hperform)
    rw [run_of_next rule.step_eq]
    exact (relocation.next target).run_eq ((s.relocate ρ).charge opcode store (ρ s.pc))

/-- An evaluation of the relocated lines is the evaluation of the lines, relocated. -/
theorem run_eq (s : State σ) : run q host (s.relocate ρ) = (run p host s).relocate ρ := by
  apply run_induction (motive := fun s h => run q host (s.relocate ρ) = h.relocate ρ)
  · intro s h rule
    exact run_of_halt (relocation.rule_halt rule).step_eq
  · intro s t h rule ih
    rw [relocation.run_next rule, ih]

theorem evaluate_eq (host : Host σ) (limit : Nat) (memory : σ) :
    evaluate q host limit memory = (evaluate p host limit memory).relocate ρ := by
  rw [evaluate, evaluate, ← relocation.run_eq]
  exact relocation.start.run_eq (State.initial limit memory)

end Relocation

end

/-! ## Inserted markers -/

/-- Where labels are relocated, instructions decode to relocated operations. -/
theorem decode_relocate {p q : Program} {ρ : Nat → Nat} {opcode : Opcode} {args : List String}
    (hlabel : opcode.isJump = true → ∀ label ∈ args.head?,
      q.labelIndex? label = (p.labelIndex? label).map ρ) :
    Operation.decode q opcode args = (Operation.decode p opcode args).map (·.relocate ρ) := by
  have target (jump : opcode.isJump = true) : Operation.readLabel q opcode args =
      (Operation.readLabel p opcode args).map ρ := by
    cases args with
    | nil => rfl
    | cons label rest =>
      simp only [Operation.readLabel, Operation.argument, hlabel jump label rfl]
      cases p.labelIndex? label <;> rfl
  cases opcode with
  | jump | jz | jnz =>
    rw [Operation.decode, Operation.decode, target rfl]
    cases Operation.readLabel p _ args <;> rfl
  | push | load | store =>
    rw [Operation.decode, Operation.decode]
    cases Operation.readArgument _ args _ <;> rfl
  | pushArg =>
    rw [Operation.decode, Operation.decode]
    cases Operation.argument _ args <;> rfl
  | _ => rfl

/-- Up to an inserted marker, control comes to the new place of each line. -/
theorem leads_shifted {q : Program} {i k : Nat} {name : String}
    (marker : q.line? i = some (.label name)) (hle : k ≤ i) : Leads q k (shifted i k) := by
  rcases Nat.lt_or_eq_of_le hle with hlt | rfl
  · exact .inl (by simp [shifted, Nat.not_le_of_gt hlt])
  · exact .inr ⟨⟨name, marker⟩, by simp [shifted]⟩

/-- A marker that no jump names relocates the lines behind it. -/
theorem relocation_of_insertMarker {p q : Program} {i : Nat} {name : String} {inside : i ≤ p.size}
    (hq : q.lines = p.insertMarker i name inside)
    (unused : ∀ k instr opcode, p.line? k = some (.instruction instr) →
      instr.opcode? = some opcode → opcode.isJump = true → instr.args.head? ≠ some name) :
    Relocation p q (shifted i) := by
  have marker : q.line? i = some (.label name) := by
    rw [Program.line?, hq]
    exact Program.getElem?_insertMarker_self inside
  refine ⟨?_, ?_, leads_shifted marker (Nat.zero_le i), ?_⟩
  · intro k
    rw [Program.line?, hq]
    exact Program.getElem?_insertMarker_shifted inside k
  · intro k instr opcode hline hopcode
    apply decode_relocate
    intro jump label hlabel
    apply Program.labelIndex?_of_insertMarker inside hq
    rintro rfl
    exact unused k instr opcode hline hopcode jump hlabel
  · intro k
    by_cases hle : i ≤ k
    · exact .inl (by simp [shifted, hle, Nat.le_succ_of_le hle])
    · rw [shifted, if_neg hle]
      exact leads_shifted marker (Nat.lt_of_not_le hle)

/-- Labels have no effect of their own. A marker with a new name that no jump
uses can be inserted at any place, and the lines still make a program. Every
evaluation of it ends as before: with the same outcome, or with the same fault
at the same instruction, which stands one line further on from the marker on. It
leaves the same stack, memory and printed values and uses the same gas. -/
theorem marker_has_no_effect (p : Program) (i : Nat) (name : String) (inside : i ≤ p.size)
    (fresh : p.labelIndex? name = none)
    (unused : ∀ k instr opcode, p.line? k = some (.instruction instr) →
      instr.opcode? = some opcode → opcode.isJump = true → instr.args.head? ≠ some name) :
    ∃ q, Program.ofLines (p.insertMarker i name inside) = .ok q ∧
      ∀ (σ : Type) (host : Host σ) (limit : Nat) (memory : σ),
        let before := evaluate p host limit memory
        let after := evaluate q host limit memory
        (∀ outcome, before.result = .ok outcome → after.result = .ok outcome) ∧
        (∀ e, before.result = .error e → after.result =
          .error ⟨if i ≤ e.index then e.index + 1 else e.index, e.fault⟩) ∧
        after.state.store = before.state.store ∧ after.gasUsed limit = before.gasUsed limit := by
  obtain ⟨q, hq⟩ := Program.exists_ofLines_insertMarker inside fresh
  have relocation := relocation_of_insertMarker (Program.ofLines_eq_ok_iff.mp hq) unused
  refine ⟨q, hq, ?_⟩
  intro σ host limit memory before after
  have hafter : after = before.relocate (shifted i) := relocation.evaluate_eq host limit memory
  rw [hafter]
  refine ⟨?_, ?_, rfl, rfl⟩
  · intro outcome hresult
    simp only [Halt.relocate, hresult]
    rfl
  · intro e hresult
    simp only [Halt.relocate, hresult]
    rfl

/-- A jump to a marker, behind which an operand is missing. -/
def bareAddition : Program :=
  ⟨#[.instruction ⟨"JUMP", ["end"]⟩, .instruction ⟨"POP", []⟩, .label "end",
    .instruction ⟨"PUSH", ["1"]⟩, .instruction ⟨"ADD", []⟩], (∅ : LabelTable).insert "end" 2, rfl⟩

/-- With a marker right behind the one it names, the jump leads to the new
marker, and the addition fails one line further on. -/
theorem bareAddition_marker_has_no_effect :
    (evaluate bareAddition .detached 20 ()).result = .error ⟨4, .stackUnderflow⟩ ∧
    ∃ q, Program.ofLines (bareAddition.insertMarker 3 "here" (by decide)) = .ok q ∧
      (evaluate q .detached 20 ()).result = .error ⟨5, .stackUnderflow⟩ ∧
      (evaluate q .detached 20 ()).gasUsed 20 = 11 := by
  have within : (runWithin bareAddition .detached 3 (.initial 20 ())).isSome := rfl
  have failed : (evaluate bareAddition .detached 20 ()).result = .error ⟨4, .stackUnderflow⟩ := by
    rw [evaluate, run_eq_get within]
    rfl
  have used : (evaluate bareAddition .detached 20 ()).gasUsed 20 = 11 := by
    rw [evaluate, run_eq_get within]
    rfl
  have fresh : bareAddition.labelIndex? "here" = none := by decide
  have unused : ∀ k instr opcode, bareAddition.line? k = some (.instruction instr) →
      instr.opcode? = some opcode → opcode.isJump = true → instr.args.head? ≠ some "here" := by
    intro k instr opcode hline _ _
    have hmem := Array.mem_of_getElem? hline
    simp only [bareAddition, Array.mem_def, List.mem_cons, Line.instruction.injEq, reduceCtorEq,
      List.not_mem_nil, or_false, false_or] at hmem
    rcases hmem with rfl | rfl | rfl | rfl <;> decide
  obtain ⟨q, hq, same⟩ :=
    marker_has_no_effect bareAddition 3 "here" (by decide) fresh unused
  obtain ⟨-, fails, -, hgas⟩ := same Unit .detached 20 ()
  exact ⟨failed, q, hq, fails _ failed, hgas.trans used⟩

end Machine

end MeteredLedger
