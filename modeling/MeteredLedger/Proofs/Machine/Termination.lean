import MeteredLedger.Proofs.Machine.Execution
import MeteredLedger.Proofs.Program

/-!
# How many lines an evaluation executes

Neither the gas nor the position of a machine decreases on its own: markers and
the free operations leave the gas alone, and jumps move control backwards. But
a line that does not hand control to the next one costs at least eight units of
gas. Between two such lines control passes each line of the program at most
once, so `linesLeft` bounds what is still to be executed.

Given as many lines as `linesLeft` allows, an evaluation is not cut off.
-/

namespace MeteredLedger

/-- No jump is cheaper than eight units of gas. -/
theorem Opcode.eight_le_cost_of_isJump {opcode : Opcode} (h : opcode.isJump = true) :
    8 ≤ opcode.cost := by
  cases opcode <;> simp_all [isJump, cost]

namespace Machine

/-- A bound on the lines an evaluation from `s` executes. -/
def linesLeft (p : Program) (s : State σ) : Nat :=
  s.gas / 8 * (p.size + 1) + (p.size + 1 - s.pc)

section

variable {p : Program} {host : Host σ} {s t : State σ}

/-- A line hands control to the next one, or costs at least eight units of gas
and hands control to the line after a marker. -/
theorem Rule.next_or_jump (rule : Rule p host s (.next t)) :
    s.pc < p.size ∧ t.pc ≤ p.size ∧
      (t.gas ≤ s.gas ∧ t.pc = s.pc + 1 ∨ t.gas + 8 ≤ s.gas) := by
  cases rule with
  | marker hl =>
    have inside := Program.lt_size_of_line? hl
    exact ⟨inside, inside, .inl ⟨Nat.le_refl _, rfl⟩⟩
  | proceeds fetched =>
    have inside := Program.lt_size_of_line? fetched.line
    exact ⟨inside, inside, .inl ⟨Nat.sub_le _ _, rfl⟩⟩
  | jumps fetched hd he =>
    obtain ⟨hjump, label, rest, -, hlabel⟩ :=
      Operation.exists_label_of_decode hd (target?_of_perform he)
    have hcost := Opcode.eight_le_cost_of_isJump hjump
    have paid := fetched.paid
    refine ⟨Program.lt_size_of_line? fetched.line, Program.lt_size_of_labelIndex? hlabel, .inr ?_⟩
    rw [State.charge_gas]
    omega

/-- Each line that does not halt leaves fewer lines to execute. -/
theorem Rule.linesLeft_lt (rule : Rule p host s (.next t)) : linesLeft p t < linesLeft p s := by
  obtain ⟨inside, inside', ⟨hgas, hpc⟩ | hgas⟩ := rule.next_or_jump
  · have hrounds : t.gas / 8 * (p.size + 1) ≤ s.gas / 8 * (p.size + 1) :=
      Nat.mul_le_mul_right _ (Nat.div_le_div_right hgas)
    simp only [linesLeft]
    omega
  · -- one round less is left, and a round is longer than what is left of this one
    have hrounds : (t.gas / 8 + 1) * (p.size + 1) ≤ s.gas / 8 * (p.size + 1) :=
      Nat.mul_le_mul_right _ (by omega)
    rw [Nat.add_mul] at hrounds
    simp only [linesLeft]
    omega

/-- With as many lines as are left, the evaluation is not cut off. -/
theorem runWithin_of_linesLeft_le (p : Program) (host : Host σ) (s : State σ) :
    s.pc ≤ p.size → ∀ fuel, linesLeft p s ≤ fuel → runWithin p host fuel s = some (run p host s) := by
  apply run_induction (motive := fun s h => s.pc ≤ p.size →
    ∀ fuel, linesLeft p s ≤ fuel → runWithin p host fuel s = some h)
  · intro s h rule hpc fuel hfuel
    cases fuel with
    | zero =>
      simp only [linesLeft] at hfuel
      omega
    | succ fuel => simp only [runWithin, rule.step_eq]
  · intro s t h rule ih hpc fuel hfuel
    have hlt := rule.linesLeft_lt
    cases fuel with
    | zero => omega
    | succ fuel =>
      simp only [runWithin, rule.step_eq]
      exact ih rule.next_or_jump.2.1 fuel (by omega)

/-- A run that has not cost eight units of gas has passed its lines in order. -/
theorem Steps.gas_or_pc {n : Nat} (steps : Steps p host n s t) :
    t.gas ≤ s.gas ∧ (t.gas + 8 ≤ s.gas ∨ t.pc = s.pc + n) := by
  induction steps with
  | refl => exact ⟨Nat.le_refl _, .inr rfl⟩
  | cons hs _ ih =>
    obtain ⟨-, -, hstep⟩ := (step_eq_iff.mp hs).next_or_jump
    omega

end

/-- Every evaluation ends, after at most `p.size + 1` lines for each eight units
of gas and for what remains of them: cut off there or later, it gives its
answer. Control cannot come back to a line without paying for it, so markers
and free operations never make a cycle by themselves. -/
theorem evaluate_within (p : Program) (host : Host σ) (limit : Nat) (memory : σ) :
    (∀ fuel, (limit / 8 + 1) * (p.size + 1) ≤ fuel →
      runWithin p host fuel (.initial limit memory) = some (evaluate p host limit memory)) ∧
    ∀ n s t, Steps p host (n + 1) s t → t.pc ≤ s.pc → t.gas + 8 ≤ s.gas := by
  constructor
  · intro fuel hfuel
    apply runWithin_of_linesLeft_le p host _ (Nat.zero_le _)
    rw [Nat.add_mul] at hfuel
    simpa [linesLeft, State.initial] using hfuel
  · intro n s t steps hback
    have := steps.gas_or_pc
    omega

/-- A marker and a jump back to it. -/
def endlessLoop : Program :=
  ⟨#[.label "top", .instruction ⟨"JUMP", ["top"]⟩], (∅ : LabelTable).insert "top" 0, rfl⟩

/-- The endless loop is cut short by its gas: one hundred units pay for less
than thirty-nine lines, and each turn takes eight of them. -/
theorem endlessLoop_evaluate_within :
    runWithin endlessLoop .detached 39 (.initial 100 ()) =
      some (evaluate endlessLoop .detached 100 ()) ∧
    ∃ s t : State Unit, Steps endlessLoop .detached 1 s t ∧ t.pc = s.pc ∧ t.gas + 8 ≤ s.gas := by
  obtain ⟨within, cycles⟩ := evaluate_within endlessLoop .detached 100 ()
  refine ⟨within 39 (by decide), ?_⟩
  let s : State Unit := { State.initial 100 () with pc := 1 }
  have turn : Steps endlessLoop .detached 1 s (s.charge .jump s.store 1) := .cons rfl (.refl _)
  exact ⟨s, _, turn, rfl, cycles 0 s _ turn (by decide)⟩

end Machine

end MeteredLedger
