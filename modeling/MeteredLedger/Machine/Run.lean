import MeteredLedger.Machine.Step

/-!
# Evaluation

A program is run line by line until it halts. It always does: only a jump can
leave the order of lines, and a jump costs gas, so between two losses of gas
control moves strictly forward through finitely many lines.
-/

namespace MeteredLedger.Machine

/-- Only a jump sends control to a label. -/
theorem isJump_of_flow_jump {host : Host σ} {op : Operation} {s : Store σ} {target : Nat}
    (h : (perform host op s).flow = .ok (.jump target)) : op.isJump = true := by
  cases op <;>
    simp only [perform, performArithmetic, performComparison, performTimestamp, Store.push,
      Store.fail, Store.print, Store.withOperand, Store.withOperands] at h <;>
    first
      | rfl
      | (exfalso; revert h; repeat' split) <;> simp

/-- Each line that does not halt uses gas or moves forward inside the program. -/
theorem step_decreases {p : Program} {host : Host σ} {s t : State σ} (h : step p host s = .next t) :
    t.gas < s.gas ∨ t.gas = s.gas ∧ p.size - t.pc < p.size - s.pc := by
  have inside : ∀ l, p.line? s.pc = some l → s.pc < p.size := fun l hl =>
    (Array.getElem?_eq_some_iff.mp hl).1
  rw [step] at h
  split at h
  · simp at h
  · next hl =>
    obtain rfl : _ = t := by simpa using h
    have := inside _ hl
    simp only [true_and]
    omega
  · next i hl =>
    have := inside _ hl
    split at h
    · simp [State.fault] at h
    · next opcode hop =>
      split at h
      · next hcost =>
        rw [execute] at h
        split at h
        · simp [State.fault] at h
        · next op hdec =>
          rw [State.advance] at h
          split at h
          · simp [State.fault] at h
          · obtain rfl : _ = t := by simpa using h
            simp only [State.record]
            omega
          · next target hflow =>
            obtain rfl : _ = t := by simpa using h
            have hjump := isJump_of_flow_jump hflow
            rw [Operation.isJump_of_decode hdec] at hjump
            have := Opcode.cost_pos_of_isJump hjump
            simp only [State.record]
            omega
          · simp at h
      · simp [State.fault] at h

/-- Runs a program from a state until it halts. -/
def run (p : Program) (host : Host σ) (s : State σ) : Halt σ :=
  match _hstep : step p host s with
  | .halt result => result
  | .next t => run p host t
termination_by (s.gas, p.size - s.pc)
decreasing_by
  rcases step_decreases _hstep with hlt | ⟨heq, hlt⟩
  · exact Prod.Lex.left _ _ hlt
  · rw [heq]
    exact Prod.Lex.right _ hlt

/-- Gas granted to an evaluation when the caller does not choose. -/
def defaultGas : Nat := 1000

/-- Evaluates a program from its first line with a fresh machine. -/
def evaluate (p : Program) (host : Host σ) (limit : Nat) (memory : σ) : Halt σ :=
  run p host (.initial limit memory)

/-- Clears a machine for an evaluation. Nothing stays but what the host remembers. -/
def State.reset (limit : Nat) (s : State σ) : State σ where
  store := { s.store with stack := [], memory := ∅, printed := [] }
  pc := 0
  gas := limit
  trace := []

/-- Evaluates a program on a machine that may have been used before. -/
def reevaluate (p : Program) (host : Host σ) (limit : Nat) (s : State σ) : Halt σ :=
  run p host (s.reset limit)

/-- The machine after `n` evaluations of a program, whatever came of them. -/
def afterEvaluations (p : Program) (host : Host σ) (limit : Nat) (s : State σ) : Nat → State σ
  | 0 => s
  | n + 1 => (reevaluate p host limit (afterEvaluations p host limit s n)).state

/-- What a machine was used for before makes no difference but through its host. -/
theorem reevaluate_eq_evaluate (p : Program) (host : Host σ) (limit : Nat) (s : State σ) :
    reevaluate p host limit s = evaluate p host limit s.store.host :=
  rfl

end MeteredLedger.Machine
