import MeteredLedger.Proofs.Machine.Gas
import MeteredLedger.Proofs.Program

/-!
# Segments of an evaluation

A segment takes control from one line to another and turns one store into
another, for a fixed price and whatever gas is left over. Segments are found line
by line and put together end to end, so a program is verified in pieces, and its
price is the sum of theirs.

Where segments lead from the first line to a return, they decide the evaluation
under every limit: it returns the value as soon as the limit covers the price,
and runs out of gas otherwise.
-/

namespace MeteredLedger.Machine

/-- The line at an index is an instruction that stands for `op`. -/
def Codes (p : Program) (index : Nat) (opcode : Opcode) (op : Operation) : Prop :=
  ∃ args, p.line? index = some (.instruction ⟨opcode.mnemonic, args⟩) ∧
    Operation.decode p opcode args = .ok op

/-- From line `i` and store `s`, control comes to line `j` with store `t` at the
price of `cost`. -/
def Segment (p : Program) (host : Host σ) (cost i : Nat) (s : Store σ) (j : Nat) (t : Store σ) :
    Prop :=
  ∀ gas trace, ∃ trace', run p host ⟨s, i, gas + cost, trace⟩ = run p host ⟨t, j, gas, trace'⟩

/-- From line `i` and store `s`, the evaluation returns `v` at the price of `cost`. -/
def Returns (p : Program) (host : Host σ) (cost i : Nat) (s : Store σ) (v : Value) : Prop :=
  ∀ gas trace, (run p host ⟨s, i, gas + cost, trace⟩).result = .ok (.returned v) ∧
    (run p host ⟨s, i, gas + cost, trace⟩).state.gas = gas

section

variable {p : Program} {host : Host σ} {opcode : Opcode} {op : Operation} {s t u : Store σ}
variable {cost cost' i j k : Nat} {v : Value}

theorem Codes.exists_fetched (codes : Codes p i opcode op) (gas : Nat) (trace : List Charge) :
    ∃ instr, Fetched p ⟨s, i, gas + opcode.cost, trace⟩ instr opcode ∧
      Operation.decode p opcode instr.args = .ok op := by
  obtain ⟨args, hline, hdecode⟩ := codes
  exact ⟨_, fetched_of_line hline (Nat.le_add_left _ _), hdecode⟩

theorem codes_jump {label : String} (hline : p.line? i = some (.instruction ⟨"JUMP", [label]⟩))
    (hmarker : p.line? j = some (.label label)) : Codes p i .jump (.jump j) := by
  have hlabel := Program.labelIndex?_eq_some_iff.mpr hmarker
  refine ⟨_, hline, ?_⟩
  rw [Operation.decode, Operation.readLabel_eq_ok_iff.mpr ⟨label, [], rfl, hlabel⟩]
  rfl

theorem codes_jnz {label : String} (hline : p.line? i = some (.instruction ⟨"JNZ", [label]⟩))
    (hmarker : p.line? j = some (.label label)) : Codes p i .jnz (.branch false j) := by
  have hlabel := Program.labelIndex?_eq_some_iff.mpr hmarker
  refine ⟨_, hline, ?_⟩
  rw [Operation.decode, Operation.readLabel_eq_ok_iff.mpr ⟨label, [], rfl, hlabel⟩]
  rfl

theorem Segment.trans (first : Segment p host cost i s j t)
    (second : Segment p host cost' j t k u) : Segment p host (cost + cost') i s k u := by
  intro gas trace
  obtain ⟨middle, hfirst⟩ := first (gas + cost') trace
  obtain ⟨last, hsecond⟩ := second gas middle
  refine ⟨last, ?_⟩
  rw [Nat.add_comm cost, ← Nat.add_assoc, hfirst, hsecond]

theorem Segment.returns (first : Segment p host cost i s j t)
    (second : Returns p host cost' j t v) : Returns p host (cost + cost') i s v := by
  intro gas trace
  obtain ⟨middle, hfirst⟩ := first (gas + cost') trace
  rw [Nat.add_comm cost, ← Nat.add_assoc, hfirst]
  exact second gas middle

/-- A marker is passed for nothing. -/
theorem segment_of_marker {name : String} (hline : p.line? i = some (.label name)) :
    Segment p host 0 i s (i + 1) s := by
  intro gas trace
  exact ⟨trace, run_of_next (Rule.marker hline).step_eq⟩

theorem segment_of_next (codes : Codes p i opcode op)
    (hperform : perform host op s = ⟨t, .ok .next⟩) :
    Segment p host opcode.cost i s (i + 1) t := by
  intro gas trace
  obtain ⟨instr, fetched, hdecode⟩ := codes.exists_fetched gas trace
  refine ⟨⟨i, opcode, gas + opcode.cost⟩ :: trace, ?_⟩
  rw [run_of_next (Rule.proceeds fetched hdecode hperform).step_eq, State.charge]
  simp [State.record]

theorem segment_of_jump {target : Nat} (codes : Codes p i opcode op)
    (hperform : perform host op s = ⟨t, .ok (.jump target)⟩) :
    Segment p host opcode.cost i s (target + 1) t := by
  intro gas trace
  obtain ⟨instr, fetched, hdecode⟩ := codes.exists_fetched gas trace
  refine ⟨⟨i, opcode, gas + opcode.cost⟩ :: trace, ?_⟩
  rw [run_of_next (Rule.jumps fetched hdecode hperform).step_eq, State.charge]
  simp [State.record]

/-- A reference to a block is exchanged for the time of the block. -/
theorem segment_of_timestamp {block : String} {time : Int64} {rest : List Value}
    (codes : Codes p i .timestamp .timestamp) (hstack : s.stack = .text block :: rest)
    (htime : host.timestamp s.host block = .ok time) :
    Segment p host 5 i s (i + 1) { s with stack := .int time :: rest } := by
  apply segment_of_next codes
  simp only [perform, Store.withOperand, hstack, performTimestamp, htime]
  rfl

theorem returns_of_ret (codes : Codes p i opcode op)
    (hperform : perform host op s = ⟨t, .ok (.ret v)⟩) : Returns p host opcode.cost i s v := by
  intro gas trace
  obtain ⟨instr, fetched, hdecode⟩ := codes.exists_fetched gas trace
  rw [run_of_halt (Rule.returns fetched hdecode hperform).step_eq]
  exact ⟨rfl, Nat.add_sub_cancel _ _⟩

/-! ## Whole evaluations -/

variable {memory : σ} {limit : Nat}

/-- A limit that covers the price is enough. -/
theorem Returns.evaluate_result (h : Returns p host cost 0 (State.initial limit memory).store v)
    (hle : cost ≤ limit) : (evaluate p host limit memory).result = .ok (.returned v) := by
  obtain ⟨spare, rfl⟩ := Nat.exists_eq_add_of_le' hle
  exact (h spare []).1

/-- A limit below the price is not. With the price as its limit, the evaluation
would leave the gas by which the limit falls short of it. -/
theorem Returns.evaluate_isOutOfGas
    (h : Returns p host cost 0 (State.initial limit memory).store v) (hlt : limit < cost) :
    (evaluate p host limit memory).isOutOfGas = true := by
  cases enough : (evaluate p host limit memory).isOutOfGas with
  | true => rfl
  | false =>
    obtain ⟨missing, rfl⟩ := Nat.exists_eq_add_of_lt hlt
    have hgas : (evaluate p host (limit + (missing + 1)) memory).state.gas = 0 := by
      have hall := (h 0 []).2
      rw [Nat.zero_add] at hall
      exact hall
    rw [evaluate_add, run_grant enough] at hgas
    simp [Halt.grant] at hgas

theorem Halt.exists_error_of_isOutOfGas {h : Halt σ} (short : h.isOutOfGas = true) :
    ∃ e, h.result = .error e ∧ e.isOutOfGas = true := by
  rw [Halt.isOutOfGas] at short
  split at short
  · next e hresult => exact ⟨e, hresult, short⟩
  · simp at short

end

end MeteredLedger.Machine
