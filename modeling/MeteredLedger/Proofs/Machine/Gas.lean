import MeteredLedger.Proofs.Machine.Execution

/-!
# Evaluation under different gas limits

A machine with more gas does what a machine with less gas does, for as long as
the poorer one can go on. `State.grant` adds gas to a state, also where the
trace notes it, and `run_grant_or` compares the two runs: they agree to the end,
or the poorer one starves at a line and the richer one goes on from that line.

Everything else about limits follows from this comparison. The gas a successful
run has used is the least limit under which it succeeds, because the richer run
charges the line where the poorer one starves.
-/

namespace MeteredLedger.Machine

/-- The instructions that passed the gas check, in order. -/
def State.executed (s : State σ) : List (Nat × Opcode) :=
  s.trace.reverse.map fun c => (c.index, c.opcode)

namespace Halt

/-- Whether the evaluation ended because its gas did. -/
def isOutOfGas (h : Halt σ) : Bool :=
  match h.result with
  | .error e => e.isOutOfGas
  | .ok _ => false

/-- Gas charged in an evaluation that started with a given limit. -/
def gasUsed (h : Halt σ) (limit : Nat) : Nat :=
  limit - h.state.gas

/-- The instructions that passed the gas check, in order. -/
def executed (h : Halt σ) : List (Nat × Opcode) :=
  h.state.executed

/-- The last instruction that passed the gas check and was not free. -/
def lastCostly? (h : Halt σ) : Option (Nat × Opcode) :=
  (h.executed.filter fun c => 0 < c.2.cost).getLast?

end Halt

/-- The same state with more gas, now and at every instruction before. -/
def State.grant (extra : Nat) (s : State σ) : State σ :=
  { s with
    gas := s.gas + extra
    trace := s.trace.map fun c => { c with gas := c.gas + extra } }

/-- The same end of an evaluation, reached with more gas. -/
def Halt.grant (extra : Nat) (h : Halt σ) : Halt σ :=
  { h with state := h.state.grant extra }

section

variable {p : Program} {host : Host σ} {s t : State σ} {h : Halt σ} {extra : Nat}

@[simp] theorem State.grant_gas : (s.grant extra).gas = s.gas + extra := rfl

@[simp] theorem State.executed_grant : (s.grant extra).executed = s.executed := by
  simp [executed, grant, ← List.map_reverse, Function.comp_def]

/-- An instruction that was paid for leaves the extra gas untouched. -/
theorem State.grant_charge {opcode : Opcode} {store : Store σ} {pc : Nat}
    (paid : opcode.cost ≤ s.gas) :
    (s.charge opcode store pc).grant extra = (s.grant extra).charge opcode store pc := by
  have hgas : s.gas - opcode.cost + extra = s.gas + extra - opcode.cost := by omega
  simp [charge, grant, record, hgas]

theorem Fetched.grant {i : Instruction} {opcode : Opcode} (fetched : Fetched p s i opcode) :
    Fetched p (s.grant extra) i opcode :=
  ⟨fetched.line, fetched.known, Nat.le_add_right_of_le fetched.paid⟩

/-- A line that does not halt does the same with more gas. -/
theorem Rule.grant_next (rule : Rule p host s (.next t)) (extra : Nat) :
    Rule p host (s.grant extra) (.next (t.grant extra)) := by
  cases rule with
  | marker hl => exact .marker hl
  | proceeds fetched hd he =>
    rw [State.grant_charge fetched.paid]
    exact .proceeds fetched.grant hd he
  | jumps fetched hd he =>
    rw [State.grant_charge fetched.paid]
    exact .jumps fetched.grant hd he

/-- The current instruction of `s` costs more than `s` has left. -/
structure Starves (p : Program) (s : State σ) (i : Instruction) (opcode : Opcode) : Prop where
  line : p.line? s.pc = some (.instruction i)
  known : i.opcode? = some opcode
  short : s.gas < opcode.cost

/-- How an evaluation ends that starves at `s`. -/
def starved (s : State σ) (opcode : Opcode) : Halt σ :=
  ⟨s, .error ⟨s.pc, .outOfGas opcode opcode.cost s.gas⟩⟩

theorem Starves.run_eq {i : Instruction} {opcode : Opcode} (starves : Starves p s i opcode) :
    run p host s = starved s opcode :=
  run_of_halt (Rule.unaffordable starves.line starves.known starves.short).step_eq

/-- A line that halts does the same with more gas, unless it halts for lack of it. -/
theorem Rule.grant_halt (rule : Rule p host s (.halt h)) (extra : Nat) :
    Rule p host (s.grant extra) (.halt (h.grant extra)) ∨
      ∃ i opcode, Starves p s i opcode ∧ h = starved s opcode := by
  cases rule with
  | finish hl => exact .inl (.finish hl)
  | unknown hl ho => exact .inl (.unknown hl ho)
  | unaffordable hl ho hc => exact .inr ⟨_, _, ⟨hl, ho, hc⟩, rfl⟩
  | undecodable fetched hd => exact .inl (.undecodable fetched.grant hd)
  | fails fetched hd he => exact .inl (.fails fetched.grant hd he)
  | returns fetched hd he =>
    refine .inl ?_
    rw [Halt.grant, State.grant_charge fetched.paid]
    exact .returns fetched.grant hd he

/-- Extra gas makes no difference up to the line where a run without it starves. -/
theorem run_grant_or (p : Program) (host : Host σ) (s : State σ) (extra : Nat) :
    run p host (s.grant extra) = (run p host s).grant extra ∨
      ∃ t i opcode, Starves p t i opcode ∧ run p host s = starved t opcode ∧
        run p host (s.grant extra) = run p host (t.grant extra) := by
  apply run_induction (motive := fun s h => run p host (s.grant extra) = h.grant extra ∨
    ∃ t i opcode, Starves p t i opcode ∧ h = starved t opcode ∧
      run p host (s.grant extra) = run p host (t.grant extra))
  · intro s h rule
    rcases rule.grant_halt extra with rule' | ⟨i, opcode, starves, rfl⟩
    · exact .inl (run_of_halt rule'.step_eq)
    · exact .inr ⟨s, i, opcode, starves, rfl, rfl⟩
  · intro s t h rule ih
    rwa [run_of_next (rule.grant_next extra).step_eq]

/-- What an evaluation from `s` adds to the trace costs no more than `s` has,
and gas is never given back. -/
theorem exists_trace_run (p : Program) (host : Host σ) (s : State σ) :
    (run p host s).state.gas ≤ s.gas ∧
      ∃ later, (run p host s).state.trace = later ++ s.trace ∧
        ∀ c ∈ later, c.opcode.cost ≤ s.gas := by
  apply run_induction (motive := fun s h => h.state.gas ≤ s.gas ∧
    ∃ later, h.state.trace = later ++ s.trace ∧ ∀ c ∈ later, c.opcode.cost ≤ s.gas)
  · intro s h rule
    cases rule with
    | finish | unknown | unaffordable => exact ⟨Nat.le_refl _, [], rfl, by simp⟩
    | undecodable fetched | fails fetched =>
      exact ⟨Nat.le_refl _, [_], rfl, by simpa using fetched.paid⟩
    | returns fetched => exact ⟨Nat.sub_le _ _, [_], rfl, by simpa using fetched.paid⟩
  · rintro s t h rule ⟨hgas, later, htrace, hlater⟩
    cases rule with
    | marker => exact ⟨hgas, later, htrace, hlater⟩
    | @proceeds i opcode op store fetched | @jumps i opcode op store target fetched =>
      rw [State.charge_gas] at hgas hlater
      refine ⟨by omega, later ++ [_], by simpa using htrace, ?_⟩
      intro c hc
      rcases List.mem_append.mp hc with hc | hc
      · exact Nat.le_trans (hlater c hc) (Nat.sub_le _ _)
      · obtain rfl : c = _ := by simpa using hc
        exact fetched.paid

/-- The instructions before a state are a prefix of those of the whole evaluation. -/
theorem executed_prefix_run (p : Program) (host : Host σ) (s : State σ) :
    s.executed <+: (run p host s).executed := by
  obtain ⟨-, later, htrace, -⟩ := exists_trace_run p host s
  simp [Halt.executed, State.executed, htrace]

/-- A successful evaluation charges its first instruction, and has for the rest
what the charge leaves. -/
theorem Fetched.exists_trace_of_ok {i : Instruction} {opcode : Opcode} {outcome : Outcome}
    (fetched : Fetched p s i opcode) (ok : (run p host s).result = .ok outcome) :
    (run p host s).state.gas ≤ s.gas - opcode.cost ∧
      ∃ later, (run p host s).state.trace = later ++ ⟨s.pc, opcode, s.gas⟩ :: s.trace ∧
        ∀ c ∈ later, c.opcode.cost ≤ s.gas - opcode.cost := by
  have same {j : Instruction} {other : Opcode} (fetched' : Fetched p s j other) : other = opcode := by
    obtain rfl : j = i := by simpa [fetched.line] using fetched'.line.symm
    simpa [fetched.known] using fetched'.known.symm
  generalize hr : step p host s = r
  have rule := step_eq_iff.mp hr
  cases rule with
  | finish hl | marker hl => simp [fetched.line] at hl
  | unknown | unaffordable | undecodable | fails =>
    rw [run_of_halt hr] at ok
    simp at ok
  | returns fetched' =>
    rw [run_of_halt hr]
    obtain rfl := same fetched'
    exact ⟨Nat.le_refl _, [], rfl, by simp⟩
  | proceeds fetched' | jumps fetched' =>
    rw [run_of_next hr]
    obtain rfl := same fetched'
    exact exists_trace_run p host _

/-- More gas does not change an evaluation that did not end for lack of it. -/
theorem run_grant (enough : (run p host s).isOutOfGas = false) (extra : Nat) :
    run p host (s.grant extra) = (run p host s).grant extra := by
  rcases run_grant_or p host s extra with heq | ⟨t, i, opcode, starves, hrun, -⟩
  · exact heq
  · simp [hrun, starved, Halt.isOutOfGas, Error.isOutOfGas] at enough

/-- With more gas, the same instructions are executed first. -/
theorem executed_prefix_run_grant (p : Program) (host : Host σ) (s : State σ) (extra : Nat) :
    (run p host s).executed <+: (run p host (s.grant extra)).executed := by
  rcases run_grant_or p host s extra with heq | ⟨t, i, opcode, starves, hrun, hgrant⟩
  · rw [heq]
    simp [Halt.executed, Halt.grant]
  · rw [hrun, hgrant]
    have hprefix := executed_prefix_run p host (t.grant extra)
    rwa [State.executed_grant] at hprefix

theorem Starves.fetched_of_ok {i : Instruction} {opcode : Opcode} {outcome : Outcome}
    (starves : Starves p s i opcode) (ok : (run p host (s.grant extra)).result = .ok outcome) :
    Fetched p (s.grant extra) i opcode := by
  refine ⟨starves.line, starves.known, ?_⟩
  apply Nat.le_of_not_lt
  intro short
  have starves' : Starves p (s.grant extra) i opcode := ⟨starves.line, starves.known, short⟩
  simp [starves'.run_eq, starved] at ok

/-- Gas that a successful evaluation leaves over can be taken from it. -/
theorem run_grant_of_le {outcome : Outcome}
    (ok : (run p host (s.grant extra)).result = .ok outcome)
    (left : extra ≤ (run p host (s.grant extra)).state.gas) :
    run p host (s.grant extra) = (run p host s).grant extra := by
  rcases run_grant_or p host s extra with heq | ⟨t, i, opcode, starves, -, hgrant⟩
  · exact heq
  · rw [hgrant] at ok left
    -- the richer run pays for the line where the poorer one starves, out of the extra gas
    have fetched := starves.fetched_of_ok ok
    have charged := (fetched.exists_trace_of_ok ok).1
    have paid := fetched.paid
    have short := starves.short
    rw [State.grant_gas] at charged paid
    omega

theorem Halt.lastCostly?_eq {c : Charge} {later before : List Charge}
    (htrace : h.state.trace = later ++ c :: before) (costly : 0 < c.opcode.cost)
    (free : ∀ d ∈ later, d.opcode.cost = 0) : h.lastCostly? = some (c.index, c.opcode) := by
  have hfree : (later.map fun d => (d.index, d.opcode)).filter (fun d => 0 < d.2.cost) = [] := by
    simpa [List.filter_eq_nil_iff] using free
  simp [lastCostly?, executed, State.executed, htrace, List.filter_append, hfree, costly]

end

section

variable (p : Program) (host : Host σ) (memory : σ)

theorem evaluate_add (limit extra : Nat) :
    evaluate p host (limit + extra) memory = run p host ((State.initial limit memory).grant extra) :=
  rfl

variable {p host memory} {limit extra : Nat} {outcome : Outcome}

theorem evaluate_gas_le : (evaluate p host limit memory).state.gas ≤ limit :=
  (exists_trace_run p host (.initial limit memory)).1

/-- With exactly the gas it uses, a successful evaluation still succeeds, and
leaves none. -/
theorem evaluate_of_gasUsed {used : Nat}
    (ok : (evaluate p host limit memory).result = .ok outcome)
    (hused : (evaluate p host limit memory).gasUsed limit = used) :
    (evaluate p host used memory).result = .ok outcome ∧
      (evaluate p host used memory).state.gas = 0 ∧
      (evaluate p host used memory).lastCostly? = (evaluate p host limit memory).lastCostly? := by
  generalize hleft : (evaluate p host limit memory).state.gas = left at *
  obtain rfl : limit = used + left := by
    have hle : left ≤ limit := hleft ▸ evaluate_gas_le
    rw [Halt.gasUsed, hleft] at hused
    omega
  rw [evaluate_add] at ok hleft
  have same := run_grant_of_le ok (Nat.le_of_eq hleft.symm)
  refine ⟨?_, ?_, ?_⟩
  · rw [same] at ok
    exact ok
  · rw [same] at hleft
    exact Nat.add_eq_right.mp hleft
  · rw [evaluate_add, same]
    simp [evaluate, Halt.lastCostly?, Halt.executed, Halt.grant]

/-- Without its last unit of gas, a successful evaluation starves at the last
instruction that was not free. -/
theorem evaluate_starves_of_gas_eq_zero
    (ok : (evaluate p host (limit + 1) memory).result = .ok outcome)
    (hzero : (evaluate p host (limit + 1) memory).state.gas = 0) :
    ∃ index opcode remaining,
      (evaluate p host (limit + 1) memory).lastCostly? = some (index, opcode) ∧
      remaining + 1 = opcode.cost ∧
      (evaluate p host limit memory).result =
        .error ⟨index, .outOfGas opcode opcode.cost remaining⟩ := by
  rw [evaluate_add] at ok hzero ⊢
  rcases run_grant_or p host (.initial limit memory) 1 with
    heq | ⟨t, i, opcode, starves, hrun, hgrant⟩
  · rw [heq] at hzero
    simp [Halt.grant] at hzero
  · rw [hgrant] at ok ⊢
    have fetched := starves.fetched_of_ok ok
    have hcost : t.gas + 1 = opcode.cost := Nat.le_antisymm starves.short fetched.paid
    obtain ⟨-, later, htrace, hlater⟩ := fetched.exists_trace_of_ok ok
    refine ⟨t.pc, opcode, t.gas, ?_, hcost, ?_⟩
    · have costly : 0 < opcode.cost := by omega
      apply Halt.lastCostly?_eq htrace costly
      intro d hd
      have hd := hlater d hd
      rw [State.grant_gas] at hd
      omega
    · rw [evaluate, hrun]
      rfl

end

/-- Two evaluations end alike, each under its own limit: with the same result,
stack, memory and printed values, at the same line, and for the same gas. -/
structure EndAlike (limit limit' : Nat) (h h' : Halt σ) : Prop where
  result : h'.result = h.result
  store : h'.state.store = h.state.store
  pc : h'.state.pc = h.state.pc
  gasUsed : h'.gasUsed limit' = h.gasUsed limit

theorem endAlike_add {p : Program} {host : Host σ} {memory : σ} {limit : Nat}
    (enough : (evaluate p host limit memory).isOutOfGas = false) (extra : Nat) :
    EndAlike limit (limit + extra) (evaluate p host limit memory)
      (evaluate p host (limit + extra) memory) := by
  have same : evaluate p host (limit + extra) memory = (evaluate p host limit memory).grant extra :=
    run_grant enough extra
  rw [same]
  refine ⟨rfl, rfl, rfl, ?_⟩
  exact Nat.add_sub_add_right _ _ _

/-- More gas never changes a finished evaluation, and lack of gas only cuts the
evaluation short. The gas used by a successful evaluation is exactly the gas it
needs: no limit below it suffices, every limit from it on does, and with one
unit less the last instruction that is not free lacks one unit. -/
theorem evaluate_gas_threshold (p : Program) (host : Host σ) (memory : σ) :
    (∀ limit limit', limit ≤ limit' →
      ((evaluate p host limit memory).isOutOfGas = false →
        EndAlike limit limit' (evaluate p host limit memory) (evaluate p host limit' memory)) ∧
      ((evaluate p host limit memory).isOutOfGas = true →
        (evaluate p host limit memory).executed <+: (evaluate p host limit' memory).executed)) ∧
    ∀ start outcome used, (evaluate p host start memory).result = .ok outcome →
      (evaluate p host start memory).gasUsed start = used →
        (∀ limit, used ≤ limit → (evaluate p host limit memory).result = .ok outcome) ∧
        (∀ limit, limit < used → (evaluate p host limit memory).isOutOfGas = true) ∧
        (0 < used → ∃ index opcode remaining,
          (evaluate p host start memory).lastCostly? = some (index, opcode) ∧
          remaining + 1 = opcode.cost ∧
          (evaluate p host (used - 1) memory).result =
            .error ⟨index, .outOfGas opcode opcode.cost remaining⟩) := by
  constructor
  · intro limit limit' hle
    obtain ⟨extra, rfl⟩ := Nat.exists_eq_add_of_le hle
    constructor
    · intro enough
      exact endAlike_add enough extra
    · intro _
      rw [evaluate_add]
      exact executed_prefix_run_grant p host _ extra
  · intro start outcome used ok hused
    obtain ⟨okUsed, hzero, hlast⟩ := evaluate_of_gasUsed ok hused
    refine ⟨?_, ?_, ?_⟩
    · intro limit hle
      obtain ⟨extra, rfl⟩ := Nat.exists_eq_add_of_le hle
      have enough : (evaluate p host used memory).isOutOfGas = false := by
        simp [Halt.isOutOfGas, okUsed]
      rw [evaluate_add, run_grant enough extra]
      exact okUsed
    · intro limit hlt
      cases enough : (evaluate p host limit memory).isOutOfGas with
      | true => rfl
      | false =>
        -- a run that ends with less gas would leave some of it under the limit `used`
        obtain ⟨extra, rfl⟩ := Nat.exists_eq_add_of_lt hlt
        rw [Nat.add_assoc, evaluate_add, run_grant enough] at hzero
        simp [Halt.grant] at hzero
    · intro hpos
      obtain ⟨short, rfl⟩ := Nat.exists_eq_add_of_lt hpos
      rw [← hlast]
      simpa using evaluate_starves_of_gas_eq_zero okUsed hzero

/-- The difference of two literals. -/
def difference : Program :=
  ⟨#[.instruction ⟨"PUSH", ["5"]⟩, .instruction ⟨"PUSH", ["2"]⟩, .instruction ⟨"SUB", []⟩,
    .instruction ⟨"RETURN", []⟩], ∅, rfl⟩

/-- The difference takes nine units of gas. With eight of them the subtraction,
the last instruction before the free return, lacks one. -/
theorem difference_gas_threshold :
    (evaluate difference .detached 20 ()).result = .ok (.returned (.int 3)) ∧
    (evaluate difference .detached 20 ()).gasUsed 20 = 9 ∧
    (evaluate difference .detached 9 ()).result = .ok (.returned (.int 3)) ∧
    (evaluate difference .detached 8 ()).isOutOfGas = true ∧
    (evaluate difference .detached 8 ()).result = .error ⟨2, .outOfGas .sub 3 2⟩ ∧
    (evaluate difference .detached 8 ()).executed <+: (evaluate difference .detached 9 ()).executed ∧
    EndAlike 9 20 (evaluate difference .detached 9 ()) (evaluate difference .detached 20 ()) := by
  have rich : (runWithin difference .detached 4 (.initial 20 ())).isSome := rfl
  have poor : (runWithin difference .detached 4 (.initial 9 ())).isSome := rfl
  have ok : (evaluate difference .detached 20 ()).result = .ok (.returned (.int 3)) := by
    rw [evaluate, run_eq_get rich]
    rfl
  have used : (evaluate difference .detached 20 ()).gasUsed 20 = 9 := by
    rw [evaluate, run_eq_get rich]
    rfl
  have last : (evaluate difference .detached 20 ()).lastCostly? = some (2, .sub) := by
    rw [evaluate, run_eq_get rich]
    rfl
  have enough : (evaluate difference .detached 9 ()).isOutOfGas = false := by
    rw [evaluate, run_eq_get poor]
    rfl
  obtain ⟨monotone, threshold⟩ := evaluate_gas_threshold difference .detached ()
  obtain ⟨above, below, short⟩ := threshold 20 _ 9 ok used
  refine ⟨ok, used, above 9 (by decide), below 8 (by decide), ?_,
    (monotone 8 9 (by decide)).2 (below 8 (by decide)), (monotone 9 20 (by decide)).1 enough⟩
  obtain ⟨index, opcode, remaining, hlast, hcost, hresult⟩ := short (by decide)
  obtain ⟨rfl, rfl⟩ : 2 = index ∧ Opcode.sub = opcode := by simpa [last] using hlast
  obtain rfl : remaining = 2 := by simpa [Opcode.cost] using hcost
  exact hresult

end MeteredLedger.Machine
