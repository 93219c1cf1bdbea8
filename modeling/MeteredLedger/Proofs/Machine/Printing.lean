import MeteredLedger.Proofs.Machine.Execution

/-!
# What is printed does not come back

A machine asks its host for timestamps and gives it values to print. Where the
answers do not depend on what was printed, nothing that the host remembers can
reach the machine: an evaluation goes as it would with a silent host, one that
gives the same answers and remembers nothing.

`State.forget` leaves out what the host remembers, and turns every evaluation
into one with the silent host. Two evaluations with different hosts are compared
through the silent one. What a host remembers in the end is found from the
printed values alone.
-/

namespace MeteredLedger.Machine

namespace Host

/-- What a host remembers after it has printed values, the latest first. -/
def afterPrinting (host : Host σ) (memory : σ) : List Value → σ
  | [] => memory
  | v :: earlier => host.print (host.afterPrinting memory earlier) v

/-- From `memory` on, the host gives these answers, whatever it has printed. -/
def Answers (host : Host σ) (memory : σ) (answer : String → Except String Int64) : Prop :=
  ∀ printed text, host.timestamp (host.afterPrinting memory printed) text = answer text

/-- A host that gives the answers it is made of, and remembers nothing. -/
def silent (answer : String → Except String Int64) : Host Unit where
  timestamp _ text := answer text
  print _ _ := ()

end Host

/-- The store without what the host remembers. -/
def Store.forget (s : Store σ) : Store Unit :=
  ⟨s.stack, s.memory, (), s.printed⟩

/-- The state without what the host remembers. -/
def State.forget (s : State σ) : State Unit :=
  ⟨s.store.forget, s.pc, s.gas, s.trace⟩

/-- The end of an evaluation without what the host remembers. -/
def Halt.forget (h : Halt σ) : Halt Unit :=
  ⟨h.state.forget, h.result⟩

/-- The host remembers what the printed values make it remember, and nothing else. -/
def Store.Recalls (host : Host σ) (memory : σ) (s : Store σ) : Prop :=
  s.host = host.afterPrinting memory s.printed

/-! ## Single operations -/

/-- An effect, beside the effect that the operation has with a silent host. -/
structure Effect.Mirrors (host : Host σ) (memory : σ) (effect : Effect σ) (image : Effect Unit) :
    Prop where
  store : effect.store.forget = image.store
  flow : effect.flow = image.flow
  recalls : effect.store.Recalls host memory

namespace Effect.Mirrors

variable {host : Host σ} {memory : σ} {answer : String → Except String Int64} {s t : Store σ}

theorem eq_mk {flow : Except Fault Flow} {image : Effect Unit}
    (mirrors : Mirrors host memory ⟨s, flow⟩ image) : image = ⟨s.forget, flow⟩ := by
  obtain ⟨store, flow'⟩ := image
  obtain rfl : s.forget = store := mirrors.store
  obtain rfl : flow = flow' := mirrors.flow
  rfl

theorem fail (recalls : t.Recalls host memory) (fault : Fault) :
    (t.fail fault).Mirrors host memory (t.forget.fail fault) :=
  ⟨rfl, rfl, recalls⟩

theorem push (recalls : t.Recalls host memory) (v : Value) :
    (t.push v).Mirrors host memory (t.forget.push v) :=
  ⟨rfl, rfl, recalls⟩

theorem print (recalls : t.Recalls host memory) (v : Value) :
    (t.print host v).Mirrors host memory (t.forget.print (.silent answer) v) :=
  ⟨rfl, rfl, congrArg (host.print · v) recalls⟩

theorem withOperand (recalls : s.Recalls host memory) {k : Value → Store σ → Effect σ}
    {k' : Value → Store Unit → Effect Unit}
    (h : ∀ x t, t.Recalls host memory → (k x t).Mirrors host memory (k' x t.forget)) :
    (s.withOperand k).Mirrors host memory (s.forget.withOperand k') := by
  obtain ⟨stack, cells, remembered, printed⟩ := s
  cases stack with
  | nil => exact fail recalls .stackUnderflow
  | cons x rest => exact h x ⟨rest, cells, remembered, printed⟩ recalls

theorem withOperands (recalls : s.Recalls host memory) {k : Value → Value → Store σ → Effect σ}
    {k' : Value → Value → Store Unit → Effect Unit}
    (h : ∀ x y t, t.Recalls host memory → (k x y t).Mirrors host memory (k' x y t.forget)) :
    (s.withOperands k).Mirrors host memory (s.forget.withOperands k') := by
  obtain ⟨stack, cells, remembered, printed⟩ := s
  match stack with
  | [] | [_] => exact ⟨rfl, rfl, recalls⟩
  | x :: y :: rest => exact h x y ⟨rest, cells, remembered, printed⟩ recalls

theorem performArithmetic (recalls : t.Recalls host memory) (op : Arithmetic) (x y : Value) :
    (performArithmetic op x y t).Mirrors host memory (performArithmetic op x y t.forget) := by
  unfold Machine.performArithmetic
  split
  · split
    · exact push recalls _
    · exact fail recalls _
  · exact fail recalls _
  · exact fail recalls _

theorem performComparison (recalls : t.Recalls host memory) (op : Comparison) (x y : Value) :
    (performComparison op x y t).Mirrors host memory (performComparison op x y t.forget) := by
  unfold Machine.performComparison
  split
  · exact push recalls _
  · exact push recalls _
  · exact fail recalls _
  · exact fail recalls _

/-- The answer of the host is the only thing that comes back from it. -/
theorem performTimestamp (answers : host.Answers memory answer) (recalls : t.Recalls host memory)
    (x : Value) :
    (performTimestamp host x t).Mirrors host memory
      (performTimestamp (.silent answer) x t.forget) := by
  cases x with
  | text block =>
    have same : host.timestamp t.host block = answer block := recalls ▸ answers t.printed block
    simp only [Machine.performTimestamp, same, Host.silent]
    cases answer block with
    | ok time => exact push recalls _
    | error reason => exact fail recalls _
  | int n => exact fail recalls _
  | undefined => exact fail recalls _

/-- Every operation does with a silent host what it does with the host itself. -/
theorem perform (answers : host.Answers memory answer) (recalls : s.Recalls host memory)
    (op : Operation) :
    (perform host op s).Mirrors host memory (perform (.silent answer) op s.forget) := by
  unfold Machine.perform
  cases op with
  | push v => exact push recalls v
  | load address => exact push recalls _
  | jump target => exact ⟨rfl, rfl, recalls⟩
  | arithmetic op =>
    apply withOperands recalls
    exact fun x y t h => performArithmetic h op x y
  | compare op =>
    apply withOperands recalls
    exact fun x y t h => performComparison h op x y
  | equal =>
    apply withOperands recalls
    exact fun x y t h => push h _
  | isZero =>
    apply withOperand recalls
    exact fun x t h => push h _
  | pop | store address | branch onZero target | ret =>
    apply withOperand recalls
    exact fun x t h => ⟨rfl, rfl, h⟩
  | timestamp =>
    apply withOperand recalls
    exact fun x t h => performTimestamp answers h x
  | print coerced =>
    apply withOperand recalls
    intro x t h
    split
    · exact print h _
    · exact print h _

end Effect.Mirrors

/-! ## Lines and evaluations -/

section

variable {p : Program} {host : Host σ} {memory : σ} {answer : String → Except String Int64}
variable {s t : State σ} {h : Halt σ}

theorem Fetched.forget {i : Instruction} {opcode : Opcode} (fetched : Fetched p s i opcode) :
    Fetched p s.forget i opcode :=
  ⟨fetched.line, fetched.known, fetched.paid⟩

/-- What an operation leaves with a silent host, read off what it leaves with the host itself. -/
theorem perform_forget (answers : host.Answers memory answer)
    (recalls : s.store.Recalls host memory) {op : Operation} {store : Store σ}
    {flow : Except Fault Flow} (hperform : perform host op s.store = ⟨store, flow⟩) :
    perform (.silent answer) op s.forget.store = ⟨store.forget, flow⟩ ∧
      store.Recalls host memory := by
  have mirrors := Effect.Mirrors.perform answers recalls op
  rw [hperform] at mirrors
  exact ⟨mirrors.eq_mk, mirrors.recalls⟩

theorem Rule.forget_next (answers : host.Answers memory answer)
    (recalls : s.store.Recalls host memory) (rule : Rule p host s (.next t)) :
    Rule p (.silent answer) s.forget (.next t.forget) ∧ t.store.Recalls host memory := by
  cases rule with
  | marker hline => exact ⟨.marker hline, recalls⟩
  | proceeds fetched hdecode hperform =>
    obtain ⟨hforget, recalls'⟩ := perform_forget answers recalls hperform
    exact ⟨.proceeds fetched.forget hdecode hforget, recalls'⟩
  | jumps fetched hdecode hperform =>
    obtain ⟨hforget, recalls'⟩ := perform_forget answers recalls hperform
    exact ⟨.jumps fetched.forget hdecode hforget, recalls'⟩

theorem Rule.forget_halt (answers : host.Answers memory answer)
    (recalls : s.store.Recalls host memory) (rule : Rule p host s (.halt h)) :
    Rule p (.silent answer) s.forget (.halt h.forget) ∧ h.state.store.Recalls host memory := by
  cases rule with
  | finish hline => exact ⟨.finish hline, recalls⟩
  | unknown hline hopcode => exact ⟨.unknown hline hopcode, recalls⟩
  | unaffordable hline hopcode hcost => exact ⟨.unaffordable hline hopcode hcost, recalls⟩
  | undecodable fetched hdecode => exact ⟨.undecodable fetched.forget hdecode, recalls⟩
  | fails fetched hdecode hperform =>
    obtain ⟨hforget, recalls'⟩ := perform_forget answers recalls hperform
    exact ⟨.fails fetched.forget hdecode hforget, recalls'⟩
  | returns fetched hdecode hperform =>
    obtain ⟨hforget, recalls'⟩ := perform_forget answers recalls hperform
    exact ⟨.returns fetched.forget hdecode hforget, recalls'⟩

/-- An evaluation goes as it does with a silent host. -/
theorem run_forget (answers : host.Answers memory answer) (p : Program) (s : State σ) :
    s.store.Recalls host memory →
      (run p host s).forget = run p (.silent answer) s.forget ∧
        (run p host s).state.store.Recalls host memory := by
  apply run_induction (motive := fun s h => s.store.Recalls host memory →
    h.forget = run p (.silent answer) s.forget ∧ h.state.store.Recalls host memory)
  · intro s h rule recalls
    obtain ⟨rule', recalls'⟩ := rule.forget_halt answers recalls
    exact ⟨(run_of_halt rule'.step_eq).symm, recalls'⟩
  · intro s t h rule ih recalls
    obtain ⟨rule', recalls'⟩ := rule.forget_next answers recalls
    rw [run_of_next rule'.step_eq]
    exact ih recalls'

theorem evaluate_forget (answers : host.Answers memory answer) (p : Program) (limit : Nat) :
    (evaluate p host limit memory).forget = evaluate p (.silent answer) limit () :=
  (run_forget answers p (.initial limit memory) rfl).1

/-- In the end the host remembers what the printed values make it remember. -/
theorem evaluate_host (answers : host.Answers memory answer) (p : Program) (limit : Nat) :
    (evaluate p host limit memory).state.store.host =
      host.afterPrinting memory (evaluate p host limit memory).state.store.printed :=
  (run_forget answers p (.initial limit memory) rfl).2

end

/-- Two evaluations, each with its own host, end alike: with the same result,
stack, memory and printed values, at the same line, with the same gas left, and
after the same instructions. -/
structure SameEnd (h : Halt σ) (h' : Halt τ) : Prop where
  result : h.result = h'.result
  stack : h.state.store.stack = h'.state.store.stack
  memory : h.state.store.memory = h'.state.store.memory
  printed : h.state.store.printed = h'.state.store.printed
  pc : h.state.pc = h'.state.pc
  gas : h.state.gas = h'.state.gas
  trace : h.state.trace = h'.state.trace

theorem sameEnd_of_forget {h : Halt σ} {h' : Halt τ} (same : h.forget = h'.forget) :
    SameEnd h h' where
  result := congrArg Halt.result same
  stack := congrArg (·.state.store.stack) same
  memory := congrArg (·.state.store.memory) same
  printed := congrArg (·.state.store.printed) same
  pc := congrArg (·.state.pc) same
  gas := congrArg (·.state.gas) same
  trace := congrArg (·.state.trace) same

/-- Hosts that give the same answers are not told apart by an evaluation. -/
theorem sameEnd_evaluate {host : Host σ} {memory : σ} {host' : Host τ} {memory' : τ}
    {answer : String → Except String Int64} (answers : host.Answers memory answer)
    (answers' : host'.Answers memory' answer) (p : Program) (limit : Nat) :
    SameEnd (evaluate p host limit memory) (evaluate p host' limit memory') :=
  sameEnd_of_forget
    ((evaluate_forget answers p limit).trans (evaluate_forget answers' p limit).symm)

end MeteredLedger.Machine
