import MeteredLedger.Proofs.Ledger.Client

/-!
# What a post changes

A post takes effect as a whole or leaves the client as it was. A deployment is
decided by the check of its template alone. A call can be refused at five
points, one after the other, and `Refuses` lists them: the contract is looked
up, compiled and evaluated, and the evaluation has to return a value.

`postDeploy_cases` and `postCall_cases` say all that posting can do to a client.
Laws about clients and networks start from these two and never open the
operations themselves.
-/

namespace MeteredLedger.Ledger.Client

/-- The contract of a call is registered and compiles, and its evaluation ends with `result`. -/
def Evaluates [Block.Wording] (c : Client) (call : Call)
    (result : Except Machine.Error Machine.Outcome) : Prop :=
  ∃ template p, c.lastBlock.contracts.get? call.contract = some template ∧
    Source.compile template call.args = .ok p ∧
    (Machine.evaluate p host call.gas #[]).result = result

/-- Why a call pays nothing. -/
inductive Refuses [Block.Wording] (c : Client) (call : Call) : Error → Prop where
  | unknown : c.lastBlock.contracts.get? call.contract = none →
      Refuses c call (.unknownContract call.contract)
  | uncompiled {template : String} {e : Source.Error} :
      c.lastBlock.contracts.get? call.contract = some template →
      Source.compile template call.args = .error e → Refuses c call (.source e)
  | fails {e : Machine.Error} : c.Evaluates call (.error e) → Refuses c call (.machine e)
  | ends : c.Evaluates call (.ok .endOfProgram) → Refuses c call (.noReturnValue call.contract)
  | returnsUndefined : c.Evaluates call (.ok (.returned .undefined)) →
      Refuses c call (.noReturnValue call.contract)

section

variable [Block.Wording] {c : Client} {call : Call}

theorem Evaluates.resolve_eq {v : Value} (h : c.Evaluates call (.ok (.returned v)))
    (hv : v ≠ .undefined) : c.resolve call = .ok v.display := by
  obtain ⟨template, p, hcontract, hcompile, hresult⟩ := h
  exact resolve_of_returned hcontract hcompile hv hresult

theorem Refuses.resolve_eq {e : Error} (h : c.Refuses call e) : c.resolve call = .error e := by
  cases h with
  | unknown hcontract => simp only [resolve, hcontract]
  | uncompiled hcontract hcompile => simp only [resolve, hcontract, hcompile]
  | fails h =>
    obtain ⟨template, p, hcontract, hcompile, hresult⟩ := h
    exact resolve_of_machineError hcontract hcompile hresult
  | ends h | returnsUndefined h =>
    obtain ⟨template, p, hcontract, hcompile, hresult⟩ := h
    simp only [resolve, hcontract, hcompile, hresult, Machine.Outcome.value]

/-- A call is refused at one of the five points, or returns a value to pay. -/
theorem refuses_or_returns (c : Client) (call : Call) :
    (∃ e, c.Refuses call e) ∨ ∃ v, c.Evaluates call (.ok (.returned v)) ∧ v ≠ .undefined := by
  cases hcontract : c.lastBlock.contracts.get? call.contract with
  | none => exact .inl ⟨_, .unknown hcontract⟩
  | some template =>
    cases hcompile : Source.compile template call.args with
    | error e => exact .inl ⟨_, .uncompiled hcontract hcompile⟩
    | ok p =>
      have evaluates : c.Evaluates call (Machine.evaluate p host call.gas #[]).result :=
        ⟨template, p, hcontract, hcompile, rfl⟩
      cases hresult : (Machine.evaluate p host call.gas #[]).result with
      | error e => exact .inl ⟨_, .fails (hresult ▸ evaluates)⟩
      | ok outcome =>
        rw [hresult] at evaluates
        cases outcome with
        | endOfProgram => exact .inl ⟨_, .ends evaluates⟩
        | returned v =>
          by_cases hv : v = .undefined
          · subst hv
            exact .inl ⟨_, .returnsUndefined evaluates⟩
          · exact .inr ⟨v, evaluates, hv⟩

theorem Refuses.postCall_eq {e : Error} (h : c.Refuses call e) (outputs : List Output)
    (fee : UInt64) : c.postCall outputs call fee = (c, .error e) := by
  simp only [postCall, h.resolve_eq]

theorem Evaluates.postCall_eq {v : Value} (h : c.Evaluates call (.ok (.returned v)))
    (hv : v ≠ .undefined) (outputs : List Output) (fee : UInt64) :
    c.postCall outputs call fee =
      (c.post (c.payment outputs call fee v.display),
        .ok (c.payment outputs call fee v.display)) := by
  simp only [postCall, h.resolve_eq hv, payment]

end

section

variable (c : Client) (outputs : List Output) (fee : UInt64)

/-- A deployment that is refused changes nothing, and any other posts and
registers its template. -/
theorem postDeploy_cases (template : String) :
    (∃ e, Source.checkTemplate template = .error e ∧
      c.postDeploy outputs template fee = (c, .error (.source e))) ∨
    Source.checkTemplate template = .ok () ∧
      c.postDeploy outputs template fee =
        ((c.post ⟨c.address, outputs, fee, .deploy template⟩).register template,
          .ok c.lastBlock.contracts.size) := by
  cases hcheck : Source.checkTemplate template with
  | error e => exact .inl ⟨e, rfl, by simp only [postDeploy, hcheck]⟩
  | ok _ => exact .inr ⟨rfl, by simp only [postDeploy, hcheck, Registry.nextId]⟩

variable [Block.Wording]

/-- A call that is refused changes nothing, and any other posts one payment. -/
theorem postCall_cases (call : Call) :
    (∃ e, c.Refuses call e ∧ c.postCall outputs call fee = (c, .error e)) ∨
    ∃ v, c.Evaluates call (.ok (.returned v)) ∧ v ≠ .undefined ∧
      c.postCall outputs call fee =
        (c.post (c.payment outputs call fee v.display),
          .ok (c.payment outputs call fee v.display)) := by
  rcases c.refuses_or_returns call with ⟨e, refused⟩ | ⟨v, evaluates, hv⟩
  · exact .inl ⟨e, refused, refused.postCall_eq outputs fee⟩
  · exact .inr ⟨v, evaluates, hv, evaluates.postCall_eq hv outputs fee⟩

variable {c outputs fee}

theorem postCall_eq_error_iff {call : Call} {e : Error} :
    (c.postCall outputs call fee).2 = .error e ↔ c.Refuses call e := by
  constructor
  · intro he
    rcases c.postCall_cases outputs fee call with ⟨e', refused, hpost⟩ | ⟨v, -, -, hpost⟩
    · obtain rfl : e' = e := by simpa [hpost] using he
      exact refused
    · simp [hpost] at he
  · intro refused
    rw [refused.postCall_eq]

theorem postCall_succeeds_iff {call : Call} :
    (∃ t, (c.postCall outputs call fee).2 = .ok t) ↔
      ∃ v, c.Evaluates call (.ok (.returned v)) ∧ v ≠ .undefined := by
  constructor
  · rintro ⟨t, ht⟩
    rcases c.postCall_cases outputs fee call with ⟨e, -, hpost⟩ | ⟨v, evaluates, hv, -⟩
    · simp [hpost] at ht
    · exact ⟨v, evaluates, hv⟩
  · rintro ⟨v, evaluates, hv⟩
    exact ⟨_, by rw [evaluates.postCall_eq hv]⟩

end

/-- A post takes effect whole or not at all. A deployment fails exactly if the
check of its template does, and otherwise adds one transaction and one template,
whose identifier is the former number of contracts. A call succeeds exactly if
its contract returns a value, and then adds the payment to the address that the
value spells; where it fails, it fails for one of the reasons of `Refuses`. A
post that fails leaves the client as it was. -/
theorem post_whole_or_unchanged [Block.Wording] (c : Client) (outputs : List Output)
    (fee : UInt64) :
    (∀ template,
      ((∃ e, (c.postDeploy outputs template fee).2 = .error e) ↔
        ∃ e, Source.checkTemplate template = .error e) ∧
      (∀ e, (c.postDeploy outputs template fee).2 = .error e →
        (c.postDeploy outputs template fee).1 = c) ∧
      ∀ id, (c.postDeploy outputs template fee).2 = .ok id →
        id = c.lastBlock.contracts.size ∧
        (c.postDeploy outputs template fee).1 =
          { c with
            posted := c.posted.push ⟨c.address, outputs, fee, .deploy template⟩
            lastBlock := { c.lastBlock with
              contracts := ⟨c.lastBlock.contracts.templates.push template⟩ } }) ∧
    ∀ call,
      ((∃ t, (c.postCall outputs call fee).2 = .ok t) ↔
        ∃ v, c.Evaluates call (.ok (.returned v)) ∧ v ≠ .undefined) ∧
      (∀ v, c.Evaluates call (.ok (.returned v)) → v ≠ .undefined →
        c.postCall outputs call fee =
          ({ c with posted := c.posted.push (c.payment outputs call fee v.display) },
            .ok (c.payment outputs call fee v.display))) ∧
      (∀ e, (c.postCall outputs call fee).2 = .error e ↔ c.Refuses call e) ∧
      ∀ e, (c.postCall outputs call fee).2 = .error e → (c.postCall outputs call fee).1 = c := by
  constructor
  · intro template
    rcases c.postDeploy_cases outputs fee template with ⟨e, hcheck, hpost⟩ | ⟨hcheck, hpost⟩
    · simp [hcheck, hpost]
    · simp [hcheck, hpost, post, register, Registry.deploy]
  · intro call
    refine ⟨postCall_succeeds_iff, ?_, fun e => postCall_eq_error_iff, ?_⟩
    · intro v evaluates hv
      exact evaluates.postCall_eq hv outputs fee
    · intro e he
      rw [(postCall_eq_error_iff.mp he).postCall_eq]

/-- A client that knows a contract that pays the bound address and one that returns nothing. -/
def teller : Client :=
  .new "Alice" "alice" { Block.genesis 10 with contracts := ⟨#["<to>\nRETURN", "PUSH 1"]⟩ }

/-- A call of one of the contracts of `teller`. -/
def tellerCall (contract : Nat) : Call where
  args := .ofList [("to", "007")]
  amount := 5
  contract
  gas := 100

/-- A template with a malformed line is refused and a sound one becomes the third
contract. Of the two contracts, the first pays and the second does not, because
it runs past its last line. -/
theorem posts_of_teller :
    (teller.postDeploy [⟨"dave", 1⟩] "end: RETURN" 2).1 = teller ∧
    (teller.postDeploy [⟨"dave", 1⟩] "RETURN" 2).1 =
      { teller with
        posted := #[⟨"alice", [⟨"dave", 1⟩], 2, .deploy "RETURN"⟩]
        lastBlock := { teller.lastBlock with
          contracts := ⟨#["<to>\nRETURN", "PUSH 1", "RETURN"]⟩ } } ∧
    (teller.postCall [⟨"dave", 1⟩] (tellerCall 0) 2).1 =
      { teller with
        posted := #[⟨"alice", [⟨"dave", 1⟩, ⟨"007", 5⟩], 2, .call (.ofList [("to", "007")]) 0⟩] } ∧
    (teller.postCall [⟨"dave", 1⟩] (tellerCall 1) 2).2 = .error (.noReturnValue 1) ∧
    (teller.postCall [⟨"dave", 1⟩] (tellerCall 1) 2).1 = teller := by
  let pays : Program :=
    ⟨#[.instruction ⟨"PUSHARG", ["007"]⟩, .instruction ⟨"RETURN", []⟩], ∅, rfl⟩
  let ends : Program := ⟨#[.instruction ⟨"PUSH", ["1"]⟩], ∅, rfl⟩
  have paysWithin : (Machine.runWithin pays host 2 (.initial 100 #[])).isSome := rfl
  have endsWithin : (Machine.runWithin ends host 2 (.initial 100 #[])).isSome := rfl
  have paid : teller.Evaluates (tellerCall 0) (.ok (.returned (.text "007"))) :=
    ⟨_, pays, rfl, rfl, congrArg Machine.Halt.result (Machine.run_eq_get paysWithin)⟩
  have unpaid : teller.Evaluates (tellerCall 1) (.ok .endOfProgram) :=
    ⟨_, ends, rfl, rfl, congrArg Machine.Halt.result (Machine.run_eq_get endsWithin)⟩
  obtain ⟨deploys, calls⟩ := teller.post_whole_or_unchanged [⟨"dave", 1⟩] 2
  have refused := ((calls (tellerCall 1)).2.2.1 _).mpr (.ends unpaid)
  refine ⟨?_, ?_, ?_, refused, ?_⟩
  · exact (deploys "end: RETURN").2.1 (.source ⟨1, .malformed "end: RETURN"⟩) rfl
  · exact ((deploys "RETURN").2.2 2 rfl).2
  · rw [(calls (tellerCall 0)).2.1 _ paid (by decide)]
    rfl
  · exact (calls (tellerCall 1)).2.2.2 _ refused

end MeteredLedger.Ledger.Client
