import MeteredLedger.Ledger.Client
import MeteredLedger.Proofs.Machine.Segment
import MeteredLedger.Proofs.Value

/-!
# Calls of a contract

What a call does is decided by the evaluation of its contract: the value that is
returned names the address to pay, and without a value nothing is posted. A
contract with a known price and a known value is thus a payment or a refusal,
depending on the limit of the call alone.
-/

namespace MeteredLedger.Ledger.Client

/-- The transaction of a call whose contract returns an address: that address is
paid last, after the outputs of the caller. -/
def payment (c : Client) (outputs : List Output) (call : Call) (fee : UInt64) (address : String) :
    Transaction :=
  ⟨c.address, outputs ++ [⟨address, call.amount⟩], fee, .call call.args call.contract⟩

section

variable [Block.Wording] {c : Client} {call : Call} {template : String} {p : Program}
variable (hcontract : c.lastBlock.contracts.get? call.contract = some template)
variable (hcompile : Source.compile template call.args = .ok p)

include hcontract hcompile

/-- A contract that returns a value pays the address that the value spells. -/
theorem resolve_of_returned {v : Value} (hv : v ≠ .undefined)
    (hresult : (Machine.evaluate p host call.gas #[]).result = .ok (.returned v)) :
    c.resolve call = .ok v.display := by
  simp only [resolve, hcontract, hcompile, hresult, Machine.Outcome.value]

theorem resolve_of_machineError {e : Machine.Error}
    (hresult : (Machine.evaluate p host call.gas #[]).result = .error e) :
    c.resolve call = .error (.machine e) := by
  simp only [resolve, hcontract, hcompile, hresult]

/-- A call pays if its limit covers the price of the contract, and otherwise
leaves the client as it was. -/
theorem postCall_of_returns {outputs : List Output} {fee : UInt64} {token : String} {price : Nat}
    (hreturns : Machine.Returns p host price 0 (Machine.State.initial call.gas #[]).store
      (.ofLiteral token)) :
    (price ≤ call.gas → c.postCall outputs call fee =
      (c.post (c.payment outputs call fee token), .ok (c.payment outputs call fee token))) ∧
    (call.gas < price → ∃ e, c.postCall outputs call fee = (c, .error (.machine e)) ∧
      e.isOutOfGas = true) := by
  constructor
  · intro hle
    have hdefined := Value.ofLiteral_ne_undefined token
    have hresolve :=
      resolve_of_returned hcontract hcompile hdefined (hreturns.evaluate_result hle)
    rw [Value.display_ofLiteral] at hresolve
    rw [postCall, hresolve]
    rfl
  · intro hlt
    obtain ⟨e, hresult, hshort⟩ :=
      Machine.Halt.exists_error_of_isOutOfGas (hreturns.evaluate_isOutOfGas hlt)
    refine ⟨e, ?_, hshort⟩
    rw [postCall, resolve_of_machineError hcontract hcompile hresult]

end

end MeteredLedger.Ledger.Client
