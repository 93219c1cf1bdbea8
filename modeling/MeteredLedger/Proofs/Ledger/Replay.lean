import MeteredLedger.Proofs.Ledger.Posting
import MeteredLedger.Proofs.Machine.Gas

/-!
# Posted calls can be replayed

A call transaction records its arguments and its contract, but neither the value
that the contract returned nor the gas it was granted. For a client that follows
its own blocks the record is enough: whatever the client is asked to do later,
evaluating the contract again with at least the same gas returns the address
that was paid.

Two facts carry this. `Grows` says that no request takes back a transaction or a
contract, and more gas does not change an evaluation that returned.
-/

namespace MeteredLedger.Ledger.Client

/-- What a client is asked to do. -/
inductive Request where
  | deploy (outputs : List Output) (template : String) (fee : UInt64)
  | call (outputs : List Output) (call : Call) (fee : UInt64)
  /-- Receive a block that extends the last one. -/
  | extend (rewardAddress : String) (timestamp : Int64)

/-- The client after a request, granted or refused. -/
def after [Block.Wording] (c : Client) : Request → Client
  | .deploy outputs template fee => (c.postDeploy outputs template fee).1
  | .call outputs call fee => (c.postCall outputs call fee).1
  | .extend rewardAddress timestamp => c.receive (c.lastBlock.extend rewardAddress timestamp)

/-- The client after a sequence of requests, the earliest first. -/
def afterAll [Block.Wording] (c : Client) (requests : List Request) : Client :=
  requests.foldl after c

theorem afterAll_append [Block.Wording] (c : Client) (requests later : List Request) :
    c.afterAll (requests ++ later) = (c.afterAll requests).afterAll later :=
  List.foldl_append

/-- The contract of a call is found and compiled with the recorded arguments, and
its evaluation returns the address that the last output pays. -/
def Replays [Block.Wording] (c : Client) (t : Transaction) (gas : Nat) : Prop :=
  ∃ args contract template p v output, t.payload = .call args contract ∧
    c.lastBlock.contracts.get? contract = some template ∧
    Source.compile template args = .ok p ∧
    (Machine.evaluate p host gas #[]).result = .ok (.returned v) ∧
    t.outputs.getLast? = some output ∧ output.address = v.display

/-- Everything posted or registered by `c` is found at the same place in `d`. -/
structure Grows (c d : Client) : Prop where
  posted : ∀ (n : Nat) t, c.posted[n]? = some t → d.posted[n]? = some t
  contracts : ∀ id template, c.lastBlock.contracts.get? id = some template →
    d.lastBlock.contracts.get? id = some template

namespace Grows

variable {c d e : Client}

theorem refl (c : Client) : Grows c c :=
  ⟨fun _ _ h => h, fun _ _ h => h⟩

theorem trans (first : Grows c d) (second : Grows d e) : Grows c e :=
  ⟨fun n t h => second.posted n t (first.posted n t h),
    fun id template h => second.contracts id template (first.contracts id template h)⟩

theorem post (c : Client) (t : Transaction) : Grows c (c.post t) := by
  refine ⟨?_, fun _ _ h => h⟩
  intro n t' h
  obtain ⟨hn, rfl⟩ := Array.getElem?_eq_some_iff.mp h
  exact Array.getElem?_push_lt hn

theorem register (c : Client) (template : String) : Grows c (c.register template) := by
  refine ⟨fun _ _ h => h, ?_⟩
  intro id template' h
  have hid : id < c.lastBlock.contracts.nextId := (Array.getElem?_eq_some_iff.mp h).1
  change (c.lastBlock.contracts.deploy template).get? id = _
  rw [Registry.get?_deploy, if_neg (Nat.ne_of_lt hid)]
  exact h

end Grows

section

variable {c : Client} {request : Request}

/-- What a request adds to the posted transactions: nothing, a deployment, or
the payment that the call asked for. -/
theorem posted_after [Block.Wording] (c : Client) (request : Request) :
    (c.after request).posted = c.posted ∨
      ∃ t, (c.after request).posted = c.posted.push t ∧
        ((∃ template, t.payload = .deploy template) ∨
          ∃ outputs call fee, request = .call outputs call fee ∧
            (c.postCall outputs call fee).2 = .ok t) := by
  cases request with
  | deploy outputs template fee =>
    rcases c.postDeploy_cases outputs fee template with ⟨e, -, hpost⟩ | ⟨-, hpost⟩
    · exact .inl (by rw [after, hpost])
    · exact .inr ⟨_, by rw [after, hpost]; rfl, .inl ⟨template, rfl⟩⟩
  | call outputs call fee =>
    rcases c.postCall_cases outputs fee call with ⟨e, -, hpost⟩ | ⟨v, -, -, hpost⟩
    · exact .inl (by rw [after, hpost])
    · exact .inr ⟨_, by rw [after, hpost]; rfl, .inr ⟨outputs, call, fee, rfl, by rw [hpost]⟩⟩
  | extend rewardAddress timestamp => exact .inl rfl

theorem grows_after [Block.Wording] (c : Client) (request : Request) :
    Grows c (c.after request) := by
  cases request with
  | deploy outputs template fee =>
    rcases c.postDeploy_cases outputs fee template with ⟨e, -, hpost⟩ | ⟨-, hpost⟩
    · rw [after, hpost]
      exact .refl c
    · rw [after, hpost]
      exact (Grows.post c _).trans (.register _ template)
  | call outputs call fee =>
    rcases c.postCall_cases outputs fee call with ⟨e, -, hpost⟩ | ⟨v, -, -, hpost⟩
    · rw [after, hpost]
      exact .refl c
    · rw [after, hpost]
      exact .post c _
  | extend rewardAddress timestamp => exact ⟨fun _ _ h => h, fun _ _ h => h⟩

theorem grows_afterAll [Block.Wording] (c : Client) (requests : List Request) :
    Grows c (c.afterAll requests) := by
  induction requests generalizing c with
  | nil => exact .refl c
  | cons request requests ih => exact (c.grows_after request).trans (ih (c.after request))

/-- A transaction posted along the way was posted by one of the requests, as the
next one after those posted before. -/
theorem exists_call_of_posted [Block.Wording] {requests : List Request} {n : Nat} {t : Transaction}
    {args : Bindings} {contract : Nat} (fresh : c.posted.size ≤ n)
    (posted : (c.afterAll requests).posted[n]? = some t)
    (payload : t.payload = .call args contract) :
    ∃ before outputs call fee rest, requests = before ++ .call outputs call fee :: rest ∧
      (c.afterAll before).posted.size = n ∧
      ((c.afterAll before).postCall outputs call fee).2 = .ok t := by
  induction requests generalizing c with
  | nil =>
    have hn : n < c.posted.size := (Array.getElem?_eq_some_iff.mp posted).1
    omega
  | cons request requests ih =>
    by_cases later : (c.after request).posted.size ≤ n
    · obtain ⟨before, outputs, call, fee, rest, rfl, hsize, hcall⟩ := ih later posted
      exact ⟨request :: before, outputs, call, fee, rest, rfl, hsize, hcall⟩
    · -- the request itself added the transaction, and nothing has replaced it since
      rcases c.posted_after request with hsame | ⟨t', hpush, made⟩
      · rw [hsame] at later
        exact absurd fresh later
      · rw [hpush, Array.size_push] at later
        obtain rfl : n = c.posted.size := by omega
        have hfirst : (c.after request).posted[c.posted.size]? = some t' := by
          rw [hpush, Array.getElem?_push_size]
        obtain rfl : t' = t := by
          have hkept := ((c.after request).grows_afterAll requests).posted _ _ hfirst
          exact Option.some.inj (hkept.symm.trans posted)
        rcases made with ⟨template, hdeploy⟩ | ⟨outputs, call, fee, rfl, hcall⟩
        · simp [hdeploy] at payload
        · exact ⟨[], outputs, call, fee, requests, rfl, rfl, hcall⟩

theorem Replays.grows [Block.Wording] {d : Client} {t : Transaction} {gas : Nat}
    (h : c.Replays t gas) (grows : Grows c d) : d.Replays t gas := by
  obtain ⟨args, contract, template, p, v, output, hpayload, hcontract, rest⟩ := h
  exact ⟨args, contract, template, p, v, output, hpayload, grows.contracts _ _ hcontract, rest⟩

/-- A call that was posted can be replayed at once, with as much gas or more. -/
theorem replays_of_postCall [Block.Wording] {outputs : List Output} {call : Call} {fee : UInt64}
    {t : Transaction} {gas : Nat} (h : (c.postCall outputs call fee).2 = .ok t) (enough : call.gas ≤ gas) :
    c.Replays t gas := by
  rcases c.postCall_cases outputs fee call with ⟨e, -, hpost⟩ | ⟨v, evaluates, -, hpost⟩
  · simp [hpost] at h
  · obtain rfl : c.payment outputs call fee v.display = t := by simpa [hpost] using h
    obtain ⟨template, p, hcontract, hcompile, hresult⟩ := evaluates
    obtain ⟨extra, rfl⟩ := Nat.exists_eq_add_of_le enough
    have ended : (Machine.evaluate p host call.gas #[]).isOutOfGas = false := by
      simp [Machine.Halt.isOutOfGas, hresult]
    have hresult' := (Machine.endAlike_add ended extra).result.trans hresult
    exact ⟨call.args, call.contract, template, p, v, ⟨v.display, call.amount⟩, rfl, hcontract,
      hcompile, hresult', by simp [payment], rfl⟩

end

/-- Posted calls can be replayed. Take a client that is asked for deployments,
calls and extensions of its own last block, and a call transaction that it has
posted since. One of the requests made the transaction, and from then on, after
any further requests and with any limit not below the one of that request, the
contract is found, compiles with the recorded arguments and returns the address
of the last output. A new client has posted nothing, so that this covers all
calls it ever posts. -/
theorem posted_calls_replay [Block.Wording] (c : Client) (requests : List Request) (n : Nat)
    (t : Transaction) (args : Bindings) (contract : Nat) (fresh : c.posted.size ≤ n)
    (posted : (c.afterAll requests).posted[n]? = some t)
    (payload : t.payload = .call args contract) :
    ∃ before outputs call fee rest, requests = before ++ .call outputs call fee :: rest ∧
      (c.afterAll before).posted.size = n ∧
      ((c.afterAll before).postCall outputs call fee).2 = .ok t ∧
      ∀ later gas, call.gas ≤ gas → ((c.afterAll requests).afterAll later).Replays t gas := by
  obtain ⟨before, outputs, call, fee, rest, rfl, hsize, hcall⟩ :=
    exists_call_of_posted fresh posted payload
  refine ⟨before, outputs, call, fee, rest, rfl, hsize, hcall, ?_⟩
  intro later gas enough
  have grows : Grows (c.afterAll before)
      ((c.afterAll (before ++ .call outputs call fee :: rest)).afterAll later) := by
    rw [afterAll_append]
    exact (grows_afterAll _ _).trans (grows_afterAll _ later)
  exact (replays_of_postCall hcall enough).grows grows

/-- A contract that prints a number before it returns the bound address. -/
def chattyContract : String := "PUSH 1\nPRINT\n<to>\nRETURN"

/-- A call of the contract with exactly the gas that it needs. -/
def chattyCall : Call where
  args := .ofList [("to", "007")]
  amount := 5
  contract := 0
  gas := 6

/-- The contract is deployed and called, and the client moves on. -/
def chattyRequests : List Request :=
  [.deploy [] chattyContract 1, .call [⟨"dave", 1⟩] chattyCall 2, .extend "minnie" 20,
    .deploy [] "RETURN" 1]

/-- The payment is the second of three transactions. It can be replayed with six
units of gas and with more, whatever comes after. -/
theorem chattyCall_replays :
    let c := Client.new "Alice" "alice" (.genesis 10)
    let t : Transaction := ⟨"alice", [⟨"dave", 1⟩, ⟨"007", 5⟩], 2, .call chattyCall.args 0⟩
    (c.afterAll chattyRequests).posted[1]? = some t ∧
    ∀ later gas, 6 ≤ gas → ((c.afterAll chattyRequests).afterAll later).Replays t gas := by
  intro c t
  let p : Program := ⟨#[.instruction ⟨"PUSH", ["1"]⟩, .instruction ⟨"PRINT", []⟩,
    .instruction ⟨"PUSHARG", ["007"]⟩, .instruction ⟨"RETURN", []⟩], ∅, rfl⟩
  let d := c.after (.deploy [] chattyContract 1)
  have within : (Machine.runWithin p host 4 (.initial 6 #[])).isSome := rfl
  have paid : d.Evaluates chattyCall (.ok (.returned (.text "007"))) :=
    ⟨chattyContract, p, rfl, rfl, congrArg Machine.Halt.result (Machine.run_eq_get within)⟩
  have posted : (c.afterAll chattyRequests).posted[1]? = some t := by
    have called : c.afterAll (chattyRequests.take 2) = d.post t :=
      congrArg Prod.fst (paid.postCall_eq (by decide) [⟨"dave", 1⟩] 2)
    rw [← List.take_append_drop 2 chattyRequests, afterAll_append, called]
    exact (grows_afterAll _ _).posted 1 t rfl
  obtain ⟨before, outputs, call, fee, rest, hrequests, -, -, replays⟩ :=
    posted_calls_replay c chattyRequests 1 t _ _ (by decide) posted rfl
  have hmem : Request.call outputs call fee ∈ chattyRequests := by
    rw [hrequests]
    exact List.mem_append_right _ List.mem_cons_self
  obtain ⟨-, rfl, -⟩ : outputs = _ ∧ call = chattyCall ∧ fee = _ := by
    simpa [chattyRequests] using hmem
  exact ⟨posted, replays⟩

end MeteredLedger.Ledger.Client
