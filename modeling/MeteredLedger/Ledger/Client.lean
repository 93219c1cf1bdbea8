import MeteredLedger.Ledger.Block.Reader
import MeteredLedger.Ledger.Transaction
import MeteredLedger.Machine.Run
import MeteredLedger.Source.Load

/-!
# Clients

A client works against its own view of the last block: deploying registers a
template there, and calling evaluates a template found there. An operation that
fails leaves the client as it was.

Contracts are evaluated with the host of the ledger: a text that denotes a block
refers to that block, and the values printed are recorded in order.
-/

namespace MeteredLedger.Ledger

/-! ## Errors and the host -/

/-- Why an operation on the ledger failed. -/
inductive Error where
  | source (e : Source.Error)
  | machine (e : Machine.Error)
  | unknownContract (id : Nat)
  /-- The evaluation of the contract returned no value. -/
  | noReturnValue (id : Nat)
  | invalidBlock (e : Block.ReadError)
  deriving DecidableEq, Repr

def Error.message [Block.Wording] : Error → String
  | source e => s!"contract bytecode: {e.message}"
  | machine e => s!"contract execution: {e.message}"
  | unknownContract id => s!"unknown contract {id}"
  | noReturnValue id => s!"contract {id} produced no return value"
  | invalidBlock e => s!"invalid block: {e.message}"

/-- The timestamp of the block that a text denotes, or the report of why it denotes none. -/
def blockTimestamp [Block.Wording] (text : String) : Except String Int64 :=
  (Block.timestampOf text).mapError fun e => (Error.invalidBlock e).message

/-- Reads blocks from their text and records printed values. -/
def host [Block.Wording] : Machine.Host (Array Value) where
  timestamp _ text := blockTimestamp text
  print record v := record.push v

/-! ## Clients -/

/-- A participant of the ledger. -/
structure Client where
  name : String
  address : String
  /-- The client's view of the last block. -/
  lastBlock : Block
  /-- The transactions posted so far, in order. -/
  posted : Array Transaction
  deriving DecidableEq

/-- Fee of a transaction when the caller does not choose. -/
def defaultFee : UInt64 := 1

structure Call where
  /-- The bindings of the template's placeholders. -/
  args : Bindings
  /-- What the address returned by the contract is paid. -/
  amount : UInt64
  contract : Nat
  gas : Nat

namespace Client

def new (name address : String) (lastBlock : Block) : Client :=
  ⟨name, address, lastBlock, #[]⟩

def receive (c : Client) (b : Block) : Client :=
  { c with lastBlock := b }

def post (c : Client) (t : Transaction) : Client :=
  { c with posted := c.posted.push t }

/-- Adds a template to the contracts of the last block. -/
def register (c : Client) (template : String) : Client :=
  { c with
    lastBlock := { c.lastBlock with contracts := c.lastBlock.contracts.deploy template } }

/-- Deploys a template and gives the identifier of the new contract. A template
that would not load once it is bound is refused. -/
def postDeploy (c : Client) (outputs : List Output) (template : String) (fee : UInt64) :
    Client × Except Error Nat :=
  match Source.checkTemplate template with
  | .error e => (c, .error (.source e))
  | .ok () =>
    ((c.post ⟨c.address, outputs, fee, .deploy template⟩).register template,
      .ok c.lastBlock.contracts.nextId)

/-- The address that a contract returns: the display of the value it evaluates to. -/
def resolve [Block.Wording] (c : Client) (call : Call) : Except Error String :=
  match c.lastBlock.contracts.get? call.contract with
  | none => .error (.unknownContract call.contract)
  | some template =>
    match Source.compile template call.args with
    | .error e => .error (.source e)
    | .ok program =>
      match (Machine.evaluate program host call.gas #[]).result with
      | .error e => .error (.machine e)
      | .ok outcome =>
        match outcome.value with
        | .undefined => .error (.noReturnValue call.contract)
        | v => .ok v.display

/-- Calls a contract and pays the address it returns, after the other outputs. -/
def postCall [Block.Wording] (c : Client) (outputs : List Output) (call : Call) (fee : UInt64) :
    Client × Except Error Transaction :=
  match c.resolve call with
  | .error e => (c, .error e)
  | .ok address =>
    let t : Transaction :=
      ⟨c.address, outputs ++ [⟨address, call.amount⟩], fee, .call call.args call.contract⟩
    (c.post t, .ok t)

end Client

end MeteredLedger.Ledger
