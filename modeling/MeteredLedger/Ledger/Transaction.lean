import MeteredLedger.Bindings
import MeteredLedger.Digest.Blake3
import MeteredLedger.Json.Writer
import MeteredLedger.Text.Decimal
import MeteredLedger.Text.Hex

/-!
# Transactions

A transaction pays amounts to addresses and either deploys a template or calls a
contract. Its identifier is the digest of its JSON form.
-/

namespace MeteredLedger.Ledger

/-- A payment to an address. -/
structure Output where
  address : String
  amount : UInt64
  deriving DecidableEq, Repr

/-- What a transaction does besides paying. -/
inductive Payload where
  | deploy (template : String)
  | call (args : Bindings) (contract : Nat)
  deriving DecidableEq

structure Transaction where
  /-- Address of the client that posted it. -/
  sender : String
  outputs : List Output
  fee : UInt64
  payload : Payload
  deriving DecidableEq

def Output.json (o : Output) : String :=
  Json.object [("address", Json.string o.address), ("amount", Decimal.ofUInt64 o.amount)]

def Payload.json : Payload → String
  | deploy template =>
    Json.object [("type", Json.string "DEPLOY"), ("bytecode", Json.string template)]
  | call args contract =>
    Json.object
      [("type", Json.string "CALL"),
        ("args", Json.object (args.entries.map fun (name, value) => (name, Json.string value))),
        ("contract", contract.repr)]

namespace Transaction

def json (t : Transaction) : String :=
  Json.object
    [("from", Json.string t.sender),
      ("outputs", Json.array (t.outputs.map Output.json)),
      ("fee", Decimal.ofUInt64 t.fee),
      ("payload", t.payload.json)]

/-- The identifier of a transaction, in hexadecimal. -/
def id (t : Transaction) : String :=
  Hex.encode (Blake3.hash t.json.toUTF8.data.toList)

end Transaction

end MeteredLedger.Ledger
