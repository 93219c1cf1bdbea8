import MeteredLedger.Digest.Blake3
import MeteredLedger.Json.Writer
import MeteredLedger.Text.Decimal
import MeteredLedger.Text.Hex

/-!
# Contracts and blocks

The registry holds the templates deployed so far, in order. A contract is named
by its place in that order, and nothing is ever removed, so a name stays valid
for good.

A block records its distance from the first block, a time, the digest of the
block before it and the contracts registered by then. Its JSON form is what the
digest is taken of; in hexadecimal, that form is a single token, so a block can
be bound to a placeholder.
-/

namespace MeteredLedger.Ledger

/-- The deployed templates, in order of deployment. -/
structure Registry where
  templates : Array String
  deriving DecidableEq, Repr

namespace Registry

instance : EmptyCollection Registry := ⟨⟨#[]⟩⟩

def size (r : Registry) : Nat :=
  r.templates.size

/-- The identifier that the next contract will have. -/
def nextId (r : Registry) : Nat :=
  r.size

/-- Adds a template. Its identifier is the former `nextId`. -/
def deploy (r : Registry) (template : String) : Registry :=
  ⟨r.templates.push template⟩

def get? (r : Registry) (id : Nat) : Option String :=
  r.templates[id]?

/-- The contracts with their identifiers, in order. -/
def toList (r : Registry) : List (Nat × String) :=
  r.templates.toList.zipIdx.map fun (template, id) => (id, template)

/-- A new contract is found under its identifier, and every other one where it was. -/
theorem get?_deploy (r : Registry) (template : String) (id : Nat) :
    (r.deploy template).get? id = if id = r.nextId then some template else r.get? id :=
  Array.getElem?_push

end Registry

structure Block where
  /-- Distance from the first block. -/
  height : UInt64
  /-- Milliseconds since the start of 1970. -/
  timestamp : Int64
  /-- Digest of the block before, in hexadecimal; none for the first block. -/
  prevHash : Option String
  /-- Address credited for the block. -/
  rewardAddress : Option String
  /-- The contracts registered as of this block. -/
  contracts : Registry
  deriving DecidableEq, Repr

namespace Block

def genesis (timestamp : Int64) : Block where
  height := 0
  timestamp
  prevHash := none
  rewardAddress := none
  contracts := ∅

/-- The JSON form of a block. -/
def json (b : Block) : String :=
  Json.object
    [("height", Decimal.ofUInt64 b.height),
      ("timestamp", Decimal.ofInt64 b.timestamp),
      ("prev_hash", Json.optionalString b.prevHash),
      ("reward_addr", Json.optionalString b.rewardAddress),
      ("contracts", Json.array (b.contracts.templates.toList.map Json.string))]

def bytes (b : Block) : List UInt8 :=
  b.json.toUTF8.data.toList

/-- The digest of a block, in hexadecimal. -/
def hash (b : Block) : String :=
  Hex.encode (Blake3.hash b.bytes)

/-- A block as a single token. -/
def serialize (b : Block) : String :=
  Hex.encode b.bytes

/-- The block after another one. The contracts carry over. -/
def extend (prev : Block) (rewardAddress : String) (timestamp : Int64) : Block where
  height := prev.height + 1
  timestamp
  prevHash := some prev.hash
  rewardAddress := some rewardAddress
  contracts := prev.contracts

end Block

end MeteredLedger.Ledger
