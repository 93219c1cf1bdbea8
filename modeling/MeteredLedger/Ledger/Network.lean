import MeteredLedger.Ledger.Client

/-!
# Networks

Several clients, each with its own view of the last block. One of them acts at a
time; a block it makes or brings back is delivered to any of the clients. Copies
of blocks can be kept under a name and delivered later, so clients may lag
behind or follow different branches.
-/

namespace MeteredLedger.Ledger

/-- Clients, and the blocks kept under a name. -/
structure Network where
  clients : Array Client
  kept : List (String × Block)

/-- What a client can do. -/
inductive Action where
  | deploy (outputs : List Output) (template : String) (fee : UInt64)
  | call (outputs : List Output) (call : Call) (fee : UInt64)
  /-- Extend the last block of the acting client and deliver the new block. -/
  | extend (rewardAddress : String) (timestamp : Int64) (targets : List Nat)
  | deliver (block : Block) (targets : List Nat)
  | deliverText (text : String) (targets : List Nat)
  /-- Keep the last block of the acting client under a name. -/
  | keep (name : String)
  /-- Deliver the block kept under a name. -/
  | restore (name : String) (targets : List Nat)

inductive Reply where
  | deployed (id : Nat)
  | called (t : Transaction)
  /-- The block was delivered to so many clients. -/
  | delivered (count : Nat)
  /-- So many names have a block. -/
  | kept (count : Nat)

namespace Network

/-- Clients that have posted nothing, and no blocks kept. -/
def new (clients : Array Client) : Network :=
  ⟨clients, []⟩

/-- Delivers a block to some of the clients. -/
def deliver (n : Network) (b : Block) (targets : List Nat) : Network :=
  { n with clients := targets.foldl (fun clients i => clients.modify i (·.receive b)) n.clients }

/-- Keeps a block under a name, in place of a block kept under it before. -/
def keep (n : Network) (name : String) (b : Block) : Network :=
  { n with kept := (name, b) :: n.kept.filter (·.1 != name) }

def update (n : Network) (i : Nat) (c : Client) : Network :=
  { n with clients := n.clients.setIfInBounds i c }

/-- Delivers a block and counts the targets. -/
def delivering (n : Network) (b : Block) (targets : List Nat) : Network × Except Error Reply :=
  (n.deliver b targets, .ok (.delivered targets.length))

/-- Lets the client with index `i`, which is `c`, act. Restoring a name that has
no block delivers nothing. -/
def act [Block.Wording] (n : Network) (i : Nat) (c : Client) : Action → Network × Except Error Reply
  | .deploy outputs template fee =>
    let (c, result) := c.postDeploy outputs template fee
    (n.update i c, result.map .deployed)
  | .call outputs call fee =>
    let (c, result) := c.postCall outputs call fee
    (n.update i c, result.map .called)
  | .extend rewardAddress timestamp targets =>
    n.delivering (c.lastBlock.extend rewardAddress timestamp) targets
  | .deliver block targets => n.delivering block targets
  | .deliverText text targets =>
    match Block.deserialize text with
    | .ok block => n.delivering block targets
    | .error e => (n, .error (.invalidBlock e))
  | .keep name =>
    let n := n.keep name c.lastBlock
    (n, .ok (.kept n.kept.length))
  | .restore name targets =>
    match n.kept.lookup name with
    | some block => n.delivering block targets
    | none => (n, .ok (.delivered 0))

end Network

end MeteredLedger.Ledger
