import MeteredLedger.Proofs.Ledger.BlockEncoding
import MeteredLedger.Proofs.Ledger.Posting

/-!
# Histories of a client

A client that follows its own blocks posts, extends its last block, and may take
that block back from its encoding. The list of transactions and the registry on
the last block are updated separately, but never drift apart: along every
history the registry is what it was at the start, followed by the templates of
the deployments posted since, so a contract keeps its identifier for good.

`Happens.effect` says what one event adds to both, and the law about whole
histories is an induction over it.
-/

namespace MeteredLedger.Ledger

/-- The template that a transaction deploys. -/
def Payload.template? : Payload → Option String
  | deploy template => some template
  | call _ _ => none

namespace Client

/-- The templates of the deployments that were posted, in order. -/
def deployed (c : Client) : List String :=
  c.posted.toList.filterMap (·.payload.template?)

/-- The templates registered on the last block, in order. -/
def templates (c : Client) : List String :=
  c.lastBlock.contracts.templates.toList

section

variable (c : Client) (t : Transaction) (template : String) (b : Block)

@[simp] theorem templates_post : (c.post t).templates = c.templates := rfl

@[simp] theorem templates_register :
    (c.register template).templates = c.templates ++ [template] := by
  simp [templates, register, Registry.deploy]

@[simp] theorem deployed_post :
    (c.post t).deployed = c.deployed ++ t.payload.template?.toList := by
  cases h : t.payload.template? <;> simp [deployed, post, h]

@[simp] theorem deployed_register : (c.register template).deployed = c.deployed := rfl

@[simp] theorem deployed_receive : (c.receive b).deployed = c.deployed := rfl

theorem size_contracts : c.lastBlock.contracts.size = c.templates.length := by
  simp [templates, Registry.size]

end

/-- What a client does, and what it is answered. -/
inductive Event where
  | deploy (template : String) (result : Except Error Nat)
  | call (call : Call) (result : Except Error Transaction)
  /-- Move on to a block that extends the last one. -/
  | extend
  /-- Take the last block back from its encoding. -/
  | reload

namespace Event

/-- The template that was deployed, with the identifier it was given. -/
def deployment? : Event → Option (String × Nat)
  | deploy template (.ok id) => some (template, id)
  | _ => none

def isExtend : Event → Bool
  | extend => true
  | _ => false

end Event

/-- One event takes the client `c` to another state. No block extends one of the
greatest height. -/
inductive Happens [Block.Wording] (c : Client) : Event → Client → Prop where
  | deploy (outputs : List Output) (template : String) (fee : UInt64) :
      Happens c (.deploy template (c.postDeploy outputs template fee).2)
        (c.postDeploy outputs template fee).1
  | call (outputs : List Output) (call : Call) (fee : UInt64) :
      Happens c (.call call (c.postCall outputs call fee).2) (c.postCall outputs call fee).1
  | extend (rewardAddress : String) (timestamp : Int64) :
      c.lastBlock.height.toNat + 1 < UInt64.size →
      Happens c .extend (c.receive (c.lastBlock.extend rewardAddress timestamp))
  | reload {b : Block} :
      Block.deserialize c.lastBlock.serialize = .ok b → Happens c .reload (c.receive b)

/-- The events, the earliest first, take the client `c` to another state. -/
inductive History [Block.Wording] (c : Client) : List Event → Client → Prop where
  | start : History c [] c
  | snoc {events : List Event} {d : Client} {event : Event} {e : Client} :
      History c events d → Happens d event e → History c (events ++ [event]) e

section

variable {c d : Client} {event : Event}

/-- An event adds the same templates to the registry and to the posted
deployments: the one it reports, if any, under the next identifier. Only an
extension makes the last block higher. -/
theorem Happens.effect [Block.Wording] (h : Happens c event d) :
    (∃ added, d.templates = c.templates ++ added ∧ d.deployed = c.deployed ++ added ∧
      event.deployment?.toList = added.zipIdx c.templates.length) ∧
    d.lastBlock.height.toNat = c.lastBlock.height.toNat + if event.isExtend then 1 else 0 := by
  cases h with
  | deploy outputs template fee =>
    rcases c.postDeploy_cases outputs fee template with ⟨e, -, hpost⟩ | ⟨-, hpost⟩
    · rw [hpost]
      exact ⟨⟨[], by simp, by simp, rfl⟩, rfl⟩
    · rw [hpost, size_contracts]
      exact ⟨⟨[template], by simp, by simp [Payload.template?], rfl⟩, rfl⟩
  | call outputs call fee =>
    rcases c.postCall_cases outputs fee call with ⟨e, -, hpost⟩ | ⟨v, -, -, hpost⟩
    · rw [hpost]
      exact ⟨⟨[], by simp, by simp, rfl⟩, rfl⟩
    · rw [hpost]
      exact ⟨⟨[], by simp, by simp [payment, Payload.template?], rfl⟩, rfl⟩
  | extend rewardAddress timestamp hheight =>
    refine ⟨⟨[], (List.append_nil _).symm, by simp, rfl⟩, ?_⟩
    simp only [receive, Block.extend, UInt64.toNat_add, UInt64.toNat_one, Event.isExtend, if_true]
    exact Nat.mod_eq_of_lt hheight
  | reload hread =>
    obtain rfl : c.lastBlock = _ := by simpa [Block.deserialize_serialize_eq] using hread
    exact ⟨⟨[], (List.append_nil _).symm, by simp, rfl⟩, rfl⟩

/-- The last block can always be taken back from its encoding, to no effect. -/
theorem happens_reload [Block.Wording] (c : Client) : Happens c .reload c :=
  .reload c.lastBlock.deserialize_serialize_eq

/-- What the events have made of a client that started on the block `b`. -/
structure Follows (b : Block) (events : List Event) (c : Client) : Prop where
  templates : c.templates = b.contracts.templates.toList ++ c.deployed
  /-- The deployments were numbered in order. -/
  deployments : events.filterMap Event.deployment? = c.deployed.zipIdx b.contracts.size
  height : c.lastBlock.height.toNat = b.height.toNat + events.countP Event.isExtend

variable {b : Block} {events : List Event}

theorem follows_new (name address : String) (b : Block) : Follows b [] (.new name address b) where
  templates := (List.append_nil _).symm
  deployments := rfl
  height := rfl

theorem Follows.happens [Block.Wording] (follows : Follows b events c) (h : Happens c event d) :
    Follows b (events ++ [event]) d := by
  obtain ⟨⟨added, htemplates, hdeployed, hevent⟩, hheight⟩ := h.effect
  -- the next identifier continues the numbering, since the registry holds nothing else
  have hlength : c.templates.length = b.contracts.size + c.deployed.length := by
    simp [follows.templates, Registry.size]
  refine ⟨?_, ?_, ?_⟩
  · rw [htemplates, hdeployed, follows.templates, List.append_assoc]
  · have hlast : [event].filterMap Event.deployment? = event.deployment?.toList := by
      cases h : event.deployment? <;> simp [h]
    rw [List.filterMap_append, follows.deployments, hlast, hevent, hdeployed, List.zipIdx_append,
      hlength]
  · rw [hheight, follows.height, List.countP_append, List.countP_singleton, Nat.add_assoc]

theorem History.follows [Block.Wording] {name address : String}
    (h : History (.new name address b) events c) : Follows b events c := by
  induction h with
  | start => exact follows_new name address b
  | snoc _ happens ih => exact ih.happens happens

end

/-- At every point of every history of a client, the registry on its last block
is the registry it started with, followed by the templates of the deployments it
has posted. The deployments were given consecutive identifiers, under which
their templates are still found, and the last block stands as much higher than
the first as there were extensions. The encoding of the last block is always
read back, so that no history gets stuck at a reload. -/
theorem registry_eq_append_deployed [Block.Wording] (name address : String) (b : Block)
    (events : List Event) (c : Client) (history : History (.new name address b) events c) :
    c.lastBlock.contracts.templates.toList = b.contracts.templates.toList ++ c.deployed ∧
    (∀ n template id, (events.filterMap Event.deployment?)[n]? = some (template, id) →
      id = b.contracts.size + n ∧ c.lastBlock.contracts.get? id = some template) ∧
    c.lastBlock.height.toNat = b.height.toNat + events.countP Event.isExtend ∧
    Happens c .reload c := by
  have follows := history.follows
  refine ⟨follows.templates, ?_, follows.height, happens_reload c⟩
  intro n template id hn
  rw [follows.deployments, List.getElem?_zipIdx] at hn
  obtain ⟨_, hn, heq⟩ := Option.map_eq_some_iff.mp hn
  obtain ⟨rfl, rfl⟩ := Prod.mk.inj heq
  refine ⟨rfl, ?_⟩
  rw [Registry.get?, ← Array.getElem?_toList, ← Client.templates, follows.templates]
  rw [List.getElem?_append_right (by simp [Registry.size])]
  simpa [Registry.size] using hn

/-- A block on the way, with one contract. -/
def midwayBlock : Block :=
  { Block.genesis 10 with height := 7, contracts := ⟨#["RETURN"]⟩ }

/-- Two deployments, with a refused one, an extension, a reload and a call of an
unknown contract between and after them. -/
def busyEvents : List Event :=
  [.deploy "PUSH 1\nRETURN" (.ok 1), .deploy "1x" (.error (.source ⟨1, .malformed "1x"⟩)), .extend,
    .reload, .deploy "<to>\nRETURN" (.ok 2), .call ⟨∅, 5, 9, 100⟩ (.error (.unknownContract 9))]

/-- The two deployments are the second and the third contract, one block up. -/
theorem registry_after_busyEvents :
    ∃ c, History (.new "Alice" "alice" midwayBlock) busyEvents c ∧
      c.lastBlock.contracts.templates.toList = "RETURN" :: c.deployed ∧
      c.lastBlock.contracts.get? 1 = some "PUSH 1\nRETURN" ∧
      c.lastBlock.contracts.get? 2 = some "<to>\nRETURN" ∧
      c.lastBlock.height.toNat = 8 := by
  have opening : History (.new "Alice" "alice" midwayBlock) [] _ := .start
  have deploys := (opening.snoc (.deploy [] "PUSH 1\nRETURN" 1)).snoc (.deploy [] "1x" 1)
  have moves := (deploys.snoc (.extend "minnie" 20 (by decide))).snoc (happens_reload _)
  have history := (moves.snoc (.deploy [] "<to>\nRETURN" 1)).snoc (.call [] ⟨∅, 5, 9, 100⟩ 1)
  obtain ⟨hregistry, hdeployments, hheight, -⟩ :=
    registry_eq_append_deployed "Alice" "alice" midwayBlock busyEvents _ history
  exact ⟨_, history, hregistry, (hdeployments 0 _ 1 rfl).2, (hdeployments 1 _ 2 rfl).2, hheight⟩

end Client

end MeteredLedger.Ledger
