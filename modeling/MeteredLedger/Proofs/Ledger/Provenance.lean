import MeteredLedger.Ledger.Network
import MeteredLedger.Proofs.Ledger.BlockEncoding
import MeteredLedger.Proofs.Ledger.Posting
import MeteredLedger.Proofs.Source.TemplateCheck

/-!
# Where registered templates come from

A client adopts whatever block is delivered to it. In a network that delivers
only its own blocks, fresh or stale, as they are or by way of their encoding, a
template can still get into a registry in one way only: some client deployed it,
and so it passed the check.

`Vouches` says this of the templates of one block. It is kept for the last
blocks of the clients and for the blocks set aside, whichever of them is
extended or delivered to whom, because no action takes a transaction back.
-/

namespace MeteredLedger.Ledger

/-- What a post may do to a client: it takes no transaction back, and a template
that it registers was checked and is deployed by a transaction it posts. -/
structure Client.Advances (c d : Client) : Prop where
  posted : ∀ t ∈ c.posted, t ∈ d.posted
  templates : ∀ template ∈ d.lastBlock.contracts.templates,
    template ∈ c.lastBlock.contracts.templates ∨
      Source.checkTemplate template = .ok () ∧ ∃ t ∈ d.posted, t.payload = .deploy template

namespace Client

theorem Advances.refl (c : Client) : c.Advances c :=
  ⟨fun _ ht => ht, fun _ hmem => .inl hmem⟩

variable (c : Client) (outputs : List Output) (fee : UInt64)

theorem advances_postDeploy (template : String) :
    c.Advances (c.postDeploy outputs template fee).1 := by
  rcases c.postDeploy_cases outputs fee template with ⟨e, -, hpost⟩ | ⟨hcheck, hpost⟩
  · rw [hpost]
    exact .refl c
  · rw [hpost]
    refine ⟨fun t ht => Array.mem_push_of_mem _ ht, ?_⟩
    intro template' hmem
    rcases Array.mem_push.mp hmem with hmem | rfl
    · exact .inl hmem
    · exact .inr ⟨hcheck, _, Array.mem_push_self, rfl⟩

theorem advances_postCall [Block.Wording] (call : Call) :
    c.Advances (c.postCall outputs call fee).1 := by
  rcases c.postCall_cases outputs fee call with ⟨e, -, hpost⟩ | ⟨v, -, -, hpost⟩
  · rw [hpost]
    exact .refl c
  · rw [hpost]
    exact ⟨fun t ht => Array.mem_push_of_mem _ ht, fun _ hmem => .inl hmem⟩

end Client

namespace Network

/-- The blocks in use: the last blocks of the clients, the blocks set aside, and
what extends a block in use. -/
inductive Circulates (n : Network) : Block → Prop where
  | last {c : Client} : c ∈ n.clients → Circulates n c.lastBlock
  | kept {name : String} {b : Block} : (name, b) ∈ n.kept → Circulates n b
  | extend {b : Block} (rewardAddress : String) (timestamp : Int64) : Circulates n b →
      Circulates n (b.extend rewardAddress timestamp)

/-- A closed network delivers blocks in use only, or texts that encode them. -/
def Admits (n : Network) : Action → Prop
  | .deliver b _ => n.Circulates b
  | .deliverText text _ => ∃ b, n.Circulates b ∧ text = b.serialize
  | _ => True

/-- The networks that a closed network can become. -/
inductive Reachable [Block.Wording] (first : Network) : Network → Prop where
  | refl : Reachable first first
  | act {n : Network} {c : Client} (i : Nat) (action : Action) : Reachable first n →
      n.clients[i]? = some c → n.Admits action → Reachable first (n.act i c action).1

/-- Some client has posted the transaction. -/
def Posts (n : Network) (t : Transaction) : Prop :=
  ∃ c ∈ n.clients, t ∈ c.posted

/-- Each template of the block passed the check and was deployed by some client. -/
def Vouches (n : Network) (b : Block) : Prop :=
  ∀ template ∈ b.contracts.templates, Source.checkTemplate template = .ok () ∧
    ∃ t, n.Posts t ∧ t.payload = .deploy template

/-- All blocks that clients hold or set aside are vouched for. -/
structure Sound (n : Network) : Prop where
  last : ∀ c ∈ n.clients, n.Vouches c.lastBlock
  kept : ∀ name b, (name, b) ∈ n.kept → n.Vouches b

section

variable {n m : Network} {b : Block} {targets : List Nat} {t : Transaction}

/-- Posting more does not withdraw a voucher. -/
theorem Vouches.mono (h : n.Vouches b) (grows : ∀ t, n.Posts t → m.Posts t) : m.Vouches b := by
  intro template hmem
  obtain ⟨hcheck, t, hposts, hpayload⟩ := h template hmem
  exact ⟨hcheck, t, grows t hposts, hpayload⟩

theorem Sound.vouches_of_circulates (sound : n.Sound) (h : n.Circulates b) : n.Vouches b := by
  induction h with
  | last hmem => exact sound.last _ hmem
  | kept hmem => exact sound.kept _ _ hmem
  | extend _ _ _ ih => exact ih

/-! ## Deliveries -/

/-- The targets of a delivery receive the block, and no other client changes. -/
theorem getElem?_deliver (n : Network) (b : Block) (targets : List Nat) (j : Nat) :
    (n.deliver b targets).clients[j]? =
      n.clients[j]?.map fun c => if j ∈ targets then c.receive b else c := by
  simp only [deliver]
  generalize n.clients = clients
  induction targets generalizing clients with
  | nil => simp
  | cons i targets ih =>
    rw [List.foldl_cons, ih, Array.getElem?_modify]
    by_cases hij : i = j
    · subst hij
      -- the client may be a target again, but receiving a block twice is receiving it once
      cases clients[i]? <;> simp [Client.receive]
    · have hji : j ≠ i := Ne.symm hij
      simp [hij, hji]

/-- A block delivered as text arrives as the block itself. -/
theorem act_deliverText [Block.Wording] (n : Network) (i : Nat) (c : Client) (b : Block)
    (targets : List Nat) :
    n.act i c (.deliverText b.serialize targets) = n.delivering b targets := by
  rw [act, Block.deserialize_serialize_eq]

theorem Posts.deliver (h : n.Posts t) (b : Block) (targets : List Nat) :
    (n.deliver b targets).Posts t := by
  obtain ⟨c, hmem, ht⟩ := h
  obtain ⟨j, hj⟩ := Array.mem_iff_getElem?.mp hmem
  have hj' := n.getElem?_deliver b targets j
  rw [hj, Option.map_some] at hj'
  refine ⟨_, Array.mem_of_getElem? hj', ?_⟩
  split
  · exact ht
  · exact ht

theorem Sound.deliver (sound : n.Sound) (h : n.Vouches b) (targets : List Nat) :
    (n.deliver b targets).Sound := by
  have grows : ∀ t, n.Posts t → (n.deliver b targets).Posts t :=
    fun _ hposts => hposts.deliver b targets
  refine ⟨?_, fun name b' hmem => (sound.kept name b' hmem).mono grows⟩
  intro d hmem
  obtain ⟨j, hj⟩ := Array.mem_iff_getElem?.mp hmem
  rw [getElem?_deliver] at hj
  obtain ⟨c, hc, rfl⟩ := Option.map_eq_some_iff.mp hj
  split
  · exact h.mono grows
  · exact (sound.last c (Array.mem_of_getElem? hc)).mono grows

/-! ## Posts -/

variable {i : Nat} {c d : Client}

theorem mem_update (hi : n.clients[i]? = some c) : d ∈ (n.update i d).clients :=
  Array.mem_setIfInBounds (Array.getElem?_eq_some_iff.mp hi).1

theorem Posts.update (h : n.Posts t) (hi : n.clients[i]? = some c) (advances : c.Advances d) :
    (n.update i d).Posts t := by
  obtain ⟨c', hmem, ht⟩ := h
  obtain ⟨j, hj⟩ := Array.mem_iff_getElem?.mp hmem
  by_cases hij : i = j
  · subst hij
    obtain rfl : c = c' := by simpa [hi] using hj
    exact ⟨d, mem_update hi, advances.posted t ht⟩
  · refine ⟨c', Array.mem_iff_getElem?.mpr ⟨j, ?_⟩, ht⟩
    rw [Network.update, Array.getElem?_setIfInBounds, if_neg hij, hj]

theorem Sound.update (sound : n.Sound) (hi : n.clients[i]? = some c) (advances : c.Advances d) :
    (n.update i d).Sound := by
  have grows : ∀ t, n.Posts t → (n.update i d).Posts t :=
    fun _ hposts => hposts.update hi advances
  refine ⟨?_, fun name b' hmem => (sound.kept name b' hmem).mono grows⟩
  intro c' hmem
  rcases Array.mem_or_eq_of_mem_setIfInBounds hmem with hmem | rfl
  · exact (sound.last c' hmem).mono grows
  · intro template hmem
    rcases advances.templates template hmem with hmem | ⟨hcheck, t, ht, hpayload⟩
    · have before := sound.last c (Array.mem_of_getElem? hi)
      exact before.mono grows template hmem
    · -- a new template is vouched for by the client that brings it
      exact ⟨hcheck, t, ⟨c', mem_update hi, ht⟩, hpayload⟩

/-! ## Runs -/

theorem Sound.keep (sound : n.Sound) (h : n.Vouches b) (name : String) : (n.keep name b).Sound := by
  refine ⟨sound.last, ?_⟩
  intro name' b' hmem
  rcases List.mem_cons.mp hmem with heq | hmem
  · obtain ⟨rfl, rfl⟩ := Prod.mk.inj heq
    exact h
  · exact sound.kept name' b' (List.mem_filter.mp hmem).1

/-- No action of a closed network brings in a template from elsewhere. -/
theorem Sound.act [Block.Wording] {action : Action} (sound : n.Sound) (hi : n.clients[i]? = some c)
    (admits : n.Admits action) : (n.act i c action).1.Sound := by
  have hlast : n.Circulates c.lastBlock := .last (Array.mem_of_getElem? hi)
  cases action with
  | deploy outputs template fee =>
    exact sound.update hi (c.advances_postDeploy outputs fee template)
  | call outputs call fee => exact sound.update hi (c.advances_postCall outputs fee call)
  | extend rewardAddress timestamp targets =>
    exact sound.deliver (sound.vouches_of_circulates (hlast.extend rewardAddress timestamp)) targets
  | deliver b targets => exact sound.deliver (sound.vouches_of_circulates admits) targets
  | deliverText text targets =>
    obtain ⟨b, hb, rfl⟩ := admits
    rw [act_deliverText]
    exact sound.deliver (sound.vouches_of_circulates hb) targets
  | keep name => exact sound.keep (sound.vouches_of_circulates hlast) name
  | restore name targets =>
    rw [Network.act]
    split
    · next b hlookup =>
      obtain ⟨before, after, hkept, -⟩ := List.lookup_eq_some_iff.mp hlookup
      have hmem : (name, b) ∈ n.kept := by simp [hkept]
      exact sound.deliver (sound.kept name b hmem) targets
    · exact sound

theorem Reachable.sound [Block.Wording] {first : Network} (h : Reachable first n)
    (sound : first.Sound) : n.Sound := by
  induction h with
  | refl => exact sound
  | act i action _ hi admits ih => exact ih.act hi admits

end

/-- A genesis block has no templates to vouch for. -/
theorem sound_new {clients : Array Client}
    (h : ∀ c ∈ clients, ∃ name address timestamp, c = .new name address (.genesis timestamp)) :
    (Network.new clients).Sound := by
  refine ⟨?_, by simp [Network.new]⟩
  intro c hmem
  obtain ⟨name, address, timestamp, rfl⟩ := h c hmem
  intro template htemplate
  exact absurd htemplate (Array.not_mem_empty template)

/-- No unchecked template enters a network whose clients start on genesis blocks
and that delivers only its own blocks. Every template on the last block of a
client has passed the check and is deployed by a transaction of some client. No
call that a client makes then fails for a malformed line or a repeated label. -/
theorem registered_templates_checked [Block.Wording] (clients : Array Client)
    (genesis : ∀ c ∈ clients, ∃ name address timestamp, c = .new name address (.genesis timestamp))
    (n : Network) (reachable : Reachable (.new clients) n) (c : Client) (hc : c ∈ n.clients) :
    (∀ template ∈ c.lastBlock.contracts.templates,
      Source.checkTemplate template = .ok () ∧
      ∃ d ∈ n.clients, ∃ t ∈ d.posted, t.payload = .deploy template) ∧
    ∀ outputs call fee e, (c.postCall outputs call fee).2 = .error (.source e) →
      (∀ text, e.cause ≠ .malformed text) ∧ ∀ label, e.cause ≠ .duplicateLabel label := by
  have vouches := (reachable.sound (sound_new genesis)).last c hc
  constructor
  · intro template hmem
    obtain ⟨hcheck, t, ⟨d, hd, ht⟩, hpayload⟩ := vouches template hmem
    exact ⟨hcheck, d, hd, t, ht, hpayload⟩
  · intro outputs call fee e he
    cases Client.postCall_eq_error_iff.mp he with
    | @uncompiled template e hcontract hcompile =>
      have hcheck := (vouches template (Array.mem_of_getElem? hcontract)).1
      rcases Source.cause_or_checkTemplate_of_compile hcompile with
        ⟨name, hcause⟩ | ⟨name, value, hcause⟩ | hreported
      · simp [hcause]
      · simp [hcause]
      · simp [hcheck] at hreported

/-- Two clients on genesis blocks of their own. -/
def pair : Array Client :=
  #[.new "Alice" "alice" (.genesis 10), .new "Bob" "bob" (.genesis 11)]

/-- Bob has posted nothing, but finds a contract on a stale copy of the block on
which Alice deployed it, which reached him by way of its encoding. A call of it
fails for want of an argument only. -/
theorem pair_registered_templates_checked :
    ∃ n c, Reachable (.new pair) n ∧ c ∈ n.clients ∧ c.address = "bob" ∧ c.posted = #[] ∧
      c.lastBlock.height = 0 ∧ c.lastBlock.contracts.templates = #["<to>\nRETURN"] ∧
      Source.checkTemplate "<to>\nRETURN" = .ok () ∧
      (∃ d ∈ n.clients, ∃ t ∈ d.posted, t.payload = .deploy "<to>\nRETURN") ∧
      ∃ e, (c.postCall [] ⟨∅, 5, 0, 100⟩ 1).2 = .error (.source e) ∧
        e = ⟨1, .unboundArgument "to"⟩ ∧
        (∀ text, e.cause ≠ .malformed text) ∧ ∀ label, e.cause ≠ .duplicateLabel label := by
  have genesis : ∀ c ∈ pair, ∃ name address timestamp,
      c = .new name address (.genesis timestamp) := by
    intro c hc
    have hc : c = .new "Alice" "alice" (.genesis 10) ∨ c = .new "Bob" "bob" (.genesis 11) := by
      simpa [pair] using hc
    rcases hc with rfl | rfl
    · exact ⟨_, _, _, rfl⟩
    · exact ⟨_, _, _, rfl⟩
  have opening : Reachable (.new pair) _ := .refl
  have deployed := opening.act 0 (.deploy [] "<to>\nRETURN" 1) rfl trivial
  have kept := deployed.act 0 (.keep "old") rfl trivial
  have extended := kept.act 0 (.extend "minnie" 20 [0, 1]) rfl trivial
  have delivered := extended.act 1 (.deliverText _ [1]) rfl
    ⟨_, .kept (List.mem_singleton.mpr rfl), rfl⟩
  rw [act_deliverText] at delivered
  refine ⟨_, _, delivered, Array.mem_iff_getElem?.mpr ⟨1, rfl⟩, rfl, rfl, rfl, rfl, ?_⟩
  obtain ⟨templates, calls⟩ := registered_templates_checked pair genesis _ delivered _
    (Array.mem_iff_getElem?.mpr ⟨1, rfl⟩)
  obtain ⟨hcheck, hdeployed⟩ := templates "<to>\nRETURN" Array.mem_push_self
  have unbound := calls [] ⟨∅, 5, 0, 100⟩ 1 ⟨1, .unboundArgument "to"⟩ rfl
  exact ⟨hcheck, hdeployed, _, rfl, rfl, unbound⟩

end Network

end MeteredLedger.Ledger
