import MeteredLedger.Proofs.Ledger.BlockEncoding
import MeteredLedger.Proofs.Ledger.Digests

/-!
# A block commits to its history

Each block after the first one holds the digest of the block before it, as that
block was when it was extended. The first block holds none. Whatever is deployed
later changes the block at the tip only, and never its link.

If digests do not collide, the digest of the tip therefore determines the tip,
with its link the block before, and so on down to the first block. The lengths of
two chains need not be compared beforehand: one that ended early would have a
first block where the other has a link.
-/

namespace MeteredLedger.Ledger

/-- Different blocks are written differently. -/
theorem Block.eq_of_bytes_eq {b b' : Block} (h : b.bytes = b'.bytes) : b = b' := by
  have hread := ofBytes?_bytes b
  rw [h, ofBytes?_bytes] at hread
  exact (Option.some.inj hread).symm

/-- Among blocks without a collision, the digest determines the block. -/
theorem Block.eq_of_hash_eq {blocks : List Block} {b b' : Block}
    (free : Blake3.CollisionFree (blocks.map Block.bytes)) (hb : b ∈ blocks) (hb' : b' ∈ blocks)
    (h : b.hash = b'.hash) : b = b' := by
  apply eq_of_bytes_eq
  exact free.eq_of_encode_eq (List.mem_map_of_mem hb) (List.mem_map_of_mem hb') h

/-- A chain of blocks: those that have been extended, the latest first and each
as it was then, and the block at the tip. -/
inductive Chain : List Block → Block → Prop where
  | genesis (timestamp : Int64) : Chain [] (.genesis timestamp)
  | deploy {past : List Block} {tip : Block} (template : String) : Chain past tip →
      Chain past { tip with contracts := tip.contracts.deploy template }
  | extend {past : List Block} {tip : Block} (rewardAddress : String) (timestamp : Int64) :
      Chain past tip → Chain (tip :: past) (tip.extend rewardAddress timestamp)

namespace Chain

variable {past past' : List Block} {tip tip' prev : Block}

/-- The tip is linked to the block that was extended last. -/
theorem prevHash_eq (chain : Chain past tip) : tip.prevHash = past.head?.map Block.hash := by
  induction chain with
  | genesis timestamp => rfl
  | deploy template _ ih => exact ih
  | extend rewardAddress timestamp _ _ => rfl

/-- Before its last extension, a chain was a chain. -/
theorem tail (chain : Chain (prev :: past) tip) : Chain past prev := by
  generalize hblocks : prev :: past = blocks at chain
  induction chain with
  | genesis timestamp => simp at hblocks
  | deploy template _ ih => exact ih hblocks
  | extend rewardAddress timestamp chain _ =>
    obtain ⟨rfl, rfl⟩ := List.cons.inj hblocks
    exact chain

/-- Chains with the same tip go back to the same digest. -/
theorem head?_hash_eq (chain : Chain past tip) (chain' : Chain past' tip) :
    past.head?.map Block.hash = past'.head?.map Block.hash :=
  chain.prevHash_eq.symm.trans chain'.prevHash_eq

/-- The digests of the tips determine both chains, block after block. -/
theorem eq_of_hash_eq {blocks : List Block}
    (free : Blake3.CollisionFree (blocks.map Block.bytes))
    (chain : Chain past tip) (chain' : Chain past' tip') (mem : ∀ b ∈ tip :: past, b ∈ blocks)
    (mem' : ∀ b ∈ tip' :: past', b ∈ blocks) (h : tip.hash = tip'.hash) :
    tip :: past = tip' :: past' := by
  induction past generalizing tip past' tip' with
  | nil =>
    obtain rfl := Block.eq_of_hash_eq free (mem _ List.mem_cons_self) (mem' _ List.mem_cons_self) h
    have hlink := chain.head?_hash_eq chain'
    cases past' with
    | nil => rfl
    | cons prev' past' => simp at hlink
  | cons prev past ih =>
    obtain rfl := Block.eq_of_hash_eq free (mem _ List.mem_cons_self) (mem' _ List.mem_cons_self) h
    have hlink := chain.head?_hash_eq chain'
    cases past' with
    | nil => simp at hlink
    | cons prev' past' =>
      -- the links of one tip are one digest, so that the chains below are compared next
      have hprev : prev.hash = prev'.hash := by simpa using hlink
      have hpast := ih chain.tail chain'.tail (fun b hb => mem b (List.mem_cons_of_mem _ hb))
        (fun b hb => mem' b (List.mem_cons_of_mem _ hb)) hprev
      rw [hpast]

end Chain

/-- The digest of a block commits to the whole history before it. Take two
chains that grew from first blocks by extensions, with any deployments on the
way, and suppose that no digests collide among their blocks. If their tips have
the same digest, the chains have the same blocks, one by one from the tips down. -/
theorem hash_commits_to_history (past past' : List Block) (tip tip' : Block)
    (chain : Chain past tip) (chain' : Chain past' tip')
    (free : Blake3.CollisionFree ((tip :: past ++ tip' :: past').map Block.bytes))
    (h : tip.hash = tip'.hash) :
    past.length = past'.length ∧ tip = tip' ∧ past = past' := by
  have hblocks := chain.eq_of_hash_eq free chain' (fun b hb => List.mem_append_left _ hb)
    (fun b hb => List.mem_append_right _ hb) h
  obtain ⟨htip, hpast⟩ := List.cons.inj hblocks
  exact ⟨congrArg List.length hpast, htip, hpast⟩

/-- A first block with one contract. -/
def founded : Block :=
  { Block.genesis 0 with contracts := (Block.genesis 0).contracts.deploy "RETURN" }

/-- The block after the first one, with a contract of its own. -/
def grown : Block :=
  { founded.extend "bob" 1 with contracts := (founded.extend "bob" 1).contracts.deploy "" }

/-- The chain of the two blocks is the one that its tip commits to. The first
block alone is a chain too, and its tip has another digest. -/
theorem grown_commits_to_founded :
    Chain [founded] grown ∧
    Blake3.CollisionFree (([grown, founded] ++ [grown, founded]).map Block.bytes) ∧
    ([founded].length = [founded].length ∧ grown = grown ∧ [founded] = [founded]) ∧
    grown.hash ≠ founded.hash := by
  have first : Chain [] founded := .deploy "RETURN" (.genesis 0)
  have chain : Chain [founded] grown := .deploy "" (.extend "bob" 1 first)
  have hlink : founded.hash =
      "19c7e26a9879d782dc858a45af04c03164bf63fb992b7f1777961e223e96ad7b" := by
    decide +kernel
  -- the digest of the first block is evaluated once, and not again inside the second block
  have htip : Hex.encode (Blake3.hash grown.bytes) ≠ founded.hash := by
    rw [grown, Block.extend, hlink]
    decide +kernel
  have free : Blake3.CollisionFree [grown.bytes, founded.bytes] :=
    .pair fun h => htip (congrArg Hex.encode h)
  have free' : Blake3.CollisionFree (([grown, founded] ++ [grown, founded]).map Block.bytes) :=
    free.mono (by simp)
  refine ⟨chain, free', hash_commits_to_history _ _ _ _ chain chain free' rfl, ?_⟩
  intro h
  have hlength := (hash_commits_to_history _ _ _ _ chain first (free.mono (by simp)) h).1
  exact absurd hlength (by decide)

end MeteredLedger.Ledger
