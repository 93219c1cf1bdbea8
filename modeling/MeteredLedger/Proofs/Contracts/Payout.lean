import Mathlib.Algebra.Ring.Int.Parity
import MeteredLedger.Contracts.Payout
import MeteredLedger.Proofs.Ledger.BlockEncoding
import MeteredLedger.Proofs.Ledger.BlockReferences
import MeteredLedger.Proofs.Ledger.Client
import MeteredLedger.Proofs.Source.Substitution

/-!
# The payout contract pays the right party

The contract is followed from its text to the transaction. Its outline is read
off the text once; compiling fills the three holes and leaves the other lines
alone. The program is then verified in four pieces: the arguments are stored, the
timestamp is reduced to its remainder, and one of two tails loads an address and
returns it. Together with the encoding of blocks this says what a call of the
contract pays, and for how much gas.
-/

namespace MeteredLedger.Contracts

/-- The lines of the contract, each with its number in the text. -/
def payoutSlots : List (Nat × Source.Slot) :=
  [(8, .hole "block"),
    (9, .line (.instruction ⟨"STORE", ["0"]⟩)),
    (10, .hole "even_addr"),
    (11, .line (.instruction ⟨"STORE", ["1"]⟩)),
    (12, .hole "odd_addr"),
    (13, .line (.instruction ⟨"STORE", ["2"]⟩)),
    (15, .line (.instruction ⟨"LOAD", ["0"]⟩)),
    (16, .line (.instruction ⟨"TIMESTAMP", []⟩)),
    (17, .line (.instruction ⟨"PUSH", ["2"]⟩)),
    (18, .line (.instruction ⟨"MOD", []⟩)),
    (19, .line (.instruction ⟨"JNZ", ["odd"]⟩)),
    (21, .line (.instruction ⟨"LOAD", ["1"]⟩)),
    (22, .line (.instruction ⟨"JUMP", ["end"]⟩)),
    (24, .line (.label "odd")),
    (25, .line (.instruction ⟨"LOAD", ["2"]⟩)),
    (27, .line (.label "end")),
    (28, .line (.instruction ⟨"RETURN", []⟩))]

theorem outline_payout : Source.outline payout = .ok payoutSlots := by
  rw [Source.outline, Source.numberedLines, payout, String.toList_join]
  simp only [List.flatMap_cons, List.flatMap_nil]
  -- with the characters of each literal laid open, the lines are found by evaluation
  repeat rw [String.toList_ofList]
  rfl

theorem placeholderNames_payout :
    Source.placeholderNames payout = ["block", "even_addr", "odd_addr"] := by
  rw [Source.placeholderNames, payout, String.toList_join]
  simp only [List.flatMap_cons, List.flatMap_nil]
  repeat rw [String.toList_ofList]
  rfl

theorem checkTemplate_payout : Source.checkTemplate payout = .ok () := by
  rw [Source.checkTemplate, Source.loadTemplate_eq, outline_payout]
  rfl

/-- A program is the contract, its holes filled. -/
def IsPayout (p : Program) (value : String → String) : Prop :=
  p.lines.toList = (payoutSlots.map (·.2)).map (Source.Slot.fill value)

/-- Bound to single tokens, the contract compiles. -/
theorem exists_compile_payout {args : Bindings} {block even odd : String}
    (hblock : args.get? "block" = some block) (heven : args.get? "even_addr" = some even)
    (hodd : args.get? "odd_addr" = some odd) (hblock' : IsArgument block)
    (heven' : IsArgument even) (hodd' : IsArgument odd) :
    ∃ p, Source.compile payout args = .ok p ∧ IsPayout p (Source.boundValue args) := by
  have htokens : ∀ name ∈ Source.placeholderNames payout,
      ∃ value, args.get? name = some value ∧ Source.isToken value = true := by
    rw [placeholderNames_payout, List.forall_mem_cons, List.forall_mem_cons,
      List.forall_mem_singleton]
    exact ⟨⟨block, hblock, isArgument_iff_isToken.mp hblock'⟩,
      ⟨even, heven, isArgument_iff_isToken.mp heven'⟩,
      ⟨odd, hodd, isArgument_iff_isToken.mp hodd'⟩⟩
  obtain ⟨p, hcompile⟩ := Source.exists_compile_of_checkTemplate checkTemplate_payout htokens
  obtain ⟨slots, houtline, hlines⟩ := Source.exists_outline_of_compile hcompile
  obtain rfl : payoutSlots = slots := by simpa [outline_payout] using houtline
  exact ⟨p, hcompile, hlines⟩

open Machine

/-- The memory that keeps the three arguments. -/
def argumentCells (value : String → String) : Memory :=
  (((∅ : Memory).write 0 (.ofLiteral (value "block"))).write 1
    (.ofLiteral (value "even_addr"))).write 2 (.ofLiteral (value "odd_addr"))

/-- The store once the arguments are kept, with some values on the stack. -/
def working (value : String → String) (memory : σ) (stack : List Value) : Store σ :=
  ⟨stack, argumentCells value, memory, []⟩

section

variable {p : Program} {value : String → String} {host : Host σ} {memory : σ}

/-- An argument is pushed and stored. -/
theorem segment_storeArgument {v : Value} {address : UInt64} {i : Nat} (host : Host σ) (memory : σ)
    (push : Codes p i .pushArg (.push v)) (store : Codes p (i + 1) .store (.store address))
    (cells : Memory) :
    Segment p host 6 i ⟨[], cells, memory, []⟩ (i + 2) ⟨[], cells.write address v, memory, []⟩ :=
  (segment_of_next push rfl).trans (segment_of_next store rfl)

/-- An argument is loaded. -/
theorem segment_loadArgument {v : Value} {address : UInt64} {i : Nat}
    (load : Codes p i .load (.load address)) (hcell : (argumentCells value).read address = v) :
    Segment p host 3 i (working value memory []) (i + 1) (working value memory [v]) := by
  apply segment_of_next load
  rw [perform, Store.push, working, hcell]
  rfl

theorem IsPayout.line? (hp : IsPayout p value) (i : Nat) :
    p.line? i = (payoutSlots[i]?).map fun slot => slot.2.fill value := by
  have hline : p.line? i = p.lines.toList[i]? := by simp [Program.line?]
  rw [hline, hp, List.map_map, List.getElem?_map]
  rfl

namespace IsPayout

variable (hp : IsPayout p value)

include hp

theorem segment_arguments :
    Segment p host 18 0 ⟨[], ∅, memory, []⟩ 6 (working value memory []) := by
  have store₀ : Codes p 1 .store (.store 0) := ⟨_, hp.line? 1, rfl⟩
  have store₁ : Codes p 3 .store (.store 1) := ⟨_, hp.line? 3, rfl⟩
  have store₂ : Codes p 5 .store (.store 2) := ⟨_, hp.line? 5, rfl⟩
  have block := segment_storeArgument host memory ⟨_, hp.line? 0, rfl⟩ store₀ ∅
  have even := segment_storeArgument host memory ⟨_, hp.line? 2, rfl⟩ store₁
  have odd := segment_storeArgument host memory ⟨_, hp.line? 4, rfl⟩ store₂
  exact (block.trans (even _)).trans (odd _)

/-- The timestamp of the block is reduced to its remainder. -/
theorem segment_remainder {block : String} {t : Int64}
    (hblock : Value.ofLiteral (value "block") = .text block)
    (htimestamp : host.timestamp memory block = .ok t) :
    Segment p host 16 6 (working value memory []) 10 (working value memory [.int (t % 2)]) := by
  have load : Codes p 6 .load (.load 0) := ⟨_, hp.line? 6, rfl⟩
  have timestamp : Codes p 7 .timestamp .timestamp := ⟨_, hp.line? 7, rfl⟩
  have push : Codes p 8 .push (.push (.int 2)) := ⟨_, hp.line? 8, rfl⟩
  have mod : Codes p 9 .mod (.arithmetic .mod) := ⟨_, hp.line? 9, rfl⟩
  have hcell : (argumentCells value).read 0 = .text block := by
    simp [argumentCells, Memory.read_write, hblock]
  have answered : Segment p host 5 7 (working value memory [.text block])
      8 (working value memory [.int t]) := segment_of_timestamp timestamp rfl htimestamp
  have pushed : Segment p host 3 8 (working value memory [.int t])
      9 (working value memory [.int 2, .int t]) := segment_of_next push rfl
  have divided : Segment p host 5 9 (working value memory [.int 2, .int t])
      10 (working value memory [.int (t % 2)]) := segment_of_next mod rfl
  exact (((segment_loadArgument load hcell).trans answered).trans pushed).trans divided

theorem codes_branch : Codes p 10 .jnz (.branch false 13) :=
  codes_jnz (hp.line? 10) (hp.line? 13)

/-- Without a remainder, control goes on to the next line. -/
theorem segment_of_eq_zero {r : Int64} (h : r = 0) :
    Segment p host 10 10 (working value memory [.int r]) 11 (working value memory []) := by
  apply segment_of_next hp.codes_branch
  rw [h]
  rfl

/-- With a remainder, control goes to the line after the marker. -/
theorem segment_of_ne_zero {r : Int64} (h : r ≠ 0) :
    Segment p host 10 10 (working value memory [.int r]) 14 (working value memory []) := by
  apply segment_of_jump hp.codes_branch
  simp [perform, Store.withOperand, working, Value.isZero, h]

theorem returns_even :
    Returns p host 11 11 (working value memory []) (.ofLiteral (value "even_addr")) := by
  have load : Codes p 11 .load (.load 1) := ⟨_, hp.line? 11, rfl⟩
  have jump : Codes p 12 .jump (.jump 15) := codes_jump (hp.line? 12) (hp.line? 15)
  have ret : Codes p 16 .ret .ret := ⟨_, hp.line? 16, rfl⟩
  have hcell : (argumentCells value).read 1 = .ofLiteral (value "even_addr") := by
    simp [argumentCells, Memory.read_write]
  have jumped : Segment p host 8 12 (working value memory [.ofLiteral (value "even_addr")])
      16 (working value memory [.ofLiteral (value "even_addr")]) := segment_of_jump jump rfl
  exact ((segment_loadArgument load hcell).trans jumped).returns (returns_of_ret ret rfl)

theorem returns_odd :
    Returns p host 3 14 (working value memory []) (.ofLiteral (value "odd_addr")) := by
  have load : Codes p 14 .load (.load 2) := ⟨_, hp.line? 14, rfl⟩
  have ret : Codes p 16 .ret .ret := ⟨_, hp.line? 16, rfl⟩
  have hcell : (argumentCells value).read 2 = .ofLiteral (value "odd_addr") := by
    simp [argumentCells, Memory.read_write]
  have passed : Segment p host 0 15 (working value memory [.ofLiteral (value "odd_addr")])
      16 (working value memory [.ofLiteral (value "odd_addr")]) := segment_of_marker (hp.line? 15)
  exact ((segment_loadArgument load hcell).trans passed).returns (returns_of_ret ret rfl)

section

variable {block : String} {t : Int64} (hblock : Value.ofLiteral (value "block") = .text block)
variable (htimestamp : host.timestamp memory block = .ok t)

include hblock htimestamp

theorem returns_of_even (h : t % 2 = 0) :
    Returns p host 55 0 ⟨[], ∅, memory, []⟩ (.ofLiteral (value "even_addr")) := by
  have tested := hp.segment_arguments.trans (hp.segment_remainder hblock htimestamp)
  exact (tested.trans (hp.segment_of_eq_zero h)).returns hp.returns_even

theorem returns_of_odd (h : t % 2 ≠ 0) :
    Returns p host 47 0 ⟨[], ∅, memory, []⟩ (.ofLiteral (value "odd_addr")) := by
  have tested := hp.segment_arguments.trans (hp.segment_remainder hblock htimestamp)
  exact (tested.trans (hp.segment_of_ne_zero h)).returns hp.returns_odd

end

end IsPayout

end

/-- Also a negative number has a remainder exactly if it is odd. -/
theorem mod_two_eq_zero_iff (t : Int64) : t % 2 = 0 ↔ Even t.toInt := by
  rw [← Int64.toInt_inj, Int64.toInt_mod, Int.even_iff, ← Int.dvd_iff_emod_eq_zero]
  exact Int.dvd_iff_tmod_eq_zero.symm

/-! ## Calls -/

open Ledger

/-- The digits of a block are a single token. -/
theorem isArgument_serialize (b : Block) : IsArgument b.serialize := by
  refine ⟨?_, fun _ => Hex.isBlank_of_mem_encode, ?_⟩
  · intro hempty
    obtain ⟨digits, hdigits⟩ := b.exists_toList_serialize
    simp [hempty] at hdigits
  · intro hsharp
    exact absurd (Hex.mem_encode hsharp) (by decide)

theorem timestampOf_serialize (b : Block) : Block.timestampOf b.serialize = .ok b.timestamp :=
  Block.timestampOf_of_deserialize b.deserialize_serialize_eq

theorem ofLiteral_serialize (b : Block) : Value.ofLiteral b.serialize = .text b.serialize :=
  ofLiteral_of_timestampOf (isArgument_serialize b) (timestampOf_serialize b)

theorem timestamp_serialize [Block.Wording] (b : Block) (memory : Array Value) :
    host.timestamp memory b.serialize = .ok b.timestamp :=
  host_timestamp_of_timestampOf (timestampOf_serialize b) memory

/-- The payout contract pays the right party. A call of it with a block and two
addresses pays the one address if the timestamp of the block is even and the
limit covers 55 units of gas, the other if it is odd, negative or not, and the
limit covers 47. Any other call runs out of gas and posts nothing. -/
theorem postCall_payout [Block.Wording] (c : Client) (b : Block) (outputs : List Output)
    (call : Call) (fee : UInt64) (even odd : String)
    (hcontract : c.lastBlock.contracts.get? call.contract = some payout)
    (hblock : call.args.get? "block" = some b.serialize)
    (heven : call.args.get? "even_addr" = some even) (heven' : IsArgument even)
    (hodd : call.args.get? "odd_addr" = some odd) (hodd' : IsArgument odd) :
    (Even b.timestamp.toInt → 55 ≤ call.gas → c.postCall outputs call fee =
      ({ c with posted := c.posted.push (c.payment outputs call fee even) },
        .ok (c.payment outputs call fee even))) ∧
    (Odd b.timestamp.toInt → 47 ≤ call.gas → c.postCall outputs call fee =
      ({ c with posted := c.posted.push (c.payment outputs call fee odd) },
        .ok (c.payment outputs call fee odd))) ∧
    (¬ (Even b.timestamp.toInt ∧ 55 ≤ call.gas) → ¬ (Odd b.timestamp.toInt ∧ 47 ≤ call.gas) →
      ∃ e, c.postCall outputs call fee = (c, .error (.machine e)) ∧ e.isOutOfGas = true) := by
  obtain ⟨p, hcompile, hp⟩ :=
    exists_compile_payout hblock heven hodd (isArgument_serialize b) heven' hodd'
  have hvalue {name value : String} (h : call.args.get? name = some value) :
      Source.boundValue call.args name = value := by
    rw [Source.boundValue, h, Option.getD_some]
  have htext : Value.ofLiteral (Source.boundValue call.args "block") = .text b.serialize := by
    rw [hvalue hblock, ofLiteral_serialize]
  have htimestamp := timestamp_serialize b #[]
  rcases Int.even_or_odd b.timestamp.toInt with parity | parity
  · have hreturns := hp.returns_of_even htext htimestamp ((mod_two_eq_zero_iff _).mpr parity)
    rw [hvalue heven] at hreturns
    obtain ⟨pays, refuses⟩ := Client.postCall_of_returns hcontract hcompile hreturns
    refine ⟨fun _ => pays, fun other => absurd parity (Int.not_even_iff_odd.mpr other), ?_⟩
    intro short _
    exact refuses (Nat.lt_of_not_le fun enough => short ⟨parity, enough⟩)
  · have hremainder : b.timestamp % 2 ≠ 0 := by
      rw [Ne, mod_two_eq_zero_iff, Int.not_even_iff_odd]
      exact parity
    have hreturns := hp.returns_of_odd htext htimestamp hremainder
    rw [hvalue hodd] at hreturns
    obtain ⟨pays, refuses⟩ := Client.postCall_of_returns hcontract hcompile hreturns
    refine ⟨fun other => absurd other (Int.not_even_iff_odd.mpr parity), fun _ => pays, ?_⟩
    intro _ short
    exact refuses (Nat.lt_of_not_le fun enough => short ⟨parity, enough⟩)

/-- A client whose last block holds the contract, after another one. -/
def payoutCaller : Client :=
  .new "Carol" "carol" { Block.genesis 10 with contracts := ⟨#["RETURN", payout]⟩ }

/-- A call with two addresses that look like numbers. -/
def payoutCall (timestamp : Int64) (gas : Nat) : Call where
  args := .ofList [("odd_addr", "-5"), ("even_addr", "007"),
    ("block", (Block.genesis timestamp).serialize)]
  amount := 9
  contract := 1
  gas

/-- The transaction in which such a call pays an address. -/
def payoutTransaction (timestamp : Int64) (address : String) : Transaction :=
  ⟨"carol", [⟨"dave", 1⟩, ⟨address, 9⟩], 1,
    .call (.ofList [("block", (Block.genesis timestamp).serialize), ("even_addr", "007"),
      ("odd_addr", "-5")]) 1⟩

/-- Before 1970 the contract tells even from odd all the same. Either address is
paid as it is spelled, and one unit of gas less than its price is too little. -/
theorem postCall_payout_before_1970 :
    payoutCaller.postCall [⟨"dave", 1⟩] (payoutCall (-4) 55) 1 =
      ({ payoutCaller with posted := #[payoutTransaction (-4) "007"] },
        .ok (payoutTransaction (-4) "007")) ∧
    payoutCaller.postCall [⟨"dave", 1⟩] (payoutCall (-5) 47) 1 =
      ({ payoutCaller with posted := #[payoutTransaction (-5) "-5"] },
        .ok (payoutTransaction (-5) "-5")) ∧
    (∃ e, payoutCaller.postCall [⟨"dave", 1⟩] (payoutCall (-4) 54) 1 =
      (payoutCaller, .error (.machine e)) ∧ e.isOutOfGas = true) ∧
    ∃ e, payoutCaller.postCall [⟨"dave", 1⟩] (payoutCall (-5) 46) 1 =
      (payoutCaller, .error (.machine e)) ∧ e.isOutOfGas = true := by
  have verdict (timestamp : Int64) (gas : Nat) :=
    postCall_payout payoutCaller (.genesis timestamp) [⟨"dave", 1⟩] (payoutCall timestamp gas) 1
      "007" "-5" rfl rfl rfl (by decide) rfl (by decide)
  refine ⟨?_, ?_, ?_, ?_⟩
  · exact (verdict (-4) 55).1 (by decide) (by decide)
  · exact (verdict (-5) 47).2.1 (by decide) (by decide)
  · exact (verdict (-4) 54).2.2 (by decide) (by decide)
  · exact (verdict (-5) 46).2.2 (by decide) (by decide)

end MeteredLedger.Contracts
