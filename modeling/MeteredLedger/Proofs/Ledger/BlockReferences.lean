import MeteredLedger.Ledger.Client
import MeteredLedger.Proofs.Machine.Segment
import MeteredLedger.Proofs.Source.Layout
import MeteredLedger.Proofs.Source.Rendering
import MeteredLedger.Proofs.Text.Hex
import MeteredLedger.Proofs.Value

/-!
# References to blocks are text

A token that is bound to a placeholder becomes an integer if it looks like one,
and a text in hexadecimal may be digits for the most part. A reference to a block
is safe all the same. Before anything else but spaces, the bytes it denotes hold
an opening brace or an opening bracket, whichever form the block is written in.
The low half of either byte is eleven, so its second digit is a letter, and a
letter is never the sign of a number.

Hence a program that asks for the time of the block bound to it gets that time.
-/

namespace MeteredLedger

theorem Json.mem_of_next? {bytes rest : List UInt8} {b : UInt8}
    (h : next? bytes = some (b, rest)) : b ∈ bytes := by
  rw [next?] at h
  split at h
  · simp at h
  · next first tail hskip =>
    obtain ⟨rfl, rfl⟩ : first = b ∧ tail = rest := by simpa using h
    have hmem : first ∈ skipSpace bytes := hskip ▸ List.mem_cons_self
    exact (List.dropWhile_sublist _).mem hmem

/-- There is nothing to trim around a single token. -/
theorem IsArgument.trim_eq {text : String} (token : IsArgument text) :
    Text.trim text.toList = text.toList := by
  apply Text.trim_of_words_eq_singleton
  apply Text.words_of_forall _ token.unbroken
  rw [Ne, String.toList_eq_nil_iff]
  exact token.nonempty

namespace Ledger

open Machine Source

section

variable {text : String} {time : Int64}

/-- The bytes of a block hold a brace or a bracket, with eleven as the lower half. -/
theorem Block.exists_opening_of_ofBytes? {bytes : List UInt8} {block : Block}
    (h : ofBytes? bytes = some block) : ∃ b ∈ bytes, b.toNat % 16 = 11 := by
  rw [ofBytes?] at h
  split at h
  · simp at h
  next b rest hnext =>
  refine ⟨b, Json.mem_of_next? hnext, ?_⟩
  split at h
  · next hbrace =>
    rw [hbrace]
    rfl
  split at h
  · next hbracket =>
    rw [hbracket]
    rfl
  · simp at h

theorem Block.exists_bytes_of_timestampOf (h : timestampOf text = .ok time) :
    ∃ bytes block, Hex.decode (Text.trim text.toList) = .ok bytes ∧
      ofBytes? bytes = some block := by
  rw [timestampOf, deserialize] at h
  split at h
  · simp [Except.map] at h
  next bytes hdecode =>
  split at h
  · next block hblock => exact ⟨bytes, block, hdecode, hblock⟩
  · simp [Except.map] at h

/-- A token that denotes a block is never taken for an integer. -/
theorem ofLiteral_of_timestampOf (token : IsArgument text)
    (h : Block.timestampOf text = .ok time) : Value.ofLiteral text = .text text := by
  obtain ⟨bytes, block, hdecode, hblock⟩ := Block.exists_bytes_of_timestampOf h
  rw [token.trim_eq] at hdecode
  obtain ⟨b, hb, hlow⟩ := Block.exists_opening_of_ofBytes? hblock
  obtain ⟨first, rest, c, htext, hc, hdigit⟩ :=
    Hex.exists_low_digit (Hex.forall₂_digit?_of_decode hdecode) hb
  have hletter : c.isDigit = false := by
    rcases Hex.digit?_cases hdigit with ⟨-, hsmall⟩ | ⟨hletter, -⟩
    · omega
    · exact hletter
  exact Value.ofLiteral_eq_text htext hc hletter

/-- A ledger knows the time of every block that a text denotes. -/
theorem host_timestamp_of_timestampOf [Block.Wording] (h : Block.timestampOf text = .ok time)
    (record : Array Value) : host.timestamp record text = .ok time := by
  simp only [host, blockTimestamp, h, Except.mapError]

end

/-! ## Asking a block for its time -/

/-- The tokens of a template that returns the time of the block bound to it. -/
def clockTokens : List (List (List Char)) :=
  [["<b>".toList], ["TIMESTAMP".toList], ["RETURN".toList]]

/-- Returns the time of the block that a token refers to. -/
def clock (reference : String) : Program :=
  ⟨#[.instruction ⟨"PUSHARG", [reference]⟩, .instruction ⟨"TIMESTAMP", []⟩,
    .instruction ⟨"RETURN", []⟩], ∅, rfl⟩

section

variable {template reference : String} {args : Bindings} {time : Int64}

theorem compile_clockTokens (htemplate : tokenLines template = clockTokens)
    (hargs : args.get? "b" = some reference) (token : IsArgument reference) :
    compile template args = .ok (clock reference) := by
  have hrow : Row.ofTokens ["<b>".toList] = .placeholder "b" := by decide
  have hbind : collect (bindTokens args) clockTokens =
      .ok [["PUSHARG".toList, reference.toList], ["TIMESTAMP".toList], ["RETURN".toList]] := by
    rw [clockTokens, collect_cons,
      bindTokens_of_placeholder hrow hargs (isArgument_iff_isToken.mp token)]
    rfl
  have hparse : parseTokens .refused
      [["PUSHARG".toList, reference.toList], ["TIMESTAMP".toList], ["RETURN".toList]] =
        .ok (clock reference) := by
    rw [parseTokens, collect_cons, readTokens_pushArgument]
    rfl
  have hcompile : outcome (compile template args) = .ok (clock reference) := by
    rw [outcome_compile, htemplate, hbind]
    exact hparse
  have same : SameOutcome (compile template args) (.ok (clock reference)) :=
    sameOutcome_of_outcome_eq hcompile
  exact (same.ok_iff _).mpr rfl

theorem returns_clock [Block.Wording] (token : IsArgument reference)
    (h : Block.timestampOf reference = .ok time) (record : Array Value) (memory : Memory) :
    Returns (clock reference) host 8 0 ⟨[], memory, record, []⟩ (.int time) := by
  have push : Codes (clock reference) 0 .pushArg (.push (.text reference)) :=
    ⟨_, rfl, by rw [← ofLiteral_of_timestampOf token h]; rfl⟩
  have timestamp : Codes (clock reference) 1 .timestamp .timestamp := ⟨_, rfl, rfl⟩
  have ret : Codes (clock reference) 2 .ret .ret := ⟨_, rfl, rfl⟩
  have pushed : Segment (clock reference) host 3 0 ⟨[], memory, record, []⟩
      1 ⟨[.text reference], memory, record, []⟩ := segment_of_next push rfl
  have answered : Segment (clock reference) host 5 1 ⟨[.text reference], memory, record, []⟩
      2 ⟨[.int time], memory, record, []⟩ :=
    segment_of_timestamp timestamp rfl (host_timestamp_of_timestampOf h record)
  have returned : Returns (clock reference) host 0 2 ⟨[.int time], memory, record, []⟩
      (.int time) := returns_of_ret ret rfl
  exact (pushed.trans answered).returns returned

/-- A token that denotes a block is never mistaken for an integer, in whichever
form the block is written. It is bound as text, and a template that asks the
block for its time compiles to a program that returns this time whenever the
limit covers 8 units of gas. Under no limit does the program fail for the kind of
its operand. -/
theorem block_reference_gives_timestamp [Block.Wording] (token : IsArgument reference)
    (h : Block.timestampOf reference = .ok time) :
    Value.ofLiteral reference = .text reference ∧
    ∀ template args, tokenLines template = clockTokens → args.get? "b" = some reference →
      ∃ p, compile template args = .ok p ∧ ∀ limit record,
        (8 ≤ limit → (evaluate p host limit record).result = .ok (.returned (.int time))) ∧
        ∀ index opcode kind,
          (evaluate p host limit record).result ≠ .error ⟨index, .typeMismatch opcode kind⟩ := by
  refine ⟨ofLiteral_of_timestampOf token h, ?_⟩
  intro template args htemplate hargs
  refine ⟨clock reference, compile_clockTokens htemplate hargs token, ?_⟩
  intro limit record
  have returns := returns_clock token h record ∅
  refine ⟨returns.evaluate_result, ?_⟩
  intro index opcode kind mismatch
  rcases Nat.lt_or_ge limit 8 with short | enough
  · obtain ⟨e, hresult, hshort⟩ :=
      Halt.exists_error_of_isOutOfGas (returns.evaluate_isOutOfGas short)
    obtain rfl : e = ⟨index, .typeMismatch opcode kind⟩ := by simpa [mismatch] using hresult.symm
    simp [Error.isOutOfGas] at hshort
  · rw [returns.evaluate_result enough] at mismatch
    simp at mismatch

end

/-- A block as an array after a space, in upper case. -/
def arrayReference : String :=
  "205B372C2D352C6E756C6C2C6E756C6C2C5B5D5D"

/-- A block as an object with a member that no block has, before a line feed. -/
def objectReference : String :=
  "7b2274696d657374616d70223a372c2278223a302c22686569676874223a312c" ++
    "22636f6e747261637473223a5b5d7d0a"

/-- Both references are bound as text and give the times of their blocks. -/
theorem references_give_timestamps :
    (IsArgument arrayReference ∧ Block.timestampOf arrayReference = .ok (-5) ∧
      Value.ofLiteral arrayReference = .text arrayReference ∧
      ∃ p, compile "<b>\nTIMESTAMP\nRETURN" (.ofList [("b", arrayReference)]) = .ok p ∧
        (evaluate p host 8 #[]).result = .ok (.returned (.int (-5)))) ∧
    (IsArgument objectReference ∧ Block.timestampOf objectReference = .ok 7 ∧
      Value.ofLiteral objectReference = .text objectReference ∧
      ∃ p, compile "<b>\n\n  TIMESTAMP # of b\nRETURN\n" (.ofList [("b", objectReference)]) =
          .ok p ∧
        (evaluate p host 8 #[]).result = .ok (.returned (.int 7))) := by
  have first : IsArgument arrayReference ∧ Block.timestampOf arrayReference = .ok (-5) := by
    decide +kernel
  have second : IsArgument objectReference ∧ Block.timestampOf objectReference = .ok 7 := by
    decide +kernel
  obtain ⟨text, gives⟩ := block_reference_gives_timestamp first.1 first.2
  obtain ⟨p, hcompile, hp⟩ := gives "<b>\nTIMESTAMP\nRETURN" (.ofList [("b", arrayReference)])
    (by decide) (by decide)
  obtain ⟨text', gives'⟩ := block_reference_gives_timestamp second.1 second.2
  obtain ⟨q, hcompile', hq⟩ := gives' "<b>\n\n  TIMESTAMP # of b\nRETURN\n"
    (.ofList [("b", objectReference)]) (by decide) (by decide)
  exact ⟨⟨first.1, first.2, text, p, hcompile, (hp 8 #[]).1 le_rfl⟩,
    ⟨second.1, second.2, text', q, hcompile', (hq 8 #[]).1 le_rfl⟩⟩

end Ledger

end MeteredLedger
