import MeteredLedger.Ledger.Block.Reader
import MeteredLedger.Proofs.Json.RoundTrip
import MeteredLedger.Proofs.Text.Decimal
import MeteredLedger.Proofs.Text.Hex
import MeteredLedger.Proofs.Text.Split

/-!
# Reading back blocks

A block is written as an object with five members, and the object in
hexadecimal. Reading goes the same way back: the digits denote the bytes that
were written, and each member fills its place in the draft of a block. Since the
text is trimmed first and the case of a digit does not matter, a text that was
padded with blanks or put into upper case still denotes the block.
-/

namespace MeteredLedger.Ledger.Block

section

variable {rest : List UInt8}

theorem readHeight_ofUInt64 (n : UInt64) (hrest : Json.NoDigitNext rest) :
    readHeight (Json.utf8 (Decimal.ofUInt64 n) ++ rest) = some (n, rest) := by
  have hread := Json.readInteger_repr (.ofNat n.toNat) hrest
  rw [Int.repr] at hread
  simp [readHeight, Decimal.ofUInt64, hread, Decimal.natToUInt64?_toNat]

theorem readTimestamp_ofInt64 (t : Int64) (hrest : Json.NoDigitNext rest) :
    readTimestamp (Json.utf8 (Decimal.ofInt64 t) ++ rest) = some (t, rest) := by
  simp [readTimestamp, Decimal.ofInt64, Json.readInteger_repr _ hrest, Decimal.intToInt64?_toInt]

theorem readRegistry_array (r : Registry) (rest : List UInt8) :
    readRegistry (Json.utf8 (Json.array (r.templates.toList.map Json.string)) ++ rest) =
      some (r, rest) := by
  simp [readRegistry, Json.readStrings_array]

end

namespace Draft

/-- The text of a member. -/
def memberText (member : String × String) : String :=
  Json.string member.1 ++ ":" ++ member.2

/-- Reading the members of a list, one after the other, takes one draft to another. -/
inductive Fills : Draft → List (String × String) → Draft → Prop where
  | nil (d : Draft) : Fills d [] d
  | cons {d d' d'' : Draft} {key value : String} {members : List (String × String)} :
      (∀ rest, Json.NoDigitNext rest → d.readValue key (Json.utf8 value ++ rest) = some (d', rest)) →
      Fills d' members d'' → Fills d ((key, value) :: members) d''

section

variable {d d' : Draft} {b : UInt8} {bytes rest : List UInt8}

theorem readOnce_none {α : Type} {read : List UInt8 → Option (α × List UInt8)} {set : α → Draft}
    {a : α} (h : read bytes = some (a, rest)) :
    readOnce none read set bytes = some (set a, rest) := by
  simp [readOnce, h]

theorem readValue_height (hd : d.height = none) (n : UInt64) (rest : List UInt8)
    (hrest : Json.NoDigitNext rest) :
    d.readValue "height" (Json.utf8 (Decimal.ofUInt64 n) ++ rest) =
      some ({ d with height := some n }, rest) := by
  rw [readValue, if_pos rfl, hd]
  exact readOnce_none (readHeight_ofUInt64 n hrest)

theorem readValue_timestamp (hd : d.timestamp = none) (t : Int64) (rest : List UInt8)
    (hrest : Json.NoDigitNext rest) :
    d.readValue "timestamp" (Json.utf8 (Decimal.ofInt64 t) ++ rest) =
      some ({ d with timestamp := some t }, rest) := by
  rw [readValue, if_neg (by decide), if_pos rfl, hd]
  exact readOnce_none (readTimestamp_ofInt64 t hrest)

theorem readValue_prevHash (hd : d.prevHash = none) (s : Option String) (rest : List UInt8)
    (_ : Json.NoDigitNext rest) :
    d.readValue "prev_hash" (Json.utf8 (Json.optionalString s) ++ rest) =
      some ({ d with prevHash := some s }, rest) := by
  rw [readValue, if_neg (by decide), if_neg (by decide), if_pos rfl, hd]
  exact readOnce_none (Json.readOptionalString_optionalString s rest)

theorem readValue_rewardAddress (hd : d.rewardAddress = none) (s : Option String)
    (rest : List UInt8) (_ : Json.NoDigitNext rest) :
    d.readValue "reward_addr" (Json.utf8 (Json.optionalString s) ++ rest) =
      some ({ d with rewardAddress := some s }, rest) := by
  rw [readValue, if_neg (by decide), if_neg (by decide), if_neg (by decide), if_pos rfl, hd]
  exact readOnce_none (Json.readOptionalString_optionalString s rest)

theorem readValue_contracts (hd : d.contracts = none) (r : Registry) (rest : List UInt8)
    (_ : Json.NoDigitNext rest) :
    d.readValue "contracts"
        (Json.utf8 (Json.array (r.templates.toList.map Json.string)) ++ rest) =
      some ({ d with contracts := some r }, rest) := by
  rw [readValue, if_neg (by decide), if_neg (by decide), if_neg (by decide), if_neg (by decide),
    if_pos rfl, hd]
  exact readOnce_none (readRegistry_array r rest)

theorem readMember_memberText (d : Draft) (key value : String) (rest : List UInt8) :
    d.readMember (Json.utf8 (memberText (key, value)) ++ rest) =
      d.readValue key (Json.utf8 value ++ rest) := by
  have hcolon : Json.utf8 ":" = [Json.byte ':'] := rfl
  rw [memberText, Json.utf8_append, Json.utf8_append, hcolon, List.append_assoc, List.append_assoc,
    List.singleton_append, readMember, Json.readString_string, Option.bind_some]
  dsimp only
  rw [Json.expect_cons (by decide), Option.bind_some]

/-- What comes after a member decides how the object goes on. -/
theorem readMembers_eq (hd : d.readMember bytes = some (d', b :: rest))
    (hb : Json.isSpace b = false) :
    d.readMembers bytes =
      if b = Json.byte ',' then d'.readMembers rest
      else if b = Json.byte '\x7d' then some (d', rest)
      else none := by
  rw [readMembers]
  split
  · next h => simp [hd] at h
  · next e rest' h =>
    obtain ⟨rfl, rfl⟩ : d' = e ∧ b :: rest = rest' := by simpa [hd] using h
    split
    · next h' => simp [Json.next?_cons hb] at h'
    · next b' rest'' h' =>
      obtain ⟨rfl, rfl⟩ : b = b' ∧ rest = rest'' := by simpa [Json.next?_cons hb] using h'
      rfl

/-- Members that fill a draft one after the other fill it from inside an object. -/
theorem Fills.readMembers_eq {member : String × String} {members : List (String × String)}
    (h : Fills d (member :: members) d') (rest : List UInt8) :
    d.readMembers (Json.utf8 (String.intercalate "," ((member :: members).map memberText)) ++
      Json.byte '\x7d' :: rest) = some (d', rest) := by
  induction members generalizing d member with
  | nil =>
    cases h with
    | cons hvalue htail =>
      cases htail
      have hread := hvalue (Json.byte '\x7d' :: rest) (Json.noDigitNext_cons (by decide))
      rw [← readMember_memberText] at hread
      rw [List.map_cons, List.map_nil, String.intercalate_singleton,
        Draft.readMembers_eq hread (by decide), if_neg (by decide), if_pos rfl]
  | cons next members ih =>
    cases h with
    | cons hvalue htail =>
      have hcomma : Json.utf8 "," = [Json.byte ','] := rfl
      have hread := hvalue (Json.byte ',' :: (Json.utf8 (String.intercalate ","
        ((next :: members).map memberText)) ++ Json.byte '\x7d' :: rest))
        (Json.noDigitNext_cons (by decide))
      rw [← readMember_memberText] at hread
      rw [List.map_cons, List.map_cons, String.intercalate_cons_cons, ← List.map_cons,
        Json.utf8_append, Json.utf8_append, hcomma, List.append_assoc, List.append_assoc,
        List.singleton_append, Draft.readMembers_eq hread (by decide), if_pos rfl, ih htail]

end

end Draft

/-- The members of a block, as they are written. -/
def members (b : Block) : List (String × String) :=
  [("height", Decimal.ofUInt64 b.height),
    ("timestamp", Decimal.ofInt64 b.timestamp),
    ("prev_hash", Json.optionalString b.prevHash),
    ("reward_addr", Json.optionalString b.rewardAddress),
    ("contracts", Json.array (b.contracts.templates.toList.map Json.string))]

/-- Each member of a block fills its own place. -/
theorem fills_members (b : Block) :
    Draft.Fills {} b.members
      ⟨some b.height, some b.timestamp, some b.prevHash, some b.rewardAddress,
        some b.contracts⟩ := by
  apply Draft.Fills.cons (Draft.readValue_height rfl b.height)
  apply Draft.Fills.cons (Draft.readValue_timestamp rfl b.timestamp)
  apply Draft.Fills.cons (Draft.readValue_prevHash rfl b.prevHash)
  apply Draft.Fills.cons (Draft.readValue_rewardAddress rfl b.rewardAddress)
  apply Draft.Fills.cons (Draft.readValue_contracts rfl b.contracts)
  exact .nil _

theorem json_eq (b : Block) :
    b.json = "\x7b" ++ String.intercalate "," (b.members.map Draft.memberText) ++ "\x7d" :=
  rfl

/-- The members stand between braces. -/
theorem bytes_eq (b : Block) :
    b.bytes = Json.byte '\x7b' ::
      (Json.utf8 (String.intercalate "," (b.members.map Draft.memberText)) ++
        [Json.byte '\x7d']) := by
  have hopen : Json.utf8 "\x7b" = [Json.byte '\x7b'] := rfl
  have hclose : Json.utf8 "\x7d" = [Json.byte '\x7d'] := rfl
  have hbytes : b.bytes = Json.utf8 b.json := rfl
  rw [hbytes, json_eq, Json.utf8_append, Json.utf8_append, hopen, hclose, List.append_assoc,
    List.singleton_append]

/-- A block is read back from its bytes. -/
theorem ofBytes?_bytes (b : Block) : ofBytes? b.bytes = some b := by
  have hmembers := (fills_members b).readMembers_eq []
  -- the first member opens with a quotation mark, so the object is not empty
  have hfirst : Json.expect '\x7d'
      (Json.utf8 (String.intercalate "," (b.members.map Draft.memberText)) ++
        [Json.byte '\x7d']) = none := by
    rw [members, List.map_cons, List.map_cons, String.intercalate_cons_cons, Draft.memberText,
      Json.utf8_append, Json.utf8_append, Json.utf8_append, Json.utf8_append]
    simp only [List.append_assoc, Json.utf8_string_append]
    exact Json.expect_cons_of_ne (by decide) (by decide)
  have hobject : readObject (Json.utf8 (String.intercalate "," (b.members.map Draft.memberText)) ++
      [Json.byte '\x7d']) = some (b, []) := by
    rw [← members] at hmembers
    rw [readObject, hfirst]
    dsimp only
    rw [hmembers]
    rfl
  rw [bytes_eq, ofBytes?, Json.next?_cons (by decide)]
  dsimp only
  rw [if_pos rfl, hobject]
  rfl

/-- An encoding starts with the digits of the opening brace. -/
theorem exists_toList_serialize (b : Block) : ∃ digits, b.serialize.toList = '7' :: 'b' :: digits := by
  rw [serialize, Hex.encode, String.toList_ofList, bytes_eq, List.flatMap_cons]
  exact ⟨_, rfl⟩

section

variable {b : Block}

/-- A text of the digits of a block, in either case and between blanks, denotes the block. -/
theorem deserialize_of_recased {before text after : List Char}
    (hbefore : ∀ c ∈ before, Text.isBlank c = true)
    (htext : Hex.Recased b.serialize.toList text)
    (hafter : ∀ c ∈ after, Text.isBlank c = true) :
    deserialize (String.ofList (before ++ text ++ after)) = .ok b := by
  rw [serialize, Hex.encode, String.toList_ofList] at htext
  rw [deserialize, String.toList_ofList,
    Text.trim_append_append hbefore (Hex.isBlank_of_recased htext) hafter,
    Hex.decode_of_recased htext]
  simp only [ofBytes?_bytes]

theorem deserialize_serialize_eq (b : Block) : deserialize b.serialize = .ok b := by
  have hnone : ∀ c ∈ ([] : List Char), Text.isBlank c = true := by simp
  simpa using deserialize_of_recased hnone (Hex.Recased.refl b.serialize.toList) hnone

theorem timestampOf_of_deserialize {text : String} (h : deserialize text = .ok b) :
    timestampOf text = .ok b.timestamp := by
  rw [timestampOf, h]
  rfl

end

/-- Every block survives its encoding. The encoding is a single token of lower
case hexadecimal digits. It denotes the block, and so does every text that
differs from it in blanks around it and in the case of its letters. -/
theorem deserialize_serialize (b : Block) :
    b.serialize ≠ "" ∧
    (∀ c ∈ b.serialize.toList, c ∈ "0123456789abcdef".toList) ∧
    deserialize b.serialize = .ok b ∧
    timestampOf b.serialize = .ok b.timestamp ∧
    ∀ before text after, (∀ c ∈ before, Text.isBlank c = true) →
      Hex.Recased b.serialize.toList text → (∀ c ∈ after, Text.isBlank c = true) →
      deserialize (String.ofList (before ++ text ++ after)) = .ok b ∧
      timestampOf (String.ofList (before ++ text ++ after)) = .ok b.timestamp := by
  have hsame := deserialize_serialize_eq b
  refine ⟨?_, fun _ => Hex.mem_encode, hsame, timestampOf_of_deserialize hsame, ?_⟩
  · intro hempty
    obtain ⟨digits, hdigits⟩ := exists_toList_serialize b
    simp [hempty] at hdigits
  · intro before text after hbefore htext hafter
    have hread := deserialize_of_recased hbefore htext hafter
    exact ⟨hread, timestampOf_of_deserialize hread⟩

/-- A block at the limits of its numbers, with texts that need escapes. -/
def escapedBlock : Block :=
  ⟨18446744073709551615, -9223372036854775808, some "\"\\\x00\n", none, ⟨#["é", ""]⟩⟩

/-- In upper case, after a no-break space and before an ideographic one, the
encoding still denotes the block. -/
theorem deserialize_shouted_escapedBlock :
    escapedBlock.serialize.toList.map Char.toUpper ≠ escapedBlock.serialize.toList ∧
    Text.isBlank '\u00a0' = true ∧ Text.isBlank '\u3000' = true ∧
    Hex.Recased escapedBlock.serialize.toList (escapedBlock.serialize.toList.map Char.toUpper) ∧
    deserialize (String.ofList
      (['\u00a0'] ++ escapedBlock.serialize.toList.map Char.toUpper ++ ['\u3000'])) =
        .ok escapedBlock ∧
    timestampOf (String.ofList
      (['\u00a0'] ++ escapedBlock.serialize.toList.map Char.toUpper ++ ['\u3000'])) =
        .ok (-9223372036854775808) := by
  have hupper : Hex.Recased escapedBlock.serialize.toList
      (escapedBlock.serialize.toList.map Char.toUpper) :=
    List.forall₂_map_right_iff.mpr (List.forall₂_same.mpr fun _ _ => .inr rfl)
  have hnoBreak : Text.isBlank '\u00a0' = true := by decide
  have hideographic : Text.isBlank '\u3000' = true := by decide
  obtain ⟨-, -, -, -, hdenotes⟩ := deserialize_serialize escapedBlock
  obtain ⟨hblock, htimestamp⟩ := hdenotes ['\u00a0'] _ ['\u3000']
    (List.forall_mem_singleton.mpr hnoBreak) hupper (List.forall_mem_singleton.mpr hideographic)
  refine ⟨?_, hnoBreak, hideographic, hupper, hblock, htimestamp⟩
  obtain ⟨digits, hdigits⟩ := exists_toList_serialize escapedBlock
  rw [hdigits]
  simp

end MeteredLedger.Ledger.Block
