import MeteredLedger.Json.Skip
import MeteredLedger.Ledger.Block
import MeteredLedger.Text.Split

/-!
# Reading blocks

A block is read from hexadecimal text with blanks around it. The bytes hold an
object with the members of a block in any order, or an array of exactly the five
values. In an object the two optional members may be missing, members of another
name are skipped, and no member of a block may be repeated.
-/

namespace MeteredLedger.Ledger.Block

def readHeight (bytes : List UInt8) : Option (UInt64 × List UInt8) :=
  (Json.readInteger bytes).bind fun (n, rest) =>
    if n < 0 then none else (Decimal.natToUInt64? n.toNat).map fun h => (h, rest)

def readTimestamp (bytes : List UInt8) : Option (Int64 × List UInt8) :=
  (Json.readInteger bytes).bind fun (n, rest) => (Decimal.intToInt64? n).map fun t => (t, rest)

/-- Reads the templates of a registry. -/
def readRegistry (bytes : List UInt8) : Option (Registry × List UInt8) :=
  (Json.readStrings bytes).map fun (templates, rest) => (⟨templates.toArray⟩, rest)

theorem length_le_of_readHeight {bytes rest : List UInt8} {n : UInt64}
    (h : readHeight bytes = some (n, rest)) : rest.length ≤ bytes.length := by
  simp only [readHeight, Option.bind_eq_some_iff, Prod.exists] at h
  obtain ⟨m, r, hr, h⟩ := h
  split at h
  · simp at h
  · simp only [Option.map_eq_some_iff, Prod.mk.injEq] at h
    obtain ⟨_, _, _, rfl⟩ := h
    exact Json.length_le_of_readInteger hr

theorem length_le_of_readTimestamp {bytes rest : List UInt8} {n : Int64}
    (h : readTimestamp bytes = some (n, rest)) : rest.length ≤ bytes.length := by
  simp only [readTimestamp, Option.bind_eq_some_iff, Option.map_eq_some_iff, Prod.mk.injEq,
    Prod.exists] at h
  obtain ⟨m, r, hr, _, _, _, rfl⟩ := h
  exact Json.length_le_of_readInteger hr

theorem length_le_of_readRegistry {bytes rest : List UInt8} {r : Registry}
    (h : readRegistry bytes = some (r, rest)) : rest.length ≤ bytes.length := by
  simp only [readRegistry, Option.map_eq_some_iff, Prod.mk.injEq, Prod.exists] at h
  obtain ⟨items, r', hr, _, rfl⟩ := h
  exact Nat.le_of_lt (Json.length_lt_of_readStrings hr)

/-- The members of a block that have been read. -/
structure Draft where
  height : Option UInt64 := none
  timestamp : Option Int64 := none
  prevHash : Option (Option String) := none
  rewardAddress : Option (Option String) := none
  contracts : Option Registry := none

namespace Draft

/-- The block of a draft that has the members a block needs. -/
def finish? (d : Draft) : Option Block :=
  match d.height, d.timestamp, d.contracts with
  | some height, some timestamp, some contracts =>
    some ⟨height, timestamp, d.prevHash.getD none, d.rewardAddress.getD none, contracts⟩
  | _, _, _ => none

/-- Reads a member that must not have been read before. -/
def readOnce (seen : Option α) (read : List UInt8 → Option (α × List UInt8))
    (set : α → Draft) (bytes : List UInt8) : Option (Draft × List UInt8) :=
  if seen.isSome then none else (read bytes).map fun (a, rest) => (set a, rest)

def readValue (d : Draft) (key : String) (bytes : List UInt8) : Option (Draft × List UInt8) :=
  if key = "height" then
    readOnce d.height readHeight (fun a => { d with height := some a }) bytes
  else if key = "timestamp" then
    readOnce d.timestamp readTimestamp (fun a => { d with timestamp := some a }) bytes
  else if key = "prev_hash" then
    readOnce d.prevHash Json.readOptionalString (fun a => { d with prevHash := some a }) bytes
  else if key = "reward_addr" then
    readOnce d.rewardAddress Json.readOptionalString (fun a => { d with rewardAddress := some a })
      bytes
  else if key = "contracts" then
    readOnce d.contracts readRegistry (fun a => { d with contracts := some a }) bytes
  else (Json.skipValue bytes).map fun rest => (d, rest)

/-- Reads a key, its colon and its value. -/
def readMember (d : Draft) (bytes : List UInt8) : Option (Draft × List UInt8) :=
  (Json.readString bytes).bind fun (key, rest) =>
    (Json.expect ':' rest).bind fun rest => d.readValue key rest

theorem length_le_of_readOnce {seen : Option α} {read : List UInt8 → Option (α × List UInt8)}
    {set : α → Draft} {d : Draft} {bytes rest : List UInt8}
    (shorter : ∀ a r, read bytes = some (a, r) → r.length ≤ bytes.length)
    (h : readOnce seen read set bytes = some (d, rest)) : rest.length ≤ bytes.length := by
  rw [readOnce] at h
  split at h
  · simp at h
  · simp only [Option.map_eq_some_iff, Prod.mk.injEq, Prod.exists] at h
    obtain ⟨a, r, hr, _, rfl⟩ := h
    exact shorter a r hr

theorem length_le_of_readValue {d d' : Draft} {key : String} {bytes rest : List UInt8}
    (h : d.readValue key bytes = some (d', rest)) : rest.length ≤ bytes.length := by
  rw [readValue] at h
  split at h
  · exact length_le_of_readOnce (fun _ _ => length_le_of_readHeight) h
  split at h
  · exact length_le_of_readOnce (fun _ _ => length_le_of_readTimestamp) h
  split at h
  · exact length_le_of_readOnce
      (fun _ _ hr => Nat.le_of_lt (Json.length_lt_of_readOptionalString hr)) h
  split at h
  · exact length_le_of_readOnce
      (fun _ _ hr => Nat.le_of_lt (Json.length_lt_of_readOptionalString hr)) h
  split at h
  · exact length_le_of_readOnce (fun _ _ => length_le_of_readRegistry) h
  · simp only [Option.map_eq_some_iff, Prod.mk.injEq] at h
    obtain ⟨r, hr, _, rfl⟩ := h
    exact Json.length_le_of_skipOpen hr

theorem length_lt_of_readMember {d d' : Draft} {bytes rest : List UInt8}
    (h : d.readMember bytes = some (d', rest)) : rest.length < bytes.length := by
  simp only [readMember, Option.bind_eq_some_iff, Prod.exists] at h
  obtain ⟨key, r₁, h₁, r₂, h₂, h₃⟩ := h
  have := Json.length_lt_of_readString h₁
  have := Json.length_lt_of_expect h₂
  have := length_le_of_readValue h₃
  omega

/-- Reads the members of an object from one of its keys on. -/
def readMembers (d : Draft) (bytes : List UInt8) : Option (Draft × List UInt8) :=
  match _h : d.readMember bytes with
  | none => none
  | some (d', rest) =>
    match _h' : Json.next? rest with
    | none => none
    | some (b, rest') =>
      if b = Json.byte ',' then readMembers d' rest'
      else if b = Json.byte '\x7d' then some (d', rest')
      else none
termination_by bytes.length
decreasing_by
  have := length_lt_of_readMember _h
  have := Json.length_lt_of_next? _h'
  omega

end Draft

/-- Reads the members of a block, after the opening brace. -/
def readObject (bytes : List UInt8) : Option (Block × List UInt8) :=
  match Json.expect '\x7d' bytes with
  | some rest => (Draft.finish? {}).map fun b => (b, rest)
  | none =>
    (Draft.readMembers {} bytes).bind fun (d, rest) => d.finish?.map fun b => (b, rest)

/-- Reads the five values of a block, after the opening bracket. -/
def readArray (bytes : List UInt8) : Option (Block × List UInt8) := do
  let (height, bytes) ← readHeight bytes
  let (timestamp, bytes) ← readTimestamp (← Json.expect ',' bytes)
  let (prevHash, bytes) ← Json.readOptionalString (← Json.expect ',' bytes)
  let (rewardAddress, bytes) ← Json.readOptionalString (← Json.expect ',' bytes)
  let (contracts, bytes) ← readRegistry (← Json.expect ',' bytes)
  let rest ← Json.expect ']' bytes
  return (⟨height, timestamp, prevHash, rewardAddress, contracts⟩, rest)

/-- The block whose JSON form is given by its bytes, with nothing but spaces after it. -/
def ofBytes? (bytes : List UInt8) : Option Block :=
  match Json.next? bytes with
  | none => none
  | some (b, rest) =>
    (if b = Json.byte '\x7b' then readObject rest
      else if b = Json.byte '[' then readArray rest
      else none).bind fun (block, rest) =>
        if (Json.skipSpace rest).isEmpty then some block else none

/-- Why a text does not denote a block. -/
inductive ReadError where
  | hex (e : Hex.Error)
  /-- The bytes are not the JSON form of a block. -/
  | json (bytes : List UInt8)
  deriving DecidableEq, Repr

/-- The words in which bytes are said not to be the JSON form of a block. They
are those of the JSON reader that a program is built with; no law rests on them. -/
class Wording where
  explain : List UInt8 → String

/-- One word for all of them, where there is no other explanation. -/
instance (priority := low) Wording.brief : Wording := ⟨fun _ => "json"⟩

def ReadError.message [Wording] : ReadError → String
  | hex e => e.message
  | json bytes => Wording.explain bytes

/-- The block that a text denotes. -/
def deserialize (text : String) : Except ReadError Block :=
  match Hex.decode (Text.trim text.toList) with
  | .error e => .error (.hex e)
  | .ok bytes =>
    match ofBytes? bytes with
    | some b => .ok b
    | none => .error (.json bytes)

/-- The timestamp of the block that a text denotes. -/
def timestampOf (text : String) : Except ReadError Int64 :=
  (deserialize text).map (·.timestamp)

end MeteredLedger.Ledger.Block
