import MeteredLedger.Ledger.Transaction
import MeteredLedger.Proofs.Bindings
import MeteredLedger.Proofs.Json.Unambiguous
import MeteredLedger.Proofs.Text.Hex

/-!
# What a digest identifies

A digest stands for the bytes it was taken of, as long as no other bytes with
the same digest are around. That is assumed of the digest function where it is
needed, and only about the bytes at hand. The rest is proved here: the JSON form
of a transaction determines the transaction, whatever its texts contain, and so
does its identifier then.
-/

namespace MeteredLedger

namespace Blake3

/-- No two of the inputs have the same digest. -/
def CollisionFree (inputs : List (List UInt8)) : Prop :=
  ∀ a ∈ inputs, ∀ b ∈ inputs, hash a = hash b → a = b

/-- Among inputs without a collision, the written digest determines the input. -/
theorem CollisionFree.eq_of_encode_eq {inputs : List (List UInt8)} {a b : List UInt8}
    (free : CollisionFree inputs) (ha : a ∈ inputs) (hb : b ∈ inputs)
    (h : Hex.encode (hash a) = Hex.encode (hash b)) : a = b :=
  free a ha b hb (Hex.encode_inj h)

/-- Fewer inputs have no more collisions. -/
theorem CollisionFree.mono {inputs fewer : List (List UInt8)} (free : CollisionFree inputs)
    (subset : fewer ⊆ inputs) : CollisionFree fewer :=
  fun a ha b hb => free a (subset ha) b (subset hb)

theorem CollisionFree.pair {a b : List UInt8} (h : hash a ≠ hash b) : CollisionFree [a, b] := by
  intro x hx y hy heq
  obtain rfl | rfl : x = a ∨ x = b := by simpa using hx
  · obtain rfl | rfl : y = x ∨ y = b := by simpa using hy
    · rfl
    · exact absurd heq h
  · obtain rfl | rfl : y = a ∨ y = x := by simpa using hy
    · exact absurd heq.symm h
    · rfl

end Blake3

namespace Ledger

open Json (Unambiguous of_object_cons)

theorem unambiguous_output : Unambiguous Output.json := by
  rintro ⟨address, amount⟩ ⟨address', amount'⟩ rest rest' _ _ heq
  obtain ⟨-, rfl, heq⟩ := of_object_cons Json.unambiguous_string heq
  obtain ⟨-, rfl, heq⟩ := of_object_cons Json.unambiguous_ofUInt64 heq
  exact ⟨rfl, List.append_cancel_left heq⟩

theorem opens_output : Json.Opens ']' Output.json := by
  intro o
  refine ⟨Json.byte '\x7b', _, Json.utf8_object _, by decide⟩

/-- The first member tells the two kinds of payload apart. -/
theorem unambiguous_payload : Unambiguous Payload.json := by
  intro payload payload' rest rest' _ _ heq
  cases payload with
  | deploy template =>
    cases payload' with
    | deploy template' =>
      obtain ⟨-, -, heq⟩ := of_object_cons Json.unambiguous_string heq
      obtain ⟨-, rfl, heq⟩ := of_object_cons Json.unambiguous_string heq
      exact ⟨rfl, List.append_cancel_left heq⟩
    | call args' contract' =>
      obtain ⟨-, hkind, -⟩ := of_object_cons Json.unambiguous_string heq
      exact absurd hkind (by decide)
  | call args contract =>
    cases payload' with
    | deploy template' =>
      obtain ⟨-, hkind, -⟩ := of_object_cons Json.unambiguous_string heq
      exact absurd hkind (by decide)
    | call args' contract' =>
      obtain ⟨-, -, heq⟩ := of_object_cons Json.unambiguous_string heq
      obtain ⟨-, hentries, heq⟩ :=
        of_object_cons (Json.unambiguous_object Json.unambiguous_string) heq
      obtain ⟨-, rfl, heq⟩ := of_object_cons Json.unambiguous_repr heq
      obtain rfl := Bindings.eq_of_entries_eq hentries
      exact ⟨rfl, List.append_cancel_left heq⟩

theorem unambiguous_transaction : Unambiguous Transaction.json := by
  rintro ⟨sender, outputs, fee, payload⟩ ⟨sender', outputs', fee', payload'⟩ rest rest' _ _ heq
  obtain ⟨-, rfl, heq⟩ := of_object_cons Json.unambiguous_string heq
  obtain ⟨-, rfl, heq⟩ :=
    of_object_cons (Json.unambiguous_array opens_output unambiguous_output) heq
  obtain ⟨-, rfl, heq⟩ := of_object_cons Json.unambiguous_ofUInt64 heq
  obtain ⟨-, rfl, heq⟩ := of_object_cons unambiguous_payload heq
  exact ⟨rfl, List.append_cancel_left heq⟩

/-- Identifiers identify transactions. The JSON form of a transaction determines
it, with any texts, outputs and bindings. So if the digests of two JSON forms do
not collide, their identifiers are the same exactly if the transactions are. -/
theorem Transaction.id_eq_iff_eq (t t' : Transaction) :
    (t.json = t'.json → t = t') ∧
    (Blake3.CollisionFree [Json.utf8 t.json, Json.utf8 t'.json] → (t.id = t'.id ↔ t = t')) := by
  constructor
  · intro hjson
    exact unambiguous_transaction.eq_of_utf8_eq (congrArg Json.utf8 hjson)
  · intro free
    constructor
    · intro hid
      have hbytes : Json.utf8 t.json = Json.utf8 t'.json :=
        free.eq_of_encode_eq (by simp) (by simp) hid
      exact unambiguous_transaction.eq_of_utf8_eq hbytes
    · exact congrArg Transaction.id

namespace Transaction

/-- A deployment from a plain address. -/
def plain : Transaction := ⟨"a", [], 0, .deploy ""⟩

/-- A deployment from an address that looks like the text after a plain one. -/
def quoting : Transaction := ⟨"a\",\"outputs\":[]", [], 0, .deploy ""⟩

/-- A call with two arguments, entered in the order given. -/
def calling (args : List (String × String)) : Transaction := ⟨"a", [], 0, .call (.ofList args) 3⟩

/-- The address that imitates JSON does not get its transaction the identifier of
the plain one. The order in which arguments were entered is not part of a call. -/
theorem id_of_quoting :
    Blake3.CollisionFree [Json.utf8 plain.json, Json.utf8 quoting.json] ∧
    plain.id ≠ quoting.id ∧
    (calling [("y", "2"), ("x", "\\")]).json = (calling [("x", "\\"), ("y", "2")]).json ∧
    calling [("y", "2"), ("x", "\\")] = calling [("x", "\\"), ("y", "2")] := by
  have hdigests : Blake3.hash (Json.utf8 plain.json) ≠ Blake3.hash (Json.utf8 quoting.json) := by
    decide +kernel
  have free : Blake3.CollisionFree [Json.utf8 plain.json, Json.utf8 quoting.json] :=
    .pair hdigests
  have hjson : (calling [("y", "2"), ("x", "\\")]).json =
      (calling [("x", "\\"), ("y", "2")]).json := by
    decide +kernel
  refine ⟨free, ?_, hjson, (id_eq_iff_eq _ _).1 hjson⟩
  intro hid
  exact absurd (((id_eq_iff_eq plain quoting).2 free).mp hid) (by decide)

end Transaction

end Ledger

end MeteredLedger
