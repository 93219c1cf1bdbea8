import MeteredLedger.Proofs.Text.Decimal
import MeteredLedger.Value

/-!
# Bound tokens as values

A token that is bound to a placeholder keeps its spelling: it becomes an integer
only where the integer is displayed as the token again, and text otherwise. So
the tokens that become integers are the canonical decimal forms, and different
tokens become different values.
-/

namespace MeteredLedger

namespace Decimal

section

variable {c first : Char} {cs : List Char}

theorem magnitude?_eq_none (hc : c ∈ cs) (hdigit : c.isDigit = false) : magnitude? cs = none := by
  have hall : cs.all Char.isDigit = false := List.all_eq_false.mpr ⟨c, hc, by simp [hdigit]⟩
  simp [magnitude?, hall]

/-- After the first character, which may be a sign, a number has digits only. -/
theorem signed?_eq_none (hc : c ∈ cs) (hdigit : c.isDigit = false) :
    signed? (first :: cs) = none := by
  have hrest := magnitude?_eq_none hc hdigit
  have hall := magnitude?_eq_none (List.mem_cons_of_mem first hc) hdigit
  rw [signed?.eq_def]
  split
  · next heq =>
    obtain ⟨-, rfl⟩ := List.cons.inj heq
    rw [hrest]
    rfl
  · rw [unsigned?.eq_def]
    split
    · next heq =>
      obtain ⟨-, rfl⟩ := List.cons.inj heq
      rw [hrest, Option.map_none]
    · rw [hall, Option.map_none]

end

end Decimal

namespace Value

theorem ofLiteral_cases (token : String) :
    ofLiteral token = text token ∨
      ∃ n, ofLiteral token = int n ∧ Decimal.ofInt64 n = token := by
  rw [ofLiteral]
  split
  · next n _ =>
    by_cases hn : Decimal.ofInt64 n = token
    · exact .inr ⟨n, if_pos hn, hn⟩
    · exact .inl (if_neg hn)
  · exact .inl rfl

/-- A bound token is displayed as it was spelled. -/
theorem display_ofLiteral (token : String) : (ofLiteral token).display = token := by
  rcases ofLiteral_cases token with h | ⟨n, h, hn⟩
  · rw [h, display]
  · rw [h, display, hn]

theorem ofLiteral_ne_undefined (token : String) : ofLiteral token ≠ undefined := by
  rcases ofLiteral_cases token with h | ⟨n, h, -⟩ <;> simp [h]

theorem ofLiteral_eq_int_iff {token : String} {n : Int64} :
    ofLiteral token = int n ↔ Decimal.ofInt64 n = token := by
  constructor
  · intro h
    rcases ofLiteral_cases token with htext | ⟨m, hint, hm⟩
    · simp [htext] at h
    · obtain rfl : m = n := by simpa [hint] using h
      exact hm
  · rintro rfl
    simp [ofLiteral, Decimal.readInt64?_ofInt64]

/-- A token is an integer exactly if it is the canonical decimal form of one. -/
theorem ofLiteral_eq_int_iff_isCanonical {token : String} {n : Int64} :
    ofLiteral token = int n ↔ Decimal.IsCanonical token.toList n.toInt :=
  ofLiteral_eq_int_iff.trans Decimal.isCanonical_iff.symm

theorem ofLiteral_inj {token token' : String} (h : ofLiteral token = ofLiteral token') :
    token = token' := by
  rw [← display_ofLiteral token, h, display_ofLiteral]

/-- A token with anything but digits after its first character is text. -/
theorem ofLiteral_eq_text {token : String} {first c : Char} {cs : List Char}
    (htoken : token.toList = first :: cs) (hc : c ∈ cs) (hdigit : c.isDigit = false) :
    ofLiteral token = text token := by
  rw [ofLiteral, Decimal.readInt64?, htoken, Decimal.signed?_eq_none hc hdigit, Option.bind_none]

end Value

end MeteredLedger
