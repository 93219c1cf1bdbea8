import Mathlib.Algebra.Group.Nat.Defs
import MeteredLedger.Text.Decimal

/-!
# Canonical decimal forms

The canonical decimal form of a word is read as that word. A number is written in
many ways that can be read, but in one that is canonical: `IsCanonical` describes
it by the characters alone, and numbers are written in this way and no other.
-/

namespace MeteredLedger.Decimal

theorem natToUInt64?_toNat (n : UInt64) : natToUInt64? n.toNat = some n := by
  rw [natToUInt64?, if_pos n.toNat_lt, UInt64.ofNat_toNat]

theorem intToInt64?_toInt (n : Int64) : intToInt64? n.toInt = some n := by
  have hbounds : Int64.minValue.toInt ≤ n.toInt ∧ n.toInt ≤ Int64.maxValue.toInt :=
    ⟨Int64.minValue_le_toInt n, Int64.toInt_le n⟩
  rw [intToInt64?, if_pos hbounds, Int64.ofInt_toInt]

theorem isDigit_of_mem_toDigits {c : Char} {n : Nat} (h : c ∈ Nat.toDigits 10 n) :
    c.isDigit = true :=
  Nat.isDigit_of_mem_toDigits (by decide) (by decide) h

/-- The first character of a written number is a digit. -/
theorem exists_digit_cons_toList_repr (n : Nat) :
    ∃ c cs, n.repr.toList = c :: cs ∧ c.isDigit = true := by
  rw [Nat.toList_repr]
  obtain ⟨c, cs, hcs⟩ := List.exists_cons_of_ne_nil (Nat.toDigits_ne_nil (n := n) (b := 10))
  refine ⟨c, cs, hcs, ?_⟩
  have hc : c ∈ Nat.toDigits 10 n := by
    rw [hcs]
    exact List.mem_cons_self
  exact isDigit_of_mem_toDigits hc

theorem magnitude?_repr (n : Nat) : magnitude? n.repr.toList = some n := by
  have hdigits : ∀ c ∈ Nat.toDigits 10 n, c.isDigit = true := fun _ => isDigit_of_mem_toDigits
  rw [magnitude?, Nat.toList_repr, if_pos, Nat.ofDigitChars_ten_toDigits]
  simpa [Nat.toDigits_ne_nil] using hdigits

/-- Numbers that are written alike are the same. -/
theorem eq_of_repr_eq {m n : Nat} (h : m.repr = n.repr) : m = n := by
  have hread := magnitude?_repr m
  rw [h, magnitude?_repr] at hread
  exact (Option.some.inj hread).symm

theorem not_mem_repr {c : Char} (h : c.isDigit = false) (n : Nat) : c ∉ n.repr.toList := by
  intro hc
  rw [Nat.toList_repr] at hc
  simp [isDigit_of_mem_toDigits hc] at h

/-- A written number starts with no sign. -/
theorem toList_repr_ne_cons (n : Nat) {sign : Char} (hsign : sign.isDigit = false)
    (rest : List Char) : n.repr.toList ≠ sign :: rest := by
  intro heq
  obtain ⟨c, cs, hcs, hdigit⟩ := exists_digit_cons_toList_repr n
  obtain ⟨rfl, -⟩ := List.cons.inj (hcs.symm.trans heq)
  simp [hdigit] at hsign

theorem unsigned?_repr (n : Nat) : unsigned? n.repr.toList = some n := by
  rw [unsigned?.eq_2 _ (toList_repr_ne_cons n (by decide)), magnitude?_repr]

theorem signed?_repr (n : Int) : signed? n.repr.toList = some n := by
  cases n with
  | ofNat m =>
    rw [Int.repr, signed?.eq_2 _ (toList_repr_ne_cons m (by decide)), unsigned?_repr]
    rfl
  | negSucc m =>
    have hsign : ("-" ++ (m + 1).repr).toList = '-' :: (m + 1).repr.toList := by simp
    rw [Int.repr, hsign, signed?, magnitude?_repr]
    rfl

theorem readUInt64?_ofUInt64 (n : UInt64) : readUInt64? (ofUInt64 n) = some n := by
  rw [readUInt64?, ofUInt64, unsigned?_repr, Option.bind_some, natToUInt64?_toNat]

theorem readInt64?_ofInt64 (n : Int64) : readInt64? (ofInt64 n) = some n := by
  rw [readInt64?, ofInt64, signed?_repr, Option.bind_some, intToInt64?_toInt]

/-! ## Canonical forms -/

/-- The number that a run of digits denotes: each digit counts for the power of
ten that belongs to its place. -/
def denoted : List Char → Nat
  | [] => 0
  | c :: cs => (c.toNat - '0'.toNat) * 10 ^ cs.length + denoted cs

/-- A run of digits without a leading zero, unless it is a zero alone. -/
structure IsNumeral (cs : List Char) : Prop where
  nonempty : cs ≠ []
  digits : ∀ c ∈ cs, c.isDigit = true
  unpadded : cs.head? = some '0' → cs = ['0']

/-- The characters are the canonical decimal form of an integer: a numeral, with a
minus sign before it if the integer is negative. There is no plus sign, no leading
zero and no negative zero. -/
inductive IsCanonical : List Char → Int → Prop where
  | nonnegative {cs : List Char} : IsNumeral cs → IsCanonical cs (denoted cs)
  | negative {cs : List Char} : IsNumeral cs → denoted cs ≠ 0 →
      IsCanonical ('-' :: cs) (-(denoted cs : Int))

theorem IsCanonical.ne_nil {cs : List Char} {n : Int} (h : IsCanonical cs n) : cs ≠ [] := by
  cases h with
  | nonnegative numeral => exact numeral.nonempty
  | negative _ _ => simp

/-- A canonical form has no characters but digits and a minus sign. -/
theorem IsCanonical.isDigit_or_eq {cs : List Char} {n : Int} {c : Char} (h : IsCanonical cs n)
    (hc : c ∈ cs) : c.isDigit = true ∨ c = '-' := by
  cases h with
  | nonnegative numeral => exact .inl (numeral.digits c hc)
  | negative numeral _ =>
    rcases List.mem_cons.mp hc with hminus | hdigit
    · exact .inr hminus
    · exact .inl (numeral.digits c hdigit)

theorem ofDigitChars_eq_denoted (cs : List Char) : Nat.ofDigitChars 10 cs 0 = denoted cs := by
  induction cs with
  | nil => rfl
  | cons c cs ih =>
    rw [Nat.ofDigitChars_cons, Nat.ofDigitChars_eq_ofDigitChars_zero, ih, denoted, Nat.mul_zero,
      Nat.zero_add, Nat.mul_comm]

theorem denoted_toDigits (n : Nat) : denoted (Nat.toDigits 10 n) = n := by
  rw [← ofDigitChars_eq_denoted, Nat.ofDigitChars_ten_toDigits]

/-- A number other than zero is written without a leading zero. -/
theorem head?_toDigits_ne {n : Nat} (h : 0 < n) : (Nat.toDigits 10 n).head? ≠ some '0' := by
  induction n using Nat.strongRecOn with
  | ind n ih =>
    by_cases hn : n < 10
    · rw [Nat.toDigits_of_lt_base hn]
      simpa using Nat.ne_of_gt h
    · have hquotient : 0 < n / 10 := by omega
      obtain ⟨d, ds, hds⟩ :=
        List.exists_cons_of_ne_nil (Nat.toDigits_ne_nil (n := n / 10) (b := 10))
      have hhead := ih (n / 10) (by omega) hquotient
      rw [Nat.toDigits_of_base_le (by decide) (Nat.le_of_not_lt hn), hds]
      rw [hds] at hhead
      simpa using hhead

theorem isNumeral_toDigits (n : Nat) : IsNumeral (Nat.toDigits 10 n) := by
  refine ⟨Nat.toDigits_ne_nil, fun _ => isDigit_of_mem_toDigits, ?_⟩
  intro hhead
  obtain rfl : n = 0 := Nat.eq_zero_of_not_pos fun hpos => head?_toDigits_ne hpos hhead
  rfl

theorem toDigits_of_isDigit {c : Char} (h : c.isDigit = true) :
    c.toNat - 48 < 10 ∧ Nat.toDigits 10 (c.toNat - 48) = [c] := by
  obtain ⟨hlow, hhigh⟩ : 48 ≤ c.toNat ∧ c.toNat ≤ 57 := Char.isDigit_iff_toNat.mp h
  have hlt : c.toNat - 48 < 10 := by omega
  refine ⟨hlt, ?_⟩
  rw [Nat.toDigits_of_lt_base hlt, List.cons.injEq, ← Char.toNat_inj,
    Nat.toNat_digitChar_of_lt_ten hlt]
  exact ⟨by omega, rfl⟩

/-- Digits that follow those of a positive number are the digits of a larger one. -/
theorem toDigits_append_digits {cs : List Char} (hdigits : ∀ c ∈ cs, c.isDigit = true) {n : Nat}
    (hpos : 0 < n) : Nat.toDigits 10 n ++ cs = Nat.toDigits 10 (Nat.ofDigitChars 10 cs n) := by
  induction cs generalizing n with
  | nil => rw [List.append_nil, Nat.ofDigitChars_nil]
  | cons c cs ih =>
    rw [List.forall_mem_cons] at hdigits
    obtain ⟨hlt, hdigit⟩ := toDigits_of_isDigit hdigits.1
    calc Nat.toDigits 10 n ++ c :: cs
      _ = (Nat.toDigits 10 n ++ Nat.toDigits 10 (c.toNat - 48)) ++ cs := by rw [hdigit]; simp
      _ = Nat.toDigits 10 (10 * n + (c.toNat - 48)) ++ cs := by
        rw [Nat.toDigits_append_toDigits (by decide) hpos hlt]
      _ = Nat.toDigits 10 (Nat.ofDigitChars 10 cs (10 * n + (c.toNat - 48))) :=
        ih hdigits.2 (by omega)
      _ = Nat.toDigits 10 (Nat.ofDigitChars 10 (c :: cs) n) := by rw [Nat.ofDigitChars_cons]; rfl

/-- A numeral is how the number that it denotes is written. -/
theorem IsNumeral.toDigits_denoted {cs : List Char} (h : IsNumeral cs) :
    Nat.toDigits 10 (denoted cs) = cs := by
  obtain ⟨c, rest, rfl⟩ := List.exists_cons_of_ne_nil h.nonempty
  obtain ⟨hfirst, hrest⟩ := List.forall_mem_cons.mp h.digits
  obtain ⟨-, hdigit⟩ := toDigits_of_isDigit hfirst
  rw [← ofDigitChars_eq_denoted, Nat.ofDigitChars_cons]
  by_cases hzero : c = '0'
  · subst hzero
    obtain rfl : rest = [] := by simpa using h.unpadded rfl
    rfl
  · have hpos : 0 < c.toNat - 48 := by
      have hne : c.toNat ≠ '0'.toNat := fun heq => hzero (Char.toNat_inj.mp heq)
      have hlow := (Char.isDigit_iff_toNat.mp hfirst).1
      simp only [Char.reduceToNat] at hne hlow
      omega
    calc Nat.toDigits 10 (Nat.ofDigitChars 10 rest (10 * 0 + (c.toNat - 48)))
      _ = Nat.toDigits 10 (c.toNat - 48) ++ rest := by
        rw [Nat.mul_zero, Nat.zero_add, toDigits_append_digits hrest hpos]
      _ = c :: rest := by rw [hdigit]; rfl

/-- An integer has one canonical form, and is written in it. -/
theorem isCanonical_iff {text : String} {n : Int} :
    IsCanonical text.toList n ↔ n.repr = text := by
  constructor
  · generalize hcs : text.toList = cs
    intro h
    rw [← String.toList_inj, hcs]
    cases h with
    | nonnegative numeral =>
      change (denoted cs).repr.toList = cs
      rw [Nat.toList_repr, numeral.toDigits_denoted]
    | @negative cs numeral hne =>
      obtain ⟨m, hm⟩ := Nat.exists_eq_succ_of_ne_zero hne
      have hdigits := numeral.toDigits_denoted
      rw [hm] at hdigits ⊢
      change ("-" ++ (m + 1).repr).toList = '-' :: cs
      simpa using hdigits
  · rintro rfl
    cases n with
    | ofNat m =>
      have canonical := IsCanonical.nonnegative (isNumeral_toDigits m)
      rw [denoted_toDigits, ← Nat.toList_repr] at canonical
      exact canonical
    | negSucc m =>
      have hne : denoted (Nat.toDigits 10 (m + 1)) ≠ 0 := by simp [denoted_toDigits]
      have canonical := IsCanonical.negative (isNumeral_toDigits (m + 1)) hne
      rw [denoted_toDigits, ← Nat.toList_repr] at canonical
      have hsign : (Int.negSucc m).repr.toList = '-' :: (m + 1).repr.toList := by simp [Int.repr]
      rw [hsign]
      exact canonical

end MeteredLedger.Decimal
