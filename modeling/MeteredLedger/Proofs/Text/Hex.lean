import Mathlib.Data.List.Forall2
import MeteredLedger.Text.Hex
import MeteredLedger.Text.Split

/-!
# Reading back hexadecimal text

Bytes are written as pairs of lower-case digits. Whoever reads them may find
letters in upper case among them: a text that spells the same digits, in
whichever case, denotes the same bytes. No other text denotes them, so the digits
of a byte can be found in every text that denotes it.
-/

namespace MeteredLedger.Hex

/-- The same text, some of its letters in upper case. -/
def Recased (digits text : List Char) : Prop :=
  List.Forall₂ (fun c d => d = c ∨ d = c.toUpper) digits text

theorem Recased.refl (digits : List Char) : Recased digits digits :=
  List.forall₂_same.mpr fun _ _ => .inl rfl

/-- The values of the digits of a sequence of bytes. -/
def nibbles (bytes : List UInt8) : List Nat :=
  bytes.flatMap fun b => [b.toNat / 16, b.toNat % 16]

section

variable {bytes : List UInt8} {text : List Char} {n : Nat} {c : Char}

theorem nibbles_lt : ∀ n ∈ nibbles bytes, n < 16 := by
  intro n hn
  obtain ⟨b, -, hn⟩ := List.mem_flatMap.mp hn
  have hb := b.toNat_lt
  simp only [List.mem_cons, List.not_mem_nil, or_false] at hn
  omega

theorem flatMap_pair (bytes : List UInt8) :
    bytes.flatMap pair = (nibbles bytes).map Nat.digitChar := by
  rw [nibbles, List.map_flatMap]
  rfl

/-- The digits that are written are the ten decimal ones and six letters. -/
theorem digitChar_mem (h : n < 16) : Nat.digitChar n ∈ "0123456789abcdef".toList := by
  revert n
  decide

theorem digit?_digitChar (h : n < 16) : digit? (Nat.digitChar n) = some n := by
  revert n
  decide

theorem digit?_toUpper_digitChar (h : n < 16) : digit? (Nat.digitChar n).toUpper = some n := by
  revert n
  decide

theorem toNat_cases_of_digit? (h : digit? c = some n) :
    48 ≤ c.toNat ∧ c.toNat ≤ 57 ∨ 97 ≤ c.toNat ∧ c.toNat ≤ 102 ∨
      65 ≤ c.toNat ∧ c.toNat ≤ 70 := by
  rw [digit?] at h
  split at h
  · next hc => exact .inl hc
  split at h
  · next hc => exact .inr (.inl hc)
  split at h
  · next hc => exact .inr (.inr hc)
  · simp at h

theorem utf8Size_of_digit? (h : digit? c = some n) : c.utf8Size = 1 := by
  have hcases := toNat_cases_of_digit? h
  have hsmall : c.toNat ≤ 127 := by omega
  exact Char.utf8Size_eq_one_iff.mpr hsmall

theorem isBlank_of_digit? (h : digit? c = some n) : Text.isBlank c = false := by
  have hcases := toNat_cases_of_digit? h
  simp only [Text.isBlank, Text.blankRanges, List.any_cons, List.any_nil, Bool.or_false,
    Bool.or_eq_false_iff, Bool.and_eq_false_iff, decide_eq_false_iff_not]
  omega

/-- A text of the same digits has the same values, digit by digit. -/
theorem Recased.forall₂_digit? (h : Recased (bytes.flatMap pair) text) :
    List.Forall₂ (fun n d => digit? d = some n) (nibbles bytes) text := by
  rw [flatMap_pair, Recased, List.forall₂_map_left_iff] at h
  refine ((List.forall₂_and_left _ _).mpr ⟨nibbles_lt, h⟩).imp ?_
  rintro n d ⟨hn, rfl | rfl⟩
  · exact digit?_digitChar hn
  · exact digit?_toUpper_digitChar hn

theorem joinPairs_nibbles (done bytes : List UInt8) :
    joinPairs done (nibbles bytes) = done.reverse ++ bytes := by
  induction bytes generalizing done with
  | nil => simp [nibbles, joinPairs]
  | cons b bytes ih =>
    have hb : UInt8.ofNat (16 * (b.toNat / 16) + b.toNat % 16) = b := by
      rw [Nat.div_add_mod, UInt8.ofNat_toNat]
    have hcons : nibbles (b :: bytes) = b.toNat / 16 :: b.toNat % 16 :: nibbles bytes := rfl
    rw [hcons, joinPairs, hb, ih]
    simp

section

variable {values : List Nat} (h : List.Forall₂ (fun n d => digit? d = some n) values text)

include h

theorem filterMap_digit? : text.filterMap digit? = values := by
  induction h with
  | nil => rfl
  | cons hd _ ih => rw [List.filterMap_cons_some hd, ih]

theorem forall_isSome_digit? : ∀ d ∈ text, (digit? d).isSome := by
  induction h with
  | nil => simp
  | cons hd _ ih => exact List.forall_mem_cons.mpr ⟨by simp [hd], ih⟩

/-- Each digit takes one byte. -/
theorem utf8ByteSize_ofList : (String.ofList text).utf8ByteSize = values.length := by
  induction h with
  | nil => rfl
  | cons hd _ ih =>
    rw [List.length_cons, ← ih, String.ofList_cons, String.utf8ByteSize_append,
      String.utf8ByteSize_singleton, utf8Size_of_digit? hd, Nat.add_comm]

end

/-- Digits of either case denote the bytes they were written for. -/
theorem decode_of_recased (h : Recased (bytes.flatMap pair) text) : decode text = .ok bytes := by
  have hdigits := h.forall₂_digit?
  have hsize : (String.ofList text).utf8ByteSize = 2 * bytes.length := by
    rw [utf8ByteSize_ofList hdigits, nibbles]
    simp [List.length_flatMap, Nat.mul_comm]
  have hfind : text.findIdx? (fun c => (digit? c).isNone) = none := by
    rw [List.findIdx?_eq_none_iff]
    intro d hd
    simpa using forall_isSome_digit? hdigits d hd
  rw [decode, if_neg (by omega), hfind, filterMap_digit? hdigits, joinPairs_nibbles]
  rfl

/-- Different bytes have different digits. -/
theorem encode_inj {bytes' : List UInt8} (h : encode bytes = encode bytes') : bytes = bytes' := by
  have hdigits : bytes.flatMap pair = bytes'.flatMap pair := String.ofList_injective h
  have hdecode := decode_of_recased (Recased.refl (bytes.flatMap pair))
  rw [hdigits, decode_of_recased (Recased.refl _)] at hdecode
  exact (Except.ok.inj hdecode).symm

/-- There is no blank among digits. -/
theorem isBlank_of_recased (h : Recased (bytes.flatMap pair) text) :
    ∀ c ∈ text, Text.isBlank c = false := by
  intro c hc
  obtain ⟨n, hn⟩ := Option.isSome_iff_exists.mp (forall_isSome_digit? h.forall₂_digit? c hc)
  exact isBlank_of_digit? hn

theorem isBlank_of_mem_encode (h : c ∈ (encode bytes).toList) : Text.isBlank c = false := by
  rw [encode, String.toList_ofList] at h
  exact isBlank_of_recased (Recased.refl _) c h

theorem mem_encode (h : c ∈ (encode bytes).toList) : c ∈ "0123456789abcdef".toList := by
  rw [encode, String.toList_ofList, flatMap_pair] at h
  obtain ⟨n, hn, rfl⟩ := List.mem_map.mp h
  exact digitChar_mem (nibbles_lt n hn)

/-! ## Texts that denote bytes -/

/-- The ten smallest digits are decimal ones, and the others are letters. -/
theorem digit?_cases (h : digit? c = some n) :
    c.isDigit = true ∧ n < 10 ∨ c.isDigit = false ∧ 10 ≤ n ∧ n < 16 := by
  have hdecimal : c.isDigit = decide ('0' ≤ c ∧ c ≤ '9') := by
    rw [Char.isDigit, Bool.decide_and]
    rfl
  rw [hdecimal, decide_eq_true_iff, decide_eq_false_iff_not]
  rw [digit?] at h
  split at h
  · next hc =>
    have hle : c.toNat ≤ 57 := hc.2
    obtain rfl : c.toNat - 48 = n := by simpa using h
    exact .inl ⟨hc, by omega⟩
  next hc =>
  split at h
  · next hletter =>
    have hle : c.toNat ≤ 102 := hletter.2
    obtain rfl : c.toNat - 97 + 10 = n := by simpa using h
    exact .inr ⟨hc, by omega⟩
  split at h
  · next hletter =>
    have hle : c.toNat ≤ 70 := hletter.2
    obtain rfl : c.toNat - 65 + 10 = n := by simpa using h
    exact .inr ⟨hc, by omega⟩
  · simp at h

theorem lt_of_digit? (h : digit? c = some n) : n < 16 := by
  rcases digit?_cases h with ⟨-, hn⟩ | ⟨-, -, hn⟩ <;> omega

theorem nibbles_cons (b : UInt8) (bytes : List UInt8) :
    nibbles (b :: bytes) = b.toNat / 16 :: b.toNat % 16 :: nibbles bytes :=
  rfl

theorem nibbles_append (bytes bytes' : List UInt8) :
    nibbles (bytes ++ bytes') = nibbles bytes ++ nibbles bytes' :=
  List.flatMap_append

/-- Bytes that are put together from pairs of digits have these digits. -/
theorem nibbles_joinPairs {done : List UInt8} {values : List Nat} (small : ∀ n ∈ values, n < 16)
    (paired : values.length % 2 = 0) :
    nibbles (joinPairs done values) = nibbles done.reverse ++ values := by
  fun_induction joinPairs done values with
  | case1 done high low rest ih =>
    rw [List.forall_mem_cons, List.forall_mem_cons] at small
    simp only [List.length_cons] at paired
    obtain ⟨hhigh, hlow, hrest⟩ := small
    have hbyte : (UInt8.ofNat (16 * high + low)).toNat = 16 * high + low := by
      rw [UInt8.toNat_ofNat']
      omega
    have hpair : nibbles [UInt8.ofNat (16 * high + low)] = [high, low] := by
      have hdiv : (16 * high + low) / 16 = high := by omega
      have hmod : (16 * high + low) % 16 = low := by omega
      rw [nibbles_cons, hbyte, hdiv, hmod]
      rfl
    rw [ih hrest (by omega), List.reverse_cons, nibbles_append, hpair, List.append_assoc]
    rfl
  | case2 values done short =>
    obtain rfl : values = [] := by
      match values with
      | [] => rfl
      | [_] => simp at paired
      | high :: low :: rest => exact absurd rfl (short high low rest)
    rw [List.append_nil]

/-- A text of digits has the values of its digits. -/
theorem forall₂_filterMap_digit? (h : ∀ c ∈ text, (digit? c).isSome) :
    List.Forall₂ (fun n d => digit? d = some n) (text.filterMap digit?) text := by
  induction text with
  | nil => exact .nil
  | cons c text ih =>
    rw [List.forall_mem_cons] at h
    obtain ⟨n, hn⟩ := Option.isSome_iff_exists.mp h.1
    rw [List.filterMap_cons_some hn]
    exact .cons hn (ih h.2)

/-- A text that denotes bytes consists of their digits, in either case. -/
theorem forall₂_digit?_of_decode (h : decode text = .ok bytes) :
    List.Forall₂ (fun n d => digit? d = some n) (nibbles bytes) text := by
  rw [decode] at h
  split at h
  · simp at h
  next hparity =>
  split at h
  · simp at h
  next hfind =>
  have hdigits : ∀ c ∈ text, (digit? c).isSome := by
    intro c hc
    simpa using List.findIdx?_eq_none_iff.mp hfind c hc
  have hvalues := forall₂_filterMap_digit? hdigits
  have hsmall : ∀ n ∈ text.filterMap digit?, n < 16 := by
    intro n hn
    obtain ⟨c, -, hc⟩ := List.mem_filterMap.mp hn
    exact lt_of_digit? hc
  have hpaired : (text.filterMap digit?).length % 2 = 0 := by
    rw [← utf8ByteSize_ofList hvalues]
    omega
  obtain rfl : joinPairs [] (text.filterMap digit?) = bytes := by simpa using h
  rw [nibbles_joinPairs hsmall hpaired]
  exact hvalues

/-- The second digit of every byte stands after the first character of the text. -/
theorem exists_low_digit {b : UInt8}
    (h : List.Forall₂ (fun n d => digit? d = some n) (nibbles bytes) text) (hb : b ∈ bytes) :
    ∃ first rest c, text = first :: rest ∧ c ∈ rest ∧ digit? c = some (b.toNat % 16) := by
  induction bytes generalizing text with
  | nil => exact absurd hb List.not_mem_nil
  | cons b' bytes ih =>
    rw [nibbles_cons] at h
    cases h with
    | @cons _ high _ _ _ h =>
      cases h with
      | @cons _ low _ rest hlow hrest =>
        refine ⟨high, low :: rest, ?_⟩
        rcases List.mem_cons.mp hb with rfl | hb
        · exact ⟨low, rfl, List.mem_cons_self, hlow⟩
        · obtain ⟨first, rest', c, rfl, hc, hdigit⟩ := ih hrest hb
          exact ⟨c, rfl, List.mem_cons_of_mem _ (List.mem_cons_of_mem _ hc), hdigit⟩

end

end MeteredLedger.Hex
