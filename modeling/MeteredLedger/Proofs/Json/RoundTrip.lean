import Mathlib.Data.List.Basic
import MeteredLedger.Json.Reader
import MeteredLedger.Json.Writer
import MeteredLedger.Proofs.Text.Decimal

/-!
# Reading back what was written

Each reader gives back what its writer was given and leaves what follows. A
string ends at its quotation mark and an array at its bracket, so anything may
follow them; a number goes on for as long as there are digits, so what follows
it must not start with one.

Texts are read as bytes. A character outside ASCII takes several, none of which
means anything to the reader of a string, so it passes them on one by one.
-/

namespace MeteredLedger.Json

open Decimal

/-- The bytes of a text. -/
def utf8 (s : String) : List UInt8 :=
  s.toUTF8.data.toList

theorem utf8_ofList (cs : List Char) :
    utf8 (String.ofList cs) = cs.flatMap String.utf8EncodeChar := by
  simp [utf8, List.utf8Encode]

theorem utf8_eq_flatMap (s : String) : utf8 s = s.toList.flatMap String.utf8EncodeChar := by
  rw [← utf8_ofList, String.ofList_toList]

@[simp] theorem utf8_append (s t : String) : utf8 (s ++ t) = utf8 s ++ utf8 t := by
  simp [utf8_eq_flatMap]

theorem fromUTF8?_utf8 (s : String) : String.fromUTF8? (utf8 s).toByteArray = some s := by
  have hbytes : (utf8 s).toByteArray = s.toByteArray := by
    rw [utf8_eq_flatMap, ← String.utf8Encode_toList]
    rfl
  rw [hbytes, String.fromUTF8?, dif_pos s.isValidUTF8]
  rfl

section

variable {c : Char}

theorem toNat_byte (h : c.toNat < 128) : (byte c).toNat = c.toNat :=
  UInt8.toNat_ofNat_of_lt' (Nat.lt_trans h (by decide))

theorem byte_inj {d : Char} (hc : c.toNat < 128) (hd : d.toNat < 128) (h : byte c = byte d) :
    c = d := by
  have hnat := congrArg UInt8.toNat h
  rw [toNat_byte hc, toNat_byte hd] at hnat
  exact Char.toNat_inj.mp hnat

/-- A character of ASCII is its own byte. -/
theorem utf8EncodeChar_of_lt (h : c.toNat < 128) : String.utf8EncodeChar c = [byte c] := by
  have hle : c.val.toNat ≤ 127 := Nat.le_of_lt_succ h
  simp only [String.utf8EncodeChar, if_pos hle]
  rfl

/-- The bytes of any other character lie outside ASCII. -/
theorem le_of_mem_utf8EncodeChar (h : 128 ≤ c.toNat) {b : UInt8}
    (hb : b ∈ String.utf8EncodeChar c) : 128 ≤ b.toNat := by
  have hgt : ¬ c.val.toNat ≤ 127 := Nat.not_le_of_gt h
  have high {n : Nat} (hlow : 128 ≤ n) (hhigh : n < 256) : 128 ≤ (UInt8.ofNat n).toNat := by
    rwa [UInt8.toNat_ofNat_of_lt' hhigh]
  simp only [String.utf8EncodeChar, if_neg hgt] at hb
  split at hb
  · simp only [List.mem_cons, List.not_mem_nil, or_false] at hb
    rcases hb with rfl | rfl <;> exact high (by omega) (by omega)
  split at hb
  · simp only [List.mem_cons, List.not_mem_nil, or_false] at hb
    rcases hb with rfl | rfl | rfl <;> exact high (by omega) (by omega)
  · simp only [List.mem_cons, List.not_mem_nil, or_false] at hb
    rcases hb with rfl | rfl | rfl | rfl <;> exact high (by omega) (by omega)

end

/-! ## Tokens -/

section

variable {c : Char} {b : UInt8} {bytes rest done : List UInt8}

theorem next?_cons (h : isSpace b = false) : next? (b :: rest) = some (b, rest) := by
  rw [next?, skipSpace, List.dropWhile_cons_of_neg (by simp [h])]

theorem expect_cons (h : isSpace (byte c) = false) : expect c (byte c :: rest) = some rest := by
  simp [expect, next?_cons h]

theorem expect_cons_of_ne (h : isSpace b = false) (hne : b ≠ byte c) :
    expect c (b :: rest) = none := by
  simp [expect, next?_cons h, hne]

/-! ## Strings -/

/-- Bytes that are neither controls, quotation marks nor backslashes are passed on. -/
theorem stringBytes?_append {bs : List UInt8}
    (h : ∀ b ∈ bs, 32 ≤ b.toNat ∧ b ≠ byte '"' ∧ b ≠ byte '\\') :
    stringBytes? done (bs ++ rest) = stringBytes? (bs.reverse ++ done) rest := by
  induction bs generalizing done with
  | nil => rfl
  | cons b bs ih =>
    rw [List.forall_mem_cons] at h
    obtain ⟨⟨hlow, hquote, hslash⟩, hbs⟩ := h
    have hplain : ¬ b < 0x20 := by
      rw [UInt8.lt_iff_toNat_lt]
      exact Nat.not_lt.mpr hlow
    rw [List.cons_append, stringBytes?, if_neg hquote, if_neg hslash, if_neg hplain, ih hbs]
    simp

/-- An escape stands for its character. -/
theorem stringBytes?_escape? (h : escape? bytes = some (c, rest)) :
    stringBytes? done (byte '\\' :: bytes) =
      stringBytes? ((String.utf8EncodeChar c).reverse ++ done) rest := by
  rw [stringBytes?, if_neg (by decide), if_pos rfl]
  split
  · next c' rest' h' =>
    obtain ⟨rfl, rfl⟩ : c = c' ∧ rest = rest' := by simpa [h] using h'
    rfl
  · next h' => simp [h] at h'

theorem hexDigit?_digitChar {n : Nat} (h : n < 16) :
    hexDigit? (byte (Nat.digitChar n)) = some n := by
  revert n
  decide

/-- A control without a short escape is read from its number. -/
theorem escape?_number (h : c.toNat < 32) :
    escape? (byte 'u' :: byte '0' :: byte '0' :: byte (Nat.digitChar (c.toNat / 16)) ::
      byte (Nat.digitChar (c.toNat % 16)) :: rest) = some (c, rest) := by
  have hzero : hexDigit? (byte '0') = some 0 := by decide
  have hnumber : ((0 * 16 + 0) * 16 + c.toNat / 16) * 16 + c.toNat % 16 = c.toNat := by omega
  have hhigh := hexDigit?_digitChar (n := c.toNat / 16) (by omega)
  have hlow := hexDigit?_digitChar (n := c.toNat % 16) (by omega)
  simp only [escape?, ↓reduceIte, fourDigits?, hzero, hhigh, hlow, hnumber, Char.ofNat_toNat]
  rw [if_neg (by omega), if_neg (by omega)]

/-- The bytes of a character that stands for itself are passed on. -/
theorem plain_of_mem_utf8EncodeChar (hcontrol : 32 ≤ c.toNat) (hquote : c ≠ '"')
    (hslash : c ≠ '\\') :
    ∀ b ∈ String.utf8EncodeChar c, 32 ≤ b.toNat ∧ b ≠ byte '"' ∧ b ≠ byte '\\' := by
  intro b hb
  by_cases hascii : c.toNat < 128
  · rw [utf8EncodeChar_of_lt hascii, List.mem_singleton] at hb
    subst hb
    refine ⟨?_, ?_, ?_⟩
    · rwa [toNat_byte hascii]
    · exact fun h => hquote (byte_inj hascii (by decide) h)
    · exact fun h => hslash (byte_inj hascii (by decide) h)
  · have hhigh := le_of_mem_utf8EncodeChar (Nat.le_of_not_lt hascii) hb
    refine ⟨Nat.le_trans (by decide) hhigh, ?_, ?_⟩
    · rintro rfl
      exact absurd hhigh (by decide)
    · rintro rfl
      exact absurd hhigh (by decide)

/-- A character is read back from what stands for it inside a string. -/
theorem stringBytes?_escape (c : Char) :
    stringBytes? done ((escape c).flatMap String.utf8EncodeChar ++ rest) =
      stringBytes? ((String.utf8EncodeChar c).reverse ++ done) rest := by
  by_cases hshort : c ∈ ['"', '\\', '\x08', '\x0c', '\n', '\r', '\t']
  · -- a backslash and one more character
    simp only [List.mem_cons, List.not_mem_nil, or_false] at hshort
    rcases hshort with rfl | rfl | rfl | rfl | rfl | rfl | rfl <;> exact stringBytes?_escape? rfl
  · simp only [List.mem_cons, List.not_mem_nil, or_false, not_or] at hshort
    obtain ⟨hquote, hslash, hb, hf, hn, hr, ht⟩ := hshort
    simp only [escape, hquote, hslash, hb, hf, hn, hr, ht, ↓reduceIte]
    split
    · next hcontrol =>
      have hdigit {n : Nat} (h : n < 16) :
          String.utf8EncodeChar (Nat.digitChar n) = [byte (Nat.digitChar n)] := by
        apply utf8EncodeChar_of_lt
        revert n
        decide
      simp only [List.flatMap_cons, List.flatMap_nil, hdigit (show c.toNat / 16 < 16 by omega),
        hdigit (show c.toNat % 16 < 16 by omega)]
      exact stringBytes?_escape? (escape?_number hcontrol)
    · next hcontrol =>
      rw [List.flatMap_singleton]
      exact stringBytes?_append (plain_of_mem_utf8EncodeChar (Nat.le_of_not_lt hcontrol) hquote hslash)

/-- The bytes between the quotation marks of a string. -/
def quotedBytes (cs : List Char) : List UInt8 :=
  (cs.flatMap escape).flatMap String.utf8EncodeChar

theorem stringBytes?_quotedBytes (cs : List Char) :
    stringBytes? done (quotedBytes cs ++ byte '"' :: rest) =
      some (done.reverse ++ cs.flatMap String.utf8EncodeChar, rest) := by
  induction cs generalizing done with
  | nil => simp [quotedBytes, stringBytes?]
  | cons c cs ih =>
    rw [quotedBytes, List.flatMap_cons, List.flatMap_append, List.append_assoc,
      stringBytes?_escape, ← quotedBytes, ih]
    simp

theorem utf8_string_append (s : String) (rest : List UInt8) :
    utf8 (string s) ++ rest = byte '"' :: (quotedBytes s.toList ++ byte '"' :: rest) := by
  have hbytes : utf8 (string s) = byte '"' :: (quotedBytes s.toList ++ [byte '"']) := by
    rw [string, utf8_ofList, List.flatMap_append]
    rfl
  rw [hbytes, List.cons_append, List.append_assoc, List.singleton_append]

/-- A string is read back, whatever follows it. -/
theorem readString_string (s : String) (rest : List UInt8) :
    readString (utf8 (string s) ++ rest) = some (s, rest) := by
  rw [utf8_string_append, readString, expect_cons (by decide)]
  simp only [stringBytes?_quotedBytes, List.reverse_nil, List.nil_append, ← utf8_eq_flatMap,
    fromUTF8?_utf8, Option.map_some]

/-- A string or null is read back, whatever follows it. -/
theorem readOptionalString_optionalString (s : Option String) (rest : List UInt8) :
    readOptionalString (utf8 (optionalString s) ++ rest) = some (s, rest) := by
  cases s with
  | none => rfl
  | some s =>
    have hstart : next? (utf8 (string s) ++ rest) =
        some (byte '"', quotedBytes s.toList ++ byte '"' :: rest) := by
      rw [utf8_string_append]
      exact next?_cons (by decide)
    have hnull : byte '"' ≠ byte 'n' := by decide
    simp only [optionalString, readOptionalString, hstart, if_neg hnull, readString_string,
      Option.map_some]

/-! ## Arrays of strings -/

/-- What comes after an item decides how the array goes on. -/
theorem readItems_eq {s : String} {items : List String}
    (hs : readString bytes = some (s, b :: rest)) (hb : isSpace b = false) :
    readItems items bytes =
      if b = byte ',' then readItems (s :: items) rest
      else if b = byte ']' then some ((s :: items).reverse, rest)
      else none := by
  rw [readItems]
  split
  · next h => simp [hs] at h
  · next s' rest' h =>
    obtain ⟨rfl, rfl⟩ : s = s' ∧ b :: rest = rest' := by simpa [hs] using h
    split
    · next h' => simp [next?_cons hb] at h'
    · next b' rest'' h' =>
      obtain ⟨rfl, rfl⟩ : b = b' ∧ rest = rest'' := by simpa [next?_cons hb] using h'
      rfl

theorem readItems_intercalate (done : List String) (s : String) (items : List String) :
    readItems done (utf8 (String.intercalate "," ((s :: items).map string)) ++ byte ']' :: rest) =
      some (done.reverse ++ s :: items, rest) := by
  induction items generalizing done s with
  | nil =>
    have hne : byte ']' ≠ byte ',' := by decide
    rw [List.map_cons, List.map_nil, String.intercalate_singleton,
      readItems_eq (readString_string s _) (by decide), if_neg hne, if_pos rfl]
    simp
  | cons t items ih =>
    have hcomma : utf8 "," = [byte ','] := rfl
    rw [List.map_cons, List.map_cons, String.intercalate_cons_cons, ← List.map_cons, utf8_append,
      utf8_append, hcomma, List.append_assoc, List.append_assoc, List.singleton_append,
      readItems_eq (readString_string s _) (by decide), if_pos rfl, ih]
    simp

/-- An array of strings is read back, whatever follows it. -/
theorem readStrings_array (items : List String) (rest : List UInt8) :
    readStrings (utf8 (array (items.map string)) ++ rest) = some (items, rest) := by
  have hopen : utf8 "[" = [byte '['] := rfl
  have hclose : utf8 "]" = [byte ']'] := rfl
  rw [array, utf8_append, utf8_append, hopen, hclose, List.append_assoc, List.append_assoc,
    List.singleton_append, List.singleton_append, readStrings, expect_cons (by decide)]
  cases items with
  | nil =>
    have hempty : utf8 (String.intercalate "," ([].map string)) = [] := rfl
    simp only [hempty, List.nil_append, expect_cons (show isSpace (byte ']') = false by decide)]
  | cons s items =>
    obtain ⟨others, hothers⟩ : ∃ others,
        String.intercalate "," ((s :: items).map string) = string s ++ others := by
      cases items with
      | nil => exact ⟨"", by simp⟩
      | cons t items => exact ⟨_, String.intercalate_cons_cons.trans String.append_assoc⟩
    -- the first item opens with a quotation mark, so the array is not empty
    have hfirst : expect ']' (utf8 (String.intercalate "," ((s :: items).map string)) ++
        byte ']' :: rest) = none := by
      rw [hothers, utf8_append, List.append_assoc, utf8_string_append]
      exact expect_cons_of_ne (by decide) (by decide)
    simp only [hfirst, readItems_intercalate, List.reverse_nil, List.nil_append]

/-! ## Numbers -/

/-- No digit comes next, so that a number ends here. -/
def NoDigitNext (rest : List UInt8) : Prop :=
  ∀ b ∈ rest.head?, isDigit b = false

theorem noDigitNext_cons (h : isDigit b = false) : NoDigitNext (b :: rest) := by
  intro b' hb'
  obtain rfl : b = b' := by simpa using hb'
  exact h

theorem lt_of_isDigit (h : c.isDigit = true) : 48 ≤ c.toNat ∧ c.toNat ≤ 57 :=
  Char.isDigit_iff_toNat.mp h

/-- The digits of a number are bytes of their own. -/
theorem utf8_repr (n : Nat) : utf8 n.repr = (Nat.toDigits 10 n).map byte := by
  rw [utf8_eq_flatMap, Nat.toList_repr, List.map_eq_flatMap]
  apply List.flatMap_congr
  intro c hc
  have hdigit := lt_of_isDigit (isDigit_of_mem_toDigits hc)
  exact utf8EncodeChar_of_lt (by omega)

theorem isDigit_byte (h : c.isDigit = true) : isDigit (byte c) = true := by
  have hdigit := lt_of_isDigit h
  have hbyte := toNat_byte (c := c) (by omega)
  simp only [isDigit, Bool.and_eq_true, decide_eq_true_eq, UInt8.le_iff_toNat_le, hbyte]
  exact hdigit

theorem isSpace_of_isDigit (h : isDigit b = true) : isSpace b = false ∧ b ≠ byte '-' := by
  simp only [isDigit, Bool.and_eq_true, decide_eq_true_eq] at h
  have hlow : 48 ≤ b.toNat := h.1
  have hne {n : UInt8} (hn : n.toNat < 48) : b ≠ n := by
    rintro rfl
    omega
  have hspace := hne (n := 0x20) (by decide)
  have htab := hne (n := 0x09) (by decide)
  have hfeed := hne (n := 0x0A) (by decide)
  have hreturn := hne (n := 0x0D) (by decide)
  exact ⟨by simp [isSpace, hspace, htab, hfeed, hreturn], hne (by decide)⟩

/-- Only zero is written with a leading zero. -/
theorem eq_zero_of_head? {n : Nat}
    (h : ((Nat.toDigits 10 n).map byte).head? = some (byte '0')) : n = 0 := by
  rw [List.head?_map, Option.map_eq_some_iff] at h
  obtain ⟨c, hc, hbyte⟩ := h
  have hdigit := lt_of_isDigit (isDigit_of_mem_toDigits (List.mem_of_mem_head? hc))
  obtain rfl : c = '0' := byte_inj (by omega) (by decide) hbyte
  by_contra hne
  exact head?_toDigits_ne (Nat.pos_of_ne_zero hne) hc

theorem foldl_map_byte (cs : List Char) (h : ∀ c ∈ cs, c.isDigit = true) (n : Nat) :
    (cs.map byte).foldl (fun n d => 10 * n + (d.toNat - '0'.toNat)) n = Nat.ofDigitChars 10 cs n := by
  induction cs generalizing n with
  | nil => rfl
  | cons c cs ih =>
    rw [List.forall_mem_cons] at h
    have hdigit := lt_of_isDigit h.1
    rw [List.map_cons, List.foldl_cons, ih h.2, toNat_byte (by omega), Nat.ofDigitChars_cons]

theorem readMagnitude_repr (n : Nat) (hrest : NoDigitNext rest) :
    readMagnitude (utf8 n.repr ++ rest) = some (n, rest) := by
  have hdigits : ∀ b ∈ (Nat.toDigits 10 n).map byte, isDigit b = true := by
    intro b hb
    obtain ⟨c, hc, rfl⟩ := List.mem_map.mp hb
    exact isDigit_byte (isDigit_of_mem_toDigits hc)
  have hstop : rest.takeWhile isDigit = [] ∧ rest.dropWhile isDigit = rest := by
    cases rest with
    | nil => exact ⟨rfl, rfl⟩
    | cons b rest =>
      have hb : isDigit b = false := hrest b rfl
      simp [hb]
  have htake : (utf8 n.repr ++ rest).takeWhile isDigit = (Nat.toDigits 10 n).map byte := by
    rw [utf8_repr, List.takeWhile_append_of_pos hdigits, hstop.1, List.append_nil]
  have hdrop : (utf8 n.repr ++ rest).dropWhile isDigit = rest := by
    rw [utf8_repr, List.dropWhile_append_of_pos hdigits, hstop.2]
  have hvalue : digitsValue ((Nat.toDigits 10 n).map byte) = n := by
    rw [digitsValue, foldl_map_byte _ fun _ => isDigit_of_mem_toDigits,
      Nat.ofDigitChars_ten_toDigits]
  have hzero : ¬ (((Nat.toDigits 10 n).map byte).head? = some (byte '0') ∧
      1 < ((Nat.toDigits 10 n).map byte).length) := by
    rintro ⟨hhead, hlength⟩
    obtain rfl := eq_zero_of_head? hhead
    simp at hlength
  simp only [readMagnitude, htake, hdrop, hvalue, if_neg hzero]
  simp

/-- A number starts with a digit. -/
theorem exists_digit_cons_of_repr (n : Nat) :
    ∃ b bs, utf8 n.repr = b :: bs ∧ isDigit b = true := by
  obtain ⟨c, cs, hcs⟩ := List.exists_cons_of_ne_nil (Nat.toDigits_ne_nil (n := n) (b := 10))
  refine ⟨byte c, cs.map byte, by rw [utf8_repr, hcs, List.map_cons], ?_⟩
  exact isDigit_byte (isDigit_of_mem_toDigits (n := n) (by simp [hcs]))

/-- An integer is read back, if no digit follows it. -/
theorem readInteger_repr (n : Int) (hrest : NoDigitNext rest) :
    readInteger (utf8 n.repr ++ rest) = some (n, rest) := by
  cases n with
  | ofNat m =>
    obtain ⟨b, bs, hbytes, hdigit⟩ := exists_digit_cons_of_repr m
    obtain ⟨hspace, hminus⟩ := isSpace_of_isDigit hdigit
    have hread := readMagnitude_repr m hrest
    rw [hbytes] at hread
    have hskip : skipSpace (b :: bs ++ rest) = b :: bs ++ rest :=
      List.dropWhile_cons_of_neg (by simp [hspace])
    rw [Int.repr, hbytes, readInteger, hskip]
    simp only [List.cons_append, if_neg hminus] at hread ⊢
    rw [hread]
    rfl
  | negSucc m =>
    have hread := readMagnitude_repr (m + 1) hrest
    have hminus : utf8 "-" = [byte '-'] := rfl
    have hskip : skipSpace (byte '-' :: (utf8 (m + 1).repr ++ rest)) =
        byte '-' :: (utf8 (m + 1).repr ++ rest) := List.dropWhile_cons_of_neg (by decide)
    rw [Int.repr, utf8_append, hminus, List.singleton_append, List.cons_append, readInteger, hskip]
    simp only [↓reduceIte, hread]
    rfl

end

end MeteredLedger.Json
