/-!
# Reading JSON

Readers work on bytes and return what they read together with the bytes that
follow. Spaces are allowed before every token. A string that is read must be
UTF-8 and hold no half of a surrogate pair; a value that is skipped is only
checked for its form, so its strings may hold both.

Each reader comes with a lemma that says how much it consumes, which is what
lets the readers that repeat another one end.
-/

namespace MeteredLedger.Json

/-- The byte of an ASCII character. -/
def byte (c : Char) : UInt8 :=
  UInt8.ofNat c.toNat

/-- Space, tab, line feed and carriage return. -/
def isSpace (b : UInt8) : Bool :=
  b = 0x20 || b = 0x09 || b = 0x0A || b = 0x0D

/-- Drops the spaces in front of a token. -/
def skipSpace (bytes : List UInt8) : List UInt8 :=
  bytes.dropWhile isSpace

theorem length_skipSpace_le (bytes : List UInt8) : (skipSpace bytes).length ≤ bytes.length :=
  (List.dropWhile_sublist _).length_le

/-- The next byte that is no space, and what follows it. -/
def next? (bytes : List UInt8) : Option (UInt8 × List UInt8) :=
  match skipSpace bytes with
  | [] => none
  | b :: rest => some (b, rest)

theorem length_lt_of_next? {bytes rest : List UInt8} {b : UInt8}
    (h : next? bytes = some (b, rest)) : rest.length < bytes.length := by
  have hle := length_skipSpace_le bytes
  rw [next?] at h
  split at h
  · simp at h
  · next c tail hs =>
    obtain ⟨rfl, rfl⟩ : c = b ∧ tail = rest := by simpa using h
    rw [hs, List.length_cons] at hle
    omega

/-- What follows a token of one character. -/
def expect (c : Char) (bytes : List UInt8) : Option (List UInt8) :=
  match next? bytes with
  | some (b, rest) => if b = byte c then some rest else none
  | none => none

theorem length_lt_of_expect {c : Char} {bytes rest : List UInt8}
    (h : expect c bytes = some rest) : rest.length < bytes.length := by
  rw [expect] at h
  split at h
  · next b r hn =>
    split at h
    · obtain rfl : r = rest := by simpa using h
      exact length_lt_of_next? hn
    · simp at h
  · simp at h

/-- What follows a given word. -/
def keyword (word : List Char) (bytes : List UInt8) : Option (List UInt8) :=
  if (word.map byte).isPrefixOf bytes then some (bytes.drop word.length) else none

theorem length_le_of_keyword {word : List Char} {bytes rest : List UInt8}
    (h : keyword word bytes = some rest) : rest.length ≤ bytes.length := by
  rw [keyword] at h
  split at h
  · obtain rfl : _ = rest := by simpa using h
    simp
  · simp at h

/-! ## Strings -/

/-- The value of a hexadecimal digit of either case. -/
def hexDigit? (b : UInt8) : Option Nat :=
  if byte '0' ≤ b ∧ b ≤ byte '9' then some (b.toNat - '0'.toNat)
  else if byte 'a' ≤ b ∧ b ≤ byte 'f' then some (b.toNat - 'a'.toNat + 10)
  else if byte 'A' ≤ b ∧ b ≤ byte 'F' then some (b.toNat - 'A'.toNat + 10)
  else none

/-- The number written by four hexadecimal digits, and what follows them. -/
def fourDigits? : List UInt8 → Option (Nat × List UInt8)
  | a :: b :: c :: d :: rest =>
    match hexDigit? a, hexDigit? b, hexDigit? c, hexDigit? d with
    | some a, some b, some c, some d => some (((a * 16 + b) * 16 + c) * 16 + d, rest)
    | _, _, _, _ => none
  | _ => none

theorem length_lt_of_fourDigits? {bytes rest : List UInt8} {n : Nat}
    (h : fourDigits? bytes = some (n, rest)) : rest.length < bytes.length := by
  unfold fourDigits? at h
  split at h
  · split at h <;> simp_all
    obtain ⟨_, rfl⟩ := h
    omega
  · simp at h

/-- The character of an escape of two characters. -/
def shortEscape? (b : UInt8) : Option Char :=
  if b = byte '"' then some '"'
  else if b = byte '\\' then some '\\'
  else if b = byte '/' then some '/'
  else if b = byte 'b' then some '\x08'
  else if b = byte 'f' then some '\x0c'
  else if b = byte 'n' then some '\n'
  else if b = byte 'r' then some '\r'
  else if b = byte 't' then some '\t'
  else none

/-- The second half of a surrogate pair whose first half is `high`. -/
def lowSurrogate? (high : Nat) : List UInt8 → Option (Char × List UInt8)
  | a :: b :: rest =>
    if a = byte '\\' ∧ b = byte 'u' then
      match fourDigits? rest with
      | some (low, rest) =>
        if 0xDC00 ≤ low ∧ low ≤ 0xDFFF then
          some (Char.ofNat (0x10000 + (high - 0xD800) * 0x400 + (low - 0xDC00)), rest)
        else none
      | none => none
    else none
  | _ => none

/-- The character that an escape stands for, read after its backslash. -/
def escape? : List UInt8 → Option (Char × List UInt8)
  | [] => none
  | b :: rest =>
    if b = byte 'u' then
      match fourDigits? rest with
      | some (n, rest) =>
        if 0xD800 ≤ n ∧ n ≤ 0xDBFF then lowSurrogate? n rest
        else if 0xDC00 ≤ n ∧ n ≤ 0xDFFF then none
        else some (Char.ofNat n, rest)
      | none => none
    else (shortEscape? b).map fun c => (c, rest)

theorem length_lt_of_escape? {bytes rest : List UInt8} {c : Char}
    (h : escape? bytes = some (c, rest)) : rest.length < bytes.length := by
  unfold escape? at h
  split at h
  · simp at h
  · next b r =>
    split at h
    · split at h
      · next n r' hn =>
        have h4 := length_lt_of_fourDigits? hn
        split at h
        · unfold lowSurrogate? at h
          split at h
          · split at h
            · split at h
              · next low r'' hl =>
                have := length_lt_of_fourDigits? hl
                split at h <;> simp_all
                omega
              · simp at h
            · simp at h
          · simp at h
        · split at h <;> simp_all
          omega
      · simp at h
    · simp only [Option.map_eq_some_iff, Prod.mk.injEq] at h
      obtain ⟨_, _, _, rfl⟩ := h
      simp

/-- The bytes of a string, read after its opening quotation mark and put in front
of `done` reversed. -/
def stringBytes? (done bytes : List UInt8) : Option (List UInt8 × List UInt8) :=
  match bytes with
  | [] => none
  | b :: rest =>
    if b = byte '"' then some (done.reverse, rest)
    else if b = byte '\\' then
      match _h : escape? rest with
      | some (c, rest') => stringBytes? ((String.utf8EncodeChar c).reverse ++ done) rest'
      | none => none
    else if b < 0x20 then none
    else stringBytes? (b :: done) rest
termination_by bytes.length
decreasing_by
  · have := length_lt_of_escape? _h
    simp only [List.length_cons]
    omega
  · simp

theorem length_lt_of_stringBytes? {done bytes read rest : List UInt8}
    (h : stringBytes? done bytes = some (read, rest)) : rest.length < bytes.length := by
  fun_induction stringBytes? done bytes with
  | case1 => simp at h
  | case2 => simp_all
  | case3 done r c r' he _ ih =>
    have := length_lt_of_escape? he
    have := ih h
    simp only [List.length_cons]
    omega
  | case4 => simp at h
  | case5 => simp at h
  | case6 done b r _ _ _ ih =>
    have := ih h
    simp only [List.length_cons]
    omega

/-- Reads a string. -/
def readString (bytes : List UInt8) : Option (String × List UInt8) :=
  match expect '"' bytes with
  | some body =>
    match stringBytes? [] body with
    | some (read, rest) => (String.fromUTF8? read.toByteArray).map fun s => (s, rest)
    | none => none
  | none => none

theorem length_lt_of_readString {bytes rest : List UInt8} {s : String}
    (h : readString bytes = some (s, rest)) : rest.length < bytes.length := by
  rw [readString] at h
  split at h
  · next body hb =>
    split at h
    · next read r hr =>
      have := length_lt_of_expect hb
      have := length_lt_of_stringBytes? hr
      simp only [Option.map_eq_some_iff, Prod.mk.injEq] at h
      obtain ⟨_, _, _, rfl⟩ := h
      omega
    · simp at h
  · simp at h

/-- Reads a string or null. -/
def readOptionalString (bytes : List UInt8) : Option (Option String × List UInt8) :=
  match next? bytes with
  | some (b, rest) =>
    if b = byte 'n' then (keyword ['u', 'l', 'l'] rest).map fun rest => (none, rest)
    else (readString bytes).map fun (s, rest) => (some s, rest)
  | none => none

theorem length_lt_of_readOptionalString {bytes rest : List UInt8} {s : Option String}
    (h : readOptionalString bytes = some (s, rest)) : rest.length < bytes.length := by
  rw [readOptionalString] at h
  split at h
  · next b r hn =>
    have := length_lt_of_next? hn
    split at h
    · simp only [Option.map_eq_some_iff, Prod.mk.injEq] at h
      obtain ⟨r', hk, _, rfl⟩ := h
      have := length_le_of_keyword hk
      omega
    · simp only [Option.map_eq_some_iff, Prod.mk.injEq, Prod.exists] at h
      obtain ⟨_, _, hs, _, rfl⟩ := h
      exact length_lt_of_readString hs
  · simp at h

/-- Reads the rest of an array of strings from one of its items on. -/
def readItems (done : List String) (bytes : List UInt8) : Option (List String × List UInt8) :=
  match _h : readString bytes with
  | none => none
  | some (s, rest) =>
    match _h' : next? rest with
    | none => none
    | some (b, rest') =>
      if b = byte ',' then readItems (s :: done) rest'
      else if b = byte ']' then some ((s :: done).reverse, rest')
      else none
termination_by bytes.length
decreasing_by
  have := length_lt_of_readString _h
  have := length_lt_of_next? _h'
  omega

theorem length_lt_of_readItems {done items : List String} {bytes rest : List UInt8}
    (h : readItems done bytes = some (items, rest)) : rest.length < bytes.length := by
  fun_induction readItems done bytes with
  | case1 => simp at h
  | case2 => simp at h
  | case3 done bytes s r hs r' hn ih =>
    have := length_lt_of_readString hs
    have := length_lt_of_next? hn
    have := ih h
    omega
  | case4 done bytes s r hs r' hn =>
    have := length_lt_of_readString hs
    have := length_lt_of_next? hn
    obtain ⟨_, rfl⟩ : (s :: done).reverse = items ∧ r' = rest := by simpa using h
    omega
  | case5 => simp at h

/-- Reads an array of strings. -/
def readStrings (bytes : List UInt8) : Option (List String × List UInt8) :=
  match expect '[' bytes with
  | none => none
  | some body =>
    match expect ']' body with
    | some rest => some ([], rest)
    | none => readItems [] body

theorem length_lt_of_readStrings {items : List String} {bytes rest : List UInt8}
    (h : readStrings bytes = some (items, rest)) : rest.length < bytes.length := by
  rw [readStrings] at h
  split at h
  · simp at h
  · next body hb =>
    have := length_lt_of_expect hb
    split at h
    · next r hr =>
      have := length_lt_of_expect hr
      obtain ⟨_, rfl⟩ : [] = items ∧ r = rest := by simpa using h
      omega
    · have := length_lt_of_readItems h
      omega

/-! ## Numbers -/

/-- Whether a byte is a decimal digit. -/
def isDigit (b : UInt8) : Bool :=
  byte '0' ≤ b && b ≤ byte '9'

/-- The number written by decimal digits. -/
def digitsValue (digits : List UInt8) : Nat :=
  digits.foldl (fun n d => 10 * n + (d.toNat - '0'.toNat)) 0

/-- Reads an unsigned integer without leading zeros. -/
def readMagnitude (bytes : List UInt8) : Option (Nat × List UInt8) :=
  let digits := bytes.takeWhile isDigit
  if digits.isEmpty then none
  else if digits.head? = some (byte '0') ∧ 1 < digits.length then none
  else some (digitsValue digits, bytes.dropWhile isDigit)

theorem length_le_of_readMagnitude {bytes rest : List UInt8} {n : Nat}
    (h : readMagnitude bytes = some (n, rest)) : rest.length ≤ bytes.length := by
  unfold readMagnitude at h
  dsimp only at h
  split at h
  · simp at h
  · split at h
    · simp at h
    · simp only [Option.some.injEq, Prod.mk.injEq] at h
      rw [← h.2]
      exact (List.dropWhile_sublist _).length_le

/-- Reads an integer. Zero has no minus sign. -/
def readInteger (bytes : List UInt8) : Option (Int × List UInt8) :=
  match skipSpace bytes with
  | [] => none
  | b :: rest =>
    if b = byte '-' then
      match readMagnitude rest with
      | some (n, rest) => if n = 0 then none else some (-(n : Int), rest)
      | none => none
    else (readMagnitude (b :: rest)).map fun (n, rest) => ((n : Int), rest)

theorem length_le_of_readInteger {bytes rest : List UInt8} {n : Int}
    (h : readInteger bytes = some (n, rest)) : rest.length ≤ bytes.length := by
  have hle := length_skipSpace_le bytes
  rw [readInteger] at h
  split at h
  · simp at h
  · next b r hs =>
    rw [hs] at hle
    simp only [List.length_cons] at hle
    split at h
    · split at h
      · next m r' hm =>
        have := length_le_of_readMagnitude hm
        split at h <;> simp_all
        omega
      · simp at h
    · simp only [Option.map_eq_some_iff, Prod.mk.injEq, Prod.exists] at h
      obtain ⟨m, r', hm, _, rfl⟩ := h
      have := length_le_of_readMagnitude hm
      simp only [List.length_cons] at this
      omega

end MeteredLedger.Json
