import MeteredLedger.Json.Reader

/-!
# Skipping JSON values

A value that nobody asks for is passed over. Its form is checked, what it says
is not: numbers may be out of any range and strings may hold any bytes but raw
controls. The brackets still open are kept in a list, so that a value may be
nested to any depth.
-/

namespace MeteredLedger.Json

/-- What follows a string, read after its opening quotation mark. -/
def skipString (bytes : List UInt8) : Option (List UInt8) :=
  match bytes with
  | [] => none
  | b :: rest =>
    if b = byte '"' then some rest
    else if b = byte '\\' then
      match rest with
      | [] => none
      | c :: rest' =>
        if c = byte 'u' then
          match _h : fourDigits? rest' with
          | some (_, rest'') => skipString rest''
          | none => none
        else if (shortEscape? c).isSome then skipString rest'
        else none
    else if b < 0x20 then none
    else skipString rest
termination_by bytes.length
decreasing_by
  · have := length_lt_of_fourDigits? _h
    simp only [List.length_cons]
    omega
  · simp only [List.length_cons]
    omega
  · simp

theorem length_lt_of_skipString {bytes rest : List UInt8} (h : skipString bytes = some rest) :
    rest.length < bytes.length := by
  fun_induction skipString bytes with
  | case1 => simp at h
  | case2 => simp_all
  | case3 => simp at h
  | case4 r n r' hf _ ih =>
    have := length_lt_of_fourDigits? hf
    have := ih h
    simp only [List.length_cons]
    omega
  | case5 => simp at h
  | case6 c r _ _ _ ih =>
    have := ih h
    simp only [List.length_cons]
    omega
  | case7 => simp at h
  | case8 => simp at h
  | case9 b r _ _ _ ih =>
    have := ih h
    simp only [List.length_cons]
    omega

/-- What follows one or more digits. -/
def skipDigits : List UInt8 → Option (List UInt8)
  | [] => none
  | b :: rest => if isDigit b then some (rest.dropWhile isDigit) else none

/-- What follows the whole part of a number: a zero, or digits that start with another one. -/
def skipWhole : List UInt8 → Option (List UInt8)
  | [] => none
  | b :: rest => if b = byte '0' then some rest else skipDigits (b :: rest)

/-- What follows the fraction of a number, if it has one. -/
def skipFraction : List UInt8 → Option (List UInt8)
  | [] => some []
  | b :: rest => if b = byte '.' then skipDigits rest else some (b :: rest)

/-- What follows an optional sign. -/
def skipSign : List UInt8 → List UInt8
  | [] => []
  | b :: rest => if b = byte '+' ∨ b = byte '-' then rest else b :: rest

/-- What follows the exponent of a number, if it has one. -/
def skipExponent : List UInt8 → Option (List UInt8)
  | [] => some []
  | b :: rest =>
    if b = byte 'e' ∨ b = byte 'E' then skipDigits (skipSign rest) else some (b :: rest)

/-- What follows a number without a minus sign. -/
def skipNumber (bytes : List UInt8) : Option (List UInt8) :=
  ((skipWhole bytes).bind skipFraction).bind skipExponent

theorem length_lt_of_skipDigits {bytes rest : List UInt8} (h : skipDigits bytes = some rest) :
    rest.length < bytes.length := by
  unfold skipDigits at h
  split at h
  · simp at h
  · split at h
    · obtain rfl : _ = rest := by simpa using h
      exact Nat.lt_succ_of_le (List.dropWhile_sublist _).length_le
    · simp at h

theorem length_lt_of_skipWhole {bytes rest : List UInt8} (h : skipWhole bytes = some rest) :
    rest.length < bytes.length := by
  unfold skipWhole at h
  split at h
  · simp at h
  · split at h
    · simp_all
    · exact length_lt_of_skipDigits h

theorem length_le_of_skipFraction {bytes rest : List UInt8} (h : skipFraction bytes = some rest) :
    rest.length ≤ bytes.length := by
  unfold skipFraction at h
  split at h
  · simp_all
  · split at h
    · have := length_lt_of_skipDigits h
      simp only [List.length_cons]
      omega
    · simp_all

theorem length_skipSign_le (bytes : List UInt8) : (skipSign bytes).length ≤ bytes.length := by
  unfold skipSign
  split
  · simp
  · split <;> simp

theorem length_le_of_skipExponent {bytes rest : List UInt8} (h : skipExponent bytes = some rest) :
    rest.length ≤ bytes.length := by
  unfold skipExponent at h
  split at h
  · simp_all
  · next b r =>
    split at h
    · have := length_skipSign_le r
      have := length_lt_of_skipDigits h
      simp only [List.length_cons]
      omega
    · simp_all

theorem length_lt_of_skipNumber {bytes rest : List UInt8} (h : skipNumber bytes = some rest) :
    rest.length < bytes.length := by
  simp only [skipNumber, Option.bind_eq_some_iff] at h
  obtain ⟨r₂, ⟨r₁, h₁, h₂⟩, h₃⟩ := h
  have := length_lt_of_skipWhole h₁
  have := length_le_of_skipFraction h₂
  have := length_le_of_skipExponent h₃
  omega

/-- What follows a value that holds no other values and starts with the byte `b`. -/
def skipScalar (b : UInt8) (rest : List UInt8) : Option (List UInt8) :=
  if b = byte '"' then skipString rest
  else if b = byte '-' then skipNumber rest
  else if b = byte 'n' then keyword ['u', 'l', 'l'] rest
  else if b = byte 't' then keyword ['r', 'u', 'e'] rest
  else if b = byte 'f' then keyword ['a', 'l', 's', 'e'] rest
  else skipNumber (b :: rest)

theorem length_le_of_skipScalar {b : UInt8} {bytes rest : List UInt8}
    (h : skipScalar b bytes = some rest) : rest.length ≤ bytes.length := by
  rw [skipScalar] at h
  split at h
  · exact Nat.le_of_lt (length_lt_of_skipString h)
  split at h
  · exact Nat.le_of_lt (length_lt_of_skipNumber h)
  split at h
  · exact length_le_of_keyword h
  split at h
  · exact length_le_of_keyword h
  split at h
  · exact length_le_of_keyword h
  · exact Nat.le_of_lt_succ (length_lt_of_skipNumber h)

/-- What follows the key of a member and its colon. -/
def skipKey (bytes : List UInt8) : Option (List UInt8) :=
  ((expect '"' bytes).bind skipString).bind (expect ':')

theorem length_lt_of_skipKey {bytes rest : List UInt8} (h : skipKey bytes = some rest) :
    rest.length < bytes.length := by
  simp only [skipKey, Option.bind_eq_some_iff] at h
  obtain ⟨r₂, ⟨r₁, h₁, h₂⟩, h₃⟩ := h
  have := length_lt_of_expect h₁
  have := length_lt_of_skipString h₂
  have := length_lt_of_expect h₃
  omega

/-- A bracket that is still open. -/
inductive Bracket where
  | array
  | object
  deriving DecidableEq, Repr

/-- What has to come next while a value is skipped. -/
inductive Due where
  /-- A value. -/
  | value
  /-- What follows a value: a comma or a closing bracket, or nothing if none is open. -/
  | separator
  deriving DecidableEq, Repr

/-- Skips until every open bracket is closed. -/
def skipOpen (due : Due) (brackets : List Bracket) (bytes : List UInt8) : Option (List UInt8) :=
  match due, brackets with
  | .separator, [] => some bytes
  | .separator, bracket :: outer =>
    match _h : next? bytes with
    | none => none
    | some (b, rest) =>
      match bracket with
      | .array =>
        if b = byte ',' then skipOpen .value (.array :: outer) rest
        else if b = byte ']' then skipOpen .separator outer rest
        else none
      | .object =>
        if b = byte ',' then
          match _h' : skipKey rest with
          | some rest' => skipOpen .value (.object :: outer) rest'
          | none => none
        else if b = byte '\x7d' then skipOpen .separator outer rest
        else none
  | .value, brackets =>
    match _h : next? bytes with
    | none => none
    | some (b, rest) =>
      if b = byte '[' then
        match _h' : expect ']' rest with
        | some rest' => skipOpen .separator brackets rest'
        | none => skipOpen .value (.array :: brackets) rest
      else if b = byte '\x7b' then
        match _h' : expect '\x7d' rest with
        | some rest' => skipOpen .separator brackets rest'
        | none =>
          match _h'' : skipKey rest with
          | some rest' => skipOpen .value (.object :: brackets) rest'
          | none => none
      else
        match _h' : skipScalar b rest with
        | some rest' => skipOpen .separator brackets rest'
        | none => none
termination_by bytes.length
decreasing_by
  all_goals have := length_lt_of_next? _h
  · omega
  · omega
  · have := length_lt_of_skipKey _h'
    omega
  · omega
  · have := length_lt_of_expect _h'
    omega
  · omega
  · have := length_lt_of_expect _h'
    omega
  · have := length_lt_of_skipKey _h''
    omega
  · have := length_le_of_skipScalar _h'
    omega

theorem length_le_of_skipOpen {due : Due} {brackets : List Bracket} {bytes rest : List UInt8}
    (h : skipOpen due brackets bytes = some rest) : rest.length ≤ bytes.length := by
  fun_induction skipOpen due brackets bytes <;>
    grind [→ length_lt_of_next?, → length_lt_of_skipKey, → length_lt_of_expect,
      → length_le_of_skipScalar]

/-- What follows a value. -/
def skipValue (bytes : List UInt8) : Option (List UInt8) :=
  skipOpen .value [] bytes

end MeteredLedger.Json
