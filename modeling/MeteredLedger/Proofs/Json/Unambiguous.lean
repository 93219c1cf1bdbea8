import MeteredLedger.Proofs.Json.RoundTrip
import MeteredLedger.Proofs.Text.Decimal

/-!
# Texts that can be told apart

A text is unambiguous if it determines the value it was written for, even when
something else is written after it: a string cannot pass for more than itself,
since its quotation marks are escaped. Only a number needs to be told where it
ends, so what follows must not start with a digit.

What has a reader is unambiguous. An array or an object is taken apart from the
front, item by item: an item determines where it ends, and then a comma or the
closing bracket says whether there is another.
-/

namespace MeteredLedger.Json

variable {α β : Type}

/-- A text determines its value and its own end: where two texts go on to the
same bytes, their values are the same, and so is what follows them. What follows
must not start with a digit. -/
def Unambiguous (text : α → String) : Prop :=
  ∀ a b rest rest', NoDigitNext rest → NoDigitNext rest' →
    utf8 (text a) ++ rest = utf8 (text b) ++ rest' → a = b ∧ rest = rest'

section

variable {text : α → String} {a b : α} {rest rest' : List UInt8}

theorem Unambiguous.eq_of_utf8_eq (h : Unambiguous text) (heq : utf8 (text a) = utf8 (text b)) :
    a = b := by
  have ends : NoDigitNext [] := by simp [NoDigitNext]
  exact (h a b [] [] ends ends (by rw [heq])).1

theorem Unambiguous.comp {g : β → α} (h : Unambiguous text)
    (hg : ∀ x y, g x = g y → x = y) : Unambiguous fun x => text (g x) := by
  intro x y rest rest' ends ends' heq
  obtain ⟨hxy, hrest⟩ := h (g x) (g y) rest rest' ends ends' heq
  exact ⟨hg x y hxy, hrest⟩

/-- What can be read back is unambiguous. -/
theorem unambiguous_of_reader {read : List UInt8 → Option (α × List UInt8)}
    (h : ∀ a rest, NoDigitNext rest → read (utf8 (text a) ++ rest) = some (a, rest)) :
    Unambiguous text := by
  intro a b rest rest' ends ends' heq
  have hread := h a rest ends
  rw [heq, h b rest' ends'] at hread
  obtain ⟨hba, hrest⟩ : b = a ∧ rest' = rest := by simpa using hread
  exact ⟨hba.symm, hrest.symm⟩

theorem unambiguous_string : Unambiguous string :=
  unambiguous_of_reader fun s rest _ => readString_string s rest

theorem unambiguous_repr : Unambiguous Nat.repr :=
  unambiguous_of_reader fun n _ ends => readMagnitude_repr n ends

theorem unambiguous_ofUInt64 : Unambiguous Decimal.ofUInt64 :=
  unambiguous_repr.comp fun _ _ => UInt64.toNat_inj.mp

/-! ## Items between brackets -/

/-- The bytes of items between two brackets. -/
def bracketed (left right : Char) (items : List String) : List UInt8 :=
  byte left :: (utf8 (String.intercalate "," items) ++ [byte right])

/-- What is written after an item: the bracket, or a comma and more items. -/
def afterItem (right : Char) : List String → List UInt8
  | [] => [byte right]
  | items => byte ',' :: (utf8 (String.intercalate "," items) ++ [byte right])

variable {left right : Char} {items items' : List String}

theorem bracketed_cons (item : String) :
    bracketed left right (item :: items) = byte left :: (utf8 item ++ afterItem right items) := by
  cases items with
  | nil => simp [bracketed, afterItem]
  | cons next items =>
    have hcomma : utf8 "," = [byte ','] := rfl
    rw [bracketed, afterItem, String.intercalate_cons_cons, utf8_append, utf8_append, hcomma]
    · simp
    · simp

/-- A bracket that can stand after any item. -/
structure Closes (right : Char) : Prop where
  ne_comma : byte right ≠ byte ','
  not_digit : isDigit (byte right) = false

theorem Closes.noDigitNext (closes : Closes right) (items : List String) (rest : List UInt8) :
    NoDigitNext (afterItem right items ++ rest) := by
  cases items with
  | nil => exact noDigitNext_cons closes.not_digit
  | cons item items => exact noDigitNext_cons (by decide)

/-- After an item, a comma or the bracket says whether there are more. -/
theorem Closes.bracketed_eq (closes : Closes right)
    (h : afterItem right items ++ rest = afterItem right items' ++ rest') :
    bracketed left right items ++ rest = bracketed left right items' ++ rest' := by
  cases items with
  | nil =>
    cases items' with
    | nil =>
      have hrest : rest = rest' := by simpa [afterItem] using h
      rw [hrest]
    | cons item' items' => simp [afterItem, closes.ne_comma] at h
  | cons item items =>
    cases items' with
    | nil => simp [afterItem, closes.ne_comma.symm] at h
    | cons item' items' =>
      rw [bracketed, bracketed, List.cons_append, List.cons_append]
      exact congrArg (byte left :: ·) (List.cons.inj h).2

/-- Items between brackets are taken apart from the front. -/
theorem Closes.of_bracketed_cons (closes : Closes right) (h : Unambiguous text)
    (heq : bracketed left right (text a :: items) ++ rest =
      bracketed left right (text b :: items') ++ rest') :
    a = b ∧ bracketed left right items ++ rest = bracketed left right items' ++ rest' := by
  rw [bracketed_cons, bracketed_cons, List.cons_append, List.cons_append, List.append_assoc,
    List.append_assoc] at heq
  obtain ⟨hab, hafter⟩ := h a b _ _ (closes.noDigitNext items rest)
    (closes.noDigitNext items' rest') (List.cons.inj heq).2
  exact ⟨hab, closes.bracketed_eq hafter⟩

/-- An item does not start like the bracket that closes the list. -/
def Opens (right : Char) (text : α → String) : Prop :=
  ∀ a, ∃ b bs, utf8 (text a) = b :: bs ∧ b ≠ byte right

theorem Opens.bracketed_nil_ne (opens : Opens right text) :
    bracketed left right [] ++ rest ≠ bracketed left right (text a :: items) ++ rest' := by
  intro heq
  obtain ⟨b, bs, hbytes, hne⟩ := opens a
  rw [bracketed_cons, hbytes] at heq
  have hfirst : byte right = b := (List.cons.inj (List.cons.inj heq).2).1
  exact hne hfirst.symm

/-- A list of unambiguous items is unambiguous. -/
theorem Closes.of_bracketed_map (closes : Closes right) (opens : Opens right text)
    (h : Unambiguous text) {as bs : List α}
    (heq : bracketed left right (as.map text) ++ rest =
      bracketed left right (bs.map text) ++ rest') : as = bs ∧ rest = rest' := by
  induction as generalizing bs with
  | nil =>
    cases bs with
    | nil => exact ⟨rfl, by simpa using heq⟩
    | cons b bs => exact absurd heq opens.bracketed_nil_ne
  | cons a as ih =>
    cases bs with
    | nil => exact absurd heq.symm opens.bracketed_nil_ne
    | cons b bs =>
      obtain ⟨rfl, htail⟩ := closes.of_bracketed_cons h heq
      obtain ⟨rfl, hrest⟩ := ih htail
      exact ⟨rfl, hrest⟩

/-! ## Arrays and objects -/

theorem closes_bracket : Closes ']' :=
  ⟨by decide, by decide⟩

theorem closes_brace : Closes '\x7d' :=
  ⟨by decide, by decide⟩

theorem utf8_array (items : List String) : utf8 (array items) = bracketed '[' ']' items := by
  rw [array, utf8_append, utf8_append]
  rfl

/-- The text of a member with a given way to write its value. -/
def member (text : α → String) (entry : String × α) : String :=
  string entry.1 ++ ":" ++ text entry.2

theorem unambiguous_member (h : Unambiguous text) : Unambiguous (member text) := by
  rintro ⟨key, a⟩ ⟨key', b⟩ rest rest' ends ends' heq
  have hcolon : utf8 ":" = [byte ':'] := rfl
  simp only [member, utf8_append, hcolon, List.append_assoc, List.singleton_append] at heq
  have colon (more : List UInt8) : NoDigitNext (byte ':' :: more) := noDigitNext_cons (by decide)
  obtain ⟨rfl, hvalue⟩ := unambiguous_string key key' _ _ (colon _) (colon _) heq
  obtain ⟨rfl, hrest⟩ := h a b rest rest' ends ends' (List.cons.inj hvalue).2
  exact ⟨rfl, hrest⟩

theorem opens_member (text : α → String) : Opens '\x7d' (member text) := by
  rintro ⟨key, a⟩
  have hbytes := utf8_string_append key (utf8 ":" ++ utf8 (text a))
  rw [← List.append_assoc, ← utf8_append, ← utf8_append] at hbytes
  exact ⟨_, _, hbytes, by decide⟩

theorem utf8_object (members : List (String × String)) :
    utf8 (object members) = bracketed '\x7b' '\x7d' (members.map (member id)) := by
  rw [object, utf8_append, utf8_append]
  rfl

theorem unambiguous_array (opens : Opens ']' text) (h : Unambiguous text) :
    Unambiguous fun as : List α => array (as.map text) := by
  intro as bs rest rest' _ _ heq
  rw [utf8_array, utf8_array] at heq
  exact closes_bracket.of_bracketed_map opens h heq

/-- An object is unambiguous that holds any number of members of one kind. -/
theorem unambiguous_object (h : Unambiguous text) :
    Unambiguous fun entries : List (String × α) =>
      object (entries.map fun (key, a) => (key, text a)) := by
  intro entries entries' rest rest' _ _ heq
  rw [utf8_object, utf8_object, List.map_map, List.map_map] at heq
  exact closes_brace.of_bracketed_map (opens_member text) (unambiguous_member h) heq

/-- An object with members of different kinds is taken apart from the front. -/
theorem of_object_cons (h : Unambiguous text) {key key' : String}
    {members members' : List (String × String)}
    (heq : utf8 (object ((key, text a) :: members)) ++ rest =
      utf8 (object ((key', text b) :: members')) ++ rest') :
    key = key' ∧ a = b ∧
      utf8 (object members) ++ rest = utf8 (object members') ++ rest' := by
  have hmember (entry : String × α) : member id (entry.1, text entry.2) = member text entry := rfl
  rw [utf8_object, utf8_object, List.map_cons, List.map_cons, hmember (key, a),
    hmember (key', b)] at heq
  obtain ⟨hentry, htail⟩ := closes_brace.of_bracketed_cons (unambiguous_member h) heq
  obtain ⟨hkey, hab⟩ := Prod.mk.inj hentry
  rw [utf8_object, utf8_object]
  exact ⟨hkey, hab, htail⟩

end

end MeteredLedger.Json
