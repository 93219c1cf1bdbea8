import MeteredLedger.Machine.Fault
import MeteredLedger.Proofs.Source.Acceptance
import MeteredLedger.Proofs.Text.Decimal

/-!
# What a message tells

The message of an error determines the error. A message is taken apart from its
end: it ends with a number, a mnemonic or the name of a kind, none of which has a
blank in it, and the text before it ends with a blank. Only a message that ends
with text of any kind is taken apart from the front, at the colon after a number.

A text that is quoted in a message may itself contain what follows it there. The
message about an argument that is no single token quotes two texts. It can be
taken apart since the first of them is the name of a placeholder, which has no
blank in it, so this is shown of the errors that compiling ends in.
-/

namespace MeteredLedger

/-! ## Cutting texts -/

namespace Text

/-- Lists that are cut at the first occurrence of a character. -/
theorem append_cons_inj {c : Char} {xs ys us vs : List Char} (hxs : c ∉ xs) (hys : c ∉ ys)
    (h : xs ++ c :: us = ys ++ c :: vs) : xs = ys ∧ us = vs := by
  induction xs generalizing ys with
  | nil =>
    cases ys with
    | nil => exact ⟨rfl, (List.cons.inj h).2⟩
    | cons y ys =>
      obtain ⟨rfl, -⟩ := List.cons.inj h
      exact absurd List.mem_cons_self hys
  | cons x xs ih =>
    cases ys with
    | nil =>
      obtain ⟨rfl, -⟩ := List.cons.inj h
      exact absurd List.mem_cons_self hxs
    | cons y ys =>
      obtain ⟨rfl, htail⟩ := List.cons.inj h
      rw [List.mem_cons, not_or] at hxs hys
      obtain ⟨rfl, hrest⟩ := ih hxs.2 hys.2 htail
      exact ⟨rfl, hrest⟩

variable {before before' text text' after after' separator : String} {c : Char}

/-- A text between two others. -/
theorem eq_of_surrounded_eq (h : before ++ text ++ after = before ++ text' ++ after) :
    text = text' :=
  (String.append_right_inj _).mp ((String.append_left_inj _).mp h)

/-- Texts are cut at the first place where the separator can begin. -/
theorem cut_first (hfirst : separator.toList.head? = some c) (hbefore : c ∉ before.toList)
    (hbefore' : c ∉ before'.toList)
    (h : before ++ separator ++ after = before' ++ separator ++ after') :
    before = before' ∧ after = after' := by
  obtain ⟨tail, htail⟩ := List.head?_eq_some_iff.mp hfirst
  have hchars : before.toList ++ c :: (tail ++ after.toList) =
      before'.toList ++ c :: (tail ++ after'.toList) := by
    simpa [htail] using congrArg String.toList h
  obtain ⟨hbefores, hrest⟩ := append_cons_inj hbefore hbefore' hchars
  exact ⟨String.toList_inj.mp hbefores, String.toList_inj.mp (List.append_cancel_left hrest)⟩

/-- Texts are cut at the last place where the separator can end. -/
theorem cut_last (hlast : separator.toList.getLast? = some c) (hafter : c ∉ after.toList)
    (hafter' : c ∉ after'.toList)
    (h : before ++ separator ++ after = before' ++ separator ++ after') :
    before = before' ∧ after = after' := by
  obtain ⟨init, hinit⟩ := List.getLast?_eq_some_iff.mp hlast
  have hchars : after.toList.reverse ++ c :: (before.toList ++ init).reverse =
      after'.toList.reverse ++ c :: (before'.toList ++ init).reverse := by
    simpa [hinit] using congrArg (fun s => s.toList.reverse) h
  obtain ⟨hafters, hrest⟩ := append_cons_inj (by simpa) (by simpa) hchars
  have hbefores := List.append_cancel_right (List.reverse_inj.mp hrest)
  exact ⟨String.toList_inj.mp hbefores, String.toList_inj.mp (List.reverse_inj.mp hafters)⟩

/-- Values are written as words without blanks, and different ones differently. -/
structure SingleWord (word : α → String) : Prop where
  plain : ∀ a, ' ' ∉ (word a).toList
  injective : ∀ a b, word a = word b → a = b

theorem singleWord_repr : SingleWord Nat.repr where
  plain := Decimal.not_mem_repr (by decide)
  injective _ _ := Decimal.eq_of_repr_eq

theorem singleWord_mnemonic : SingleWord Opcode.mnemonic where
  plain opcode := by cases opcode <;> decide
  injective opcode opcode' h := by
    have hopcode := Opcode.ofMnemonic?_eq_some_iff.mpr h
    rw [Opcode.ofMnemonic?_eq_some_iff.mpr rfl] at hopcode
    exact Option.some.inj hopcode

theorem singleWord_kind : SingleWord Value.Kind.name where
  plain kind := by cases kind <;> decide
  injective kind kind' h := by
    cases kind <;> cases kind' <;> first | rfl | exact absurd h (by decide)

section

variable {word : α → String} {a b : α}

theorem SingleWord.eq_of_append_eq (single : SingleWord word)
    (h : before ++ word a = before ++ word b) : a = b :=
  single.injective a b ((String.append_right_inj _).mp h)

/-- The last word of a text, after a blank. -/
theorem SingleWord.cut (single : SingleWord word) (hblank : separator.toList.getLast? = some ' ')
    (h : before ++ separator ++ word a = before' ++ separator ++ word b) :
    before = before' ∧ a = b := by
  obtain ⟨hbefore, hword⟩ := cut_last hblank (single.plain a) (single.plain b) h
  exact ⟨hbefore, single.injective a b hword⟩

end

/-- A number near the front, before a colon. -/
theorem cut_heading {lead : String} {m n : Nat}
    (h : lead ++ m.repr ++ ": " ++ after = lead ++ n.repr ++ ": " ++ after') :
    m = n ∧ after = after' := by
  have plain := Decimal.not_mem_repr (c := ':') (by decide)
  have hnumbers : m.repr ++ ": " ++ after = n.repr ++ ": " ++ after' := by
    rw [← String.append_right_inj lead]
    simpa only [String.append_assoc] using h
  obtain ⟨hnumber, hafter⟩ := cut_first rfl (plain m) (plain n) hnumbers
  exact ⟨Decimal.eq_of_repr_eq hnumber, hafter⟩

end Text

/-! ## Faults -/

namespace Machine

/-- The kind of a fault, as the number of its constructor, read off two characters
of a message: the first, and the one after the word `unknown` or `invalid`. -/
def kindOf (message : String) : Nat :=
  match message.toList.head?, message.toList[8]? with
  | some 'u', some 'o' => 0
  | some 's', _ => 1
  | some 'u', _ => 2
  | some 'o', _ => 3
  | some 'i', some 'a' => 5
  | some 't', _ => 6
  | some 'd', _ => 7
  | some 'i', _ => 8
  | _, _ => 4

theorem kindOf_message (e : Error) : kindOf e.message = e.fault.ctorIdx := by
  obtain ⟨index, fault⟩ := e
  cases fault with
  | missingArgument opcode =>
    -- a message that starts with a mnemonic is the only one with a capital
    have capital : opcode.mnemonic.toList.head?.any Char.isUpper = true := by
      cases opcode <;> decide
    obtain ⟨c, hc, hupper⟩ := (Option.any_eq_true _ _).mp capital
    simp only [kindOf, Error.message, toString, String.toList_append, List.head?_append, hc,
      Option.some_or]
    split <;> simp_all [Fault.ctorIdx]
  | _ => simp [kindOf, Error.message, Fault.ctorIdx, toString]

theorem Error.eq_of_message_eq {e e' : Error} (h : e.message = e'.message) : e = e' := by
  obtain ⟨index, fault⟩ := e
  obtain ⟨index', fault'⟩ := e'
  have kind : fault.ctorIdx = fault'.ctorIdx := by
    rw [← kindOf_message ⟨index, fault⟩, h, kindOf_message]
  cases fault with
  | unknownOpcode mnemonic =>
    cases fault' with
    | unknownOpcode mnemonic' =>
      obtain ⟨hlead, rfl⟩ := Text.singleWord_repr.cut (by decide) h
      obtain rfl : mnemonic = mnemonic' := (String.append_right_inj _).mp hlead
      rfl
    | _ => exact nomatch kind
  | stackUnderflow =>
    cases fault' with
    | stackUnderflow =>
      obtain rfl := Text.singleWord_repr.eq_of_append_eq h
      rfl
    | _ => exact nomatch kind
  | unknownLabel label =>
    cases fault' with
    | unknownLabel label' =>
      obtain ⟨hlead, rfl⟩ := Text.singleWord_repr.cut (by decide) h
      obtain rfl : label = label' := (String.append_right_inj _).mp hlead
      rfl
    | _ => exact nomatch kind
  | outOfGas opcode required remaining =>
    cases fault' with
    | outOfGas opcode' required' remaining' =>
      obtain ⟨hcosts, rfl⟩ := Text.singleWord_repr.cut (by decide) ((String.append_left_inj _).mp h)
      obtain ⟨hopcode, rfl⟩ := Text.singleWord_repr.cut (by decide) hcosts
      obtain ⟨hlead, rfl⟩ := Text.singleWord_mnemonic.cut (by decide) hopcode
      obtain rfl := Text.singleWord_repr.eq_of_append_eq hlead
      rfl
    | _ => exact nomatch kind
  | missingArgument opcode =>
    cases fault' with
    | missingArgument opcode' =>
      obtain ⟨hmnemonic, rfl⟩ := Text.singleWord_repr.cut (by decide) h
      obtain rfl := Text.singleWord_mnemonic.injective opcode opcode' hmnemonic
      rfl
    | _ => exact nomatch kind
  | invalidArgument opcode token =>
    cases fault' with
    | invalidArgument opcode' token' =>
      obtain ⟨hopcode, rfl⟩ := Text.singleWord_repr.cut (by decide) h
      obtain ⟨hlead, rfl⟩ := Text.singleWord_mnemonic.cut (by decide) hopcode
      obtain rfl : token = token' := (String.append_right_inj _).mp hlead
      rfl
    | _ => exact nomatch kind
  | typeMismatch opcode found =>
    cases fault' with
    | typeMismatch opcode' found' =>
      obtain ⟨hopcode, rfl⟩ := Text.singleWord_kind.cut (by decide) h
      obtain ⟨hlead, rfl⟩ := Text.singleWord_mnemonic.cut (by decide) hopcode
      obtain rfl := Text.singleWord_repr.eq_of_append_eq hlead
      rfl
    | _ => exact nomatch kind
  | divisionByZero =>
    cases fault' with
    | divisionByZero =>
      obtain rfl := Text.singleWord_repr.eq_of_append_eq h
      rfl
    | _ => exact nomatch kind
  | invalidBlock reason =>
    cases fault' with
    | invalidBlock reason' =>
      obtain ⟨rfl, rfl⟩ := Text.cut_heading h
      rfl
    | _ => exact nomatch kind

end Machine

/-! ## Errors in source text -/

namespace Source

/-- The first character of the message, another one for each kind of cause. -/
def Cause.initial : Cause → Char
  | malformed _ => 'm'
  | duplicateLabel _ => 'd'
  | unboundArgument _ => 'u'
  | unrepresentableArgument .. => 'a'

theorem Cause.head?_message (cause : Cause) : cause.message.toList.head? = some cause.initial := by
  cases cause <;> simp [message.eq_def, initial, toString]

/-- The name of a placeholder in the cause has no blank in it. -/
def Cause.IsPlain : Cause → Prop
  | unrepresentableArgument name _ => ' ' ∉ name.toList
  | _ => True

theorem Cause.eq_of_message_eq {cause cause' : Cause} (plain : cause.IsPlain)
    (plain' : cause'.IsPlain) (h : cause.message = cause'.message) : cause = cause' := by
  have initial : cause.initial = cause'.initial := by
    have hhead := cause.head?_message
    rw [h, head?_message] at hhead
    exact (Option.some.inj hhead).symm
  cases cause with
  | malformed text =>
    cases cause' with
    | malformed text' =>
      obtain rfl : text = text' := Text.eq_of_surrounded_eq h
      rfl
    | _ => simp [Cause.initial] at initial
  | duplicateLabel label =>
    cases cause' with
    | duplicateLabel label' =>
      obtain rfl : label = label' := Text.eq_of_surrounded_eq h
      rfl
    | _ => simp [Cause.initial] at initial
  | unboundArgument name =>
    cases cause' with
    | unboundArgument name' =>
      obtain rfl : name = name' := Text.eq_of_surrounded_eq h
      rfl
    | _ => simp [Cause.initial] at initial
  | unrepresentableArgument name value =>
    cases cause' with
    | unrepresentableArgument name' value' =>
      -- the first blank after the name belongs to the message
      have hsplit : "' has unrepresentable value '" = "'" ++ " has unrepresentable value '" := rfl
      have hquoted :
          "argument '" ++ (name ++ "'" ++ " has unrepresentable value '" ++ value) ++ "'" =
            "argument '" ++ (name' ++ "'" ++ " has unrepresentable value '" ++ value') ++ "'" := by
        simpa [message.eq_def, toString, hsplit, String.append_assoc] using h
      have append_quote {word : String} (hword : ' ' ∉ word.toList) :
          ' ' ∉ (word ++ "'").toList := by simpa using hword
      obtain ⟨hname, rfl⟩ := Text.cut_first rfl (append_quote plain) (append_quote plain')
        (Text.eq_of_surrounded_eq hquoted)
      rw [(String.append_left_inj _).mp hname]
    | _ => simp [Cause.initial] at initial

/-- Compiling some template with some arguments ends in the error. -/
def Error.Occurs (e : Error) : Prop :=
  ∃ template bindings, compile template bindings = .error e

theorem isPlain_of_load {text : String} {e : Error} (h : load text = .error e) :
    e.cause.IsPlain := by
  cases hrows : readLines .refused text with
  | error e' =>
    obtain rfl : e' = e := by simpa [load, parse, hrows, Bind.bind, Except.bind] using h
    obtain ⟨line, n, -, rfl⟩ := readLines_eq_error_iff.mp hrows
    trivial
  | ok rows =>
    have hassemble : assemble rows = .error e := by
      simpa [load, parse, hrows, Bind.bind, Except.bind] using h
    obtain ⟨name, n, -, rfl⟩ := exists_firstRepeated_of_assemble hrows hassemble
    trivial

/-- An error that occurs names no placeholder with a blank in it. -/
theorem Error.Occurs.isPlain {e : Error} (h : e.Occurs) : e.cause.IsPlain := by
  obtain ⟨template, bindings, hcompile⟩ := h
  cases hbind : bind template bindings with
  | ok text =>
    have hload : load text = .error e := by
      simpa [compile, hbind, Bind.bind, Except.bind] using hcompile
    exact isPlain_of_load hload
  | error e' =>
    obtain rfl : e' = e := by simpa [compile, hbind, Bind.bind, Except.bind] using hcompile
    obtain ⟨line, name, hrow, hcause | ⟨value, hcause⟩⟩ := exists_placeholder_of_bind hbind
    · rw [hcause]
      trivial
    · rw [hcause]
      intro hblank
      have hplain := (ofLine_eq_placeholder_iff.mp hrow).plain ' ' hblank
      exact absurd hplain.1 (by decide)

/-- Errors that occur are the same if their messages are. -/
theorem Error.Occurs.eq_of_message_eq {e e' : Error} (occurs : e.Occurs) (occurs' : e'.Occurs)
    (h : e.message = e'.message) : e = e' := by
  obtain ⟨line, cause⟩ := e
  obtain ⟨line', cause'⟩ := e'
  obtain ⟨rfl, hcause⟩ := Text.cut_heading h
  obtain rfl := Cause.eq_of_message_eq occurs.isPlain occurs'.isPlain hcause
  rfl

end Source

end MeteredLedger
