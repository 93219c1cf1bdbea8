import MeteredLedger.Cli.Command
import MeteredLedger.Proofs.Bindings
import MeteredLedger.Proofs.Text.Decimal

/-!
# Command lines

A command line is put together from groups of words: a file, the arguments of a
template, the settings of an evaluation, an output. Each group is read back as
what it was written for, whatever follows it, so that a whole line comes to one
value of `Options`. The words that ask for more logging are taken out beforehand,
and none of the groups contains one.

What a line that evaluates a file prints is then a matter of the program in that
file alone.
-/

namespace MeteredLedger.Cli

/-- A word that cannot be taken for an option. -/
def IsOperand (word : String) : Prop :=
  word.toList.head? ≠ some '-'

instance : DecidablePred IsOperand := fun word =>
  inferInstanceAs (Decidable (word.toList.head? ≠ some '-'))

/-- The words that bind arguments, one option for each name with its value. -/
def argumentWords (pairs : List (String × String)) : List String :=
  pairs.flatMap fun pair => ["--arg", pair.1 ++ "=" ++ pair.2]

theorem argumentWords_cons (pair : String × String) (pairs : List (String × String)) :
    argumentWords (pair :: pairs) = "--arg" :: (pair.1 ++ "=" ++ pair.2) :: argumentWords pairs :=
  rfl

/-- The words that set whether a program is verified, and its gas limit unless
it is to have the default. -/
def settingWords (verified : Bool) (gas : Option UInt64) : List String :=
  (if verified then [] else ["--no-verify"]) ++
    gas.toList.flatMap fun limit => ["--gas", Decimal.ofUInt64 limit]

/-! ## Reading the groups -/

namespace Options

variable {o : Options} {word : String} {rest : List String}

theorem extend_cons_of_none (h : Flag.ofWord? word = none) :
    o.extend (word :: rest) = o.take word >>= fun o => o.extend rest := by
  cases rest with
  | nil =>
    simp only [extend, h]
    cases o.take word <;> rfl
  | cons value rest => simp only [extend, h]

theorem extend_cons_cons_of_some {flag : Flag} {value : String}
    (h : Flag.ofWord? word = some flag) :
    o.extend (word :: value :: rest) = o.set flag value >>= fun o => o.extend rest := by
  simp only [extend, h]

/-- A file is the input, unless there is one already. -/
theorem extend_operand (h : IsOperand word) :
    o.extend (word :: rest) = { o with input := o.input.or (some word) }.extend rest := by
  have ne_of_dash {option : String} (hdash : option.toList.head? = some '-') : word ≠ option := by
    rintro rfl
    exact h hdash
  have hflag : Flag.ofWord? word = none := by
    rw [Flag.ofWord?, List.find?_eq_none]
    intro flag _ heq
    exact ne_of_dash (by cases flag <;> decide) (beq_iff_eq.mp heq).symm
  have hdashes : ¬ "--".toList.isPrefixOf word.toList = true := by
    rw [List.isPrefixOf_iff_prefix]
    rintro ⟨tail, htail⟩
    exact h (by rw [← htail]; rfl)
  rw [extend_cons_of_none hflag, take, if_neg (ne_of_dash (by decide)), if_neg hdashes]
  rfl

/-- A name ends at the first equals sign. -/
theorem splitBinding?_append {name : String} (h : '=' ∉ name.toList) (value : String) :
    splitBinding? (name ++ "=" ++ value) = some (name, value) := by
  have htext : (name ++ "=" ++ value).toList = name.toList ++ '=' :: value.toList := by simp
  have hname : ∀ c ∈ name.toList, (c != '=') = true := by
    intro c hc
    rw [bne_iff_ne]
    rintro rfl
    exact h hc
  have htake : (name.toList ++ '=' :: value.toList).takeWhile (· != '=') = name.toList := by
    rw [List.takeWhile_append_of_pos hname]
    simp
  have hdrop : (name.toList ++ '=' :: value.toList).dropWhile (· != '=') = '=' :: value.toList := by
    rw [List.dropWhile_append_of_pos hname]
    simp
  rw [splitBinding?, htext, hdrop, htake]
  simp

theorem extend_arguments {pairs : List (String × String)}
    (names : ∀ pair ∈ pairs, '=' ∉ pair.1.toList) :
    o.extend (argumentWords pairs ++ rest) =
      { o with
        bindings := pairs.foldl (fun b (name, value) => b.insert name value) o.bindings }.extend
          rest := by
  induction pairs generalizing o with
  | nil => rfl
  | cons pair pairs ih =>
    rw [List.forall_mem_cons] at names
    have hset : o.set .binding (pair.1 ++ "=" ++ pair.2) =
        .ok { o with bindings := o.bindings.insert pair.1 pair.2 } := by
      rw [set, splitBinding?_append names.1]
    have hflag : Flag.ofWord? "--arg" = some .binding := by decide
    rw [argumentWords_cons, List.cons_append, List.cons_append, extend_cons_cons_of_some hflag,
      hset]
    exact ih names.2

theorem extend_unverified :
    o.extend ("--no-verify" :: rest) = { o with verified := false }.extend rest := by
  have hflag : Flag.ofWord? "--no-verify" = none := by decide
  rw [extend_cons_of_none hflag, take, if_pos rfl]
  rfl

theorem extend_limit (limit : UInt64) :
    o.extend ("--gas" :: Decimal.ofUInt64 limit :: rest) =
      { o with gas := some limit }.extend rest := by
  have hflag : Flag.ofWord? "--gas" = some .gas := by decide
  rw [extend_cons_cons_of_some hflag, set, Decimal.readUInt64?_ofUInt64]
  rfl

theorem extend_settings (verified : Bool) (gas : Option UInt64) :
    o.extend (settingWords verified gas ++ rest) =
      { o with verified := o.verified && verified, gas := gas.or o.gas }.extend rest := by
  cases verified <;> cases gas <;> simp [settingWords, extend_unverified, extend_limit]

theorem extend_output (path : String) :
    o.extend ("-o" :: path :: rest) = { o with output := some path }.extend rest := by
  have hflag : Flag.ofWord? "-o" = some .output := by decide
  rw [extend_cons_cons_of_some hflag]
  rfl

end Options

/-! ## Whole lines -/

/-- None of the words asks for more logging. -/
def Silent (words : List String) : Prop :=
  ∀ word ∈ words, asksForLog word = false

section

variable {word path output : String} {words : List String} {pairs : List (String × String)}

theorem silent_nil : Silent [] := fun _ h => absurd h List.not_mem_nil

theorem Silent.cons (hword : asksForLog word = false) (h : Silent words) : Silent (word :: words) :=
  List.forall_mem_cons.mpr ⟨hword, h⟩

theorem Silent.append {words' : List String} (h : Silent words) (h' : Silent words') :
    Silent (words ++ words') :=
  List.forall_mem_append.mpr ⟨h, h'⟩

theorem IsOperand.asksForLog (h : IsOperand word) : asksForLog word = false := by
  rw [Cli.asksForLog, Bool.or_eq_false_iff, beq_eq_false_iff_ne, beq_eq_false_iff_ne]
  constructor
  · rintro rfl
    exact h rfl
  · rintro rfl
    exact h rfl

theorem isOperand_ofUInt64 (n : UInt64) : IsOperand (Decimal.ofUInt64 n) := by
  obtain ⟨c, cs, hcs, hdigit⟩ := Decimal.exists_digit_cons_toList_repr n.toNat
  intro hdash
  rw [Decimal.ofUInt64, hcs] at hdash
  obtain rfl : c = '-' := by simpa using hdash
  exact absurd hdigit (by decide)

theorem silent_argumentWords (pairs : List (String × String)) : Silent (argumentWords pairs) := by
  induction pairs with
  | nil => exact silent_nil
  | cons pair pairs ih =>
    have hequals : '=' ∈ (pair.1 ++ "=" ++ pair.2).toList := by simp
    have hpair : asksForLog (pair.1 ++ "=" ++ pair.2) = false := by
      rw [asksForLog, Bool.or_eq_false_iff, beq_eq_false_iff_ne, beq_eq_false_iff_ne]
      constructor
      · intro heq
        exact absurd (heq ▸ hequals) (by decide)
      · intro heq
        exact absurd (heq ▸ hequals) (by decide)
    rw [argumentWords_cons]
    exact .cons (by decide) (ih.cons hpair)

theorem silent_settingWords (verified : Bool) (gas : Option UInt64) :
    Silent (settingWords verified gas) := by
  apply Silent.append
  · cases verified with
    | true => exact silent_nil
    | false => exact silent_nil.cons (by decide)
  · cases gas with
    | none => exact silent_nil
    | some limit => exact (silent_nil.cons (isOperand_ofUInt64 limit).asksForLog).cons (by decide)

variable [Ledger.Block.Wording]

/-- A line that asks for no logging is carried out as it stands. -/
theorem interaction_eq {command : Command} (hcommand : Command.ofWord? word = some command)
    (silent : Silent (word :: words)) (now : Option Int64) :
    interaction now (word :: words) = command.interaction now words := by
  have hfilter : (word :: words).filter (!asksForLog ·) = word :: words := by
    rw [List.filter_eq_self]
    intro w hw
    rw [silent w hw, Bool.not_false]
  rw [interaction, hfilter]
  simp only [hcommand]

variable {args : Bindings}

/-- Evaluating a file with settings and arguments. -/
theorem interaction_run (hpath : IsOperand path)
    (names : ∀ pair ∈ args.entries, '=' ∉ pair.1.toList) (hpairs : pairs.Perm args.entries)
    (now : Option Int64) (verified : Bool) (gas : Option UInt64) :
    interaction now ("run" :: path :: (settingWords verified gas ++ argumentWords pairs)) =
      Command.runFile { input := some path, bindings := args, gas, verified } := by
  have hwords : Options.ofWords (path :: (settingWords verified gas ++ argumentWords pairs)) =
      .ok { input := some path, bindings := .ofList pairs, gas, verified } := by
    rw [Options.ofWords, Options.extend_operand hpath, Options.extend_settings,
      ← List.append_nil (argumentWords pairs),
      Options.extend_arguments fun pair h => names pair (hpairs.mem_iff.mp h)]
    simp [Options.extend, Bindings.ofList]
  have silent : Silent ("run" :: path :: (settingWords verified gas ++ argumentWords pairs)) :=
    (((silent_settingWords verified gas).append (silent_argumentWords pairs)).cons
      hpath.asksForLog).cons (by decide)
  rw [interaction_eq rfl silent]
  simp only [Command.interaction, hwords, Bindings.ofList_eq_of_perm hpairs]
  rfl

/-- Binding the arguments of a template into a file. -/
theorem interaction_bind (hpath : IsOperand path) (houtput : IsOperand output)
    (names : ∀ pair ∈ args.entries, '=' ∉ pair.1.toList) (hpairs : pairs.Perm args.entries)
    (now : Option Int64) :
    interaction now ("bind" :: path :: (argumentWords pairs ++ ["-o", output])) =
      Command.bindFile { input := some path, bindings := args, output := some output } := by
  have hwords : Options.ofWords (path :: (argumentWords pairs ++ ["-o", output])) =
      .ok { input := some path, bindings := .ofList pairs, output := some output } := by
    rw [Options.ofWords, Options.extend_operand hpath,
      Options.extend_arguments fun pair h => names pair (hpairs.mem_iff.mp h),
      Options.extend_output]
    simp [Options.extend, Bindings.ofList]
  have silent : Silent ("bind" :: path :: (argumentWords pairs ++ ["-o", output])) :=
    (((silent_argumentWords pairs).append ((silent_nil.cons houtput.asksForLog).cons
      (by decide))).cons hpath.asksForLog).cons (by decide)
  rw [interaction_eq rfl silent]
  simp only [Command.interaction, hwords, Bindings.ofList_eq_of_perm hpairs]
  rfl

end

/-! ## Evaluating a file -/

namespace Command

/-- The reply to a program: its findings, if it is to be verified and has any, or
else what its evaluation comes to. -/
def programReply [Ledger.Block.Wording] (verified : Bool) (gas : Option UInt64) (p : Program) :
    Reply :=
  if verified ∧ p.verify ≠ [] then
    ⟨2, "", String.join (p.verify.map fun finding => errorLine finding.message)⟩
  else
    evaluationReply
      (Machine.evaluate p host ((gas.map UInt64.toNat).getD Machine.defaultGas) "")

section

variable [Ledger.Block.Wording] {tree : FileTree} {path text : String} {o : Options}
variable (hinput : o.input = some path) (hread : tree.read path = .ok text)

include hinput hread

theorem run_runFile_of_ok {p : Program} (hcompile : Source.compile text o.bindings = .ok p) :
    ((runFile o).run tree).1 = programReply o.verified o.gas p := by
  simp only [runFile, withInput, hinput, withProgram, withText, Interaction.run_read, hread,
    Interaction.ofExcept, hcompile]
  cases hverified : o.verified with
  | false => simp [programReply, gasLimit]
  | true =>
    cases hverify : p.verify with
    | nil => simp [programReply, whenVerified, hverify, gasLimit]
    | cons finding findings => simp [programReply, whenVerified, hverify, Interaction.fail]

theorem run_runFile_of_error {e : Source.Error}
    (hcompile : Source.compile text o.bindings = .error e) :
    ((runFile o).run tree).1 = ⟨1, "", errorLine s!"{path}: {e.message}"⟩ := by
  simp only [runFile, withInput, hinput, withProgram, withText, Interaction.run_read, hread,
    Interaction.ofExcept, hcompile, Interaction.fail, Interaction.run_done]

end

end Command

section

variable [Ledger.Block.Wording] {tree : FileTree} {path text : String}
variable {args : Bindings} {pairs : List (String × String)}
variable (hpath : IsOperand path) (hread : tree.read path = .ok text)
variable (names : ∀ pair ∈ args.entries, '=' ∉ pair.1.toList) (hpairs : pairs.Perm args.entries)

include hpath hread names hpairs

theorem reply_run_of_ok {p : Program} (hcompile : Source.compile text args = .ok p)
    (now : Option Int64) (verified : Bool) (gas : Option UInt64) :
    ((interaction now ("run" :: path :: (settingWords verified gas ++ argumentWords pairs))).run
      tree).1 = Command.programReply verified gas p := by
  rw [interaction_run hpath names hpairs]
  exact Command.run_runFile_of_ok rfl hread hcompile

theorem reply_run_of_error {e : Source.Error} (hcompile : Source.compile text args = .error e)
    (now : Option Int64) (verified : Bool) (gas : Option UInt64) :
    ((interaction now ("run" :: path :: (settingWords verified gas ++ argumentWords pairs))).run
      tree).1 = ⟨1, "", Command.errorLine s!"{path}: {e.message}"⟩ := by
  rw [interaction_run hpath names hpairs]
  exact Command.run_runFile_of_error rfl hread hcompile

end

end MeteredLedger.Cli
