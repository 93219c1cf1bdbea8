import MeteredLedger.Proofs.Cli.CommandLine
import MeteredLedger.Proofs.Cli.FileTree
import MeteredLedger.Proofs.Ledger.Posting
import MeteredLedger.Proofs.Ledger.Sessions
import MeteredLedger.Proofs.Messages

/-!
# Running a file and calling a contract

A template can be evaluated in two ways: from a file, with its arguments on the
command line, or from the registry of a client, with its arguments in a call. The
one prints and exits, the other posts a payment or fails. The two evaluate with
different hosts: the host of the command line writes to the error output what the
host of a ledger keeps in a record. Both answer alike, so both evaluations end
alike, and the error output can be read off the record.

`Matches` lists the replies and the results that belong together, and the two
ways always give a pair from this list. Each exit code stands for one kind of
result there, except for zero: a contract that returns nothing prints like one
that returns the text `undefined`. A message determines its error, so a reply
that reports an error also tells how the call failed.
-/

namespace MeteredLedger.Cli

open Ledger (Client Transaction Output Call)

/-! ## Two hosts -/

/-- The values that an evaluation has recorded, one a line. -/
def printedLines (h : Machine.Halt (Array Value)) : String :=
  String.join (h.state.store.host.toList.map fun v => v.display ++ "\n")

/-- What a template prints when it is evaluated with arguments, as a ledger records it. -/
def transcript [Ledger.Block.Wording] (template : String) (args : Bindings) (gas : Nat) : String :=
  match Source.compile template args with
  | .error _ => ""
  | .ok p => printedLines (Machine.evaluate p Ledger.host gas #[])

section

variable [Ledger.Block.Wording]

/-- The host writes the printed values to the error output, in order. -/
theorem Command.afterPrinting_host (stderr : String) (printed : List Value) :
    Command.host.afterPrinting stderr printed =
      stderr ++ String.join (printed.reverse.map fun v => v.display ++ "\n") := by
  induction printed with
  | nil => simp [Machine.Host.afterPrinting]
  | cons v earlier ih =>
    have hprint : Command.host.afterPrinting stderr (v :: earlier) =
        Command.host.afterPrinting stderr earlier ++ v.display ++ "\n" := rfl
    rw [hprint, ih, List.reverse_cons, List.map_append, String.join_append]
    simp [String.append_assoc]

/-- The answers of the host are those of the host of a ledger. -/
theorem Command.host_answers (stderr : String) :
    Command.host.Answers stderr Ledger.blockTimestamp := by
  intro printed text
  simp only [Command.host]

/-- An evaluation from the command line ends like one in a ledger. -/
theorem sameEnd_hosts (p : Program) (gas : Nat) :
    Machine.SameEnd (Machine.evaluate p Command.host gas "")
      (Machine.evaluate p Ledger.host gas #[]) :=
  Machine.sameEnd_evaluate (Command.host_answers "") (Ledger.host_answers #[]) p gas

/-- It has written what the ledger has recorded. -/
theorem stderr_evaluate (p : Program) (gas : Nat) :
    (Machine.evaluate p Command.host gas "").state.store.host =
      printedLines (Machine.evaluate p Ledger.host gas #[]) := by
  rw [Machine.evaluate_host (Command.host_answers ""), (sameEnd_hosts p gas).printed,
    Command.afterPrinting_host, printedLines, Machine.evaluate_host (Ledger.host_answers #[]),
    Ledger.toList_afterPrinting_host]
  simp

end

/-! ## Replies and results -/

/-- A reply to a run of the file `path`, with the result of a call that came to
the same. What was `printed` stands before the report of an error. -/
inductive Matches (path printed : String) : Reply → Except Ledger.Error Transaction → Prop where
  | uncompiled {e : Source.Error} : e.Occurs →
      Matches path printed ⟨1, "", s!"error: {path}: {e.message}\n"⟩ (.error (.source e))
  | fails (e : Machine.Error) :
      Matches path printed
        ⟨if e.isOutOfGas then 4 else 3, "", printed ++ s!"runtime error: {e.message}\n"⟩
        (.error (.machine e))
  | undefined (contract : Nat) :
      Matches path printed ⟨0, "undefined\n", printed⟩ (.error (.noReturnValue contract))
  | pays {t : Transaction} {output : Output} : t.outputs.getLast? = some output →
      Matches path printed ⟨0, output.address ++ "\n", printed⟩ (.ok t)

section

variable [Ledger.Block.Wording] {c : Client} {call : Call} {outputs : List Output} {fee : UInt64}

/-- The reply to an evaluation matches a call whose contract evaluates the same way. -/
theorem matches_of_evaluates {h : Machine.Halt String}
    (evaluates : c.Evaluates call h.result) (path : String) :
    Matches path h.state.store.host (Command.evaluationReply h)
      (c.postCall outputs call fee).2 := by
  rw [Command.evaluationReply]
  cases hresult : h.result with
  | error e =>
    rw [hresult] at evaluates
    rw [(Client.Refuses.fails evaluates).postCall_eq]
    exact .fails e
  | ok outcome =>
    rw [hresult] at evaluates
    cases outcome with
    | endOfProgram =>
      rw [(Client.Refuses.ends evaluates).postCall_eq]
      exact .undefined call.contract
    | returned v =>
      by_cases hv : v = .undefined
      · subst hv
        rw [(Client.Refuses.returnsUndefined evaluates).postCall_eq]
        exact .undefined call.contract
      · have hlast : (c.payment outputs call fee v.display).outputs.getLast? =
            some ⟨v.display, call.amount⟩ := List.getLast?_concat
        rw [evaluates.postCall_eq hv]
        exact .pays hlast

/-- A file is run without verification, with the arguments and the limit of a
call of the same template. -/
theorem matches_run_postCall {tree : FileTree} {path template : String} {args : Bindings}
    {pairs : List (String × String)} {gas amount : UInt64} {contract : Nat}
    (hpath : IsOperand path) (hread : tree.read path = .ok template)
    (names : ∀ pair ∈ args.entries, '=' ∉ pair.1.toList) (hpairs : pairs.Perm args.entries)
    (hcontract : c.lastBlock.contracts.get? contract = some template) (now : Option Int64) :
    Matches path (transcript template args gas.toNat)
      ((interaction now ("run" :: path ::
        (settingWords false (some gas) ++ argumentWords pairs))).run tree).1
      (c.postCall outputs ⟨args, amount, contract, gas.toNat⟩ fee).2 := by
  cases hcompile : Source.compile template args with
  | error e =>
    have refused : c.Refuses ⟨args, amount, contract, gas.toNat⟩ (.source e) :=
      .uncompiled hcontract hcompile
    rw [reply_run_of_error hpath hread names hpairs hcompile, refused.postCall_eq]
    exact .uncompiled ⟨template, args, hcompile⟩
  | ok p =>
    have evaluates : c.Evaluates ⟨args, amount, contract, gas.toNat⟩
        (Machine.evaluate p Command.host gas.toNat "").result :=
      ⟨template, p, hcontract, hcompile, (sameEnd_hosts p gas.toNat).result.symm⟩
    have printed : transcript template args gas.toNat =
        (Machine.evaluate p Command.host gas.toNat "").state.store.host := by
      rw [transcript, hcompile, stderr_evaluate]
    rw [reply_run_of_ok hpath hread names hpairs hcompile, printed]
    exact matches_of_evaluates evaluates path

end

/-- A reply has an exit code exactly if there is an error of one kind, and reports
that error. The report of an error of this kind in turn tells that this is the
error. -/
structure Reports (reply : Reply) (code : UInt32) (report : ε → String) (kind fails : ε → Prop) :
    Prop where
  fails_iff : ∀ e, fails e ↔ kind e ∧ reply = ⟨code, "", report e⟩
  exists_of_exitCode : reply.exitCode = code → ∃ e, fails e

/-- Another exit code reports no error of the kind. -/
theorem Reports.of_exitCode_ne {reply : Reply} {code : UInt32} {report : ε → String}
    {kind fails : ε → Prop} (hcode : reply.exitCode ≠ code) (hfails : ∀ e, ¬ fails e) :
    Reports reply code report kind fails where
  fails_iff e := by
    refine iff_of_false (hfails e) ?_
    rintro ⟨-, rfl⟩
    exact hcode rfl
  exists_of_exitCode h := absurd h hcode

namespace Matches

variable {path printed : String} {reply : Reply} {result : Except Ledger.Error Transaction}

theorem exists_output {t : Transaction} (h : Matches path printed reply (.ok t)) :
    ∃ output, t.outputs.getLast? = some output ∧ reply = ⟨0, output.address ++ "\n", printed⟩ := by
  cases h with
  | pays hlast => exact ⟨_, hlast, rfl⟩

theorem reply_of_noReturnValue {contract : Nat}
    (h : Matches path printed reply (.error (.noReturnValue contract))) :
    reply = ⟨0, "undefined\n", printed⟩ := by
  cases h with
  | undefined => rfl

theorem reports_source (h : Matches path printed reply result) :
    Reports reply 1 (fun e => s!"error: {path}: {e.message}\n") Source.Error.Occurs
      (fun e => result = .error (.source e)) := by
  cases h with
  | uncompiled occurs =>
    refine ⟨fun e => ⟨?_, ?_⟩, fun _ => ⟨_, rfl⟩⟩
    · rintro ⟨⟩
      exact ⟨occurs, rfl⟩
    · rintro ⟨occurs', hreply⟩
      have hmessage := Text.eq_of_surrounded_eq (congrArg Reply.stderr hreply)
      rw [occurs.eq_of_message_eq occurs' hmessage]
  | fails e =>
    apply Reports.of_exitCode_ne _ nofun
    cases e.isOutOfGas <;> simp
  | undefined | pays => exact .of_exitCode_ne (by simp) nofun

theorem reports_machine (h : Matches path printed reply result) (outOfGas : Bool) :
    Reports reply (if outOfGas then 4 else 3)
      (fun e => printed ++ s!"runtime error: {e.message}\n") (fun e => e.isOutOfGas = outOfGas)
      (fun e => result = .error (.machine e) ∧ e.isOutOfGas = outOfGas) := by
  cases h with
  | fails e =>
    refine ⟨fun e' => ⟨?_, ?_⟩, ?_⟩
    · rintro ⟨⟨⟩, rfl⟩
      exact ⟨rfl, rfl⟩
    · rintro ⟨hkind, hreply⟩
      have hreport := (String.append_right_inj _).mp (congrArg Reply.stderr hreply)
      have hmessage := Text.eq_of_surrounded_eq hreport
      exact ⟨by rw [Machine.Error.eq_of_message_eq hmessage], hkind⟩
    · intro hcode
      refine ⟨e, rfl, ?_⟩
      cases hgas : e.isOutOfGas <;> cases outOfGas <;> simp [hgas] at hcode ⊢
  | uncompiled | undefined | pays =>
    -- the exit codes are other ones, whichever of the two errors is asked for
    apply Reports.of_exitCode_ne _ nofun
    cases outOfGas <;> simp

end Matches

/-- Running the file of a template, unverified, and calling the template as a
contract agree, whatever the arguments and the limit. A call that pays is a run
that prints the address paid. A call fails with an error of the source text
exactly if the run exits with one and reports that error, with an evaluation out
of gas exactly if it exits with four and reports it, and with any other fault of
the evaluation exactly if it exits with three and reports it. A call without a
return value is a run that prints that the value is undefined. What the contract
prints stands before every report. -/
theorem run_agrees_with_postCall [Ledger.Block.Wording] (now : Option Int64) (tree : FileTree)
    (path template : String)
    (hpath : IsOperand path) (hread : tree.read path = .ok template)
    (c : Client) (outputs : List Output) (fee : UInt64)
    (args : Bindings) (names : ∀ pair ∈ args.entries, '=' ∉ pair.1.toList)
    (pairs : List (String × String)) (hpairs : pairs.Perm args.entries)
    (gas amount : UInt64) (contract : Nat)
    (hcontract : c.lastBlock.contracts.get? contract = some template) :
    let words := "--no-verify" :: "--gas" :: Decimal.ofUInt64 gas :: argumentWords pairs
    let reply := ((interaction now ("run" :: path :: words)).run tree).1
    let result := (c.postCall outputs ⟨args, amount, contract, gas.toNat⟩ fee).2
    let printed := transcript template args gas.toNat
    (∀ t, result = .ok t → ∃ output, t.outputs.getLast? = some output ∧
      reply = ⟨0, output.address ++ "\n", printed⟩) ∧
    Reports reply 1 (fun e => s!"error: {path}: {e.message}\n") Source.Error.Occurs
      (fun e => result = .error (.source e)) ∧
    Reports reply 4 (fun e => printed ++ s!"runtime error: {e.message}\n")
      (fun e => e.isOutOfGas = true)
      (fun e => result = .error (.machine e) ∧ e.isOutOfGas = true) ∧
    Reports reply 3 (fun e => printed ++ s!"runtime error: {e.message}\n")
      (fun e => e.isOutOfGas = false)
      (fun e => result = .error (.machine e) ∧ e.isOutOfGas = false) ∧
    (∀ id, result = .error (.noReturnValue id) → reply = ⟨0, "undefined\n", printed⟩) := by
  intro words reply result printed
  have hwords : words = settingWords false (some gas) ++ argumentWords pairs := rfl
  have matched : Matches path printed reply result := by
    unfold reply
    rw [hwords]
    exact matches_run_postCall hpath hread names hpairs hcontract now
  refine ⟨?_, matched.reports_source, matched.reports_machine true, matched.reports_machine false,
    ?_⟩
  · intro t ht
    rw [ht] at matched
    exact matched.exists_output
  · intro id hid
    rw [hid] at matched
    exact matched.reply_of_noReturnValue

/-- Prints a number and pays the bound address. -/
def tollTemplate : String := "PUSH 7\nPRINT\n<to>\nRETURN"

def tollTree : FileTree :=
  (FileTree.ofFiles [] [] []).put ["toll.tmpl"] tollTemplate.toUTF8

/-- A client that knows the template as its first contract. -/
def tollClient : Client :=
  .new "Alice" "alice" { Ledger.Block.genesis 10 with contracts := ⟨#[tollTemplate]⟩ }

def tollArgs : Bindings := .ofList [("to", "bob")]

/-- With the gas it needs the template prints the address that a call of it pays.
With one unit less it ends out of gas after the number was printed, and its report
tells how the call fails. Without its argument neither gets to evaluate it. -/
theorem run_tollTemplate :
    ((interaction none ["run", "toll.tmpl", "--no-verify", "--gas", "6", "--arg", "to=bob"]).run
      tollTree).1 = ⟨0, "bob\n", "7\n"⟩ ∧
    ((interaction none ["run", "toll.tmpl", "--no-verify", "--gas", "5", "--arg", "to=bob"]).run
      tollTree).1 =
      ⟨4, "", "7\nruntime error: out of gas at instruction 2: PUSHARG costs 3, 2 remaining\n"⟩ ∧
    (tollClient.postCall [] ⟨tollArgs, 5, 0, 5⟩ 1).2 =
      .error (.machine ⟨2, .outOfGas .pushArg 3 2⟩) ∧
    ((interaction none ["run", "toll.tmpl", "--no-verify", "--gas", "6"]).run tollTree).1 =
      ⟨1, "", "error: toll.tmpl: line 3: unbound argument 'to'\n"⟩ := by
  let p : Program := ⟨#[.instruction ⟨"PUSH", ["7"]⟩, .instruction ⟨"PRINT", []⟩,
    .instruction ⟨"PUSHARG", ["bob"]⟩, .instruction ⟨"RETURN", []⟩], ∅, rfl⟩
  have hcompile : Source.compile tollTemplate tollArgs = .ok p := rfl
  have hread : tollTree.read "toll.tmpl" = .ok tollTemplate :=
    FileTree.read_put (by decide) (by rfl) (by decide) tollTemplate
  have agree (args : Bindings) (names : ∀ pair ∈ args.entries, '=' ∉ pair.1.toList)
      (gas : UInt64) :=
    run_agrees_with_postCall none tollTree "toll.tmpl" tollTemplate (by decide) hread tollClient
      [] 1 args names args.entries (.refl _) gas 5 0 rfl
  have names : ∀ pair ∈ tollArgs.entries, '=' ∉ pair.1.toList := by decide
  have rich : (Machine.runWithin p Ledger.host 4 (.initial 6 #[])).isSome := rfl
  have poor : (Machine.runWithin p Ledger.host 4 (.initial 5 #[])).isSome := rfl
  have poorWrites : (Machine.runWithin p Command.host 4 (.initial 5 "")).isSome := rfl
  have richPrints : transcript tollTemplate tollArgs (UInt64.toNat 6) = "7\n" := by
    rw [transcript, hcompile]
    exact congrArg printedLines (Machine.run_eq_get rich)
  have poorPrints : transcript tollTemplate tollArgs (UInt64.toNat 5) = "7\n" := by
    rw [transcript, hcompile]
    exact congrArg printedLines (Machine.run_eq_get poor)
  have exhausted : ((interaction none
      ["run", "toll.tmpl", "--no-verify", "--gas", "5", "--arg", "to=bob"]).run tollTree).1 =
      ⟨4, "", "7\nruntime error: out of gas at instruction 2: PUSHARG costs 3, 2 remaining\n"⟩ :=
    (reply_run_of_ok (by decide) hread names (.refl _) hcompile none false (some 5)).trans
      (congrArg Command.evaluationReply (Machine.run_eq_get poorWrites))
  refine ⟨?_, exhausted, ?_, ?_⟩
  · have evaluates : tollClient.Evaluates ⟨tollArgs, 5, 0, 6⟩ (.ok (.returned (.text "bob"))) :=
      ⟨tollTemplate, p, rfl, hcompile, congrArg Machine.Halt.result (Machine.run_eq_get rich)⟩
    have paid := congrArg Prod.snd (evaluates.postCall_eq (by decide) [] 1)
    obtain ⟨output, hlast, reply⟩ := (agree tollArgs names 6).1 _ paid
    obtain rfl : ⟨"bob", 5⟩ = output := Option.some.inj hlast
    rw [richPrints] at reply
    exact reply
  · have told := (agree tollArgs names 5).2.2.1.fails_iff ⟨2, .outOfGas .pushArg 3 2⟩
    rw [poorPrints] at told
    exact (told.mpr ⟨rfl, exhausted⟩).1
  · have uncompiled : (tollClient.postCall [] ⟨∅, 5, 0, 6⟩ 1).2 =
        .error (.source ⟨3, .unboundArgument "to"⟩) := rfl
    exact (((agree ∅ (by decide) 6).2.1.fails_iff _).mp uncompiled).2

end MeteredLedger.Cli
