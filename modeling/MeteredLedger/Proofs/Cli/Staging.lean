import MeteredLedger.Proofs.Cli.Binding
import MeteredLedger.Proofs.Cli.CommandLine
import MeteredLedger.Proofs.Machine.Execution
import MeteredLedger.Proofs.Source.Rendering
import MeteredLedger.Proofs.Source.Substitution

/-!
# Staged files

A template can be evaluated with its arguments at once, or be bound first and
evaluated from the file that binding wrote. The file holds the program in
canonical form. Text that loads has no placeholders left, whatever its arguments
look like, so compiling it with any arguments is loading it, and both ways come
to the same program.
-/

namespace MeteredLedger

/-! ## Text without placeholders -/

namespace Source

variable {text template : String} {args leftover : Bindings} {p : Program}

theorem exists_readLine_of_load (h : load text = .ok p) {source : Nat × List Char}
    (hsource : source ∈ codeLines text) :
    ∃ line, readLine .refused source.1 source.2 = .ok (some line) := by
  obtain ⟨lines, hlines, -⟩ := load_eq_ok_iff.mp h
  rw [readLines_eq_ok_iff] at hlines
  generalize codeLines text = sources at hlines hsource
  induction hlines with
  | nil => simp at hsource
  | cons hline _ ih =>
    rcases List.mem_cons.mp hsource with rfl | hsource
    · exact ⟨_, hline⟩
    · exact ih hsource

/-- A placeholder is malformed in text that is ready to run. -/
theorem placeholderNames_eq_nil_of_load (h : load text = .ok p) : placeholderNames text = [] := by
  rw [List.eq_nil_iff_forall_not_mem]
  intro name hname
  obtain ⟨line, hline, hrow⟩ := mem_placeholderNames.mp hname
  have hmem : line ∈ (numberedLines text).map fun x => id x.2 := by
    rw [map_numberedLines, List.map_id]
    exact hline
  obtain ⟨source, hsource, rfl⟩ := List.mem_map.mp hmem
  have hcode : source ∈ codeLines text :=
    List.mem_filter.mpr ⟨hsource, by simpa using fun hblank => nomatch hblank.symm.trans hrow⟩
  obtain ⟨read, hread⟩ := exists_readLine_of_load h hcode
  rw [id_eq] at hrow
  simp [readLine, hrow, Row.line?] at hread

theorem boundLine_of_ne_placeholder {line : List Char}
    (h : ∀ name, Row.ofLine line ≠ .placeholder name) : boundLine args line = line := by
  cases hrow : Row.ofLine line with
  | placeholder name => exact absurd hrow (h name)
  | blank | label name | words ws => simp only [boundLine, hrow]

/-- Text that loads is the same program for every set of arguments. -/
theorem compile_of_load (h : load text = .ok p) (args : Bindings) : compile text args = .ok p := by
  have hnames := placeholderNames_eq_nil_of_load h
  obtain ⟨bound, hbind⟩ : ∃ bound, bind text args = .ok bound := by
    apply exists_bind_of_forall_isToken
    simp [hnames]
  have ready {x : Nat × List Char} (hx : x ∈ numberedLines text) : boundLine args x.2 = x.2 := by
    apply boundLine_of_ne_placeholder
    intro name hrow
    have hname := mem_placeholderNames.mpr ⟨_, mem_lines_of_mem_numberedLines hx, hrow⟩
    simp [hnames] at hname
  have hall := (numberedLines_of_bind hbind).1
  have hread : readLines .refused text =
      (outline text).map (List.map (fillSlot (boundValue args))) := by
    apply readLines_eq_map_outline id (List.map_id _).symm
    intro x hx
    rw [← readLine_boundLine (hall x hx), readLine_dropReturn, ready hx, id_eq]
  have hload : load bound = load text := by
    rw [load, load, parse, parse, readLines_of_bind hbind, hread]
  exact compile_eq_ok_iff.mpr ⟨bound, hbind, hload.trans h⟩

/-- A program that was compiled is compiled again from its canonical form, with
whatever arguments. -/
theorem compile_render (h : compile template args = .ok p) (leftover : Bindings) :
    compile p.render leftover = .ok p := by
  obtain ⟨text, -, hload⟩ := compile_eq_ok_iff.mp h
  exact compile_of_load (load_render (wellFormed_of_load hload)) leftover

end Source

/-! ## Binding into a file -/

namespace Cli

/-- What a command to bind has done when it ends well. -/
theorem Command.run_bindFile_of_exitCode {tree : FileTree} {path output : String} {o : Options}
    (hinput : o.input = some path) (houtput : o.output = some output)
    (h : ((bindFile o).run tree).1.exitCode = 0) :
    ∃ template p, tree.read path = .ok template ∧ Source.compile template o.bindings = .ok p ∧
      tree.write output p.render = .ok ((bindFile o).run tree).2 := by
  rcases run_bindFile_cases tree o with
    ⟨report, hfail⟩ | ⟨input, template, output', p, written, binds, -, hwrite, hdone⟩
  · simp [hfail] at h
  · obtain rfl : path = input := by simpa [hinput] using binds.input_eq
    obtain rfl : output = output' := by simpa [houtput] using binds.output_eq
    refine ⟨template, p, binds.read, binds.compiled, ?_⟩
    rw [hwrite, hdone]

theorem reply_run_without_arguments [Ledger.Block.Wording] {tree : FileTree}
    {path text : String} {p : Program} (hpath : IsOperand path)
    (hread : tree.read path = .ok text) (hcompile : Source.compile text ∅ = .ok p)
    (now : Option Int64) (verified : Bool) (gas : Option UInt64) :
    ((interaction now ("run" :: path :: settingWords verified gas)).run tree).1 =
      Command.programReply verified gas p := by
  have names : ∀ pair ∈ (∅ : Bindings).entries, '=' ∉ pair.1.toList :=
    fun _ h => absurd h List.not_mem_nil
  have hreply := reply_run_of_ok hpath hread names .nil hcompile now verified gas
  rwa [argumentWords, List.flatMap_nil, List.append_nil] at hreply

/-- Staging keeps the program. What was compiled from a template is compiled
again from its canonical form, whatever arguments are left over. A template that
is bound into another file is run from there with the same reply, for the same
settings, as directly with the arguments, be it before or after it is bound. -/
theorem staging_preserves_program [Ledger.Block.Wording] (args : Bindings) :
    (∀ template leftover p, Source.compile template args = .ok p →
      Source.compile p.render leftover = .ok p) ∧
    ∀ (now later : Option Int64) (tree : FileTree) (path output : String)
      (pairs : List (String × String)) (verified : Bool) (gas : Option UInt64),
      IsOperand path → IsOperand output → (∀ pair ∈ args.entries, '=' ∉ pair.1.toList) →
      pairs.Perm args.entries →
      let bound :=
        (interaction now ("bind" :: path :: (argumentWords pairs ++ ["-o", output]))).run tree
      let reply (files : FileTree) (words : List String) : Reply :=
        ((interaction later ("run" :: words)).run files).1
      bound.1.exitCode = 0 →
      reply bound.2 (output :: settingWords verified gas) =
        reply tree (path :: (settingWords verified gas ++ argumentWords pairs)) ∧
      reply bound.2 (output :: settingWords verified gas) =
        reply bound.2 (path :: (settingWords verified gas ++ argumentWords pairs)) := by
  refine ⟨fun template leftover p h => Source.compile_render h leftover, ?_⟩
  intro now later tree path output pairs verified gas hpath houtput names hpairs bound reply hexit
  obtain ⟨template, p, hread, hcompile, hwrite⟩ : ∃ template p, tree.read path = .ok template ∧
      Source.compile template args = .ok p ∧ tree.write output p.render = .ok bound.2 := by
    unfold bound at hexit ⊢
    rw [interaction_bind hpath houtput names hpairs] at hexit ⊢
    let o : Options := { input := some path, bindings := args, output := some output }
    exact Command.run_bindFile_of_exitCode (o := o) rfl rfl hexit
  have staged : reply bound.2 (output :: settingWords verified gas) =
      Command.programReply verified gas p :=
    reply_run_without_arguments houtput (FileTree.read_of_write hwrite)
      (Source.compile_render hcompile ∅) later verified gas
  have direct : reply tree (path :: (settingWords verified gas ++ argumentWords pairs)) =
      Command.programReply verified gas p :=
    reply_run_of_ok hpath hread names hpairs hcompile later verified gas
  have afterwards : reply bound.2 (path :: (settingWords verified gas ++ argumentWords pairs)) =
      Command.programReply verified gas p := by
    -- the two paths may lead to one file, which then holds the program
    rcases FileTree.read_of_write_of_read hwrite hread with hread | hread
    · exact reply_run_of_ok hpath hread names hpairs (Source.compile_render hcompile args) later
        verified gas
    · exact reply_run_of_ok hpath hread names hpairs hcompile later verified gas
  exact ⟨staged.trans direct.symm, staged.trans afterwards.symm⟩

/-- A template with a remark at its placeholder. -/
def remarkedTemplate : String := "# to whom\n<to> # the payee\nRETURN"

def remarkedTree : FileTree :=
  .ofFiles [] [] [(["pay.tmpl"], remarkedTemplate.toUTF8)]

/-- The program of the template with the text of its placeholder as the argument. -/
def remarkedProgram : Program :=
  ⟨#[.instruction ⟨"PUSHARG", ["<to>"]⟩, .instruction ⟨"RETURN", []⟩], ∅, rfl⟩

section

open Verification

theorem reachable_remarkedProgram :
    reachable remarkedProgram = Vector.replicate remarkedProgram.size true :=
  calc explore remarkedProgram (Vector.replicate _ false) [0]
    _ = explore remarkedProgram #v[true, false] [1] := explore_cons_of_unmarked (by decide) rfl
    _ = explore remarkedProgram #v[true, true] [] := explore_cons_of_unmarked (by decide) rfl
    _ = Vector.replicate remarkedProgram.size true := explore_nil

theorem verify_remarkedProgram : remarkedProgram.verify = [] := by
  have checked : checkReachability remarkedProgram = [] := by
    rw [checkReachability, reachable_remarkedProgram]
    rfl
  rw [Program.verify, checked]
  rfl

end

/-- An argument that looks like the placeholder it is bound to is not bound a
second time, neither by other arguments nor when the staged file is run: it is
printed as it was given. -/
theorem remarkedTemplate_staged :
    Source.compile remarkedTemplate (.ofList [("to", "<to>")]) = .ok remarkedProgram ∧
    remarkedProgram.render = "PUSHARG <to>\nRETURN\n" ∧
    Source.compile remarkedProgram.render (.ofList [("to", "bob")]) = .ok remarkedProgram ∧
    let bound := (interaction none
      ["bind", "pay.tmpl", "--arg", "to=<to>", "-o", "pay.gleam"]).run remarkedTree
    bound.1 = ⟨0, "", "bound 2 lines -> pay.gleam\n"⟩ ∧
    ((interaction none ["run", "pay.tmpl", "--gas", "3", "--arg", "to=<to>"]).run
      remarkedTree).1 = ⟨0, "<to>\n", ""⟩ ∧
    ((interaction none ["run", "pay.gleam", "--gas", "3"]).run bound.2).1 = ⟨0, "<to>\n", ""⟩ := by
  have staging := staging_preserves_program (.ofList [("to", "<to>")])
  have hcompile : Source.compile remarkedTemplate (.ofList [("to", "<to>")]) =
      .ok remarkedProgram := rfl
  have names : ∀ pair ∈ (Bindings.ofList [("to", "<to>")]).entries, '=' ∉ pair.1.toList := by
    decide
  refine ⟨hcompile, by decide, staging.1 remarkedTemplate _ _ hcompile, ?_⟩
  intro bound
  have hbound : bound.1 = ⟨0, "", "bound 2 lines -> pay.gleam\n"⟩ := by decide
  have direct : ((interaction none ["run", "pay.tmpl", "--gas", "3", "--arg", "to=<to>"]).run
      remarkedTree).1 = ⟨0, "<to>\n", ""⟩ := by
    have hread : remarkedTree.read "pay.tmpl" = .ok remarkedTemplate := rfl
    have hreply := reply_run_of_ok (by decide) hread names (.refl _) hcompile none true (some 3)
    have ended : (Machine.runWithin remarkedProgram Command.host 2 (.initial 3 "")).isSome := rfl
    rw [Command.programReply, if_neg (by simp [verify_remarkedProgram])] at hreply
    exact hreply.trans (congrArg Command.evaluationReply (Machine.run_eq_get ended))
  have staged := staging.2 none none remarkedTree "pay.tmpl" "pay.gleam" [("to", "<to>")] true
    (some 3) (by decide) (by decide) names (.refl _) (congrArg Reply.exitCode hbound)
  exact ⟨hbound, direct, staged.1.trans direct⟩

end Cli

end MeteredLedger
