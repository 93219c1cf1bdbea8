import MeteredLedger.Cli.Command
import MeteredLedger.Proofs.Cli.FileTree

/-!
# What binding a template changes

A command to bind writes last, when nothing else can fail. So it ends with a
report and leaves all files as they were, or it replaces the one file that its
output leads to.

The command refuses to write to the path of its template. It compares the two
paths as they are spelled, and another spelling may lead to the template all the
same. The template is kept if the output leads elsewhere; otherwise it is lost,
unless it was in canonical form already.
-/

namespace MeteredLedger.Cli

/-- An interaction that needs a value ends without one, or goes on with it. -/
theorem Interaction.run_ofExcept_cases (tree : FileTree) (report : ε → String)
    (next : α → Interaction) (result : Except ε α) :
    (∃ e, (ofExcept report next result).run tree = (⟨1, "", report e⟩, tree)) ∨
      ∃ a, result = .ok a ∧ ofExcept report next result = next a := by
  cases result with
  | error e => exact .inl ⟨e, rfl⟩
  | ok a => exact .inr ⟨a, rfl, rfl⟩

namespace Command

/-- The template that options name, the path they let the program be written to,
and the program. -/
structure Binds (tree : FileTree) (o : Options) (input template output : String) (p : Program) :
    Prop where
  input_eq : o.input = some input
  output_eq : o.output.getD (defaultOutput input) = output
  read : tree.read input = .ok template
  compiled : Source.compile template o.bindings = .ok p

/-- Binding fails and changes nothing, or ends with a write. -/
theorem run_bindFile_cases (tree : FileTree) (o : Options) :
    (∃ report, (bindFile o).run tree = (⟨1, "", report⟩, tree)) ∨
      ∃ input template output p written, Binds tree o input template output p ∧
        output ≠ input ∧ tree.write output p.render = .ok written ∧
        (bindFile o).run tree = (⟨0, "", s!"bound {p.size} lines -> {output}\n"⟩, written) := by
  rw [bindFile, withInput]
  cases hinput : o.input with
  | none => exact .inl ⟨_, rfl⟩
  | some input =>
    dsimp only
    generalize houtput : o.output.getD (defaultOutput input) = output
    by_cases hsame : output = input
    · rw [if_pos hsame]
      exact .inl ⟨_, rfl⟩
    rw [if_neg hsame, withText, Interaction.run_read]
    rcases Interaction.run_ofExcept_cases tree _ _ (tree.read input) with
      ⟨e, hfail⟩ | ⟨template, hread, hnext⟩
    · exact .inl ⟨_, hfail⟩
    rw [hnext]
    rcases Interaction.run_ofExcept_cases tree _ _ (Source.compile template o.bindings) with
      ⟨e, hfail⟩ | ⟨p, hcompile, hnext⟩
    · exact .inl ⟨_, hfail⟩
    rw [hnext]
    cases hwrite : tree.write output p.render with
    | error e =>
      rw [Interaction.run_write_of_error hwrite]
      exact .inl ⟨_, rfl⟩
    | ok written =>
      rw [Interaction.run_write_of_ok hwrite]
      exact .inr ⟨input, template, output, p, written, ⟨hinput, houtput, hread, hcompile⟩, hsame,
        hwrite, rfl⟩

end Command

/-- The same for a whole line, whose options may be wrong. -/
theorem run_bind_cases [Ledger.Block.Wording] {line words : List String}
    (h : line.filter (!asksForLog ·) = "bind" :: words) (now : Option Int64) (tree : FileTree) :
    (∃ report, (interaction now line).run tree = (⟨1, "", report⟩, tree)) ∨
      ∃ o input template output p written, Options.ofWords words = .ok o ∧
        Command.Binds tree o input template output p ∧ output ≠ input ∧
        tree.write output p.render = .ok written ∧
        (interaction now line).run tree =
          (⟨0, "", s!"bound {p.size} lines -> {output}\n"⟩, written) := by
  have hline : interaction now line = .ofExcept (fun e => Command.errorLine e.message)
      Command.bindFile (Options.ofWords words) := by
    rw [interaction, h]
    rfl
  rw [hline]
  cases hoptions : Options.ofWords words with
  | error e => exact .inl ⟨_, rfl⟩
  | ok o =>
    rcases Command.run_bindFile_cases tree o with
      failed | ⟨input, template, output, p, written, done⟩
    · exact .inl failed
    · exact .inr ⟨o, input, template, output, p, written, rfl, done⟩

/-- Binding replaces the output and nothing else. A command line to bind that
ends with a failure has changed no file. One that ends well has compiled the
template and written the canonical form of the program to the output: this file
holds it as a whole, and at every other location stands what stood there before.
The template still reads as it did exactly if the output leads to another
location, however the two paths are spelled, or if the template was in canonical
form already. -/
theorem bind_replaces_output_only [Ledger.Block.Wording] {line words : List String}
    (h : line.filter (!asksForLog ·) = "bind" :: words) (now : Option Int64) (tree : FileTree) :
    let bound := (interaction now line).run tree
    (bound.1.exitCode ≠ 0 → bound.2 = tree) ∧
    (bound.1.exitCode = 0 →
      ∃ o input template output p location, Options.ofWords words = .ok o ∧
        Command.Binds tree o input template output p ∧ tree.locate output = .ok location ∧
        bound.2.read output = .ok p.render ∧
        bound.2.node? location = some (.file p.render.toUTF8) ∧
        (∀ other, other ≠ location → bound.2.node? other = tree.node? other) ∧
        (bound.2.read input = .ok template ↔
          tree.locate input ≠ .ok location ∨ template = p.render)) := by
  intro bound
  rcases run_bind_cases h now tree with
    ⟨report, hfail⟩ | ⟨o, input, template, output, p, written, hoptions, binds, -, hwrite, hdone⟩
  · have hbound : bound = _ := hfail
    rw [hbound]
    refine ⟨fun _ => rfl, ?_⟩
    intro hzero
    simp at hzero
  · have hbound : bound = _ := hdone
    rw [hbound]
    refine ⟨fun hfailed => absurd rfl hfailed, ?_⟩
    intro _
    obtain ⟨location, hlocate, hfile, hothers⟩ := FileTree.exists_location_of_write hwrite
    refine ⟨o, input, template, output, p, location, hoptions, binds, hlocate,
      FileTree.read_of_write hwrite, hfile, hothers, ?_⟩
    rw [← hlocate]
    exact FileTree.read_written_eq_iff hwrite binds.read

/-- A template beside a program that was bound earlier. -/
def payTree : FileTree :=
  .ofFiles [] [] [(["pay.tmpl"], "<to>\nRETURN\n".toUTF8), (["pay.gleam"], "RETURN\n".toUTF8)]

/-- Bound without an output, the template gets a program beside it and is kept.
Without its argument it is not bound, and the earlier program is kept, too. -/
theorem payTree_bind_replaces_output_only :
    let words := ["pay.tmpl", "--arg", "to=bob"]
    let bound := (interaction none ("-v" :: "bind" :: words)).run payTree
    let unbound := (interaction none ["bind", "pay.tmpl"]).run payTree
    ("-v" :: "bind" :: words).filter (!asksForLog ·) = "bind" :: words ∧
    (bound.1.exitCode = 0 ∧ bound.2.read "pay.gleam" = .ok "PUSHARG bob\nRETURN\n" ∧
      bound.2.read "pay.tmpl" = .ok "<to>\nRETURN\n") ∧
    (unbound.1.exitCode = 1 ∧ unbound.2 = payTree) := by
  intro words bound unbound
  have hfilter : ("-v" :: "bind" :: words).filter (!asksForLog ·) = "bind" :: words := by decide
  have hbound : bound.1.exitCode = 0 := by decide
  have hunbound : unbound.1.exitCode = 1 := by decide
  refine ⟨hfilter, ⟨hbound, ?_⟩, hunbound, ?_⟩
  · obtain ⟨o, input, template, output, p, location, hoptions, binds, hlocate, hread, -, -, kept⟩ :=
      (bind_replaces_output_only hfilter none payTree).2 hbound
    obtain rfl : { input := some "pay.tmpl", bindings := .ofList [("to", "bob")] } = o :=
      Except.ok.inj hoptions
    obtain rfl : "pay.tmpl" = input := Option.some.inj binds.input_eq
    obtain rfl : "pay.gleam" = output := by
      rw [← binds.output_eq]
      decide
    have htemplate : payTree.read "pay.tmpl" = .ok "<to>\nRETURN\n" := rfl
    obtain rfl : "<to>\nRETURN\n" = template := Except.ok.inj (htemplate.symm.trans binds.read)
    have hprogram : (Source.compile "<to>\nRETURN\n" (.ofList [("to", "bob")])).map
        Program.render = .ok "PUSHARG bob\nRETURN\n" := rfl
    rw [binds.compiled] at hprogram
    have hrender : p.render = "PUSHARG bob\nRETURN\n" := Except.ok.inj hprogram
    have apart : payTree.locate "pay.tmpl" ≠ .ok location := by
      rw [← hlocate]
      intro same
      exact absurd (Except.ok.inj same) (by decide)
    exact ⟨hrender ▸ hread, kept.mpr (.inl apart)⟩
  · have hsilent : ["bind", "pay.tmpl"].filter (!asksForLog ·) = ["bind", "pay.tmpl"] := by decide
    have failed : unbound.1.exitCode ≠ 0 := by simp [hunbound]
    exact (bind_replaces_output_only hsilent none payTree).1 failed

/-- Another spelling of its path lets a template be overwritten. -/
theorem bind_overwrites_template_spelled_otherwise :
    let bound := (interaction none
      ["bind", "pay.tmpl", "--arg", "to=bob", "-o", "./pay.tmpl"]).run payTree
    payTree.read "pay.tmpl" = .ok "<to>\nRETURN\n" ∧
    bound.1 = ⟨0, "", "bound 2 lines -> ./pay.tmpl\n"⟩ ∧
    bound.2.read "pay.tmpl" = .ok "PUSHARG bob\nRETURN\n" :=
  ⟨rfl, rfl, rfl⟩

end MeteredLedger.Cli
