import MeteredLedger.Proofs.Machine.Execution
import MeteredLedger.Proofs.Program
import MeteredLedger.Proofs.Verification.Reachability

/-!
# Dead code never runs

The search follows a jump to the marker it names, and the machine resumes on the
line after the marker. Either way control stays among the marked lines: a line
leads to one of its successors, or past a marker that is one of them. So every
line that an evaluation fetches is marked.

What is not fetched does not matter. A step looks at the current line and at the
label table only, so that a program whose unreachable instructions are exchanged
for others takes the same steps.
-/

namespace MeteredLedger

namespace Machine

open Verification

section

variable {p : Program} {host : Host σ} {s t : State σ} {i : Instruction} {opcode : Opcode}
variable {op : Operation} {store : Store σ}

/-! ## Lines that are fetched -/

/-- Control is past the last line, or at a line that the search has marked. -/
def Live (p : Program) (index : Nat) : Prop :=
  index < p.size → isReachable p (reachable p) index = true

theorem live_zero (p : Program) : Live p 0 :=
  isReachable_zero

theorem Live.successor {index next : Nat} (live : Live p index) (inside : index < p.size)
    (h : next ∈ successors p index) : Live p next :=
  isReachable_of_mem_successors (live inside) h

/-- Neither a jump nor a return hands control to the next line. -/
theorem perform_ne_next (hdecode : Operation.decode p opcode i.args = .ok op)
    (h : opcode = .jump ∨ opcode = .ret) : perform host op s.store ≠ ⟨store, .ok .next⟩ := by
  rcases h with rfl | rfl
  · cases hread : Operation.readLabel p .jump i.args with
    | error fault => simp [Operation.decode, hread, Except.map] at hdecode
    | ok target =>
      obtain rfl : .jump target = op := by simpa [Operation.decode, hread, Except.map] using hdecode
      simp [perform]
  · obtain rfl : .ret = op := by simpa [Operation.decode] using hdecode
    rw [perform, Store.withOperand]
    split <;> simp [Store.fail]

theorem Fetched.next_mem_successors (fetched : Fetched p s i opcode)
    (hdecode : Operation.decode p opcode i.args = .ok op)
    (hperform : perform host op s.store = ⟨store, .ok .next⟩) :
    s.pc + 1 ∈ successors p s.pc := by
  have hjump : opcode ≠ .jump := fun h => perform_ne_next hdecode (.inl h) hperform
  have hret : opcode ≠ .ret := fun h => perform_ne_next hdecode (.inr h) hperform
  simp only [successors, fetched.line, fetched.known]
  cases opcode <;> simp at hjump hret ⊢

/-- The marker that a jump goes to is one of its successors. -/
theorem Fetched.target_mem_successors {label : String} {rest : List String} {target : Nat}
    (fetched : Fetched p s i opcode) (jump : opcode.isJump = true) (hargs : i.args = label :: rest)
    (hlabel : p.labelIndex? label = some target) : target ∈ successors p s.pc := by
  simp only [successors, fetched.line, fetched.known, hargs]
  cases opcode <;> simp [Opcode.isJump] at jump <;> simp [hlabel]

theorem mem_successors_of_marker {index : Nat} {name : String}
    (h : p.line? index = some (.label name)) : index + 1 ∈ successors p index := by
  simp [successors, h]

/-- Control stays among the marked lines. -/
theorem Rule.live (rule : Rule p host s (.next t)) (live : Live p s.pc) : Live p t.pc := by
  cases rule with
  | marker hline =>
    exact live.successor (Program.lt_size_of_line? hline) (mem_successors_of_marker hline)
  | proceeds fetched hdecode hperform =>
    have inside := Program.lt_size_of_line? fetched.line
    exact live.successor inside (fetched.next_mem_successors hdecode hperform)
  | jumps fetched hdecode hperform =>
    obtain ⟨jump, label, rest, hargs, hlabel⟩ :=
      Operation.exists_label_of_decode hdecode (target?_of_perform hperform)
    -- the marker itself is passed over, but the search goes through it
    have marker := live.successor (Program.lt_size_of_line? fetched.line)
      (fetched.target_mem_successors jump hargs hlabel)
    have hline := Program.labelIndex?_eq_some_iff.mp hlabel
    exact marker.successor (Program.lt_size_of_line? hline) (mem_successors_of_marker hline)

theorem Steps.live {n : Nat} (steps : Steps p host n s t) (live : Live p s.pc) : Live p t.pc := by
  induction steps with
  | refl => exact live
  | cons hstep _ ih => exact ih ((step_eq_iff.mp hstep).live live)

/-! ## Programs with the same live lines -/

/-- The label table is all that decoding takes from the program. -/
theorem decode_congr {q : Program} (hlabel : q.labelIndex? = p.labelIndex?) (opcode : Opcode)
    (args : List String) : Operation.decode q opcode args = Operation.decode p opcode args := by
  cases opcode <;> simp only [Operation.decode, Operation.readLabel, hlabel]

/-- The current line and the label table are all that a step takes from the program. -/
theorem step_congr {q : Program} (hline : q.line? s.pc = p.line? s.pc)
    (hlabel : q.labelIndex? = p.labelIndex?) : step q host s = step p host s := by
  simp only [step, execute, hline, decode_congr hlabel]

/-- A program that has the same labels and the same live lines runs alike. -/
theorem run_eq_of_live {q : Program} (hlabel : q.labelIndex? = p.labelIndex?)
    (hline : ∀ index, Live p index → q.line? index = p.line? index) (s : State σ) :
    Live p s.pc → run q host s = run p host s := by
  apply run_induction (motive := fun s h => Live p s.pc → run q host s = h)
  · intro s h rule live
    exact run_of_halt ((step_congr (hline _ live) hlabel).trans rule.step_eq)
  · intro s t h rule ih live
    rw [run_of_next ((step_congr (hline _ live) hlabel).trans rule.step_eq)]
    exact ih (rule.live live)

end

end Machine

namespace Verification

open Machine

/-- The lines of a program, with other instructions in place of some of those
that are reported as unreachable. -/
def RewritesDead (p : Program) (lines : Array Line) : Prop :=
  ∀ index, lines[index]? = p.line? index ∨
    .flawed index .unreachable ∈ checkReachability p ∧
      ∃ i, lines[index]? = some (.instruction i)

section

variable {p : Program} {lines : Array Line} {index : Nat}

theorem rewritesDead_refl (p : Program) : RewritesDead p p.lines :=
  fun _ => .inl rfl

/-- One more of the reported instructions is exchanged. -/
theorem RewritesDead.set (h : RewritesDead p lines)
    (dead : .flawed index .unreachable ∈ checkReachability p) (i : Instruction) :
    RewritesDead p (lines.setIfInBounds index (.instruction i)) := by
  intro index'
  rw [Array.getElem?_setIfInBounds]
  split
  · next heq =>
    subst heq
    split
    · exact .inr ⟨dead, i, rfl⟩
    · next outside =>
      have hnone := Array.getElem?_eq_none (Nat.le_of_not_lt outside)
      rw [← hnone]
      exact h index
  · exact h index'

theorem RewritesDead.getElem?_eq_of_live (h : RewritesDead p lines) (live : Live p index) :
    lines[index]? = p.line? index := by
  rcases h index with hsame | ⟨hdead, -⟩
  · exact hsame
  · obtain ⟨⟨i, hline⟩, unmarked⟩ := mem_checkReachability_iff.mp hdead
    simp [live (Program.lt_size_of_line? hline)] at unmarked

/-- The markers stay where they are. -/
theorem RewritesDead.map_marker?_eq (h : RewritesDead p lines) :
    lines.toList.map Line.marker? = p.lines.toList.map Line.marker? := by
  apply List.ext_getElem?
  intro index
  rw [List.getElem?_map, List.getElem?_map, Array.getElem?_toList, Array.getElem?_toList]
  rcases h index with hsame | ⟨hdead, i, hnew⟩
  · rw [hsame, Program.line?]
  · obtain ⟨⟨j, hold⟩, -⟩ := mem_checkReachability_iff.mp hdead
    rw [Program.line?] at hold
    rw [hnew, hold]
    rfl

end

/-- Dead code never runs. Every line that an evaluation fetches is marked by the
search, with every host, limit and memory and whether or not the program was
verified. So the instructions that are reported as unreachable can be exchanged
for any others: the lines still make a program, and all its evaluations end as
before, in the same state with the same result. -/
theorem dead_code_never_runs (p : Program) :
    (∀ (σ : Type) (host : Host σ) (limit : Nat) (memory : σ) (n : Nat) (s : State σ),
      Steps p host n (.initial limit memory) s → ∀ h : s.pc < p.size, (reachable p)[s.pc] = true) ∧
    ∀ lines, RewritesDead p lines → ∃ q, Program.ofLines lines = .ok q ∧
      ∀ (σ : Type) (host : Host σ) (limit : Nat) (memory : σ),
        evaluate q host limit memory = evaluate p host limit memory := by
  constructor
  · intro σ host limit memory n s steps inside
    rw [← isReachable_of_lt inside]
    exact steps.live (live_zero p) inside
  · intro lines rewrites
    obtain ⟨q, hq, hlines, hlabel⟩ := Program.exists_ofLines_of_markers rewrites.map_marker?_eq
    refine ⟨q, hq, ?_⟩
    intro σ host limit memory
    apply run_eq_of_live hlabel ?_ _ (live_zero p)
    intro index live
    rw [Program.line?, hlines]
    exact rewrites.getElem?_eq_of_live live

/-- A jump over dead code to a marker, with a marker that nothing reaches and a
jump back after the return. -/
def detour : Program :=
  ⟨#[.instruction ⟨"JUMP", ["end"]⟩, .instruction ⟨"PUSH", ["1"]⟩, .label "end",
    .instruction ⟨"PUSHARG", ["bob"]⟩, .instruction ⟨"RETURN", []⟩, .label "spare",
    .instruction ⟨"JUMP", ["end"]⟩],
    ((∅ : LabelTable).insert "end" 2).insert "spare" 5, rfl⟩

/-- The lines that control reaches: the jump, and the marker with what follows it. -/
def detourMarks : Marks detour.size :=
  #v[true, false, true, true, true, false, false]

theorem reachable_detour : reachable detour = detourMarks :=
  calc explore detour (Vector.replicate _ false) [0]
    _ = explore detour #v[true, false, false, false, false, false, false] [2] :=
      explore_cons_of_unmarked (by decide) rfl
    _ = explore detour #v[true, false, true, false, false, false, false] [3] :=
      explore_cons_of_unmarked (by decide) rfl
    _ = explore detour #v[true, false, true, true, false, false, false] [4] :=
      explore_cons_of_unmarked (by decide) rfl
    _ = explore detour detourMarks [] := explore_cons_of_unmarked (by decide) rfl
    _ = detourMarks := explore_nil

/-- The lines of the detour, with an unknown operation and a jump to a missing
label in place of its dead instructions. -/
def spoiledDetour : Array Line :=
  (detour.lines.setIfInBounds 1 (.instruction ⟨"BOGUS", ["x"]⟩)).setIfInBounds 6
    (.instruction ⟨"JUMP", ["nowhere"]⟩)

/-- The machine comes to the return of the detour, which is marked, and a spoiled
detour evaluates like the detour itself. -/
theorem detour_dead_code_never_runs :
    checkReachability detour = [.flawed 1 .unreachable, .flawed 6 .unreachable] ∧
    (∃ s, Steps detour .detached 2 (.initial 20 ()) s ∧ s.pc = 4 ∧
      isReachable detour (reachable detour) 4 = true) ∧
    RewritesDead detour spoiledDetour ∧
    ∃ q, Program.ofLines spoiledDetour = .ok q ∧ q ≠ detour ∧
      ∀ limit, evaluate q .detached limit () = evaluate detour .detached limit () := by
  have reported : checkReachability detour = [.flawed 1 .unreachable, .flawed 6 .unreachable] := by
    rw [checkReachability, reachable_detour]
    rfl
  obtain ⟨fetched, unchanged⟩ := dead_code_never_runs detour
  have steps : Steps detour .detached 2 (.initial 20 ()) _ := .cons rfl (.cons rfl (.refl _))
  have rewrites : RewritesDead detour spoiledDetour :=
    ((rewritesDead_refl detour).set (by simp [reported]) _).set (by simp [reported]) _
  obtain ⟨q, hq, same⟩ := unchanged spoiledDetour rewrites
  refine ⟨reported, ⟨_, steps, rfl, ?_⟩, rewrites, q, hq, ?_, fun limit => same Unit _ limit ()⟩
  · rw [isReachable_of_lt (by decide)]
    exact fetched Unit _ 20 () 2 _ steps (by decide)
  · rintro rfl
    have hlines := Program.ofLines_eq_ok_iff.mp hq
    exact absurd hlines (by decide)

end Verification

end MeteredLedger
