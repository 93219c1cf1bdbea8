import MeteredLedger.Ledger.Client
import MeteredLedger.Proofs.Machine.Printing

/-!
# Many evaluations on one machine

The host of a ledger answers from the text it is asked about, and only adds to
its record. So a machine can be used again and again: whatever its earlier
evaluations printed, left on the stack or failed at, the next one ends as it
would on a new machine, and adds the same values to the record.
-/

namespace MeteredLedger.Ledger

open Machine

/-- The host adds the printed values to its record, in order. -/
theorem toList_afterPrinting_host [Block.Wording] (record : Array Value) (printed : List Value) :
    (host.afterPrinting record printed).toList = record.toList ++ printed.reverse := by
  induction printed with
  | nil => simp [Host.afterPrinting]
  | cons v earlier ih =>
    have hpush : host.afterPrinting record (v :: earlier) =
        (host.afterPrinting record earlier).push v := rfl
    rw [hpush, Array.toList_push, ih, List.reverse_cons, List.append_assoc]

/-- The answers of the host come from the text alone. -/
theorem host_answers [Block.Wording] (record : Array Value) :
    host.Answers record blockTimestamp := by
  intro printed text
  simp only [host]

section

variable [Block.Wording] (p : Program) (limit : Nat) (record : Array Value)

/-- An evaluation adds to the record what it adds to an empty one. -/
theorem toList_record_evaluate :
    (evaluate p host limit record).state.store.host.toList =
      record.toList ++ (evaluate p host limit #[]).state.store.host.toList := by
  have same := sameEnd_evaluate (host_answers record) (host_answers #[]) p limit
  rw [evaluate_host (host_answers record), evaluate_host (host_answers #[]),
    toList_afterPrinting_host, toList_afterPrinting_host, same.printed]
  rfl

/-- Each of `n` evaluations on one machine adds the same values to the record. -/
theorem toList_record_afterEvaluations (n : Nat) :
    (afterEvaluations p host limit (.initial limit record) n).store.host.toList =
      record.toList ++
        (List.replicate n (evaluate p host limit #[]).state.store.host.toList).flatten := by
  induction n with
  | zero => simp [afterEvaluations, State.initial]
  | succ n ih =>
    rw [afterEvaluations, reevaluate_eq_evaluate, toList_record_evaluate, ih, List.append_assoc,
      List.replicate_succ', List.flatten_concat]

end

/-- Printing and earlier evaluations never influence a result. Take two hosts
that give the same answers, whatever either of them has printed. An evaluation
ends alike with both, prints the same values, and leaves each host as these
values make it. Hence on one machine with the host of a ledger every evaluation
ends like the first one on a new machine, however many came before and whatever
became of them, and each adds the same values to the record. -/
theorem printing_never_interferes [Block.Wording] (p : Program) (limit : Nat) :
    (∀ (σ τ : Type) (h : Host σ) (memory : σ) (h' : Host τ) (memory' : τ),
      (∀ printed printed' text, h.timestamp (h.afterPrinting memory printed) text =
        h'.timestamp (h'.afterPrinting memory' printed') text) →
      SameEnd (evaluate p h limit memory) (evaluate p h' limit memory') ∧
      (evaluate p h limit memory).state.store.host =
        h.afterPrinting memory (evaluate p h limit memory).state.store.printed ∧
      (evaluate p h' limit memory').state.store.host =
        h'.afterPrinting memory' (evaluate p h limit memory).state.store.printed) ∧
    ∀ (record : Array Value) (n : Nat),
      SameEnd (reevaluate p host limit (afterEvaluations p host limit (.initial limit record) n))
        (evaluate p host limit #[]) ∧
      (afterEvaluations p host limit (.initial limit record) n).store.host.toList =
        record.toList ++
          (List.replicate n (evaluate p host limit #[]).state.store.host.toList).flatten := by
  constructor
  · intro σ τ h memory h' memory' alike
    -- both hosts keep to what the second one answers at first
    have answers : h.Answers memory (h'.timestamp memory') :=
      fun printed text => alike printed [] text
    have answers' : h'.Answers memory' (h'.timestamp memory') :=
      fun printed text => (alike [] printed text).symm.trans (alike [] [] text)
    have same := sameEnd_evaluate answers answers' p limit
    refine ⟨same, evaluate_host answers p limit, ?_⟩
    rw [same.printed]
    exact evaluate_host answers' p limit
  · intro record n
    refine ⟨?_, toList_record_afterEvaluations p limit record n⟩
    rw [reevaluate_eq_evaluate]
    exact sameEnd_evaluate (host_answers _) (host_answers #[]) p limit

/-- Writes to memory, prints, and fails with a value left on the stack. -/
def abandoned : Program :=
  ⟨#[.instruction ⟨"PUSH", ["7"]⟩, .instruction ⟨"STORE", ["3"]⟩, .instruction ⟨"LOAD", ["3"]⟩,
    .instruction ⟨"PRINT", []⟩, .instruction ⟨"PUSH", ["1"]⟩, .instruction ⟨"PUSHARG", ["bob"]⟩,
    .instruction ⟨"TIMESTAMP", []⟩], ∅, rfl⟩

/-- A host that knows no block and counts what is printed. -/
def counter : Host Nat where
  timestamp _ _ := .error "unknown block"
  print count _ := count + 1

/-- With a host that counts and one that drops what is printed, the evaluation
ends in the same fault. With the host of a ledger it prints a seven each time,
and the third evaluation fails like the first. -/
theorem abandoned_printing_never_interferes :
    SameEnd (evaluate abandoned counter 50 5)
      (evaluate abandoned (.ofTimestamps fun _ => none) 50 ()) ∧
    (evaluate abandoned counter 50 5).result = .error ⟨6, .invalidBlock "unknown block"⟩ ∧
    (evaluate abandoned counter 50 5).state.store.host = 6 ∧
    SameEnd
      (reevaluate abandoned host 50 (afterEvaluations abandoned host 50 (.initial 50 #[]) 2))
      (evaluate abandoned host 50 #[]) ∧
    (afterEvaluations abandoned host 50 (.initial 50 #[]) 2).store.host.toList =
      [.int 7, .int 7] := by
  have counted : (runWithin abandoned counter 7 (.initial 50 5)).isSome := rfl
  have recorded : (runWithin abandoned host 7 (.initial 50 #[])).isSome := rfl
  have once : (evaluate abandoned host 50 #[]).state.store.host.toList = [.int 7] := by
    rw [evaluate, run_eq_get recorded]
    rfl
  obtain ⟨alike, again⟩ := printing_never_interferes abandoned 50
  obtain ⟨same, -, -⟩ := alike _ _ counter 5 (.ofTimestamps fun _ => none) () fun _ _ _ => rfl
  obtain ⟨sameAgain, hrecord⟩ := again #[] 2
  rw [once] at hrecord
  refine ⟨same, ?_, ?_, sameAgain, hrecord⟩
  · rw [evaluate, run_eq_get counted]
    rfl
  · rw [evaluate, run_eq_get counted]
    rfl

end MeteredLedger.Ledger
