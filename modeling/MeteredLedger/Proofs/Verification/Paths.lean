import MeteredLedger.Proofs.Verification.Reachability

/-!
# The search finds the lines that control can reach, and no others

`Reached` says which lines control can come to from the first one, step by step
along the moves of control and without leaving the program. The marks that the
search leaves are these lines: they are closed under the moves of control, and
no line is marked or becomes pending without having been reached.

The search may keep whatever is pending, as long as it looks only at lines of
the program when it visits them. `Search` is the search as a loop that sorts out
lines before they become pending, and then looks up the mark of a pending line
without asking whether there is one. `Search.Sound` is kept by every visit, so
each look-up finds a mark. A visit sets a mark and adds two lines at most, or it
adds none; therefore the loop ends, and it ends with the same marks.
-/

namespace MeteredLedger

namespace Verification

/-- Control can come to a line from the first one, over lines of the program. -/
inductive Reached (p : Program) : Nat → Prop where
  | first : 0 < p.size → Reached p 0
  | move {i j : Nat} : Reached p i → j ∈ successors p i → j < p.size → Reached p j

section

variable {p : Program} {marks : Marks p.size} {pending : List Nat} {i j : Nat}

/-- Marks that are closed under the moves of control cover every line that is reached. -/
theorem Covers.marked_of_reached (covers : Covers p marks [])
    (first : 0 < p.size → isReachable p marks 0 = true) (h : Reached p i) :
    isReachable p marks i = true := by
  induction h with
  | first inside => exact first inside
  | move _ hmove inside ih =>
    rcases covers _ _ ih hmove inside with marked | hpending
    · exact marked
    · exact absurd hpending List.not_mem_nil

/-- A search that starts from lines that are reached marks no others. -/
theorem reached_of_isReachable_explore
    (marked : ∀ i, isReachable p marks i = true → Reached p i)
    (waiting : ∀ i ∈ pending, i < p.size → Reached p i)
    (h : isReachable p (explore p marks pending) i = true) : Reached p i := by
  fun_induction explore p marks pending with
  | case1 marks => exact marked i h
  | case2 marks k rest hk unmarked ih =>
    rw [List.forall_mem_cons] at waiting
    have reached := waiting.1 hk
    refine ih ?_ ?_ h
    · intro j hj
      rw [isReachable_set hk] at hj
      split at hj
      · next heq => exact heq ▸ reached
      · exact marked j hj
    · intro j hj inside
      rcases List.mem_append.mp hj with hmove | hrest
      · exact reached.move hmove inside
      · exact waiting.2 j hrest inside
  | case3 marks k rest hk _ ih | case4 marks k rest hk ih =>
    exact ih marked (List.forall_mem_cons.mp waiting).2 h

/-- The marks are the lines that control can reach. -/
theorem isReachable_iff_reached : isReachable p (reachable p) i = true ↔ Reached p i := by
  constructor
  · apply reached_of_isReachable_explore
    · intro j hj
      simp [isReachable] at hj
    · intro j hj inside
      obtain rfl : j = 0 := by simpa using hj
      exact .first inside
  · have covers : Covers p (reachable p) [] := fun i j hi hmove inside =>
      .inl (isReachable_of_mem_successors hi hmove inside)
    exact covers.marked_of_reached isReachable_zero

/-- Lines may be left out of what is pending if they are marked or not there. -/
theorem Covers.sort {pending' : List Nat} (covers : Covers p marks pending)
    (kept : ∀ j ∈ pending, j < p.size → isReachable p marks j = true ∨ j ∈ pending') :
    Covers p marks pending' := by
  intro i j hi hmove inside
  rcases covers i j hi hmove inside with marked | hpending
  · exact .inl marked
  · exact kept j hpending inside

/-- From no line control can move to more than two. -/
theorem length_successors_le (p : Program) (i : Nat) : (successors p i).length ≤ 2 := by
  have target_le (target : Option Nat) : target.toList.length ≤ 1 := by
    cases target <;> simp
  rw [successors]
  split
  · simp
  · simp
  · next instr _ =>
    have := target_le (instr.args.head?.bind p.labelIndex?)
    dsimp only
    split
    · simp
    · simp
    · omega
    · rw [List.length_cons]
      omega
    · rw [List.length_cons]
      omega
    · simp

end

/-! ## The search as a loop -/

/-- A search in progress: the marks set so far, and the lines still to be
visited with the one that comes next first. -/
structure Search (p : Program) where
  marks : Marks p.size
  pending : List Nat

namespace Search

variable {p : Program}

/-- Nothing is marked, and the first line is to be visited if there is one. -/
def start (p : Program) : Search p :=
  ⟨Vector.replicate p.size false, if 0 < p.size then [0] else []⟩

/-- Makes a line pending if it is inside the program and not marked. -/
def push (s : Search p) (j : Nat) : Search p :=
  if j < p.size ∧ isReachable p s.marks j = false then { s with pending := j :: s.pending } else s

/-- Visits the next line. There is no result if that line has no mark to look up. -/
def visit (s : Search p) : Option (Search p) :=
  match s.pending with
  | [] => some s
  | i :: rest =>
    if h : i < p.size then
      if s.marks[i] then some { s with pending := rest }
      else some ((successors p i).foldl push ⟨s.marks.set i true, rest⟩)
    else none

/-- The marks when nothing is pending any more. There is no result if that takes
more than the given number of visits, or if a visit has none. -/
def finish : Nat → Search p → Option (Marks p.size)
  | 0, s => if s.pending = [] then some s.marks else none
  | visits + 1, s => if s.pending = [] then some s.marks else s.visit.bind (finish visits)

/-- An upper bound for the number of visits that are left. -/
def remaining (s : Search p) : Nat :=
  2 * s.marks.count false + s.pending.length

/-- What every visit keeps. -/
structure Sound (s : Search p) : Prop where
  inside : ∀ i ∈ s.pending, i < p.size
  covers : Covers p s.marks s.pending
  first : 0 < p.size → isReachable p s.marks 0 = true ∨ 0 ∈ s.pending
  reached : ∀ i, isReachable p s.marks i = true ∨ i ∈ s.pending → Reached p i

section

variable {s : Search p} {i : Nat} {rest : List Nat}

/-- The lines that are pushed one after another, the last one in front. -/
theorem foldl_push (js : List Nat) (s : Search p) :
    js.foldl push s =
      { s with
        pending := (js.filter fun j => j < p.size ∧ isReachable p s.marks j = false).reverse ++
          s.pending } := by
  induction js generalizing s with
  | nil => rfl
  | cons j js ih =>
    rw [List.foldl_cons, ih, push]
    split
    · next h => simp [h]
    · next h => simp [h]

theorem sound_start (p : Program) : (start p).Sound := by
  have unmarked (i : Nat) : isReachable p (start p).marks i = false := by
    simp [isReachable, start]
  have zero_of_mem {i : Nat} (h : i ∈ (start p).pending) : i = 0 ∧ 0 < p.size := by
    rw [start] at h
    split at h
    · next inside => exact ⟨by simpa using h, inside⟩
    · simp at h
  constructor
  · intro i h
    obtain ⟨rfl, inside⟩ := zero_of_mem h
    exact inside
  · intro i j hi
    simp [unmarked] at hi
  · intro inside
    right
    simp [start, inside]
  · rintro i (h | h)
    · simp [unmarked] at h
    · obtain ⟨rfl, inside⟩ := zero_of_mem h
      exact .first inside

/-- A line that has its mark already is dropped. -/
theorem Sound.drop (sound : s.Sound) (hpending : s.pending = i :: rest)
    (marked : isReachable p s.marks i = true) : Sound { s with pending := rest } := by
  obtain ⟨inside, covers, first, reached⟩ := sound
  rw [hpending] at inside covers first reached
  rw [List.forall_mem_cons] at inside
  have done (h : i < p.size) : s.marks[i] = true := by rw [← isReachable_of_lt h, marked]
  refine ⟨inside.2, covers.drop done, ?_, ?_⟩
  · intro nonempty
    rcases first nonempty with hmark | hmem
    · exact .inl hmark
    · rcases List.mem_cons.mp hmem with rfl | hmem
      · exact .inl marked
      · exact .inr hmem
  · rintro j (hmark | hmem)
    · exact reached j (.inl hmark)
    · exact reached j (.inr (List.mem_cons_of_mem i hmem))

/-- A line without a mark gets one, and the lines that follow it are sorted out. -/
theorem Sound.mark (sound : s.Sound) (hpending : s.pending = i :: rest) (hi : i < p.size) :
    Sound ((successors p i).foldl push ⟨s.marks.set i true, rest⟩) := by
  obtain ⟨inside, covers, first, reached⟩ := sound
  rw [hpending] at inside covers first reached
  rw [List.forall_mem_cons] at inside
  rw [foldl_push]
  have mem_sorted {j : Nat} : j ∈ ((successors p i).filter fun j => j < p.size ∧
      isReachable p (s.marks.set i true) j = false).reverse ++ rest ↔
        (j ∈ successors p i ∧ j < p.size ∧ isReachable p (s.marks.set i true) j = false) ∨
          j ∈ rest := by
    simp
  have reachedLine : Reached p i := reached i (.inr List.mem_cons_self)
  constructor
  · intro j hj
    rcases mem_sorted.mp hj with ⟨-, hlt, -⟩ | hrest
    · exact hlt
    · exact inside.2 j hrest
  · refine (covers.visit hi).sort ?_
    intro j hj hlt
    rw [mem_sorted]
    rcases List.mem_append.mp hj with hmove | hrest
    · cases hmark : isReachable p (s.marks.set i true) j with
      | true => exact .inl rfl
      | false => exact .inr (.inl ⟨hmove, hlt, rfl⟩)
    · exact .inr (.inr hrest)
  · intro nonempty
    rw [mem_sorted]
    rcases first nonempty with hmark | hmem
    · exact .inl (isReachable_set_of_marked hi hmark)
    · rcases List.mem_cons.mp hmem with rfl | hmem
      · left
        rw [isReachable_set hi, if_pos rfl]
      · exact .inr (.inr hmem)
  · intro j h
    rw [mem_sorted, isReachable_set hi] at h
    rcases h with hmark | ⟨hmove, hlt, -⟩ | hrest
    · split at hmark
      · next heq => exact heq ▸ reachedLine
      · exact reached j (.inl hmark)
    · exact reachedLine.move hmove hlt
    · exact reached j (.inr (List.mem_cons_of_mem i hrest))

theorem remaining_drop_lt (hpending : s.pending = i :: rest) :
    remaining { s with pending := rest } < s.remaining := by
  rw [remaining, remaining, hpending, List.length_cons]
  exact Nat.lt_succ_self _

/-- A mark that is set is worth the two lines that may become pending for it. -/
theorem remaining_mark_lt (hpending : s.pending = i :: rest) (hi : i < p.size)
    (unmarked : s.marks[i] = false) :
    remaining ((successors p i).foldl push ⟨s.marks.set i true, rest⟩) < s.remaining := by
  have fewer := count_false_set_lt s.marks i hi unmarked
  have sorted := List.length_filter_le (fun j => decide (j < p.size ∧
    isReachable p (s.marks.set i true) j = false)) (successors p i)
  have two := length_successors_le p i
  rw [foldl_push, remaining, remaining, hpending, List.length_append, List.length_reverse,
    List.length_cons]
  dsimp only
  omega

/-- Every visit of a search has a result, keeps the search sound and brings it closer to its end. -/
theorem Sound.exists_visit (sound : s.Sound) (h : s.pending ≠ []) :
    ∃ t, s.visit = some t ∧ t.Sound ∧ t.remaining < s.remaining := by
  obtain ⟨i, rest, hpending⟩ := List.exists_cons_of_ne_nil h
  have hi : i < p.size := sound.inside i (hpending ▸ List.mem_cons_self)
  simp only [visit, hpending, dif_pos hi]
  cases hmark : s.marks[i] with
  | true =>
    have marked : isReachable p s.marks i = true := by rw [isReachable_of_lt hi, hmark]
    exact ⟨_, if_pos rfl, sound.drop hpending marked, remaining_drop_lt hpending⟩
  | false =>
    exact ⟨_, if_neg Bool.false_ne_true, sound.mark hpending hi,
      remaining_mark_lt hpending hi hmark⟩

/-- With nothing pending, the marks are the lines that control can reach. -/
theorem Sound.isReachable_iff (sound : s.Sound) (hpending : s.pending = []) (i : Nat) :
    isReachable p s.marks i = true ↔ Reached p i := by
  obtain ⟨-, covers, first, reached⟩ := sound
  simp only [hpending, List.not_mem_nil, or_false] at covers first reached
  exact ⟨reached i, covers.marked_of_reached first⟩

/-- A sound search ends, with the marks of the lines that control can reach. -/
theorem Sound.exists_finish {visits : Nat} (sound : s.Sound) (h : s.remaining ≤ visits) :
    ∃ marks, s.finish visits = some marks ∧ ∀ i, isReachable p marks i = true ↔ Reached p i := by
  induction visits generalizing s with
  | zero =>
    have hpending : s.pending = [] := by
      rw [remaining] at h
      exact List.length_eq_zero_iff.mp (by omega)
    exact ⟨s.marks, if_pos hpending, sound.isReachable_iff hpending⟩
  | succ visits ih =>
    by_cases hpending : s.pending = []
    · exact ⟨s.marks, if_pos hpending, sound.isReachable_iff hpending⟩
    · obtain ⟨t, hvisit, soundNext, closer⟩ := sound.exists_visit hpending
      obtain ⟨marks, hfinish, hmarks⟩ := ih soundNext (by omega)
      refine ⟨marks, ?_, hmarks⟩
      rw [finish, if_neg hpending, hvisit]
      exact hfinish

theorem remaining_start_le (p : Program) : (start p).remaining ≤ 2 * p.size + 1 := by
  have marks : (start p).marks.count false ≤ p.size := Vector.count_le_size
  have pending : (start p).pending.length ≤ 1 := by
    rw [start]
    split <;> simp
  rw [remaining]
  omega

/-- The loop ends with the marks of the search. -/
theorem finish_start (p : Program) : (start p).finish (2 * p.size + 1) = some (reachable p) := by
  obtain ⟨marks, hfinish, hmarks⟩ := (sound_start p).exists_finish (remaining_start_le p)
  rw [hfinish]
  congr 1
  apply Vector.ext
  intro i hi
  rw [← isReachable_of_lt hi, ← isReachable_of_lt hi, Bool.eq_iff_iff, hmarks,
    isReachable_iff_reached]

end

end Search

/-! ## What is reported -/

/-- The findings are in the order of the instructions that they are about. -/
theorem exists_checkReachability_eq_map (p : Program) :
    ∃ indices : List Nat, checkReachability p = indices.map (.flawed · .unreachable) ∧
      indices.Pairwise (· < ·) := by
  let indices := (p.instructions.map (·.1)).filter (!isReachable p (reachable p) ·)
  refine ⟨indices, ?_, ?_⟩
  · rw [checkReachability]
    unfold indices
    induction p.instructions with
    | nil => rfl
    | cons entry entries ih =>
      cases h : isReachable p (reachable p) entry.1 <;> simp [h, ih]
  · exact (List.pairwise_map.mpr p.pairwise_instructions).filter _

/-- The search for dead code computes reachability. As a loop over pending lines
it ends after at most `2 * p.size + 1` visits, each of which looks up the mark of
a line of the program. The lines it has marked then are those that control can
reach from the first line along the moves of control inside the program. So the
instructions that are reported are those that control cannot reach, in ascending
order and each of them once. -/
theorem search_marks_exactly_reached (p : Program) :
    (Search.start p).finish (2 * p.size + 1) = some (reachable p) ∧
    (∀ i, (reachable p)[i]? = some true ↔ Reached p i) ∧
    ∃ indices : List Nat, checkReachability p = indices.map (.flawed · .unreachable) ∧
      indices.Pairwise (· < ·) ∧
      ∀ i, i ∈ indices ↔
        (∃ instr, p.line? i = some (.instruction instr)) ∧ ¬ Reached p i := by
  refine ⟨Search.finish_start p, ?_, ?_⟩
  · intro i
    rw [← isReachable_iff_reached, isReachable, getElem?_def]
    split <;> simp
  · obtain ⟨indices, hfindings, ascending⟩ := exists_checkReachability_eq_map p
    refine ⟨indices, hfindings, ascending, ?_⟩
    intro i
    have reported : i ∈ indices ↔ .flawed i .unreachable ∈ checkReachability p := by
      simp [hfindings]
    rw [reported, mem_checkReachability_iff, ← isReachable_iff_reached, Bool.not_eq_true]

end Verification

end MeteredLedger
