import MeteredLedger.Proofs.Program
import MeteredLedger.Verification

/-!
# The marks that the search leaves

While the search goes on, a line that control may move to from a marked line is
marked itself or still to be visited. Visiting a line keeps this, and marks are
never taken back, so that in the end, with nothing left to visit, the marks are
closed under the moves of control, and the first line is among them.
-/

namespace MeteredLedger.Verification

section

variable {p : Program} {marks : Marks p.size} {pending : List Nat} {i j : Nat}

theorem isReachable_of_lt (hi : i < p.size) : isReachable p marks i = marks[i] :=
  dif_pos hi

theorem isReachable_set (hi : i < p.size) (j : Nat) :
    isReachable p (marks.set i true) j = if i = j then true else isReachable p marks j := by
  by_cases hj : j < p.size
  · rw [isReachable_of_lt hj, isReachable_of_lt hj, Vector.getElem_set]
  · have hne : i ≠ j := by omega
    simp [isReachable, hj, hne]

theorem isReachable_set_of_marked (hi : i < p.size) (h : isReachable p marks j = true) :
    isReachable p (marks.set i true) j = true := by
  rw [isReachable_set hi, h, ite_self]

/-- A mark is never taken back. -/
theorem isReachable_explore_of_marked (h : isReachable p marks i = true) :
    isReachable p (explore p marks pending) i = true := by
  fun_induction explore p marks pending with
  | case1 marks => exact h
  | case2 marks k rest hk unmarked ih => exact ih (isReachable_set_of_marked hk h)
  | case3 marks k rest hk marked ih => exact ih h
  | case4 marks k rest hk ih => exact ih h

/-- Whatever is pending gets its mark. -/
theorem isReachable_explore_of_pending (hi : i < p.size) (h : i ∈ pending) :
    isReachable p (explore p marks pending) i = true := by
  fun_induction explore p marks pending with
  | case1 marks => exact absurd h List.not_mem_nil
  | case2 marks k rest hk unmarked ih =>
    rcases List.mem_cons.mp h with rfl | h
    · apply isReachable_explore_of_marked
      rw [isReachable_set hk, if_pos rfl]
    · exact ih (List.mem_append_right _ h)
  | case3 marks k rest hk marked ih =>
    rcases List.mem_cons.mp h with rfl | h
    · apply isReachable_explore_of_marked
      rw [isReachable_of_lt hk]
      simpa using marked
    · exact ih h
  | case4 marks k rest hk ih =>
    rcases List.mem_cons.mp h with rfl | h
    · exact absurd hi hk
    · exact ih h

/-- From a marked line, control moves to lines that are marked or pending, or
out of the program. -/
def Covers (p : Program) (marks : Marks p.size) (pending : List Nat) : Prop :=
  ∀ i j, isReachable p marks i = true → j ∈ successors p i → j < p.size →
    isReachable p marks j = true ∨ j ∈ pending

/-- A pending line that is marked already, or is not there, can be dropped. -/
theorem Covers.drop (covers : Covers p marks (i :: pending))
    (done : ∀ h : i < p.size, marks[i] = true) : Covers p marks pending := by
  intro k j hk hj hlt
  rcases covers k j hk hj hlt with marked | hpending
  · exact .inl marked
  · rcases List.mem_cons.mp hpending with rfl | hpending
    · rw [isReachable_of_lt hlt]
      exact .inl (done hlt)
    · exact .inr hpending

/-- A line is marked when its successors become pending. -/
theorem Covers.visit (covers : Covers p marks (i :: pending)) (hi : i < p.size) :
    Covers p (marks.set i true) (successors p i ++ pending) := by
  intro k j hk hj hlt
  by_cases heq : i = k
  · subst heq
    exact .inr (List.mem_append_left _ hj)
  · rw [isReachable_set hi, if_neg heq] at hk
    rcases covers k j hk hj hlt with marked | hpending
    · exact .inl (isReachable_set_of_marked hi marked)
    · rcases List.mem_cons.mp hpending with rfl | hpending
      · left
        rw [isReachable_set hi, if_pos rfl]
      · exact .inr (List.mem_append_right _ hpending)

theorem Covers.explore (covers : Covers p marks pending) :
    Covers p (explore p marks pending) [] := by
  fun_induction Verification.explore p marks pending with
  | case1 marks => exact covers
  | case2 marks k rest hk unmarked ih => exact ih (covers.visit hk)
  | case3 marks k rest hk marked ih => exact ih (covers.drop fun _ => by simpa using marked)
  | case4 marks k rest hk ih => exact ih (covers.drop fun h => absurd h hk)

/-- The search starts at the first line. -/
theorem isReachable_zero (h : 0 < p.size) : isReachable p (reachable p) 0 = true :=
  isReachable_explore_of_pending h List.mem_cons_self

/-- The marks are closed under the moves of control. -/
theorem isReachable_of_mem_successors (hi : isReachable p (reachable p) i = true)
    (hj : j ∈ successors p i) (hlt : j < p.size) : isReachable p (reachable p) j = true := by
  have unmarked : Covers p (Vector.replicate p.size false) [0] := by
    intro k _ hk
    simp [isReachable] at hk
  rcases unmarked.explore i j hi hj hlt with marked | hpending
  · exact marked
  · exact absurd hpending List.not_mem_nil

/-- The instructions without a mark are reported, and nothing else. -/
theorem mem_checkReachability_iff :
    Finding.flawed i .unreachable ∈ checkReachability p ↔
      (∃ instr, p.line? i = some (.instruction instr)) ∧
        isReachable p (reachable p) i = false := by
  constructor
  · intro h
    obtain ⟨⟨index, instr⟩, hmem, hfinding⟩ := List.mem_filterMap.mp h
    dsimp only at hfinding
    split at hfinding
    · simp at hfinding
    · next unmarked =>
      obtain rfl : index = i := by simpa using hfinding
      exact ⟨⟨instr, Program.mem_instructions.mp hmem⟩, by simpa using unmarked⟩
  · rintro ⟨⟨instr, hline⟩, unmarked⟩
    refine List.mem_filterMap.mpr ⟨(i, instr), Program.mem_instructions.mpr hline, ?_⟩
    simp [unmarked]

end

end MeteredLedger.Verification
