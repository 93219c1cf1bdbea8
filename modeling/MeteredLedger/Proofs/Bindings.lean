import MeteredLedger.Bindings

/-!
# The order of bindings does not matter

Bindings are kept in the order of their names, so that pairs with different
names can be entered in any order.
-/

namespace MeteredLedger.Bindings

/-- A name that is new is added to the others. -/
theorem insertEntry_perm {name value : String} {entries : List (String × String)}
    (h : ∀ e ∈ entries, e.1 ≠ name) :
    (insertEntry name value entries).Perm ((name, value) :: entries) := by
  induction entries with
  | nil => rfl
  | cons head rest ih =>
    obtain ⟨n, v⟩ := head
    rw [List.forall_mem_cons] at h
    rw [insertEntry]
    split
    · rfl
    · rw [if_neg (Ne.symm h.1)]
      exact ((ih h.2).cons (n, v)).trans (.swap _ _ _)

theorem foldl_insert_perm {pairs : List (String × String)} (b : Bindings)
    (names : (pairs.map (·.1)).Nodup) (fresh : ∀ pair ∈ pairs, ∀ e ∈ b.entries, e.1 ≠ pair.1) :
    (pairs.foldl (fun b pair => b.insert pair.1 pair.2) b).entries.Perm (pairs ++ b.entries) := by
  induction pairs generalizing b with
  | nil => rfl
  | cons pair pairs ih =>
    rw [List.map_cons, List.nodup_cons] at names
    rw [List.forall_mem_cons] at fresh
    have inserted : (b.insert pair.1 pair.2).entries.Perm (pair :: b.entries) :=
      insertEntry_perm fresh.1
    refine (ih (b.insert pair.1 pair.2) names.2 ?_).trans ?_
    · intro other hother e he
      rcases List.mem_cons.mp (inserted.mem_iff.mp he) with rfl | he
      · intro heq
        exact names.1 (heq ▸ List.mem_map_of_mem hother)
      · exact fresh.2 other hother e he
    · exact (inserted.append_left pairs).trans List.perm_middle

theorem eq_of_entries_eq {b b' : Bindings} (h : b.entries = b'.entries) : b = b' := by
  cases b
  cases b'
  simpa using h

/-- The pairs of a set of bindings, entered in any order, give the set again. -/
theorem ofList_eq_of_perm {pairs : List (String × String)} {b : Bindings}
    (h : pairs.Perm b.entries) : ofList pairs = b := by
  have names : (pairs.map (·.1)).Nodup := by
    rw [(h.map (·.1)).nodup_iff, List.Nodup, List.pairwise_map]
    apply b.ascending.imp
    intro e e' hlt heq
    rw [heq] at hlt
    exact String.lt_irrefl _ hlt
  have entered : (ofList pairs).entries.Perm b.entries := by
    have hperm := foldl_insert_perm ∅ names fun _ _ _ he => absurd he List.not_mem_nil
    exact (List.append_nil pairs ▸ hperm).trans h
  have same : (ofList pairs).entries = b.entries := by
    refine entered.eq_of_pairwise ?_ (ofList pairs).ascending b.ascending
    intro e e' _ _ hlt hgt
    exact absurd hgt (String.lt_asymm hlt)
  exact eq_of_entries_eq same

end MeteredLedger.Bindings
