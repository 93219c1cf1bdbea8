/-!
# Bindings of argument names to values

A set of bindings is a list of pairs with strictly ascending names. Names are
ordered by code point, so two sets that bind the same names to the same values
are equal, and listing one always gives the same order.
-/

namespace MeteredLedger

/-- Places a pair among pairs with ascending names, replacing a pair of the same name. -/
def Bindings.insertEntry (name value : String) : List (String × String) → List (String × String)
  | [] => [(name, value)]
  | (n, v) :: rest =>
    if name < n then (name, value) :: (n, v) :: rest
    else if name = n then (name, value) :: rest
    else (n, v) :: insertEntry name value rest

/-- A finite map from argument names to their values. -/
structure Bindings where
  entries : List (String × String)
  ascending : entries.Pairwise (·.1 < ·.1)
  deriving DecidableEq

namespace Bindings

instance : EmptyCollection Bindings := ⟨⟨[], .nil⟩⟩

/-- The value bound to a name. -/
def get? (b : Bindings) (name : String) : Option String :=
  (b.entries.find? (·.1 == name)).map (·.2)

theorem name_mem_insertEntry {name value : String} {entries : List (String × String)}
    {e : String × String} (h : e ∈ insertEntry name value entries) :
    e.1 = name ∨ e ∈ entries := by
  induction entries with
  | nil => simp_all [insertEntry]
  | cons head rest ih =>
    obtain ⟨n, v⟩ := head
    grind [insertEntry]

theorem ascending_insertEntry {name value : String} {entries : List (String × String)}
    (h : entries.Pairwise (·.1 < ·.1)) :
    (insertEntry name value entries).Pairwise (·.1 < ·.1) := by
  induction entries with
  | nil => simp [insertEntry]
  | cons head rest ih =>
    obtain ⟨n, v⟩ := head
    obtain ⟨hn, hrest⟩ := List.pairwise_cons.mp h
    rw [insertEntry]
    split
    · next hlt =>
      refine List.pairwise_cons.mpr ⟨fun e he => ?_, h⟩
      rcases List.mem_cons.mp he with rfl | he
      · exact hlt
      · exact String.lt_trans hlt (hn e he)
    · next hlt =>
      split
      · next heq => exact List.pairwise_cons.mpr ⟨fun e he => heq ▸ hn e he, hrest⟩
      · next hne =>
        refine List.pairwise_cons.mpr ⟨fun e he => ?_, ih hrest⟩
        rcases name_mem_insertEntry he with hname | he
        · have hle : n ≤ name := String.not_lt.mp hlt
          rw [hname]
          exact String.not_le.mp fun hle' => hne (String.le_antisymm hle' hle)
        · exact hn e he

/-- Binds a name, replacing what it was bound to. -/
def insert (b : Bindings) (name value : String) : Bindings :=
  ⟨insertEntry name value b.entries, ascending_insertEntry b.ascending⟩

/-- Binds the pairs of a list in order, so that the last pair of a name wins. -/
def ofList (pairs : List (String × String)) : Bindings :=
  pairs.foldl (fun b (name, value) => b.insert name value) ∅

end Bindings

end MeteredLedger
