import MeteredLedger.Cli.FileTree

/-!
# What a write changes

A write puts a file where none or another one stood, and never where a directory
stands. Paths lead through directories only, so a path that leads somewhere leads
there after the write as well. What is read through it is the text that was
written if the path leads to the written file, however it is spelled, and what
was read before if not.
-/

namespace MeteredLedger.Cli

theorem decodeText_toUTF8 (text : String) : decodeText text.toUTF8 = .ok text := by
  have hdecode : String.fromUTF8? text.toUTF8 = some text := by
    rw [String.fromUTF8?, String.toUTF8, dif_pos text.isValidUTF8]
    rfl
  rw [decodeText, hdecode]
  rfl

namespace FileTree

variable {tree written : FileTree} {location target : Location} {path other text : String}
variable {content : ByteArray}

theorem enter_eq_ok {name : String} (h : tree.enter location name = .ok target) :
    tree.node? location = some .directory := by
  rw [enter] at h
  split at h
  · simp at h
  · simp at h
  · next hnode => exact hnode

/-- A file leads nowhere, so putting one does not change where names lead. -/
theorem enter_put {name : String} (free : tree.node? location ≠ some .directory)
    {start : Location} (h : tree.enter start name = .ok target) :
    (tree.put location content).enter start name = .ok target := by
  have hne : start ≠ location := by
    rintro rfl
    exact free (enter_eq_ok h)
  rw [enter, node?_put_of_ne tree hne]
  exact h

theorem foldlM_enter_put (free : tree.node? location ≠ some .directory) {names : List String}
    {start : Location} (h : names.foldlM tree.enter start = .ok target) :
    names.foldlM (tree.put location content).enter start = .ok target := by
  induction names generalizing start with
  | nil => exact h
  | cons name names ih =>
    rw [List.foldlM_cons] at h ⊢
    cases hname : tree.enter start name with
    | error e => simp [hname, Bind.bind, Except.bind] at h
    | ok next =>
      rw [hname] at h
      rw [enter_put free hname]
      exact ih h

/-- A path leads where it led before. -/
theorem locate_put (free : tree.node? location ≠ some .directory)
    (h : tree.locate path = .ok target) : (tree.put location content).locate path = .ok target := by
  rw [locate] at h ⊢
  split at h
  · simp at h
  · next hpath =>
    rw [if_neg hpath]
    exact foldlM_enter_put free h

theorem read_eq_ok_iff :
    tree.read path = .ok text ↔
      ∃ location content, tree.locate path = .ok location ∧
        tree.node? location = some (.file content) ∧ endsWithSeparator path = false ∧
        decodeText content = .ok text := by
  rw [read]
  cases hlocate : tree.locate path with
  | error e => simp [Bind.bind, Except.bind]
  | ok location =>
    cases hnode : tree.node? location with
    | none => simp [Bind.bind, Except.bind, hnode]
    | some node =>
      cases node with
      | directory => simp [Bind.bind, Except.bind, hnode]
      | file content =>
        cases hseparator : endsWithSeparator path <;> simp [Bind.bind, Except.bind, hnode]

theorem write_eq_ok_iff :
    tree.write path text = .ok written ↔
      ∃ location, tree.locate path = .ok location ∧ tree.node? location ≠ some .directory ∧
        endsWithSeparator path = false ∧ written = tree.put location text.toUTF8 := by
  rw [write, target]
  cases hlocate : tree.locate path with
  | error e => simp [Bind.bind, Except.bind]
  | ok location =>
    by_cases hnode : tree.node? location = some .directory
    · simp [Bind.bind, Except.bind, hnode]
    · cases hseparator : endsWithSeparator path with
      | true => simp [Bind.bind, Except.bind]
      | false => simpa [Bind.bind, Except.bind, pure, Except.pure, hnode] using eq_comm

/-- The root is a directory. -/
theorem ne_nil_of_free (free : tree.node? location ≠ some .directory) : location ≠ [] := by
  rintro rfl
  exact free rfl

/-- A path to the place of a new file gives the text of that file. -/
theorem read_put (free : tree.node? location ≠ some .directory)
    (hlocate : tree.locate path = .ok location) (hseparator : endsWithSeparator path = false)
    (text : String) : (tree.put location text.toUTF8).read path = .ok text :=
  read_eq_ok_iff.mpr ⟨location, text.toUTF8, locate_put free hlocate,
    node?_put_self tree (ne_nil_of_free free) _, hseparator, decodeText_toUTF8 text⟩

/-- What was written is read back through the same path. -/
theorem read_of_write (h : tree.write path text = .ok written) : written.read path = .ok text := by
  obtain ⟨location, hlocate, free, hseparator, rfl⟩ := write_eq_ok_iff.mp h
  exact read_put free hlocate hseparator text

/-- A write puts the whole text at one location and changes no other. -/
theorem exists_location_of_write (h : tree.write path text = .ok written) :
    ∃ location, tree.locate path = .ok location ∧
      written.node? location = some (.file text.toUTF8) ∧
      ∀ other, other ≠ location → written.node? other = tree.node? other := by
  obtain ⟨location, hlocate, free, -, rfl⟩ := write_eq_ok_iff.mp h
  refine ⟨location, hlocate, node?_put_self tree (ne_nil_of_free free) _, ?_⟩
  intro other hne
  exact node?_put_of_ne tree hne _

section

variable {before : String} (h : tree.write path text = .ok written)
variable (hread : tree.read other = .ok before)

include h hread

/-- Another path to the written file gives what was written. -/
theorem read_of_write_of_locate_eq (same : tree.locate other = tree.locate path) :
    written.read other = .ok text := by
  obtain ⟨location, hlocate, free, -, rfl⟩ := write_eq_ok_iff.mp h
  obtain ⟨_, _, _, _, hseparator, -⟩ := read_eq_ok_iff.mp hread
  exact read_put free (same.trans hlocate) hseparator text

/-- A path to another file gives what it gave before. -/
theorem read_of_write_of_locate_ne (apart : tree.locate other ≠ tree.locate path) :
    written.read other = .ok before := by
  obtain ⟨location, hlocate, free, -, rfl⟩ := write_eq_ok_iff.mp h
  obtain ⟨target, content, htarget, hnode, hseparator, hdecode⟩ := read_eq_ok_iff.mp hread
  have hne : target ≠ location := by
    rintro rfl
    exact apart (htarget.trans hlocate.symm)
  exact read_eq_ok_iff.mpr ⟨target, content, locate_put free htarget,
    (node?_put_of_ne tree hne _).trans hnode, hseparator, hdecode⟩

/-- Another path gives what was written, too, or what it gave before. -/
theorem read_of_write_of_read :
    written.read other = .ok text ∨ written.read other = .ok before := by
  by_cases same : tree.locate other = tree.locate path
  · exact .inl (read_of_write_of_locate_eq h hread same)
  · exact .inr (read_of_write_of_locate_ne h hread same)

/-- A text survives a write elsewhere, or a write of the same text. -/
theorem read_written_eq_iff :
    written.read other = .ok before ↔ tree.locate other ≠ tree.locate path ∨ before = text := by
  constructor
  · intro kept
    by_cases same : tree.locate other = tree.locate path
    · rw [read_of_write_of_locate_eq h hread same] at kept
      exact .inr (Except.ok.inj kept).symm
    · exact .inl same
  · rintro (apart | rfl)
    · exact read_of_write_of_locate_ne h hread apart
    · rcases read_of_write_of_read h hread with kept | kept
      · exact kept
      · exact kept

end

end FileTree

end MeteredLedger.Cli
