import MeteredLedger.Program

/-!
# Lines, labels and instructions

The label table and the list of instructions are both read off the lines. Here
they are described by the lines alone: a label has the index of its marker, and
an instruction is listed with the index it stands at.

Lines make a program unless one of them declares a label for a second time. The
table that is built on the way holds the markers of the lines passed so far
(`Indexes`), so the first line whose label it already holds is the first to
declare a label again, and the table of a program is exactly the set of its markers.
-/

namespace MeteredLedger

/-- The label that a line declares. -/
def Line.marker? : Line → Option String
  | label name => some name
  | instruction _ => none

/-- Line `k` declares a label that a line before it has declared. -/
def Redeclares (lines : List Line) (k : Nat) (name : String) : Prop :=
  lines[k]? = some (.label name) ∧ ∃ j < k, lines[j]? = some (.label name)

/-- The error is about the first line that declares a label again. -/
structure DuplicateLabel.IsFirst (lines : List Line) (e : DuplicateLabel) : Prop where
  declared : lines[e.first]? = some (.label e.label)
  redeclared : lines[e.index]? = some (.label e.label)
  ascending : e.first < e.index
  least : ∀ k name, Redeclares lines k name → e.index ≤ k

theorem DuplicateLabel.IsFirst.redeclares {lines : List Line} {e : DuplicateLabel}
    (h : e.IsFirst lines) : Redeclares lines e.index e.label :=
  ⟨h.redeclared, e.first, h.ascending, h.declared⟩

/-- Before the line that the error is about, its label is declared once. Of two
declarations there, the later one would be the error. -/
theorem DuplicateLabel.IsFirst.eq_first {lines : List Line} {e : DuplicateLabel} {j : Nat}
    (h : e.IsFirst lines) (hj : lines[j]? = some (.label e.label)) (hlt : j < e.index) :
    j = e.first := by
  have order {i k : Nat} (hi : lines[i]? = some (.label e.label))
      (hk : lines[k]? = some (.label e.label)) (hik : i < k) : e.index ≤ k :=
    h.least k e.label ⟨hk, i, hik, hi⟩
  rcases Nat.lt_trichotomy j e.first with hless | heq | hgreater
  · exact absurd (order hj h.declared hless) (Nat.not_le_of_gt h.ascending)
  · exact heq
  · exact absurd (order h.declared hj hgreater) (Nat.not_le_of_gt hlt)

/-- Only one line is the first. -/
theorem DuplicateLabel.IsFirst.unique {lines : List Line} {e e' : DuplicateLabel}
    (h : e.IsFirst lines) (h' : e'.IsFirst lines) : e = e' := by
  have hindex : e.index = e'.index :=
    Nat.le_antisymm (h.least _ _ h'.redeclares) (h'.least _ _ h.redeclares)
  have hlabel : e.label = e'.label := by simpa [hindex, h'.redeclared] using h.redeclared.symm
  have hfirst : e.first = e'.first :=
    h'.eq_first (hlabel ▸ h.declared) (hindex ▸ h.ascending)
  calc e
    _ = ⟨e.label, e.first, e.index⟩ := rfl
    _ = ⟨e'.label, e'.first, e'.index⟩ := by rw [hlabel, hfirst, hindex]
    _ = e' := rfl

namespace LabelTable

/-- Lines with the same markers at the same places are entered alike. -/
theorem extend_congr {lines lines' : List Line}
    (h : lines.map Line.marker? = lines'.map Line.marker?) (table : LabelTable) (i : Nat) :
    table.extend i lines = table.extend i lines' := by
  induction lines generalizing lines' table i with
  | nil =>
    obtain rfl : lines' = [] := by simpa using h.symm
    rfl
  | cons line rest ih =>
    cases lines' with
    | nil => simp at h
    | cons line' rest' =>
      obtain ⟨hline, hrest⟩ : line.marker? = line'.marker? ∧
          rest.map Line.marker? = rest'.map Line.marker? := by simpa using h
      cases line <;> cases line' <;>
        simp only [Line.marker?, Option.some.injEq, reduceCtorEq] at hline
      · subst hline
        rw [extend, extend]
        split
        · rfl
        · exact ih hrest _ _
      · exact ih hrest table (i + 1)

/-- The table holds the markers of the lines that were passed, each with its index. -/
def Indexes (table : LabelTable) (done : List Line) : Prop :=
  ∀ name k, table[name]? = some k ↔ done[k]? = some (Line.label name)

namespace Indexes

variable {table : LabelTable} {done : List Line}

theorem empty : Indexes ∅ [] := by
  intro name k
  simp

/-- A line of a longer program is one of the lines before, or the last one. -/
theorem getElem?_concat_eq_some_iff {line line' : Line} {k : Nat} :
    (done ++ [line])[k]? = some line' ↔
      done[k]? = some line' ∨ k = done.length ∧ line = line' := by
  rcases Nat.lt_trichotomy k done.length with hlt | rfl | hgt
  · simp [List.getElem?_append_left hlt, Nat.ne_of_lt hlt]
  · simp
  · have hdone : done[k]? = none := List.getElem?_eq_none (Nat.le_of_lt hgt)
    have hall : (done ++ [line])[k]? = none :=
      List.getElem?_eq_none (List.length_append ▸ Nat.succ_le_of_lt hgt)
    rw [hdone, hall]
    simp [Nat.ne_of_gt hgt]

theorem instruction (h : Indexes table done) (i : Instruction) :
    Indexes table (done ++ [.instruction i]) := by
  intro name k
  rw [h name k, getElem?_concat_eq_some_iff]
  simp

theorem label (h : Indexes table done) {name : String} (absent : table[name]? = none) :
    Indexes (table.insert name done.length) (done ++ [.label name]) := by
  intro other k
  simp only [Std.TreeMap.getElem?_insert, Std.LawfulEqCmp.compare_eq_iff_eq,
    getElem?_concat_eq_some_iff, ← h other k]
  split
  · next heq =>
    subst heq
    simp [absent, eq_comm]
  · next hne => simp [hne]

/-- A name is in the table once, so that no line passed so far repeats one. -/
theorem not_redeclares (h : Indexes table done) (k : Nat) (name : String) :
    ¬ Redeclares done k name := by
  rintro ⟨hk, j, hlt, hj⟩
  obtain rfl : k = j := by simpa [(h name k).mpr hk] using (h name j).mpr hj
  exact absurd hlt (Nat.lt_irrefl _)

/-- Entering more lines gives the table of them all, unless one of them is the
first to declare a label again. -/
theorem extend (h : Indexes table done) (rest : List Line) :
    (∃ table', table.extend done.length rest = .ok table' ∧ Indexes table' (done ++ rest)) ∨
      ∃ e, table.extend done.length rest = .error e ∧ e.IsFirst (done ++ rest) := by
  induction rest generalizing table done with
  | nil => exact .inl ⟨table, rfl, by simpa using h⟩
  | cons line rest ih =>
    cases line with
    | instruction i => simpa [LabelTable.extend] using ih (h.instruction i)
    | label name =>
      cases hname : table[name]? with
      | none => simpa [LabelTable.extend, hname] using ih (h.label hname)
      | some first =>
        have hfirst := (h name first).mp hname
        have hlt : first < done.length := (List.getElem?_eq_some_iff.mp hfirst).1
        refine .inr ⟨⟨name, first, done.length⟩, by simp [LabelTable.extend, hname], ?_⟩
        refine ⟨?_, by simp, hlt, ?_⟩
        · rw [List.getElem?_append_left hlt]
          exact hfirst
        · rintro k other ⟨hk, j, hj, hother⟩
          apply Nat.le_of_not_lt
          intro hlen
          rw [List.getElem?_append_left hlen] at hk
          rw [List.getElem?_append_left (Nat.lt_trans hj hlen)] at hother
          exact h.not_redeclares k other ⟨hk, j, hj, hother⟩

end Indexes

variable {lines : Array Line}

/-- Lines have a table, or one of them is the first to declare a label again. -/
theorem ofLines_cases (lines : Array Line) :
    (∃ table, ofLines lines = .ok table ∧ table.Indexes lines.toList) ∨
      ∃ e, ofLines lines = .error e ∧ e.IsFirst lines.toList :=
  Indexes.empty.extend lines.toList

theorem indexes_ofLines {table : LabelTable} (h : ofLines lines = .ok table) :
    table.Indexes lines.toList := by
  rcases ofLines_cases lines with ⟨table', heq, indexes⟩ | ⟨e, heq, -⟩
  · obtain rfl : table' = table := by simpa [h] using heq.symm
    exact indexes
  · simp [h] at heq

theorem ofLines_eq_error_iff {e : DuplicateLabel} :
    ofLines lines = .error e ↔ e.IsFirst lines.toList := by
  rcases ofLines_cases lines with ⟨table, heq, indexes⟩ | ⟨e', heq, first⟩
  · simp only [heq, reduceCtorEq, false_iff]
    intro first
    exact indexes.not_redeclares _ _ first.redeclares
  · rw [heq]
    constructor
    · rintro ⟨⟩
      exact first
    · intro first'
      rw [first.unique first']

end LabelTable

namespace Program

variable {p : Program} {name : String} {i : Nat}

theorem ofLines_eq_ok_iff {lines : Array Line} : ofLines lines = .ok p ↔ p.lines = lines := by
  constructor
  · intro h
    rw [ofLines] at h
    split at h
    · obtain rfl : _ = p := by simpa using h
      rfl
    · simp at h
  · rintro rfl
    rw [ofLines]
    split
    · exact congrArg Except.ok (eq_of_lines_eq rfl)
    · next e he => simp [p.labels_eq] at he

theorem ofLines_eq_error_iff {lines : Array Line} {e : DuplicateLabel} :
    ofLines lines = .error e ↔ LabelTable.ofLines lines = .error e := by
  rw [ofLines]
  split <;> simp_all

/-- Lines make a program unless one of them declares a label again. -/
theorem exists_ofLines_iff {lines : Array Line} :
    (∃ q, ofLines lines = .ok q) ↔ ∀ k name, ¬ Redeclares lines.toList k name := by
  rcases LabelTable.ofLines_cases lines with ⟨table, htable, indexes⟩ | ⟨e, he, first⟩
  · exact iff_of_true ⟨⟨lines, table, htable⟩, ofLines_eq_ok_iff.mpr rfl⟩ indexes.not_redeclares
  · refine iff_of_false ?_ fun none => none _ _ first.redeclares
    rintro ⟨q, hq⟩
    simp [ofLines_eq_error_iff.mpr he] at hq

/-- Instructions can be exchanged for others: the markers alone make the label table. -/
theorem exists_ofLines_of_markers {lines : Array Line}
    (h : lines.toList.map Line.marker? = p.lines.toList.map Line.marker?) :
    ∃ q, ofLines lines = .ok q ∧ q.lines = lines ∧ q.labelIndex? = p.labelIndex? := by
  have htable : LabelTable.ofLines lines = .ok p.labels := by
    rw [LabelTable.ofLines, LabelTable.extend_congr h]
    exact p.labels_eq
  exact ⟨⟨lines, p.labels, htable⟩, ofLines_eq_ok_iff.mpr rfl, rfl, rfl⟩

/-- A label has the index of its marker. -/
theorem labelIndex?_eq_some_iff :
    p.labelIndex? name = some i ↔ p.line? i = some (.label name) := by
  have indexes := LabelTable.indexes_ofLines p.labels_eq
  simpa [labelIndex?, line?] using indexes name i

theorem lt_size_of_line? {line : Line} (h : p.line? i = some line) : i < p.size :=
  (Array.getElem?_eq_some_iff.mp h).1

/-- A jump to a label stays inside the program. -/
theorem lt_size_of_labelIndex? (h : p.labelIndex? name = some i) : i < p.size :=
  lt_size_of_line? (labelIndex?_eq_some_iff.mp h)

/-- The instructions are listed with the indices they stand at. -/
theorem mem_instructions {instr : Instruction} :
    (i, instr) ∈ p.instructions ↔ p.line? i = some (.instruction instr) := by
  have hl : p.line? i = p.lines.toList[i]? := by simp [line?]
  rw [hl]
  simp only [instructions, List.mem_filterMap, Prod.exists, List.mem_zipIdx_iff_getElem?]
  constructor
  · rintro ⟨line, index, hline, heq⟩
    cases line with
    | label => simp at heq
    | instruction =>
      obtain ⟨rfl, rfl⟩ : index = i ∧ _ = instr := by simpa using heq
      exact hline
  · intro hline
    exact ⟨.instruction instr, i, hline, rfl⟩

/-- The instructions are listed in the order of their indices. -/
theorem pairwise_instructions (p : Program) :
    p.instructions.Pairwise (·.1 < ·.1) := by
  have ascending : p.lines.toList.zipIdx.Pairwise (·.2 < ·.2) := by
    rw [← List.pairwise_map (f := Prod.snd), List.zipIdx_map_snd]
    exact List.pairwise_lt_range'
  rw [instructions, List.pairwise_filterMap]
  refine ascending.imp ?_
  rintro ⟨line, index⟩ ⟨line', index'⟩ hlt entry hentry entry' hentry'
  cases line with
  | label name => simp at hentry
  | instruction i =>
    cases line' with
    | label name => simp at hentry'
    | instruction i' =>
      obtain rfl : (index, i) = entry := by simpa using hentry
      obtain rfl : (index', i') = entry' := by simpa using hentry'
      exact hlt

/-- The label table lists the markers with their indices. -/
theorem mem_labels : (name, i) ∈ p.labels.toList ↔ p.line? i = some (.label name) := by
  rw [Std.TreeMap.mem_toList_iff_getElem?_eq_some]
  exact labelIndex?_eq_some_iff

/-- The label table lists every label once, in the order of names. -/
theorem pairwise_labels (p : Program) : p.labels.toList.Pairwise (·.1 < ·.1) := by
  refine Std.TreeMap.ordered_keys_toList.imp ?_
  intro entry entry' hcompare
  exact compareOfLessAndEq_eq_lt.mp hcompare

/-- The label table is exactly the set of markers. Lines make a program if and
only if no two of them declare the same label; the program then finds a label at
its marker and nowhere else, and lists each label once, in increasing order of
names. Otherwise the error is about the least index whose label was declared
before, and names the only place where it was. -/
theorem labels_are_exactly_markers (lines : Array Line) :
    ((∃ p, ofLines lines = .ok p) ↔
      ∀ (i j : Nat) (name : String),
        lines[i]? = some (.label name) → lines[j]? = some (.label name) → i = j) ∧
    (∀ p, ofLines lines = .ok p →
      (∀ name i, p.labelIndex? name = some i ↔ lines[i]? = some (.label name)) ∧
      (∀ name i, (name, i) ∈ p.labels.toList ↔ lines[i]? = some (.label name)) ∧
      p.labels.toList.Pairwise (·.1 < ·.1)) ∧
    ∀ e, ofLines lines = .error e →
      e.first < e.index ∧
      lines[e.index]? = some (.label e.label) ∧
      (∀ j < e.index, lines[j]? = some (.label e.label) ↔ j = e.first) ∧
      ∀ (k : Nat) (name : String), lines[k]? = some (.label name) →
        (∃ j < k, lines[j]? = some (.label name)) → e.index ≤ k := by
  refine ⟨?_, ?_, ?_⟩
  · rw [exists_ofLines_iff]
    constructor
    · intro unrepeated i j name hi hj
      have never {i j : Nat} (hi : lines[i]? = some (.label name))
          (hj : lines[j]? = some (.label name)) : ¬ i < j := fun hlt =>
        unrepeated j name ⟨by simpa using hj, i, hlt, by simpa using hi⟩
      exact Nat.le_antisymm (Nat.le_of_not_lt (never hj hi)) (Nat.le_of_not_lt (never hi hj))
    · rintro unique k name ⟨hk, j, hlt, hj⟩
      exact Nat.ne_of_lt hlt (unique j k name (by simpa using hj) (by simpa using hk))
  · intro p hp
    obtain rfl := ofLines_eq_ok_iff.mp hp
    exact ⟨fun _ _ => labelIndex?_eq_some_iff, fun _ _ => mem_labels, p.pairwise_labels⟩
  · intro e he
    have first := LabelTable.ofLines_eq_error_iff.mp (ofLines_eq_error_iff.mp he)
    refine ⟨first.ascending, by simpa using first.redeclared, ?_, ?_⟩
    · intro j hlt
      constructor
      · intro hj
        exact first.eq_first (by simpa using hj) hlt
      · rintro rfl
        simpa using first.declared
    · rintro k name hk ⟨j, hlt, hj⟩
      exact first.least k name ⟨by simpa using hk, j, hlt, by simpa using hj⟩

/-- Labels that are declared in another order than that of their names, one of
them empty and one with a blank in it. -/
def scatteredMarkers : Array Line :=
  #[.label "z", .instruction ⟨"POP", []⟩, .label "", .label "b c"]

/-- Two labels are declared again, the later one first. -/
def repeatedMarkers : Array Line :=
  #[.label "a", .label "b", .instruction ⟨"POP", []⟩, .label "b", .label "a"]

/-- The one makes a program that finds its labels, and the other is refused for
the repetition that comes first. -/
theorem labels_of_scatteredMarkers :
    (∃ p, ofLines scatteredMarkers = .ok p ∧ p.labelIndex? "b c" = some 3 ∧
      p.labelIndex? "POP" = none ∧ ("", 2) ∈ p.labels.toList ∧
      p.labels.toList.Pairwise (·.1 < ·.1)) ∧
    ofLines repeatedMarkers = .error ⟨"b", 1, 3⟩ ∧
      (∀ j < 3, repeatedMarkers[j]? = some (.label "b") ↔ j = 1) ∧
      ∀ p, ofLines repeatedMarkers ≠ .ok p := by
  obtain ⟨p, hp⟩ : ∃ p, ofLines scatteredMarkers = .ok p := ⟨_, rfl⟩
  obtain ⟨found, listed, ascending⟩ := (labels_are_exactly_markers scatteredMarkers).2.1 p hp
  have hrepeated : ofLines repeatedMarkers = .error ⟨"b", 1, 3⟩ := rfl
  obtain ⟨builds, -, refused⟩ := labels_are_exactly_markers repeatedMarkers
  refine ⟨⟨p, hp, (found "b c" 3).mpr rfl, ?_, (listed "" 2).mpr rfl, ascending⟩, hrepeated,
    (refused _ hrepeated).2.2.1, ?_⟩
  · rw [Option.eq_none_iff_forall_ne_some]
    intro i hi
    have hmem : Line.label "POP" ∈ scatteredMarkers :=
      Array.mem_of_getElem? ((found "POP" i).mp hi)
    simp [scatteredMarkers] at hmem
  · intro q hq
    exact absurd (builds.mp ⟨q, hq⟩ 0 4 "a" rfl rfl) (by decide)

end Program

end MeteredLedger
