import MeteredLedger.Proofs.Source.Grammar

/-!
# Which texts are loaded

Loading is described by the grammar of lines, line by line of the source text.
The indices of a program count the lines that say something, and the numbers in
errors count all lines. `position` leads from one to the other. It grows with
every line that says something, so the order of declarations in the text is
their order in the program, and the first label that the program repeats is the
first that the text repeats.
-/

namespace MeteredLedger.Source

/-- The number of lines before line `n` that are not blank. -/
def position (lines : List (List Char)) (n : Nat) : Nat :=
  (lines.take n).countP (content · ≠ [])

/-- Line `n` declares a label. Lines are counted from zero here. -/
def DeclaredAt (lines : List (List Char)) (name : String) (n : Nat) : Prop :=
  ∃ line ∈ lines[n]?, Declares line name

/-- Line `n` declares a label that a line before it has declared. -/
def RepeatedAt (lines : List (List Char)) (name : String) (n : Nat) : Prop :=
  DeclaredAt lines name n ∧ ∃ m < n, DeclaredAt lines name m

/-- The first malformed line, with its place. -/
structure FirstMalformed (lines : List (List Char)) (line : List Char) (n : Nat) : Prop where
  found : lines[n]? = some line
  malformed : Malformed line
  least : ∀ m < n, ∀ other ∈ lines[m]?, ¬ Malformed other

/-- The first line that declares a label again, with the label. -/
structure FirstRepeated (lines : List (List Char)) (name : String) (n : Nat) : Prop where
  repeated : RepeatedAt lines name n
  least : ∀ m other, RepeatedAt lines other m → n ≤ m

section

variable {α β ε : Type} {xs : List α}

/-- A traversal fails at the first item that fails. -/
theorem mapM_eq_error_iff {f : α → Except ε β} {e : ε} :
    xs.mapM f = .error e ↔
      ∃ (n : Nat) (x : α), xs[n]? = some x ∧ f x = .error e ∧
        ∀ m < n, ∀ y ∈ xs[m]?, ∃ z, f y = .ok z := by
  induction xs with
  | nil => simp [pure, Except.pure]
  | cons x xs ih =>
    rw [List.mapM_cons]
    cases hx : f x with
    | error e' =>
      constructor
      · rintro ⟨⟩
        exact ⟨0, x, rfl, hx, by simp⟩
      · rintro ⟨n, y, hy, hfail, hbefore⟩
        cases n with
        | zero =>
          obtain rfl : x = y := by simpa using hy
          rw [← hx, hfail]
          rfl
        | succ n => simpa [hx] using hbefore 0 n.succ_pos x rfl
    | ok y =>
      have hrest : (do let ys ← xs.mapM f; pure (y :: ys)) = .error e ↔ xs.mapM f = .error e := by
        cases xs.mapM f <;> simp [Bind.bind, Except.bind, pure, Except.pure]
      refine hrest.trans (ih.trans ⟨?_, ?_⟩)
      · rintro ⟨n, x', hx', hfail, hbefore⟩
        refine ⟨n + 1, x', hx', hfail, ?_⟩
        intro m hm
        cases m with
        | zero => simp [hx]
        | succ m => exact hbefore m (Nat.lt_of_succ_lt_succ hm)
      · rintro ⟨n, x', hx', hfail, hbefore⟩
        cases n with
        | zero =>
          obtain rfl : x = x' := by simpa using hx'
          simp [hx] at hfail
        | succ n =>
          exact ⟨n, x', hx', hfail, fun m hm => hbefore (m + 1) (Nat.succ_lt_succ hm)⟩

/-- Items that determine their partners are found beside them. -/
theorem getElem?_eq_some_iff_of_forall₂ {R : α → β → Prop} {ys : List β}
    (h : List.Forall₂ R xs ys) (unique : ∀ x y y', R x y → R x y' → y = y') {j : Nat} {y : β} :
    ys[j]? = some y ↔ ∃ x, xs[j]? = some x ∧ R x y := by
  induction h generalizing j with
  | nil => simp
  | cons hxy _ ih =>
    cases j with
    | zero =>
      simp only [List.getElem?_cons_zero, Option.some.injEq, exists_eq_left']
      exact ⟨fun heq => heq ▸ hxy, unique _ _ _ hxy⟩
    | succ j => simpa using ih

/-- The items that are kept stand at the number of kept items before them. -/
theorem getElem?_filter_eq_some_iff {keep : α → Bool} {x : α} {j : Nat} :
    (xs.filter keep)[j]? = some x ↔
      ∃ n, xs[n]? = some x ∧ keep x = true ∧ (xs.take n).countP keep = j := by
  induction xs generalizing j with
  | nil => simp
  | cons y ys ih =>
    rw [← Nat.or_exists_add_one]
    cases hy : keep y with
    | true =>
      rw [List.filter_cons_of_pos hy]
      cases j with
      | zero =>
        have hkeep : y = x → keep x = true := fun heq => heq ▸ hy
        simpa [hy] using hkeep
      | succ j => simp [hy, ih]
    | false =>
      have hskip : ¬ ((y :: ys)[0]? = some x ∧ keep x = true ∧
          ((y :: ys).take 0).countP keep = j) := by
        rintro ⟨heq, hkeep, -⟩
        obtain rfl : y = x := by simpa using heq
        simp [hy] at hkeep
      rw [List.filter_cons_of_neg (by simp [hy]), ih, or_iff_right hskip]
      simp [hy]

end

section

variable {lines : List (List Char)} {name : String} {m n : Nat}

theorem position_mono (h : m ≤ n) : position lines m ≤ position lines n :=
  (List.take_prefix_take_left h).sublist.countP_le

/-- A line that declares a label moves the lines after it. -/
theorem DeclaredAt.position_lt (h : DeclaredAt lines name m) (hlt : m < n) :
    position lines m < position lines n := by
  obtain ⟨line, hline, hdeclares⟩ := h
  have hcontent : content line ≠ [] := StandsFor.content_ne_nil (l := .label name) hdeclares
  have hsucc : position lines (m + 1) = position lines m + 1 := by
    simp [position, List.take_add_one, Option.mem_def.mp hline, hcontent]
  exact Nat.lt_of_lt_of_le (hsucc ▸ Nat.lt_succ_self _) (position_mono hlt)

theorem declaredAt_iff :
    DeclaredAt lines name n ↔ (lines.map Row.ofLine)[n]? = some (.label name) := by
  simp [DeclaredAt, ofLine_eq_label_iff]

theorem DeclaredAt.unique {name' : String} (h : DeclaredAt lines name n)
    (h' : DeclaredAt lines name' n) : name = name' := by
  obtain ⟨line, hline, -, hcontent⟩ := h
  obtain ⟨line', hline', -, hcontent'⟩ := h'
  obtain rfl : line = line' := Option.mem_unique hline hline'
  rw [hcontent] at hcontent'
  exact String.toList_inj.mp (List.append_cancel_right hcontent')

theorem FirstRepeated.unique {name' : String} (h : FirstRepeated lines name n)
    (h' : FirstRepeated lines name' m) : name = name' ∧ n = m := by
  obtain rfl : n = m := Nat.le_antisymm (h.least _ _ h'.repeated) (h'.least _ _ h.repeated)
  exact ⟨h.repeated.1.unique h'.repeated.1, rfl⟩

end

section

variable {text : String} {rows : List (Nat × Line)}

theorem getElem?_numberedLines (text : String) (n : Nat) :
    (numberedLines text)[n]? = (Text.lines text.toList)[n]?.map fun line => (n + 1, line) := by
  simp [numberedLines, List.getElem?_zipIdx, Function.comp_def]

theorem map_snd_numberedLines (text : String) :
    (numberedLines text).map (·.2) = Text.lines text.toList :=
  (map_numberedLines id).trans (List.map_id _)

theorem codeLines_eq (text : String) :
    codeLines text = (numberedLines text).filter fun x => content x.2 ≠ [] := by
  refine List.filter_congr fun x _ => ?_
  simp only [ne_eq, ofLine_eq_blank_iff]

theorem countP_take_numberedLines (text : String) (n : Nat) :
    ((numberedLines text).take n).countP (fun x => content x.2 ≠ []) =
      position (Text.lines text.toList) n := by
  rw [position, ← map_snd_numberedLines, ← List.map_take, List.countP_map]
  rfl

/-- Where the lines of a program come from. -/
theorem getElem?_readLines (h : readLines .refused text = .ok rows) {j k : Nat} {l : Line} :
    rows[j]? = some (k, l) ↔
      ∃ n, ∃ line ∈ (Text.lines text.toList)[n]?, StandsFor line l ∧ k = n + 1 ∧
        position (Text.lines text.toList) n = j := by
  have unique (x : Nat × List Char) (y y' : Nat × Line)
      (hy : readLine .refused x.1 x.2 = .ok (some y))
      (hy' : readLine .refused x.1 x.2 = .ok (some y')) : y = y' := by
    simpa [hy] using hy'
  rw [getElem?_eq_some_iff_of_forall₂ (readLines_eq_ok_iff.mp h) unique, codeLines_eq]
  simp only [getElem?_filter_eq_some_iff, countP_take_numberedLines, getElem?_numberedLines,
    readLine_eq_some_iff]
  constructor
  · rintro ⟨x, ⟨n, hx, -, rfl⟩, rfl, hl⟩
    obtain ⟨line, hline, rfl⟩ := Option.map_eq_some_iff.mp hx
    exact ⟨n, line, hline, hl, rfl, rfl⟩
  · rintro ⟨n, line, hline, hl, rfl, rfl⟩
    refine ⟨(n + 1, line), ⟨n, ?_, ?_, rfl⟩, rfl, hl⟩
    · simp [Option.mem_def.mp hline]
    · simpa using hl.content_ne_nil

theorem getElem?_eq_label_iff (h : readLines .refused text = .ok rows) {j : Nat} {name : String} :
    (rows.map (·.2))[j]? = some (.label name) ↔
      ∃ n, DeclaredAt (Text.lines text.toList) name n ∧
        position (Text.lines text.toList) n = j := by
  simp only [List.getElem?_map, Option.map_eq_some_iff, Prod.exists, exists_eq_right,
    getElem?_readLines h, DeclaredAt, StandsFor]
  constructor
  · rintro ⟨k, n, line, hline, hdeclares, -, hj⟩
    exact ⟨n, ⟨line, hline, hdeclares⟩, hj⟩
  · rintro ⟨n, ⟨line, hline, hdeclares⟩, hj⟩
    exact ⟨n + 1, n, line, hline, hdeclares, rfl, hj⟩

/-- A label is repeated in the program where it is repeated in the text. -/
theorem redeclares_iff (h : readLines .refused text = .ok rows) {j : Nat} {name : String} :
    Redeclares (rows.map (·.2)) j name ↔
      ∃ n, RepeatedAt (Text.lines text.toList) name n ∧
        position (Text.lines text.toList) n = j := by
  simp only [Redeclares, getElem?_eq_label_iff h]
  constructor
  · rintro ⟨⟨n, hn, rfl⟩, _, hlt, m, hm, rfl⟩
    have hmn : m < n := by
      by_contra hle
      exact Nat.not_lt_of_le (position_mono (Nat.le_of_not_lt hle)) hlt
    exact ⟨n, ⟨hn, m, hmn, hm⟩, rfl⟩
  · rintro ⟨n, ⟨hn, m, hmn, hm⟩, rfl⟩
    exact ⟨⟨n, hn, rfl⟩, _, hm.position_lt hmn, m, hm, rfl⟩

/-- Lines that cannot be assembled are blamed on the line of the text that
repeats a label first. -/
theorem exists_firstRepeated_of_assemble (h : readLines .refused text = .ok rows) {e : Error}
    (he : assemble rows = .error e) :
    ∃ name n, FirstRepeated (Text.lines text.toList) name n ∧
      e = ⟨n + 1, .duplicateLabel name⟩ := by
  rw [assemble] at he
  split at he
  · simp at he
  · next d hd =>
    have first := LabelTable.ofLines_eq_error_iff.mp (Program.ofLines_eq_error_iff.mp hd)
    obtain ⟨n, repeated, hindex⟩ := (redeclares_iff h).mp first.redeclares
    obtain ⟨line, hline, hdeclares⟩ := repeated.1
    have hrow : rows[d.index]? = some (n + 1, .label d.label) :=
      (getElem?_readLines h).mpr ⟨n, line, hline, hdeclares, rfl, hindex⟩
    refine ⟨d.label, n, ⟨repeated, ?_⟩, ?_⟩
    · intro m other hother
      have hle := first.least _ _ ((redeclares_iff h).mpr ⟨m, hother, rfl⟩)
      by_contra hlt
      exact Nat.not_lt_of_le (hindex ▸ hle) (hother.1.position_lt (Nat.lt_of_not_le hlt))
    · simpa [List.getD_eq_getElem?_getD, hrow] using he.symm

theorem assemble_eq_error_iff (h : readLines .refused text = .ok rows) {e : Error} :
    assemble rows = .error e ↔
      ∃ name n, FirstRepeated (Text.lines text.toList) name n ∧
        e = ⟨n + 1, .duplicateLabel name⟩ := by
  refine ⟨exists_firstRepeated_of_assemble h, ?_⟩
  rintro ⟨name, n, first, rfl⟩
  cases hassemble : assemble rows with
  | error e =>
    obtain ⟨name', n', first', rfl⟩ := exists_firstRepeated_of_assemble h hassemble
    obtain ⟨rfl, rfl⟩ := first.unique first'
    rfl
  | ok p =>
    have hlines := Program.ofLines_eq_ok_iff.mpr (assemble_eq_ok_iff.mp hassemble)
    exact absurd ((redeclares_iff h).mpr ⟨n, first.repeated, rfl⟩)
      (Program.exists_ofLines_iff.mp ⟨p, hlines⟩ _ _)

theorem exists_readLine_iff {number : Nat} {line : List Char} :
    (∃ result, readLine .refused number line = .ok result) ↔ ¬ Malformed line := by
  cases hread : readLine .refused number line with
  | ok result =>
    refine iff_of_true ⟨result, rfl⟩ ?_
    intro malformed
    simp [readLine_eq_error_iff.mpr ⟨malformed, rfl⟩] at hread
  | error e => simp [(readLine_eq_error_iff.mp hread).1]

theorem readLines_eq_error_iff {e : Error} :
    readLines .refused text = .error e ↔
      ∃ line n, FirstMalformed (Text.lines text.toList) line n ∧
        e = ⟨n + 1, .malformed (String.ofList (Text.trim line))⟩ := by
  have hmapM : readLines .refused text = .error e ↔
      ((numberedLines text).mapM fun x => readLine .refused x.1 x.2) = .error e := by
    rw [readLines]
    cases (numberedLines text).mapM fun x => readLine .refused x.1 x.2 <;>
      simp [Bind.bind, Except.bind, pure, Except.pure]
  rw [hmapM, mapM_eq_error_iff]
  simp only [getElem?_numberedLines, Option.map_eq_some_iff, Option.mem_def,
    readLine_eq_error_iff, forall_exists_index, and_imp, forall_apply_eq_imp_iff₂,
    exists_readLine_iff]
  constructor
  · rintro ⟨n, _, ⟨line, hline, rfl⟩, ⟨malformed, rfl⟩, hbefore⟩
    exact ⟨line, n, ⟨hline, malformed, hbefore⟩, rfl⟩
  · rintro ⟨line, n, ⟨hline, malformed, hbefore⟩, rfl⟩
    exact ⟨n, _, ⟨line, hline, rfl⟩, ⟨malformed, rfl⟩, hbefore⟩

/-- Only a line that cannot be read is reported as malformed. -/
theorem load_eq_malformed_iff {k : Nat} {t : String} :
    load text = .error ⟨k, .malformed t⟩ ↔
      readLines .refused text = .error ⟨k, .malformed t⟩ := by
  rw [load, parse]
  cases hrows : readLines .refused text with
  | error e => simp [Bind.bind, Except.bind]
  | ok rows =>
    change assemble rows = _ ↔ _
    simp [assemble_eq_error_iff hrows]

/-- Without a malformed line, all lines are read. -/
theorem exists_readLines (h : ∀ line ∈ Text.lines text.toList, ¬ Malformed line) :
    ∃ rows, readLines .refused text = .ok rows ∧ load text = assemble rows := by
  cases hrows : readLines .refused text with
  | ok rows => exact ⟨rows, rfl, by rw [load, parse, hrows]; rfl⟩
  | error e =>
    obtain ⟨line, n, first, -⟩ := readLines_eq_error_iff.mp hrows
    exact absurd first.malformed (h line (List.mem_of_getElem? first.found))

/-- The lines that are not blank stand for the lines of the program. -/
theorem forall₂_standsFor (h : readLines .refused text = .ok rows) :
    List.Forall₂ StandsFor ((Text.lines text.toList).filter (content · ≠ []))
      (rows.map (·.2)) := by
  rw [← map_snd_numberedLines, List.filter_map, List.forall₂_map_left_iff,
    List.forall₂_map_right_iff]
  have hread := readLines_eq_ok_iff.mp h
  rw [codeLines_eq] at hread
  exact hread.imp fun _ _ hline => (readLine_eq_some_iff.mp hline).2

end

/-- A text is loaded unless it has a malformed line or repeats a label. The
first malformed line is reported, wherever labels are repeated, and otherwise
the first line that repeats a label. A program that was loaded has one line for
each line of text that is not blank, in order, and its labels are where their
declarations are. -/
theorem load_accepts_exactly_grammar (text : String) :
    (∀ k t, load text = .error ⟨k, .malformed t⟩ ↔
      ∃ line n, FirstMalformed (Text.lines text.toList) line n ∧ k = n + 1 ∧
        t = String.ofList (Text.trim line)) ∧
    ((∀ line ∈ Text.lines text.toList, ¬ Malformed line) →
      (∀ k label, load text = .error ⟨k, .duplicateLabel label⟩ ↔
        ∃ n, FirstRepeated (Text.lines text.toList) label n ∧ k = n + 1) ∧
      ((∀ name n, ¬ RepeatedAt (Text.lines text.toList) name n) →
        ∃ p, load text = .ok p ∧
          List.Forall₂ StandsFor ((Text.lines text.toList).filter (content · ≠ []))
            p.lines.toList ∧
          ∀ name j, p.labelIndex? name = some j ↔
            ∃ n, DeclaredAt (Text.lines text.toList) name n ∧
              position (Text.lines text.toList) n = j)) := by
  refine ⟨?_, fun sound => ⟨?_, fun unrepeated => ?_⟩⟩
  · intro k t
    simp [load_eq_malformed_iff, readLines_eq_error_iff]
  · intro k label
    obtain ⟨rows, hrows, hload⟩ := exists_readLines sound
    simp [hload, assemble_eq_error_iff hrows, and_comm]
  · obtain ⟨rows, hrows, hload⟩ := exists_readLines sound
    have hredeclares : ∀ j name, ¬ Redeclares (rows.map (·.2)) j name := by
      intro j name hj
      obtain ⟨n, repeated, -⟩ := (redeclares_iff hrows).mp hj
      exact unrepeated name n repeated
    obtain ⟨p, hp⟩ := Program.exists_ofLines_iff.mpr hredeclares
    have hlines := Program.ofLines_eq_ok_iff.mp hp
    refine ⟨p, hload ▸ assemble_eq_ok_iff.mpr hlines, ?_, ?_⟩
    · simpa [hlines] using forall₂_standsFor hrows
    · intro name j
      rw [Program.labelIndex?_eq_some_iff, ← getElem?_eq_label_iff hrows]
      simp [Program.line?, hlines]

/-- The label of the first line is declared again on the fourth, and the fifth
line starts with no name. -/
def repeatedThenMalformed : String := "a: # once\r\n\nPOP\n a:\n1st x"

/-- The same text without its last line. -/
def repeatedOnly : String := "a: # once\r\n\nPOP\n a:\n"

/-- Two labels among blank lines, and an argument that looks like a third one. -/
def twoLabels : String := "# header\nstart:\n\n  RETURN  end: # here\nend:"

/-- The malformed line is reported, although a label is repeated before it;
without it the second declaration is reported, by its line in the text; and
labels have the place of their line among the lines that say something. -/
theorem load_accepts_exactly_grammar_at_examples :
    load repeatedThenMalformed = .error ⟨5, .malformed "1st x"⟩ ∧
    load repeatedOnly = .error ⟨4, .duplicateLabel "a"⟩ ∧
    ∃ p, load twoLabels = .ok p ∧ p.size = 3 ∧
      p.labelIndex? "start" = some 0 ∧ p.labelIndex? "end" = some 2 := by
  refine ⟨?_, ?_, ?_⟩
  · have first : FirstMalformed (Text.lines repeatedThenMalformed.toList) "1st x".toList 4 :=
      ⟨by decide +kernel, by decide +kernel, by decide +kernel⟩
    exact ((load_accepts_exactly_grammar _).1 5 "1st x").mpr ⟨_, _, first, rfl, by decide⟩
  · have sound : ∀ line ∈ Text.lines repeatedOnly.toList, ¬ Malformed line := by decide +kernel
    have rows : (Text.lines repeatedOnly.toList).map Row.ofLine =
        [.label "a", .blank, .words ["POP".toList], .label "a"] := by decide +kernel
    have first : FirstRepeated (Text.lines repeatedOnly.toList) "a" 3 := by
      refine ⟨⟨by simp [declaredAt_iff, rows], 0, by decide, by simp [declaredAt_iff, rows]⟩, ?_⟩
      rintro m other ⟨hm, k, hlt, -⟩
      rw [declaredAt_iff, rows] at hm
      match m with
      | 0 => simp at hlt
      | 1 | 2 => simp at hm
      | m + 3 => exact Nat.le_add_left 3 m
    exact (((load_accepts_exactly_grammar _).2 sound).1 4 "a").mpr ⟨3, first, rfl⟩
  · have sound : ∀ line ∈ Text.lines twoLabels.toList, ¬ Malformed line := by decide +kernel
    have rows : (Text.lines twoLabels.toList).map Row.ofLine =
        [.blank, .label "start", .blank, .words ["RETURN".toList, "end:".toList], .label "end"] := by
      decide +kernel
    have declared {name : String} {n : Nat} (h : DeclaredAt (Text.lines twoLabels.toList) name n) :
        n = 1 ∧ name = "start" ∨ n = 4 ∧ name = "end" := by
      rw [declaredAt_iff, rows] at h
      match n with
      | 0 | 2 | 3 | n + 5 => simp at h
      | 1 | 4 => simpa [eq_comm] using h
    have unrepeated : ∀ name n, ¬ RepeatedAt (Text.lines twoLabels.toList) name n := by
      rintro name n ⟨hn, m, hlt, hm⟩
      rcases declared hn with ⟨rfl, rfl⟩ | ⟨rfl, rfl⟩
      · rcases declared hm with ⟨rfl, -⟩ | ⟨rfl, -⟩ <;> simp at hlt
      · rcases declared hm with ⟨-, hname⟩ | ⟨rfl, -⟩
        · simp at hname
        · simp at hlt
    obtain ⟨p, hp, hlines, hlabels⟩ := ((load_accepts_exactly_grammar _).2 sound).2 unrepeated
    refine ⟨p, hp, ?_, ?_, ?_⟩
    · exact hlines.length_eq.symm
    · exact (hlabels _ _).mpr ⟨1, by simp [declaredAt_iff, rows], by decide +kernel⟩
    · exact (hlabels _ _).mpr ⟨4, by simp [declaredAt_iff, rows], by decide +kernel⟩

end MeteredLedger.Source
