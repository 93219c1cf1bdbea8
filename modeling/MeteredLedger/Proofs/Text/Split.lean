import Mathlib.Data.List.TakeWhile
import MeteredLedger.Text.Split

/-!
# Laws of lines and words

A text that is cut at a character falls into the pieces before it and the
pieces after it. The laws of lines and of words are cases of this one: lines
written one after the other are read back, and a blank at the end of a line
belongs to no word of it. A text is trimmed to what stands between the blanks
at its ends, so it has the same words, and a single word is all that is left.
-/

namespace MeteredLedger.Text

section

variable {p : Char → Bool} {c : Char}

/-- A separator cuts a text into two that are split apart. -/
theorem splitWhere_append_cons (h : p c = true) (xs ys : List Char) :
    splitWhere p (xs ++ c :: ys) = splitWhere p xs ++ splitWhere p ys := by
  induction xs with
  | nil => simp [splitWhere_cons_of_pos h]
  | cons x xs ih =>
    rw [List.cons_append]
    cases hx : p x with
    | true => rw [splitWhere_cons_of_pos hx, splitWhere_cons_of_pos hx, ih, List.cons_append]
    | false =>
      rw [splitWhere_cons_of_neg hx, splitWhere_cons_of_neg hx, ih]
      obtain ⟨piece, pieces, hs⟩ := List.exists_cons_of_ne_nil (splitWhere_ne_nil p xs)
      simp [hs]

theorem splitWhere_of_forall {xs : List Char} (h : ∀ c ∈ xs, p c = false) :
    splitWhere p xs = [xs] := by
  induction xs with
  | nil => rfl
  | cons x xs ih =>
    have hxs : ∀ c ∈ xs, p c = false := fun c hc => h c (List.mem_cons_of_mem _ hc)
    rw [splitWhere_cons_of_neg (h x List.mem_cons_self), ih hxs]
    rfl

theorem forall_mem_splitWhere (cs : List Char) :
    ∀ piece ∈ splitWhere p cs, ∀ c ∈ piece, p c = false := by
  induction cs with
  | nil => simp
  | cons x xs ih =>
    cases hx : p x with
    | true => simpa [splitWhere_cons_of_pos hx] using ih
    | false =>
      obtain ⟨first, pieces, hs⟩ := List.exists_cons_of_ne_nil (splitWhere_ne_nil p xs)
      rw [hs, List.forall_mem_cons] at ih
      rw [splitWhere_cons_of_neg hx, hs, List.modifyHead_cons, List.forall_mem_cons,
        List.forall_mem_cons]
      exact ⟨⟨hx, ih.1⟩, ih.2⟩

theorem mem_of_mem_splitWhere {cs piece : List Char} (h : piece ∈ splitWhere p cs) (hc : c ∈ piece) :
    c ∈ cs := by
  induction cs generalizing piece with
  | nil => simp_all
  | cons x xs ih =>
    cases hx : p x with
    | true =>
      rw [splitWhere_cons_of_pos hx] at h
      rcases List.mem_cons.mp h with rfl | h
      · simp at hc
      · exact List.mem_cons_of_mem x (ih h hc)
    | false =>
      obtain ⟨first, pieces, hs⟩ := List.exists_cons_of_ne_nil (splitWhere_ne_nil p xs)
      rw [splitWhere_cons_of_neg hx, hs, List.modifyHead_cons] at h
      rw [hs] at ih
      rcases List.mem_cons.mp h with rfl | h
      · rcases List.mem_cons.mp hc with rfl | hc
        · exact List.mem_cons_self
        · exact List.mem_cons_of_mem x (ih List.mem_cons_self hc)
      · exact List.mem_cons_of_mem x (ih (List.mem_cons_of_mem first h) hc)

/-- The first piece of a text stands at its front, and the others come after it. -/
theorem exists_append_of_splitWhere {cs piece : List Char} {pieces : List (List Char)}
    (h : splitWhere p cs = piece :: pieces) :
    ∃ rest, cs = piece ++ rest ∧ splitWhere p rest = [] :: pieces := by
  induction cs generalizing piece with
  | nil =>
    obtain ⟨rfl, rfl⟩ : [] = piece ∧ [] = pieces := by simpa using h
    exact ⟨[], rfl, rfl⟩
  | cons x xs ih =>
    cases hx : p x with
    | true =>
      obtain ⟨rfl, rfl⟩ : [] = piece ∧ splitWhere p xs = pieces := by
        simpa [splitWhere_cons_of_pos hx] using h
      exact ⟨x :: xs, rfl, splitWhere_cons_of_pos hx xs⟩
    | false =>
      obtain ⟨first, others, hs⟩ := List.exists_cons_of_ne_nil (splitWhere_ne_nil p xs)
      obtain ⟨rfl, rfl⟩ : x :: first = piece ∧ others = pieces := by
        simpa [splitWhere_cons_of_neg hx, hs] using h
      obtain ⟨rest, rfl, hrest⟩ := ih hs
      exact ⟨rest, rfl, hrest⟩

end

theorem mem_of_mem_dropReturn {cs : List Char} {c : Char} (h : c ∈ dropReturn cs) : c ∈ cs := by
  rw [dropReturn] at h
  split at h
  · exact List.dropLast_subset _ h
  · exact h

/-- A line holds no line feed. -/
theorem newline_not_mem_of_mem_lines {cs line : List Char} (h : line ∈ lines cs) : '\n' ∉ line := by
  have piece : ∀ piece ∈ splitWhere (· == '\n') cs, '\n' ∉ piece := by
    intro piece hpiece hc
    simpa using forall_mem_splitWhere cs piece hpiece '\n' hc
  rcases List.mem_append.mp h with h | h
  · obtain ⟨raw, hraw, rfl⟩ := List.mem_map.mp h
    intro hc
    exact piece raw (List.dropLast_subset _ hraw) (mem_of_mem_dropReturn hc)
  · have hlast := (List.mem_filter.mp h).1
    exact piece line (List.mem_of_getLast? (Option.mem_toList.mp hlast))

/-- Lines that are written with a line feed each are read back, but for a
carriage return before the line feed. -/
theorem lines_flatMap {ls : List (List Char)} (h : ∀ l ∈ ls, '\n' ∉ l) :
    lines (ls.flatMap (· ++ ['\n'])) = ls.map dropReturn := by
  have hsplit : splitWhere (· == '\n') (ls.flatMap (· ++ ['\n'])) = ls ++ [[]] := by
    induction ls with
    | nil => rfl
    | cons l ls ih =>
      have hl : ∀ c ∈ l, (c == '\n') = false := by
        intro c hc
        have : c ≠ '\n' := fun heq => h l List.mem_cons_self (heq ▸ hc)
        simpa using this
      rw [List.flatMap_cons, List.append_assoc, List.singleton_append,
        splitWhere_append_cons (by rfl), splitWhere_of_forall hl,
        ih fun l' hl' => h l' (List.mem_cons_of_mem _ hl')]
      rfl
  simp [lines, hsplit]

section

variable {c : Char}

/-- Words end at a blank. -/
theorem words_append_cons (h : isBlank c = true) (xs ys : List Char) :
    words (xs ++ c :: ys) = words xs ++ words ys := by
  rw [words, splitWhere_append_cons h, List.filter_append]
  rfl

theorem words_append_blank (h : isBlank c = true) (cs : List Char) :
    words (cs ++ [c]) = words cs := by
  rw [words_append_cons h]
  simp [words]

/-- A run of characters that are not blank is one word. -/
theorem words_of_forall {w : List Char} (hne : w ≠ []) (h : ∀ c ∈ w, isBlank c = false) :
    words w = [w] := by
  rw [words, splitWhere_of_forall h]
  simp [hne]

/-- A word is a run of characters of the text that are not blank. -/
theorem forall_of_mem_words {w cs : List Char} (h : w ∈ words cs) :
    w ≠ [] ∧ ∀ c ∈ w, isBlank c = false ∧ c ∈ cs := by
  obtain ⟨hpiece, hne⟩ := List.mem_filter.mp h
  refine ⟨by simpa using hne, ?_⟩
  intro c hc
  exact ⟨forall_mem_splitWhere cs w hpiece c hc, mem_of_mem_splitWhere hpiece hc⟩

/-- Words that are written with a blank before each are read back. -/
theorem words_append_flatMap (h : isBlank c = true) {ws : List (List Char)}
    (hws : ∀ w ∈ ws, w ≠ [] ∧ ∀ d ∈ w, isBlank d = false) (cs : List Char) :
    words (cs ++ ws.flatMap (c :: ·)) = words cs ++ ws := by
  induction ws generalizing cs with
  | nil => simp
  | cons w ws ih =>
    rw [List.forall_mem_cons] at hws
    rw [List.flatMap_cons, ← List.append_assoc, ih hws.2, words_append_cons h,
      words_of_forall hws.1.1 hws.1.2, List.append_assoc, List.singleton_append]

theorem trim_append_blank (h : isBlank c = true) (cs : List Char) :
    trim (cs ++ [c]) = trim cs := by
  rw [trim, trim, List.dropWhile_append]
  split
  · next hempty =>
    rw [List.isEmpty_iff.mp hempty, List.dropWhile_cons_of_pos h]
    rfl
  · simp [h]

theorem dropWhile_isBlank_of_forall {cs : List Char} (h : ∀ c ∈ cs, isBlank c = false) :
    cs.dropWhile isBlank = cs := by
  cases cs with
  | nil => rfl
  | cons c cs => exact List.dropWhile_cons_of_neg (by simp [h c List.mem_cons_self])

/-- Blanks around a run of other characters are trimmed. -/
theorem trim_append_append {before cs after : List Char}
    (hbefore : ∀ c ∈ before, isBlank c = true) (hcs : ∀ c ∈ cs, isBlank c = false)
    (hafter : ∀ c ∈ after, isBlank c = true) : trim (before ++ cs ++ after) = cs := by
  have hfront : (cs ++ after).dropWhile isBlank = if cs = [] then [] else cs ++ after := by
    cases cs with
    | nil => simpa using hafter
    | cons c cs => exact List.dropWhile_cons_of_neg (by simp [hcs c List.mem_cons_self])
  rw [trim, List.append_assoc, List.dropWhile_append_of_pos hbefore, hfront]
  split
  · next hnil => simp [hnil]
  · rw [List.reverse_append, List.dropWhile_append_of_pos (by simpa using hafter),
      dropWhile_isBlank_of_forall (by simpa using hcs), List.reverse_reverse]

theorem words_cons_blank (h : isBlank c = true) (cs : List Char) : words (c :: cs) = words cs :=
  words_append_cons h [] cs

/-- Blanks around a text belong to no word of it. -/
theorem words_append_append {before after : List Char} (hbefore : ∀ c ∈ before, isBlank c = true)
    (hafter : ∀ c ∈ after, isBlank c = true) (cs : List Char) :
    words (before ++ cs ++ after) = words cs := by
  induction before with
  | nil =>
    rw [List.nil_append]
    induction after generalizing cs with
    | nil => rw [List.append_nil]
    | cons c after ih =>
      rw [List.forall_mem_cons] at hafter
      rw [List.append_cons, ih hafter.2, words_append_blank hafter.1]
  | cons c before ih =>
    rw [List.forall_mem_cons] at hbefore
    rw [List.cons_append, List.cons_append, words_cons_blank hbefore.1, ih hbefore.2]

theorem words_trim (cs : List Char) : words (trim cs) = words cs := by
  let before := cs.takeWhile isBlank
  let after := ((cs.dropWhile isBlank).reverse.takeWhile isBlank).reverse
  have hcs : before ++ trim cs ++ after = cs := by
    rw [List.append_assoc, trim, ← List.reverse_append, List.takeWhile_append_dropWhile,
      List.reverse_reverse, List.takeWhile_append_dropWhile]
  calc words (trim cs)
    _ = words (before ++ trim cs ++ after) :=
      (words_append_append (fun _ => List.mem_takeWhile_imp)
        (fun _ hc => List.mem_takeWhile_imp (List.mem_reverse.mp hc)) _).symm
    _ = words cs := by rw [hcs]

/-- The first word of a text has only blanks before it, and the others come after it. -/
theorem exists_append_of_words {cs w : List Char} {ws : List (List Char)} (h : words cs = w :: ws) :
    ∃ before rest, (∀ c ∈ before, isBlank c = true) ∧ cs = before ++ w ++ rest ∧
      words rest = ws := by
  induction cs with
  | nil => simp [words] at h
  | cons c cs ih =>
    cases hc : isBlank c with
    | true =>
      rw [words_cons_blank hc] at h
      obtain ⟨before, rest, hbefore, rfl, hrest⟩ := ih h
      exact ⟨c :: before, rest, List.forall_mem_cons.mpr ⟨hc, hbefore⟩, rfl, hrest⟩
    | false =>
      obtain ⟨piece, pieces, hs⟩ := List.exists_cons_of_ne_nil (splitWhere_ne_nil isBlank cs)
      obtain ⟨rfl, rfl⟩ : c :: piece = w ∧ pieces.filter (! ·.isEmpty) = ws := by
        simpa [words, splitWhere_cons_of_neg hc, hs] using h
      obtain ⟨rest, rfl, hrest⟩ := exists_append_of_splitWhere hs
      exact ⟨[], rest, by simp, rfl, by simp [words, hrest]⟩

/-- A text without words is blank. -/
theorem isBlank_of_words_eq_nil {cs : List Char} (h : words cs = []) :
    ∀ c ∈ cs, isBlank c = true := by
  induction cs with
  | nil => simp
  | cons c cs ih =>
    cases hc : isBlank c with
    | true =>
      rw [words_cons_blank hc] at h
      exact List.forall_mem_cons.mpr ⟨hc, ih h⟩
    | false =>
      obtain ⟨piece, pieces, hs⟩ := List.exists_cons_of_ne_nil (splitWhere_ne_nil isBlank cs)
      simp [words, splitWhere_cons_of_neg hc, hs] at h

theorem trim_eq_nil_iff {cs : List Char} : trim cs = [] ↔ words cs = [] := by
  constructor
  · intro h
    rw [← words_trim, h]
    rfl
  · intro h
    have hnil : trim (cs ++ [] ++ []) = [] :=
      trim_append_append (isBlank_of_words_eq_nil h) (by simp) (by simp)
    simpa using hnil

/-- A text with a single word is that word, but for the blanks around it. -/
theorem trim_of_words_eq_singleton {cs w : List Char} (h : words cs = [w]) : trim cs = w := by
  have hword : w ∈ words cs := by simp [h]
  obtain ⟨before, rest, hbefore, rfl, hrest⟩ := exists_append_of_words h
  refine trim_append_append hbefore ?_ (isBlank_of_words_eq_nil hrest)
  intro c hc
  exact ((forall_of_mem_words hword).2 c hc).1

end

end MeteredLedger.Text
