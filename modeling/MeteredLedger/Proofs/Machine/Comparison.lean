import Mathlib.Data.String.Basic
import MeteredLedger.Proofs.Machine.Operands

/-!
# The order of values

Integers are ordered by size and texts by their code points; between an integer
and a text there is no order, and an undefined value has none with any other.
`Value.ordering?` says so, and the three comparing instructions are described by
it: two of them ask for the order and fail where there is none, and the third one
asks whether the values are the same, which can always be told. The laws of an
order on each kind are those of the orders of words and of texts.
-/

namespace MeteredLedger

namespace Value

/-- Both values are integers, or both are text. -/
inductive Comparable : Value → Value → Prop where
  | int (a b : Int64) : Comparable (int a) (int b)
  | text (a b : String) : Comparable (text a) (text b)

/-- How two values of the same kind are ordered. -/
def ordering? : Value → Value → Option Ordering
  | int a, int b => some (compare a b)
  | text a, text b => some (compare a b)
  | _, _ => none

/-- The kind that stands in the way of an order, an undefined value before
another one. -/
def unordered (x y : Value) : Kind :=
  if x = undefined then x.kind else y.kind

section

variable {x y z : Value} {o : Ordering}

theorem exists_ordering?_iff : (∃ o, ordering? x y = some o) ↔ Comparable x y := by
  constructor
  · rintro ⟨o, h⟩
    rw [ordering?.eq_def] at h
    split at h
    · exact .int _ _
    · exact .text _ _
    · simp at h
  · rintro (⟨a, b⟩ | ⟨a, b⟩)
    · exact ⟨_, rfl⟩
    · exact ⟨_, rfl⟩

theorem ordering?_eq_none_iff : ordering? x y = none ↔ ¬ Comparable x y := by
  rw [← exists_ordering?_iff, ← Option.isSome_iff_exists, Option.not_isSome_iff_eq_none]

/-- Values that cannot be compared are the same only if both are undefined. -/
theorem eq_iff_undefined (h : ¬ Comparable x y) : x = y ↔ x = undefined ∧ y = undefined := by
  constructor
  · rintro rfl
    cases x with
    | int a => exact absurd (.int a a) h
    | text a => exact absurd (.text a a) h
    | undefined => exact ⟨rfl, rfl⟩
  · rintro ⟨rfl, rfl⟩
    rfl

theorem ordering?_swap (x y : Value) : ordering? y x = (ordering? x y).map Ordering.swap := by
  cases x <;> cases y <;>
    simp only [ordering?, Option.map_some, Option.map_none, Option.some.injEq]
  · exact Std.OrientedOrd.eq_swap
  · exact Std.OrientedOrd.eq_swap

/-- Values that are ordered neither way are the same. -/
theorem ordering?_eq_eq_iff (h : ordering? x y = some o) : o = .eq ↔ x = y := by
  rw [ordering?.eq_def] at h
  split at h
  · obtain rfl := Option.some.inj h
    rw [Std.compare_eq_iff_eq, int.injEq]
  · obtain rfl := Option.some.inj h
    rw [Std.compare_eq_iff_eq, text.injEq]
  · simp at h

theorem ordering?_lt_trans (hxy : ordering? x y = some .lt) (hyz : ordering? y z = some .lt) :
    ordering? x z = some .lt := by
  cases x <;> cases y <;> cases z <;>
    simp only [ordering?, Option.some.injEq, reduceCtorEq] at hxy hyz ⊢
  · exact Std.TransCmp.lt_trans hxy hyz
  · exact Std.TransCmp.lt_trans hxy hyz

theorem ordering?_int_eq_lt_iff (a b : Int64) :
    ordering? (int a) (int b) = some .lt ↔ a.toInt < b.toInt := by
  rw [ordering?, Option.some.injEq, Std.compare_eq_lt, Int64.lt_iff_toInt_lt]

/-- Texts are ordered by the first code point in which they differ. -/
theorem ordering?_text_eq_lt_iff (a b : String) :
    ordering? (text a) (text b) = some .lt ↔
      List.Lex (fun c d : Char => c.toNat < d.toNat) a.toList b.toList := by
  rw [ordering?, Option.some.injEq, compare_lt_iff_lt, String.lt_iff_toList_lt]
  exact Iff.rfl

end

end Value

namespace Machine

open Value

/-! ## Comparing instructions -/

theorem decode_comparison (p : Program) (op : Comparison) (args : List String) :
    Operation.decode p op.opcode args = .ok (.compare op) := by
  cases op <;> rfl

section

variable {x y : Value} {o : Ordering} {op : Comparison}

theorem performComparison_of_ordering? {s : Store σ} (h : ordering? x y = some o) :
    performComparison op x y s = s.push (.ofBool (op.holds o)) := by
  rw [ordering?.eq_def] at h
  split at h
  · obtain rfl := Option.some.inj h
    rfl
  · obtain rfl := Option.some.inj h
    rfl
  · simp at h

theorem performComparison_of_not_comparable {s : Store σ} (h : ¬ Comparable x y) :
    performComparison op x y s = s.fail (.typeMismatch op.opcode (unordered x y)) := by
  cases x with
  | undefined => rfl
  | int a =>
    cases y with
    | int b => exact absurd (.int a b) h
    | text | undefined => rfl
  | text a =>
    cases y with
    | text b => exact absurd (.text a b) h
    | int | undefined => rfl

theorem exchanges_comparison (h : ordering? x y = some o) (op : Comparison) (args : List String) :
    Exchanges op.opcode args [x, y] [.ofBool (op.holds o)] := by
  apply exchanges_of_perform fun p => decode_comparison p op args
  intro σ host s rest hstack
  rw [perform, Store.withOperands_of_stack hstack, performComparison_of_ordering? h]
  rfl

theorem failsOn_comparison (h : ¬ Comparable x y) (op : Comparison) (args : List String) :
    FailsOn op.opcode args [x, y] (.typeMismatch op.opcode (unordered x y)) := by
  apply failsOn_of_perform fun p => decode_comparison p op args
  intro σ host s rest hstack
  rw [perform, Store.withOperands_of_stack hstack, performComparison_of_not_comparable h]
  rfl

theorem exchanges_equal (x y : Value) (args : List String) :
    Exchanges .eq args [x, y] [.ofBool (x = y)] := by
  have hdecode (p : Program) : Operation.decode p .eq args = .ok .equal := rfl
  apply exchanges_of_perform hdecode
  intro σ host s rest hstack
  rw [perform, Store.withOperands_of_stack hstack]
  rfl

variable {args : List String} {v : Value}

theorem exchanges_comparison_iff (op : Comparison) :
    Exchanges op.opcode args [x, y] [v] ↔
      ∃ o, ordering? x y = some o ∧ v = .ofBool (op.holds o) := by
  constructor
  · intro exchanges
    cases h : ordering? x y with
    | none =>
      have fails := failsOn_comparison (ordering?_eq_none_iff.mp h) op args
      exact absurd exchanges fails.not_exchanges
    | some o =>
      exact ⟨o, rfl, List.singleton_inj.mp (exchanges.unique (exchanges_comparison h op args))⟩
  · rintro ⟨o, h, rfl⟩
    exact exchanges_comparison h op args

theorem exchanges_equal_iff :
    Exchanges .eq args [x, y] [v] ↔ v = .ofBool (x = y) := by
  constructor
  · intro exchanges
    exact List.singleton_inj.mp (exchanges.unique (exchanges_equal x y args))
  · rintro rfl
    exact exchanges_equal x y args

theorem exchanges_lt_one_iff :
    Exchanges .lt args [x, y] [.int 1] ↔ ordering? x y = some .lt := by
  have hone (b : Bool) : Value.int 1 = .ofBool b ↔ b = true := by cases b <;> decide
  have hless : Exchanges .lt args [x, y] [.int 1] ↔ _ := exchanges_comparison_iff .less
  simp only [hless, hone, Comparison.holds, Ordering.isLT_iff_eq_lt, exists_eq_right]

/-- With the operands exchanged, each order asks for the other. -/
theorem exchanges_lt_iff_gt : Exchanges .lt args [x, y] [v] ↔ Exchanges .gt args [y, x] [v] := by
  have hless : Exchanges .lt args [x, y] [v] ↔ _ := exchanges_comparison_iff .less
  have hgreater : Exchanges .gt args [y, x] [v] ↔ _ := exchanges_comparison_iff .greater
  rw [hless, hgreater, ordering?_swap x y]
  cases ordering? x y with
  | none => simp
  | some o => simp [Comparison.holds]

end

/-- The comparison that holds of two values ordered in a given way. -/
def telling : Ordering → Opcode
  | .lt => .lt
  | .eq => .eq
  | .gt => .gt

/-- Values of the same kind are told apart by exactly one of the comparing
instructions. -/
theorem exchanges_telling {x y : Value} {o : Ordering} (h : ordering? x y = some o)
    (args : List String) {op : Opcode} (hop : op ∈ [Opcode.lt, .eq, .gt]) :
    Exchanges op args [x, y] [.int (if op = telling o then 1 else 0)] := by
  have less := exchanges_comparison h .less args
  have greater := exchanges_comparison h .greater args
  have equal := exchanges_equal x y args
  simp only [← ordering?_eq_eq_iff h] at equal
  simp only [List.mem_cons, List.not_mem_nil, or_false] at hop
  rcases hop with rfl | rfl | rfl
  · cases o <;> exact less
  · cases o <;> exact equal
  · cases o <;> exact greater

/-- The comparing instructions agree on one total order for each kind of value. Of
two integers or two texts, given with the top of the stack first, exactly one of
them says one and the others say zero. Exchanging the operands exchanges the two
orders and leaves equality as it is, and the order is transitive: it is that of
the integers, and for texts the lexicographic one by code points. For any other
two values the orders fail and blame the kind that has none, while equality tells
whether both are undefined. -/
theorem comparisons_order_each_kind (args : List String) :
    (∀ x y, Comparable x y → ∃ one ∈ [Opcode.lt, .eq, .gt], ∀ op ∈ [Opcode.lt, .eq, .gt],
      Exchanges op args [x, y] [.int (if op = one then 1 else 0)]) ∧
    (∀ x y v, (Exchanges .lt args [x, y] [v] ↔ Exchanges .gt args [y, x] [v]) ∧
      (Exchanges .eq args [x, y] [v] ↔ Exchanges .eq args [y, x] [v])) ∧
    (∀ x y z, Exchanges .lt args [x, y] [.int 1] → Exchanges .lt args [y, z] [.int 1] →
      Exchanges .lt args [x, z] [.int 1]) ∧
    (∀ a b, Exchanges .lt args [.int a, .int b] [.int 1] ↔ a.toInt < b.toInt) ∧
    (∀ a b, Exchanges .lt args [.text a, .text b] [.int 1] ↔
      List.Lex (fun c d : Char => c.toNat < d.toNat) a.toList b.toList) ∧
    ∀ x y, ¬ Comparable x y →
      FailsOn .lt args [x, y] (.typeMismatch .lt (unordered x y)) ∧
      FailsOn .gt args [x, y] (.typeMismatch .gt (unordered x y)) ∧
      Exchanges .eq args [x, y] [.int (if x = .undefined ∧ y = .undefined then 1 else 0)] := by
  refine ⟨?_, ?_, ?_, ?_, ?_, ?_⟩
  · intro x y comparable
    obtain ⟨o, h⟩ := exists_ordering?_iff.mpr comparable
    refine ⟨telling o, ?_, fun op hop => exchanges_telling h args hop⟩
    cases o <;> decide
  · intro x y v
    refine ⟨exchanges_lt_iff_gt, ?_⟩
    simp only [exchanges_equal_iff, eq_comm]
  · intro x y z hxy hyz
    rw [exchanges_lt_one_iff] at hxy hyz ⊢
    exact ordering?_lt_trans hxy hyz
  · intro a b
    rw [exchanges_lt_one_iff, ordering?_int_eq_lt_iff]
  · intro a b
    rw [exchanges_lt_one_iff, ordering?_text_eq_lt_iff]
  · intro x y incomparable
    have less := failsOn_comparison incomparable .less args
    have greater := failsOn_comparison incomparable .greater args
    have equal := exchanges_equal x y args
    refine ⟨less, greater, ?_⟩
    simpa [ofBool, eq_iff_undefined incomparable] using equal

/-- The largest integer is not below the least one, a text is below any longer one
that starts with it, and capitals come before small letters and these before
letters outside of ASCII. A number that is text is not compared with one that is
not. -/
theorem comparisons_at_examples :
    Exchanges .gt ["x"] [.int .maxValue, .int .minValue] [.int 1] ∧
    Exchanges .lt [] [.text "Z", .text "a"] [.int 1] ∧
    Exchanges .lt [] [.text "a", .text "a b"] [.int 1] ∧
    Exchanges .lt [] [.text "Z", .text "\u00e9"] [.int 1] ∧
    (∃ one ∈ [Opcode.lt, .eq, .gt], ∀ op ∈ [Opcode.lt, .eq, .gt],
      Exchanges op [] [.text "007", .text "7"] [.int (if op = one then 1 else 0)]) ∧
    FailsOn .gt [] [.int 7, .text "7"] (.typeMismatch .gt .text) ∧
    FailsOn .lt [] [.undefined, .int 7] (.typeMismatch .lt .undefined) ∧
    Exchanges .eq [] [.int 7, .text "7"] [.int 0] ∧
    Exchanges .eq [] [.undefined, .undefined] [.int 1] := by
  obtain ⟨-, swap, -, int, -⟩ := comparisons_order_each_kind ["x"]
  obtain ⟨one, -, trans, -, text, other⟩ := comparisons_order_each_kind []
  have capital := (text "Z" "a").mpr (by decide)
  have outside := (text "a" "\u00e9").mpr (by decide)
  have mixed := other (.int 7) (.text "7") (by rintro ⟨⟩)
  have half := other .undefined (.int 7) (by rintro ⟨⟩)
  have both := other .undefined .undefined (by rintro ⟨⟩)
  exact ⟨(swap _ _ _).1.mp ((int _ _).mpr (by decide)), capital, (text _ _).mpr (by decide),
    trans _ _ _ capital outside, one _ _ (.text _ _), mixed.2.1, half.1, mixed.2.2, both.2.2⟩

end Machine

end MeteredLedger
