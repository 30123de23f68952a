import ExprCheck.Operator.Tree
/-! Trees of operations, read from left to right. A tree is determined by its operands and operators
in order and by the operations that an operation may have as its operands. Main statements: the tree
of a chain reads as that chain, an operation in it has only operations as operands that bind tightly
enough to stand there without parentheses, and no other such tree reads as the chain. -/
namespace ExprCheck

namespace BinaryOp

/-- The inner operation can be the left operand of the operator; a power takes none of its kind. -/
def FitsLeft (op inner : BinaryOp) : Prop :=
  op.precedence ≤ inner.precedence ∧ (op = pow → op.precedence < inner.precedence)

/-- The inner operation can be the right operand of the operator; only a power takes one that binds
no tighter. -/
def FitsRight (op inner : BinaryOp) : Prop :=
  op.precedence ≤ inner.precedence ∧ (op ≠ pow → op.precedence < inner.precedence)

theorem eq_pow_of_precedence {op : BinaryOp} (same : op.precedence = pow.precedence) :
    op = pow := by
  cases op <;> first | rfl | cases same

theorem fitsRight_of_takesFrom {right left : BinaryOp} (takes : right.takesFrom left = true) :
    left.FitsRight right := by
  simp only [takesFrom, Bool.or_eq_true, decide_eq_true_eq, Bool.and_eq_true, beq_iff_eq,
    isRightAssoc] at takes
  rcases takes with tighter | ⟨same, rfl⟩
  · exact ⟨Nat.le_of_lt tighter, fun _ => tighter⟩
  · exact ⟨Nat.le_of_eq same, fun other => absurd (eq_pow_of_precedence same) other⟩

theorem fitsLeft_of_not_takesFrom {right left : BinaryOp} (leaves : right.takesFrom left = false) :
    right.FitsLeft left := by
  simp only [takesFrom, Bool.or_eq_false_iff, decide_eq_false_iff_not, Bool.and_eq_false_iff,
    beq_eq_false_iff_ne, isRightAssoc] at leaves
  have looser : right.precedence ≤ left.precedence := Nat.le_of_not_lt leaves.1
  refine ⟨looser, fun power => ?_⟩
  have different : left.precedence ≠ right.precedence := leaves.2.resolve_right (absurd power)
  omega

theorem FitsRight.not_fitsLeft {first second : BinaryOp} (below : first.FitsRight second) :
    ¬ second.FitsLeft first := by
  intro above
  have same : first.precedence = second.precedence := Nat.le_antisymm below.1 above.1
  by_cases power : first = pow
  · subst power
    have tighter := above.2 (eq_pow_of_precedence same.symm)
    omega
  · have tighter := below.2 power
    omega

end BinaryOp

namespace OpTree

variable {α : Type}

/-! ## In order -/

def inOrder : OpTree α → α × List (BinaryOp × Place × α)
  | leaf value => (value, [])
  | node op place left right =>
      (left.inOrder.1, left.inOrder.2 ++ (op, place, right.inOrder.1) :: right.inOrder.2)

theorem inOrder_extend (tree : OpTree α) (op : BinaryOp) (place : Place) (value : α) :
    (tree.extend op place value).inOrder =
      (tree.inOrder.1, tree.inOrder.2 ++ [(op, place, value)]) := by
  induction tree with
  | leaf first => rfl
  | node op' place' left right _ ihRight =>
    unfold extend
    split
    · simp [inOrder, ihRight]
    · rfl

theorem inOrder_foldl (tree : OpTree α) (rest : List (BinaryOp × Place × α)) :
    (rest.foldl (fun tree x => tree.extend x.1 x.2.1 x.2.2) tree).inOrder =
      (tree.inOrder.1, tree.inOrder.2 ++ rest) := by
  induction rest generalizing tree with
  | nil => simp
  | cons x rest ih =>
    rw [List.foldl_cons, ih, inOrder_extend]
    simp

theorem inOrder_ofChain (first : α) (rest : List (BinaryOp × Place × α)) :
    (ofChain first rest).inOrder = (first, rest) :=
  inOrder_foldl (leaf first) rest

def leaves : OpTree α → List α
  | leaf value => [value]
  | node _ _ left right => left.leaves ++ right.leaves

theorem leaves_eq_inOrder (tree : OpTree α) :
    tree.leaves = tree.inOrder.1 :: tree.inOrder.2.map (·.2.2) := by
  induction tree with
  | leaf value => rfl
  | node op place left right ihLeft ihRight => simp [leaves, inOrder, ihLeft, ihRight]

theorem leaves_ofChain (first : α) (rest : List (BinaryOp × Place × α)) :
    (ofChain first rest).leaves = first :: rest.map (·.2.2) := by
  rw [leaves_eq_inOrder, inOrder_ofChain]

/-! ## Other places and operands -/

section Map

variable {β : Type} (place : Place → Place) (value : α → β)

def map : OpTree α → OpTree β
  | leaf first => leaf (value first)
  | node op origin left right => node op (place origin) left.map right.map

theorem map_extend (tree : OpTree α) (op : BinaryOp) (origin : Place) (last : α) :
    (tree.extend op origin last).map place value =
      (tree.map place value).extend op (place origin) (value last) := by
  induction tree with
  | leaf first => rfl
  | node op' origin' left right ihLeft ihRight =>
    simp only [extend, map]
    split
    · simp only [map, ihRight]
    · rfl

/-- How a chain is grouped depends neither on the places nor on the operands. -/
theorem map_ofChain (first : α) (rest : List (BinaryOp × Place × α)) :
    (ofChain first rest).map place value =
      ofChain (value first) (rest.map fun x => (x.1, place x.2.1, value x.2.2)) := by
  have steps (tree : OpTree α) :
      (rest.foldl (fun tree x => tree.extend x.1 x.2.1 x.2.2) tree).map place value =
        rest.foldl (fun tree x => tree.extend x.1 (place x.2.1) (value x.2.2))
          (tree.map place value) := by
    induction rest generalizing tree with
    | nil => rfl
    | cons x rest ih => rw [List.foldl_cons, List.foldl_cons, ih, map_extend]
  unfold ofChain
  rw [List.foldl_map]
  exact steps (leaf first)

end Map

/-! ## Grouping -/

def root? : OpTree α → Option BinaryOp
  | leaf _ => none
  | node op .. => some op

/-- Every operation that is an operand of another one fits where it stands. -/
def Grouped : OpTree α → Prop
  | leaf _ => True
  | node op _ left right =>
      (∀ inner, left.root? = some inner → op.FitsLeft inner) ∧
      (∀ inner, right.root? = some inner → op.FitsRight inner) ∧ left.Grouped ∧ right.Grouped

theorem root?_extend (tree : OpTree α) (op : BinaryOp) (place : Place) (value : α) :
    (tree.extend op place value).root? = some op ∨
      (tree.extend op place value).root? = tree.root? := by
  cases tree with
  | leaf first => exact .inl rfl
  | node op' place' left right =>
    unfold extend
    split
    · exact .inr rfl
    · exact .inl rfl

theorem Grouped.extend {tree : OpTree α} (grouped : tree.Grouped) (op : BinaryOp) (place : Place)
    (value : α) : (tree.extend op place value).Grouped := by
  induction tree with
  | leaf first => exact ⟨by simp [root?], by simp [root?], trivial, trivial⟩
  | node op' place' left right _ ihRight =>
    obtain ⟨fitsLeft, fitsRight, groupedLeft, groupedRight⟩ := grouped
    cases takes : op.takesFrom op' with
    | true =>
      rw [OpTree.extend, if_pos takes]
      refine ⟨fitsLeft, fun inner below => ?_, groupedLeft, ihRight groupedRight⟩
      rcases root?_extend right op place value with new | old
      · cases new.symm.trans below
        exact BinaryOp.fitsRight_of_takesFrom takes
      · exact fitsRight inner (old ▸ below)
    | false =>
      rw [OpTree.extend, if_neg (by simp [takes])]
      refine ⟨fun inner below => ?_, by simp [root?], ⟨fitsLeft, fitsRight, groupedLeft,
        groupedRight⟩, trivial⟩
      cases below
      exact BinaryOp.fitsLeft_of_not_takesFrom takes

theorem Grouped.foldl {tree : OpTree α} (grouped : tree.Grouped)
    (rest : List (BinaryOp × Place × α)) :
    (rest.foldl (fun tree x => tree.extend x.1 x.2.1 x.2.2) tree).Grouped := by
  induction rest generalizing tree with
  | nil => exact grouped
  | cons x rest ih => exact ih (grouped.extend x.1 x.2.1 x.2.2)

/-- The tree of a chain is grouped by precedence. -/
theorem grouped_ofChain (first : α) (rest : List (BinaryOp × Place × α)) :
    (ofChain first rest).Grouped := by
  have start : (leaf first).Grouped := trivial
  exact start.foldl rest

theorem Grouped.le_precedence {tree : OpTree α} (grouped : tree.Grouped) {least : Nat}
    (top : ∀ root, tree.root? = some root → least ≤ root.precedence) :
    ∀ x ∈ tree.inOrder.2, least ≤ x.1.precedence := by
  induction tree generalizing least with
  | leaf value => simp [inOrder]
  | node op place left right ihLeft ihRight =>
    obtain ⟨fitsLeft, fitsRight, groupedLeft, groupedRight⟩ := grouped
    have here : least ≤ op.precedence := top op rfl
    intro x mem
    rcases List.mem_append.mp mem with before | after
    · exact ihLeft groupedLeft (fun root r => Nat.le_trans here (fitsLeft root r).1) x before
    · rcases List.mem_cons.mp after with rfl | after
      · exact here
      · exact ihRight groupedRight (fun root r => Nat.le_trans here (fitsRight root r).1) x after

theorem Grouped.fitsLeft {op : BinaryOp} {place : Place} {left right : OpTree α}
    (grouped : (node op place left right).Grouped) : ∀ x ∈ left.inOrder.2, op.FitsLeft x.1 := by
  obtain ⟨fits, -, groupedLeft, -⟩ := grouped
  intro x mem
  refine ⟨?_, fun power => ?_⟩
  · exact groupedLeft.le_precedence (fun root r => (fits root r).1) x mem
  · exact groupedLeft.le_precedence (fun root r => (fits root r).2 power) x mem

theorem Grouped.fitsRight {op : BinaryOp} {place : Place} {left right : OpTree α}
    (grouped : (node op place left right).Grouped) : ∀ x ∈ right.inOrder.2, op.FitsRight x.1 := by
  obtain ⟨-, fits, -, groupedRight⟩ := grouped
  intro x mem
  refine ⟨?_, fun other => ?_⟩
  · exact groupedRight.le_precedence (fun root r => (fits root r).1) x mem
  · exact groupedRight.le_precedence (fun root r => (fits root r).2 other) x mem

/- Where two lists are cut at an element, they are cut at the same place, unless one cut lies behind
the other. -/
theorem eq_of_append_cons_eq {β : Type} {before after before' after' : List β} {x x' : β}
    (same : before ++ x :: after = before' ++ x' :: after')
    (notLater : x' ∈ after → x ∉ before') (notEarlier : x ∈ after' → x' ∉ before) :
    before = before' ∧ x = x' ∧ after = after' := by
  rcases List.append_eq_append_iff.mp same with ⟨mid, first, rest⟩ | ⟨mid, first, rest⟩
  · cases mid with
    | nil =>
      cases rest
      exact ⟨by simp [first], rfl, rfl⟩
    | cons y mid =>
      cases rest
      exact absurd (by simp [first]) (notLater (by simp))
  · cases mid with
    | nil =>
      cases rest
      exact ⟨by simp [first], rfl, rfl⟩
    | cons y mid =>
      cases rest
      exact absurd (by simp [first]) (notEarlier (by simp))

/-- A grouped tree is determined by its operands and operators in order: if the roots of two such
trees stood at different places, each would be an operand of the other. -/
theorem Grouped.unique {t u : OpTree α} (ht : t.Grouped) (hu : u.Grouped)
    (same : t.inOrder = u.inOrder) : t = u := by
  induction t generalizing u with
  | leaf value =>
    cases u with
    | leaf value' =>
      cases same
      rfl
    | node op' place' left' right' => simp [inOrder] at same
  | node op place left right ihLeft ihRight =>
    cases u with
    | leaf value' => simp [inOrder] at same
    | node op' place' left' right' =>
      obtain ⟨first, rest⟩ := Prod.mk.inj same
      obtain ⟨before, root, after⟩ := eq_of_append_cons_eq rest
        (fun below above => (ht.fitsRight _ below).not_fitsLeft (hu.fitsLeft _ above))
        (fun below above => (hu.fitsRight _ below).not_fitsLeft (ht.fitsLeft _ above))
      obtain ⟨rfl, rfl, next⟩ := by simpa using root
      rw [ihLeft ht.2.2.1 hu.2.2.1 (Prod.ext first before),
        ihRight ht.2.2.2 hu.2.2.2 (Prod.ext next after)]

end OpTree

end ExprCheck
