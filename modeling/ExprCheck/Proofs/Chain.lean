import ExprCheck.Form.Chain
/-! What splitting at operators gives. A proper chain is one that a reader would write down: signs
are unary operators, an operand starts with no operator and holds no binary one, and binary
operators stand between operands. Every run spells at most one proper chain, and splitting finds it
if there is one. -/
namespace ExprCheck

variable {τ : Type} {token : τ → Token}

namespace Piece

def elements (p : Piece τ) : List τ :=
  p.signs.map Prod.snd ++ p.run

/-- The signs are unary operators; the run starts with no operator and holds no binary one. -/
structure Proper (token : τ → Token) (p : Piece τ) : Prop where
  signs : ∀ s ∈ p.signs, (token s.2).unaryOp? = some s.1
  start : ∃ t rest, p.run = t :: rest ∧ (token t).unaryOp? = none
  plain : ∀ t ∈ p.run, (token t).binaryOp? = none

end Piece

namespace Chain

/-- Binary operators, each with the operand on its right, in order. -/
def tailElements (rest : List ((BinaryOp × τ) × Piece τ)) : List τ :=
  rest.flatMap fun x => x.1.2 :: x.2.elements

def elements (c : Chain τ) : List τ :=
  c.first.elements ++ tailElements c.rest

@[simp] theorem tailElements_nil : tailElements ([] : List ((BinaryOp × τ) × Piece τ)) = [] :=
  rfl

@[simp] theorem tailElements_cons (x : (BinaryOp × τ) × Piece τ)
    (rest : List ((BinaryOp × τ) × Piece τ)) :
    tailElements (x :: rest) = x.1.2 :: (x.2.elements ++ tailElements rest) := by
  simp [tailElements]

structure Proper (token : τ → Token) (c : Chain τ) : Prop where
  first : c.first.Proper token
  ops : ∀ x ∈ c.rest, (token x.1.2).binaryOp? = some x.1.1
  pieces : ∀ x ∈ c.rest, x.2.Proper token

theorem proper_cons {piece : Piece τ} {op : BinaryOp} {t : τ} {c : Chain τ}
    (first : piece.Proper token) (binary : (token t).binaryOp? = some op)
    (proper : c.Proper token) : (Chain.cons piece (op, t) c).Proper token where
  first := first
  ops := List.forall_mem_cons.mpr ⟨binary, proper.ops⟩
  pieces := List.forall_mem_cons.mpr ⟨proper.first, proper.pieces⟩

theorem elements_cons (piece : Piece τ) (op : BinaryOp × τ) (c : Chain τ) :
    (Chain.cons piece op c).elements = piece.elements ++ op.2 :: c.elements := by
  simp [Chain.cons, elements]

theorem proper_of_reading (run : List τ) :
    (∀ last? signs c, (∀ s ∈ signs, (token s.2).unaryOp? = some s.1) →
      beforeOperand token last? signs run = .ok c →
      c.Proper token ∧ c.elements = signs.map Prod.snd ++ run) ∧
    (∀ piece c, piece.Proper token → inOperand token piece run = .ok c →
      c.Proper token ∧ c.elements = piece.elements ++ run) := by
  -- Both states of the reader at once, since each goes on in the other.
  induction run with
  | nil =>
    constructor
    · intro last? signs c _ read
      cases read
    · intro piece c proper read
      cases read
      exact ⟨⟨proper, by simp, by simp⟩, rfl⟩
  | cons t rest ih =>
    constructor
    · intro last? signs c unary read
      unfold beforeOperand at read
      split at read
      · rename_i op found
        have more : ∀ s ∈ signs ++ [(op, t)], (token s.2).unaryOp? = some s.1 :=
          List.forall_mem_append.mpr ⟨unary, List.forall_mem_singleton.mpr found⟩
        have tail := ih.1 _ _ _ more read
        exact ⟨tail.1, by simpa using tail.2⟩
      · rename_i notUnary
        split at read
        · cases read
        · rename_i notBinary
          have start : Piece.Proper token ⟨signs, [t]⟩ :=
            ⟨unary, ⟨t, [], rfl, notUnary⟩, by simpa using notBinary⟩
          have tail := ih.2 _ _ start read
          exact ⟨tail.1, by simpa [Piece.elements] using tail.2⟩
    · intro piece c proper read
      unfold inOperand at read
      split at read
      · rename_i op found
        cases below : beforeOperand token (some t) [] rest with
        | error at? => simp [below, Except.map] at read
        | ok d =>
          have joined : Chain.cons piece (op, t) d = c := by
            simpa [below, Except.map] using read
          have tail := ih.1 _ _ _ (by simp) below
          subst joined
          exact ⟨proper_cons proper found tail.1, by simp [elements_cons, tail.2]⟩
      · rename_i notBinary
        obtain ⟨u, us, starts, notUnary⟩ := proper.start
        have longer : Piece.Proper token ⟨piece.signs, piece.run ++ [t]⟩ := by
          refine ⟨proper.signs, ⟨u, us ++ [t], by simp [starts], notUnary⟩, ?_⟩
          exact List.forall_mem_append.mpr ⟨proper.plain, List.forall_mem_singleton.mpr notBinary⟩
        have tail := ih.2 _ _ longer read
        exact ⟨tail.1, by simpa [Piece.elements] using tail.2⟩

theorem beforeOperand_signs (last? : Option τ) (signs more : List (UnaryOp × τ)) (t : τ)
    (rest : List τ) (unary : ∀ s ∈ more, (token s.2).unaryOp? = some s.1)
    (notUnary : (token t).unaryOp? = none) (notBinary : (token t).binaryOp? = none) :
    beforeOperand token last? signs (more.map Prod.snd ++ t :: rest) =
      inOperand token ⟨signs ++ more, [t]⟩ rest := by
  induction more generalizing last? signs with
  | nil => simp [beforeOperand, notUnary, notBinary]
  | cons s more ih =>
    have found := unary s (by simp)
    simp only [List.map_cons, List.cons_append, beforeOperand, found]
    rw [ih _ _ fun s' hs => unary s' (List.mem_cons_of_mem s hs)]
    simp

theorem inOperand_plain (piece : Piece τ) (ts rest : List τ)
    (plain : ∀ t ∈ ts, (token t).binaryOp? = none) :
    inOperand token piece (ts ++ rest) =
      inOperand token ⟨piece.signs, piece.run ++ ts⟩ rest := by
  induction ts generalizing piece with
  | nil => simp
  | cons t ts ih =>
    have notBinary := plain t (by simp)
    simp only [List.cons_append, inOperand, notBinary]
    rw [ih _ fun u hu => plain u (List.mem_cons_of_mem t hu)]
    simp

theorem beforeOperand_piece (last? : Option τ) (piece : Piece τ) (rest : List τ)
    (proper : piece.Proper token) :
    beforeOperand token last? [] (piece.elements ++ rest) = inOperand token piece rest := by
  obtain ⟨t, ts, starts, notUnary⟩ := proper.start
  have plain : ∀ u ∈ t :: ts, (token u).binaryOp? = none := starts ▸ proper.plain
  have parts : piece.elements ++ rest = piece.signs.map Prod.snd ++ t :: (ts ++ rest) := by
    simp [Piece.elements, starts]
  rw [parts, beforeOperand_signs last? [] _ t _ proper.signs notUnary (plain t (by simp)),
    inOperand_plain _ ts rest fun u hu => plain u (List.mem_cons_of_mem t hu)]
  simp [← starts]

theorem inOperand_tail (piece : Piece τ) (rest : List ((BinaryOp × τ) × Piece τ))
    (ops : ∀ x ∈ rest, (token x.1.2).binaryOp? = some x.1.1)
    (pieces : ∀ x ∈ rest, x.2.Proper token) :
    inOperand token piece (tailElements rest) = .ok ⟨piece, rest⟩ := by
  induction rest generalizing piece with
  | nil => rfl
  | cons x rest ih =>
    have found := ops x (by simp)
    rw [tailElements_cons, inOperand, found]
    simp only
    rw [beforeOperand_piece _ _ _ (pieces x (by simp)),
      ih _ (fun y hy => ops y (List.mem_cons_of_mem x hy))
        fun y hy => pieces y (List.mem_cons_of_mem x hy)]
    rfl

/-- Splitting a run succeeds with a chain exactly if the chain is proper and spells the run. -/
theorem split_eq_ok_iff {run : List τ} {c : Chain τ} :
    split token run = .ok c ↔ c.Proper token ∧ c.elements = run := by
  constructor
  · intro read
    simpa using (proper_of_reading run).1 none [] c (by simp) read
  · rintro ⟨proper, rfl⟩
    unfold split elements
    rw [beforeOperand_piece _ _ _ proper.first, inOperand_tail _ _ proper.ops proper.pieces]

end Chain

end ExprCheck
