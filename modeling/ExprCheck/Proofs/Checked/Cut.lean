import ExprCheck.Proofs.Chain.Decomposition
import ExprCheck.Proofs.Checked
/-! Cutting a run by positions. Reading by positions, a name with parentheses is recognised by the
position of the parentheses, and an operand is the stretch from the position where it starts to that
of the operator behind it. Main statements: no such position is out of range, and the reading finds
the calls and the cuts that are found without positions. -/
namespace ExprCheck

namespace Checked

variable {α : Type}

def fail (fault : Fault) (place? : Option Place) : Checked α :=
  (Analysis.fail fault place?).checked

def index (xs : List α) (position : Nat) : Checked α :=
  match xs[position]? with
  | some x => pure x
  | none => outOfRange

/-- The elements from one position up to another one, which must not lie before it. -/
def slice (xs : List α) (start stop : Nat) : Checked (List α) :=
  if start ≤ stop ∧ stop ≤ xs.length then pure ((xs.take stop).drop start) else outOfRange

theorem index_append (front : List α) (x : α) (back : List α) :
    index (front ++ x :: back) front.length = pure x := by
  simp [index]

theorem slice_append (front part back : List α) :
    slice (front ++ part ++ back) front.length (front.length + part.length) = pure part := by
  simp [slice, List.take_append]

theorem slice_front (part back : List α) : slice (part ++ back) 0 part.length = pure part := by
  simpa using slice_append [] part back

theorem slice_back (front part : List α) :
    slice (front ++ part) front.length (front ++ part).length = pure part := by
  simpa using slice_append front part []

end Checked

theorem findIdx?_eq_splitAtFirst {α : Type} (p : α → Bool) (xs : List α) :
    xs.findIdx? p = (splitAtFirst p xs).map fun parts => parts.1.length := by
  induction xs with
  | nil => rfl
  | cons x rest ih =>
    rw [List.findIdx?_cons, splitAtFirst, ih]
    split
    · rfl
    · cases splitAtFirst p rest <;> rfl

namespace Checked

/-- Whether a run starts with a name and parentheses, and with nothing behind them if the call is
strict. -/
def nameCall (strict : Bool) (run : List Token) : Checked Bool :=
  match run.findIdx? Token.isParenGroup with
  | none => pure false
  | some position => do
      let head ← slice run 0 position
      return (dottedName? head).isSome && (!strict || position + 1 == run.length)

theorem nameCall_eq (strict : Bool) (run : List Token) :
    nameCall strict run = pure (isCall strict run) := by
  unfold nameCall isCall
  rw [findIdx?_eq_splitAtFirst]
  cases cut : splitAtFirst Token.isParenGroup run with
  | none => rfl
  | some parts =>
    obtain ⟨head, paren, tail⟩ := parts
    obtain ⟨rfl, -, -⟩ := of_splitAtFirst_eq_some cut
    have ends : (head.length + 1 == (head ++ paren :: tail).length) = tail.isEmpty := by
      cases tail <;> simp
    simp only [Option.map_some, slice_front, pure_bind, ends]

/-- What a reading has found in front of a position: operands and operators that are complete, the
signs read since, and where an operand has started. -/
structure Reading where
  operands : List (Piece Token)
  operators : List (BinaryOp × Token)
  signs : List (UnaryOp × Token)
  start? : Option Nat

namespace Reading

/-- Reads the token at a position. An operand ends in front of a binary operator. -/
def step (run : List Token) (position : Nat) (t : Token) (r : Reading) : Checked Reading :=
  match r.start? with
  | none =>
      match t.unaryOp? with
      | some op => pure { r with signs := r.signs ++ [(op, t)] }
      | none =>
          match t.binaryOp? with
          | some _ => fail .invalidForm t.place
          | none => pure { r with start? := some position }
  | some start =>
      match t.binaryOp? with
      | some op => do
          let part ← slice run start position
          return ⟨r.operands ++ [⟨r.signs, part⟩], r.operators ++ [(op, t)], [], none⟩
      | none => pure r

def steps (run : List Token) : Nat → List Token → Reading → Checked Reading
  | _, [], r => pure r
  | position, t :: rest, r => do steps run (position + 1) rest (← r.step run position t)

def finish (run : List Token) (r : Reading) :
    Checked (List (Piece Token) × List (BinaryOp × Token)) :=
  match r.start? with
  | some start => do
      let part ← slice run start run.length
      return (r.operands ++ [⟨r.signs, part⟩], r.operators)
  | none => fail .invalidForm (lastPlace? run)

end Reading

/-- The operands of a run and the operators between them. -/
def cut (run : List Token) : Checked (List (Piece Token) × List (BinaryOp × Token)) := do
  (← Reading.steps run 0 run ⟨[], [], [], none⟩).finish run

def ofSplit (operands : List (Piece Token)) (operators : List (BinaryOp × Token)) :
    Except (Option Token) (Chain Token) → Checked (List (Piece Token) × List (BinaryOp × Token))
  | .ok c => pure (operands ++ c.operands, operators ++ c.operators)
  | .error t? => fail .invalidForm (t?.map Token.place)

theorem ofSplit_cons (operands : List (Piece Token)) (operators : List (BinaryOp × Token))
    (piece : Piece Token) (op : BinaryOp × Token) (read : Except (Option Token) (Chain Token)) :
    ofSplit operands operators (read.map (Chain.cons piece op)) =
      ofSplit (operands ++ [piece]) (operators ++ [op]) read := by
  cases read with
  | error t? => rfl
  | ok c => simp [ofSplit, Except.map, Chain.cons, Chain.operands, Chain.operators]

theorem steps_eq_ofSplit (rest : List Token) :
    (∀ front operands operators signs,
      (Reading.steps (front ++ rest) front.length rest ⟨operands, operators, signs, none⟩ >>=
          Reading.finish (front ++ rest)) =
        ofSplit operands operators (Chain.beforeOperand id front.getLast? signs rest)) ∧
    (∀ front part operands operators signs,
      (Reading.steps (front ++ part ++ rest) (front.length + part.length) rest
          ⟨operands, operators, signs, some front.length⟩ >>=
          Reading.finish (front ++ part ++ rest)) =
        ofSplit operands operators (Chain.inOperand id ⟨signs, part⟩ rest)) := by
  -- Both states of the reader at once. Inside an operand, `part` is what has been read of it.
  induction rest with
  | nil =>
    constructor
    · intro front operands operators signs
      simp [Reading.steps, Reading.finish, Chain.beforeOperand, ofSplit, lastPlace?]
    · intro front part operands operators signs
      simp only [Reading.steps, pure_bind, Reading.finish, List.append_nil, slice_back]
      simp [Chain.inOperand, ofSplit, Chain.operands, Chain.operators]
  | cons t rest ih =>
    obtain ⟨before, inside⟩ := ih
    constructor
    · intro front operands operators signs
      have next := before (front ++ [t]) operands operators
      have starts := inside front [t] operands operators signs
      simp only [List.append_assoc, List.singleton_append, List.length_append, List.length_singleton,
        List.getLast?_concat] at next starts
      simp only [Reading.steps, Reading.step, Chain.beforeOperand, id_eq]
      cases t.unaryOp? with
      | some op => simpa using next (signs ++ [(op, t)])
      | none =>
        cases t.binaryOp? with
        | some op => rfl
        | none => simpa using starts
    · intro front part operands operators signs
      simp only [Reading.steps, Reading.step, Chain.inOperand, id_eq]
      cases t.binaryOp? with
      | some op =>
        have next := before (front ++ part ++ [t]) (operands ++ [⟨signs, part⟩])
          (operators ++ [(op, t)]) []
        simp only [List.append_assoc, List.singleton_append, List.length_append,
          List.length_singleton, List.getLast?_append, List.getLast?_singleton] at next
        have read := slice_append front part (t :: rest)
        simp only [List.append_assoc] at read
        simp only [List.append_assoc, read, pure_bind, ofSplit_cons]
        simpa [Nat.add_assoc] using next
      | none =>
        have longer := inside front (part ++ [t]) operands operators signs
        simpa [Nat.add_assoc] using longer

/-- Reading by positions finds the cut of a run, and no operand reaches out of the run. -/
theorem cut_eq (run : List Token) : cut run = ofSplit [] [] (Chain.split id run) :=
  (steps_eq_ofSplit run).1 [] [] [] []

end Checked

end ExprCheck
