import ExprCheck.Proofs.Analyzer.Assembly
/-! Ways to cut a run at operators. A cut is a list of operands and a list of the operators between
them, and nothing but the tokens says whether it is one of a run. Main statement: splitting finds
the only cut of a run, and where it fails there is none; then a syntax error is logged and no
operand is made. -/
namespace ExprCheck

variable {τ : Type} {token : τ → Token}

namespace Chain

def operands (c : Chain τ) : List (Piece τ) :=
  c.first :: c.rest.map Prod.snd

def operators (c : Chain τ) : List (BinaryOp × τ) :=
  c.rest.map Prod.fst

end Chain

/-- The operands in order, each with its signs in front and the operator that follows it behind. -/
def writeOut : List (Piece τ) → List (BinaryOp × τ) → List τ
  | [], operators => operators.map Prod.snd
  | piece :: operands, [] => piece.elements ++ writeOut operands []
  | piece :: operands, op :: operators => piece.elements ++ op.2 :: writeOut operands operators

/-- The run is written out by the operands, one more than the operators. Signs are unary operators,
and an operand starts with no operator of either kind and holds no binary one. -/
structure Decomposes (token : τ → Token) (run : List τ) (operands : List (Piece τ))
    (operators : List (BinaryOp × τ)) : Prop where
  writes : writeOut operands operators = run
  count : operands.length = operators.length + 1
  binary : ∀ op ∈ operators, (token op.2).binaryOp? = some op.1
  signs : ∀ piece ∈ operands, ∀ sign ∈ piece.signs, (token sign.2).unaryOp? = some sign.1
  start : ∀ piece ∈ operands, ∃ t rest, piece.run = t :: rest ∧ (token t).IsPlain
  inside : ∀ piece ∈ operands, ∀ t ∈ piece.run, (token t).binaryOp? = none

theorem Piece.proper_iff {piece : Piece τ} : piece.Proper token ↔
    (∀ sign ∈ piece.signs, (token sign.2).unaryOp? = some sign.1) ∧
      (∃ t rest, piece.run = t :: rest ∧ (token t).IsPlain) ∧
        ∀ t ∈ piece.run, (token t).binaryOp? = none := by
  constructor
  · rintro ⟨signs, ⟨t, rest, starts, notUnary⟩, plain⟩
    exact ⟨signs, ⟨t, rest, starts, notUnary, plain t (by simp [starts])⟩, plain⟩
  · rintro ⟨signs, ⟨t, rest, starts, notUnary, -⟩, plain⟩
    exact ⟨signs, ⟨t, rest, starts, notUnary⟩, plain⟩

namespace Chain

theorem writeOut_operands (c : Chain τ) : writeOut c.operands c.operators = c.elements := by
  obtain ⟨first, rest⟩ := c
  simp only [operands, operators, elements]
  induction rest generalizing first with
  | nil => simp [writeOut]
  | cons x rest ih =>
    have behind := ih x.2
    simp only [List.map_cons, writeOut, tailElements_cons, behind]

theorem decomposes (c : Chain τ) (proper : c.Proper token) :
    Decomposes token c.elements c.operands c.operators := by
  have pieces : ∀ piece ∈ c.operands, piece.Proper token :=
    List.forall_mem_cons.mpr ⟨proper.first, List.forall_mem_map.mpr proper.pieces⟩
  exact {
    writes := c.writeOut_operands
    count := by simp [operands, operators]
    binary := List.forall_mem_map.mpr proper.ops
    signs := fun piece mem => (Piece.proper_iff.mp (pieces piece mem)).1
    start := fun piece mem => (Piece.proper_iff.mp (pieces piece mem)).2.1
    inside := fun piece mem => (Piece.proper_iff.mp (pieces piece mem)).2.2 }

end Chain

theorem Decomposes.exists_chain {run : List τ} {operands : List (Piece τ)}
    {operators : List (BinaryOp × τ)} (h : Decomposes token run operands operators) :
    ∃ c : Chain τ, c.Proper token ∧ c.elements = run ∧ operands = c.operands ∧
      operators = c.operators := by
  have proper : ∀ piece ∈ operands, piece.Proper token := fun piece mem =>
    Piece.proper_iff.mpr ⟨h.signs piece mem, h.start piece mem, h.inside piece mem⟩
  cases operands with
  | nil => cases h.count
  | cons first pieces =>
    obtain ⟨properFirst, properRest⟩ := List.forall_mem_cons.mp proper
    have same : pieces.length = operators.length := Nat.succ.inj h.count
    let c : Chain τ := ⟨first, operators.zip pieces⟩
    have rest : c.operands = first :: pieces :=
      congrArg (List.cons first) (List.map_snd_zip (Nat.le_of_eq same))
    have between : c.operators = operators := List.map_fst_zip (Nat.le_of_eq same.symm)
    refine ⟨c, ⟨properFirst, fun x mem => ?_, fun x mem => ?_⟩, ?_, rest.symm, between.symm⟩
    · exact h.binary x.1 (List.of_mem_zip mem).1
    · exact properRest x.2 (List.of_mem_zip mem).2
    · rw [← c.writeOut_operands, rest, between, h.writes]

/-- Splitting finds the only cut of a run at its operators, and where it fails there is none. Then,
whatever could make the operands, one syntax error is logged and nothing else. An analysis of an
operation splits its run and makes the operands so. -/
theorem split_decomposes (token : τ → Token) (run : List τ) :
    (match Chain.split token run with
      | .ok c => Decomposes token run c.operands c.operators ∧
          ∀ operands operators, Decomposes token run operands operators →
            operands = c.operands ∧ operators = c.operators
      | .error at? => (∀ operands operators, ¬Decomposes token run operands operators) ∧
          ∀ (a : Analyzer) (s : Synthesizer τ) (log : Log), a.assemble token s run log =
            (none, log ++ [⟨.fault .invalidForm, at?.map fun t => (token t).place⟩])) ∧
      ∀ (a : Analyzer) (noted : List Noted),
        a.node (Noted.operationForm noted) = a.assemble Noted.token a.synthesizer noted := by
  refine ⟨?_, fun a noted => a.node_operationForm noted⟩
  cases read : Chain.split token run with
  | ok c =>
    obtain ⟨proper, rfl⟩ := Chain.split_eq_ok_iff.mp read
    refine ⟨c.decomposes proper, fun operands operators cut => ?_⟩
    obtain ⟨d, proper', spells, rfl, rfl⟩ := cut.exists_chain
    cases read.symm.trans (Chain.split_eq_ok_iff.mpr ⟨proper', spells⟩)
    exact ⟨rfl, rfl⟩
  | error at? =>
    refine ⟨fun operands operators cut => ?_, fun a s log => ?_⟩
    · obtain ⟨d, proper, spells, -, -⟩ := cut.exists_chain
      cases read.symm.trans (Chain.split_eq_ok_iff.mpr ⟨proper, spells⟩)
    · rw [Analyzer.assemble, read]
      rfl

end ExprCheck
