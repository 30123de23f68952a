import ExprCheck.Proofs.Grammar
import ExprCheck.Proofs.Token.Stretch
/-! The calls of a form. A form has a call wherever an operand of its run, or of a run inside it, is
a name with parentheses behind it. Main statement: what holds of all calls that occur in a run holds
of all calls of its form. -/
namespace ExprCheck

/-! ## Operands -/

namespace Chain

variable {τ : Type} {token : τ → Token}

theorem stretch_of_proper_piece {piece : Piece τ} (proper : piece.Proper token) :
    Stretch (piece.run.map token) (piece.elements.map token) := by
  rw [Piece.elements, List.map_append]
  refine .back fun t last plain => ?_
  obtain ⟨n, among, rfl⟩ := List.mem_map.mp (List.mem_of_getLast? last)
  obtain ⟨sign, mem, rfl⟩ := List.mem_map.mp among
  cases plain.1.symm.trans (proper.signs sign mem)

theorem not_isPlain_head_tailElements {rest : List ((BinaryOp × τ) × Piece τ)}
    (ops : ∀ x ∈ rest, (token x.1.2).binaryOp? = some x.1.1) :
    ∀ t ∈ ((tailElements rest).map token).head?, ¬t.IsPlain := by
  cases rest with
  | nil => exact nofun
  | cons x rest =>
    rw [tailElements_cons]
    intro t first plain
    cases first
    cases plain.2.symm.trans (ops x List.mem_cons_self)

theorem stretch_of_mem_tail (front : List Token) {rest : List ((BinaryOp × τ) × Piece τ)}
    (ops : ∀ x ∈ rest, (token x.1.2).binaryOp? = some x.1.1)
    {x : (BinaryOp × τ) × Piece τ} (mem : x ∈ rest) :
    Stretch (x.2.elements.map token) (front ++ (tailElements rest).map token) := by
  induction rest generalizing front with
  | nil => cases mem
  | cons y rest ih =>
    obtain ⟨op, below⟩ := List.forall_mem_cons.mp ops
    rw [tailElements_cons, List.map_cons, List.map_append]
    rcases List.mem_cons.mp mem with rfl | behind
    · refine ⟨front ++ [token x.1.2], (tailElements rest).map token, by simp, ?_,
        not_isPlain_head_tailElements below⟩
      intro t last plain
      rw [List.getLast?_concat, Option.mem_some_iff] at last
      subst last
      cases plain.2.symm.trans op
    · have further := ih (front ++ token y.1.2 :: y.2.elements.map token) below behind
      simpa using further

theorem stretch_of_proper {c : Chain τ} (proper : c.Proper token) :
    Stretch (c.first.run.map token) (c.elements.map token) ∧
      ∀ x ∈ c.rest, Stretch (x.2.run.map token) (c.elements.map token) := by
  rw [elements, List.map_append]
  constructor
  · exact (stretch_of_proper_piece proper.first).trans
      (.front (not_isPlain_head_tailElements proper.ops))
  · intro x mem
    exact (stretch_of_proper_piece (proper.pieces x mem)).trans
      (stretch_of_mem_tail _ proper.ops mem)

end Chain

/-! ## Forms -/

mutual

/-- The class holds of the name and the arguments of every call in the form. -/
def Form.AllCalls (C : String → List Part → Prop) : Form → Prop
  | .invalid _ | .literal _ | .name .. | .empty _ => True
  | .tuple items _ => Part.AllCalls C items
  | .group _ _ inner => inner.AllCalls C
  | .call callee _ args _ => C callee args ∧ Part.AllCalls C args
  | .operation first rest => first.AllCalls C ∧ Operation.AllCalls C rest
termination_by structural form => form

def Part.AllCalls (C : String → List Part → Prop) : List Part → Prop
  | [] => True
  | .missing :: rest => Part.AllCalls C rest
  | .run _ form :: rest => form.AllCalls C ∧ Part.AllCalls C rest
termination_by structural parts => parts

def Operand.AllCalls (C : String → List Part → Prop) : Operand → Prop
  | .mk _ form => form.AllCalls C
termination_by structural operand => operand

def Operation.AllCalls (C : String → List Part → Prop) : List Operation → Prop
  | [] => True
  | .mk _ _ operand :: rest => operand.AllCalls C ∧ Operation.AllCalls C rest
termination_by structural operations => operations

end

/-- The class holds of every call that occurs in the run. -/
def CallsIn (C : String → List Part → Prop) (run : List Token) : Prop :=
  ∀ head inner place callee, Occurs (head ++ [.group .paren inner place]) run →
    dottedName? head = some callee → C callee (Token.group .paren inner place).form.args

variable {C : String → List Part → Prop} {run : List Token}

theorem CallsIn.of_stretch {part : List Token} (h : CallsIn C run) (stretch : Stretch part run) :
    CallsIn C part :=
  fun head inner place callee inside => h head inner place callee (inside.of_stretch stretch)

theorem CallsIn.item {items : List (List Token)} {place : Place} {item : List Token}
    (h : CallsIn C run) (among : .tuple items place ∈ run) (part : item ∈ items) :
    CallsIn C item :=
  fun head inner place callee inside => h head inner place callee (.item among part inside)

theorem CallsIn.inner {bracket : Bracket} {content : List Token} {place : Place}
    (h : CallsIn C run) (among : .group bracket content place ∈ run) : CallsIn C content :=
  fun head inner place callee inside => h head inner place callee (.inner among inside)

theorem Form.allCalls_ofLeaf (l : Leaf) (place : Place) : (Form.ofLeaf l place).AllCalls C := by
  unfold Form.ofLeaf
  split
  · trivial
  · trivial
  · split
    · trivial
    · split <;> trivial
  all_goals trivial

theorem Form.AllCalls.args {form : Form} (h : form.AllCalls C) : Part.AllCalls C form.args := by
  unfold Form.args
  split
  · exact h
  · exact ⟨h, trivial⟩
  · trivial

namespace Noted

structure CallsIn (C : String → List Part → Prop) (run : List Noted) : Prop where
  faithful : Faithful run
  forms : ∀ n ∈ run, n.form.AllCalls C
  calls : ExprCheck.CallsIn C (tokens run)

variable {run : List Noted}

theorem CallsIn.of_stretch {part : List Noted} (h : CallsIn C run) (among : part ⊆ run)
    (stretch : Stretch (tokens part) (tokens run)) : CallsIn C part where
  faithful n mem := h.faithful n (among mem)
  forms n mem := h.forms n (among mem)
  calls := h.calls.of_stretch stretch

theorem allCalls_atomForm? {form : Form} (h : CallsIn C run) (found : atomForm? run = some form) :
    form.AllCalls C := by
  have atom := found
  unfold atomForm? at found
  split at found
  · cases found
    exact h.forms _ List.mem_cons_self
  · split at found
    · cases found
      trivial
    · split at found
      · rename_i call
        obtain ⟨head, paren, callee, rfl, isParen, named, read⟩ := atomForm?_of_isCall call
        cases atom.symm.trans read
        have last : paren ∈ head ++ [paren] := by simp
        obtain ⟨inner, place, group⟩ := Grammar.of_isParenGroup isParen
        have whole : tokens (head ++ [paren]) = tokens head ++ [.group .paren inner place] := by
          simp [tokens, group]
        have here := h.calls _ inner place callee (.here (whole ▸ .refl _)) named
        rw [← group, ← h.faithful paren last] at here
        exact ⟨here, (h.forms paren last).args⟩
      · cases found

theorem allCalls_operand {piece : Piece Noted} (h : CallsIn C piece.run) :
    (operand piece).AllCalls C := by
  unfold operand Operand.AllCalls
  cases found : atomForm? piece.run with
  | none => trivial
  | some form => exact allCalls_atomForm? h found

theorem allCalls_operations {rest : List ((BinaryOp × Noted) × Piece Noted)}
    (h : ∀ x ∈ rest, CallsIn C x.2.run) :
    Operation.AllCalls C
      (rest.map fun ((op, n), piece) => .mk op n.token.place (operand piece)) := by
  induction rest with
  | nil => trivial
  | cons x rest ih =>
    obtain ⟨here, below⟩ := List.forall_mem_cons.mp h
    exact ⟨allCalls_operand here, ih below⟩

theorem allCalls_runForm (h : CallsIn C run) : (runForm run).AllCalls C := by
  unfold runForm
  cases found : atomForm? run with
  | some form => exact allCalls_atomForm? h found
  | none =>
    change (operationForm run).AllCalls C
    unfold operationForm
    split
    · trivial
    · rename_i c read
      obtain ⟨proper, rfl⟩ := Chain.split_eq_ok_iff.mp read
      obtain ⟨first, rest⟩ := Chain.stretch_of_proper proper
      constructor
      · refine allCalls_operand (h.of_stretch (fun n mem => ?_) first)
        simp [Chain.elements, Piece.elements, mem]
      · refine allCalls_operations fun x mem => h.of_stretch (fun n inside => ?_) (rest x mem)
        refine List.mem_append_right _ (List.mem_flatMap.mpr ⟨x, mem, ?_⟩)
        simp [Piece.elements, inside]

end Noted

/-! ## Tokens -/

theorem Form.allCalls_ofTokens_of_forms (h : CallsIn C run)
    (forms : ∀ n ∈ noteTokens run, n.form.AllCalls C) : (Form.ofTokens run).AllCalls C :=
  Noted.allCalls_runForm
    { faithful := Grammar.faithful_noteTokens run
      forms
      calls := by rwa [Grammar.tokens_noteTokens] }

mutual

theorem Token.allCalls_form {t : Token} {run : List Token} (mem : t ∈ run) (h : CallsIn C run) :
    t.form.AllCalls C := by
  cases t with
  | leaf l place => exact Form.allCalls_ofLeaf l place
  | tuple items place => exact allCalls_itemParts fun item part => h.item mem part
  | group bracket inner place =>
    cases inner with
    | nil => trivial
    | cons t rest =>
      have inside := h.inner mem
      have forms := allCalls_noteTokens (List.Subset.refl (t :: rest)) inside
      exact Form.allCalls_ofTokens_of_forms inside forms
termination_by structural t

theorem allCalls_noteTokens {part run : List Token} (among : part ⊆ run) (h : CallsIn C run) :
    ∀ n ∈ noteTokens part, n.form.AllCalls C := by
  cases part with
  | nil => exact nofun
  | cons t rest =>
    obtain ⟨here, below⟩ := List.cons_subset.mp among
    exact List.forall_mem_cons.mpr ⟨Token.allCalls_form here h, allCalls_noteTokens below h⟩
termination_by structural part

theorem allCalls_itemParts {items : List (List Token)} (h : ∀ item ∈ items, CallsIn C item) :
    Part.AllCalls C (itemParts items) := by
  cases items with
  | nil => trivial
  | cons item rest =>
    obtain ⟨here, below⟩ := List.forall_mem_cons.mp h
    have others := allCalls_itemParts below
    cases item with
    | nil =>
      cases rest with
      | nil => trivial
      | cons next rest => exact others
    | cons t run =>
      have forms := allCalls_noteTokens (List.Subset.refl (t :: run)) here
      exact ⟨Form.allCalls_ofTokens_of_forms here forms, others⟩
termination_by structural items

end

/-- The calls of the form of a run occur in the run. -/
theorem Form.allCalls_ofTokens (h : CallsIn C run) : (Form.ofTokens run).AllCalls C :=
  Form.allCalls_ofTokens_of_forms h (allCalls_noteTokens (List.Subset.refl run) h)

end ExprCheck
