import ExprCheck.Proofs.Grammar
import ExprCheck.Proofs.Leaves
import ExprCheck.Proofs.Token.Regular
/-! The forms of a source. In a form that is read from the tokens of a source, every name can be
taken apart at its dots into names that are not reserved, and no tuple is without items. -/
namespace ExprCheck

/-- None of the names between the dots is reserved. -/
def Unreserved (text : String) : Prop :=
  ∀ part ∈ dotParts text, isReserved part = false

instance (text : String) : Decidable (Unreserved text) :=
  inferInstanceAs (Decidable (∀ part ∈ dotParts text, isReserved part = false))

theorem Grammar.Name.parts_unreserved {run : List Token} {parts : List String}
    (spells : Grammar.Name run parts) (regular : ∀ t ∈ run, t.Regular) :
    parts ≠ [] ∧ ∀ part ∈ parts, isReserved part = false ∧ '.' ∉ part.toList := by
  induction spells with
  | @single text place free =>
    cases regular _ List.mem_cons_self with
    | leaf dotless =>
      exact ⟨List.cons_ne_nil _ _, List.forall_mem_singleton.mpr ⟨free, dotless text rfl⟩⟩
  | @dotted text place dot run parts free rest ih =>
    obtain ⟨here, below⟩ := List.forall_mem_cons.mp regular
    obtain ⟨-, others⟩ := ih (List.forall_mem_cons.mp below).2
    cases here with
    | leaf dotless =>
      exact ⟨List.cons_ne_nil _ _, List.forall_mem_cons.mpr ⟨⟨free, dotless text rfl⟩, others⟩⟩

theorem unreserved_of_dottedName? {run : List Token} {name : String}
    (regular : ∀ t ∈ run, t.Regular) (spells : dottedName? run = some name) : Unreserved name := by
  obtain ⟨parts, named, rfl⟩ := Grammar.dottedName?_eq_some_iff.mp spells
  obtain ⟨some, free⟩ := named.parts_unreserved regular
  intro part mem
  rw [dotParts_intercalate some fun part mem => (free part mem).2] at mem
  exact (free part mem).1

mutual

def Form.Regular : Form → Prop
  | .invalid _ | .literal _ | .empty _ => True
  | .name text _ => Unreserved text
  | .tuple items _ => items ≠ [] ∧ Part.AllRegular items
  | .group _ _ inner => inner.Regular
  | .call callee _ args _ => Unreserved callee ∧ Part.AllRegular args
  | .operation first rest => first.Regular ∧ Operation.AllRegular rest
termination_by structural form => form

def Part.AllRegular : List Part → Prop
  | [] => True
  | .missing :: rest => Part.AllRegular rest
  | .run _ form :: rest => form.Regular ∧ Part.AllRegular rest
termination_by structural parts => parts

def Operand.Regular : Operand → Prop
  | .mk _ form => form.Regular
termination_by structural operand => operand

def Operation.AllRegular : List Operation → Prop
  | [] => True
  | .mk _ _ operand :: rest => operand.Regular ∧ Operation.AllRegular rest
termination_by structural operations => operations

end

theorem Form.regular_ofLeaf {l : Leaf} {place : Place} (regular : (Token.leaf l place).Regular) :
    (Form.ofLeaf l place).Regular := by
  cases regular with
  | leaf dotless =>
    cases l with
    | name text =>
      unfold Form.ofLeaf
      dsimp only
      split
      · trivial
      · split
        · trivial
        · rename_i free
          have single : dotParts (".".intercalate [text]) = [text] :=
            dotParts_intercalate (List.cons_ne_nil _ _)
              (List.forall_mem_singleton.mpr (dotless text rfl))
          have whole : ".".intercalate [text] = text := by simp
          rw [whole] at single
          intro part mem
          rw [single] at mem
          rw [List.mem_singleton.mp mem]
          simpa using free
    | _ => trivial

theorem Form.Regular.args {form : Form} (h : form.Regular) : Part.AllRegular form.args := by
  unfold Form.args
  split
  · exact h.2
  · exact ⟨h, trivial⟩
  · trivial

namespace Noted

structure Regular (n : Noted) : Prop where
  token : n.token.Regular
  form : n.form.Regular

theorem regular_tokens {run : List Noted} (h : ∀ n ∈ run, n.Regular) :
    ∀ t ∈ tokens run, t.Regular := by
  intro t mem
  obtain ⟨n, among, rfl⟩ := List.mem_map.mp mem
  exact (h n among).token

theorem regular_callForm {run : List Noted} (h : ∀ n ∈ run, n.Regular) :
    (callForm run).Regular := by
  unfold callForm
  split
  · trivial
  · trivial
  · rename_i head paren split
    obtain ⟨rfl, -, -⟩ := of_splitAtFirst_eq_some split
    obtain ⟨before, last⟩ := List.forall_mem_append.mp h
    split
    · rename_i name spells
      have named := unreserved_of_dottedName? (regular_tokens before) spells
      exact ⟨named, (last paren List.mem_cons_self).form.args⟩
    · trivial

theorem regular_atomForm? {run : List Noted} {form : Form} (h : ∀ n ∈ run, n.Regular)
    (found : atomForm? run = some form) : form.Regular := by
  unfold atomForm? at found
  split at found
  · cases found
    exact (h _ List.mem_cons_self).form
  · split at found
    · rename_i name spells
      cases found
      exact unreserved_of_dottedName? (regular_tokens h) spells
    · split at found
      · cases found
        exact regular_callForm h
      · cases found

theorem regular_operand {piece : Piece Noted} (h : ∀ n ∈ piece.elements, n.Regular) :
    (operand piece).Regular := by
  have inRun : ∀ n ∈ piece.run, n.Regular := fun n mem => h n (List.mem_append_right _ mem)
  unfold operand Operand.Regular
  cases found : atomForm? piece.run with
  | none => trivial
  | some form => exact regular_atomForm? inRun found

theorem regular_operations {rest : List ((BinaryOp × Noted) × Piece Noted)}
    (h : ∀ n ∈ Chain.tailElements rest, n.Regular) :
    Operation.AllRegular
      (rest.map fun ((op, n), piece) => .mk op n.token.place (operand piece)) := by
  induction rest with
  | nil => trivial
  | cons x rest ih =>
    rw [Chain.tailElements_cons] at h
    obtain ⟨here, below⟩ := List.forall_mem_append.mp (List.forall_mem_cons.mp h).2
    exact ⟨regular_operand here, ih below⟩

theorem regular_runForm {run : List Noted} (h : ∀ n ∈ run, n.Regular) : (runForm run).Regular := by
  unfold runForm
  cases found : atomForm? run with
  | some form => exact regular_atomForm? h found
  | none =>
    unfold Option.getD operationForm
    simp only
    split
    · trivial
    · rename_i c read
      obtain ⟨-, rfl⟩ := Chain.split_eq_ok_iff.mp read
      obtain ⟨first, rest⟩ := List.forall_mem_append.mp h
      exact ⟨regular_operand first, regular_operations rest⟩

end Noted

theorem itemParts_ne_nil {items : List (List Token)} (several : 2 ≤ items.length) :
    itemParts items ≠ [] := by
  match items with
  | [] | [_] => simp at several
  | [] :: next :: rest | (t :: run) :: next :: rest => simp [itemParts]

mutual

theorem Token.Regular.form {t : Token} (h : t.Regular) : t.form.Regular := by
  cases t with
  | leaf l place => exact Form.regular_ofLeaf h
  | tuple items place =>
    cases h with
    | tuple several parts => exact ⟨itemParts_ne_nil several, regular_itemParts parts⟩
  | group bracket inner place =>
    cases h with
    | group parts =>
      have noted := regular_noteTokens parts
      cases inner with
      | nil => trivial
      | cons t rest => exact Noted.regular_runForm noted
termination_by structural t

theorem regular_noteTokens {run : List Token} (h : ∀ t ∈ run, t.Regular) :
    ∀ n ∈ noteTokens run, n.Regular := by
  cases run with
  | nil => exact nofun
  | cons t rest =>
    obtain ⟨here, below⟩ := List.forall_mem_cons.mp h
    exact List.forall_mem_cons.mpr ⟨⟨here, here.form⟩, regular_noteTokens below⟩
termination_by structural run

theorem regular_itemParts {items : List (List Token)} (h : ∀ item ∈ items, ∀ t ∈ item, t.Regular) :
    Part.AllRegular (itemParts items) := by
  cases items with
  | nil => trivial
  | cons item rest =>
    obtain ⟨here, below⟩ := List.forall_mem_cons.mp h
    have others := regular_itemParts below
    cases item with
    | nil =>
      cases rest with
      | nil => trivial
      | cons next rest => exact others
    | cons t run => exact ⟨Noted.regular_runForm (regular_noteTokens here), others⟩
termination_by structural items

end

/-- The form of a run of regular tokens is regular. -/
theorem Form.regular_ofTokens {run : List Token} (h : ∀ t ∈ run, t.Regular) :
    (Form.ofTokens run).Regular :=
  Noted.regular_runForm (regular_noteTokens h)

end ExprCheck
