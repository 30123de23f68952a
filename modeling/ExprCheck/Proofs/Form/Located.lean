import ExprCheck.Proofs.Chain
import ExprCheck.Proofs.Token.Regular
/-! Where the forms of tokens point. A form points at tokens that it was read from. Some of its
places are optional, but there are tokens wherever one is asked for. Main statement: if all tokens
that stand in a run lie at places of a class, its form points at such places only, and no place is
missing. -/
namespace ExprCheck

/-- There is a place, and it is one of the class. -/
def Marked (P : Place → Prop) (place? : Option Place) : Prop :=
  ∃ p ∈ place?, P p

theorem Marked.of_place {P : Place → Prop} {place : Place} (h : P place) :
    Marked P (some place) :=
  ⟨place, rfl, h⟩

/-! ## Splitting -/

namespace Chain

variable {τ : Type} {token : τ → Token}

/-- The fault of a run that is not empty is at one of its elements. -/
theorem error_of_reading (run : List τ) :
    (∀ last? signs at?, beforeOperand token last? signs run = .error at? →
      (∃ t ∈ run, at? = some t) ∨ run = [] ∧ at? = last?) ∧
    (∀ piece at?, inOperand token piece run = .error at? → ∃ t ∈ run, at? = some t) := by
  -- Both states of the reader at once, since each goes on in the other.
  induction run with
  | nil =>
    constructor
    · intro last? signs at? fails
      cases fails
      exact .inr ⟨rfl, rfl⟩
    · intro piece at? fails
      cases fails
  | cons t rest ih =>
    have later {at? : Option τ} (below : ∃ u ∈ rest, at? = some u) :
        ∃ u ∈ t :: rest, at? = some u := by
      obtain ⟨u, mem, same⟩ := below
      exact ⟨u, List.mem_cons_of_mem t mem, same⟩
    have behind {signs : List (UnaryOp × τ)} {at? : Option τ}
        (fails : beforeOperand token (some t) signs rest = .error at?) :
        ∃ u ∈ t :: rest, at? = some u := by
      rcases ih.1 _ _ _ fails with below | ⟨-, here⟩
      · exact later below
      · exact ⟨t, List.mem_cons_self, here⟩
    constructor
    · intro last? signs at? fails
      left
      unfold beforeOperand at fails
      split at fails
      · exact behind fails
      split at fails
      · cases fails
        exact ⟨t, List.mem_cons_self, rfl⟩
      · exact later (ih.2 _ _ fails)
    · intro piece at? fails
      unfold inOperand at fails
      split at fails
      · cases below : beforeOperand token (some t) [] rest with
        | ok chain => simp [below, Except.map] at fails
        | error at' =>
          rw [below] at fails
          cases fails
          exact behind below
      · exact later (ih.2 _ _ fails)

theorem mem_of_split_error {run : List τ} {at? : Option τ} (some : run ≠ [])
    (fails : split token run = .error at?) : ∃ t ∈ run, at? = .some t :=
  ((error_of_reading run).1 none [] at? fails).resolve_right fun empty => some empty.1

end Chain

/-! ## Forms -/

mutual

/-- All places of a form are there and belong to the class. -/
def Form.Located (P : Place → Prop) : Form → Prop
  | .literal _ | .empty _ => True
  | .invalid place? | .name _ place? => Marked P place?
  | .tuple items place => Part.AllLocated P items ∧ P place
  | .group _ first inner => P first ∧ inner.Located P
  | .call _ last? args paren => Marked P last? ∧ Part.AllLocated P args ∧ P paren
  | .operation first rest => first.Located P ∧ Operation.AllLocated P rest
termination_by structural form => form

def Part.AllLocated (P : Place → Prop) : List Part → Prop
  | [] => True
  | .missing :: rest => Part.AllLocated P rest
  | .run first form :: rest => P first ∧ form.Located P ∧ Part.AllLocated P rest
termination_by structural parts => parts

def Operand.Located (P : Place → Prop) : Operand → Prop
  | .mk signs form => (∀ s ∈ signs, P s.2) ∧ form.Located P
termination_by structural operand => operand

def Operation.AllLocated (P : Place → Prop) : List Operation → Prop
  | [] => True
  | .mk _ place operand :: rest => P place ∧ operand.Located P ∧ Operation.AllLocated P rest
termination_by structural operations => operations

end

variable {P : Place → Prop}

theorem Form.located_ofLeaf (l : Leaf) {place : Place} (here : P place) :
    (Form.ofLeaf l place).Located P := by
  have marked : Marked P (some place) := .of_place here
  unfold Form.ofLeaf
  split
  · trivial
  · trivial
  · split
    · trivial
    · split
      · exact marked
      · exact marked
  all_goals exact marked

theorem Form.Located.args {form : Form} (h : form.Located P) : Part.AllLocated P form.args := by
  unfold Form.args
  split
  · exact h.2.1
  · exact ⟨h.1, h.2, trivial⟩
  · trivial

namespace Noted

structure Located (P : Place → Prop) (n : Noted) : Prop where
  token : P n.token.place
  form : n.form.Located P

variable {run : List Noted}

theorem marked_first (some : run ≠ []) (h : ∀ n ∈ run, n.Located P) :
    Marked P (firstPlace? (tokens run)) := by
  cases run with
  | nil => exact absurd rfl some
  | cons n rest => exact .of_place (h n List.mem_cons_self).token

theorem marked_last (some : run ≠ []) (h : ∀ n ∈ run, n.Located P) :
    Marked P (lastPlace? (tokens run)) := by
  have last : lastPlace? (tokens run) = .some (run.getLast some).token.place := by
    simp [lastPlace?, tokens, List.getLast?_eq_some_getLast some]
  rw [last]
  exact .of_place (h _ (List.getLast_mem some)).token

theorem ne_nil_of_dottedName? {name : String} (spells : dottedName? (tokens run) = some name) :
    run ≠ [] := by
  rintro rfl
  cases spells

theorem located_callForm (some : run ≠ []) (h : ∀ n ∈ run, n.Located P) :
    (callForm run).Located P := by
  unfold callForm
  split
  · exact marked_last some h
  · rename_i head paren next rest split
    obtain ⟨rfl, -, -⟩ := of_splitAtFirst_eq_some split
    exact .of_place (h next (by simp)).token
  · rename_i head paren split
    obtain ⟨rfl, -, -⟩ := of_splitAtFirst_eq_some split
    obtain ⟨before, last⟩ := List.forall_mem_append.mp h
    have closes := last paren List.mem_cons_self
    split
    · rename_i name spells
      exact ⟨marked_last (ne_nil_of_dottedName? spells) before, closes.form.args, closes.token⟩
    · cases head with
      | nil => exact .of_place closes.token
      | cons n rest => exact .of_place (before n List.mem_cons_self).token

theorem located_atomForm? {form : Form} (h : ∀ n ∈ run, n.Located P) (some : run ≠ [])
    (found : atomForm? run = .some form) : form.Located P := by
  unfold atomForm? at found
  split at found
  · cases found
    exact (h _ List.mem_cons_self).form
  · split at found
    · cases found
      exact marked_last some h
    · split at found
      · cases found
        exact located_callForm some h
      · cases found

theorem located_operand {piece : Piece Noted} (some : piece.run ≠ [])
    (h : ∀ n ∈ piece.elements, n.Located P) : (operand piece).Located P := by
  obtain ⟨signs, inRun⟩ := List.forall_mem_append.mp h
  constructor
  · intro s mem
    obtain ⟨sign, among, rfl⟩ := List.mem_map.mp mem
    exact (signs sign.2 (List.mem_map_of_mem among)).token
  · cases found : atomForm? piece.run with
    | none => exact marked_first some inRun
    | some form => exact located_atomForm? inRun some found

theorem located_operations {rest : List ((BinaryOp × Noted) × Piece Noted)}
    (some : ∀ x ∈ rest, x.2.run ≠ []) (h : ∀ n ∈ Chain.tailElements rest, n.Located P) :
    Operation.AllLocated P
      (rest.map fun ((op, n), piece) => .mk op n.token.place (operand piece)) := by
  induction rest with
  | nil => trivial
  | cons x rest ih =>
    rw [Chain.tailElements_cons] at h
    obtain ⟨op, behind⟩ := List.forall_mem_cons.mp h
    obtain ⟨here, below⟩ := List.forall_mem_append.mp behind
    obtain ⟨some, others⟩ := List.forall_mem_cons.mp some
    exact ⟨op.token, located_operand some here, ih others below⟩

theorem located_runForm (some : run ≠ []) (h : ∀ n ∈ run, n.Located P) :
    (runForm run).Located P := by
  unfold runForm
  cases found : atomForm? run with
  | some form => exact located_atomForm? h some found
  | none =>
    change (operationForm run).Located P
    unfold operationForm
    split
    · rename_i at? fails
      obtain ⟨n, mem, rfl⟩ := Chain.mem_of_split_error some fails
      exact .of_place (h n mem).token
    · rename_i chain read
      obtain ⟨proper, rfl⟩ := Chain.split_eq_ok_iff.mp read
      obtain ⟨first, rest⟩ := List.forall_mem_append.mp h
      have filled {piece : Piece Noted} (proper : piece.Proper Noted.token) : piece.run ≠ [] := by
        obtain ⟨n, rest, starts, -⟩ := proper.start
        exact starts ▸ List.cons_ne_nil n rest
      exact ⟨located_operand (filled proper.first) first,
        located_operations (fun x mem => filled (proper.pieces x mem)) rest⟩

end Noted

/-! ## Tokens -/

/-- All tokens that stand in the token lie at places of the class. -/
def Token.Located (P : Place → Prop) (t : Token) : Prop :=
  ∀ u : Token, u.Within t → P u.place

mutual

theorem Token.Located.form {t : Token} (h : t.Located P) : t.form.Located P := by
  cases t with
  | leaf l place => exact Form.located_ofLeaf l (h _ .self)
  | tuple items place =>
    have inside : ∀ item ∈ items, ∀ t ∈ item, t.Located P :=
      fun item among t part u within => h u (.item among part within)
    exact ⟨located_itemParts inside, h _ .self⟩
  | group bracket inner place =>
    cases inner with
    | nil => trivial
    | cons t rest =>
      have inside : ∀ u ∈ t :: rest, u.Located P := fun u part v within => h v (.inner part within)
      have noted := located_noteTokens inside
      exact ⟨inside t List.mem_cons_self t .self,
        Noted.located_runForm (List.cons_ne_nil _ _) noted⟩
termination_by structural t

theorem located_noteTokens {run : List Token} (h : ∀ t ∈ run, t.Located P) :
    ∀ n ∈ noteTokens run, n.Located P := by
  cases run with
  | nil => exact nofun
  | cons t rest =>
    obtain ⟨here, below⟩ := List.forall_mem_cons.mp h
    exact List.forall_mem_cons.mpr ⟨⟨here t .self, here.form⟩, located_noteTokens below⟩
termination_by structural run

theorem located_itemParts {items : List (List Token)}
    (h : ∀ item ∈ items, ∀ t ∈ item, t.Located P) : Part.AllLocated P (itemParts items) := by
  cases items with
  | nil => trivial
  | cons item rest =>
    obtain ⟨here, below⟩ := List.forall_mem_cons.mp h
    have others := located_itemParts below
    cases item with
    | nil =>
      cases rest with
      | nil => trivial
      | cons next rest => exact others
    | cons t run =>
      have noted := located_noteTokens here
      exact ⟨here t List.mem_cons_self t .self,
        Noted.located_runForm (List.cons_ne_nil _ _) noted, others⟩
termination_by structural items

end

/-- The form of a run points at tokens that stand in it. -/
theorem Form.located_ofTokens {run : List Token} (some : run ≠ [])
    (h : ∀ t ∈ run, t.Located P) : (Form.ofTokens run).Located P := by
  refine Noted.located_runForm ?_ (located_noteTokens h)
  cases run with
  | nil => exact absurd rfl some
  | cons t rest => exact List.cons_ne_nil _ _

end ExprCheck
