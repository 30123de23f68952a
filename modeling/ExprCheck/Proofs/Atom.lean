import ExprCheck.Proofs.Form
/-! Runs that need no operator. An atom is a single token, a dotted name, or a name with
parentheses. None of its tokens is an operator if its form is that of a value, so an atom is an
operand of its own. -/
namespace ExprCheck

theorem splitAtFirst_eq_none_iff {α : Type} {p : α → Bool} {xs : List α} :
    splitAtFirst p xs = none ↔ ∀ x ∈ xs, p x = false := by
  induction xs with
  | nil => simp [splitAtFirst]
  | cons x rest ih =>
    unfold splitAtFirst
    cases here : p x with
    | true => simp [here]
    | false =>
      cases below : splitAtFirst p rest with
      | none => simpa [below, here] using ih.mp below
      | some parts => simpa [below, here] using ih

theorem splitAtFirst_append_cons {α : Type} {p : α → Bool} {before : List α} {x : α}
    (after : List α) (outside : ∀ y ∈ before, p y = false) (here : p x = true) :
    splitAtFirst p (before ++ x :: after) = some (before, x, after) := by
  induction before with
  | nil => simp [splitAtFirst, here]
  | cons y rest ih =>
    obtain ⟨first, below⟩ := List.forall_mem_cons.mp outside
    simp [splitAtFirst, first, ih below]

theorem splitAtFirst_map {α β : Type} (f : α → β) (p : β → Bool) (xs : List α) :
    splitAtFirst p (xs.map f) =
      (splitAtFirst (fun x => p (f x)) xs).map fun parts =>
        (parts.1.map f, f parts.2.1, parts.2.2.map f) := by
  induction xs with
  | nil => rfl
  | cons x rest ih =>
    simp only [List.map_cons, splitAtFirst, ih]
    split
    · rfl
    · cases splitAtFirst (fun x => p (f x)) rest <;> rfl

def Token.IsPlain (t : Token) : Prop :=
  t.unaryOp? = none ∧ t.binaryOp? = none

theorem Leaf.unaryOp_name {text : String} (free : isReserved text = false) :
    UnaryOp.ofLeaf? (.name text) = none := by
  unfold UnaryOp.ofLeaf?
  split <;> simp_all [isReserved, reservedWords]

theorem Leaf.binaryOp_name {text : String} (free : isReserved text = false) :
    BinaryOp.ofLeaf? (.name text) = none := by
  unfold BinaryOp.ofLeaf?
  split <;> simp_all [isReserved, reservedWords]

theorem Literal.ofName?_eq_none {text : String} (free : isReserved text = false) :
    Literal.ofName? text = none := by
  unfold Literal.ofName?
  split <;> simp_all [isReserved, reservedWords]

theorem Form.ofLeaf_unary {l : Leaf} {op : UnaryOp} (place : Place)
    (spells : UnaryOp.ofLeaf? l = some op) : Form.ofLeaf l place = .invalid place := by
  unfold UnaryOp.ofLeaf? at spells
  split at spells <;> first | rfl | cases spells

theorem Form.ofLeaf_binary {l : Leaf} {op : BinaryOp} (place : Place)
    (spells : BinaryOp.ofLeaf? l = some op) : Form.ofLeaf l place = .invalid place := by
  unfold BinaryOp.ofLeaf? at spells
  split at spells <;> first | rfl | cases spells

theorem Token.isPlain_of_isValue {lookup : Lookup} {t : Token} (value : t.form.IsValue lookup) :
    t.IsPlain := by
  cases t with
  | leaf l place =>
    constructor
    · cases spells : UnaryOp.ofLeaf? l with
      | none => exact spells
      | some op =>
        rw [Token.form, Form.ofLeaf_unary place spells] at value
        exact value.elim
    · cases spells : BinaryOp.ofLeaf? l with
      | none => exact spells
      | some op =>
        rw [Token.form, Form.ofLeaf_binary place spells] at value
        exact value.elim
  | tuple items place => exact ⟨rfl, rfl⟩
  | group bracket inner place => exact ⟨rfl, rfl⟩

theorem of_dottedName?_eq_some {run : List Token} {name : String}
    (spells : dottedName? run = some name) :
    run ≠ [] ∧ ∀ t ∈ run, t.IsPlain ∧ t.isParenGroup = false := by
  unfold dottedName? at spells
  obtain ⟨parts, found, -⟩ := Option.map_eq_some_iff.mp spells
  clear spells
  fun_induction nameParts? run generalizing parts with
  | case1 text place reserved => cases found
  | case2 text place free =>
    have free : isReserved text = false := by simpa using free
    refine ⟨by simp, List.forall_mem_singleton.mpr ⟨?_, rfl⟩⟩
    exact ⟨Leaf.unaryOp_name free, Leaf.binaryOp_name free⟩
  | case3 text place dotPlace rest reserved => cases found
  | case4 text place dotPlace rest free ih =>
    have free : isReserved text = false := by simpa using free
    obtain ⟨below, foundBelow, -⟩ := Option.map_eq_some_iff.mp found
    refine ⟨by simp, List.forall_mem_cons.mpr ⟨⟨?_, rfl⟩, ?_⟩⟩
    · exact ⟨Leaf.unaryOp_name free, Leaf.binaryOp_name free⟩
    · exact List.forall_mem_cons.mpr ⟨⟨⟨rfl, rfl⟩, rfl⟩, (ih below foundBelow).2⟩
  | case5 run _ _ => cases found

namespace Noted

theorem isCall_iff (run : List Noted) :
    isCall true (tokens run) = true ↔
      ∃ head paren name, run = head ++ [paren] ∧ paren.token.isParenGroup = true ∧
        dottedName? (tokens head) = some name ∧
        splitAtFirst (fun n => n.token.isParenGroup) run = some (head, paren, []) := by
  have split : splitAtFirst Token.isParenGroup (tokens run) = _ := splitAtFirst_map ..
  unfold isCall
  rw [split]
  cases found : splitAtFirst (fun n : Noted => n.token.isParenGroup) run with
  | none => simp
  | some parts =>
    obtain ⟨head, paren, tail⟩ := parts
    obtain ⟨whole, isParen, -⟩ := of_splitAtFirst_eq_some found
    simp only [Option.map_some, Bool.not_true, Bool.false_or, Bool.and_eq_true]
    constructor
    · rintro ⟨named, ends⟩
      obtain ⟨name, spells⟩ := Option.isSome_iff_exists.mp named
      have ends : tail = [] := by simpa using ends
      subst ends
      exact ⟨head, paren, name, whole, isParen, spells, rfl⟩
    · rintro ⟨head', paren', name, -, -, spells, same⟩
      cases same
      exact ⟨Option.isSome_iff_exists.mpr ⟨name, spells⟩, rfl⟩

theorem dottedName?_of_isCall {run : List Noted} (call : isCall true (tokens run) = true) :
    dottedName? (tokens run) = none ∧ ∀ n, run ≠ [n] := by
  obtain ⟨head, paren, name, rfl, isParen, spells, -⟩ := (isCall_iff run).mp call
  constructor
  · cases whole : dottedName? (tokens (head ++ [paren])) with
    | none => rfl
    | some text =>
      have free := (of_dottedName?_eq_some whole).2 paren.token (by simp [tokens])
      rw [isParen] at free
      cases free.2
  · rintro n single
    have headNil : head = [] := by
      cases head with
      | nil => rfl
      | cons x rest => simp at single
    subst headNil
    exact (of_dottedName?_eq_some spells).1 rfl

theorem atomForm?_of_dottedName? {run : List Noted} {name : String} (several : ∀ n, run ≠ [n])
    (spells : dottedName? (tokens run) = some name) :
    atomForm? run = some (.name name (lastPlace? (tokens run))) := by
  unfold atomForm?
  split
  · exact absurd rfl (several _)
  · simp [spells]

theorem atomForm?_of_isCall {run : List Noted} (call : isCall true (tokens run) = true) :
    ∃ head paren name, run = head ++ [paren] ∧ paren.token.isParenGroup = true ∧
      dottedName? (tokens head) = some name ∧
      atomForm? run =
        some (.call name (lastPlace? (tokens head)) paren.form.args paren.token.place) := by
  obtain ⟨unnamed, several⟩ := dottedName?_of_isCall call
  obtain ⟨head, paren, name, whole, isParen, spells, split⟩ := (isCall_iff run).mp call
  refine ⟨head, paren, name, whole, isParen, spells, ?_⟩
  unfold atomForm?
  split
  · exact absurd rfl (several _)
  · simp only [unnamed, call, if_true, callForm, split, spells]

theorem atomForm?_eq_none {run : List Noted} (several : ∀ n, run ≠ [n])
    (unnamed : dottedName? (tokens run) = none) (noCall : isCall true (tokens run) = false) :
    atomForm? run = none := by
  unfold atomForm?
  split
  · exact absurd rfl (several _)
  · simp [unnamed, noCall]

end Noted

end ExprCheck
