import ExprCheck.Proofs.Verdict
/-! The grammar of values. A value is a sequence of operands with binary operators between them and
unary operators in front of them. Main statement: the verdict on a run holds exactly if the run is a
value of the grammar. -/
namespace ExprCheck

namespace Grammar

/-- Names that are not reserved, with dots between them. -/
inductive Name : List Token → List String → Prop
  | single {text : String} {place : Place} (free : isReserved text = false) :
      Name [.leaf (.name text) place] [text]
  | dotted {text : String} {place dot : Place} {run : List Token} {parts : List String}
      (free : isReserved text = false) (rest : Name run parts) :
      Name (.leaf (.name text) place :: .leaf .dot dot :: run) (text :: parts)

/-- The items of a tuple, but for one empty item at the end. -/
def trimmed (items : List (List Token)) : List (List Token) :=
  match items.getLast? with
  | some [] => items.dropLast
  | _ => items

mutual

inductive Value (lookup : Lookup) : List Token → Prop
  | signed {run : List Token} (first : Signed lookup run) : Value lookup run
  | operation {left right : List Token} {t : Token} {op : BinaryOp} (first : Signed lookup left)
      (binary : t.binaryOp? = some op) (rest : Value lookup right) :
      Value lookup (left ++ t :: right)

inductive Signed (lookup : Lookup) : List Token → Prop
  | operand {run : List Token} (part : Operand lookup run) : Signed lookup run
  | sign {t : Token} {rest : List Token} {op : UnaryOp} (unary : t.unaryOp? = some op)
      (inner : Signed lookup rest) : Signed lookup (t :: rest)

inductive Operand (lookup : Lookup) : List Token → Prop
  | text {raw : String} {place : Place} : Operand lookup [.leaf (.str raw) place]
  | number {raw : String} {place : Place} : Operand lookup [.leaf (.number raw) place]
  | bool {text : String} {place : Place} (literal : text = "True" ∨ text = "False") :
      Operand lookup [.leaf (.name text) place]
  | name {run : List Token} {parts : List String} (spells : Name run parts)
      (known : (lookup (".".intercalate parts)).isSome) : Operand lookup run
  | tuple {items : List (List Token)} {place : Place}
      (values : ∀ item ∈ trimmed items, Value lookup item) : Operand lookup [.tuple items place]
  | empty {bracket : Bracket} {place : Place} : Operand lookup [.group bracket [] place]
  | group {bracket : Bracket} {inner : List Token} {place : Place} (content : Value lookup inner) :
      Operand lookup [.group bracket inner place]
  | call {head inner : List Token} {parts : List String} {place : Place} (spells : Name head parts)
      (args : Arguments lookup inner) : Operand lookup (head ++ [.group .paren inner place])

inductive Arguments (lookup : Lookup) : List Token → Prop
  | none : Arguments lookup []
  | items {items : List (List Token)} {place : Place}
      (values : ∀ item ∈ trimmed items, Value lookup item) : Arguments lookup [.tuple items place]
  | single {run : List Token} (value : Value lookup run) : Arguments lookup run

end

variable {lookup : Lookup}

/-! ## Names and items -/

theorem nameParts?_eq_some_iff {run : List Token} {parts : List String} :
    nameParts? run = some parts ↔ Name run parts := by
  constructor
  · intro spells
    fun_induction nameParts? run generalizing parts with
    | case1 text place reserved => cases spells
    | case2 text place free =>
      cases spells
      exact .single (by simpa using free)
    | case3 text place dot rest reserved => cases spells
    | case4 text place dot rest free ih =>
      obtain ⟨below, found, rfl⟩ := Option.map_eq_some_iff.mp spells
      exact .dotted (by simpa using free) (ih found)
    | case5 run _ _ => cases spells
  · intro name
    induction name with
    | single free => simp [nameParts?, free]
    | dotted free rest ih => simp [nameParts?, free, ih]

theorem dottedName?_eq_some_iff {run : List Token} {name : String} :
    dottedName? run = some name ↔ ∃ parts, Name run parts ∧ ".".intercalate parts = name := by
  simp only [dottedName?, Option.map_eq_some_iff, nameParts?_eq_some_iff]

theorem trimmed_cons (item next : List Token) (rest : List (List Token)) :
    trimmed (item :: next :: rest) = item :: trimmed (next :: rest) := by
  unfold trimmed
  rw [List.getLast?_cons_cons]
  split
  · rfl
  · rfl

open Noted

theorem noteTokens_append (first second : List Token) :
    noteTokens (first ++ second) = noteTokens first ++ noteTokens second := by
  induction first with
  | nil => rfl
  | cons t rest ih => exact congrArg (List.cons _) ih

theorem tokens_noteTokens (run : List Token) : tokens (noteTokens run) = run := by
  induction run with
  | nil => rfl
  | cons t rest ih => exact congrArg (List.cons t) ih

theorem faithful_noteTokens (run : List Token) : Faithful (noteTokens run) := by
  induction run with
  | nil => exact fun n hn => nomatch hn
  | cons t rest ih => exact List.forall_mem_cons.mpr ⟨rfl, ih⟩

theorem allValues_itemParts_iff (items : List (List Token)) :
    Part.AllValues lookup (itemParts items) ↔
      ∀ item ∈ trimmed items, ChainValue lookup (noteTokens item) := by
  induction items with
  | nil => simp [itemParts, trimmed, Part.AllValues]
  | cons item rest ih =>
    have here : ∀ t run, item = t :: run → (itemParts (item :: rest) =
        .run t.place (runForm (noteTokens item)) :: itemParts rest) := by
      rintro t run rfl
      rfl
    cases rest with
    | nil =>
      cases item with
      | nil => simp [itemParts, trimmed, Part.AllValues]
      | cons t run =>
        rw [here t run rfl, Part.AllValues, runForm_isValue_iff (faithful_noteTokens _)]
        simp [trimmed, itemParts, Part.AllValues]
    | cons next rest =>
      rw [trimmed_cons, List.forall_mem_cons, ← ih]
      cases item with
      | nil =>
        have missing : ¬ ChainValue lookup (noteTokens []) := fun chain => chain.ne_nil rfl
        simp [itemParts, Part.AllValues, missing]
      | cons t run =>
        rw [here t run rfl, Part.AllValues, runForm_isValue_iff (faithful_noteTokens _)]

theorem group_isValue_iff (bracket : Bracket) (inner : List Token) (place : Place) :
    (Token.group bracket inner place).form.IsValue lookup ↔
      inner = [] ∨ ChainValue lookup (noteTokens inner) := by
  cases inner with
  | nil => simp [Token.form, Form.IsValue]
  | cons t rest =>
    rw [← runForm_isValue_iff (faithful_noteTokens _)]
    simp only [reduceCtorEq, false_or]
    exact Iff.rfl

/-! ## From the grammar to chains -/

theorem Name.atom {run : List Token} {parts : List String} (spells : Name run parts)
    (known : (lookup (".".intercalate parts)).isSome) : AtomValue lookup (noteTokens run) := by
  have named := dottedName?_eq_some_iff.mpr ⟨parts, spells, rfl⟩
  cases spells with
  | single free =>
    rename_i text place
    have form : Form.ofLeaf (.name text) place = .name text place := by
      simp [Form.ofLeaf, Literal.ofName?_eq_none free, free]
    refine ⟨_, rfl, ?_⟩
    change (Form.ofLeaf (.name text) place).IsValue lookup
    rw [form]
    exact known
  | dotted free rest =>
    rw [← tokens_noteTokens (_ :: _)] at named
    exact ⟨_, atomForm?_of_dottedName? (by simp [noteTokens]) named, known⟩

theorem atom_of_call {head inner : List Token} {parts : List String} {place : Place}
    (spells : Name head parts)
    (args : (Token.group .paren inner place).form.IsValue lookup) :
    AtomValue lookup (noteTokens (head ++ [.group .paren inner place])) := by
  have named := dottedName?_eq_some_iff.mpr ⟨parts, spells, rfl⟩
  have outside : ∀ t ∈ head, t.isParenGroup = false := fun t ht =>
    ((of_dottedName?_eq_some named).2 t ht).2
  have call : isCall true (tokens (noteTokens (head ++ [.group .paren inner place]))) = true := by
    rw [tokens_noteTokens, isCall, splitAtFirst_append_cons [] outside rfl]
    simp [named]
  obtain ⟨head', paren, name, whole, isParen, -, found⟩ := atomForm?_of_isCall call
  rw [noteTokens_append] at whole
  obtain ⟨-, same⟩ := List.append_inj' whole rfl
  cases same
  exact ⟨_, found, (Token.args_allValues_iff rfl).mpr args⟩

mutual

theorem Value.chain {run : List Token} (h : Value lookup run) :
    ChainValue lookup (noteTokens run) :=
  match h with
  | .signed first => Signed.chain first
  | .operation first binary rest => by
    rw [noteTokens_append]
    exact (Signed.chain first).join (n := ⟨_, _⟩) binary (Value.chain rest)

theorem Signed.chain {run : List Token} (h : Signed lookup run) :
    ChainValue lookup (noteTokens run) :=
  match h with
  | .operand part => (Operand.atom part).chainValue (faithful_noteTokens run)
  | .sign unary inner => (chainValue_sign_iff (n := ⟨_, _⟩) unary).mpr (Signed.chain inner)

theorem Operand.atom {run : List Token} (h : Operand lookup run) :
    AtomValue lookup (noteTokens run) :=
  match h with
  | .text | .number => ⟨_, rfl, trivial⟩
  | .bool literal => by
    rcases literal with rfl | rfl
    · exact ⟨_, rfl, trivial⟩
    · exact ⟨_, rfl, trivial⟩
  | .name spells known => spells.atom known
  | .tuple values => ⟨_, rfl, (allValues_itemParts_iff _).mpr fun item hi => Value.chain (values item hi)⟩
  | .empty => ⟨_, rfl, trivial⟩
  | .group content => ⟨_, rfl, (group_isValue_iff ..).mpr (.inr (Value.chain content))⟩
  | .call spells args => atom_of_call spells (Arguments.isValue args _)

theorem Arguments.isValue {inner : List Token} (h : Arguments lookup inner) (place : Place) :
    (Token.group .paren inner place).form.IsValue lookup :=
  match h with
  | .none => trivial
  | .items values =>
    (allValues_itemParts_iff _).mpr fun item hi => Value.chain (values item hi)
  | .single value => (group_isValue_iff ..).mpr (.inr (Value.chain value))

end

/-! ## From chains to the grammar -/

/-- The tokens of the run are operands on their own where their forms allow it. -/
def Settled (lookup : Lookup) (run : List Token) : Prop :=
  ∀ t ∈ run, t.form.IsValue lookup → Operand lookup [t]

theorem arguments_of_operand {inner : List Token} {place : Place}
    (part : Operand lookup [.group .paren inner place]) : Arguments lookup inner := by
  generalize whole : [Token.group .paren inner place] = run at part
  cases part with
  | text | number | bool | tuple => cases whole
  | empty =>
    cases whole
    exact .none
  | group content =>
    cases whole
    exact .single content
  | name spells known => cases spells <;> cases whole
  | call spells args => cases spells <;> simp at whole

theorem of_isParenGroup {t : Token} (isParen : t.isParenGroup = true) :
    ∃ inner place, t = .group .paren inner place := by
  unfold Token.isParenGroup at isParen
  split at isParen
  · exact ⟨_, _, rfl⟩
  · cases isParen

theorem operand_of_atom {run : List Noted} (faithful : Faithful run)
    (settled : Settled lookup (tokens run)) (atom : AtomValue lookup run) :
    Operand lookup (tokens run) := by
  obtain ⟨form, found, value⟩ := atom
  have atomFound := found
  unfold atomForm? at found
  split at found
  · rename_i n
    cases found
    exact settled n.token (by simp [tokens]) (faithful n (by simp) ▸ value)
  · split at found
    · rename_i name named
      cases found
      obtain ⟨parts, spells, rfl⟩ := dottedName?_eq_some_iff.mp named
      exact .name spells value
    · split at found
      · rename_i call
        obtain ⟨head, paren, name, rfl, isParen, named, found'⟩ := atomForm?_of_isCall call
        cases atomFound.symm.trans found'
        obtain ⟨parts, spells, -⟩ := dottedName?_eq_some_iff.mp named
        have argsValue : Part.AllValues lookup paren.form.args := value
        rw [faithful paren (by simp), Token.args_allValues_iff isParen] at argsValue
        have part := settled paren.token (by simp [tokens]) argsValue
        obtain ⟨inner, place, group⟩ := of_isParenGroup isParen
        rw [group] at part
        have whole : tokens (head ++ [paren]) = tokens head ++ [.group .paren inner place] := by
          simp [tokens, group]
        exact whole ▸ .call spells (arguments_of_operand part)
      · cases found

theorem signed_of_signs {signs : List (UnaryOp × Noted)} {run : List Noted}
    (unary : ∀ s ∈ signs, s.2.token.unaryOp? = some s.1) (part : Operand lookup (tokens run)) :
    Signed lookup (tokens (signs.map Prod.snd ++ run)) := by
  induction signs with
  | nil => exact .operand part
  | cons s signs ih =>
    obtain ⟨here, below⟩ := List.forall_mem_cons.mp unary
    exact .sign here (ih below)

theorem signed_of_piece {piece : Piece Noted} (proper : piece.Proper Noted.token)
    (faithful : Faithful piece.elements) (settled : Settled lookup (tokens piece.elements))
    (atom : AtomValue lookup piece.run) : Signed lookup (tokens piece.elements) := by
  have inPiece : ∀ n ∈ piece.run, n ∈ piece.elements := fun n hn => List.mem_append_right _ hn
  refine signed_of_signs proper.signs (operand_of_atom ?_ ?_ atom)
  · exact fun n hn => faithful n (inPiece n hn)
  · intro t ht
    obtain ⟨n, hn, rfl⟩ := List.mem_map.mp ht
    exact settled n.token (List.mem_map_of_mem (inPiece n hn))

theorem value_of_elements (first : Piece Noted) (rest : List ((BinaryOp × Noted) × Piece Noted))
    (proper : Chain.Proper Noted.token ⟨first, rest⟩) (operands : Operands lookup ⟨first, rest⟩)
    (faithful : Faithful (Chain.elements ⟨first, rest⟩))
    (settled : Settled lookup (tokens (Chain.elements ⟨first, rest⟩))) :
    Value lookup (tokens (Chain.elements ⟨first, rest⟩)) := by
  induction rest generalizing first with
  | nil =>
    simp only [Chain.elements, Chain.tailElements_nil, List.append_nil] at faithful settled ⊢
    exact .signed (signed_of_piece proper.first faithful settled operands.first)
  | cons x rest ih =>
    have whole : Chain.elements ⟨first, x :: rest⟩ =
        first.elements ++ x.1.2 :: Chain.elements ⟨x.2, rest⟩ := by
      simp [Chain.elements]
    have parts : tokens (Chain.elements ⟨first, x :: rest⟩) =
        tokens first.elements ++ x.1.2.token :: tokens (Chain.elements ⟨x.2, rest⟩) := by
      simp [whole, tokens]
    obtain ⟨faithfulHere, faithfulBelow⟩ := List.forall_mem_append.mp (whole ▸ faithful)
    obtain ⟨settledHere, settledBelow⟩ := List.forall_mem_append.mp (parts ▸ settled)
    obtain ⟨binary, ops⟩ := List.forall_mem_cons.mp proper.ops
    obtain ⟨next, pieces⟩ := List.forall_mem_cons.mp proper.pieces
    obtain ⟨operand, more⟩ := List.forall_mem_cons.mp operands.rest
    rw [parts]
    refine .operation (signed_of_piece proper.first faithfulHere settledHere operands.first) binary ?_
    exact ih x.2 ⟨next, ops, pieces⟩ ⟨operand, more⟩ (List.forall_mem_cons.mp faithfulBelow).2
      (List.forall_mem_cons.mp settledBelow).2

theorem value_of_chain {run : List Token} (settled : Settled lookup run)
    (chain : ChainValue lookup (noteTokens run)) : Value lookup run := by
  obtain ⟨c, proper, spells, operands⟩ := chain
  have whole : tokens c.elements = run := spells ▸ tokens_noteTokens run
  rw [← whole] at settled ⊢
  exact value_of_elements c.first c.rest proper operands (spells ▸ faithful_noteTokens run) settled

theorem mem_of_mem_trimmed {items : List (List Token)} {item : List Token}
    (h : item ∈ trimmed items) : item ∈ items := by
  unfold trimmed at h
  split at h
  · exact (List.dropLast_sublist items).subset h
  · exact h

theorem operand_of_leaf (l : Leaf) (place : Place) (value : (Form.ofLeaf l place).IsValue lookup) :
    Operand lookup [.leaf l place] := by
  cases l with
  | str raw => exact .text
  | number raw => exact .number
  | name text =>
    unfold Form.ofLeaf at value
    dsimp only at value
    split at value
    · rename_i literal found
      refine .bool ?_
      unfold Literal.ofName? at found
      split at found
      · exact .inl rfl
      · exact .inr rfl
      · cases found
    · split at value
      · exact value.elim
      · rename_i free
        exact .name (.single (by simpa using free)) value
  | op | dot | comment | newline | endMarker => exact value.elim

mutual

theorem operand_of_token (t : Token) (value : t.form.IsValue lookup) : Operand lookup [t] := by
  cases t with
  | leaf l place => exact operand_of_leaf l place value
  | tuple items place =>
    refine .tuple fun item hi => ?_
    have chain := (allValues_itemParts_iff items).mp value item hi
    exact value_of_chain (settled_items items item (mem_of_mem_trimmed hi)) chain
  | group bracket inner place =>
    rcases (group_isValue_iff ..).mp value with rfl | chain
    · exact .empty
    · exact .group (value_of_chain (settled_run inner) chain)
termination_by structural t

theorem settled_run (run : List Token) : Settled lookup run := by
  cases run with
  | nil => exact fun t ht => nomatch ht
  | cons t rest => exact List.forall_mem_cons.mpr ⟨operand_of_token t, settled_run rest⟩
termination_by structural run

theorem settled_items (items : List (List Token)) : ∀ item ∈ items, Settled lookup item := by
  cases items with
  | nil => exact fun item hi => nomatch hi
  | cons item rest => exact List.forall_mem_cons.mpr ⟨settled_run item, settled_items rest⟩
termination_by structural items

end

/-- The verdict on a run holds exactly if the run is a value of the grammar. -/
theorem valueVerdict_holds_iff_value (lookup : Lookup) (run : List Token) :
    (valueVerdict lookup run).holds = true ↔ Value lookup run := by
  rw [valueVerdict_holds_iff]
  unfold Form.ofTokens
  rw [runForm_isValue_iff (faithful_noteTokens run)]
  exact ⟨value_of_chain (settled_run run), Value.chain⟩

end Grammar

end ExprCheck
