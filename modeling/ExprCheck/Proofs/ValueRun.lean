import ExprCheck.Proofs.Atom
import ExprCheck.Proofs.Chain
/-! Runs of values. A run is one of a value if it spells a proper chain whose operands are atoms
of values. Such runs can be put together at a binary operator and cut at their first one, and a
unary operator in front changes nothing. Main statement: these are the runs whose form is that of
a value. -/
namespace ExprCheck.Noted

variable {lookup : Lookup}

def AtomValue (lookup : Lookup) (run : List Noted) : Prop :=
  ∃ form, atomForm? run = some form ∧ form.IsValue lookup

structure Operands (lookup : Lookup) (c : Chain Noted) : Prop where
  first : AtomValue lookup c.first.run
  rest : ∀ x ∈ c.rest, AtomValue lookup x.2.run

def ChainValue (lookup : Lookup) (run : List Noted) : Prop :=
  ∃ c : Chain Noted, c.Proper Noted.token ∧ c.elements = run ∧ Operands lookup c

def Faithful (run : List Noted) : Prop :=
  ∀ n ∈ run, n.form = n.token.form

theorem isPlain_of_isParenGroup {t : Token} (isParen : t.isParenGroup = true) : t.IsPlain := by
  cases t with
  | leaf l place => cases isParen
  | tuple items place => exact ⟨rfl, rfl⟩
  | group bracket inner place => exact ⟨rfl, rfl⟩

theorem plain_of_atomForm? {run : List Noted} {form : Form} (found : atomForm? run = some form) :
    (∃ n, run = [n] ∧ form = n.form) ∨ run ≠ [] ∧ ∀ n ∈ run, n.token.IsPlain := by
  unfold atomForm? at found
  split at found
  · cases found
    exact .inl ⟨_, rfl, rfl⟩
  · right
    split at found
    · rename_i name spells
      have names := of_dottedName?_eq_some spells
      exact ⟨by simpa [tokens] using names.1, fun n hn => (names.2 _ (List.mem_map_of_mem hn)).1⟩
    · split at found
      · rename_i call
        obtain ⟨head, paren, name, rfl, isParen, spells, -⟩ := (isCall_iff run).mp call
        have names := of_dottedName?_eq_some spells
        refine ⟨by simp, List.forall_mem_append.mpr ⟨?_, List.forall_mem_singleton.mpr ?_⟩⟩
        · exact fun n hn => (names.2 _ (List.mem_map_of_mem hn)).1
        · exact isPlain_of_isParenGroup isParen
      · cases found

theorem AtomValue.proper {run : List Noted} (faithful : Faithful run)
    (atom : AtomValue lookup run) : Piece.Proper Noted.token ⟨[], run⟩ := by
  have plain : run ≠ [] ∧ ∀ n ∈ run, n.token.IsPlain := by
    obtain ⟨form, found, value⟩ := atom
    rcases plain_of_atomForm? found with ⟨n, rfl, rfl⟩ | plain
    · rw [faithful n (by simp)] at value
      exact ⟨by simp, List.forall_mem_singleton.mpr (Token.isPlain_of_isValue value)⟩
    · exact plain
  cases run with
  | nil => exact absurd rfl plain.1
  | cons n rest =>
    exact ⟨by simp, ⟨n, rest, rfl, (plain.2 n (by simp)).1⟩, fun m hm => (plain.2 m hm).2⟩

theorem AtomValue.chainValue {run : List Noted} (faithful : Faithful run)
    (atom : AtomValue lookup run) : ChainValue lookup run :=
  ⟨⟨⟨[], run⟩, []⟩, ⟨atom.proper faithful, by simp, by simp⟩, by simp [Chain.elements, Piece.elements],
    ⟨atom, by simp⟩⟩

theorem ChainValue.ne_nil {run : List Noted} (chain : ChainValue lookup run) : run ≠ [] := by
  obtain ⟨c, proper, rfl, -⟩ := chain
  obtain ⟨n, rest, starts, -⟩ := proper.first.start
  simp [Chain.elements, Piece.elements, starts]

theorem chainValue_sign_iff {n : Noted} {rest : List Noted} {op : UnaryOp}
    (unary : n.token.unaryOp? = some op) :
    ChainValue lookup (n :: rest) ↔ ChainValue lookup rest := by
  constructor
  · rintro ⟨⟨⟨signs, run⟩, more⟩, proper, spells, operands⟩
    cases signs with
    | nil =>
      obtain ⟨t, ts, starts, notUnary⟩ := proper.first.start
      have same : t = n := by
        have starts : run = t :: ts := starts
        simp only [Chain.elements, Piece.elements, starts] at spells
        simpa using (List.cons.inj spells).1
      rw [same, unary] at notUnary
      cases notUnary
    | cons s signs =>
      have first : Piece.Proper Noted.token ⟨signs, run⟩ :=
        ⟨fun s' hs => proper.first.signs s' (List.mem_cons_of_mem s hs), proper.first.start,
          proper.first.plain⟩
      refine ⟨⟨⟨signs, run⟩, more⟩, ⟨first, proper.ops, proper.pieces⟩, ?_,
        ⟨operands.first, operands.rest⟩⟩
      exact (List.cons.inj spells).2
  · rintro ⟨c, proper, rfl, operands⟩
    have first : Piece.Proper Noted.token ⟨(op, n) :: c.first.signs, c.first.run⟩ :=
      ⟨List.forall_mem_cons.mpr ⟨unary, proper.first.signs⟩, proper.first.start, proper.first.plain⟩
    exact ⟨⟨⟨(op, n) :: c.first.signs, c.first.run⟩, c.rest⟩, ⟨first, proper.ops, proper.pieces⟩,
      rfl, ⟨operands.first, operands.rest⟩⟩

theorem ChainValue.join {left right : List Noted} {n : Noted} {op : BinaryOp}
    (hl : ChainValue lookup left) (binary : n.token.binaryOp? = some op)
    (hr : ChainValue lookup right) : ChainValue lookup (left ++ n :: right) := by
  obtain ⟨c, properLeft, rfl, operandsLeft⟩ := hl
  obtain ⟨d, properRight, rfl, operandsRight⟩ := hr
  refine ⟨⟨c.first, c.rest ++ ((op, n), d.first) :: d.rest⟩, ⟨properLeft.first, ?_, ?_⟩, ?_,
    ⟨operandsLeft.first, ?_⟩⟩
  · exact List.forall_mem_append.mpr
      ⟨properLeft.ops, List.forall_mem_cons.mpr ⟨binary, properRight.ops⟩⟩
  · exact List.forall_mem_append.mpr
      ⟨properLeft.pieces, List.forall_mem_cons.mpr ⟨properRight.first, properRight.pieces⟩⟩
  · simp [Chain.elements, Chain.tailElements]
  · exact List.forall_mem_append.mpr
      ⟨operandsLeft.rest, List.forall_mem_cons.mpr ⟨operandsRight.first, operandsRight.rest⟩⟩

theorem elements_eq_of_no_sign {c : Chain Noted} {n : Noted} {rest : List Noted}
    (proper : c.Proper Noted.token) (spells : c.elements = n :: rest)
    (notUnary : n.token.unaryOp? = none) :
    c.first.run ++ Chain.tailElements c.rest = n :: rest := by
  cases signs : c.first.signs with
  | nil => simpa [Chain.elements, Piece.elements, signs] using spells
  | cons s more =>
    have unary := proper.first.signs s (by simp [signs])
    have same : s.2 = n := by
      simp only [Chain.elements, Piece.elements, signs] at spells
      exact (List.cons.inj spells).1
    rw [same, notUnary] at unary
    cases unary

/-- Of a run that starts with an operand, what stands before its first binary operator is an atom,
and what stands after it is a run of a value. -/
theorem ChainValue.cut {left right : List Noted} {n m : Noted} {op : BinaryOp}
    (chain : ChainValue lookup ((n :: left) ++ m :: right)) (notUnary : n.token.unaryOp? = none)
    (binary : m.token.binaryOp? = some op)
    (plain : ∀ x ∈ n :: left, x.token.binaryOp? = none) :
    AtomValue lookup (n :: left) ∧ ChainValue lookup right := by
  obtain ⟨c, proper, spells, operands⟩ := chain
  have parts := elements_eq_of_no_sign proper spells notUnary
  change c.first.run ++ Chain.tailElements c.rest = (n :: left) ++ m :: right at parts
  -- Neither the first operand nor `left` holds a binary operator, so they end together.
  have aligned : c.first.run = n :: left ∧ Chain.tailElements c.rest = m :: right := by
    rcases List.append_eq_append_iff.mp parts with ⟨mid, hl, hr⟩ | ⟨mid, hl, hr⟩
    · cases mid with
      | nil => exact ⟨by simpa using hl.symm, by simpa using hr⟩
      | cons x mid =>
        cases rest : c.rest with
        | nil => simp [rest] at hr
        | cons y more =>
          have found := proper.ops y (by simp [rest])
          have same : y.1.2 = x := by
            rw [rest, Chain.tailElements_cons] at hr
            exact (List.cons.inj hr).1
          rw [same, plain x (by simp [hl])] at found
          cases found
    · cases mid with
      | nil => exact ⟨by simpa using hl, by simpa using hr.symm⟩
      | cons x mid =>
        have same : m = x := (List.cons.inj hr).1
        have none := proper.first.plain x (by simp [hl])
        rw [← same, binary] at none
        cases none
  refine ⟨aligned.1 ▸ operands.first, ?_⟩
  cases rest : c.rest with
  | nil => simp [rest] at aligned
  | cons y more =>
    rw [rest, Chain.tailElements_cons] at aligned
    have inRest : ∀ x ∈ more, x ∈ c.rest := fun x hx => rest ▸ List.mem_cons_of_mem y hx
    have head : y ∈ c.rest := rest ▸ List.mem_cons_self
    exact ⟨⟨y.2, more⟩, ⟨proper.pieces y head, fun x hx => proper.ops x (inRest x hx),
      fun x hx => proper.pieces x (inRest x hx)⟩, (List.cons.inj aligned.2).2,
      ⟨operands.rest y head, fun x hx => operands.rest x (inRest x hx)⟩⟩

theorem ChainValue.atom {n : Noted} {rest : List Noted} (chain : ChainValue lookup (n :: rest))
    (notUnary : n.token.unaryOp? = none) (plain : ∀ x ∈ n :: rest, x.token.binaryOp? = none) :
    AtomValue lookup (n :: rest) := by
  obtain ⟨c, proper, spells, operands⟩ := chain
  have parts := elements_eq_of_no_sign proper spells notUnary
  cases more : c.rest with
  | nil =>
    have whole : c.first.run = n :: rest := by simpa [more] using parts
    exact whole ▸ operands.first
  | cons y rest' =>
    have found := proper.ops y (by simp [more])
    rw [plain y.1.2 (by simp [← parts, more])] at found
    cases found

theorem ChainValue.start {n : Noted} {rest : List Noted} (chain : ChainValue lookup (n :: rest))
    (notUnary : n.token.unaryOp? = none) : n.token.binaryOp? = none := by
  obtain ⟨c, proper, spells, -⟩ := chain
  have parts := elements_eq_of_no_sign proper spells notUnary
  obtain ⟨t, ts, starts, -⟩ := proper.first.start
  have same : t = n := by
    rw [starts] at parts
    exact (List.cons.inj parts).1
  exact same ▸ proper.first.plain t (by simp [starts])

theorem ChainValue.singleton {n : Noted} (chain : ChainValue lookup [n]) :
    n.form.IsValue lookup := by
  have atom : AtomValue lookup [n] := by
    cases unary : n.token.unaryOp? with
    | some op => exact absurd rfl ((chainValue_sign_iff unary).mp chain).ne_nil
    | none => exact chain.atom unary (List.forall_mem_singleton.mpr (chain.start unary))
  obtain ⟨form, found, value⟩ := atom
  cases found
  exact value

theorem ChainValue.isValue_of_atomForm? {run : List Noted} {form : Form}
    (chain : ChainValue lookup run) (found : atomForm? run = some form) :
    form.IsValue lookup := by
  rcases plain_of_atomForm? found with ⟨n, rfl, rfl⟩ | ⟨nonempty, plain⟩
  · exact chain.singleton
  · cases run with
    | nil => exact absurd rfl nonempty
    | cons n rest =>
      obtain ⟨form', found', value⟩ := chain.atom (plain n (by simp)).1 fun x hx => (plain x hx).2
      cases found.symm.trans found'
      exact value

theorem operand_isValue_iff (piece : Piece Noted) :
    (operand piece).IsValue lookup ↔ AtomValue lookup piece.run := by
  unfold operand Operand.IsValue AtomValue
  cases found : atomForm? piece.run with
  | none => simp [Form.IsValue]
  | some form => simp

theorem operations_allValues_iff (rest : List ((BinaryOp × Noted) × Piece Noted)) :
    Operation.AllValues lookup
        (rest.map fun ((op, n), piece) => .mk op n.token.place (operand piece)) ↔
      ∀ x ∈ rest, AtomValue lookup x.2.run := by
  induction rest with
  | nil => simp [Operation.AllValues]
  | cons x rest ih =>
    simp only [List.map_cons, Operation.AllValues, operand_isValue_iff, ih, List.forall_mem_cons]

theorem operationForm_isValue_iff (run : List Noted) :
    (operationForm run).IsValue lookup ↔ ChainValue lookup run := by
  unfold operationForm
  cases read : Chain.split Noted.token run with
  | error at? =>
    simp only [Form.IsValue, false_iff]
    rintro ⟨c, proper, spells, -⟩
    rw [Chain.split_eq_ok_iff.mpr ⟨proper, spells⟩] at read
    cases read
  | ok c =>
    simp only [Form.IsValue, operand_isValue_iff, operations_allValues_iff]
    constructor
    · rintro ⟨first, rest⟩
      obtain ⟨proper, spells⟩ := Chain.split_eq_ok_iff.mp read
      exact ⟨c, proper, spells, ⟨first, rest⟩⟩
    · rintro ⟨d, proper, spells, operands⟩
      rw [Chain.split_eq_ok_iff.mpr ⟨proper, spells⟩] at read
      cases read
      exact ⟨operands.first, operands.rest⟩

/-- The form of a run is that of a value exactly if the run is one of a value. -/
theorem runForm_isValue_iff {run : List Noted} (faithful : Faithful run) :
    (runForm run).IsValue lookup ↔ ChainValue lookup run := by
  unfold runForm
  cases found : atomForm? run with
  | none => exact operationForm_isValue_iff run
  | some form =>
    constructor
    · intro value
      exact AtomValue.chainValue faithful ⟨form, found, value⟩
    · intro chain
      exact chain.isValue_of_atomForm? found

end ExprCheck.Noted
