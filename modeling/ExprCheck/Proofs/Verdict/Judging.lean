import ExprCheck.Proofs.Grammar
/-! How a run of tokens is judged. The verdict on a run is made of verdicts on its pieces and on the
runs in its tokens, and a piece may be judged more than once on the way. The equations here say
which pieces these are, and an induction goes over all of them. -/
namespace ExprCheck

namespace Verdict

variable {v : Verdict} {w : Unit → Verdict}

theorem and_of_holds (h : v.holds = true) : v.and w = (w ()).after v.findings :=
  if_pos h

theorem and_of_fails (h : v.holds = false) : v.and w = v :=
  if_neg (by simp [h])

theorem or_of_holds (h : v.holds = true) : v.or w = v :=
  if_pos h

theorem or_of_fails (h : v.holds = false) : v.or w = (w ()).after v.findings :=
  if_neg (by simp [h])

theorem mem_findings_and {f : Finding} (mem : f ∈ (v.and w).findings) :
    f ∈ v.findings ∨ f ∈ (w ()).findings := by
  cases h : v.holds with
  | true =>
    rw [and_of_holds h] at mem
    exact List.mem_append.mp mem
  | false =>
    rw [and_of_fails h] at mem
    exact .inl mem

theorem mem_findings_or {f : Finding} (mem : f ∈ (v.or w).findings) :
    f ∈ v.findings ∨ f ∈ (w ()).findings := by
  cases h : v.holds with
  | true =>
    rw [or_of_holds h] at mem
    exact .inl mem
  | false =>
    rw [or_of_fails h] at mem
    exact List.mem_append.mp mem

end Verdict

/-- Whether a run is a name and parentheses whose content is empty or values. -/
def callVerdict (lookup : Lookup) (run : List Token) : Verdict :=
  Judged.callVerdict (judgeTokens lookup run)

variable {lookup : Lookup}

theorem judgeTokens_eq_map (run : List Token) :
    judgeTokens lookup run = run.map fun t => ⟨t, t.verdict lookup⟩ := by
  induction run with
  | nil => rfl
  | cons t rest ih => exact congrArg (List.cons _) ih

theorem tokens_judgeTokens (run : List Token) : Judged.tokens (judgeTokens lookup run) = run := by
  simp [judgeTokens_eq_map, Judged.tokens, Function.comp_def]

/-- The verdict holds exactly for a chain of values. -/
theorem valueVerdict_holds_iff_chainValue {run : List Token} :
    (valueVerdict lookup run).holds = true ↔ Noted.ChainValue lookup (noteTokens run) := by
  rw [valueVerdict_holds_iff, Form.ofTokens,
    Noted.runForm_isValue_iff (Grammar.faithful_noteTokens run)]

theorem callVerdict_of_not_isCall {run : List Token} (call : isCall true run = false) :
    callVerdict lookup run = .no := by
  unfold callVerdict Judged.callVerdict
  rw [tokens_judgeTokens, call, if_neg Bool.false_ne_true]

theorem valueVerdict_cons (lookup : Lookup) (t u : Token) (rest : List Token) :
    valueVerdict lookup (t :: u :: rest) =
      (if t.unaryOp?.isSome then valueVerdict lookup (u :: rest) else .no).or fun _ =>
        match splitAtFirst (fun t => t.binaryOp?.isSome) (t :: u :: rest) with
        | some (left, _, right) =>
            ((callVerdict lookup left).or fun _ => valueVerdict lookup left).and fun _ =>
              valueVerdict lookup right
        | none =>
            match dottedName? (t :: u :: rest) with
            | some text => Judged.nameVerdict lookup text (lastPlace? (t :: u :: rest))
            | none => callVerdict lookup (t :: u :: rest) := by
  have cut := splitAtFirst_map (fun t : Token => (⟨t, t.verdict lookup⟩ : Judged))
    (fun j => j.token.binaryOp?.isSome) (t :: u :: rest)
  have tokens : Judged.tokens (judgeTokens lookup (t :: u :: rest)) = t :: u :: rest :=
    tokens_judgeTokens _
  -- The tokens are judged before the run is cut, which does not move the cut.
  rw [← judgeTokens_eq_map] at cut
  change Judged.runVerdict lookup (⟨t, _⟩ :: ⟨u, _⟩ :: judgeTokens lookup rest) = _
  rw [Judged.runVerdict]
  refine congrArg (Verdict.or _) (funext fun _ => ?_)
  split
  · rename_i left m right found
    obtain ⟨⟨before, operator, after⟩, here, same⟩ :=
      Option.map_eq_some_iff.mp (cut.symm.trans found)
    cases same
    rw [here]
    simp only [callVerdict, valueVerdict, judgeTokens_eq_map]
  · rename_i found
    rw [Option.map_eq_none_iff.mp (cut.symm.trans found)]
    change (match dottedName? (Judged.tokens (judgeTokens lookup (t :: u :: rest))) with
      | some text => _
      | none => _) = _
    rw [tokens]
    cases dottedName? (t :: u :: rest) with
    | some text =>
      exact congrArg (fun run => Judged.nameVerdict lookup text (lastPlace? run)) tokens
    | none => rfl

theorem itemVerdict_cons (item : List Token) (rest : List (List Token)) (some : item ≠ []) :
    itemVerdict lookup (item :: rest) =
      (valueVerdict lookup item).and fun _ => itemVerdict lookup rest := by
  obtain ⟨t, run, rfl⟩ := List.exists_cons_of_ne_nil some
  rfl

theorem itemVerdict_nil_cons (rest : List (List Token)) :
    itemVerdict lookup ([] :: rest) = if rest = [] then .yes else .no := by
  cases rest <;> rfl

theorem valueVerdict_nil : valueVerdict lookup [] = .no := by
  change Judged.runVerdict lookup [] = _
  rw [Judged.runVerdict]

theorem valueVerdict_single (t : Token) : valueVerdict lookup [t] = t.verdict lookup := by
  change Judged.runVerdict lookup [⟨t, _⟩] = _
  rw [Judged.runVerdict]

theorem verdict_group (bracket : Bracket) (inner : List Token) (place : Place) :
    (Token.group bracket inner place).verdict lookup =
      if inner = [] then .yes else valueVerdict lookup inner := by
  cases inner <;> rfl

theorem exists_of_isCall {run : List Token} (call : isCall true run = true) : ∃ head name inner place,
    run = head ++ [.group .paren inner place] ∧ dottedName? head = some name := by
  obtain ⟨head, paren, name, whole, isParen, spells, -⟩ :=
    (Noted.isCall_iff (noteTokens run)).mp (by rwa [Grammar.tokens_noteTokens])
  obtain ⟨inner, place, group⟩ := Grammar.of_isParenGroup isParen
  refine ⟨Noted.tokens head, name, inner, place, ?_, spells⟩
  rw [← Grammar.tokens_noteTokens run, whole]
  simp [Noted.tokens, group]

theorem callVerdict_append (lookup : Lookup) {head : List Token} {name : String}
    (spells : dottedName? head = some name) (inner : List Token) (place : Place) :
    isCall true (head ++ [.group .paren inner place]) = true ∧
    callVerdict lookup (head ++ [.group .paren inner place]) =
      if inner = [] then .yes else valueVerdict lookup inner := by
  have outside : ∀ x ∈ head, x.isParenGroup = false := fun x mem =>
    ((of_dottedName?_eq_some spells).2 x mem).2
  have call : isCall true (head ++ [.group .paren inner place]) = true := by
    rw [isCall, splitAtFirst_append_cons [] outside rfl]
    simp [spells]
  refine ⟨call, ?_⟩
  unfold callVerdict Judged.callVerdict
  rw [tokens_judgeTokens, if_pos call, judgeTokens_eq_map, List.getLast?_map,
    ← verdict_group .paren inner place]
  simp

/-- A run is no call, or a call without arguments, or it is judged by what stands between the
parentheses. -/
theorem callVerdict_eq_or (run : List Token) :
    (∀ lookup, callVerdict lookup run = .no) ∨ (∀ lookup, callVerdict lookup run = .yes) ∨
      ∃ bracket inner place, .group bracket inner place ∈ run ∧
        ∀ lookup, callVerdict lookup run = valueVerdict lookup inner := by
  cases call : isCall true run with
  | false => exact .inl fun lookup => callVerdict_of_not_isCall call
  | true =>
    right
    obtain ⟨head, name, inner, place, rfl, spells⟩ := exists_of_isCall call
    have judged (lookup : Lookup) := (callVerdict_append lookup spells inner place).2
    by_cases empty : inner = []
    · exact .inl fun lookup => by rw [judged, if_pos empty]
    · refine .inr ⟨.paren, inner, place, by simp, fun lookup => ?_⟩
      rw [judged, if_neg empty]

theorem sizeOf_append (first second : List Token) :
    sizeOf (first ++ second) + 1 = sizeOf first + sizeOf second := by
  induction first with
  | nil => simp [Nat.add_comm]
  | cons t rest ih =>
    simp only [List.cons_append, List.cons.sizeOf_spec]
    omega

theorem sizeOf_pos (run : List Token) : 0 < sizeOf run := by
  cases run with
  | nil => simp
  | cons t rest =>
    simp only [List.cons.sizeOf_spec]
    omega

theorem sizeOf_sides {left right run : List Token} {m : Token} (whole : run = left ++ m :: right) :
    sizeOf left < sizeOf run ∧ sizeOf right < sizeOf run := by
  have parts := sizeOf_append left (m :: right)
  have before := sizeOf_pos left
  have behind := sizeOf_pos right
  rw [List.cons.sizeOf_spec, ← whole] at parts
  omega

theorem sizeOf_item {items : List (List Token)} {item : List Token} (mem : item ∈ items)
    (place : Place) : sizeOf item < sizeOf [Token.tuple items place] := by
  have inside := List.sizeOf_lt_of_mem mem
  simp only [List.cons.sizeOf_spec, Token.tuple.sizeOf_spec]
  omega

theorem sizeOf_inner {bracket : Bracket} {inner run : List Token} {place : Place}
    (mem : .group bracket inner place ∈ run) : sizeOf inner < sizeOf run := by
  have inside := List.sizeOf_lt_of_mem mem
  rw [Token.group.sizeOf_spec] at inside
  omega

/-- A run of several tokens is judged from what follows its first token, from the two sides of any
token in it, and from the contents of its groups; a single token from the runs in it. -/
theorem judged_induction {motive : List Token → Prop} (nil : motive [])
    (leaf : ∀ l place, motive [.leaf l place])
    (tuple : ∀ items place, (∀ item ∈ items, motive item) → motive [.tuple items place])
    (group : ∀ bracket inner place, motive inner → motive [.group bracket inner place])
    (several : ∀ t u rest, motive (u :: rest) →
      (∀ left m right, t :: u :: rest = left ++ m :: right → motive left ∧ motive right) →
      (∀ bracket inner place, .group bracket inner place ∈ t :: u :: rest → motive inner) →
      motive (t :: u :: rest)) (run : List Token) : motive run :=
  have again (part : List Token) (_ : sizeOf part < sizeOf run) : motive part :=
    judged_induction nil leaf tuple group several part
  match run with
  | [] => nil
  | [.leaf l place] => leaf l place
  | [.tuple items place] =>
      tuple items place fun item mem => again item (sizeOf_item mem place)
  | [.group bracket inner place] =>
      group bracket inner place (again inner (sizeOf_inner (List.mem_singleton.mpr rfl)))
  | t :: u :: rest =>
      have sides (left : List Token) (m : Token) (right : List Token)
          (whole : t :: u :: rest = left ++ m :: right) : motive left ∧ motive right :=
        ⟨again left (sizeOf_sides whole).1, again right (sizeOf_sides whole).2⟩
      several t u rest (sides [] t (u :: rest) rfl).2 sides fun _ inner _ mem =>
        again inner (sizeOf_inner mem)
termination_by sizeOf run

end ExprCheck
