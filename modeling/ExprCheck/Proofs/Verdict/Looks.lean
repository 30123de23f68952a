import ExprCheck.Proofs.Verdict.Findings
/-! What a verdict looks at. A name, a call and a value in front of a binary operator are judged as
wholes. Of a run with unary operators in front, what is behind them is judged first; only if that is
no value, the run is cut at its first binary operator. Main statement: operators in front of a run
without a binary operator change nothing. -/
namespace ExprCheck

variable {lookup : Lookup} {run after : List Token} {t : Token}

namespace Verdict

theorem no_or (w : Unit → Verdict) : Verdict.no.or w = w () :=
  rfl

theorem or_no (v : Verdict) : (v.or fun _ => .no) = v := by
  cases holds : v.holds with
  | true => exact or_of_holds holds
  | false =>
    rw [or_of_fails holds]
    obtain ⟨_, findings⟩ := v
    cases holds
    simp [after, no]

end Verdict

open Verdict Grammar

/-- A value is accepted without a note. -/
theorem Grammar.Value.verdict {run : List Token} (value : Grammar.Value lookup run) :
    valueVerdict lookup run = .yes := by
  have holds := valueVerdict_holds_iff_chainValue.mpr value.chain
  have silent := valueVerdict_silent run holds
  generalize valueVerdict lookup run = v at holds silent
  obtain ⟨_, _⟩ := v
  subst holds silent
  rfl

theorem Grammar.value_of_holds {run : List Token} (holds : (valueVerdict lookup run).holds = true) :
    Grammar.Value lookup run :=
  Grammar.value_of_chain (Grammar.settled_run run) (valueVerdict_holds_iff_chainValue.mp holds)

theorem itemVerdict_of_values {before : List (List Token)} (rest : List (List Token))
    (values : ∀ i ∈ before, Value lookup i) :
    itemVerdict lookup (before ++ rest) = itemVerdict lookup rest := by
  induction before with
  | nil => rfl
  | cons item before ih =>
    obtain ⟨here, below⟩ := List.forall_mem_cons.mp values
    have nonempty : item ≠ [] := by
      rintro rfl
      exact here.chain.ne_nil rfl
    rw [List.cons_append, itemVerdict_cons _ _ nonempty, here.verdict, ← ih below]
    rfl

theorem valueVerdict_of_dottedName? {text : String} (spells : dottedName? run = some text) :
    valueVerdict lookup run = Judged.nameVerdict lookup text (lastPlace? run) := by
  obtain ⟨parts, name, -⟩ := dottedName?_eq_some_iff.mp spells
  have plain := (of_dottedName?_eq_some spells).2
  cases name with
  | single free =>
    rename_i text' place
    have same : text' = text := by simpa [dottedName?, nameParts?, free] using spells
    have literal := Literal.ofName?_eq_none free
    rw [valueVerdict_single, Token.verdict, Leaf.verdict, literal, free, same]
    rfl
  | dotted free rest =>
    rename_i text' place dot run parts
    have uncut : splitAtFirst (fun x => x.binaryOp?.isSome)
        (Token.leaf (.name text') place :: .leaf .dot dot :: run) = none :=
      splitAtFirst_eq_none_iff.mpr fun x mem => by
        rw [(plain x mem).1.2]
        rfl
    rw [valueVerdict_cons, uncut, (plain _ List.mem_cons_self).1.1, spells]
    rfl

theorem valueVerdict_of_isCall (call : isCall true run = true) :
    valueVerdict lookup run = callVerdict lookup run := by
  have noted : isCall true (Noted.tokens (noteTokens run)) = true := by
    rwa [tokens_noteTokens]
  obtain ⟨head, paren, name, whole, isParen, spells, -⟩ := (Noted.isCall_iff _).mp noted
  obtain ⟨unnamed, several⟩ := Noted.dottedName?_of_isCall noted
  rw [tokens_noteTokens] at unnamed
  have plain : ∀ x ∈ run, x.IsPlain := by
    rw [← tokens_noteTokens run, whole, Noted.tokens, List.map_append]
    refine List.forall_mem_append.mpr ⟨fun x mem => ((of_dottedName?_eq_some spells).2 x mem).1, ?_⟩
    exact List.forall_mem_singleton.mpr (Noted.isPlain_of_isParenGroup isParen)
  have uncut : splitAtFirst (fun x => x.binaryOp?.isSome) run = none :=
    splitAtFirst_eq_none_iff.mpr fun x mem => by
      rw [(plain x mem).2]
      rfl
  rcases run with - | ⟨t, - | ⟨u, rest⟩⟩
  · cases noted
  · exact absurd rfl (several ⟨t, t.form⟩)
  · rw [valueVerdict_cons, uncut, (plain t List.mem_cons_self).1, unnamed]
    rfl

theorem Leaf.verdict_unary {l : Leaf} {op : UnaryOp} (place : Place)
    (spells : UnaryOp.ofLeaf? l = some op) : l.verdict lookup place = .no := by
  unfold UnaryOp.ofLeaf? at spells
  split at spells <;> first | rfl | cases spells

section Operator

variable {t : Token} (unary : t.unaryOp?.isSome)

include unary

theorem dottedName?_operator (rest : List Token) : dottedName? (t :: rest) = none := by
  cases spells : dottedName? (t :: rest) with
  | none => rfl
  | some name =>
    have plain := ((of_dottedName?_eq_some spells).2 t List.mem_cons_self).1
    simp [plain.1] at unary

theorem callVerdict_operator (rest : List Token) : callVerdict lookup (t :: rest) = .no := by
  apply callVerdict_of_not_isCall
  unfold isCall
  split
  · rfl
  · rename_i head paren tail cut
    obtain ⟨whole, -⟩ := of_splitAtFirst_eq_some cut
    cases head with
    | nil => rfl
    | cons x head =>
      obtain ⟨rfl, -⟩ := List.cons.inj whole
      rw [dottedName?_operator unary]
      rfl

theorem valueVerdict_operator {rest : List Token} (nonempty : rest ≠ []) :
    valueVerdict lookup (t :: rest) = (valueVerdict lookup rest).or fun _ =>
      match splitAtFirst (fun t => t.binaryOp?.isSome) (t :: rest) with
      | some (left, _, right) => (valueVerdict lookup left).and fun _ => valueVerdict lookup right
      | none => .no := by
  obtain ⟨u, rest, rfl⟩ := List.exists_cons_of_ne_nil nonempty
  rw [valueVerdict_cons, if_pos unary, dottedName?_operator unary, callVerdict_operator unary]
  cases cut : splitAtFirst (fun t => t.binaryOp?.isSome) (t :: u :: rest) with
  | none => rfl
  | some parts =>
    obtain ⟨left, m, right⟩ := parts
    obtain ⟨whole, -⟩ := of_splitAtFirst_eq_some cut
    have uncalled : callVerdict lookup left = .no := by
      cases left with
      | nil => exact callVerdict_of_not_isCall rfl
      | cons x left =>
        obtain ⟨rfl, -⟩ := List.cons.inj whole
        exact callVerdict_operator unary left
    simp only [uncalled, no_or]

end Operator

theorem valueVerdict_operators (run : List Token) (unary : ∀ t ∈ run, t.unaryOp?.isSome) :
    valueVerdict lookup run = .no := by
  induction run using judged_induction with
  | nil => exact valueVerdict_nil
  | leaf l place =>
    obtain ⟨op, spells⟩ := Option.isSome_iff_exists.mp (unary _ (List.mem_singleton.mpr rfl))
    rw [valueVerdict_single]
    exact Leaf.verdict_unary place spells
  | tuple | group => cases unary _ (List.mem_singleton.mpr rfl)
  | several t u rest behind sides contents =>
    obtain ⟨here, below⟩ := List.forall_mem_cons.mp unary
    rw [valueVerdict_operator here (List.cons_ne_nil u rest), behind below]
    split
    · rename_i left m right cut
      obtain ⟨whole, -⟩ := of_splitAtFirst_eq_some cut
      have among : left ⊆ t :: u :: rest := whole ▸ List.subset_append_left ..
      rw [(sides left m right whole).1 fun t mem => unary t (among mem)]
      rfl
    · rfl

theorem splitAtFirst_inside {α : Type} {p : α → Bool} {xs : List α} (ys : List α)
    (inside : ∃ x ∈ xs, p x = true) :
    ∃ before x after, splitAtFirst p (xs ++ ys) = some (before, x, after) ∧ before ⊆ xs := by
  cases cut : splitAtFirst p xs with
  | none =>
    obtain ⟨x, mem, here⟩ := inside
    rw [splitAtFirst_eq_none_iff.mp cut x mem] at here
    cases here
  | some parts =>
    obtain ⟨before, x, after⟩ := parts
    obtain ⟨rfl, here, outside⟩ := of_splitAtFirst_eq_some cut
    refine ⟨before, x, after ++ ys, ?_, List.subset_append_left ..⟩
    rw [List.append_assoc, List.cons_append]
    exact splitAtFirst_append_cons _ outside here

variable {signs : List Token}

theorem valueVerdict_sign (unary : ∀ x ∈ t :: signs, x.unaryOp?.isSome)
    (sign : ∃ x ∈ t :: signs, x.binaryOp?.isSome) (nonempty : run ≠ []) :
    valueVerdict lookup (t :: (signs ++ run)) = valueVerdict lookup (signs ++ run) := by
  obtain ⟨left, m, right, cut, among⟩ := splitAtFirst_inside run sign
  have refused : valueVerdict lookup left = .no :=
    valueVerdict_operators left fun x mem => unary x (among mem)
  rw [valueVerdict_operator (unary t List.mem_cons_self) (by simp [nonempty])]
  rw [List.cons_append] at cut
  rw [cut]
  dsimp only
  rw [refused]
  exact or_no _

theorem valueVerdict_behind (unary : ∀ x ∈ signs, x.unaryOp?.isSome)
    (plain : ∀ x ∈ run, x.binaryOp? = none) (nonempty : run ≠ []) :
    valueVerdict lookup (signs ++ run) = valueVerdict lookup run := by
  induction signs with
  | nil => rfl
  | cons t signs ih =>
    obtain ⟨here, below⟩ := List.forall_mem_cons.mp unary
    rw [List.cons_append, ← ih below]
    by_cases sign : ∃ x ∈ t :: signs, x.binaryOp?.isSome
    · exact valueVerdict_sign unary sign nonempty
    · have uncut : splitAtFirst (fun x => x.binaryOp?.isSome) ((t :: signs) ++ run) = none := by
        rw [splitAtFirst_eq_none_iff]
        refine List.forall_mem_append.mpr ⟨fun x mem => ?_, fun x mem => by rw [plain x mem]; rfl⟩
        exact Bool.eq_false_iff.mpr fun binary => sign ⟨x, mem, binary⟩
      rw [List.cons_append] at uncut
      rw [valueVerdict_operator here (by simp [nonempty]), uncut]
      exact or_no _

theorem valueVerdict_direct {m : Token} (start : ∃ x rest, run = x :: rest ∧ x.unaryOp? = none)
    (plain : ∀ x ∈ run, x.binaryOp? = none) (binary : m.binaryOp?.isSome) :
    valueVerdict lookup (run ++ m :: after) =
      ((callVerdict lookup run).or fun _ => valueVerdict lookup run).and fun _ =>
        valueVerdict lookup after := by
  have cut : splitAtFirst (fun x => x.binaryOp?.isSome) (run ++ m :: after) =
      some (run, m, after) :=
    splitAtFirst_append_cons after (fun x mem => by rw [plain x mem]; rfl) binary
  obtain ⟨x, rest, rfl, notUnary⟩ := start
  obtain ⟨u, more, behind⟩ : ∃ u more, rest ++ m :: after = u :: more := by
    cases rest <;> exact ⟨_, _, rfl⟩
  rw [List.cons_append, behind] at cut ⊢
  rw [valueVerdict_cons, cut, notUnary]
  rfl

end ExprCheck
