import ExprCheck.Proofs.ValueRun
import ExprCheck.Verdict
/-! What a verdict accepts. The verdict cuts a run at its first binary operator and judges the
pieces again, while a form takes the whole run apart at once. Main statement: both accept the same
runs. -/
namespace ExprCheck

namespace Verdict

theorem holds_and (v : Verdict) (w : Unit → Verdict) :
    (v.and w).holds = true ↔ v.holds = true ∧ (w ()).holds = true := by
  unfold Verdict.and
  cases h : v.holds with
  | true => simp [after]
  | false => simp [h]

theorem holds_or (v : Verdict) (w : Unit → Verdict) :
    (v.or w).holds = true ↔ v.holds = true ∨ (w ()).holds = true := by
  unfold Verdict.or
  cases h : v.holds with
  | true => simp [h]
  | false => simp [after]

end Verdict

variable {lookup : Lookup}

theorem Token.args_allValues_iff {t : Token} (isParen : t.isParenGroup = true) :
    Part.AllValues lookup t.form.args ↔ t.form.IsValue lookup := by
  cases t with
  | leaf l place => cases isParen
  | tuple items place => cases isParen
  | group bracket inner place =>
    cases inner with
    | nil => simp [Token.form, Form.args, Part.AllValues, Form.IsValue]
    | cons t rest =>
      unfold Token.form
      cases Noted.runForm (⟨t, t.form⟩ :: noteTokens rest) with
      | tuple items place => exact Iff.rfl
      | _ => simp [Form.args, Part.AllValues, Form.IsValue]

namespace Judged

open Noted

def note (j : Judged) : Noted :=
  ⟨j.token, j.token.form⟩

theorem tokens_note (run : List Judged) : Noted.tokens (run.map note) = tokens run := by
  simp [Noted.tokens, tokens, note]

theorem faithful_note (run : List Judged) : Faithful (run.map note) := by
  intro n hn
  obtain ⟨j, -, rfl⟩ := List.mem_map.mp hn
  rfl

/-- The verdicts that the tokens bring with them are right. -/
def Agrees (lookup : Lookup) (run : List Judged) : Prop :=
  ∀ j ∈ run, j.verdict.holds = true ↔ j.token.form.IsValue lookup

theorem nameVerdict_holds (text : String) (last? : Option Place) :
    (nameVerdict lookup text last?).holds = true ↔ (lookup text).isSome := by
  unfold nameVerdict
  split
  · rename_i found
    exact ⟨fun _ => found, fun _ => rfl⟩
  · rename_i unknown
    exact ⟨fun h => (nomatch h), fun h => absurd h unknown⟩

theorem callVerdict_holds_iff {run : List Judged} (agrees : Agrees lookup run)
    (call : isCall true (tokens run) = true) :
    (callVerdict run).holds = true ↔ AtomValue lookup (run.map note) := by
  rw [← tokens_note] at call
  obtain ⟨head, paren, name, whole, isParen, -, found⟩ := atomForm?_of_isCall call
  obtain ⟨before, last, rfl, -, same⟩ := List.map_eq_append_iff.mp whole
  obtain ⟨j, rfl, rfl⟩ := List.map_eq_singleton_iff.mp same
  have judged : callVerdict (before ++ [j]) = j.verdict := by
    rw [tokens_note] at call
    simp [callVerdict, call]
  have right := agrees j (by simp)
  rw [judged, right, AtomValue, found]
  simp only [Option.some.injEq, exists_eq_left', Form.IsValue]
  exact (Token.args_allValues_iff isParen).symm

theorem callVerdict_holds {run : List Judged} (agrees : Agrees lookup run)
    (holds : (callVerdict run).holds = true) : AtomValue lookup (run.map note) := by
  cases call : isCall true (tokens run) with
  | true => exact (callVerdict_holds_iff agrees call).mp holds
  | false =>
    simp [callVerdict, call] at holds
    cases holds

theorem runVerdict_holds_cons_iff (t u : Judged) (rest : List Judged) :
    (runVerdict lookup (t :: u :: rest)).holds = true ↔
      (t.token.unaryOp?.isSome = true ∧ (runVerdict lookup (u :: rest)).holds = true) ∨
      match splitAtFirst (fun j => j.token.binaryOp?.isSome) (t :: u :: rest) with
      | some (left, _, right) =>
          ((callVerdict left).holds = true ∨ (runVerdict lookup left).holds = true) ∧
            (runVerdict lookup right).holds = true
      | none =>
          match dottedName? (tokens (t :: u :: rest)) with
          | some text => (lookup text).isSome
          | none => (callVerdict (t :: u :: rest)).holds = true := by
  rw [runVerdict]
  simp only [Verdict.holds_or]
  apply or_congr
  · cases t.token.unaryOp?.isSome <;> simp [Verdict.no]
  · cases splitAtFirst (fun j : Judged => j.token.binaryOp?.isSome) (t :: u :: rest) with
    | some parts => simp only [Verdict.holds_and, Verdict.holds_or]
    | none =>
      cases dottedName? (tokens (t :: u :: rest)) with
      | some text => exact nameVerdict_holds ..
      | none => exact Iff.rfl

theorem agrees_of_split {run left right : List Judged} {m : Judged} {p : Judged → Bool}
    (agrees : Agrees lookup run) (split : splitAtFirst p run = some (left, m, right)) :
    Agrees lookup left ∧ Agrees lookup right := by
  obtain ⟨rfl, -, -⟩ := of_splitAtFirst_eq_some split
  exact ⟨fun j hj => agrees j (by simp [hj]), fun j hj => agrees j (by simp [hj])⟩

theorem chainValue_of_runVerdict (js : List Judged) (agrees : Agrees lookup js)
    (holds : (runVerdict lookup js).holds = true) : ChainValue lookup (js.map note) := by
  induction js using runVerdict.induct lookup with
  | case1 =>
    unfold runVerdict at holds
    cases holds
  | case2 t =>
    unfold runVerdict at holds
    have value := (agrees t (by simp)).mp holds
    exact AtomValue.chainValue (faithful_note [t]) ⟨_, rfl, value⟩
  | case3 t u rest ihRest ihLeft ihRight =>
    rcases (runVerdict_holds_cons_iff t u rest).mp holds with ⟨signed, below⟩ | whole
    · obtain ⟨op, unary⟩ := Option.isSome_iff_exists.mp signed
      have chain := ihRest (fun j hj => agrees j (List.mem_cons_of_mem t hj)) below
      exact (chainValue_sign_iff (n := note t) unary).mpr chain
    · split at whole
      · rename_i left m right split
        obtain ⟨agreesLeft, agreesRight⟩ := agrees_of_split agrees split
        obtain ⟨parts, isBinary, -⟩ := of_splitAtFirst_eq_some split
        obtain ⟨op, binary⟩ := Option.isSome_iff_exists.mp isBinary
        have chainLeft : ChainValue lookup (left.map note) := by
          rcases whole.1 with call | value
          · exact (callVerdict_holds agreesLeft call).chainValue (faithful_note left)
          · exact ihLeft left m right split agreesLeft value
        have chainRight := ihRight left m right split agreesRight whole.2
        rw [parts, List.map_append, List.map_cons]
        exact chainLeft.join (n := note m) binary chainRight
      · split at whole
        · rename_i text spells
          rw [← tokens_note] at spells
          have found := atomForm?_of_dottedName? (by simp) spells
          exact AtomValue.chainValue (faithful_note _) ⟨_, found, whole⟩
        · exact (callVerdict_holds agrees whole).chainValue (faithful_note _)

theorem runVerdict_of_chainValue (js : List Judged) (agrees : Agrees lookup js)
    (chain : ChainValue lookup (js.map note)) : (runVerdict lookup js).holds = true := by
  induction js using runVerdict.induct lookup with
  | case1 => exact absurd rfl chain.ne_nil
  | case2 t =>
    unfold runVerdict
    exact (agrees t (by simp)).mpr chain.singleton
  | case3 t u rest ihRest ihLeft ihRight =>
    apply (runVerdict_holds_cons_iff t u rest).mpr
    cases unary : t.token.unaryOp? with
    | some op =>
      have below := (chainValue_sign_iff (n := note t) unary).mp chain
      exact .inl ⟨rfl, ihRest (fun j hj => agrees j (List.mem_cons_of_mem t hj)) below⟩
    | none =>
      right
      cases split : splitAtFirst (fun j : Judged => j.token.binaryOp?.isSome) (t :: u :: rest) with
      | some parts =>
        obtain ⟨left, m, right⟩ := parts
        obtain ⟨agreesLeft, agreesRight⟩ := agrees_of_split agrees split
        obtain ⟨whole, isBinary, plain⟩ := of_splitAtFirst_eq_some split
        obtain ⟨op, binary⟩ := Option.isSome_iff_exists.mp isBinary
        cases left with
        | nil =>
          -- The run would start with an operator that is binary only.
          obtain ⟨rfl, -⟩ := List.cons.inj whole
          have none := chain.start (n := note t) unary
          exact absurd (none.symm.trans binary) (by simp)
        | cons x left =>
          obtain ⟨rfl, -⟩ := List.cons.inj whole
          rw [whole, List.map_append, List.map_cons] at chain
          have cut := ChainValue.cut (n := note t) (m := note m) chain unary binary
            (by simpa [note] using plain)
          refine ⟨.inr ?_, ?_⟩
          · exact ihLeft _ m right split agreesLeft (cut.1.chainValue (faithful_note (t :: left)))
          · exact ihRight _ m right split agreesRight cut.2
      | none =>
        have plain := splitAtFirst_eq_none_iff.mp split
        have atom := chain.atom (n := note t) unary (by simpa [note] using plain)
        cases spells : dottedName? (tokens (t :: u :: rest)) with
        | some text =>
          obtain ⟨form, found, value⟩ := atom
          rw [← tokens_note] at spells
          cases found.symm.trans (atomForm?_of_dottedName? (by simp) spells)
          exact value
        | none =>
          cases call : isCall true (tokens (t :: u :: rest)) with
          | true => exact (callVerdict_holds_iff agrees call).mpr atom
          | false =>
            obtain ⟨form, found, -⟩ := atom
            rw [← tokens_note] at spells call
            cases found.symm.trans (atomForm?_eq_none (by simp) spells call)

/-- A run that is judged holds exactly if its form is that of a value. -/
theorem runVerdict_holds_iff {js : List Judged} (agrees : Agrees lookup js) :
    (runVerdict lookup js).holds = true ↔ (runForm (js.map note)).IsValue lookup := by
  rw [runForm_isValue_iff (faithful_note js)]
  exact ⟨chainValue_of_runVerdict js agrees, runVerdict_of_chainValue js agrees⟩

end Judged

theorem Leaf.verdict_holds_iff (l : Leaf) (place : Place) :
    (l.verdict lookup place).holds = true ↔ (Form.ofLeaf l place).IsValue lookup := by
  cases l with
  | name text =>
    unfold Leaf.verdict Form.ofLeaf
    cases literal : Literal.ofName? text with
    | some value => simp [literal, Verdict.yes, Form.IsValue]
    | none =>
      cases reserved : isReserved text with
      | true => simp [literal, reserved, Verdict.no, Form.IsValue]
      | false =>
        simp only [literal, Option.isSome_none, reserved, Bool.false_eq_true, if_false]
        exact Judged.nameVerdict_holds text place
  | _ => simp [Leaf.verdict, Form.ofLeaf, Verdict.yes, Verdict.no, Form.IsValue]

theorem note_judgeTokens (run : List Token) :
    (judgeTokens lookup run).map Judged.note = noteTokens run := by
  induction run with
  | nil => rfl
  | cons t rest ih => exact congrArg (List.cons _) ih

mutual

theorem Token.verdict_holds_iff (t : Token) :
    (t.verdict lookup).holds = true ↔ t.form.IsValue lookup := by
  cases t with
  | leaf l place => exact l.verdict_holds_iff place
  | tuple items place => exact itemVerdict_holds_iff items
  | group bracket inner place =>
    cases inner with
    | nil => exact ⟨fun _ => trivial, fun _ => rfl⟩
    | cons t rest =>
      have agrees : Judged.Agrees lookup (⟨t, t.verdict lookup⟩ :: judgeTokens lookup rest) :=
        List.forall_mem_cons.mpr ⟨t.verdict_holds_iff, judgeTokens_agree rest⟩
      have judged := Judged.runVerdict_holds_iff agrees
      rw [List.map_cons, note_judgeTokens] at judged
      exact judged
termination_by structural t

theorem judgeTokens_agree (run : List Token) :
    Judged.Agrees lookup (judgeTokens lookup run) := by
  cases run with
  | nil => exact fun j hj => nomatch hj
  | cons t rest => exact List.forall_mem_cons.mpr ⟨t.verdict_holds_iff, judgeTokens_agree rest⟩
termination_by structural run

theorem itemVerdict_holds_iff (items : List (List Token)) :
    (itemVerdict lookup items).holds = true ↔ Part.AllValues lookup (itemParts items) := by
  cases items with
  | nil => exact ⟨fun _ => trivial, fun _ => rfl⟩
  | cons item rest =>
    cases item with
    | nil => cases rest <;> simp [itemVerdict, itemParts, Verdict.yes, Verdict.no, Part.AllValues]
    | cons t run =>
      have agrees : Judged.Agrees lookup (⟨t, t.verdict lookup⟩ :: judgeTokens lookup run) :=
        List.forall_mem_cons.mpr ⟨t.verdict_holds_iff, judgeTokens_agree run⟩
      have judged := Judged.runVerdict_holds_iff agrees
      rw [List.map_cons, note_judgeTokens] at judged
      exact (Verdict.holds_and _ _).trans (and_congr judged (itemVerdict_holds_iff rest))
termination_by structural items

end

/-- The verdict on a run of tokens holds exactly if the form of the run is that of a value. -/
theorem valueVerdict_holds_iff (run : List Token) :
    (valueVerdict lookup run).holds = true ↔ (Form.ofTokens run).IsValue lookup := by
  have agrees : Judged.Agrees lookup (judgeTokens lookup run) := judgeTokens_agree run
  have judged := Judged.runVerdict_holds_iff agrees
  rwa [note_judgeTokens] at judged

end ExprCheck
