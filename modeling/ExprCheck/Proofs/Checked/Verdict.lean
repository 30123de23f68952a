import ExprCheck.Proofs.Checked.Calls
/-! Judging by positions. A judge that works on the tokens themselves cuts a run at its first binary
operator, by the position of it, and looks at a call by the position of its parentheses. Main
statement: neither a judge nor an analyzer asks for a position that is out of range, whatever the
run; and no climber finds its queue of operands empty. -/
namespace ExprCheck

def Verdict.analysis (v : Verdict) : Analysis Bool :=
  fun log => (some v.holds, log ++ v.findings)

namespace Checked

/-- The second is asked only if the first holds. -/
def both (m m' : Checked Bool) : Checked Bool :=
  m >>= fun b => if b then m' else pure false

/-- The second is asked only if the first does not hold. -/
def either (m m' : Checked Bool) : Checked Bool :=
  m >>= fun b => if b then pure true else m'

theorem Below.both {m m' n n' : Checked Bool} (h : m.Below n) (h' : m'.Below n') :
    (m.both m').Below (n.both n') := by
  refine h.bind fun b => ?_
  cases b with
  | true => exact h'
  | false => exact .refl _

theorem Below.either {m m' n n' : Checked Bool} (h : m.Below n) (h' : m'.Below n') :
    (m.either m').Below (n.either n') := by
  refine h.bind fun b => ?_
  cases b with
  | true => exact .refl _
  | false => exact h'

end Checked

namespace Verdict

open Checked

theorem checked_yes : yes.analysis.checked = pure true := by
  funext log
  exact congrArg (Ending.done _) (List.append_nil log)

theorem checked_no : no.analysis.checked = pure false := by
  funext log
  exact congrArg (Ending.done _) (List.append_nil log)

theorem checked_and (v : Verdict) (w : Unit → Verdict) :
    (v.and w).analysis.checked = v.analysis.checked.both (w ()).analysis.checked := by
  funext log
  change _ = Checked.bind v.analysis.checked
    (fun b => if b then (w ()).analysis.checked else pure false) log
  unfold Checked.bind Analysis.checked analysis
  cases holds : v.holds with
  | true => simp [and_of_holds holds, Verdict.after, List.append_assoc]
  | false =>
    rw [and_of_fails holds, holds]
    rfl

theorem checked_or (v : Verdict) (w : Unit → Verdict) :
    (v.or w).analysis.checked = v.analysis.checked.either (w ()).analysis.checked := by
  funext log
  change _ = Checked.bind v.analysis.checked
    (fun b => if b then pure true else (w ()).analysis.checked) log
  unfold Checked.bind Analysis.checked analysis
  cases holds : v.holds with
  | true =>
    rw [or_of_holds holds, holds]
    rfl
  | false => simp [or_of_fails holds, Verdict.after, List.append_assoc]

end Verdict

namespace Judge

open Checked Verdict

/-! ## The procedures -/

section Procedures

variable (lookup : Lookup) (ask : List Token → Checked Bool)

/-- Whether all runs are values, up to the first that is none. -/
def itemsTask : List (List Token) → Checked Bool
  | [] => pure true
  | item :: rest => (ask item).both (itemsTask rest)

def tokenTask : Token → Checked Bool
  | .leaf l place => (l.verdict lookup place).analysis.checked
  | .tuple items _ => itemsTask ask (Grammar.trimmed items)
  | .group _ inner _ => if inner.isEmpty then pure true else ask inner

def argumentsTask : List Token → Checked Bool
  | [] => pure true
  | [.tuple items _] => itemsTask ask (Grammar.trimmed items)
  | run => ask run

/-- Whether a run is a call whose arguments are values. -/
def callTask (run : List Token) : Checked Bool := do
  if ← nameCall true run then
    match run.getLast? with
    | some (.group _ inner _) => argumentsTask ask inner
    | _ => pure false
  else pure false

/-- Whether a run is a value without the sign that it may start with. -/
def unsignedTask (run : List Token) : Checked Bool :=
  match run.findIdx? fun t => t.binaryOp?.isSome with
  | some position => do
      let left ← slice run 0 position
      let right ← slice run (position + 1) run.length
      ((callTask ask left).either (ask left)).both (ask right)
  | none =>
      match dottedName? run with
      | some name => (Judged.nameVerdict lookup name (lastPlace? run)).analysis.checked
      | none => callTask ask run

end Procedures

def procedure (lookup : Lookup) : Procedure (List Token) Bool := fun ask run =>
  match run with
  | [] => pure false
  | [t] => tokenTask lookup ask t
  | t :: u :: rest =>
      either (if t.unaryOp?.isSome then ask (u :: rest) else pure false)
        (unsignedTask lookup ask (t :: u :: rest))

def answer (lookup : Lookup) (run : List Token) : Analysis Bool :=
  (valueVerdict lookup run).analysis

/-! ## The answers satisfy the procedures -/

variable {lookup : Lookup}

def recalled (lookup : Lookup) (run : List Token) : Checked Bool :=
  (answer lookup run).checked

theorem itemsTask_recalled (items : List (List Token)) :
    itemsTask (recalled lookup) (Grammar.trimmed items) =
      (itemVerdict lookup items).analysis.checked := by
  induction items with
  | nil => exact checked_yes.symm
  | cons item rest ih =>
    cases rest with
    | nil =>
      cases item with
      | nil => exact checked_yes.symm
      | cons t run =>
        rw [itemVerdict_cons _ _ (List.cons_ne_nil t run), checked_and]
        exact congrArg (both _) checked_yes.symm
    | cons next rest =>
      rw [Grammar.trimmed_cons, itemsTask, ih]
      cases item with
      | nil =>
        rw [itemVerdict_nil_cons, if_neg (List.cons_ne_nil next rest), recalled, answer,
          valueVerdict_nil, checked_no]
        rfl
      | cons t run =>
        rw [itemVerdict_cons _ _ (List.cons_ne_nil t run), checked_and]
        rfl

theorem tokenTask_recalled (t : Token) :
    tokenTask lookup (recalled lookup) t = (t.verdict lookup).analysis.checked := by
  cases t with
  | leaf l place => rfl
  | tuple items place => exact itemsTask_recalled items
  | group bracket inner place =>
    rw [verdict_group]
    cases inner with
    | nil => exact checked_yes.symm
    | cons t rest => rfl

theorem argumentsTask_recalled (inner : List Token) :
    argumentsTask (recalled lookup) inner =
      (if inner = [] then Verdict.yes else valueVerdict lookup inner).analysis.checked := by
  unfold argumentsTask
  split
  · exact checked_yes.symm
  · rw [itemsTask_recalled, if_neg (List.cons_ne_nil _ _), valueVerdict_single]
    rfl
  · rename_i some other
    rw [if_neg some]
    rfl

theorem callTask_append (ask : List Token → Checked Bool) {head : List Token} {name : String}
    (named : dottedName? head = some name) (inner : List Token) (place : Place) :
    callTask ask (head ++ [.group .paren inner place]) = argumentsTask ask inner := by
  unfold callTask
  rw [nameCall_eq, (callVerdict_append (fun _ => none) named inner place).1]
  simp

theorem callTask_of_not_isCall (ask : List Token → Checked Bool) {run : List Token}
    (call : isCall true run = false) : callTask ask run = pure false := by
  unfold callTask
  rw [nameCall_eq, call]
  rfl

theorem callTask_recalled (run : List Token) :
    callTask (recalled lookup) run = (callVerdict lookup run).analysis.checked := by
  cases call : isCall true run with
  | false => rw [callTask_of_not_isCall _ call, callVerdict_of_not_isCall call, checked_no]
  | true =>
    obtain ⟨head, name, inner, place, rfl, named⟩ := exists_of_isCall call
    rw [callTask_append _ named, argumentsTask_recalled, (callVerdict_append lookup named _ _).2]

theorem unsignedTask_eq (ask : List Token → Checked Bool) (run : List Token) :
    unsignedTask lookup ask run =
      match splitAtFirst (fun t => t.binaryOp?.isSome) run with
      | some (left, _, right) => ((callTask ask left).either (ask left)).both (ask right)
      | none =>
          match dottedName? run with
          | some name => (Judged.nameVerdict lookup name (lastPlace? run)).analysis.checked
          | none => callTask ask run := by
  unfold unsignedTask
  rw [findIdx?_eq_splitAtFirst]
  cases cut : splitAtFirst (fun t : Token => t.binaryOp?.isSome) run with
  | none => rfl
  | some parts =>
    obtain ⟨left, m, right⟩ := parts
    obtain ⟨rfl, -, -⟩ := of_splitAtFirst_eq_some cut
    have behind : slice (left ++ m :: right) (left.length + 1) (left ++ m :: right).length =
        pure right := by
      simpa using slice_back (left ++ [m]) right
    simp only [Option.map_some, slice_front, behind, pure_bind]

theorem unsignedTask_recalled (run : List Token) :
    unsignedTask lookup (recalled lookup) run =
      (match splitAtFirst (fun t : Token => t.binaryOp?.isSome) run with
        | some (left, _, right) =>
            ((callVerdict lookup left).or fun _ => valueVerdict lookup left).and fun _ =>
              valueVerdict lookup right
        | none =>
            match dottedName? run with
            | some text => Judged.nameVerdict lookup text (lastPlace? run)
            | none => callVerdict lookup run).analysis.checked := by
  rw [unsignedTask_eq]
  cases splitAtFirst (fun t : Token => t.binaryOp?.isSome) run with
  | some parts =>
    obtain ⟨left, m, right⟩ := parts
    simp only [callTask_recalled, checked_and, checked_or]
    rfl
  | none =>
    cases dottedName? run with
    | some text => rfl
    | none => exact callTask_recalled run

theorem satisfies (lookup : Lookup) : Procedure.Satisfies (answer lookup) (procedure lookup) := by
  intro run
  match run with
  | [] =>
    rw [answer, valueVerdict_nil, checked_no]
    rfl
  | [t] =>
    rw [answer, valueVerdict_single]
    exact tokenTask_recalled t
  | t :: u :: rest =>
    rw [answer, valueVerdict_cons, checked_or]
    refine congrArg₂ either ?_ (unsignedTask_recalled (t :: u :: rest))
    cases t.unaryOp?.isSome with
    | true => rfl
    | false => exact checked_no.symm

/-! ## Calls -/

section Calls

variable {f g : List Token → Checked Bool} {run : List Token}

theorem itemsTask_below {items : List (List Token)}
    (below : ∀ item ∈ items, (f item).Below (g item)) :
    (itemsTask f items).Below (itemsTask g items) := by
  induction items with
  | nil => exact .refl _
  | cons item rest ih =>
    obtain ⟨here, behind⟩ := List.forall_mem_cons.mp below
    exact here.both (ih behind)

theorem tokenTask_below (t : Token) (below : ∀ part, sizeOf part < sizeOf [t] → (f part).Below (g part)) :
    (tokenTask lookup f t).Below (tokenTask lookup g t) := by
  cases t with
  | leaf l place => exact .refl _
  | tuple items place =>
    exact itemsTask_below fun item mem => below _ (sizeOf_item (Grammar.mem_of_mem_trimmed mem) place)
  | group bracket inner place =>
    change Below (if inner.isEmpty then pure true else f inner)
      (if inner.isEmpty then pure true else g inner)
    split
    · exact .refl _
    · exact below _ (sizeOf_inner (.head _))

theorem callTask_below {part : List Token} (within : sizeOf part ≤ sizeOf run)
    (below : ∀ part, sizeOf part < sizeOf run → (f part).Below (g part)) :
    (callTask f part).Below (callTask g part) := by
  cases call : isCall true part with
  | false =>
    rw [callTask_of_not_isCall f call, callTask_of_not_isCall g call]
    exact .refl _
  | true =>
    obtain ⟨head, name, inner, place, rfl, named⟩ := exists_of_isCall call
    rw [callTask_append f named, callTask_append g named]
    have inside : sizeOf inner < sizeOf run :=
      Nat.lt_of_lt_of_le (sizeOf_inner (List.mem_append_right _ (.head _))) within
    unfold argumentsTask
    split
    · exact .refl _
    · refine itemsTask_below fun item mem => below _ ?_
      exact Nat.lt_trans (sizeOf_item (Grammar.mem_of_mem_trimmed mem) _) inside
    · exact below _ inside

theorem unsignedTask_below (below : ∀ part, sizeOf part < sizeOf run → (f part).Below (g part)) :
    (unsignedTask lookup f run).Below (unsignedTask lookup g run) := by
  rw [unsignedTask_eq, unsignedTask_eq]
  split
  · rename_i left m right cut
    obtain ⟨whole, -, -⟩ := of_splitAtFirst_eq_some cut
    obtain ⟨smaller, smaller'⟩ := sizeOf_sides whole
    have first := (callTask_below (Nat.le_of_lt smaller) below).either (below left smaller)
    exact first.both (below right smaller')
  · split
    · exact .refl _
    · exact callTask_below (Nat.le_refl _) below

end Calls

theorem callsOnly (lookup : Lookup) :
    (procedure lookup).CallsOnly fun run part => sizeOf part < sizeOf run := by
  intro f g run below
  match run with
  | [] => exact .refl _
  | [t] => exact tokenTask_below t below
  | t :: u :: rest =>
    have signed : (if t.unaryOp?.isSome then f (u :: rest) else pure false).Below
        (if t.unaryOp?.isSome then g (u :: rest) else pure false) := by
      split
      · exact below _ (sizeOf_sides (List.nil_append _).symm).2
      · exact .refl _
    exact signed.either (unsignedTask_below below)

theorem safe (lookup : Lookup) : Procedure.Safe (answer lookup) (procedure lookup) :=
  Procedure.safe (callsOnly lookup) (satisfies lookup) sizeOf fun _ _ smaller => smaller

end Judge

/-- Whatever an analyzer or a judge is asked for, and with whatever symbols, no position is out of
range and no climber finds its queue of operands empty; and the answer comes, and is the one that
the analysis of the form or the verdict gives. So it is for whether a run is a call. -/
theorem positions_in_range (a : Analyzer) :
    Procedure.Safe a.answer a.procedure ∧
      Procedure.Safe (Judge.answer a.lookup) (Judge.procedure a.lookup) ∧
      ∀ strict run, Checked.nameCall strict run = pure (isCall strict run) :=
  ⟨a.safe, Judge.safe a.lookup, Checked.nameCall_eq⟩

end ExprCheck
