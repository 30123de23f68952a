import ExprCheck.Finding
import ExprCheck.Operator
import ExprCheck.Symbol
/-! Judging runs of tokens without building expressions. A run is a value if an analysis of it
cannot fail for its form. The judgement looks names up as it goes and notes those that are not
defined; a part that is looked at twice may be noted twice. The name of a call is not looked up. -/
namespace ExprCheck

structure Verdict where
  holds : Bool
  findings : Log
deriving DecidableEq, Repr

namespace Verdict

def yes : Verdict := ⟨true, []⟩
def no : Verdict := ⟨false, []⟩

/-- Puts findings in front that were noted before. -/
def after (earlier : Log) (v : Verdict) : Verdict :=
  { v with findings := earlier ++ v.findings }

/-- Both hold; the second is looked at only if the first holds. -/
def and (v : Verdict) (w : Unit → Verdict) : Verdict :=
  if v.holds then (w ()).after v.findings else v

/-- One of them holds; the second is looked at only if the first does not hold. -/
def or (v : Verdict) (w : Unit → Verdict) : Verdict :=
  if v.holds then v else (w ()).after v.findings

end Verdict

structure Judged where
  token : Token
  verdict : Verdict

namespace Judged

def tokens (run : List Judged) : List Token :=
  run.map Judged.token

/-- Whether a name is defined; if not, the last token of its run is noted. -/
def nameVerdict (lookup : Lookup) (text : String) (last? : Option Place) : Verdict :=
  if (lookup text).isSome then .yes else ⟨false, [⟨.fault (.undefinedName text), last?⟩]⟩

/-- Whether a run is a name and parentheses whose content is empty or values. -/
def callVerdict (run : List Judged) : Verdict :=
  if isCall true (tokens run) then
    match run.getLast? with
    | some paren => paren.verdict
    | none => .no
  else .no

/-- Whether a run is a value: after a unary operator, a value; around the first binary operator, a
call or a value on its left and a value on its right; without one, a name that is defined or a
call. If the rest after a unary operator is no value, the run is looked at again as a whole. -/
def runVerdict (lookup : Lookup) (run : List Judged) : Verdict :=
  match run with
  | [] => .no
  | [t] => t.verdict
  | t :: u :: rest =>
      let signed := if t.token.unaryOp?.isSome then runVerdict lookup (u :: rest) else .no
      signed.or fun _ =>
        match _h : splitAtFirst (fun j => j.token.binaryOp?.isSome) (t :: u :: rest) with
        | some (left, _, right) =>
            ((callVerdict left).or fun _ => runVerdict lookup left).and fun _ =>
              runVerdict lookup right
        | none =>
            match dottedName? (tokens (t :: u :: rest)) with
            | some text => nameVerdict lookup text (lastPlace? (tokens (t :: u :: rest)))
            | none => callVerdict (t :: u :: rest)
termination_by run.length
decreasing_by
  · simp
  all_goals
    have hs := congrArg List.length (of_splitAtFirst_eq_some _h).1
    simp only [List.length_append, List.length_cons] at hs ⊢
    omega

end Judged

def Leaf.verdict (lookup : Lookup) (place : Place) : Leaf → Verdict
  | .str _ | .number _ => .yes
  | .name text =>
      if (Literal.ofName? text).isSome then .yes
      else if isReserved text then .no
      else Judged.nameVerdict lookup text place
  | .op _ | .dot | .comment _ | .newline | .endMarker => .no

mutual

/-- Whether a token is a value on its own: a tuple if its items are, a group if it is empty or its
content is. -/
def Token.verdict (lookup : Lookup) : Token → Verdict
  | .leaf l place => l.verdict lookup place
  | .tuple items _ => itemVerdict lookup items
  | .group _ [] _ => .yes
  | .group _ (t :: inner) _ =>
      Judged.runVerdict lookup (⟨t, t.verdict lookup⟩ :: judgeTokens lookup inner)
termination_by structural t => t

def judgeTokens (lookup : Lookup) : List Token → List Judged
  | [] => []
  | t :: rest => ⟨t, t.verdict lookup⟩ :: judgeTokens lookup rest
termination_by structural run => run

/-- Whether all items are values, apart from the empty one that a trailing comma leaves. -/
def itemVerdict (lookup : Lookup) : List (List Token) → Verdict
  | [] => .yes
  | [[]] => .yes
  | [] :: _ => .no
  | (t :: run) :: rest =>
      (Judged.runVerdict lookup (⟨t, t.verdict lookup⟩ :: judgeTokens lookup run)).and fun _ =>
        itemVerdict lookup rest
termination_by structural items => items

end

def valueVerdict (lookup : Lookup) (run : List Token) : Verdict :=
  Judged.runVerdict lookup (judgeTokens lookup run)

def typeVerdict (lookup : Lookup) (run : List Token) : Verdict :=
  let refuse (fault : Fault) : Verdict := ⟨false, [⟨.fault fault, lastPlace? run⟩]⟩
  match dottedName? run with
  | none => refuse .invalidForm
  | some name =>
      match (lookup name).map Symbol.kind with
      | some .struct => .yes
      | some _ => refuse (.notAType (unqualified name))
      | none => refuse (.undefinedName (unqualified name))

end ExprCheck
