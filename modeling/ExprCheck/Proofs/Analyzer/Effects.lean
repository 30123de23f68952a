import ExprCheck.Proofs.Analyzer.Places
import ExprCheck.Proofs.Typing
/-! Analyses with and without effects. Whether effects are tracked is asked only where a node is
made, and only its mark is told. Main statement: an analysis that tracks effects and one that does
not log the same, and give the same expression but for the effects in its marks. -/
namespace ExprCheck

def Mark.eraseEffect (m : Mark) : Mark :=
  { m with hasEffect := none }

namespace Expr

mutual

/-- The expression without the effects in its marks. -/
def eraseEffects : Expr → Expr
  | .literal mark value ty => .literal mark.eraseEffect value ty
  | .name mark text => .name mark.eraseEffect text
  | .collection mark kind items => .collection mark.eraseEffect kind (eraseEffectsOf items)
  | .dict mark => .dict mark.eraseEffect
  | .call mark callee args => .call mark.eraseEffect callee (eraseEffectsOf args)
  | .init mark callee qualified slots values =>
      .init mark.eraseEffect callee qualified slots (eraseEffectsOf values)
  | .unary mark op operand => .unary mark.eraseEffect op operand.eraseEffects
  | .binary mark op left right =>
      .binary mark.eraseEffect op left.eraseEffects right.eraseEffects
termination_by structural e => e

def eraseEffectsOf : List Expr → List Expr
  | [] => []
  | e :: rest => e.eraseEffects :: eraseEffectsOf rest
termination_by structural es => es

end

@[simp] theorem eraseEffectsOf_eq_map (es : List Expr) :
    eraseEffectsOf es = es.map eraseEffects := by
  induction es with
  | nil => rfl
  | cons e rest ih => rw [eraseEffectsOf, ih, List.map_cons]

@[simp] theorem mark_eraseEffects (e : Expr) : e.eraseEffects.mark = e.mark.eraseEffect := by
  cases e <;> rfl

@[simp] theorem isConstant_eraseEffects (e : Expr) : e.eraseEffects.isConstant = e.isConstant := by
  rw [isConstant, mark_eraseEffects]
  rfl

@[simp] theorem resultType_eraseEffects (e : Expr) : e.eraseEffects.resultType = e.resultType := by
  have own : e.eraseEffects.ownType = e.ownType := by cases e <;> rfl
  rw [resultType, resultType, mark_eraseEffects, own]
  rfl

end Expr

@[simp] theorem Mark.eraseEffect_settle (track : Bool) (declared : ResultType)
    (isConstant effect : Bool) :
    (Mark.settle track declared isConstant effect).eraseEffect =
      .settle false declared isConstant effect :=
  rfl

theorem Mark.eraseEffect_inherit (track : Bool) (declared : ResultType) (children : List Expr) :
    (Mark.inherit track declared children).eraseEffect =
      .inherit false declared (children.map Expr.eraseEffects) := by
  have constant : (children.map Expr.eraseEffects).all Expr.isConstant =
      children.all Expr.isConstant := by
    rw [List.all_map]
    exact congrArg children.all (funext Expr.isConstant_eraseEffects)
  rw [inherit, inherit, constant]
  rfl

theorem Expr.retracks_eraseEffects (track : Bool) : Retracks track false eraseEffects where
  type := resultType_eraseEffects
  literal _ := rfl
  name _ _ := rfl
  collection kind items := by simp [mkCollection, eraseEffects, Mark.eraseEffect_inherit]
  dict := rfl
  call callee args ty := by simp [mkCall, eraseEffects]
  init callee qualified slots values := by simp [mkInit, eraseEffects]
  unary op operand ty := by simp [mkUnary, eraseEffects, Mark.eraseEffect_inherit]
  binary op left right ty := by simp [mkBinary, eraseEffects, Mark.eraseEffect_inherit]

namespace Analysis

variable {α β : Type} {g : α → β}

theorem mirrors_same_iff {m : Analysis α} {m' : Analysis β} :
    Mirrors id g m m' ↔ ∀ log, m' log = ((m log).1.map g, (m log).2) := by
  have finding : Finding.mapPlaces id = id := by
    funext found
    simp [Finding.mapPlaces]
  have same (log : Log) : log.mapPlaces id = log := by
    rw [Log.mapPlaces, finding, List.map_id]
  simp only [Mirrors, same]

end Analysis

namespace Analyzer

/-- Over the same symbols, and whatever was logged before, an analysis with effects and one without
log the same, and give nothing both or the same expression but for its effects. -/
theorem analyze_erases_effects (lookup : Lookup) (expected? : Option Ty) (run : List Token)
    (log : Log) :
    let tracked := (Analyzer.mk lookup true).analyze expected? run log
    let plain := (Analyzer.mk lookup false).analyze expected? run log
    plain.2 = tracked.2 ∧
      plain.1.map Expr.eraseEffects = tracked.1.map Expr.eraseEffects := by
  let erased := (Analyzer.mk lookup false).analyze expected? (run.map (Token.mapPlaces id)) log
  have erases (track : Bool) :
      erased = (((Analyzer.mk lookup track).analyze expected? run log).1.map Expr.eraseEffects,
        ((Analyzer.mk lookup track).analyze expected? run log).2) := by
    have mirrors := analyze_retracked (a := ⟨lookup, track⟩) (f := id)
      (Expr.retracks_eraseEffects track) expected? run
    exact Analysis.mirrors_same_iff.mp mirrors log
  -- without effects, both are one and the same analysis
  obtain ⟨sameResult, sameLog⟩ := Prod.mk.inj ((erases false).symm.trans (erases true))
  exact ⟨sameLog, sameResult⟩

end Analyzer

end ExprCheck
