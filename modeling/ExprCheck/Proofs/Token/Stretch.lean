import ExprCheck.Proofs.Atom
/-! Stretches of runs. What is read as one operand stands between operators, or at an end of its
run. A run may be a whole line, an item between commas or the content of brackets. -/
namespace ExprCheck

/-- The piece stands in the run in one stretch, with an operator or nothing on each side. -/
def Stretch (piece run : List Token) : Prop :=
  ∃ before after, run = before ++ piece ++ after ∧
    (∀ t ∈ before.getLast?, ¬t.IsPlain) ∧ ∀ t ∈ after.head?, ¬t.IsPlain

/-- The piece is a stretch of the run or of a run in one of its tokens, at any depth. -/
inductive Occurs (piece : List Token) : List Token → Prop
  | here {run : List Token} (stretch : Stretch piece run) : Occurs piece run
  | item {items : List (List Token)} {place : Place} {item run : List Token}
      (among : .tuple items place ∈ run) (part : item ∈ items) (inside : Occurs piece item) :
      Occurs piece run
  | inner {bracket : Bracket} {content : List Token} {place : Place} {run : List Token}
      (among : .group bracket content place ∈ run) (inside : Occurs piece content) :
      Occurs piece run

namespace Stretch

variable {piece part run : List Token} {t : Token}

theorem front {after : List Token} (stop : ∀ t ∈ after.head?, ¬t.IsPlain) :
    Stretch piece (piece ++ after) :=
  ⟨[], after, rfl, nofun, stop⟩

theorem back {before : List Token} (start : ∀ t ∈ before.getLast?, ¬t.IsPlain) :
    Stretch piece (before ++ piece) :=
  ⟨before, [], (List.append_nil _).symm, start, nofun⟩

theorem refl (run : List Token) : Stretch run run :=
  ⟨[], [], by simp, nofun, nofun⟩

theorem trans (h : Stretch piece part) (h' : Stretch part run) : Stretch piece run := by
  obtain ⟨before, after, rfl, start, stop⟩ := h
  obtain ⟨before', after', rfl, start', stop'⟩ := h'
  refine ⟨before' ++ before, after ++ after', by simp, ?_, ?_⟩
  · cases last : before.getLast? with
    | none =>
      rw [List.getLast?_eq_none_iff.mp last, List.append_nil]
      exact start'
    | some x =>
      rw [List.getLast?_append, last]
      rwa [last] at start
  · cases after with
    | nil => exact stop'
    | cons x after => exact stop

theorem sides (left right : List Token) (operator : ¬t.IsPlain) :
    Stretch left (left ++ t :: right) ∧ Stretch right (left ++ t :: right) := by
  constructor
  · exact front (by simpa using operator)
  · rw [List.append_cons]
    exact back (by simpa using operator)

theorem subset (h : Stretch piece run) : piece ⊆ run := by
  obtain ⟨before, after, rfl, -, -⟩ := h
  intro t mem
  simp [mem]

end Stretch

theorem Occurs.of_stretch {piece part run : List Token} (h : Occurs piece part)
    (stretch : Stretch part run) : Occurs piece run := by
  cases h with
  | here inside => exact .here (inside.trans stretch)
  | item among item inside => exact .item (stretch.subset among) item inside
  | inner among inside => exact .inner (stretch.subset among) inside

end ExprCheck
