import ExprCheck.Proofs.Token.Flat
import ExprCheck.Proofs.Token.Regular
/-! What tokens are made of. `Token.MadeOf` takes a sequence of lexemes apart as the tokens made of
it: a leaf is one lexeme, a group the lexemes from its opening to its closing bracket, and a tuple
those of its items and all commas between them. What it says of a token it says of every token in
it. -/
namespace ExprCheck

section Made

variable (R : Token → List (Spanned Lexeme) → Prop)

/-- The lexemes are those of the tokens, one token after the other. -/
inductive InTurn : List Token → List (Spanned Lexeme) → Prop
  | nil : InTurn [] []
  | cons {t : Token} {run : List Token} {own ls : List (Spanned Lexeme)} (first : R t own)
      (rest : InTurn run ls) : InTurn (t :: run) (own ++ ls)

/-- The lexemes are those of the items, with a comma in front of each. -/
inductive BehindCommas : List (List Token) → List (Spanned Lexeme) → Prop
  | nil : BehindCommas [] []
  | snoc {items : List (List Token)} {item : List Token} {c : Spanned Lexeme}
      {ms ls : List (Spanned Lexeme)} (before : BehindCommas items ms) (comma : c.value = .comma)
      (last : InTurn R item ls) : BehindCommas (items ++ [item]) (ms ++ c :: ls)

end Made

/-- The token is made of these lexemes. `P` holds of it, and of every token in it with the lexemes
that it is made of. -/
inductive Token.MadeOf (P : Token → List (Spanned Lexeme) → Prop) :
    Token → List (Spanned Lexeme) → Prop
  | leaf {l : Leaf} {value : Lexeme} {span : Span} {place : Place} (same : l.lexeme? = some value)
      (holds : P (.leaf l place) [⟨value, span⟩]) : MadeOf P (.leaf l place) [⟨value, span⟩]
  | tuple {first : List Token} {items : List (List Token)} {place : Place}
      {ls ms : List (Spanned Lexeme)} (start : InTurn (MadeOf P) first ls)
      (rest : BehindCommas (MadeOf P) items ms)
      (holds : P (.tuple (first :: items) place) (ls ++ ms)) :
      MadeOf P (.tuple (first :: items) place) (ls ++ ms)
  | group {bracket : Bracket} {inner : List Token} {place : Place} {o c : Spanned Lexeme}
      {ls : List (Spanned Lexeme)} (opens : o.value = .opening bracket)
      (closes : c.value = .closing bracket) (content : InTurn (MadeOf P) inner ls)
      (holds : P (.group bracket inner place) (o :: (ls ++ [c]))) :
      MadeOf P (.group bracket inner place) (o :: (ls ++ [c]))

namespace InTurn

variable {R S : Token → List (Spanned Lexeme) → Prop} {run more : List Token}
  {ls ms : List (Spanned Lexeme)}

theorem imp (h : InTurn R run ls) (weaker : ∀ t own, R t own → S t own) : InTurn S run ls := by
  induction h with
  | nil => exact .nil
  | cons first rest ih => exact .cons (weaker _ _ first) ih

theorem singleton {t : Token} (h : R t ls) : InTurn R [t] ls := by
  have whole := cons h nil
  rwa [List.append_nil] at whole

theorem append (h : InTurn R run ls) (h' : InTurn R more ms) :
    InTurn R (run ++ more) (ls ++ ms) := by
  induction h with
  | nil => exact h'
  | cons first rest ih =>
    rw [List.cons_append, List.append_assoc]
    exact .cons first ih

theorem sublist_of_mem (h : InTurn R run ls) : ∀ t ∈ run, ∃ own, own.Sublist ls ∧ R t own := by
  induction h with
  | nil => exact nofun
  | cons first rest ih =>
    refine List.forall_mem_cons.mpr ⟨⟨_, List.sublist_append_left .., first⟩, fun t mem => ?_⟩
    obtain ⟨own, part, holds⟩ := ih t mem
    exact ⟨own, part.trans (List.sublist_append_right ..), holds⟩

theorem of_mem (h : InTurn R run ls) : ∀ t ∈ run, ∃ own, R t own := by
  intro t mem
  obtain ⟨own, -, holds⟩ := h.sublist_of_mem t mem
  exact ⟨own, holds⟩

end InTurn

namespace BehindCommas

variable {R S : Token → List (Spanned Lexeme) → Prop} {items : List (List Token)}
  {ms : List (Spanned Lexeme)}

theorem imp (h : BehindCommas R items ms) (weaker : ∀ t own, R t own → S t own) :
    BehindCommas S items ms := by
  induction h with
  | nil => exact .nil
  | snoc before comma last ih => exact .snoc ih comma (last.imp weaker)

theorem eq_nil (h : BehindCommas R [] ms) : ms = [] := by
  generalize none : ([] : List (List Token)) = all at h
  cases h with
  | nil => rfl
  | snoc => simp at none

theorem of_snoc {item : List Token} (h : BehindCommas R (items ++ [item]) ms) :
    ∃ before c ls, ms = before ++ c :: ls ∧ BehindCommas R items before ∧ c.value = .comma ∧
      InTurn R item ls := by
  generalize whole : items ++ [item] = all at h
  cases h with
  | nil => simp at whole
  | snoc before comma last =>
    obtain ⟨rfl, rfl⟩ := List.append_singleton_inj.mp whole
    exact ⟨_, _, _, rfl, before, comma, last⟩

theorem push {item : List Token} {t : Token} {own : List (Spanned Lexeme)}
    (h : BehindCommas R (items ++ [item]) ms) (holds : R t own) :
    BehindCommas R (items ++ [item ++ [t]]) (ms ++ own) := by
  obtain ⟨before, c, ls, rfl, behind, comma, last⟩ := h.of_snoc
  rw [List.append_assoc, List.cons_append]
  exact .snoc behind comma (last.append (.singleton holds))

theorem inTurn (h : BehindCommas R items ms) :
    ∃ front commas inner, ms = front ++ commas ∧ inner.Sublist front ∧
      InTurn R items.flatten inner ∧
      commas.length = (items.reverse.takeWhile List.isEmpty).length := by
  induction h with
  | nil => exact ⟨[], [], [], rfl, .slnil, .nil, rfl⟩
  | @snoc items item c ms ls before comma last ih =>
    obtain ⟨front, commas, inner, rfl, part, behind, length⟩ := ih
    cases item with
    | nil =>
      cases last
      exact ⟨front, commas ++ [c], inner, by simp, part, by simpa using behind, by simp [length]⟩
    | cons t rest =>
      refine ⟨_, [], inner ++ ls, (List.append_nil _).symm, ?_, ?_, by simp⟩
      · exact (part.trans (List.sublist_append_left ..)).append (List.sublist_cons_self ..)
      · rw [List.flatten_append, List.flatten_singleton]
        exact behind.append last

end BehindCommas

namespace Token

/-- The tokens that stand side by side in a token. Those of a tuple are the tokens of all items. -/
def parts : Token → List Token
  | leaf .. => []
  | tuple items _ => items.flatten
  | group _ inner _ => inner

theorem Within.outwards {t u : Token} {motive : Token → Prop} (inside : t.Within u)
    (self : motive t) (step : ∀ v w, v ∈ w.parts → motive v → motive w) : motive u := by
  induction inside with
  | self => exact self
  | item among part inside ih => exact step _ _ (List.mem_flatten_of_mem among part) ih
  | inner part inside ih => exact step _ _ part ih

namespace MadeOf

variable {P : Token → List (Spanned Lexeme) → Prop} {t u : Token} {own : List (Spanned Lexeme)}

theorem holds (h : t.MadeOf P own) : P t own := by
  cases h <;> assumption

theorem inTurn_parts (h : t.MadeOf P own) :
    ∃ inner, inner.Sublist own ∧ InTurn (MadeOf P) t.parts inner := by
  cases h with
  | leaf same holds => exact ⟨[], List.nil_sublist _, .nil⟩
  | tuple start rest holds =>
    obtain ⟨front, commas, inner, rfl, part, behind, -⟩ := rest.inTurn
    refine ⟨_, ?_, start.append behind⟩
    exact (List.Sublist.refl _).append (part.trans (List.sublist_append_left ..))
  | group opens closes content holds =>
    exact ⟨_, (List.sublist_append_left ..).cons _, content⟩

theorem of_within (h : u.MadeOf P own) (inside : t.Within u) :
    ∃ part, part.Sublist own ∧ t.MadeOf P part := by
  refine inside.outwards (motive := fun u => ∀ own, u.MadeOf P own →
    ∃ part, part.Sublist own ∧ t.MadeOf P part) (fun own made => ⟨own, .refl _, made⟩) ?_ own h
  intro v w part ih own made
  obtain ⟨inner, kept, content⟩ := made.inTurn_parts
  obtain ⟨mid, among, madeMid⟩ := content.sublist_of_mem v part
  obtain ⟨few, fewer, madeFew⟩ := ih mid madeMid
  exact ⟨few, fewer.trans (among.trans kept), madeFew⟩

/-- What is said of a token that is made of lexemes is said of all tokens in it. -/
theorem within (h : u.MadeOf P own) (inside : t.Within u) : ∃ part, P t part := by
  obtain ⟨part, -, made⟩ := h.of_within inside
  exact ⟨part, made.holds⟩

end MadeOf

end Token

end ExprCheck
