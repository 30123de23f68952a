import ExprCheck.Proofs.Dotted
import ExprCheck.Proofs.Token.Levels
/-! The tokens of a source. At every depth, a name holds no dot and a tuple has a comma, so it has
at least two items. Main statement: all tokens that stand anywhere in the tokens of a source are
such. -/
namespace ExprCheck

namespace Token

inductive Regular : Token → Prop
  | leaf {l : Leaf} {place : Place} (dotless : ∀ text, l = .name text → '.' ∉ text.toList) :
      Regular (.leaf l place)
  | tuple {items : List (List Token)} {place : Place} (several : 2 ≤ items.length)
      (parts : ∀ item ∈ items, ∀ t ∈ item, Regular t) : Regular (.tuple items place)
  | group {bracket : Bracket} {inner : List Token} {place : Place}
      (parts : ∀ t ∈ inner, Regular t) : Regular (.group bracket inner place)

/-- The token stands in the other one, at any depth. -/
inductive Within (t : Token) : Token → Prop
  | self : Within t t
  | item {items : List (List Token)} {item : List Token} {place : Place} {u : Token}
      (among : item ∈ items) (part : u ∈ item) (inside : Within t u) : Within t (.tuple items place)
  | inner {bracket : Bracket} {inner : List Token} {place : Place} {u : Token} (part : u ∈ inner)
      (inside : Within t u) : Within t (.group bracket inner place)

theorem Regular.within {t u : Token} (h : u.Regular) (inside : t.Within u) : t.Regular := by
  induction inside with
  | self => exact h
  | item among part inside ih =>
    cases h with
    | tuple several parts => exact ih (parts _ among _ part)
  | inner part inside ih =>
    cases h with
    | group parts => exact ih (parts _ part)

end Token

theorem regular_finish {l : Level} (h : l.All Token.Regular) : ∀ t ∈ l.finish, t.Regular := by
  rcases h.finish with ⟨-, same⟩ | ⟨place, several, same, parts⟩
  · exact same ▸ h.current
  · exact same ▸ List.forall_mem_singleton.mpr (.tuple several parts)

theorem groups_regular : Groups Lexeme.IsScanned Token.Regular where
  leaf value l place scanned kept := by
    refine .leaf fun text named => ?_
    subst named
    cases value with
    | name text =>
      cases kept
      exact Lexeme.dotless_of_isScanned scanned
    | _ => cases kept
  group _ _ _ separated items current := .group (regular_finish ⟨separated, items, current⟩)

theorem regular_of_matchBrackets {ls : List (Spanned Lexeme)} {eof : Nat} {ts : List Token}
    (scanned : ∀ l ∈ ls, l.value.IsScanned) (accepted : matchBrackets ls eof = .ok ts) :
    ∀ t ∈ ts, t.Regular := by
  obtain ⟨done, last, place, all, allLast, rfl⟩ :=
    levels_of_matchBrackets groups_regular (fun l mem _ => scanned l mem) accepted
  have mark {l : Leaf} {place : Place} (nameless : ∀ text, l ≠ .name text) :
      (Token.leaf l place).Regular := .leaf fun text named => absurd named (nameless text)
  refine List.forall_mem_append.mpr ⟨List.forall_mem_append.mpr ⟨?_, regular_finish allLast⟩,
    List.forall_mem_singleton.mpr (mark nofun)⟩
  intro t mem
  obtain ⟨x, among, part⟩ := List.mem_flatMap.mp mem
  rcases List.mem_append.mp part with inside | feed
  · exact regular_finish (all x among) t inside
  · exact List.mem_singleton.mp feed ▸ mark nofun

/-- All tokens that stand in those of a source are regular. -/
theorem regular_of_tokenize {source : String} {ts : List Token} (read : tokenize source = .ok ts)
    {t : Token} (stands : ∃ u ∈ ts, t.Within u) : t.Regular := by
  obtain ⟨u, mem, inside⟩ := stands
  obtain ⟨ls, scanned, accepted⟩ := bind_eq_ok_iff.mp read
  have regular := regular_of_matchBrackets (Lexeme.isScanned_of_scan scanned) accepted u mem
  exact regular.within inside

end ExprCheck
