import ExprCheck.Proofs.Lexeme.Alone
/-! Sources with spaces for their line feeds. Behind a line feed a lexeme stops as it does behind a
space, unless it is a comment. Main statement: without comments, the source is scanned to the same
lexemes at the same bytes, but for the line feeds. -/
namespace ExprCheck

namespace Lexeme

def spaceFor (c : Char) : Char :=
  if c = '\n' then ' ' else c

theorem map_spaceFor {cs : List Char} (inline : '\n' ∉ cs) : cs.map spaceFor = cs := by
  have each : ∀ c ∈ cs, spaceFor c = c := fun c mem => if_neg (ne_of_mem_of_not_mem mem inline)
  rw [List.map_congr_left each, List.map_id']

theorem start_spaced {first : Char} {cs : List Char} {make : String → Lexeme} {more : Nat}
    (starts : start first cs = .lexeme make more) (noComment : first ≠ '#') :
    start first (cs.map spaceFor) = .lexeme make more := by
  by_cases feed : '\n' ∈ cs
  · obtain ⟨line, rest, rfl, inline⟩ := List.eq_append_cons_of_mem feed
    rw [start_feed] at starts
    have within := start_within first line
    rw [starts] at within
    -- A space stops what the line feed has stopped.
    have space : ' ' ∈ stops := by decide
    have cut := start_cut starts noComment within (atStop_cons space (rest.map spaceFor))
    rw [List.take_length] at cut
    rw [List.map_append, map_spaceFor inline]
    exact cut
  · rw [map_spaceFor feed, starts]

theorem Scanned.spaced {offset : Nat} {cs : List Char} {ls : List (Spanned Lexeme)}
    (scanned : Scanned offset cs ls) (noComment : ∀ l ∈ ls, ∀ text, l.value ≠ comment text) :
    Scanned offset (cs.map spaceFor) (ls.filter fun l => l.value ≠ newline) := by
  induction scanned with
  | done offset => exact .done offset
  | @blank offset first cs ls skipped below ih =>
    have same : spaceFor first = first := if_neg (by rintro rfl; cases skipped)
    rw [List.map_cons, same]
    exact .blank skipped (ih noComment)
  | @lexeme offset first cs ls make more kept starts below ih =>
    obtain ⟨here, later⟩ := List.forall_mem_cons.mp noComment
    have tail := ih later
    rw [List.map_drop] at tail
    by_cases feed : first = '\n'
    · subst feed
      rw [start_newline] at starts
      cases starts
      exact .blank rfl tail
    · have other := make_ne_newline starts feed (String.ofList (first :: cs.take more))
      have noHash : first ≠ '#' := by
        rintro rfl
        rw [start_hash] at starts
        cases starts
        exact here _ rfl
      have inline : '\n' ∉ cs.take (start first cs).more := (start_onLine first).inline cs
      rw [starts] at inline
      have taken : (cs.map spaceFor).take more = cs.take more := by
        rw [← List.map_take]
        exact map_spaceFor inline
      have same : spaceFor first = first := if_neg feed
      rw [List.filter_cons_of_pos (by simpa using other), List.map_cons, same]
      have whole := lexeme kept (start_spaced starts noHash) (taken.symm ▸ tail)
      rwa [taken] at whole

end Lexeme

/-- The text on one line, with a space for every line feed. -/
def spaced (source : String) : String :=
  source.map Lexeme.spaceFor

end ExprCheck
