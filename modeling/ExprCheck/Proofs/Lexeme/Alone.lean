import ExprCheck.Proofs.Lexeme.Feed
/-! Lexemes that are read from their own text. Main statement: every lexeme of a source, but for
comments and line feeds, is read back from what shows it, if nothing follows that could go on with
it. So a text that is put together from such lexemes and separators is scanned to them. -/
namespace ExprCheck.Lexeme

/-- The lexeme is read back from what shows it. -/
def Alone (l : Lexeme) : Prop :=
  ∃ first cs make, l.display.toList = first :: cs ∧ isBlank first = false ∧ first ≠ '#' ∧
    start first cs = .lexeme make cs.length ∧ make l.display = l

theorem start_punctuation {c : Char} {l : Lexeme} (found : punctuation? c = some l)
    (cs : List Char) : start c cs = .lexeme (fun _ => l) 0 := by
  unfold punctuation? at found
  split at found <;> cases found <;> cases cs <;> rfl

theorem display_punctuation {c : Char} {l : Lexeme} (found : punctuation? c = some l)
    (other : c ≠ '\n') : l.display = String.ofList [c] := by
  unfold punctuation? at found
  split at found
  case h_9 => exact absurd rfl other
  all_goals cases found <;> rfl

theorem start_hash (cs : List Char) :
    start '#' cs = .lexeme comment (runLength (· != '\n') cs) := by
  cases cs <;> rfl

theorem display_of_start {first : Char} {cs : List Char} {make : String → Lexeme} {more : Nat}
    (starts : start first cs = .lexeme make more) (other : first ≠ '\n') :
    (make (String.ofList (first :: cs.take more))).display =
      String.ofList (first :: cs.take more) := by
  cases starts_of_start starts with
  | punctuation found => exact display_punctuation found other
  | _ => rfl

theorem alone_of_start {first : Char} {cs : List Char} {make : String → Lexeme} {more : Nat}
    (kept : isBlank first = false) (starts : start first cs = .lexeme make more)
    (noFeed : first ≠ '\n') (noComment : first ≠ '#') :
    (make (String.ofList (first :: cs.take more))).Alone := by
  have shown := display_of_start starts noFeed
  have within := start_within first cs
  rw [starts] at within
  have cut := start_cut starts noComment (Nat.le_refl more) atStop_nil
  rw [List.append_nil] at cut
  have size : (cs.take more).length = more := List.length_take_of_le within
  exact ⟨first, cs.take more, make, by rw [shown, String.toList_ofList], kept, noComment,
    size.symm ▸ cut, by rw [shown]⟩

/-- The lexemes of a source are read back from what shows them. -/
theorem Scanned.alone {offset : Nat} {cs : List Char} {ls : List (Spanned Lexeme)}
    (scanned : Scanned offset cs ls) :
    ∀ l ∈ ls, l.value = newline ∨ (∃ text, l.value = comment text) ∨ l.value.Alone := by
  induction scanned with
  | done => exact nofun
  | blank skipped below ih => exact ih
  | @lexeme offset first cs ls make more kept starts below ih =>
    refine List.forall_mem_cons.mpr ⟨?_, ih⟩
    by_cases feed : first = '\n'
    · subst feed
      rw [start_newline] at starts
      cases starts
      exact .inl rfl
    · by_cases hash : first = '#'
      · subst hash
        rw [start_hash] at starts
        cases starts
        exact .inr (.inl ⟨_, rfl⟩)
      · exact .inr (.inr (alone_of_start kept starts feed hash))

/-- The characters are scanned to lexemes with these values, wherever they stand. -/
def Reads (cs : List Char) (values : List Lexeme) : Prop :=
  ∀ offset, ∃ ls, Scanned offset cs ls ∧ ls.map Spanned.value = values

namespace Reads

variable {ext : List Char} {values : List Lexeme}

theorem nothing : Reads [] [] :=
  fun offset => ⟨[], .done offset, rfl⟩

theorem blank (h : Reads ext values) : Reads (' ' :: ext) values := by
  intro offset
  obtain ⟨ls, scanned, same⟩ := h (offset + ' '.utf8Size)
  exact ⟨ls, .blank rfl scanned, same⟩

theorem punctuation (h : Reads ext values) {c : Char} {l : Lexeme}
    (found : punctuation? c = some l) : Reads (c :: ext) (l :: values) := by
  have kept : isBlank c = false := by
    unfold punctuation? at found
    split at found <;> first | rfl | cases found
  intro offset
  obtain ⟨ls, scanned, rfl⟩ := h (offset + byteLength (c :: ext.take 0))
  exact ⟨_, .lexeme kept (start_punctuation found ext) scanned, rfl⟩

theorem alone (h : Reads ext values) {l : Lexeme} (alone : l.Alone) (stop : AtStop ext) :
    Reads (l.display.toList ++ ext) (l :: values) := by
  obtain ⟨first, cs, make, chars, kept, noComment, starts, back⟩ := alone
  have whole := start_cut starts noComment (Nat.le_refl _) stop
  rw [List.take_length] at whole
  have taken : (cs ++ ext).take cs.length = cs := List.take_left
  have dropped : (cs ++ ext).drop cs.length = ext := List.drop_left
  have text : String.ofList (first :: cs) = l.display := by rw [← chars, String.ofList_toList]
  intro offset
  obtain ⟨ls, below, rfl⟩ := h (offset + byteLength (first :: cs))
  have here : Scanned offset (first :: (cs ++ ext)) _ :=
    .lexeme kept whole (by rwa [taken, dropped])
  rw [taken, text, back] at here
  rw [chars]
  exact ⟨_, here, rfl⟩

end Reads

/-- The lexeme is read somewhere in some source. -/
def Produced (l : Lexeme) : Prop :=
  ∃ source ls, scan source = .ok ls ∧ l ∈ ls.map Spanned.value

theorem produced_iff_alone {l : Lexeme} (noFeed : l ≠ newline)
    (noComment : ∀ text, l ≠ comment text) : l.Produced ↔ l.Alone := by
  constructor
  · rintro ⟨source, ls, scanned, mem⟩
    obtain ⟨l, among, rfl⟩ := List.mem_map.mp mem
    rcases (scanFrom_eq_ok_iff.mp scanned).alone l among with feed | ⟨text, isComment⟩ | alone
    · exact absurd feed noFeed
    · exact absurd isComment (noComment text)
    · exact alone
  · intro alone
    obtain ⟨ls, scanned, same⟩ := Reads.nothing.alone alone atStop_nil 0
    rw [List.append_nil] at scanned
    exact ⟨l.display, ls, scanFrom_eq_ok_iff.mpr scanned, by simp [same]⟩

end ExprCheck.Lexeme
