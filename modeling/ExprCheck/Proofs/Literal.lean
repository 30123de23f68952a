import ExprCheck.Ty.Literal
/-! What literals are read as. Main statements: the type of a number is a number type, and the value
of a string is what stands between its first quote and its last. -/
namespace ExprCheck

theorem Ty.ofNumber_numeric (raw : String) :
    (∃ ty, Ty.ofNumber raw = .int ty) ∨ ∃ ty, Ty.ofNumber raw = .float ty := by
  unfold Ty.ofNumber
  dsimp only
  repeat' split
  all_goals first | exact .inl ⟨_, rfl⟩ | exact .inr ⟨_, rfl⟩

/-- The type of a string with these characters in front of its first quote. -/
def markedTy (marks : List Char) : Ty :=
  if marks.any fun c => c == 'c' || c == 'C' then .char else .str

theorem takeWhile_marks {quote : Char} {marks : List Char} (first : quote ∉ marks)
    (rest : List Char) : (marks ++ quote :: rest).takeWhile (· != quote) = marks := by
  have before : ∀ c ∈ marks, (c != quote) = true := by
    intro c mem
    rw [bne_iff_ne]
    rintro rfl
    exact first mem
  rw [List.takeWhile_append_of_pos before, List.takeWhile_cons_of_neg (by simp), List.append_nil]

theorem unquote_of_chars {raw : String} {marks body : List Char} {quote : Char}
    (first : quote ∉ marks) (chars : raw.toList = marks ++ quote :: (body ++ [quote])) :
    unquote raw = (String.ofList body, markedTy marks) := by
  have whole : raw.toList = (marks ++ quote :: body) ++ [quote] := by simp [chars]
  have last : raw.toList.getLast? = some quote := by rw [whole, List.getLast?_concat]
  have before : raw.toList.takeWhile (· != quote) = marks := by rw [chars, takeWhile_marks first]
  have behind : (raw.toList.drop (marks.length + 1)).dropLast = body := by simp [chars]
  simp only [unquote, last, before, behind]
  rfl

theorem unquote_of_single {raw : String} {marks : List Char} {quote : Char}
    (first : quote ∉ marks) (chars : raw.toList = marks ++ [quote]) :
    unquote raw = ("", markedTy marks) := by
  have last : raw.toList.getLast? = some quote := by rw [chars, List.getLast?_concat]
  have before : raw.toList.takeWhile (· != quote) = marks := by rw [chars, takeWhile_marks first]
  have behind : (raw.toList.drop (marks.length + 1)).dropLast = [] := by simp [chars]
  simp only [unquote, last, before, behind]
  rfl

theorem unquote_ty (raw : String) : (unquote raw).2 = .str ∨ (unquote raw).2 = .char := by
  unfold unquote
  split
  · exact .inl rfl
  · dsimp only
    split
    · exact .inr rfl
    · exact .inl rfl

end ExprCheck
