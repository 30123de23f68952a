import ExprCheck.Declaration.Reader
import ExprCheck.Proofs.Dotted
/-! How declarations are spelled. Every declaration has one spelling but for the comma that may end
its parameter list. Whatever a reading has taken in is the spelling of the declarations that it has
finished, followed by the start of the spelling of the one that is open. -/
namespace ExprCheck

def dotted (names : List String) : List Lexeme :=
  (names.map Lexeme.name).intersperse .dot

def pathLexemes (path : String) : List Lexeme :=
  dotted (dotParts path)

def annotationLexemes (mark : String) : Option String → List Lexeme
  | none => []
  | some path => .op mark :: pathLexemes path

/-- The minus sign of a number is a lexeme of its own. -/
def Literal.lexemes : Literal → List Lexeme
  | str raw => [.str raw]
  | number raw =>
      match raw.toList with
      | '-' :: digits => [.op "-", .number (String.ofList digits)]
      | _ => [.number raw]
  | bool true => [.name "True"]
  | bool false => [.name "False"]

def defaultLexemes : Option Literal → List Lexeme
  | none => []
  | some value => .op "=" :: value.lexemes

def Param.lexemes (p : Param) : List Lexeme :=
  .name p.name :: (annotationLexemes ":" p.ty? ++ defaultLexemes p.default?)

/-- Parameters with commas between them, and with one behind the last if `trailing`. -/
def listedLexemes (trailing : Bool) : List Param → List Lexeme
  | [] => []
  | [p] => p.lexemes ++ if trailing then [.comma] else []
  | p :: rest => p.lexemes ++ .comma :: listedLexemes trailing rest

def paramsLexemes (trailing : Bool) (ps : List Param) : List Lexeme :=
  .opening .paren :: (listedLexemes trailing ps ++ [.closing .paren])

def Declared.lexemes (trailing : Bool) : Declared → List Lexeme
  | inModule path => .name "module" :: pathLexemes path
  | function name ps returns? =>
      .name "fn" :: .name name :: (paramsLexemes trailing ps ++ annotationLexemes "->" returns?)
  | struct name fields => .name "struct" :: .name name :: paramsLexemes trailing fields
  | var name ty? => .name "let" :: .name name :: annotationLexemes ":" ty?

/-- The lexemes are the spellings of the declarations, one after the other. -/
inductive Spelled : List Declaration → List Lexeme → Prop
  | nil : Spelled [] []
  | cons {d : Declaration} {ds : List Declaration} {ls : List Lexeme} (trailing : Bool)
      (rest : Spelled ds ls) : Spelled (d :: ds) (d.declared.lexemes trailing ++ ls)

theorem Spelled.snoc {ds : List Declaration} {ls : List Lexeme} (h : Spelled ds ls)
    (d : Declaration) (trailing : Bool) :
    Spelled (ds ++ [d]) (ls ++ d.declared.lexemes trailing) := by
  induction h with
  | nil => simpa using Spelled.cons (d := d) trailing .nil
  | cons trailing' rest ih =>
    rw [List.cons_append, List.append_assoc]
    exact .cons trailing' ih

theorem dotted_snoc {names : List String} (some : names ≠ []) (name : String) :
    dotted (names ++ [name]) = dotted names ++ [.dot, .name name] := by
  unfold dotted
  induction names with
  | nil => exact absurd rfl some
  | cons first rest ih =>
    cases rest with
    | nil => rfl
    | cons next rest =>
      have below := ih (List.cons_ne_nil next rest)
      simp only [List.cons_append, List.map_cons, List.intersperse_cons_cons] at below ⊢
      rw [below]

theorem Literal.lexemes_number {raw : String} (scanned : (Lexeme.number raw).IsScanned) :
    (Literal.number raw).lexemes = [.number raw] := by
  obtain ⟨d, digits, chars, digit⟩ := scanned
  have notMinus : d ≠ '-' := by
    rintro rfl
    cases digit
  simp only [Literal.lexemes]
  split
  · rename_i minus
    cases chars.symm.trans minus
    exact absurd rfl notMinus
  · rfl

theorem Literal.lexemes_negative (raw : String) :
    (Literal.number ("-" ++ raw)).lexemes = [.op "-", .number raw] := by
  have chars : ("-" ++ raw).toList = '-' :: raw.toList := by simp
  simp only [Literal.lexemes, chars, String.ofList_toList]

theorem listedLexemes_append (done : List Param) {ps : List Param} (some : ps ≠ [])
    (trailing : Bool) :
    listedLexemes trailing (done ++ ps) =
      done.flatMap (fun p => p.lexemes ++ [.comma]) ++ listedLexemes trailing ps := by
  induction done with
  | nil => rfl
  | cons p rest ih =>
    have more : rest ++ ps ≠ [] := by simp [some]
    obtain ⟨next, others, whole⟩ := List.exists_cons_of_ne_nil more
    rw [whole] at ih
    rw [List.cons_append, whole, listedLexemes, ih]
    · simp
    · intro same
      cases same

theorem listedLexemes_trailing (ps : List Param) :
    listedLexemes true ps = ps.flatMap fun p => p.lexemes ++ [.comma] := by
  induction ps with
  | nil => rfl
  | cons p rest ih =>
    cases rest with
    | nil => simp [listedLexemes]
    | cons next others => simp only [listedLexemes, ih, List.flatMap_cons, List.append_assoc,
        List.cons_append, List.nil_append]

namespace PartialPath

def lexemes (p : PartialPath) : List Lexeme :=
  dotted p.names ++ if p.needsName && !p.names.isEmpty then [.dot] else []

/-- The names hold no dot, and there is one unless one is due. -/
structure Sound (p : PartialPath) : Prop where
  dotless : ∀ name ∈ p.names, '.' ∉ name.toList
  begun : p.needsName = false → p.names ≠ []

theorem sound_start : start.Sound :=
  ⟨fun _ mem => (nomatch mem), fun due => (nomatch due)⟩

theorem Sound.next {p p' : PartialPath} {l : Lexeme} (h : p.Sound) (scanned : l.IsScanned)
    (taken : p.next? l = some p') : p'.Sound ∧ p'.lexemes = p.lexemes ++ [l] := by
  obtain ⟨names, needsName⟩ := p
  cases l with
  | name text =>
    cases needsName with
    | false => cases taken
    | true =>
      cases taken
      have dotless : ∀ name ∈ names ++ [text], '.' ∉ name.toList := by
        have last := Lexeme.dotless_of_isScanned scanned
        exact List.forall_mem_append.mpr ⟨h.dotless, List.forall_mem_singleton.mpr last⟩
      refine ⟨⟨dotless, fun _ => by simp⟩, ?_⟩
      by_cases first : names = []
      · simp [first, lexemes, dotted]
      · simp [lexemes, dotted_snoc first, first]
  | dot =>
    cases needsName with
    | false =>
      cases taken
      have begun : names ≠ [] := h.begun rfl
      exact ⟨⟨h.dotless, fun due => (nomatch due)⟩, by simp [lexemes, begun]⟩
    | true => cases taken
  | _ => cases taken

theorem Sound.done {p : PartialPath} {path : String} (h : p.Sound) (done : p.done? = some path) :
    p.lexemes = pathLexemes path := by
  obtain ⟨names, needsName⟩ := p
  cases needsName with
  | true => cases done
  | false =>
    cases done
    have parts := dotParts_intercalate (h.begun rfl) h.dotless
    simp [lexemes, pathLexemes, parts]

end PartialPath

namespace ParamStage

/-- What has been taken in behind the name of a parameter. -/
def Takes : ParamStage → List Lexeme → Prop
  | named, ls => ls = []
  | typing path, ls => path.Sound ∧ ls = .op ":" :: path.lexemes
  | defaulting ty? negative, ls =>
      ls = annotationLexemes ":" ty? ++ .op "=" :: if negative then [.op "-"] else []
  | defaulted ty? value, ls => ls = annotationLexemes ":" ty? ++ defaultLexemes (some value)

theorem Takes.next {s s' : ParamStage} {l : Lexeme} {ls : List Lexeme} (h : s.Takes ls)
    (scanned : l.IsScanned) (taken : s.next? l = some s') : s'.Takes (ls ++ [l]) := by
  unfold next? at taken
  split at taken
  · cases taken
    cases h
    exact ⟨PartialPath.sound_start, rfl⟩
  · cases taken
    cases h
    rfl
  · obtain ⟨ty, done, rfl⟩ := Option.map_eq_some_iff.mp taken
    obtain ⟨sound, rfl⟩ := h
    simp [Takes, annotationLexemes, sound.done done]
  · obtain ⟨path', next, rfl⟩ := Option.map_eq_some_iff.mp taken
    obtain ⟨sound, rfl⟩ := h
    obtain ⟨sound', longer⟩ := sound.next scanned next
    exact ⟨sound', by simp [longer]⟩
  · cases taken
    cases h
    simp [Takes]
  · cases taken
    cases h
    simp [Takes, defaultLexemes, Literal.lexemes_number scanned]
  · cases taken
    cases h
    simp [Takes, defaultLexemes, Literal.lexemes_negative]
  · cases taken
    cases h
    simp [Takes, defaultLexemes, Literal.lexemes]
  · cases taken
    cases h
    simp [Takes, defaultLexemes, Literal.lexemes]
  · cases taken
    cases h
    simp [Takes, defaultLexemes, Literal.lexemes]
  · cases taken

end ParamStage

namespace PartialParam

def Takes (p : PartialParam) (ls : List Lexeme) : Prop :=
  ∃ behind, ls = .name p.name :: behind ∧ p.stage.Takes behind

theorem Takes.next {p p' : PartialParam} {l : Spanned Lexeme} {ls : List Lexeme} (h : p.Takes ls)
    (scanned : l.value.IsScanned) (taken : p.next? l = some p') : p'.Takes (ls ++ [l.value]) := by
  obtain ⟨behind, rfl, stage⟩ := h
  obtain ⟨stage', next, rfl⟩ := Option.map_eq_some_iff.mp taken
  exact ⟨behind ++ [l.value], rfl, stage.next scanned next⟩

theorem Takes.done {p : PartialParam} {param : Param} {ls : List Lexeme} (h : p.Takes ls)
    (done : p.done? = some param) : ls = param.lexemes := by
  obtain ⟨behind, rfl, stage⟩ := h
  obtain ⟨name, kind, span⟩ := p
  cases kind with
  | named =>
    cases done
    cases stage
    rfl
  | typing path =>
    obtain ⟨ty, here, rfl⟩ := Option.map_eq_some_iff.mp done
    obtain ⟨sound, rfl⟩ := stage
    simp [Param.lexemes, annotationLexemes, defaultLexemes, sound.done here]
  | defaulting ty? negative => cases done
  | defaulted ty? value =>
    cases done
    cases stage
    rfl

end PartialParam

namespace PartialParams

/-- Every parameter that is finished has its comma behind it. -/
def Takes (ps : PartialParams) (ls : List Lexeme) : Prop :=
  ∃ last, ls = ps.finished.flatMap (fun p => p.lexemes ++ [.comma]) ++ last ∧
    match ps.current? with
    | none => last = []
    | some p => p.Takes last

theorem takes_start : start.Takes [] :=
  ⟨[], rfl, rfl⟩

theorem Takes.next {ps ps' : PartialParams} {l : Spanned Lexeme} {ls : List Lexeme}
    (h : ps.Takes ls) (scanned : l.value.IsScanned) (taken : ps.next? l = some ps') :
    ps'.Takes (ls ++ [l.value]) := by
  obtain ⟨finished, current?⟩ := ps
  obtain ⟨last, rfl, current⟩ := h
  unfold next? at taken
  split at taken
  · rename_i text none name
    cases taken
    cases none
    cases current
    refine ⟨[l.value], by simp, [], ?_, rfl⟩
    rw [name]
  · cases taken
  · rename_i p some comma
    cases some
    obtain ⟨all, done, rfl⟩ := Option.map_eq_some_iff.mp taken
    obtain ⟨param, here, rfl⟩ := Option.map_eq_some_iff.mp done
    refine ⟨[], ?_, rfl⟩
    simp [PartialParam.Takes.done current here, comma]
  · rename_i p some _
    cases some
    obtain ⟨p', next, rfl⟩ := Option.map_eq_some_iff.mp taken
    exact ⟨last ++ [l.value], by simp, PartialParam.Takes.next current scanned next⟩

theorem Takes.done {ps : PartialParams} {params : List Param} {ls : List Lexeme} (h : ps.Takes ls)
    (done : ps.done? = some params) : ∃ trailing, ls = listedLexemes trailing params := by
  obtain ⟨finished, current?⟩ := ps
  obtain ⟨last, rfl, current⟩ := h
  cases current? with
  | none =>
    cases done
    cases current
    exact ⟨true, by simp [listedLexemes_trailing]⟩
  | some p =>
    obtain ⟨param, here, rfl⟩ := Option.map_eq_some_iff.mp done
    refine ⟨false, ?_⟩
    rw [listedLexemes_append finished (List.cons_ne_nil param [])]
    simp [listedLexemes, PartialParam.Takes.done current here]

end PartialParams

def Listed.keyword : Listed → Lexeme
  | function => .name "fn"
  | struct => .name "struct"

namespace Stage

def Takes : Stage → List Lexeme → Prop
  | inModule path, ls => path.Sound ∧ ls = .name "module" :: path.lexemes
  | heading kind, ls => ls = [kind.keyword]
  | headed kind name, ls => ls = [kind.keyword, .name name]
  | listing kind name params, ls =>
      ∃ inner, params.Takes inner ∧ ls = kind.keyword :: .name name :: .opening .paren :: inner
  | signature name params, ls =>
      ∃ trailing, ls = (Declared.function name params none).lexemes trailing
  | returning name params path, ls =>
      path.Sound ∧ ∃ trailing, ls = (Declared.function name params none).lexemes trailing ++
        .op "->" :: path.lexemes
  | fields name params, ls => ∃ trailing, ls = (Declared.struct name params).lexemes trailing
  | binding, ls => ls = [.name "let"]
  | bound name, ls => ls = [.name "let", .name name]
  | typing name path, ls => path.Sound ∧ ls = .name "let" :: .name name :: .op ":" :: path.lexemes

theorem takes_start {l : Lexeme} {s : Stage} (begins : start? l = some s) : s.Takes [l] := by
  unfold start? at begins
  split at begins
  · cases begins
    exact ⟨PartialPath.sound_start, rfl⟩
  · cases begins
    rfl
  · cases begins
    rfl
  · cases begins
    rfl
  · cases begins

theorem Takes.next {s s' : Stage} {l : Spanned Lexeme} {ls : List Lexeme} (h : s.Takes ls)
    (scanned : l.value.IsScanned) (taken : s.next? l = some s') : s'.Takes (ls ++ [l.value]) := by
  unfold next? at taken
  split at taken
  · obtain ⟨path', next, rfl⟩ := Option.map_eq_some_iff.mp taken
    obtain ⟨sound, rfl⟩ := h
    obtain ⟨sound', longer⟩ := sound.next scanned next
    exact ⟨sound', by simp [longer]⟩
  · rename_i kind name value
    cases taken
    cases h
    simp [Takes, value]
  · rename_i kind name value
    cases taken
    cases h
    exact ⟨[], PartialParams.takes_start, by simp [value]⟩
  · rename_i kind name params value
    obtain ⟨ps, done, rfl⟩ := Option.map_eq_some_iff.mp taken
    obtain ⟨inner, params, rfl⟩ := h
    obtain ⟨trailing, rfl⟩ := params.done done
    cases kind with
    | function =>
      refine ⟨trailing, ?_⟩
      simp [value, Declared.lexemes, paramsLexemes, annotationLexemes, Listed.keyword]
    | struct =>
      refine ⟨trailing, ?_⟩
      simp [value, Declared.lexemes, paramsLexemes, Listed.keyword]
  · obtain ⟨params', next, rfl⟩ := Option.map_eq_some_iff.mp taken
    obtain ⟨inner, params, rfl⟩ := h
    exact ⟨inner ++ [l.value], params.next scanned next, by simp⟩
  · rename_i name params value
    cases taken
    obtain ⟨trailing, rfl⟩ := h
    refine ⟨PartialPath.sound_start, trailing, ?_⟩
    rw [value]
    rfl
  · obtain ⟨path', next, rfl⟩ := Option.map_eq_some_iff.mp taken
    obtain ⟨sound, trailing, rfl⟩ := h
    obtain ⟨sound', longer⟩ := sound.next scanned next
    exact ⟨sound', trailing, by simp [longer]⟩
  · rename_i name value
    cases taken
    cases h
    simp [Takes, value]
  · rename_i name value
    cases taken
    cases h
    refine ⟨PartialPath.sound_start, ?_⟩
    rw [value]
    rfl
  · obtain ⟨path', next, rfl⟩ := Option.map_eq_some_iff.mp taken
    obtain ⟨sound, rfl⟩ := h
    obtain ⟨sound', longer⟩ := sound.next scanned next
    exact ⟨sound', by simp [longer]⟩
  · cases taken

theorem Takes.done {s : Stage} {d : Declared} {ls : List Lexeme} (h : s.Takes ls)
    (done : s.done? = some d) : ∃ trailing, ls = d.lexemes trailing := by
  cases s with
  | inModule path =>
    obtain ⟨ty, here, rfl⟩ := Option.map_eq_some_iff.mp done
    obtain ⟨sound, rfl⟩ := h
    exact ⟨false, by simp [Declared.lexemes, sound.done here]⟩
  | signature name params =>
    cases done
    exact h
  | returning name params path =>
    obtain ⟨ty, here, rfl⟩ := Option.map_eq_some_iff.mp done
    obtain ⟨sound, trailing, rfl⟩ := h
    exact ⟨trailing, by simp [Declared.lexemes, annotationLexemes, sound.done here]⟩
  | fields name params =>
    cases done
    exact h
  | bound name =>
    cases done
    cases h
    exact ⟨false, rfl⟩
  | typing name path =>
    obtain ⟨ty, here, rfl⟩ := Option.map_eq_some_iff.mp done
    obtain ⟨sound, rfl⟩ := h
    exact ⟨false, by simp [Declared.lexemes, annotationLexemes, sound.done here]⟩
  | heading | headed | listing | binding => cases done

end Stage

namespace Reading

def Takes (r : Reading) (ls : List Lexeme) : Prop :=
  ∃ done now, ls = done ++ now ∧ Spelled r.finished done ∧
    match r.current? with
    | none => now = []
    | some (stage, _) => stage.Takes now

theorem Takes.done {r : Reading} {ds : List Declaration} {ls : List Lexeme} (h : r.Takes ls)
    (done : r.done? = some ds) : Spelled ds ls := by
  obtain ⟨finished, current?⟩ := r
  obtain ⟨before, now, rfl, spelled, current⟩ := h
  cases current? with
  | none =>
    cases done
    cases current
    simpa using spelled
  | some opened =>
    obtain ⟨stage, span⟩ := opened
    obtain ⟨d, here, rfl⟩ := Option.map_eq_some_iff.mp done
    obtain ⟨trailing, rfl⟩ := Stage.Takes.done current here
    exact spelled.snoc ⟨d, span⟩ trailing

theorem Takes.next {r r' : Reading} {l : Spanned Lexeme} {ls : List Lexeme} (h : r.Takes ls)
    (scanned : l.value.IsScanned) (taken : r.next? l = some r') : r'.Takes (ls ++ [l.value]) := by
  rcases Option.or_eq_some_iff.mp taken with extended | ⟨-, begun⟩
  · obtain ⟨finished, current?⟩ := r
    obtain ⟨before, now, rfl, spelled, current⟩ := h
    cases current? with
    | none => cases extended
    | some opened =>
      obtain ⟨stage', next, rfl⟩ := Option.map_eq_some_iff.mp extended
      exact ⟨before, now ++ [l.value], by simp, spelled, Stage.Takes.next current scanned next⟩
  · obtain ⟨finished, done, more⟩ := Option.bind_eq_some_iff.mp begun
    obtain ⟨stage, begins, same⟩ := Option.bind_eq_some_iff.mp more
    cases same
    exact ⟨ls, [l.value], rfl, h.done done, Stage.takes_start begins⟩

/-- What is read without a fault is spelled by the lexemes. -/
theorem Takes.run {r : Reading} {ds : List Declaration} {ls : List Lexeme}
    {rest : List (Spanned Lexeme)} (h : r.Takes ls) (scanned : ∀ l ∈ rest, l.value.IsScanned)
    (read : r.run rest = .ok ds) : Spelled ds (ls ++ rest.map Spanned.value) := by
  induction rest generalizing r ls with
  | nil =>
    unfold Reading.run at read
    split at read
    · rename_i done
      cases read
      simpa using h.done done
    · cases read
  | cons l rest ih =>
    obtain ⟨here, below⟩ := List.forall_mem_cons.mp scanned
    unfold Reading.run at read
    split at read
    · rename_i taken
      have whole := ih (h.next here taken) below read
      simpa using whole
    · cases read

end Reading

def meaningful (lexemes : List (Spanned Lexeme)) : List (Spanned Lexeme) :=
  lexemes.filter fun l => !l.value.isTrivia

theorem readDeclarations_eq_ok_iff {source : String} {lexemes : List (Spanned Lexeme)}
    {ds : List Declaration} (scanned : Lexeme.scan source = .ok lexemes) :
    readDeclarations source = .ok ds ↔ Reading.start.run (meaningful lexemes) = .ok ds := by
  unfold readDeclarations meaningful
  rw [scanned]
  exact mapError_eq_ok_iff

theorem exists_scan_of_readDeclarations {source : String} {ds : List Declaration}
    (read : readDeclarations source = .ok ds) :
    ∃ lexemes, Lexeme.scan source = .ok lexemes := by
  cases scanned : Lexeme.scan source with
  | ok lexemes => exact ⟨lexemes, rfl⟩
  | error fault =>
    unfold readDeclarations at read
    rw [scanned] at read
    cases read

theorem spelled_of_readDeclarations {source : String} {lexemes : List (Spanned Lexeme)}
    {ds : List Declaration} (scanned : Lexeme.scan source = .ok lexemes)
    (read : readDeclarations source = .ok ds) :
    Spelled ds ((meaningful lexemes).map Spanned.value) := by
  have start : Reading.start.Takes [] := ⟨[], [], rfl, .nil, rfl⟩
  have texts : ∀ l ∈ meaningful lexemes, l.value.IsScanned := fun l mem =>
    Lexeme.isScanned_of_scan scanned l (List.mem_filter.mp mem).1
  exact start.run texts ((readDeclarations_eq_ok_iff scanned).mp read)

end ExprCheck
