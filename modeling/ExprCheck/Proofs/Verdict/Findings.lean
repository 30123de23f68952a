import ExprCheck.Proofs.Token.Stretch
import ExprCheck.Proofs.Verdict.Judging
/-! What a verdict notes. A verdict may look at a run more than once, and what it noted in a look
that failed stays noted. Main statement: a verdict that holds has noted nothing, all that is noted
is of names in the run that are not defined, and a run that is refused without a note is no value
whatever is defined. -/
namespace ExprCheck

variable {lookup : Lookup}

/-! ## What a verdict that holds has noted -/

theorem valueVerdict_sign_iff {t : Token} (rest : List Token) (unary : t.unaryOp?.isSome) :
    (valueVerdict lookup (t :: rest)).holds = true ↔ (valueVerdict lookup rest).holds = true := by
  obtain ⟨op, spells⟩ := Option.isSome_iff_exists.mp unary
  rw [valueVerdict_holds_iff_chainValue, valueVerdict_holds_iff_chainValue]
  exact Noted.chainValue_sign_iff (n := ⟨t, t.form⟩) spells

theorem callVerdict_holds_of_isCall {run : List Token} (call : isCall true run = true)
    (holds : (valueVerdict lookup run).holds = true) : (callVerdict lookup run).holds = true := by
  have agrees : Judged.Agrees lookup (judgeTokens lookup run) := judgeTokens_agree run
  rw [valueVerdict_holds_iff_chainValue] at holds
  have tokens : Judged.tokens (judgeTokens lookup run) = run := tokens_judgeTokens run
  rw [callVerdict, Judged.callVerdict_holds_iff agrees (by rwa [tokens]), note_judgeTokens]
  rw [← Grammar.tokens_noteTokens run] at call
  obtain ⟨head, paren, name, -, -, -, found⟩ := Noted.atomForm?_of_isCall call
  exact ⟨_, found, holds.isValue_of_atomForm? found⟩

namespace Verdict

/-- If the verdict holds, it has noted nothing. -/
def Silent (v : Verdict) : Prop :=
  v.holds = true → v.findings = []

variable {v : Verdict} {w : Unit → Verdict}

theorem silent_of_fails (h : v.holds = false) : v.Silent := by
  intro holds
  rw [h] at holds
  cases holds

theorem Silent.and (h : v.Silent) (h' : (w ()).Silent) : (v.and w).Silent := by
  intro holds
  obtain ⟨first, second⟩ := (holds_and v w).mp holds
  rw [and_of_holds first, after, h first, h' second]
  rfl

theorem Silent.or (h : v.Silent) (h' : (w ()).Silent)
    (again : v.holds = false → (w ()).holds = true → v.findings = []) : (v.or w).Silent := by
  intro holds
  cases first : v.holds with
  | true =>
    rw [or_of_holds first]
    exact h first
  | false =>
    have second : (w ()).holds = true := by simpa [first] using (holds_or v w).mp holds
    rw [or_of_fails first, after, again first second, h' second]
    rfl

end Verdict

theorem Judged.nameVerdict_silent (text : String) (last? : Option Place) :
    (nameVerdict lookup text last?).Silent := by
  unfold nameVerdict
  split
  · exact fun _ => rfl
  · exact Verdict.silent_of_fails rfl

theorem Leaf.verdict_silent (l : Leaf) (place : Place) : (l.verdict lookup place).Silent := by
  cases l with
  | name text =>
    unfold Leaf.verdict
    dsimp only
    split
    · exact fun _ => rfl
    · split
      · exact fun _ => rfl
      · exact Judged.nameVerdict_silent text place
  | _ => exact fun _ => rfl

theorem itemVerdict_silent {items : List (List Token)}
    (h : ∀ item ∈ items, (valueVerdict lookup item).Silent) :
    (itemVerdict lookup items).Silent := by
  induction items with
  | nil => exact fun _ => rfl
  | cons item rest ih =>
    obtain ⟨here, below⟩ := List.forall_mem_cons.mp h
    by_cases empty : item = []
    · subst empty
      rw [itemVerdict_nil_cons]
      split <;> exact fun _ => rfl
    · rw [itemVerdict_cons _ _ empty]
      exact here.and (ih below)

theorem callVerdict_silent {run : List Token} (h : ∀ bracket inner place,
    .group bracket inner place ∈ run → (valueVerdict lookup inner).Silent) :
    (callVerdict lookup run).Silent := by
  rcases callVerdict_eq_or run with no | yes | ⟨bracket, inner, place, mem, same⟩
  · rw [no]
    exact fun _ => rfl
  · rw [yes]
    exact fun _ => rfl
  · rw [same]
    exact h bracket inner place mem

/-- A look that notes a name fails, and no later look makes up for that: what is behind a unary
operator is no value, and a call is none. -/
theorem valueVerdict_silent (run : List Token) : (valueVerdict lookup run).Silent := by
  induction run using judged_induction with
  | nil =>
    rw [valueVerdict_nil]
    exact fun _ => rfl
  | leaf l place =>
    rw [valueVerdict_single]
    exact l.verdict_silent place
  | tuple items place ih =>
    rw [valueVerdict_single]
    exact itemVerdict_silent ih
  | group bracket inner place ih =>
    rw [valueVerdict_single, verdict_group]
    split
    · exact fun _ => rfl
    · exact ih
  | several t u rest behind sides contents =>
    have calls {part : List Token} (among : part ⊆ t :: u :: rest) :
        (callVerdict lookup part).Silent :=
      callVerdict_silent fun bracket inner place mem => contents bracket inner place (among mem)
    have whole := valueVerdict_cons lookup t u rest
    rw [whole]
    apply Verdict.Silent.or
    · split
      · exact behind
      · exact fun _ => rfl
    · split
      · rename_i left m right cut
        obtain ⟨parts, -⟩ := of_splitAtFirst_eq_some cut
        obtain ⟨before, after⟩ := sides left m right parts
        have inLeft : left ⊆ t :: u :: rest := parts ▸ List.subset_append_left ..
        -- A left side that fails as a call and is a value is no call.
        refine ((calls inLeft).or before fun fails holds => ?_).and after
        cases call : isCall true left with
        | true =>
          rw [callVerdict_holds_of_isCall call holds] at fails
          cases fails
        | false => rw [callVerdict_of_not_isCall call, Verdict.no]
      · split
        · exact Judged.nameVerdict_silent _ _
        · exact calls (List.Subset.refl _)
    · -- Where the second look holds, the first one holds, too, or has looked at nothing.
      intro fails second
      have holds : (valueVerdict lookup (t :: u :: rest)).holds = true := by
        rw [whole]
        exact (Verdict.holds_or _ _).mpr (.inr second)
      cases unary : t.unaryOp?.isSome with
      | true =>
        rw [unary, if_pos rfl, (valueVerdict_sign_iff _ unary).mp holds] at fails
        cases fails
      | false => rw [if_neg Bool.false_ne_true, Verdict.no]

/-! ## What every step of judging keeps -/

/-- A relation of the verdicts on a run over two tables of symbols, if every way of judging a run
from its parts keeps it. -/
structure Kept (lookup lookup' : Lookup) (R : List Token → Verdict → Verdict → Prop) : Prop where
  yes : ∀ run, R run .yes .yes
  no : ∀ run, R run .no .no
  name : ∀ run text, dottedName? run = some text →
    R run (Judged.nameVerdict lookup text (lastPlace? run))
      (Judged.nameVerdict lookup' text (lastPlace? run))
  and : ∀ run v v' w w', R run v v' → R run (w ()) (w' ()) → R run (v.and w) (v'.and w')
  or : ∀ run v v' w w', R run v v' → R run (w ()) (w' ()) → R run (v.or w) (v'.or w')
  part : ∀ part run v v', (∀ piece, Occurs piece part → Occurs piece run) → R part v v' →
    R run v v'

namespace Kept

variable {lookup' : Lookup} {R : List Token → Verdict → Verdict → Prop}

theorem leaf (kept : Kept lookup lookup' R) (l : Leaf) (place : Place) :
    R [.leaf l place] (l.verdict lookup place) (l.verdict lookup' place) := by
  cases l with
  | name text =>
    unfold Leaf.verdict
    dsimp only
    split
    · exact kept.yes _
    · split
      · exact kept.no _
      · rename_i free
        refine kept.name [.leaf (.name text) place] text ?_
        simp only [dottedName?, nameParts?, if_neg free]
        rfl
  | str _ | number _ => exact kept.yes _
  | op _ | dot | comment _ | newline | endMarker => exact kept.no _

theorem items (kept : Kept lookup lookup' R) {run : List Token} {items : List (List Token)}
    (h : ∀ item ∈ items, R run (valueVerdict lookup item) (valueVerdict lookup' item)) :
    R run (itemVerdict lookup items) (itemVerdict lookup' items) := by
  induction items with
  | nil => exact kept.yes run
  | cons item rest ih =>
    obtain ⟨here, below⟩ := List.forall_mem_cons.mp h
    by_cases empty : item = []
    · subst empty
      rw [itemVerdict_nil_cons, itemVerdict_nil_cons]
      split
      · exact kept.yes run
      · exact kept.no run
    · rw [itemVerdict_cons _ _ empty, itemVerdict_cons _ _ empty]
      exact kept.and _ _ _ _ _ here (ih below)

theorem call (kept : Kept lookup lookup' R) {run part : List Token} (among : part ⊆ run)
    (h : ∀ bracket inner place, .group bracket inner place ∈ run →
      R inner (valueVerdict lookup inner) (valueVerdict lookup' inner)) :
    R run (callVerdict lookup part) (callVerdict lookup' part) := by
  rcases callVerdict_eq_or part with no | yes | ⟨bracket, inner, place, mem, same⟩
  · rw [no, no]
    exact kept.no run
  · rw [yes, yes]
    exact kept.yes run
  · rw [same, same]
    exact kept.part _ _ _ _ (fun _ => .inner (among mem)) (h bracket inner place (among mem))

theorem value (kept : Kept lookup lookup' R) (run : List Token) :
    R run (valueVerdict lookup run) (valueVerdict lookup' run) := by
  induction run using judged_induction with
  | nil =>
    rw [valueVerdict_nil, valueVerdict_nil]
    exact kept.no []
  | leaf l place =>
    rw [valueVerdict_single, valueVerdict_single]
    exact kept.leaf l place
  | tuple items place ih =>
    rw [valueVerdict_single, valueVerdict_single]
    exact kept.items fun item mem =>
      kept.part _ _ _ _ (fun _ => .item (List.mem_singleton.mpr rfl) mem) (ih item mem)
  | group bracket inner place ih =>
    rw [valueVerdict_single, valueVerdict_single, verdict_group, verdict_group]
    split
    · exact kept.yes _
    · exact kept.part _ _ _ _ (fun _ => .inner (List.mem_singleton.mpr rfl)) ih
  | several t u rest behind sides contents =>
    have ofStretch {part : List Token} {v v' : Verdict} (stretch : Stretch part (t :: u :: rest)) :
        R part v v' → R (t :: u :: rest) v v' :=
      kept.part _ _ _ _ fun _ inside => inside.of_stretch stretch
    rw [valueVerdict_cons, valueVerdict_cons]
    apply kept.or
    · split
      · rename_i unary
        have operator : ¬t.IsPlain := fun plain => by simp [plain.1] at unary
        exact ofStretch (Stretch.sides [] _ operator).2 behind
      · exact kept.no _
    · cases cut : splitAtFirst (fun t => t.binaryOp?.isSome) (t :: u :: rest) with
      | some parts =>
        obtain ⟨left, m, right⟩ := parts
        obtain ⟨whole, binary, -⟩ := of_splitAtFirst_eq_some cut
        have operator : ¬m.IsPlain := fun plain => by simp [plain.2] at binary
        obtain ⟨before, after⟩ := sides left m right whole
        obtain ⟨inLeft, inRight⟩ := Stretch.sides left right operator
        rw [← whole] at inLeft inRight
        have called := kept.call inLeft.subset contents
        exact kept.and _ _ _ _ _ (kept.or _ _ _ _ _ called (ofStretch inLeft before))
          (ofStretch inRight after)
      | none =>
        cases named : dottedName? (t :: u :: rest) with
        | some text => exact kept.name _ text named
        | none => exact kept.call (List.Subset.refl _) contents

end Kept

/-! ## What the notes are of -/

/-- The finding is that a dotted name in the run is not defined. -/
def Finding.IsUndefinedIn (lookup : Lookup) (run : List Token) (f : Finding) : Prop :=
  ∃ piece name, Occurs piece run ∧ dottedName? piece = some name ∧ lookup name = none ∧
    f = ⟨.fault (.undefinedName name), lastPlace? piece⟩

theorem Judged.isUndefinedIn_of_mem_nameVerdict {run : List Token} {name : String}
    (spells : dottedName? run = some name) :
    ∀ f ∈ (nameVerdict lookup name (lastPlace? run)).findings, f.IsUndefinedIn lookup run := by
  intro f mem
  unfold nameVerdict at mem
  split at mem
  · cases mem
  · rename_i unknown
    have undefined : lookup name = none := by simpa using unknown
    exact ⟨run, name, .here (.refl run), spells, undefined, List.mem_singleton.mp mem⟩

theorem kept_isUndefinedIn (lookup : Lookup) :
    Kept lookup lookup fun run v _ => ∀ f ∈ v.findings, f.IsUndefinedIn lookup run where
  yes _ := List.forall_mem_nil _
  no _ := List.forall_mem_nil _
  name _ _ spells := Judged.isUndefinedIn_of_mem_nameVerdict spells
  and _ _ _ _ _ h h' f mem := (Verdict.mem_findings_and mem).elim (h f) (h' f)
  or _ _ _ _ _ h h' f mem := (Verdict.mem_findings_or mem).elim (h f) (h' f)
  part part run v _ inside h f mem := by
    obtain ⟨piece, name, occurs, found⟩ := h f mem
    exact ⟨piece, name, inside piece occurs, found⟩

/-! ## What fails without a note -/

namespace Verdict

/-- If the first verdict fails without a note, the second one fails. -/
def Excludes (v v' : Verdict) : Prop :=
  v.holds = false → v.findings = [] → v'.holds = false

variable {v v' : Verdict} {w w' : Unit → Verdict}

theorem Excludes.and (h : v.Excludes v') (h' : (w ()).Excludes (w' ())) :
    (v.and w).Excludes (v'.and w') := by
  intro fails quiet
  refine Bool.eq_false_iff.mpr fun holds => ?_
  obtain ⟨first, second⟩ := (holds_and v' w').mp holds
  cases this : v.holds with
  | true =>
    rw [and_of_holds this] at fails quiet
    rw [h' fails (List.append_eq_nil_iff.mp quiet).2] at second
    cases second
  | false =>
    rw [and_of_fails this] at quiet
    rw [h this quiet] at first
    cases first

theorem Excludes.or (h : v.Excludes v') (h' : (w ()).Excludes (w' ())) :
    (v.or w).Excludes (v'.or w') := by
  intro fails quiet
  have this : v.holds = false := by
    refine Bool.eq_false_iff.mpr fun holds => ?_
    rw [or_of_holds holds, holds] at fails
    cases fails
  rw [or_of_fails this] at fails quiet
  obtain ⟨first, second⟩ := List.append_eq_nil_iff.mp quiet
  refine Bool.eq_false_iff.mpr fun holds => ?_
  rcases (holds_or v' w').mp holds with here | there
  · rw [h this first] at here
    cases here
  · rw [h' fails second] at there
    cases there

end Verdict

theorem Judged.nameVerdict_excludes (name : String) (last? : Option Place) (v : Verdict) :
    (nameVerdict lookup name last?).Excludes v := by
  unfold nameVerdict
  split
  · exact nofun
  · exact fun _ => nofun

theorem kept_excludes (lookup lookup' : Lookup) :
    Kept lookup lookup' fun _ v v' => v.Excludes v' where
  yes _ := nofun
  no _ _ _ := rfl
  name _ text _ := Judged.nameVerdict_excludes text _ _
  and _ _ _ _ _ h h' := h.and h'
  or _ _ _ _ _ h h' := h.or h'
  part _ _ _ _ _ h := h

/-- A verdict that holds has noted nothing, whatever parts it has looked at again. It notes only
names in the run that are not defined; without a note, a run that is refused is no value whatever is
defined. -/
theorem valueVerdict_findings (lookup : Lookup) (run : List Token) :
    let v := valueVerdict lookup run
    (v.holds = true → v.findings = []) ∧
    (∀ f ∈ v.findings, f.IsUndefinedIn lookup run) ∧
    (v.holds = false → v.findings = [] →
      ∀ lookup', (valueVerdict lookup' run).holds = false) :=
  ⟨valueVerdict_silent run, (kept_isUndefinedIn lookup).value run, fun fails quiet lookup' =>
    (kept_excludes lookup lookup').value run fails quiet⟩

/- With only `x` defined: `-x`, then `x + (a.b)`, then `x x`. -/
theorem valueVerdict_findings_of_x :
    let p : Place := ⟨⟨0, 1⟩, 1⟩
    let q : Place := ⟨⟨7, 8⟩, 1⟩
    let x : Token := .leaf (.name "x") p
    let name : List Token := [.leaf (.name "a") p, .leaf .dot p, .leaf (.name "b") q]
    let sum : List Token := [x, .leaf (.op "+") p, .group .paren name p]
    let lookup : Lookup := fun text =>
      if text = "x" then some (.var "x" .undetermined ⟨0, 1⟩) else none
    let signed := valueVerdict lookup [.leaf (.op "-") p, x]
    let unknown : Finding := ⟨.fault (.undefinedName "a.b"), q⟩
    let twice := valueVerdict lookup [x, x]
    (signed.holds = true ∧ signed.findings = []) ∧
    (unknown ∈ (valueVerdict lookup sum).findings ∧ unknown.IsUndefinedIn lookup sum) ∧
    twice.holds = false ∧ twice.findings = [] ∧
      ∀ lookup', (valueVerdict lookup' [x, x]).holds = false := by
  intro p q x name sum lookup signed unknown twice
  have holds : signed.holds = true := by decide +kernel
  have noted : unknown ∈ (valueVerdict lookup sum).findings := by decide +kernel
  have fails : twice.holds = false := by decide +kernel
  have quiet : twice.findings = [] := by decide +kernel
  exact ⟨⟨holds, (valueVerdict_findings lookup _).1 holds⟩,
    ⟨noted, (valueVerdict_findings lookup sum).2.1 unknown noted⟩,
    fails, quiet, (valueVerdict_findings lookup [x, x]).2.2 fails quiet⟩

end ExprCheck
