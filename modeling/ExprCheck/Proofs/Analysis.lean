import ExprCheck.Finding
/-! Reasoning about analyses. A step is described by what it does to every log: it only appends, and
its result and what it appends are related. `Composed` says what the analyses of forms are put
together from; a property that each way of putting steps together keeps holds of all of them. -/
namespace ExprCheck

namespace Log

/-- Without an error. -/
def Clean (log : Log) : Prop :=
  ∀ f ∈ log, f.isError = false

theorem clean_append {first second : Log} :
    Clean (first ++ second) ↔ first.Clean ∧ second.Clean :=
  List.forall_mem_append

theorem not_clean_iff {log : Log} : ¬ log.Clean ↔ ∃ f ∈ log, f.isError = true := by
  simp [Clean]

theorem errorCount_lt_append_iff (log new : Log) :
    log.errorCount < errorCount (log ++ new) ↔ ¬ new.Clean := by
  have counted : errorCount (log ++ new) = log.errorCount + new.errorCount := List.countP_append
  have positive : 0 < new.errorCount ↔ ∃ f ∈ new, f.isError = true := List.countP_pos_iff
  rw [counted, not_clean_iff, ← positive]
  omega

end Log

namespace Analysis

variable {α β : Type}

/-- Whatever was logged before, the step only appends to it, and `R` relates its result to what it
appends. -/
def Ensures (m : Analysis α) (R : Option α → Log → Prop) : Prop :=
  ∀ log, ∃ new, (m log).2 = log ++ new ∧ R (m log).1 new

theorem Ensures.mono {m : Analysis α} {R S : Option α → Log → Prop} (h : m.Ensures R)
    (weaker : ∀ r new, R r new → S r new) : m.Ensures S := by
  intro log
  obtain ⟨new, appended, related⟩ := h log
  exact ⟨new, appended, weaker _ _ related⟩

theorem Ensures.and {m : Analysis α} {R S : Option α → Log → Prop} (h : m.Ensures R)
    (h' : m.Ensures S) : m.Ensures fun r new => R r new ∧ S r new := by
  intro log
  obtain ⟨new, appended, related⟩ := h log
  obtain ⟨new', appended', related'⟩ := h' log
  -- What a step appends is determined.
  obtain rfl : new = new' := List.append_cancel_left (appended.symm.trans appended')
  exact ⟨new, appended, related, related'⟩

theorem ensures_pure {x : α} {R : Option α → Log → Prop} (h : R (some x) []) :
    (pure x : Analysis α).Ensures R :=
  fun log => ⟨[], (List.append_nil log).symm, h⟩

theorem ensures_fail {fault : Fault} {place? : Option Place} {R : Option α → Log → Prop}
    (h : R none [⟨.fault fault, place?⟩]) : (fail fault place? : Analysis α).Ensures R :=
  fun _ => ⟨_, rfl, h⟩

theorem ensures_note {concern : Concern} {place? : Option Place} {R : Option Unit → Log → Prop}
    (h : R (some ()) [⟨concern, place?⟩]) : (note concern place?).Ensures R :=
  fun _ => ⟨_, rfl, h⟩

theorem Ensures.bind {m : Analysis α} {f : α → Analysis β} {R : Option α → Log → Prop}
    {S : Option β → Log → Prop} (h : m.Ensures R) (stopped : ∀ new, R none new → S none new)
    (next : ∀ x before, R (some x) before →
      (f x).Ensures fun r after => S r (before ++ after)) :
    (m >>= f).Ensures S := by
  intro log
  obtain ⟨before, appended, related⟩ := h log
  change ∃ new, (Analysis.bind m f log).2 = log ++ new ∧ S (Analysis.bind m f log).1 new
  unfold Analysis.bind
  generalize m log = out at appended related ⊢
  obtain ⟨r, mid⟩ := out
  obtain rfl : mid = log ++ before := appended
  cases r with
  | none => exact ⟨before, rfl, stopped before related⟩
  | some x =>
    obtain ⟨after, appended', related'⟩ := next x before related (log ++ before)
    exact ⟨before ++ after, appended'.trans (List.append_assoc ..), related'⟩

theorem Ensures.whole {m : Analysis α} {R S : Option α → Log → Prop} (h : m.Ensures R)
    (stopped : ∀ new, R none new → S none new)
    (refused : ∀ x new, R (some x) new → ¬ new.Clean → S none new)
    (passed : ∀ x new, R (some x) new → new.Clean → S (some x) new) : m.whole.Ensures S := by
  intro log
  obtain ⟨new, appended, related⟩ := h log
  refine ⟨new, ?_⟩
  unfold Analysis.whole
  generalize m log = out at appended related ⊢
  obtain ⟨r, after⟩ := out
  obtain rfl : after = log ++ new := appended
  cases r with
  | none => exact ⟨rfl, stopped new related⟩
  | some x =>
    refine ⟨rfl, ?_⟩
    change S (if log.errorCount < Log.errorCount (log ++ new) then none else some x) new
    by_cases clean : new.Clean
    · rw [if_neg fun more => (Log.errorCount_lt_append_iff log new).mp more clean]
      exact passed x new related clean
    · rw [if_pos ((Log.errorCount_lt_append_iff log new).mpr clean)]
      exact refused x new related clean

/-- A chain of two steps has a result exactly if both have one, the second after the first. -/
theorem bind_eq_some_iff {m : Analysis α} {f : α → Analysis β} {log : Log} {y : β} :
    ((m >>= f) log).1 = some y ↔
      ∃ x, (m log).1 = some x ∧ (f x (m log).2).1 = some y := by
  change (Analysis.bind m f log).1 = some y ↔ _
  unfold Analysis.bind
  generalize m log = out
  obtain ⟨r, after⟩ := out
  cases r with
  | none => simp
  | some x => simp

/-- If the step has a result, `P` relates it to what the step appends. -/
def Yields (m : Analysis α) (P : α → Log → Prop) : Prop :=
  m.Ensures fun r new => ∀ x, r = some x → P x new

theorem Yields.result {m : Analysis α} {P : α → Prop} (h : m.Yields fun x _ => P x) {log : Log}
    {x : α} (found : (m log).1 = some x) : P x := by
  obtain ⟨new, -, yields⟩ := h log
  exact yields x found

theorem Yields.imp {m : Analysis α} {P Q : α → Log → Prop} (h : m.Yields P)
    (weaker : ∀ x new, P x new → Q x new) : m.Yields Q :=
  Ensures.mono h fun _ new yields x same => weaker x new (yields x same)

theorem Yields.and {m : Analysis α} {P Q : α → Log → Prop} (h : m.Yields P) (h' : m.Yields Q) :
    m.Yields fun x new => P x new ∧ Q x new :=
  (Ensures.and h h').mono fun _ _ both x same => ⟨both.1 x same, both.2 x same⟩

theorem yields_pure {x : α} {P : α → Log → Prop} (h : P x []) : (pure x : Analysis α).Yields P :=
  ensures_pure fun _ same => Option.some.inj same ▸ h

theorem yields_fail {fault : Fault} {place? : Option Place} {P : α → Log → Prop} :
    (fail fault place?).Yields P :=
  ensures_fail fun _ none => nomatch none

theorem Yields.bind {m : Analysis α} {f : α → Analysis β} {P : α → Log → Prop}
    {Q : β → Log → Prop} (h : m.Yields P)
    (next : ∀ x before, P x before → (f x).Yields fun y after => Q y (before ++ after)) :
    (m >>= f).Yields Q :=
  Ensures.bind h (fun _ _ _ none => nomatch none) fun x before yields =>
    next x before (yields x rfl)

theorem Yields.whole {m : Analysis α} {P Q : α → Log → Prop} (h : m.Yields P)
    (clean : ∀ x new, P x new → new.Clean → Q x new) : m.whole.Yields Q :=
  Ensures.whole h (fun _ _ _ none => nomatch none) (fun _ _ _ _ _ none => nomatch none)
    fun x new yields isClean _ same => Option.some.inj same ▸ clean x new (yields x rfl) isClean

/-- The step has the result given and logs no error. -/
def Returns (m : Analysis α) (x : α) : Prop :=
  m.Ensures fun r new => r = some x ∧ new.Clean

theorem returns_pure (x : α) : (pure x : Analysis α).Returns x :=
  ensures_pure ⟨rfl, List.forall_mem_nil _⟩

theorem returns_warn (place? : Option Place) : (note .undetermined place?).Returns () :=
  ensures_note ⟨rfl, List.forall_mem_singleton.mpr rfl⟩

theorem Returns.bind {m : Analysis α} {f : α → Analysis β} {x : α} {y : β} (h : m.Returns x)
    (next : (f x).Returns y) : (m >>= f).Returns y := by
  apply Ensures.bind h
  · rintro new ⟨none, -⟩
    cases none
  · rintro x' before ⟨same, clean⟩
    cases same
    exact next.mono fun r after told => ⟨told.1, Log.clean_append.mpr ⟨clean, told.2⟩⟩

theorem Returns.whole {m : Analysis α} {x : α} (h : m.Returns x) : m.whole.Returns x := by
  apply Ensures.whole h
  · rintro new ⟨none, -⟩
    cases none
  · rintro x' new ⟨-, clean⟩ unclean
    exact absurd clean unclean
  · exact fun x' new told _ => told

/-- What steps are put together from. The faults that can be logged lie in `F`. Only a part that
`whole` surrounds may log a mismatch and go on; such a part is lenient. -/
inductive Composed (F : Fault → Prop) : (lenient : Bool) → {α : Type} → Analysis α → Prop
  | pure {lenient : Bool} {α : Type} (x : α) : Composed F lenient (pure x)
  | fail {lenient : Bool} {α : Type} {fault : Fault} (place? : Option Place) (ok : F fault) :
      Composed F lenient (fail fault place? : Analysis α)
  | warn {lenient : Bool} (place? : Option Place) :
      Composed F lenient (note .undetermined place?)
  | mismatch {expected found : Ty} (place? : Option Place) (ok : F (.typeMismatch expected found)) :
      Composed F true (note (.fault (.typeMismatch expected found)) place?)
  | bind {lenient : Bool} {α β : Type} {m : Analysis α} {f : α → Analysis β}
      (first : Composed F lenient m) (next : ∀ x, Composed F lenient (f x)) :
      Composed F lenient (m >>= f)
  | whole {lenient : Bool} {α : Type} {m : Analysis α} (inner : Composed F true m) :
      Composed F lenient m.whole

theorem Composed.faults {F : Fault → Prop} {lenient : Bool} {m : Analysis α}
    (h : Composed F lenient m) :
    m.Ensures fun _ new => ∀ f ∈ new, ∀ fault, f.concern = .fault fault → F fault := by
  induction h with
  | pure x => exact ensures_pure (by simp)
  | fail place? ok => exact ensures_fail (by simpa using ok)
  | warn place? => exact ensures_note (by simp)
  | mismatch place? ok => exact ensures_note (by simpa using ok)
  | bind first next ihFirst ihNext =>
    apply ihFirst.bind (fun _ logged => logged)
    intro x before logged
    exact (ihNext x).mono fun _ after logged' => List.forall_mem_append.mpr ⟨logged, logged'⟩
  | whole inner ih =>
    exact ih.whole (fun _ logged => logged) (fun _ _ logged _ => logged)
      (fun _ _ logged _ => logged)

/-- A step that gives up has logged an error, and one that is not lenient gives up after any. -/
theorem Composed.reports {F : Fault → Prop} {lenient : Bool} {m : Analysis α}
    (h : Composed F lenient m) :
    m.Ensures fun r new => (r = none → ¬ new.Clean) ∧ (lenient = false → r ≠ none → new.Clean) := by
  induction h with
  | pure x => exact ensures_pure (by simp [Log.Clean])
  | fail place? ok => exact ensures_fail (by simp [Log.Clean, Finding.isError])
  | warn place? => exact ensures_note (by simp [Log.Clean, Finding.isError])
  | mismatch place? ok => exact ensures_note (by simp)
  | bind first next ihFirst ihNext =>
    apply ihFirst.bind (fun new told => ⟨fun _ => told.1 rfl, fun _ went => absurd rfl went⟩)
    intro x before told
    refine (ihNext x).mono fun r after told' => ⟨fun gone clean => ?_, fun strict went => ?_⟩
    · exact told'.1 gone (Log.clean_append.mp clean).2
    · exact Log.clean_append.mpr ⟨told.2 strict (by simp), told'.2 strict went⟩
  | whole inner ih =>
    apply ih.whole (fun new told => ⟨fun _ => told.1 rfl, fun _ went => absurd rfl went⟩)
    · exact fun x new _ unclean => ⟨fun _ => unclean, fun _ went => absurd rfl went⟩
    · exact fun x new _ clean => ⟨fun gone => (nomatch gone), fun _ _ => clean⟩

end Analysis

end ExprCheck
