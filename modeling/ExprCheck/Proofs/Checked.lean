import ExprCheck.Proofs.Analysis
/-! Analyses that look before they take. A checked analysis asks for elements by their positions and
for operands from the front of a queue, and it comes to a bad end if there is none. Procedures say
what is done for a task and leave open what is done for the tasks that it calls. Main statement:
answers that satisfy the procedures are what running them comes to, as soon as calls may be nested
deeply enough for the task. -/
namespace ExprCheck

/-- How a checked analysis ends: as an analysis does, at a position that is out of range, at a queue
that is empty, or with more calls inside each other than it was allowed. -/
inductive Ending (α : Type) where
  | done (result : Option α) (log : Log)
  | outOfRange
  | emptyQueue
  | unfinished

def Checked (α : Type) : Type :=
  Log → Ending α

namespace Checked

variable {α β : Type}

protected def pure (x : α) : Checked α :=
  fun log => .done (some x) log

protected def bind (m : Checked α) (f : α → Checked β) : Checked β :=
  fun log =>
    match m log with
    | .done (some x) log => f x log
    | .done none log => .done none log
    | .outOfRange => .outOfRange
    | .emptyQueue => .emptyQueue
    | .unfinished => .unfinished

instance : Monad Checked where
  pure := Checked.pure
  bind := Checked.bind

def outOfRange : Checked α :=
  fun _ => .outOfRange

def emptyQueue : Checked α :=
  fun _ => .emptyQueue

def unfinished : Checked α :=
  fun _ => .unfinished

def whole (m : Checked α) : Checked α :=
  fun log =>
    match m log with
    | .done (some x) after => .done (if log.errorCount < after.errorCount then none else some x) after
    | ending => ending

end Checked

def Analysis.checked {α : Type} (m : Analysis α) : Checked α :=
  fun log => .done (m log).1 (m log).2

namespace Checked

variable {α β γ : Type} {m m' : Checked α}

protected theorem bind_assoc (m : Checked α) (f : α → Checked β) (g : β → Checked γ) :
    ((m >>= f) >>= g) = m >>= fun x => f x >>= g := by
  funext log
  change Checked.bind (Checked.bind m f) g log = Checked.bind m (fun x => f x >>= g) log
  unfold Checked.bind
  cases m log with
  | done r after => cases r <;> rfl
  | _ => rfl

protected theorem bind_pure (m : Checked α) : m >>= pure = m := by
  funext log
  change Checked.bind m Checked.pure log = m log
  unfold Checked.bind
  cases m log with
  | done r after => cases r <;> rfl
  | _ => rfl

instance : LawfulMonad Checked :=
  LawfulMonad.mk' Checked Checked.bind_pure (fun _ _ => rfl) Checked.bind_assoc

@[simp] theorem checked_pure (x : α) : (pure x : Analysis α).checked = pure x :=
  rfl

theorem checked_bind (m : Analysis α) (f : α → Analysis β) :
    (m >>= f).checked = m.checked >>= fun x => (f x).checked := by
  funext log
  change Ending.done (Analysis.bind m f log).1 (Analysis.bind m f log).2 =
    Checked.bind m.checked (fun x => (f x).checked) log
  unfold Analysis.bind Checked.bind Analysis.checked
  generalize m log = out
  obtain ⟨r, after⟩ := out
  cases r <;> rfl

theorem checked_whole (m : Analysis α) : m.whole.checked = m.checked.whole := by
  funext log
  unfold Analysis.checked whole Analysis.whole
  dsimp only
  generalize m log = out
  obtain ⟨r, after⟩ := out
  cases r <;> rfl

/-- Whatever was logged, the first is unfinished or ends as the second does. -/
def Below (m m' : Checked α) : Prop :=
  ∀ log, m log = .unfinished ∨ m log = m' log

theorem Below.refl (m : Checked α) : m.Below m :=
  fun _ => .inr rfl

theorem Below.antisymm (h : m.Below m') (h' : m'.Below m) : m = m' := by
  funext log
  rcases h log with stops | same
  · rcases h' log with stops' | same
    · rw [stops, stops']
    · exact same.symm
  · exact same

theorem unfinished_below (m : Checked α) : unfinished.Below m :=
  fun _ => .inl rfl

theorem Below.bind (h : m.Below m') {f f' : α → Checked β} (next : ∀ x, (f x).Below (f' x)) :
    (m >>= f).Below (m' >>= f') := by
  intro log
  change Checked.bind m f log = .unfinished ∨ Checked.bind m f log = Checked.bind m' f' log
  unfold Checked.bind
  rcases h log with stops | same
  · exact .inl (by rw [stops])
  · rw [← same]
    cases m log with
    | done r after =>
      cases r with
      | none => exact .inr rfl
      | some x => exact next x after
    | _ => exact .inr rfl

theorem Below.whole (h : m.Below m') : m.whole.Below m'.whole := by
  intro log
  unfold Checked.whole
  rcases h log with stops | same
  · exact .inl (by rw [stops])
  · exact .inr (by rw [same])

theorem Below.not_bad {m' : Analysis α} (h : m.Below m'.checked) (log : Log) :
    m log ≠ .outOfRange ∧ m log ≠ .emptyQueue := by
  rcases h log with stops | same
  · simp [stops]
  · simp [same, Analysis.checked]

end Checked

/-- What is done for a task, given what is done for the tasks that it calls. -/
abbrev Procedure (T α : Type) : Type :=
  (T → Checked α) → T → Checked α

namespace Procedure

variable {T α : Type}

/-- Carries a task out with calls inside each other up to a depth. -/
def run (p : Procedure T α) : Nat → T → Checked α
  | 0, _ => .unfinished
  | depth + 1, t => p (p.run depth) t

/-- For a task no other tasks are called than these: the more is done for them, the more is done for
the task, and what is done for the others makes no difference. -/
def CallsOnly (p : Procedure T α) (Calls : T → T → Prop) : Prop :=
  ∀ f g t, (∀ u, Calls t u → (f u).Below (g u)) → (p f t).Below (p g t)

/-- The answers to all tasks are those that the procedure gives if it gets them from its calls. -/
def Satisfies (answer : T → Analysis α) (p : Procedure T α) : Prop :=
  ∀ t, p (fun u => (answer u).checked) t = (answer t).checked

variable {p : Procedure T α} {Calls : T → T → Prop} {answer : T → Analysis α}

theorem CallsOnly.congr (h : p.CallsOnly Calls) {f g : T → Checked α} {t : T}
    (same : ∀ u, Calls t u → f u = g u) : p f t = p g t := by
  apply Checked.Below.antisymm
  · exact h f g t fun u calls => same u calls ▸ .refl _
  · exact h g f t fun u calls => same u calls ▸ .refl _

/-- However deep the calls may be, a task is answered right if it is answered at all. -/
theorem run_below (calls : p.CallsOnly Calls) (right : Satisfies answer p) (depth : Nat) (t : T) :
    (p.run depth t).Below (answer t).checked := by
  induction depth generalizing t with
  | zero => exact Checked.unfinished_below _
  | succ depth ih =>
    rw [run, ← right t]
    exact calls _ _ t fun u _ => ih u

/-- Calls that go down in rank are no deeper than the rank of the task. -/
theorem run_eq (calls : p.CallsOnly Calls) (right : Satisfies answer p) (rank : T → Nat)
    (lower : ∀ t u, Calls t u → rank u < rank t) {depth : Nat} {t : T} (deep : rank t < depth) :
    p.run depth t = (answer t).checked := by
  induction depth generalizing t with
  | zero => exact absurd deep (Nat.not_lt_zero _)
  | succ depth ih =>
    rw [run, ← right t]
    apply calls.congr
    intro u called
    have below := lower t u called
    exact ih (by omega)

/-- However deep calls may be, no position is out of range and no queue is empty when it is asked
for an element; and if calls may be deep enough, the task is answered. -/
def Safe (answer : T → Analysis α) (p : Procedure T α) : Prop :=
  ∀ t, (∃ depth, ∀ more, p.run (depth + more) t = (answer t).checked) ∧
    ∀ depth log, p.run depth t log ≠ .outOfRange ∧ p.run depth t log ≠ .emptyQueue

theorem safe (calls : p.CallsOnly Calls) (right : Satisfies answer p) (rank : T → Nat)
    (lower : ∀ t u, Calls t u → rank u < rank t) : Safe answer p := by
  refine fun t => ⟨⟨rank t + 1, fun more => ?_⟩, fun depth log => ?_⟩
  · exact run_eq calls right rank lower (by omega)
  · exact (run_below calls right depth t).not_bad log

end Procedure

end ExprCheck
