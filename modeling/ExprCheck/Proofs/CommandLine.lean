import ExprCheck.CommandLine
import ExprCheck.Proofs.Analyzer.Reports
import ExprCheck.Proofs.Program.Lines
/-! The verdict of a check. The exit code and the choice of the last line that is printed come from
the errors that were logged, the counts in it from the lines that have an expression. Main
statement: they agree. A check ends with 0 exactly if everything could be read and every line has a
type. -/
namespace ExprCheck

namespace Log

theorem errorCount_diagnostics (path : String) (log : Log) :
    (log.diagnostics path).errorCount = log.errorCount := by
  have same : Diagnostic.isError ∘ Finding.diagnostic path = Finding.isError := by
    funext f
    cases found : f.isError <;> simp [Diagnostic.isError, Finding.level_diagnostic, found]
  rw [Diagnostics.errorCount, Diagnostics.errors, ← List.countP_eq_length_filter, diagnostics,
    List.countP_map, same]
  rfl

theorem errorCount_eq_zero_iff {log : Log} : log.errorCount = 0 ↔ log.Clean := by
  rw [errorCount, List.countP_eq_zero]
  simp [Clean]

theorem clean_iff_any {log : Log} : log.Clean ↔ log.any Finding.isError = false := by
  simp [Clean]

end Log

namespace Analyzer

variable (a : Analyzer)

/-- The line gets an expression, and so a type. -/
def types (line : List Token) : Bool :=
  (a.analyze none line []).1.isSome

def findings (lines : List (List Token)) : Log :=
  lines.flatMap fun line => (a.analyze none line []).2

theorem types_iff_clean (line : List Token) :
    a.types line = true ↔ (a.analyze none line []).2.Clean := by
  obtain ⟨new, appended, settled⟩ := a.analyze_gives_up_iff none line []
  rw [appended, List.nil_append, types, Option.isSome_iff_ne_none, ne_eq, settled]
  exact Classical.not_not

theorem clean_findings_iff (lines : List (List Token)) :
    (a.findings lines).Clean ↔ ∀ line ∈ lines, a.types line := by
  simp only [findings, Log.Clean, List.mem_flatMap, types_iff_clean]
  constructor
  · intro clean line mem f among
    exact clean f ⟨line, mem, among⟩
  · rintro clean f ⟨line, mem, among⟩
    exact clean line mem f among

/-- Every line without a type has logged an error of its own. -/
theorem untyped_le_errorCount (lines : List (List Token)) :
    lines.countP (fun line => !a.types line) ≤ (a.findings lines).errorCount := by
  induction lines with
  | nil => exact Nat.le_refl 0
  | cons line rest ih =>
    have whole : (a.findings (line :: rest)).errorCount =
        (a.analyze none line []).2.errorCount + (a.findings rest).errorCount := by
      rw [findings, List.flatMap_cons]
      exact List.countP_append
    rw [whole, List.countP_cons]
    cases typed : a.types line with
    | true =>
      simp only [Bool.not_true, Bool.false_eq_true, if_false]
      omega
    | false =>
      have own : (a.analyze none line []).2.errorCount ≠ 0 := by
        rw [ne_eq, Log.errorCount_eq_zero_iff, ← types_iff_clean, typed]
        decide
      simp only [Bool.not_false, if_true]
      omega

theorem analyzeLines_eq {source : String} {ts : List Token} (read : tokenize source = .ok ts) :
    ∃ o, a.analyzeLines source = .ok o ∧ o.lines.length = (tokenLines ts).length ∧
      o.exprs.length = (tokenLines ts).countP a.types ∧ o.log = a.findings (tokenLines ts) := by
  refine ⟨_, a.analyzeLines_of_tokenize read, ?_, ?_, ?_⟩
  · simp [analyzeRuns_eq]
  · simp only [Outcome.exprs, analyzeRuns_eq, List.filterMap_map, List.length_filterMap_eq_countP]
    rfl
  · simp [analyzeRuns_eq, findings]

end Analyzer

theorem Style.exists_apply {s : Style} (some : s.attributes.isEmpty = false) (text : String) :
    ∃ rest, s.apply true text = s.start ++ rest := by
  refine ⟨text.replace reset (reset ++ s.start) ++ reset, ?_⟩
  simp [apply, some, String.append_assoc]

namespace CommandLine

namespace Request

theorem passedText_ne_failedText (styled : Bool) (input : String) (total warnings : Nat)
    (input' : String) (passed total' errors warnings' : Nat) :
    passedText styled input total warnings ≠
      failedText styled input' passed total' errors warnings' := by
  intro same
  unfold passedText failedText at same
  cases styled with
  | false =>
    have chars := congrArg (fun text => text.toList.head?) same
    simp [Style.apply] at chars
  | true =>
    have red : Color.red.bold.start.toList = "\x1b[1;31m".toList := by decide
    have green : Color.green.bold.start.toList = "\x1b[1;32m".toList := by decide
    obtain ⟨passes, good⟩ := Style.exists_apply (s := Color.green.bold) rfl "✔"
    obtain ⟨fails, bad⟩ := Style.exists_apply (s := Color.red.bold) rfl "✘"
    rw [good, bad] at same
    have chars := congrArg (fun text => text.toList[5]?) same
    simp [red, green] at chars

variable {r : Request} {w : World} {input : String} {a : Analyzer} {lines : List (List Token)}

def Loads (r : Request) (w : World) (table : ScopeTable) : Prop :=
  match r.prelude? with
  | none => table = .empty
  | some path => ∃ text, w.read path = .ok text ∧ readPrelude text = .ok table

/-- There are lines to analyze: the prelude loads, and the source has tokens. -/
inductive Prepares (r : Request) (w : World) (input : String) :
    Analyzer → List (List Token) → Prop
  | mk {table : ScopeTable} {source : String} {ts : List Token} (loads : r.Loads w table)
      (read : w.read input = .ok source) (tokens : tokenize source = .ok ts) :
      Prepares r w input ⟨table.lookup?, r.effects⟩ (tokenLines ts)

/-- All lines of the source have a type, with the symbols of the prelude. -/
def Passes (r : Request) (w : World) (input : String) : Prop :=
  ∃ a lines, r.Prepares w input a lines ∧ ∀ line ∈ lines, a.types line

theorem loadSymbols_eq_ok_iff {table : ScopeTable} :
    r.loadSymbols w = .ok table ↔ r.Loads w table := by
  unfold loadSymbols Loads
  cases r.prelude? with
  | none => simp [eq_comm]
  | some path =>
    cases read : w.read path with
    | error reason => simp [read]
    | ok text => simp [read, mapError_eq_ok_iff]

theorem of_loadSymbols_eq_error {result : Result} (fails : r.loadSymbols w = .error result) :
    result.code = 1 ∧ result.stdout = "" := by
  unfold loadSymbols at fails
  split at fails
  · cases fails
  · rename_i path given
    cases read : w.read path with
    | error reason =>
      rw [read] at fails
      cases fails
      exact ⟨rfl, rfl⟩
    | ok text =>
      rw [read] at fails
      cases loaded : readPrelude text with
      | ok table =>
        simp only [loaded] at fails
        cases fails
      | error failure =>
        simp only [loaded] at fails
        cases fails
        exact ⟨rfl, rfl⟩

theorem run_of_not_prepares (check : r.command = .check input)
    (unprepared : ¬∃ a lines, r.Prepares w input a lines) :
    (r.run w).code = 1 ∧ (r.run w).stdout = "" := by
  unfold run
  cases loaded : r.loadSymbols w with
  | error result => exact of_loadSymbols_eq_error loaded
  | ok table =>
    simp only [check]
    unfold runCheck
    cases read : w.read input with
    | error reason => exact ⟨rfl, rfl⟩
    | ok source =>
      cases tokens : tokenize source with
      | ok ts => exact absurd ⟨_, _, .mk (loadSymbols_eq_ok_iff.mp loaded) read tokens⟩ unprepared
      | error e =>
        have stuck : (Analyzer.mk table.lookup? r.effects).analyzeLines source = .error e := by
          unfold Analyzer.analyzeLines
          rw [tokens]
          rfl
        simp only [stuck]
        exact ⟨rfl, rfl⟩

theorem run_of_prepares (check : r.command = .check input) (ready : r.Prepares w input a lines) :
    let log := a.findings lines
    let warnings := (log.diagnostics input).warningCount
    (r.run w).code = (if log.any Finding.isError then 1 else 0) ∧
    (r.run w).stdout = if log.errorCount = 0 then passedText w.styles input lines.length warnings
      else failedText w.styles input (lines.countP a.types) lines.length log.errorCount
        warnings := by
  obtain ⟨loads, read, tokens⟩ := ready
  rename_i table source ts
  obtain ⟨o, analyzed, total, passed, logged⟩ :=
    (Analyzer.mk table.lookup? r.effects).analyzeLines_eq tokens
  have ran : r.run w = r.finished w input source o.log input (summary w input o) := by
    unfold run
    simp only [loadSymbols_eq_ok_iff.mpr loads, check]
    unfold runCheck
    simp only [read, analyzed]
  rw [ran, ← logged, ← total, ← passed]
  constructor
  · rfl
  · change summary w input o = _
    simp only [summary, Log.errorCount_diagnostics]

theorem run_of_typed (check : r.command = .check input) (ready : r.Prepares w input a lines)
    (typed : ∀ line ∈ lines, a.types line) :
    (r.run w).code = 0 ∧ (r.run w).stdout = passedText w.styles input lines.length
      ((a.findings lines).diagnostics input).warningCount := by
  have clean := (a.clean_findings_iff lines).mpr typed
  obtain ⟨code, stdout⟩ := run_of_prepares check ready
  constructor
  · rw [code, Log.clean_iff_any.mp clean]
    rfl
  · rw [stdout, if_pos (Log.errorCount_eq_zero_iff.mpr clean)]

theorem run_of_untyped (check : r.command = .check input) (ready : r.Prepares w input a lines)
    (untyped : ¬∀ line ∈ lines, a.types line) :
    (r.run w).code = 1 ∧ (r.run w).stdout = failedText w.styles input (lines.countP a.types)
      lines.length (a.findings lines).errorCount
      ((a.findings lines).diagnostics input).warningCount := by
  rw [← a.clean_findings_iff] at untyped
  obtain ⟨code, stdout⟩ := run_of_prepares check ready
  constructor
  · rw [code, if_pos (Bool.not_eq_false _ ▸ mt Log.clean_iff_any.mpr untyped)]
  · rw [stdout, if_neg (mt Log.errorCount_eq_zero_iff.mp untyped)]

theorem code_of_passes (check : r.command = .check input) (passes : r.Passes w input) :
    (r.run w).code = 0 := by
  obtain ⟨a, lines, ready, typed⟩ := passes
  exact (run_of_typed check ready typed).1

theorem code_of_not_passes (check : r.command = .check input) (fails : ¬r.Passes w input) :
    (r.run w).code = 1 := by
  by_cases ready : ∃ a lines, r.Prepares w input a lines
  · obtain ⟨a, lines, prepared⟩ := ready
    have untyped : ¬∀ line ∈ lines, a.types line := by
      intro typed
      exact fails ⟨a, lines, prepared, typed⟩
    exact (run_of_untyped check prepared untyped).1
  · exact (run_of_not_prepares check ready).1

end Request

/-- A check ends with 0 exactly if its prelude loads, its source has tokens and every line of these
has a type, and with 1 otherwise. It prints nothing if the prelude does not load or the source has
no tokens. Else the line that tells of a success is printed exactly if all lines have a type, and if
not, one that gives how many have, and at least as many errors as lines that have none. -/
theorem check_verdict {w : World} {args : List String} {r : Request} {input : String}
    (parsed : parse args = .request r) (check : r.command = .check input) :
    let result := execute w args
    (result.code = 0 ↔ r.Passes w input) ∧ (result.code = 0 ∨ result.code = 1) ∧
    ((¬∃ a lines, r.Prepares w input a lines) → result.stdout = "") ∧
    ∀ a lines, r.Prepares w input a lines →
      let errors := (a.findings lines).errorCount
      let warnings := ((a.findings lines).diagnostics input).warningCount
      ((∃ n m, result.stdout = Request.passedText w.styles input n m) ↔
        ∀ line ∈ lines, a.types line) ∧
      ((∀ line ∈ lines, a.types line) →
        result.stdout = Request.passedText w.styles input lines.length warnings) ∧
      ((¬∀ line ∈ lines, a.types line) →
        result.stdout = Request.failedText w.styles input (lines.countP a.types) lines.length errors
          warnings ∧
        0 < lines.countP (fun line => !a.types line) ∧
        lines.countP (fun line => !a.types line) ≤ errors) := by
  intro result
  have ran : result = r.run w := by
    simp only [result, execute, parsed]
  rw [ran]
  refine ⟨?_, ?_, fun unprepared => (Request.run_of_not_prepares check unprepared).2, ?_⟩
  · constructor
    · intro zero
      by_cases passes : r.Passes w input
      · exact passes
      · have one := Request.code_of_not_passes check passes
        omega
    · exact Request.code_of_passes check
  · by_cases passes : r.Passes w input
    · exact .inl (Request.code_of_passes check passes)
    · exact .inr (Request.code_of_not_passes check passes)
  · intro a lines ready errors warnings
    by_cases typed : ∀ line ∈ lines, a.types line
    · have printed := (Request.run_of_typed check ready typed).2
      exact ⟨⟨fun _ => typed, fun _ => ⟨_, _, printed⟩⟩, fun _ => printed, absurd typed⟩
    · have printed := (Request.run_of_untyped check ready typed).2
      refine ⟨⟨?_, fun other => absurd other typed⟩, fun other => absurd other typed, fun _ => ?_⟩
      · rintro ⟨n, m, passed⟩
        cases Request.passedText_ne_failedText _ _ _ _ _ _ _ _ _ (passed.symm.trans printed)
      · have some : 0 < lines.countP fun line => !a.types line := by
          rw [List.countP_pos_iff]
          simpa using typed
        exact ⟨printed, some, a.untyped_le_errorCount lines⟩

/- The second line is a name that nothing declares. -/
theorem check_verdict_unknown_name :
    let result := execute ⟨fun _ => .ok "1\nx", false⟩ ["check", "s"]
    result.stdout = Request.failedText false "s" 1 2 1 0 ∧
      ∀ n m, result.stdout ≠ Request.passedText false "s" n m := by
  intro result
  let r : Request := ⟨.check "s", none, false, false⟩
  let w : World := ⟨fun _ => .ok "1\nx", false⟩
  let a : Analyzer := ⟨ScopeTable.empty.lookup?, false⟩
  let x : List Token := [.leaf (.name "x") ⟨⟨2, 3⟩, 2⟩]
  let lines : List (List Token) := [[.leaf (.number "1") ⟨⟨0, 1⟩, 1⟩], x]
  have parsed : parse ["check", "s"] = .request r := by decide +kernel
  have tokens : tokenize "1\nx" = .ok [.leaf (.number "1") ⟨⟨0, 1⟩, 1⟩, .leaf .newline ⟨⟨1, 2⟩, 1⟩,
      .leaf (.name "x") ⟨⟨2, 3⟩, 2⟩, .leaf .endMarker ⟨⟨3, 3⟩, 2⟩] := by with_unfolding_all rfl
  have loads : r.Loads w .empty := rfl
  have ready : r.Prepares w "s" a lines := .mk loads rfl tokens
  have untyped : ¬∀ line ∈ lines, a.types line := by
    intro typed
    have one := typed x (List.mem_cons_of_mem _ List.mem_cons_self)
    exact absurd one (by decide +kernel)
  have counted : lines.countP a.types = 1 ∧ (a.findings lines).errorCount = 1 ∧
      ((a.findings lines).diagnostics "s").warningCount = 0 := by decide +kernel
  obtain ⟨-, -, -, summary⟩ := check_verdict parsed rfl
  obtain ⟨passed, -, failed⟩ := summary a lines ready
  obtain ⟨typed, errors, warnings⟩ := counted
  constructor
  · have printed := (failed untyped).1
    rwa [typed, errors, warnings] at printed
  · intro n m printed
    exact untyped (passed.mp ⟨n, m, printed⟩)

end CommandLine

end ExprCheck
