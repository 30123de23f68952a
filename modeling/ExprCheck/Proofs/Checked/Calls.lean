import Mathlib.Logic.Relation
import ExprCheck.Proofs.Checked.Tasks
import ExprCheck.Proofs.Form.Calls
/-! Which tasks call which. A run of operands with operators between them is passed on to be cut,
and its operands come back as runs or as calls. Main statement: what comes back is a shorter part of
what was passed on, so between two calls of one kind the run gets shorter or tokens are less deeply
nested, and the procedures come to an end for every run. -/
namespace ExprCheck

/-! ## Nesting -/

mutual

/-- How deeply brackets and tuples are nested in a token. -/
def Token.depth : Token → Nat
  | .leaf .. => 0
  | .tuple items _ => itemsDepth items + 1
  | .group _ inner _ => runDepth inner + 1

def runDepth : List Token → Nat
  | [] => 0
  | t :: rest => max t.depth (runDepth rest)

def itemsDepth : List (List Token) → Nat
  | [] => 0
  | item :: rest => max (runDepth item) (itemsDepth rest)

end

theorem depth_le_runDepth {t : Token} {run : List Token} (mem : t ∈ run) : t.depth ≤ runDepth run := by
  induction run with
  | nil => cases mem
  | cons u rest ih =>
    rw [runDepth]
    rcases List.mem_cons.mp mem with rfl | behind
    · exact Nat.le_max_left ..
    · exact Nat.le_trans (ih behind) (Nat.le_max_right ..)

theorem runDepth_le_itemsDepth {item : List Token} {items : List (List Token)}
    (mem : item ∈ items) : runDepth item ≤ itemsDepth items := by
  induction items with
  | nil => cases mem
  | cons first rest ih =>
    rw [itemsDepth]
    rcases List.mem_cons.mp mem with rfl | behind
    · exact Nat.le_max_left ..
    · exact Nat.le_trans (ih behind) (Nat.le_max_right ..)

theorem runDepth_le_of_subset {part run : List Token} (among : part ⊆ run) :
    runDepth part ≤ runDepth run := by
  induction part with
  | nil => exact Nat.zero_le _
  | cons t rest ih =>
    obtain ⟨here, below⟩ := List.cons_subset.mp among
    exact Nat.max_le.mpr ⟨depth_le_runDepth here, ih below⟩

theorem runDepth_singleton (t : Token) : runDepth [t] = t.depth :=
  Nat.max_zero _

theorem runDepth_lt_of_item {item : List Token} {items : List (List Token)}
    (mem : item ∈ Grammar.trimmed items) (place : Place) :
    runDepth item < (Token.tuple items place).depth :=
  Nat.lt_succ_of_le (runDepth_le_itemsDepth (Grammar.mem_of_mem_trimmed mem))

theorem runDepth_lt_of_argument {t : Token} {arg : List Token} (mem : arg ∈ t.arguments) :
    runDepth arg < t.depth := by
  unfold Token.arguments at mem
  split at mem
  · cases mem
  · rename_i items place' place
    have inside := runDepth_lt_of_item mem place'
    rw [Token.depth, runDepth_singleton]
    exact Nat.lt_succ_of_lt inside
  · cases List.mem_singleton.mp mem
    exact Nat.lt_succ_self _
  · cases mem

/-! ## Operands -/

theorem Chain.infix_of_mem_operands {run : List Token} {c : Chain Token} {piece : Piece Token}
    (read : Chain.split id run = .ok c) (mem : piece ∈ c.operands) : piece.run <:+: run := by
  obtain ⟨proper, rfl⟩ := Chain.split_eq_ok_iff.mp read
  have stretches := Chain.stretch_of_proper proper
  simp only [List.map_id] at stretches
  have stretch : Stretch piece.run c.elements := by
    rcases List.mem_cons.mp mem with rfl | behind
    · exact stretches.1
    · obtain ⟨x, among, rfl⟩ := List.mem_map.mp behind
      exact stretches.2 x among
  obtain ⟨before, after, whole, -, -⟩ := stretch
  exact ⟨before, after, whole.symm⟩

namespace Analyzer

/-- A run that a single token or a dotted name makes up. -/
def IsSimple (run : List Token) : Prop :=
  run.length = 1 ∨ (dottedName? run).isSome

/-- A run that is neither a name nor a call, and no single token. -/
def IsOperation (run : List Token) : Prop :=
  2 ≤ run.length ∧ dottedName? run = none ∧ isCall true run = false

instance (run : List Token) : Decidable (IsOperation run) :=
  inferInstanceAs (Decidable (_ ∧ _ ∧ _))

/-! ## Calls -/

/-- The first task may call the second one. -/
inductive Task.Calls : Task → Task → Prop
  | settled (expected? : Option Ty) (run : List Token) : Calls (.expression expected? run) (.run run)
  | item {items : List (List Token)} {item : List Token} (place : Place)
      (mem : item ∈ Grammar.trimmed items) :
      Calls (.run [.tuple items place]) (.expression none item)
  | inner (bracket : Bracket) (inner : List Token) (place : Place) :
      Calls (.run [.group bracket inner place]) (.run inner)
  | call {run : List Token} (call : isCall true run = true) : Calls (.run run) (.call run)
  | assembly {run : List Token} (operation : IsOperation run) : Calls (.run run) (.assembly run)
  | argument {head : List Token} {paren : Token} {arg : List Token} (mem : arg ∈ paren.arguments) :
      Calls (.call (head ++ [paren])) (.expression none arg)
  | simpleOperand {run : List Token} {c : Chain Token} {piece : Piece Token}
      (read : Chain.split id run = .ok c) (mem : piece ∈ c.operands) (simple : IsSimple piece.run) :
      Calls (.assembly run) (.run piece.run)
  | callOperand {run : List Token} {c : Chain Token} {piece : Piece Token}
      (read : Chain.split id run = .ok c) (mem : piece ∈ c.operands)
      (call : isCall true piece.run = true) : Calls (.assembly run) (.call piece.run)

open Checked

variable {a : Analyzer} {f g : Task → Checked Expr}

theorem itemsTask_below (place : Place) {items : List (List Token)}
    (below : ∀ item ∈ items, (f (.expression none item)).Below (g (.expression none item))) :
    (itemsTask f place items).Below (itemsTask g place items) := by
  induction items with
  | nil => exact .refl _
  | cons item rest ih =>
    obtain ⟨here, behind⟩ := List.forall_mem_cons.mp below
    unfold itemsTask
    split
    · exact .refl _
    · exact here.bind fun _ => (ih behind).bind fun _ => .refl _

theorem argumentsTask_below (params : ParamList) {args : List (List Token)}
    (below : ∀ arg ∈ args, (f (.expression none arg)).Below (g (.expression none arg))) :
    (argumentsTask f params args).Below (argumentsTask g params args) := by
  induction args generalizing params with
  | nil => cases params <;> exact .refl _
  | cons arg args ih =>
    obtain ⟨here, behind⟩ := List.forall_mem_cons.mp below
    cases params with
    | nil => exact .refl _
    | cons p params =>
      exact here.bind fun _ => (Below.refl _).bind fun _ => (ih params behind).bind fun _ => .refl _

theorem calleeTask_below (head : List Token) {paren : Token}
    (below : ∀ arg ∈ paren.arguments, (f (.expression none arg)).Below (g (.expression none arg))) :
    (a.calleeTask f head paren).Below (a.calleeTask g head paren) := by
  have compared {β : Type} (name : String) (params : ParamList) (required : Nat)
      (next : List Expr → Checked β) :
      (argumentRuns name params required paren >>= fun args =>
          (argumentsTask f params args).whole >>= next).Below
        (argumentRuns name params required paren >>= fun args =>
          (argumentsTask g params args).whole >>= next) := by
    unfold argumentRuns
    split
    · exact .refl _
    · rw [bind_assoc, bind_assoc]
      refine (Below.refl _).bind fun _ => ?_
      simp only [pure_bind]
      exact (argumentsTask_below params below).whole.bind fun _ => .refl _
  unfold calleeTask
  split
  · exact .refl _
  · split
    · exact compared _ _ _ _
    · exact compared _ _ _ _
    · exact .refl _

theorem tokenTask_below (t : Token)
    (below : ∀ u, Task.Calls (.run [t]) u → (f u).Below (g u)) :
    (a.tokenTask f t).Below (a.tokenTask g t) := by
  cases t with
  | leaf l place => exact .refl _
  | tuple items place =>
    exact (itemsTask_below place fun item mem => below _ (.item place mem)).bind fun _ => .refl _
  | group bracket inner place =>
    change (a.groupTask f bracket inner).Below (a.groupTask g bracket inner)
    unfold groupTask
    split
    · exact .refl _
    · exact (below _ (.inner bracket inner place)).bind fun _ => .refl _

theorem runTask_below (run : List Token) (below : ∀ u, Task.Calls (.run run) u → (f u).Below (g u)) :
    (a.runTask f run).Below (a.runTask g run) := by
  refine Below.whole ?_
  split
  · exact .refl _
  · exact tokenTask_below _ below
  · rename_i empty single
    split
    · exact .refl _
    · rename_i unnamed
      simp only [nameCall_eq, pure_bind]
      split
      · rename_i call
        exact below _ (.call call)
      · rename_i noCall
        have several : 2 ≤ run.length := by
          cases run with
          | nil => exact absurd rfl empty
          | cons t rest =>
            cases rest with
            | nil => exact absurd rfl (single t)
            | cons u rest => simp
        exact below _ (.assembly ⟨several, unnamed, by simpa using noCall⟩)

theorem callTask_below (run : List Token) (below : ∀ u, Task.Calls (.call run) u → (f u).Below (g u)) :
    (a.callTask f run).Below (a.callTask g run) := by
  rw [callTask_eq, callTask_eq]
  split
  · exact .refl _
  · exact .refl _
  · rename_i head paren cut
    obtain ⟨rfl, -, -⟩ := of_splitAtFirst_eq_some cut
    exact calleeTask_below head fun arg mem => below _ (.argument mem)

theorem operandTask_below {run : List Token} {c : Chain Token}
    (read : Chain.split id run = .ok c) {piece : Piece Token} (mem : piece ∈ c.operands)
    (below : ∀ u, Task.Calls (.assembly run) u → (f u).Below (g u)) :
    (operandTask f piece.run).Below (operandTask g piece.run) := by
  unfold operandTask
  split
  · rename_i simple
    exact below _ (.simpleOperand read mem simple)
  · simp only [nameCall_eq, pure_bind]
    split
    · rename_i call
      exact below _ (.callOperand read mem call)
    · exact .refl _

theorem piecesTask_below {operands : List (Piece Token)}
    (below : ∀ piece ∈ operands, (operandTask f piece.run).Below (operandTask g piece.run)) :
    (a.piecesTask f operands).Below (a.piecesTask g operands) := by
  induction operands with
  | nil => exact .refl _
  | cons piece rest ih =>
    obtain ⟨here, behind⟩ := List.forall_mem_cons.mp below
    exact (here.bind fun _ => .refl _).bind fun _ => (ih behind).bind fun _ => .refl _

theorem assemblyTask_below (run : List Token)
    (below : ∀ u, Task.Calls (.assembly run) u → (f u).Below (g u)) :
    (a.assemblyTask f run).Below (a.assemblyTask g run) := by
  unfold assemblyTask
  rw [cut_eq]
  cases read : Chain.split id run with
  | error t? => exact .refl _
  | ok c =>
    simp only [ofSplit, List.nil_append, pure_bind]
    have pieces : (a.piecesTask f c.operands).Below (a.piecesTask g c.operands) :=
      piecesTask_below fun piece mem => operandTask_below read mem below
    exact pieces.bind fun _ => .refl _

theorem callsOnly (a : Analyzer) : a.procedure.CallsOnly Task.Calls := by
  intro f g task below
  cases task with
  | expression expected? run => exact (below _ (.settled expected? run)).bind fun _ => .refl _
  | run run => exact runTask_below run below
  | call run => exact callTask_below run below
  | assembly run => exact assemblyTask_below run below

/-! ## Going down -/

namespace Task

def depth (t : Task) : Nat :=
  runDepth t.tokens

/-- The kinds of tasks, with those that pass a run on above those that they pass it to. -/
def stage : Task → Nat
  | .expression .. => 3
  | .run _ => 2
  | .assembly _ => 1
  | .call _ => 0

/-- Operands with operators between them are only looked for in a run that asks for it. -/
def Asked : Task → Prop
  | .assembly tokens => Calls (.run tokens) (.assembly tokens)
  | _ => True

/-- The first task is less deeply nested than the second, or not deeper and shorter, or of a lower
kind with a run that is neither deeper nor longer. -/
def Smaller (u t : Task) : Prop :=
  u.depth < t.depth ∨ u.depth ≤ t.depth ∧
    (u.tokens.length < t.tokens.length ∨
      u.tokens.length ≤ t.tokens.length ∧ u.stage < t.stage)

theorem Smaller.trans {t u v : Task} (h : v.Smaller u) (h' : u.Smaller t) : v.Smaller t := by
  unfold Smaller at *
  omega

theorem isOperation_of_calls {run : List Token} (asked : Calls (.run run) (.assembly run)) :
    IsOperation run := by
  cases asked with
  | assembly operation => exact operation

theorem smaller_of_stage {t u : Task} (same : u.tokens = t.tokens) (lower : u.stage < t.stage) :
    u.Smaller t := by
  have depth : u.depth ≤ t.depth := Nat.le_of_eq (congrArg runDepth same)
  exact .inr ⟨depth, .inr ⟨Nat.le_of_eq (congrArg List.length same), lower⟩⟩

theorem shorter_of_operand {run part : List Token} (operation : IsOperation run)
    (inside : part <:+: run) (operand : IsSimple part ∨ isCall true part = true) :
    part.length < run.length := by
  obtain ⟨several, unnamed, noCall⟩ := operation
  refine Nat.lt_of_le_of_ne inside.length_le fun same => ?_
  obtain rfl := inside.eq_of_length same
  rcases operand with (single | named) | call
  · omega
  · simp [unnamed] at named
  · simp [noCall] at call

/-- What comes back from a run that was passed on to be cut is a shorter part of it. -/
theorem shorter_of_assembly {run : List Token} {t : Task}
    (asked : Calls (.run run) (.assembly run)) (back : Calls (.assembly run) t) :
    t.tokens <:+: run ∧ t.tokens.length < run.length := by
  have operation := isOperation_of_calls asked
  cases back with
  | simpleOperand read mem simple =>
    have inside := Chain.infix_of_mem_operands read mem
    exact ⟨inside, shorter_of_operand operation inside (.inl simple)⟩
  | callOperand read mem call =>
    have inside := Chain.infix_of_mem_operands read mem
    exact ⟨inside, shorter_of_operand operation inside (.inr call)⟩

theorem Calls.smaller {t u : Task} (h : Calls t u) (asked : t.Asked) : u.Smaller t ∧ u.Asked := by
  cases h with
  | settled expected? run => exact ⟨smaller_of_stage rfl (Nat.lt_succ_self 2), trivial⟩
  | item place mem =>
    refine ⟨.inl ?_, trivial⟩
    exact Nat.lt_of_lt_of_eq (runDepth_lt_of_item mem place) (runDepth_singleton _).symm
  | inner bracket inner place =>
    refine ⟨.inl ?_, trivial⟩
    have single := runDepth_singleton (.group bracket inner place)
    exact Nat.lt_of_lt_of_eq (Nat.lt_succ_self (runDepth inner)) single.symm
  | call call => exact ⟨smaller_of_stage rfl Nat.zero_lt_two, trivial⟩
  | assembly operation => exact ⟨smaller_of_stage rfl Nat.one_lt_two, .assembly operation⟩
  | argument mem =>
    refine ⟨.inl ?_, trivial⟩
    have deeper := runDepth_lt_of_argument mem
    exact Nat.lt_of_lt_of_le deeper (depth_le_runDepth (List.mem_append_right _ (.head _)))
  | simpleOperand read mem simple =>
    obtain ⟨inside, shorter⟩ := shorter_of_assembly asked (.simpleOperand read mem simple)
    exact ⟨.inr ⟨runDepth_le_of_subset inside.subset, .inl shorter⟩, trivial⟩
  | callOperand read mem call =>
    obtain ⟨inside, shorter⟩ := shorter_of_assembly asked (.callOperand read mem call)
    exact ⟨.inr ⟨runDepth_le_of_subset inside.subset, .inl shorter⟩, trivial⟩

theorem smaller_of_transGen {t u : Task} (asked : t.Asked) (calls : Relation.TransGen Calls t u) :
    u.Smaller t ∧ u.Asked := by
  induction calls with
  | single call => exact call.smaller asked
  | tail _ call ih =>
    obtain ⟨below, asked'⟩ := call.smaller ih.2
    exact ⟨below.trans ih.1, asked'⟩

/-- How many calls can be inside each other. A run that is cut stands above its operands, which are
as deeply nested as it is. -/
def rank : Task → Nat
  | .expression _ tokens => 5 * runDepth tokens + 4
  | .run tokens => 5 * runDepth tokens + if IsOperation tokens then 3 else 1
  | .assembly tokens => 5 * runDepth tokens + 2
  | .call tokens => 5 * runDepth tokens

theorem rank_run_le (run : List Token) : rank (.run run) ≤ 5 * runDepth run + 3 := by
  rw [rank]
  split <;> omega

theorem rank_run_of_simple {run : List Token} (simple : IsSimple run) :
    rank (.run run) = 5 * runDepth run + 1 := by
  have noOperation : ¬IsOperation run := by
    rintro ⟨several, unnamed, -⟩
    rcases simple with single | named
    · omega
    · simp [unnamed] at named
  rw [rank, if_neg noOperation]

theorem Calls.rank_lt {t u : Task} (h : Calls t u) : u.rank < t.rank := by
  cases h with
  | settled expected? run => exact Nat.lt_succ_of_le (rank_run_le run)
  | item place mem =>
    have deeper := runDepth_lt_of_item mem place
    rw [rank, rank, runDepth_singleton]
    omega
  | inner bracket inner place =>
    have below := rank_run_le inner
    have deeper : (Token.group bracket inner place).depth = runDepth inner + 1 := rfl
    have here : rank (.run [.group bracket inner place]) = _ := rank_run_of_simple (.inl rfl)
    rw [here, runDepth_singleton, deeper]
    omega
  | call call =>
    rw [rank, rank]
    split <;> omega
  | assembly operation =>
    rw [rank, rank, if_pos operation]
    omega
  | argument mem =>
    have deeper := runDepth_lt_of_argument mem
    rename_i head paren arg
    have among : paren.depth ≤ runDepth (head ++ [paren]) := depth_le_runDepth (by simp)
    rw [rank, rank]
    omega
  | simpleOperand read mem simple =>
    have within := runDepth_le_of_subset (Chain.infix_of_mem_operands read mem).subset
    rw [rank_run_of_simple simple, rank]
    omega
  | callOperand read mem call =>
    have within := runDepth_le_of_subset (Chain.infix_of_mem_operands read mem).subset
    rw [rank, rank]
    omega

end Task

/-- The procedure answers as the analysis of forms does, if calls may be nested as deeply as the
task needs. -/
theorem safe (a : Analyzer) : Procedure.Safe a.answer a.procedure :=
  Procedure.safe a.callsOnly a.satisfies Task.rank fun _ _ call => call.rank_lt

/-- These are all calls. A run that is passed on to be cut comes back only in shorter parts, so that
from a task to the next one of its kind a run gets shorter or tokens are less deeply nested; and
every task comes to an end. -/
theorem calls_descend (a : Analyzer) :
    a.procedure.CallsOnly Task.Calls ∧
      (∀ run t, Task.Calls (.run run) (.assembly run) → Task.Calls (.assembly run) t →
        t.tokens <:+: run ∧ t.tokens.length < run.length) ∧
      (∀ t u : Task, t.Asked → Relation.TransGen Task.Calls t u → u.stage = t.stage →
        u.depth < t.depth ∨ u.depth ≤ t.depth ∧ u.tokens.length < t.tokens.length) ∧
      ∀ task, ∃ depth, ∀ more, a.procedure.run (depth + more) task = (a.answer task).checked := by
  refine ⟨a.callsOnly, fun run t => Task.shorter_of_assembly, fun t u asked calls same => ?_,
    fun task => (a.safe task).1⟩
  have smaller := (Task.smaller_of_transGen asked calls).1
  unfold Task.Smaller at smaller
  omega

/-- The tokens of `x + y`, all at one place. -/
def sumTokens : List Token :=
  [.name "x", .op "+", .name "y"].map fun l => .leaf l ⟨.point 0, 1⟩

def leftTokens : List Token :=
  sumTokens.take 1

theorem calls_descend_sum :
    leftTokens <:+: sumTokens ∧ leftTokens.length < sumTokens.length ∧
      (Task.depth (.run leftTokens) < Task.depth (.run sumTokens) ∨
        Task.depth (.run leftTokens) ≤ Task.depth (.run sumTokens) ∧
          leftTokens.length < sumTokens.length) := by
  obtain ⟨-, shorter, cycle, -⟩ := calls_descend ⟨fun _ => none, false⟩
  let x : Piece Token := ⟨[], leftTokens⟩
  let y : Piece Token := ⟨[], [.leaf (.name "y") ⟨.point 0, 1⟩]⟩
  have asked : Task.Calls (.run sumTokens) (.assembly sumTokens) := .assembly (by decide)
  have read : Chain.split id sumTokens =
      .ok ⟨x, [((.add, .leaf (.op "+") ⟨.point 0, 1⟩), y)]⟩ := rfl
  have back : Task.Calls (.assembly sumTokens) (.run x.run) :=
    .simpleOperand read (List.mem_cons_self ..) (.inl rfl)
  obtain ⟨inside, less⟩ := shorter sumTokens (.run x.run) asked back
  exact ⟨inside, less, cycle (.run sumTokens) (.run x.run) trivial (.tail (.single asked) back) rfl⟩

end Analyzer

end ExprCheck
