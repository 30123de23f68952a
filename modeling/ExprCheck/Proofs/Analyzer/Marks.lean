import ExprCheck.Proofs.Analyzer.Builds
/-! What the marks of a node say. A mark is settled from the parts when a node is made and never
looked at again. Main statement: every node of an expression that an analysis answers is constant
exactly if nothing in it stands for a symbol, and, if effects are tracked, has one exactly if
something in it is called or initialized. -/
namespace ExprCheck

namespace Expr

/-- The node stands for a symbol of the table, or uses one. -/
def namesSymbol : Expr → Bool
  | name .. | call .. | init .. => true
  | _ => false

def invokes : Expr → Bool
  | call .. | init .. => true
  | _ => false

mutual

theorem isEffectful_eq_any (e : Expr) : e.isEffectful = e.nodes.any invokes := by
  cases e with
  | literal | name | dict | call | init => rfl
  | collection mark kind items => exact anyEffectful_eq_any items
  | unary mark op operand => exact isEffectful_eq_any operand
  | binary mark op left right =>
    change (left.isEffectful || right.isEffectful) = (left.nodes ++ right.nodes).any invokes
    rw [List.any_append, isEffectful_eq_any left, isEffectful_eq_any right]
termination_by structural e

theorem anyEffectful_eq_any (es : List Expr) : anyEffectful es = (nodesOf es).any invokes := by
  cases es with
  | nil => rfl
  | cons e rest =>
    rw [anyEffectful, nodesOf, List.any_append, isEffectful_eq_any e, anyEffectful_eq_any rest]
termination_by structural es

end

structure Marked (track : Bool) (e : Expr) : Prop where
  constant : e.isConstant = !e.nodes.any namesSymbol
  effect : e.mark.hasEffect = if track then some (e.nodes.any invokes) else none

variable {track : Bool}

theorem marked_inherit {e : Expr} {declared : ResultType} {children : List Expr}
    (mark : e.mark = .inherit track declared children) (nodes : e.nodes = e :: nodesOf children)
    (names : e.namesSymbol = false) (calls : e.invokes = false)
    (parts : ∀ c ∈ children, c.Marked track) : e.Marked track where
  constant := by
    have all : children.all isConstant = children.all fun c => !c.nodes.any namesSymbol := by
      rw [Bool.eq_iff_iff, List.all_eq_true, List.all_eq_true]
      exact forall₂_congr fun c mem => by rw [(parts c mem).constant]
    rw [nodes, List.any_cons, names, Bool.false_or, nodesOf_eq_flatMap, List.any_flatMap,
      List.not_any_eq_all_not, isConstant, mark]
    exact all
  effect := by
    have any : children.any isEffectful = children.any fun c => c.nodes.any invokes :=
      congrArg children.any (funext isEffectful_eq_any)
    rw [nodes, List.any_cons, calls, Bool.false_or, nodesOf_eq_flatMap, List.any_flatMap, ← any,
      mark]
    rfl

theorem marked_invokes {e : Expr} {declared : ResultType} {below : List Expr}
    (mark : e.mark = .settle track declared false true) (nodes : e.nodes = e :: below)
    (names : e.namesSymbol = true) (calls : e.invokes = true) : e.Marked track where
  constant := by
    rw [isConstant, mark, nodes, List.any_cons, names]
    rfl
  effect := by
    rw [mark, nodes, List.any_cons, calls]
    rfl

end Expr

namespace Analyzer

/-- Every node that the rules derive is marked as it should be. -/
theorem Builds.marked {a : Analyzer} {source : List Literal} {e : Expr} (h : a.Builds source e) :
    ∀ n ∈ e.nodes, n.Marked a.track := by
  have below {es : List Expr} (parts : ∀ e ∈ es, ∀ n ∈ e.nodes, n.Marked a.track) :
      ∀ n ∈ Expr.nodesOf es, n.Marked a.track := by
    intro n mem
    obtain ⟨e, among, inside⟩ := Expr.mem_nodesOf.mp mem
    exact parts e among n inside
  have root {e : Expr} (parts : ∀ n ∈ e.nodes, n.Marked a.track) : e.Marked a.track :=
    parts e e.self_mem_nodes
  induction h with
  | literal known => exact List.forall_mem_singleton.mpr ⟨rfl, rfl⟩
  | name found => exact List.forall_mem_singleton.mpr ⟨rfl, rfl⟩
  | dict => exact List.forall_mem_singleton.mpr ⟨rfl, rfl⟩
  | @collection kind items parts ih =>
    have here : (Expr.mkCollection a.track kind items).Marked a.track :=
      Expr.marked_inherit rfl rfl rfl rfl fun c mem => root (ih c mem)
    exact List.forall_mem_cons.mpr ⟨here, below ih⟩
  | call found enough fits agrees parts ih =>
    exact List.forall_mem_cons.mpr ⟨Expr.marked_invokes rfl rfl rfl rfl, below ih⟩
  | init found complete agrees parts ih =>
    exact List.forall_mem_cons.mpr ⟨Expr.marked_invokes rfl rfl rfl rfl, below ih⟩
  | @unary op operand result gives part ih =>
    have nodes : (Expr.mkUnary a.track op operand result).nodes =
        .mkUnary a.track op operand result :: Expr.nodesOf [operand] := by
      simp [Expr.mkUnary, Expr.nodes, Expr.nodesOf]
    have here := Expr.marked_inherit rfl nodes rfl rfl (List.forall_mem_singleton.mpr (root ih))
    exact List.forall_mem_cons.mpr ⟨here, ih⟩
  | @binary op left right result gives first second ihFirst ihSecond =>
    have nodes : (Expr.mkBinary a.track op left right result).nodes =
        .mkBinary a.track op left right result :: Expr.nodesOf [left, right] := by
      simp [Expr.mkBinary, Expr.nodes, Expr.nodesOf]
    have parts : ∀ c ∈ [left, right], c.Marked a.track :=
      List.forall_mem_cons.mpr ⟨root ihFirst, List.forall_mem_singleton.mpr (root ihSecond)⟩
    have here := Expr.marked_inherit rfl nodes rfl rfl parts
    exact List.forall_mem_cons.mpr ⟨here, List.forall_mem_append.mpr ⟨ihFirst, ihSecond⟩⟩

/-- A node is constant exactly if nothing in it, itself included, names a symbol. Its effect is kept
only if effects are tracked, and then says whether something in it is called or initialized. -/
theorem marks_of_analyze (a : Analyzer) (expected? : Option Ty) (run : List Token) (log : Log)
    (e : Expr) (made : (a.analyze expected? run log).1 = some e) :
    ∀ n ∈ e.nodes,
      (n.isConstant = true ↔ ∀ m ∈ n.nodes, m.namesSymbol = false) ∧
      n.mark.hasEffect = if a.track then some (n.nodes.any Expr.invokes) else none := by
  have built := ((analyze_yields expected? run).result made).2.1
  intro n mem
  obtain ⟨constant, effect⟩ := built.marked n mem
  refine ⟨?_, effect⟩
  rw [constant, Bool.not_eq_true', List.any_eq_false]
  simp

/-- Every name stands for a function without parameters, and effects are tracked. -/
def tracking : Analyzer :=
  ⟨fun name => some (.function name [] (.known .bool) (.point 0)), true⟩

/-- The tokens of `[f(), 1]`. -/
def callInList : List Token :=
  [.group .square [.tuple
    [[.leaf (.name "f") ⟨⟨1, 2⟩, 1⟩, .group .paren [] ⟨⟨2, 4⟩, 1⟩],
      [.leaf (.number "1") ⟨⟨6, 7⟩, 1⟩]] ⟨⟨1, 7⟩, 1⟩] ⟨⟨0, 8⟩, 1⟩]

theorem marks_callInList :
    ∃ e, (tracking.analyze none callInList []).1 = some e ∧
      ∀ n ∈ e.nodes,
        (n.isConstant = true ↔ ∀ m ∈ n.nodes, m.namesSymbol = false) ∧
        n.mark.hasEffect = some (n.nodes.any Expr.invokes) := by
  have succeeds : (tracking.analyze none callInList []).1.isSome = true := by
    decide +kernel
  obtain ⟨e, made⟩ := Option.isSome_iff_exists.mp succeeds
  exact ⟨e, made, marks_of_analyze tracking none callInList [] e made⟩

end Analyzer

end ExprCheck
