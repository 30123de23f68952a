import Mathlib.Data.List.TakeWhile
import ExprCheck.Proofs.Leaves
import ExprCheck.Proofs.Verdict.Looks
/-! How often a verdict notes a name. A verdict stops at the first name that is not defined, but it
may come there more than once: a call on the left of a binary operator is judged as a call and again
as a value, and what a `~`, `!` or `not` stands in front of is judged alone and again together with
that operator. The looks multiply along the way. Main statement: all notes of a verdict are of one
name, and their number is the product of the looks on the way to it. -/
namespace ExprCheck

variable {lookup : Lookup} {f : Finding} {signs run after : List Token} {t m : Token}

/-- How many operators stand directly in front of an operand that cannot be binary. -/
def repeats (signs : List Token) : Nat :=
  (signs.reverse.takeWhile fun t => t.binaryOp?.isNone).length

/-- Judging the run notes the finding so many times. -/
inductive Finding.NotedTimes (lookup : Lookup) (f : Finding) : Nat → List Token → Prop
  | name {run : List Token} {text : String} (spells : dottedName? run = some text)
      (unknown : lookup text = none) (same : f = ⟨.fault (.undefinedName text), lastPlace? run⟩) :
      NotedTimes lookup f 1 run
  | item {n : Nat} {before after : List (List Token)} {item : List Token} {place : Place}
      (values : ∀ i ∈ before, Grammar.Value lookup i) (within : NotedTimes lookup f n item) :
      NotedTimes lookup f n [.tuple (before ++ item :: after) place]
  | group {n : Nat} {bracket : Bracket} {inner : List Token} {place : Place}
      (within : NotedTimes lookup f n inner) : NotedTimes lookup f n [.group bracket inner place]
  | call {n : Nat} {head inner : List Token} {name : String} {place : Place}
      (spells : dottedName? head = some name) (within : NotedTimes lookup f n inner) :
      NotedTimes lookup f n (head ++ [.group .paren inner place])
  /-- In an operand without a binary operator behind it. -/
  | last {n : Nat} {p : Piece Token} (proper : p.Proper id)
      (within : NotedTimes lookup f n p.run) : NotedTimes lookup f n p.elements
  /-- In an operand with a binary operator behind it. -/
  | first {n : Nat} {p : Piece Token} {t : Token} {after : List Token} (proper : p.Proper id)
      (binary : t.binaryOp?.isSome) (within : NotedTimes lookup f n p.run) :
      NotedTimes lookup f ((repeats (p.signs.map Prod.snd) + if isCall true p.run then 2 else 1) * n)
        (p.elements ++ t :: after)
  /-- Behind an operand that is a value. -/
  | later {n : Nat} {p : Piece Token} {t : Token} {after : List Token} (proper : p.Proper id)
      (binary : t.binaryOp?.isSome) (value : Grammar.Operand lookup p.run)
      (within : NotedTimes lookup f n after) :
      NotedTimes lookup f ((repeats (p.signs.map Prod.snd) + 1) * n) (p.elements ++ t :: after)

/-! ## Verdicts that refuse -/

namespace Verdict

/-- Refuses, with so many notes of the finding. -/
def refuse (n : Nat) (f : Finding) : Verdict :=
  ⟨false, List.replicate n f⟩

theorem refuse_and (n : Nat) (w : Unit → Verdict) : (refuse n f).and w = refuse n f :=
  and_of_fails rfl

theorem refuse_or (m n : Nat) : (refuse m f).or (fun _ => refuse n f) = refuse (m + n) f := by
  rw [or_of_fails rfl]
  simp [refuse, after]

theorem findings_or_ne_nil {v : Verdict} {w : Unit → Verdict} (h : (v.or w).findings ≠ []) :
    v.findings ≠ [] ∨ (w ()).findings ≠ [] := by
  obtain ⟨g, mem⟩ := List.exists_mem_of_ne_nil _ h
  exact (mem_findings_or mem).imp List.ne_nil_of_mem List.ne_nil_of_mem

theorem findings_and_ne_nil {v : Verdict} {w : Unit → Verdict} (h : (v.and w).findings ≠ []) :
    v.findings ≠ [] ∨ v.holds = true ∧ (w ()).findings ≠ [] := by
  cases holds : v.holds with
  | true =>
    obtain ⟨g, mem⟩ := List.exists_mem_of_ne_nil _ h
    exact (mem_findings_and mem).imp List.ne_nil_of_mem fun m => ⟨rfl, List.ne_nil_of_mem m⟩
  | false =>
    rw [and_of_fails holds] at h
    exact .inl h

end Verdict

open Verdict

/-! ## Operators in front of a refused operand -/

theorem repeats_of_no_sign (only : ∀ x ∈ signs, x.binaryOp? = none) :
    repeats signs = signs.length := by
  unfold repeats
  rw [List.takeWhile_eq_self_iff.mpr, List.length_reverse]
  intro x mem
  rw [only x (List.mem_reverse.mp mem)]
  rfl

theorem repeats_cons_of_sign (sign : ∃ x ∈ t :: signs, x.binaryOp?.isSome) :
    repeats (t :: signs) = repeats signs := by
  unfold repeats
  rw [List.reverse_cons, List.takeWhile_append]
  split
  · rename_i all
    have whole := (List.takeWhile_prefix _).eq_of_length all
    have only := List.takeWhile_eq_self_iff.mp whole
    have here : t.binaryOp?.isSome := by
      obtain ⟨x, mem, binary⟩ := sign
      rcases List.mem_cons.mp mem with rfl | mem
      · exact binary
      · have none := only x (List.mem_reverse.mpr mem)
        rw [Option.isNone_iff_eq_none.mp none] at binary
        cases binary
    rw [whole, List.takeWhile_cons_of_neg, List.append_nil]
    simpa [Option.isSome_iff_ne_none] using here
  · rfl

/-- Every operator that cannot be binary looks once more at the run that it stands in front of, with
what it would be cut into at the binary operator `m`; a sign in front of it ends that. -/
theorem valueVerdict_front {c n : Nat} (unary : ∀ x ∈ signs, x.unaryOp?.isSome)
    (plain : ∀ x ∈ run, x.binaryOp? = none) (nonempty : run ≠ []) (binary : m.binaryOp?.isSome)
    (direct : valueVerdict lookup (run ++ m :: after) = refuse (c * n) f)
    (again : ((valueVerdict lookup run).and fun _ => valueVerdict lookup after) = refuse n f) :
    valueVerdict lookup (signs ++ (run ++ m :: after)) = refuse ((repeats signs + c) * n) f := by
  induction signs with
  | nil => rwa [show repeats [] = 0 from rfl, Nat.zero_add]
  | cons t signs ih =>
    obtain ⟨here, below⟩ := List.forall_mem_cons.mp unary
    by_cases sign : ∃ x ∈ t :: signs, x.binaryOp?.isSome
    · rw [List.cons_append, valueVerdict_sign unary sign (by simp), ih below,
        repeats_cons_of_sign sign]
    · have only : ∀ x ∈ t :: signs, x.binaryOp? = none := fun x mem =>
        Option.not_isSome_iff_eq_none.mp fun binary => sign ⟨x, mem, binary⟩
      have cut : splitAtFirst (fun x => x.binaryOp?.isSome) (t :: signs ++ run ++ m :: after) =
          some (t :: signs ++ run, m, after) :=
        splitAtFirst_append_cons after (fun x mem => by
          rcases List.mem_append.mp mem with front | inside
          · rw [only x front]; rfl
          · rw [plain x inside]; rfl) binary
      rw [List.append_assoc, List.cons_append] at cut
      rw [List.cons_append, valueVerdict_operator here (by simp), ih below, cut]
      dsimp only
      rw [valueVerdict_behind unary plain nonempty, again, refuse_or, repeats_of_no_sign only,
        repeats_of_no_sign (List.forall_mem_cons.mp only).2, List.length_cons, Nat.add_right_comm,
        Nat.succ_mul]

/-! ## Operands -/

namespace Piece

theorem proper_of_plain (nonempty : run ≠ []) (plain : ∀ x ∈ run, x.IsPlain) :
    Piece.Proper id ⟨[], run⟩ := by
  obtain ⟨x, rest, rfl⟩ := List.exists_cons_of_ne_nil nonempty
  exact ⟨nofun, ⟨x, rest, rfl, (plain x List.mem_cons_self).1⟩, fun y mem => (plain y mem).2⟩

variable {p : Piece Token}

theorem Proper.unary (proper : p.Proper id) : ∀ x ∈ p.signs.map Prod.snd, x.unaryOp?.isSome := by
  intro x mem
  obtain ⟨s, inside, rfl⟩ := List.mem_map.mp mem
  exact Option.isSome_iff_exists.mpr ⟨s.1, proper.signs s inside⟩

theorem Proper.ne_nil (proper : p.Proper id) : p.run ≠ [] := by
  obtain ⟨x, rest, starts, -⟩ := proper.start
  exact starts ▸ List.cons_ne_nil x rest

theorem Proper.sign {op : UnaryOp} (unary : t.unaryOp? = some op) (proper : p.Proper id) :
    Piece.Proper id ⟨(op, t) :: p.signs, p.run⟩ :=
  ⟨List.forall_mem_cons.mpr ⟨unary, proper.signs⟩, proper.start, proper.plain⟩

end Piece

theorem Grammar.Operand.proper (part : Grammar.Operand lookup run) : Piece.Proper id ⟨[], run⟩ := by
  have atom := part.atom.proper (Grammar.faithful_noteTokens run)
  obtain ⟨n, rest, starts, notUnary⟩ := atom.start
  have whole : run = n.token :: Noted.tokens rest := by
    rw [← Grammar.tokens_noteTokens run, show noteTokens run = n :: rest from starts]
    rfl
  refine ⟨nofun, ⟨n.token, _, whole, notUnary⟩, fun x mem => ?_⟩
  rw [← Grammar.tokens_noteTokens run] at mem
  obtain ⟨m, inside, rfl⟩ := List.mem_map.mp mem
  exact atom.plain m inside

theorem Grammar.Signed.piece {run : List Token} (value : Grammar.Signed lookup run) :
    ∃ p : Piece Token, p.Proper id ∧ p.elements = run ∧ Grammar.Operand lookup p.run := by
  cases value with
  | operand part => exact ⟨⟨[], run⟩, part.proper, rfl, part⟩
  | sign unary inner =>
    obtain ⟨p, proper, rfl, part⟩ := Grammar.Signed.piece inner
    exact ⟨_, proper.sign unary, rfl, part⟩

theorem Grammar.Value.piece (value : Grammar.Value lookup run)
    (plain : ∀ x ∈ run, x.binaryOp? = none) :
    ∃ p : Piece Token, p.Proper id ∧ p.elements = run ∧ Grammar.Operand lookup p.run := by
  cases value with
  | signed first => exact first.piece
  | operation first binary rest =>
    rw [plain _ (by simp)] at binary
    cases binary

/-! ## From the relation to the verdict -/

namespace Finding.NotedTimes

variable {n : Nat}

theorem pos (h : NotedTimes lookup f n run) : 0 < n := by
  induction h with
  | name => exact Nat.one_pos
  | item _ _ ih | group _ ih | call _ _ ih | last _ _ ih => exact ih
  | first _ _ _ ih =>
    refine Nat.mul_pos (Nat.add_pos_right _ ?_) ih
    split
    · exact Nat.two_pos
    · exact Nat.one_pos
  | later _ _ _ _ ih => exact Nat.mul_pos (Nat.succ_pos _) ih

theorem ne_nil_of_refuse (h : NotedTimes lookup f n run)
    (refused : valueVerdict lookup run = refuse n f) : run ≠ [] := by
  rintro rfl
  rw [valueVerdict_nil] at refused
  have none := congrArg (fun v => v.findings.length) refused
  simp only [Verdict.no, refuse, List.length_nil, List.length_replicate] at none
  exact absurd none h.pos.ne

/-- What the relation counts is all that the verdict notes. -/
theorem verdict (h : NotedTimes lookup f n run) : valueVerdict lookup run = refuse n f := by
  induction h with
  | name spells unknown same =>
    rw [valueVerdict_of_dottedName? spells, Judged.nameVerdict, unknown, same]
    rfl
  | item values within ih =>
    rename_i n before after item place
    have nonempty := within.ne_nil_of_refuse ih
    rw [valueVerdict_single]
    change itemVerdict lookup _ = _
    rw [itemVerdict_of_values _ values, itemVerdict_cons _ _ nonempty, ih, refuse_and]
  | group within ih =>
    rename_i n bracket inner place
    have nonempty := within.ne_nil_of_refuse ih
    rw [valueVerdict_single, verdict_group, if_neg nonempty, ih]
  | call spells within ih =>
    rename_i n head inner name place
    obtain ⟨call, judged⟩ := callVerdict_append lookup spells inner place
    rw [valueVerdict_of_isCall call, judged, if_neg (within.ne_nil_of_refuse ih), ih]
  | last proper within ih =>
    rw [Piece.elements, valueVerdict_behind proper.unary proper.plain proper.ne_nil, ih]
  | first proper binary within ih =>
    rename_i n p t after
    rw [Piece.elements, List.append_assoc]
    refine valueVerdict_front proper.unary proper.plain proper.ne_nil binary ?_ ?_
    · rw [valueVerdict_direct proper.start proper.plain binary]
      cases call : isCall true p.run with
      | true =>
        -- Judged as a call and again as a value, it leaves its notes twice.
        rw [← valueVerdict_of_isCall call, ih, refuse_or, refuse_and, if_pos rfl, Nat.two_mul]
      | false =>
        rw [callVerdict_of_not_isCall call, no_or, ih, refuse_and, if_neg Bool.false_ne_true,
          Nat.one_mul]
    · rw [ih, refuse_and]
  | later proper binary value within ih =>
    rename_i n p t after
    have holds := (Grammar.Value.signed (.operand value)).verdict
    rw [Piece.elements, List.append_assoc]
    refine valueVerdict_front proper.unary proper.plain proper.ne_nil binary ?_ ?_
    · rw [valueVerdict_direct proper.start proper.plain binary, holds, ih, Nat.one_mul]
      cases call : isCall true p.run with
      | true =>
        rw [← valueVerdict_of_isCall call, holds]
        rfl
      | false =>
        rw [callVerdict_of_not_isCall call]
        rfl
    · rw [holds, ih]
      rfl

end Finding.NotedTimes

/-! ## From the verdict to the relation -/

theorem holds_of_sides
    (holds : ((callVerdict lookup run).or fun _ => valueVerdict lookup run).holds = true) :
    (valueVerdict lookup run).holds = true := by
  rcases (holds_or _ _).mp holds with called | judged
  · cases call : isCall true run with
    | true => rwa [valueVerdict_of_isCall call]
    | false =>
      rw [callVerdict_of_not_isCall call] at called
      cases called
  · exact judged

theorem exists_item_of_itemVerdict {items : List (List Token)}
    (noted : (itemVerdict lookup items).findings ≠ []) :
    ∃ before item after, items = before ++ item :: after ∧
      (∀ i ∈ before, Grammar.Value lookup i) ∧ (valueVerdict lookup item).findings ≠ [] := by
  induction items with
  | nil => exact absurd rfl noted
  | cons item rest ih =>
    by_cases empty : item = []
    · subst empty
      rw [itemVerdict_nil_cons] at noted
      split at noted <;> exact absurd rfl noted
    · rw [itemVerdict_cons _ _ empty] at noted
      rcases findings_and_ne_nil noted with here | ⟨holds, below⟩
      · exact ⟨[], item, rest, rfl, nofun, here⟩
      · obtain ⟨before, found, after, rfl, values, there⟩ := ih below
        have value := Grammar.value_of_holds holds
        exact ⟨item :: before, found, after, rfl, List.forall_mem_cons.mpr ⟨value, values⟩, there⟩

/-- Judging the run notes a finding. -/
def HasNote (lookup : Lookup) (run : List Token) : Prop :=
  ∃ f n, Finding.NotedTimes lookup f n run

namespace HasNote

theorem shape (h : HasNote lookup run) :
    (∃ p : Piece Token, p.Proper id ∧ p.elements = run ∧ HasNote lookup p.run) ∨
    ∃ (p : Piece Token) (m : Token) (after : List Token), p.Proper id ∧ m.binaryOp?.isSome ∧
      p.elements ++ m :: after = run ∧
      (HasNote lookup p.run ∨ Grammar.Operand lookup p.run ∧ HasNote lookup after) := by
  obtain ⟨f, n, h⟩ := h
  -- What holds no operator is an operand with nothing in front of it.
  have alone {run : List Token} (here : f.NotedTimes lookup n run) (nonempty : run ≠ [])
      (plain : ∀ x ∈ run, x.IsPlain) :
      ∃ p : Piece Token, p.Proper id ∧ p.elements = run ∧ HasNote lookup p.run :=
    ⟨_, Piece.proper_of_plain nonempty plain, rfl, f, n, here⟩
  cases h with
  | name spells unknown same =>
    obtain ⟨nonempty, plain⟩ := of_dottedName?_eq_some spells
    exact .inl (alone (.name spells unknown same) nonempty fun x mem => (plain x mem).1)
  | item values within =>
    exact .inl (alone (.item values within) (by simp)
      (List.forall_mem_singleton.mpr ⟨rfl, rfl⟩))
  | group within =>
    exact .inl (alone (.group within) (by simp)
      (List.forall_mem_singleton.mpr ⟨rfl, rfl⟩))
  | call spells within =>
    refine .inl (alone (.call spells within) (by simp) (List.forall_mem_append.mpr ⟨?_, ?_⟩))
    · exact fun x mem => ((of_dottedName?_eq_some spells).2 x mem).1
    · exact List.forall_mem_singleton.mpr ⟨rfl, rfl⟩
  | last proper within => exact .inl ⟨_, proper, rfl, f, _, within⟩
  | first proper binary within =>
    exact .inr ⟨_, _, _, proper, binary, rfl, .inl ⟨f, _, within⟩⟩
  | later proper binary value within =>
    exact .inr ⟨_, _, _, proper, binary, rfl, .inr ⟨value, f, _, within⟩⟩

theorem sign (unary : t.unaryOp?.isSome) (h : HasNote lookup run) : HasNote lookup (t :: run) := by
  obtain ⟨op, spells⟩ := Option.isSome_iff_exists.mp unary
  rcases h.shape with ⟨p, proper, rfl, f, n, within⟩ | ⟨p, m, after, proper, binary, rfl, note⟩
  · exact ⟨f, _, .last (proper.sign spells) within⟩
  · rcases note with ⟨f, n, within⟩ | ⟨value, f, n, within⟩
    · exact ⟨f, _, .first (proper.sign spells) binary within⟩
    · exact ⟨f, _, .later (proper.sign spells) binary value within⟩

theorem front (plain : ∀ x ∈ run, x.binaryOp? = none) (binary : m.binaryOp?.isSome)
    (h : HasNote lookup run) : HasNote lookup (run ++ m :: after) := by
  rcases h.shape with ⟨p, proper, rfl, f, n, within⟩ | ⟨p, k, rest, -, found, rfl, -⟩
  · exact ⟨f, _, .first proper binary within⟩
  · rw [plain k (by simp)] at found
    cases found

theorem behind (plain : ∀ x ∈ run, x.binaryOp? = none) (binary : m.binaryOp?.isSome)
    (value : Grammar.Value lookup run) (h : HasNote lookup after) :
    HasNote lookup (run ++ m :: after) := by
  obtain ⟨f, n, within⟩ := h
  obtain ⟨p, proper, rfl, part⟩ := value.piece plain
  exact ⟨f, _, .later proper binary part within⟩

theorem of_nameVerdict {text : String} (spells : dottedName? run = some text)
    (noted : (Judged.nameVerdict lookup text (lastPlace? run)).findings ≠ []) :
    HasNote lookup run := by
  unfold Judged.nameVerdict at noted
  split at noted
  · exact absurd rfl noted
  · rename_i unknown
    exact ⟨_, 1, .name spells (by simpa using unknown) rfl⟩

theorem of_leaf (l : Leaf) (place : Place) (noted : (l.verdict lookup place).findings ≠ []) :
    HasNote lookup [.leaf l place] := by
  cases l with
  | name text =>
    unfold Leaf.verdict at noted
    dsimp only at noted
    split at noted
    · exact absurd rfl noted
    · split at noted
      · exact absurd rfl noted
      · rename_i free
        have spells : dottedName? [.leaf (.name text) place] = some text := by
          simp only [dottedName?, nameParts?, if_neg free]
          rfl
        exact of_nameVerdict spells noted
  | _ => exact absurd rfl noted

theorem of_callVerdict (noted : (callVerdict lookup run).findings ≠ [])
    (ih : ∀ bracket inner place, .group bracket inner place ∈ run →
      (valueVerdict lookup inner).findings ≠ [] → HasNote lookup inner) : HasNote lookup run := by
  cases call : isCall true run with
  | false =>
    rw [callVerdict_of_not_isCall call] at noted
    exact absurd rfl noted
  | true =>
    obtain ⟨head, name, inner, place, rfl, spells⟩ := exists_of_isCall call
    rw [(callVerdict_append lookup spells inner place).2] at noted
    split at noted
    · exact absurd rfl noted
    · obtain ⟨f, n, within⟩ := ih .paren inner place (by simp) noted
      exact ⟨f, n, .call spells within⟩

/-- Whatever look has left a note, the run has the shape that the note is described by. -/
theorem of_findings (run : List Token) (noted : (valueVerdict lookup run).findings ≠ []) :
    HasNote lookup run := by
  induction run using judged_induction with
  | nil =>
    rw [valueVerdict_nil] at noted
    exact absurd rfl noted
  | leaf l place =>
    rw [valueVerdict_single] at noted
    exact of_leaf l place noted
  | tuple items place ih =>
    rw [valueVerdict_single] at noted
    obtain ⟨before, item, after, rfl, values, there⟩ := exists_item_of_itemVerdict noted
    obtain ⟨f, n, within⟩ := ih item (by simp) there
    exact ⟨f, n, .item values within⟩
  | group bracket inner place ih =>
    rw [valueVerdict_single, verdict_group] at noted
    split at noted
    · exact absurd rfl noted
    · obtain ⟨f, n, within⟩ := ih noted
      exact ⟨f, n, .group within⟩
  | several t u rest behind sides contents =>
    rw [valueVerdict_cons] at noted
    rcases findings_or_ne_nil noted with signed | whole
    · split at signed
      · rename_i unary
        exact (behind signed).sign unary
      · exact absurd rfl signed
    · split at whole
      · -- At the cut, all notes are of one side: the right one is looked at only if the left holds.
        rename_i left m right cut
        obtain ⟨parts, binary, outside⟩ := of_splitAtFirst_eq_some cut
        obtain ⟨inLeft, inRight⟩ := sides left m right parts
        have among : left ⊆ t :: u :: rest := parts ▸ List.subset_append_left ..
        have plain : ∀ x ∈ left, x.binaryOp? = none := fun x mem => by
          simpa using outside x mem
        rw [parts]
        rcases findings_and_ne_nil whole with before | ⟨holds, after⟩
        · refine front plain binary ?_
          rcases findings_or_ne_nil before with called | judged
          · exact of_callVerdict called fun bracket inner place mem =>
              contents bracket inner place (among mem)
          · exact inLeft judged
        · exact HasNote.behind plain binary (Grammar.value_of_holds (holds_of_sides holds))
            (inRight after)
      · split at whole
        · rename_i text spells
          exact of_nameVerdict spells whole
        · exact of_callVerdict whole contents

end HasNote

/-! ## Notes and names -/

def Leaf.isName : Leaf → Bool
  | name _ => true
  | _ => false

/-- The number of names in a run, at any depth. -/
def nameCount (run : List Token) : Nat :=
  (runLeaves run).countP Leaf.isName

theorem Occurs.mem_runLeaves {piece : List Token} {l : Leaf} {place : Place}
    (occurs : Occurs piece run) (mem : .leaf l place ∈ piece) : l ∈ runLeaves run := by
  induction occurs with
  | here stretch => exact ExprCheck.mem_runLeaves (stretch.subset mem) (List.mem_singleton.mpr rfl)
  | item among part inside ih => exact ExprCheck.mem_runLeaves among (mem_itemLeaves part ih)
  | inner among inside ih => exact ExprCheck.mem_runLeaves among ih

theorem nameCount_pos (noted : (valueVerdict lookup run).findings ≠ []) : 0 < nameCount run := by
  obtain ⟨g, mem⟩ := List.exists_mem_of_ne_nil _ noted
  obtain ⟨piece, name, occurs, spells, -⟩ := (kept_isUndefinedIn lookup).value run g mem
  obtain ⟨text, place, first⟩ : ∃ text place, .leaf (.name text) place ∈ piece := by
    obtain ⟨parts, spelled, -⟩ := Grammar.dottedName?_eq_some_iff.mp spells
    cases spelled <;> exact ⟨_, _, List.mem_cons_self⟩
  exact List.countP_pos_iff.mpr ⟨.name text, occurs.mem_runLeaves first, rfl⟩

/-- No look on the way to a note is repeated. -/
def LooksOnce (lookup : Lookup) (run : List Token) : Prop :=
  ∀ (f : Finding) (n : Nat), f.NotedTimes lookup n run → n = 1

/-- All notes of a verdict are of one name, and their number is the product of the looks on the way
to it. So a name is noted once exactly if no look on the way to it is repeated, and then there are
no more notes than names. -/
theorem valueVerdict_notes (lookup : Lookup) (run : List Token) :
    let notes := (valueVerdict lookup run).findings
    (∃ f n, notes = List.replicate n f) ∧
    (∀ (f : Finding) (n : Nat), 0 < n →
      (notes = List.replicate n f ↔ f.NotedTimes lookup n run)) ∧
    (notes.length ≤ 1 ↔ LooksOnce lookup run) ∧
    (LooksOnce lookup run → notes.length ≤ nameCount run) := by
  intro notes
  have counted (f : Finding) (n : Nat) (h : f.NotedTimes lookup n run) :
      notes = List.replicate n f := congrArg Verdict.findings h.verdict
  have number (f : Finding) (n : Nat) (h : f.NotedTimes lookup n run) : notes.length = n := by
    rw [counted f n h, List.length_replicate]
  have once : notes.length ≤ 1 ↔ LooksOnce lookup run := by
    constructor
    · intro few f n h
      have positive := h.pos
      rw [number f n h] at few
      omega
    · intro single
      by_cases noted : notes = []
      · simp [noted]
      · obtain ⟨f, n, h⟩ := HasNote.of_findings run noted
        rw [number f n h, single f n h]
  refine ⟨?_, fun f n positive => ⟨fun same => ?_, counted f n⟩, once, fun single => ?_⟩
  · by_cases noted : notes = []
    · exact ⟨⟨.undetermined, none⟩, 0, noted⟩
    · obtain ⟨f, n, h⟩ := HasNote.of_findings run noted
      exact ⟨f, n, counted f n h⟩
  · have noted : notes ≠ [] := by
      rw [same]
      simpa using positive.ne'
    -- A list that is not empty tells both the finding and its number.
    obtain ⟨g, k, h⟩ := HasNote.of_findings run noted
    obtain ⟨rfl, zero | rfl⟩ := List.replicate_inj.mp ((counted g k h).symm.trans same)
    · exact absurd zero positive.ne'
    · exact h
  · by_cases noted : notes = []
    · simp [noted]
    · exact Nat.le_trans (once.mpr single) (nameCount_pos noted)

/- With nothing defined, `~1 + ~~f(x) + 1` notes `x` eight times: twice for the call, once more for
each operator in front of it, and all that again for the first one. -/
theorem valueVerdict_notes_eight :
    let p : Place := ⟨⟨0, 1⟩, 1⟩
    let one : Token := .leaf (.number "1") p
    let tilde : Token := .leaf (.op "~") p
    let plus : Token := .leaf (.op "+") p
    let call : List Token := [.leaf (.name "f") p, .group .paren [.leaf (.name "x") p] p]
    let run := [tilde, one, plus, tilde, tilde] ++ call ++ [plus, one]
    let unknown : Finding := ⟨.fault (.undefinedName "x"), p⟩
    0 < 8 ∧ (valueVerdict (fun _ => none) run).findings = List.replicate 8 unknown ∧
      unknown.NotedTimes (fun _ => none) 8 run ∧ ¬ LooksOnce (fun _ => none) run := by
  intro p one tilde plus call run unknown
  have notes : (valueVerdict (fun _ => none) run).findings = List.replicate 8 unknown := by
    decide +kernel
  have described := (valueVerdict_notes (fun _ => none) run).2.1 unknown 8 (by decide)
  refine ⟨by decide, notes, described.mp notes, fun once => ?_⟩
  exact absurd (once unknown 8 (described.mp notes)) (by decide)

/- With nothing defined, `~x + 1` notes `x` twice. -/
theorem not_notes_le_nameCount :
    let p : Place := ⟨⟨1, 2⟩, 1⟩
    let run : List Token :=
      [.leaf (.op "~") p, .leaf (.name "x") p, .leaf (.op "+") p, .leaf (.number "1") p]
    ¬ (valueVerdict (fun _ => none) run).findings.length ≤ nameCount run := by
  decide +kernel

end ExprCheck
