import LabelWeaver.Proofs.Grammar.Statements
import LabelWeaver.Proofs.Tree.Alike

/-! The same tokens elsewhere. What code the base grammar reads from tokens depends neither on their spans, nor
    on the number of the next return statement, nor on how deep productions may call each other, if
    only it is deep enough. -/

namespace LabelWeaver

namespace Likeness

/-- The nodes have the same code. -/
def CodeIn (lo hi : Nat) (n m : Node) : Prop := lo ≤ hi ∧ n.SameCode m

section
variable {lo hi : Nat} {n m : Node}

theorem sameCode_of_chain {ns ms : List Node} (h : Chain CodeIn lo hi ns ms) :
    lo ≤ hi ∧ List.Forall₂ Node.SameCode ns ms := by
  induction h with
  | nil => exact ⟨Nat.le_refl _, .nil⟩
  | cons ha _ ih => exact ⟨Nat.le_trans ha.1 ih.1, .cons ha.2 ih.2⟩

theorem form_of_skeleton (h : n.skeleton = m.skeleton) : n.form = m.form := by rw [Node.form, h, Node.form]

theorem CodeIn.item {e e' : Expr} (h : CodeIn lo hi (.expr e) (.expr e')) : CodeIn lo hi (.item e) (.item e') := by
  refine ⟨h.1, ?_⟩
  have hskeleton : e.skeleton = e'.skeleton := Node.expr.inj h.2.form
  cases e with
  | spread span e =>
    cases e' with
    | spread span' e' => exact ⟨rfl, h.2.parts⟩
    | _ => cases hskeleton
  | _ =>
    cases e' with
    | spread span' e' => cases hskeleton
    | _ => exact ⟨rfl, .cons h.2 .nil⟩

end

/-- Nodes are alike if they have the same code. -/
def sameCode : Likeness where
  admits _ := True
  rel := CodeIn
  admits_tail _ := trivial
  le h := h.1
  mono h hlo hhi := ⟨Nat.le_trans hlo (Nat.le_trans h.1 hhi), h.2⟩
  node _ hskeleton hparts _ :=
    ⟨(sameCode_of_chain hparts).1, form_of_skeleton hskeleton, (sameCode_of_chain hparts).2⟩
  demand _ hskeleton hparts := by
    refine ⟨0, 0, Nat.le_refl _, form_of_skeleton hskeleton, hparts.imp fun _ _ h => ?_⟩
    obtain ⟨_, _, h⟩ := h
    exact h.2
  site n n' := ⟨Nat.le_succ n, rfl, .nil⟩
  item h := h.item
  target h he := by
    have hskeleton : (Node.expr _).skeleton = (Node.expr _).skeleton := h.2.form
    rwa [← Expr.isTarget_of_skeleton hskeleton]

theorem sameCode_function {lo hi top : Nat} {fn fn' : Function} {b b' : FunctionBody}
    (h : sameCode.HeadLike lo hi fn fn') (hb : sameCode.BodyLike hi top b b') :
    sameCode.FunctionLike lo top { fn with body := b } { fn' with body := b' } := by
  intro s s'
  obtain ⟨hle', hparts⟩ := sameCode_of_chain (h.parts hb)
  exact ⟨hle', form_of_skeleton (h.skeleton s s' b b'), hparts⟩

theorem sameCode_hooks : sameCode.HooksLike [] [] where
  binding hr := baseBinding hr
  params hr _ _ _ hfn hp hp' := baseParams hr hfn hp hp'
  body hr lo hi fn fn' hfn := by
    refine Sim.imp (baseBody hr hfn.isArrow) fun _ hb => ?_
    obtain ⟨b, b', rfl, rfl, hb⟩ := hb
    exact sameCode_function hfn hb
  atom _ hp := hp
  trailing _ _ _ _ _ he := baseTrailing he
  statement _ hp := hp

theorem sameCode_rules {depth depth' : Nat} (hle : depth ≤ depth') :
    sameCode.RulesLike (Grammar.rules [] depth) (Grammar.rules [] depth') :=
  rules_le sameCode_hooks hle

end Likeness

/-- A loop that is read is read elsewhere. -/
theorem Grammar.forStmt_elsewhere {depth depth' : Nat} {c c' d : Cursor} {s : Stmt} (hle : depth ≤ depth')
    (hd : c.Beside d) (h : forStmt (rules [] depth) c = .ok s c') :
    ∃ s' d', forStmt (rules [] depth') d = .ok s' d' ∧ (Node.stmt s).SameCode (.stmt s') := by
  obtain ⟨s', d', hrun, -, -, hcode⟩ := Likeness.forStmt (Likeness.sameCode_rules hle) _ ⟨hd, trivial⟩ rfl h
  exact ⟨s', d', hrun, hcode.2⟩

/-- A program that is read is read elsewhere. -/
theorem Grammar.program_elsewhere {depth depth' : Nat} {c c' d : Cursor} {ss : List Stmt} (hle : depth ≤ depth')
    (hd : c.Beside d) (h : program (rules [] depth) c = .ok ss c') :
    ∃ ss' d', program (rules [] depth') d = .ok ss' d' ∧ List.Forall₂ Node.SameCode (ss.map .stmt) (ss'.map .stmt) := by
  obtain ⟨ss', d', hrun, -, -, hcode⟩ :=
    Likeness.Sim.many (fun h => h.isAt _) (Likeness.sameCode_rules hle).statement _ ⟨hd, trivial⟩ rfl h
  exact ⟨ss', d', hrun, (Likeness.sameCode_of_chain (hcode.map fun h => h)).2⟩

end LabelWeaver
