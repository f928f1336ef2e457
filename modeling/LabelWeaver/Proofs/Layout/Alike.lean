import LabelWeaver.Proofs.Layout.Forms
import LabelWeaver.Proofs.Tree.Alike

/-! Trees with the same code are laid out alike: their layouts differ at most in the bytes of the source at
    which comments are due. -/

namespace LabelWeaver

open Layout

/-! ### Layouts without the places of comments -/

/-- The piece without the byte at which comments are due. -/
def Piece.outline : Piece → Piece
  | comments _ depth => comments 0 depth
  | emptyBlock _ depth => emptyBlock 0 depth
  | p => p

namespace Layout

/-- The layout without the bytes at which comments are due. -/
def outline (ps : List Piece) : List Piece := ps.map Piece.outline

section
variable {ps qs : List Piece}

@[simp] theorem outline_nil : outline [] = [] := rfl

@[simp] theorem outline_cons (p : Piece) (ps : List Piece) : outline (p :: ps) = p.outline :: outline ps := rfl

@[simp] theorem outline_append (ps qs : List Piece) : outline (ps ++ qs) = outline ps ++ outline qs := List.map_append

@[simp] theorem outline_paren (ps : List Piece) : outline (paren ps) = paren (outline ps) := by
  simp [paren, Piece.outline]

@[simp] theorem outline_parenIf (needed : Bool) (ps : List Piece) : outline (parenIf needed ps) = parenIf needed (outline ps) := by
  cases needed <;> simp [parenIf]

@[simp] theorem outline_fit (least : Prec) (e : Expr) (ps : List Piece) : outline (fit least e ps) = fit least e (outline ps) :=
  outline_parenIf _ _

@[simp] theorem outline_braces (depth : Nat) (ps : List Piece) : outline (braces depth ps) = braces depth (outline ps) := by
  simp [braces, Piece.outline]

@[simp] theorem outline_commaSep (items : List (List Piece)) : outline (commaSep items) = commaSep (items.map outline) := by
  induction items with
  | nil => rfl
  | cons item items ih =>
    cases items with
    | nil => rfl
    | cons item' items => simp_all [commaSep, comma, Piece.outline]

@[simp] theorem outline_brackets (items : List (List Piece)) (hole : Bool) :
    outline (brackets items hole) = brackets (items.map outline) hole := by
  cases hole <;> simp [brackets, Piece.outline]

@[simp] theorem outline_lead (depth : Nat) (s : Stmt) : outline (lead depth s) = [.comments 0 depth, .indent depth] := rfl

@[simp] theorem outline_clauseGap (sameLine : Bool) (depth : Nat) :
    outline (clauseGap sameLine depth) = clauseGap sameLine depth := by
  cases sameLine <;> rfl

end

end Layout

/-! ### Nodes that are laid out alike -/

/-- The expressions are laid out alike wherever they stand. -/
structure Expr.Alike (e e' : Expr) : Prop where
  layout : ∀ depth, outline (e.layout depth) = outline (e'.layout depth)
  prec : e.prec = e'.prec
  starts : e.startsLikeStatement = e'.startsLikeStatement
  calls : e.containsCall = e'.containsCall
  signs : ∀ op, e.signsClash op = e'.signsClash op
  integer : e.isBareInteger = e'.isBareInteger

structure Pattern.Alike (p p' : Pattern) : Prop where
  layout : ∀ depth, outline (p.layout depth) = outline (p'.layout depth)
  isThis : Layout.isThis p = Layout.isThis p'

structure Stmt.Alike (s s' : Stmt) : Prop where
  layout : ∀ depth, outline (s.layout depth) = outline (s'.layout depth)
  isBlock : Layout.isBlock s = Layout.isBlock s'
  isIf : Layout.isIf s = Layout.isIf s'

def Block.Alike (b b' : Block) : Prop := ∀ depth, outline (b.layout depth) = outline (b'.layout depth)

/-- The body of an arrow is laid out in another way than that of other functions. -/
inductive FunctionBody.Alike : FunctionBody → FunctionBody → Prop where
  | block {b b' : Block} (h : b.Alike b') : Alike (.block b) (.block b')
  | concise {e e' : Expr} (h : e.Alike e') : Alike (.concise e) (.concise e')

structure Function.Alike (fn fn' : Function) : Prop where
  name : fn.name.map Name.text = fn'.name.map Name.text
  isArrow : fn.isArrow = fn'.isArrow
  params : List.Forall₂ Pattern.Alike fn.params fn'.params
  body : fn.body.Alike fn'.body

/-- The nodes are laid out alike. -/
def Node.Alike : Node → Node → Prop
  | expr e, expr e' => e.Alike e'
  | item e, item e' => e.Alike e'
  | key k, key k' => ∀ depth, outline (k.layout depth) = outline (k'.layout depth)
  | property p, property p' => ∀ depth, outline (p.layout depth) = outline (p'.layout depth)
  | function fn, function fn' => fn.Alike fn'
  | body b, body b' => b.Alike b'
  | block b, block b' => b.Alike b'
  | stmt s, stmt s' => s.Alike s'
  | decl d, decl d' => ∀ depth, outline (d.layout depth) = outline (d'.layout depth)
  | declarator d, declarator d' => ∀ depth, outline (d.layout depth) = outline (d'.layout depth)
  | forInit i, forInit i' => ∀ depth, outline (i.layout depth) = outline (i'.layout depth)
  | forTarget t, forTarget t' => ∀ depth, outline (t.layout depth) = outline (t'.layout depth)
  | case c, case c' => ∀ depth, outline (c.layout depth) = outline (c'.layout depth)
  | handler h, handler h' => ∀ depth, outline (h.layout depth) = outline (h'.layout depth)
  | pattern p, pattern p' => p.Alike p'
  | patternProp p, patternProp p' => ∀ depth, outline (p.layout depth) = outline (p'.layout depth)
  | binding b, binding b' => b.name.text = b'.name.text
  | _, _ => True

/-! ### Lists -/

section
variable {α : Type} {f : α → Node} {R : α → α → Prop}

theorem alike_list (hf : ∀ {a b}, (f a).Alike (f b) → R a b) {as bs : List α}
    (h : List.Forall₂ Node.Alike (as.map f) (bs.map f)) : List.Forall₂ R as bs := by
  rw [List.forall₂_map_left_iff, List.forall₂_map_right_iff] at h
  exact h.imp fun _ _ => hf

theorem alike_option {a b : Option α} {x : α} (hsome : a.map (fun _ => x) = b.map fun _ => x) {ns ms : List Node}
    (h : List.Forall₂ Node.Alike (a.toList.map f ++ ns) (b.toList.map f ++ ms)) :
    Option.Rel (fun a b => (f a).Alike (f b)) a b ∧ List.Forall₂ Node.Alike ns ms := by
  cases a with
  | none =>
    cases b with
    | none => exact ⟨.none, h⟩
    | some => cases hsome
  | some a =>
    cases b with
    | none => cases hsome
    | some b =>
      obtain ⟨hab, h⟩ := List.forall₂_cons.mp h
      exact ⟨.some hab, h⟩

theorem alike_holes {as bs : List (Option α)} {x : α}
    (hholes : as.map (Option.map fun _ => x) = bs.map (Option.map fun _ => x))
    (h : List.Forall₂ R (as.filterMap id) (bs.filterMap id)) : List.Forall₂ (Option.Rel R) as bs := by
  induction as generalizing bs with
  | nil =>
    cases bs with
    | nil => exact .nil
    | cons => cases hholes
  | cons a as ih =>
    cases bs with
    | nil => cases hholes
    | cons b bs =>
      obtain ⟨hhead, htail⟩ := List.cons.inj hholes
      cases a with
      | none =>
        cases b with
        | none => exact .cons .none (ih htail h)
        | some => cases hhead
      | some a =>
        cases b with
        | none => cases hhead
        | some b =>
          cases h with
          | cons hab h => exact .cons (.some hab) (ih htail h)

end

section
variable {depth : Nat}

theorem Expr.Alike.fit {e e' : Expr} (h : e.Alike e') (least : Prec) (ps : List Piece) :
    Layout.fit least e ps = Layout.fit least e' ps := by
  rw [Layout.fit, Layout.fit, h.prec]

theorem Layout.outline_args {es es' : List Expr} (h : List.Forall₂ Expr.Alike es es') (depth : Nat) :
    (Layout.args depth es).map outline = (Layout.args depth es').map outline := by
  induction h with
  | nil => rfl
  | cons he _ ih => simp [Layout.args, he.fit, he.layout, ih]

theorem Layout.outline_elements {es es' : List (Option Expr)} (h : List.Forall₂ (Option.Rel Expr.Alike) es es')
    (depth : Nat) : (Layout.elements depth es).map outline = (Layout.elements depth es').map outline := by
  induction h with
  | nil => rfl
  | cons he _ ih =>
    cases he with
    | none => simp [Layout.elements, ih]
    | some he => simp [Layout.elements, he.fit, he.layout, ih]

theorem Layout.outline_patternElements {ps ps' : List (Option Pattern)} (h : List.Forall₂ (Option.Rel Pattern.Alike) ps ps')
    (depth : Nat) : (Layout.patternElements depth ps).map outline = (Layout.patternElements depth ps').map outline := by
  induction h with
  | nil => rfl
  | cons hp _ ih =>
    cases hp with
    | none => simp [Layout.patternElements, ih]
    | some hp => simp [Layout.patternElements, hp.layout, ih]

theorem Layout.outline_params {ps ps' : List Pattern} (h : List.Forall₂ Pattern.Alike ps ps') (depth : Nat) :
    (Layout.params depth ps).map outline = (Layout.params depth ps').map outline := by
  induction h with
  | nil => rfl
  | cons hp _ ih =>
    rw [Layout.params, Layout.params, hp.isThis]
    split
    · exact ih
    · rw [List.map_cons, List.map_cons, hp.layout, ih]

theorem Layout.outline_patternProps {ps ps' : List PatternProp}
    (h : List.Forall₂ (fun p p' => (Node.patternProp p).Alike (.patternProp p')) ps ps') (depth : Nat) :
    (Layout.patternProps depth ps).map outline = (Layout.patternProps depth ps').map outline := by
  induction h with
  | nil => rfl
  | cons hp _ ih => rw [Layout.patternProps, Layout.patternProps, List.map_cons, List.map_cons, hp depth, ih]

theorem Layout.outline_declarators {ds ds' : List Declarator}
    (h : List.Forall₂ (fun d d' => (Node.declarator d).Alike (.declarator d')) ds ds') (depth : Nat) :
    (Layout.declarators depth ds).map outline = (Layout.declarators depth ds').map outline := by
  induction h with
  | nil => rfl
  | cons hd _ ih => rw [Layout.declarators, Layout.declarators, List.map_cons, List.map_cons, hd depth, ih]

theorem Layout.outline_properties {ps ps' : List Property}
    (h : List.Forall₂ (fun p p' => (Node.property p).Alike (.property p')) ps ps') (depth : Nat) :
    outline (Layout.properties depth ps) = outline (Layout.properties depth ps') := by
  induction h with
  | nil => rfl
  | @cons p p' ps ps' hp hps ih =>
    cases hps with
    | nil => simp [Layout.properties, hp depth]
    | cons => simp_all [Layout.properties, hp depth]

theorem Layout.outline_stmts {ss ss' : List Stmt} (h : List.Forall₂ Stmt.Alike ss ss') (depth : Nat) :
    outline (Layout.stmts depth ss) = outline (Layout.stmts depth ss') := by
  induction h with
  | nil => rfl
  | cons hs _ ih => simp [Layout.stmts, hs.layout, ih]

theorem Layout.outline_cases {cs cs' : List Case}
    (h : List.Forall₂ (fun c c' => (Node.case c).Alike (.case c')) cs cs') (depth : Nat) :
    outline (Layout.cases depth cs) = outline (Layout.cases depth cs') := by
  induction h with
  | nil => rfl
  | cons hc _ ih => simp [Layout.cases, hc depth, ih]

theorem Layout.endsInHole_eq {α : Type} {R : α → α → Prop} {as bs : List (Option α)}
    (h : List.Forall₂ (Option.Rel R) as bs) : endsInHole as = endsInHole bs := by
  induction h with
  | nil => rfl
  | @cons a b as bs hab h ih =>
    cases h with
    | nil => cases hab <;> rfl
    | cons => simpa [endsInHole] using ih

end

/-! ### Expressions -/

theorem Expr.signsClash_skeleton (e : Expr) (op : UnaryOp) : e.skeleton.signsClash op = e.signsClash op := by
  cases e with
  | update span op leading e => cases leading <;> rfl
  | _ => rfl

theorem Expr.isBareInteger_skeleton (e : Expr) : e.skeleton.isBareInteger = e.isBareInteger := by
  cases e <;> rfl

@[simp] theorem Node.alike_expr {e e' : Expr} : (Node.expr e).Alike (.expr e') ↔ e.Alike e' := Iff.rfl

@[simp] theorem Node.alike_item {e e' : Expr} : (Node.item e).Alike (.item e') ↔ e.Alike e' := Iff.rfl

@[simp] theorem Node.alike_function {fn fn' : Function} : (Node.function fn).Alike (.function fn') ↔ fn.Alike fn' := Iff.rfl

@[simp] theorem Node.alike_pattern {p p' : Pattern} : (Node.pattern p).Alike (.pattern p') ↔ p.Alike p' := Iff.rfl

@[simp] theorem Node.alike_stmt {s s' : Stmt} : (Node.stmt s).Alike (.stmt s') ↔ s.Alike s' := Iff.rfl

theorem Block.Alike.layout {b b' : Block} (h : b.Alike b') (depth : Nat) : outline (b.layout depth) = outline (b'.layout depth) :=
  h depth

theorem FunctionBody.Alike.layout {b b' : FunctionBody} (h : b.Alike b') (depth : Nat) :
    outline (b.layout depth) = outline (b'.layout depth) := by
  cases h with
  | block h => exact h depth
  | concise h => simp [FunctionBody.layout, h.layout, Piece.outline]

theorem Function.Alike.layout {fn fn' : Function} (h : fn.Alike fn') (depth : Nat) :
    outline (fn.layout depth) = outline (fn'.layout depth) := by
  obtain ⟨span, name, params, body, isArrow, receiver, returns, condition, sites, instrumented⟩ := fn
  obtain ⟨span', name', params', body', isArrow', receiver', returns', condition', sites', instrumented'⟩ := fn'
  obtain ⟨hname, harrow, hparams, hbody⟩ := h
  cases harrow
  have hps := Layout.outline_params hparams depth
  cases isArrow with
  | true =>
    cases hbody with
    | block hb => simp [Function.layout, hps, hb.layout]
    | @concise e e' hb =>
      cases hstarts : e'.startsLikeStatement <;> simp [Function.layout, hps, hb.starts, hb.fit, hb.layout, hstarts]
  | false =>
    have hnames : name.elim [] (fun n => Layout.name n.text) = name'.elim [] (fun n => Layout.name n.text) := by
      have := congrArg (Option.elim · [] Layout.name) hname
      simpa [Option.elim_map, Function.comp_def] using this
    rw [Function.layout_of_not_arrow rfl, Function.layout_of_not_arrow rfl, hnames]
    simp [hps, FunctionBody.Alike.layout hbody]

/-- Expressions of the same form, with parts that are laid out alike. -/
theorem Expr.alike {e e' : Expr} (hs : e.skeleton = e'.skeleton) (h : List.Forall₂ Node.Alike e.parts e'.parts) :
    e.Alike e' := by
  have hsigns : ∀ op, e.signsClash op = e'.signsClash op := by
    intro op
    rw [← e.signsClash_skeleton, hs, e'.signsClash_skeleton]
  have hinteger : e.isBareInteger = e'.isBareInteger := by
    rw [← e.isBareInteger_skeleton, hs, e'.isBareInteger_skeleton]
  suffices h : (∀ depth, outline (e.layout depth) = outline (e'.layout depth)) ∧ e.prec = e'.prec ∧
      e.startsLikeStatement = e'.startsLikeStatement ∧ e.containsCall = e'.containsCall by
    exact ⟨h.1, h.2.1, h.2.2.1, h.2.2.2, hsigns, hinteger⟩
  cases e with
  | array span es =>
    cases e' with
    | array span' es' =>
      have hes := alike_holes (Expr.array.inj hs).2 (alike_list (R := Expr.Alike) id h)
      refine ⟨fun depth => ?_, rfl, rfl, rfl⟩
      rw [Expr.layout, Expr.layout, outline_brackets, outline_brackets, Layout.outline_elements hes, Layout.endsInHole_eq hes]
    | _ => cases hs
  | object span ps =>
    cases e' with
    | object span' ps' =>
      have hps := alike_list (f := Node.property) id h
      refine ⟨fun depth => ?_, rfl, rfl, rfl⟩
      have hlines := Layout.outline_properties hps (depth + 1)
      cases hps with
      | nil => rfl
      | cons => simpa [Expr.layout] using congrArg (braces depth) hlines
    | _ => cases hs
  | function span fn =>
    cases e' with
    | function span' fn' =>
      have hfn : fn.Alike fn' := by simpa [Expr.parts] using h
      exact ⟨fun depth => by simpa [Expr.layout] using hfn.layout depth, by simp [Expr.prec, hfn.isArrow],
        by simp [Expr.startsLikeStatement, hfn.isArrow], rfl⟩
    | _ => cases hs
  | unary span op a =>
    cases e' with
    | unary span' op' a' =>
      have ha : a.Alike a' := by simpa [Expr.parts] using h
      cases hs
      refine ⟨fun depth => ?_, rfl, rfl, rfl⟩
      cases hclash : a'.signsClash op <;> cases op <;> simp [Expr.layout, ha.signs, ha.fit, ha.layout, hclash]
    | _ => cases hs
  | update span op leading a =>
    cases e' with
    | update span' op' leading' a' =>
      have ha : a.Alike a' := by simpa [Expr.parts] using h
      cases hs
      cases leading <;> exact ⟨fun depth => by simp [Expr.layout, ha.fit, ha.layout], rfl, by simp [Expr.startsLikeStatement, ha.starts], rfl⟩
    | _ => cases hs
  | binary span op a b =>
    cases e' with
    | binary span' op' a' b' =>
      obtain ⟨ha, hb⟩ : a.Alike a' ∧ b.Alike b' := by simpa [Expr.parts] using h
      cases hs
      exact ⟨fun depth => by simp [Expr.layout, ha.fit, ha.layout, hb.fit, hb.layout], rfl, by simp [Expr.startsLikeStatement, ha.starts], rfl⟩
    | _ => cases hs
  | assign span op a b =>
    cases e' with
    | assign span' op' a' b' =>
      obtain ⟨ha, hb⟩ : a.Alike a' ∧ b.Alike b' := by simpa [Expr.parts] using h
      cases hs
      exact ⟨fun depth => by simp [Expr.layout, ha.fit, ha.layout, hb.fit, hb.layout], rfl, by simp [Expr.startsLikeStatement, ha.starts], rfl⟩
    | _ => cases hs
  | conditional span a b c =>
    cases e' with
    | conditional span' a' b' c' =>
      obtain ⟨ha, hb, hc⟩ : a.Alike a' ∧ b.Alike b' ∧ c.Alike c' := by simpa [Expr.parts] using h
      exact ⟨fun depth => by simp [Expr.layout, ha.fit, ha.layout, hb.fit, hb.layout, hc.fit, hc.layout], rfl,
        by simp [Expr.startsLikeStatement, ha.starts], rfl⟩
    | _ => cases hs
  | call span a args =>
    cases e' with
    | call span' a' args' =>
      obtain ⟨ha, hargs⟩ := List.forall₂_cons.mp h
      have hlist := alike_list (R := Expr.Alike) id hargs
      exact ⟨fun depth => by simp [Expr.layout, Expr.Alike.fit ha, Expr.Alike.layout ha, Layout.outline_args hlist], rfl,
        by simp [Expr.startsLikeStatement, Expr.Alike.starts ha], rfl⟩
    | _ => cases hs
  | new span a args =>
    cases e' with
    | new span' a' args' =>
      obtain ⟨ha, hargs⟩ := List.forall₂_cons.mp h
      have hlist := alike_list (R := Expr.Alike) id hargs
      refine ⟨fun depth => ?_, rfl, rfl, rfl⟩
      cases hcalls : a'.containsCall <;>
        simp [Expr.layout, Expr.Alike.fit ha, Expr.Alike.layout ha, Expr.Alike.calls ha, hcalls, Layout.outline_args hlist]
    | _ => cases hs
  | member span a property =>
    cases e' with
    | member span' a' property' =>
      have ha : a.Alike a' := by simpa [Expr.parts] using h
      have hname : property.text = property'.text := (Name.mk.inj (Expr.member.inj hs).2.2).2
      refine ⟨fun depth => ?_, rfl, by simp [Expr.startsLikeStatement, ha.starts], by simp [Expr.containsCall, ha.calls]⟩
      cases hbare : a'.isBareInteger <;> simp [Expr.layout, ha.fit, ha.layout, ha.integer, hbare, hname]
    | _ => cases hs
  | index span a b =>
    cases e' with
    | index span' a' b' =>
      obtain ⟨ha, hb⟩ : a.Alike a' ∧ b.Alike b' := by simpa [Expr.parts] using h
      refine ⟨fun depth => ?_, rfl, by simp [Expr.startsLikeStatement, ha.starts], by simp [Expr.containsCall, ha.calls]⟩
      cases hbare : a'.isBareInteger <;> simp [Expr.layout, ha.fit, ha.layout, ha.integer, hbare, hb.layout]
    | _ => cases hs
  | sequence span items =>
    cases e' with
    | sequence span' items' =>
      have hlist := alike_list (R := Expr.Alike) id h
      refine ⟨fun depth => by simp [Expr.layout, Layout.outline_args hlist], rfl, ?_, rfl⟩
      cases hlist with
      | nil => rfl
      | cons ha => simp [Expr.startsLikeStatement, ha.starts]
    | _ => cases hs
  | spread span a =>
    cases e' with
    | spread span' a' =>
      have ha : a.Alike a' := by simpa [Expr.parts] using h
      exact ⟨fun depth => by simp [Expr.layout, ha.fit, ha.layout], rfl, rfl, rfl⟩
    | _ => cases hs
  | _ => cases e' <;> cases hs; exact ⟨fun depth => by rw [Expr.layout, Expr.layout], rfl, rfl, rfl⟩

/-! ### Patterns -/

theorem Pattern.alike {p p' : Pattern} (hs : p.skeleton = p'.skeleton) (h : List.Forall₂ Node.Alike p.parts p'.parts) :
    p.Alike p' := by
  cases p with
  | name b =>
    cases p' with
    | name b' =>
      obtain ⟨hname, -⟩ := List.forall₂_cons.mp h
      refine ⟨fun depth => ?_, rfl⟩
      cases b
      cases b'
      rw [Pattern.layout, Pattern.layout]
      exact congrArg (fun x => outline (Layout.name x)) hname
    | _ => cases hs
  | this span d =>
    cases p' with
    | this span' d' => exact ⟨fun depth => rfl, rfl⟩
    | _ => cases hs
  | array span ps =>
    cases p' with
    | array span' ps' =>
      have hps := alike_holes (Pattern.array.inj hs).2 (alike_list (R := Pattern.Alike) id h)
      refine ⟨fun depth => ?_, rfl⟩
      rw [Pattern.layout, Pattern.layout, outline_brackets, outline_brackets, Layout.outline_patternElements hps,
        Layout.endsInHole_eq hps]
    | _ => cases hs
  | object span ps =>
    cases p' with
    | object span' ps' =>
      have hps := alike_list (f := Node.patternProp) id h
      refine ⟨fun depth => ?_, rfl⟩
      have hprops := Layout.outline_patternProps hps depth
      cases hps with
      | nil => rfl
      | cons => simp [Pattern.layout, hprops]
    | _ => cases hs
  | withDefault span target e =>
    cases p' with
    | withDefault span' target' e' =>
      obtain ⟨htarget, he⟩ : target.Alike target' ∧ e.Alike e' := by simpa [Pattern.parts] using h
      exact ⟨fun depth => by simp [Pattern.layout, htarget.layout, he.fit, he.layout], rfl⟩
    | _ => cases hs
  | rest span target =>
    cases p' with
    | rest span' target' =>
      have htarget : target.Alike target' := by simpa [Pattern.parts] using h
      exact ⟨fun depth => by simp [Pattern.layout, htarget.layout], rfl⟩
    | _ => cases hs

/-! ### Statements -/

theorem Layout.outline_clause {s s' : Stmt} (h : s.Alike s') (sameLine : Bool) (depth : Nat) :
    outline (clause sameLine depth s (s.layout (clauseDepth sameLine depth))) =
      outline (clause sameLine depth s' (s'.layout (clauseDepth sameLine depth))) := by
  cases sameLine <;> simp [clause, h.layout]

theorem Stmt.alike {s s' : Stmt} (hs : s.skeleton = s'.skeleton) (h : List.Forall₂ Node.Alike s.parts s'.parts) :
    s.Alike s' := by
  cases s with
  | expr span e =>
    cases s' with
    | expr span' e' =>
      have he : e.Alike e' := by simpa [Stmt.parts] using h
      exact ⟨fun depth => by simp [Stmt.layout, he.starts, he.layout], rfl, rfl⟩
    | _ => cases hs
  | var d =>
    cases s' with
    | var d' =>
      obtain ⟨hd, -⟩ := List.forall₂_cons.mp h
      exact ⟨fun depth => by simp [Stmt.layout, hd depth], rfl, rfl⟩
    | _ => cases hs
  | function fn =>
    cases s' with
    | function fn' =>
      have hfn : fn.Alike fn' := by simpa [Stmt.parts] using h
      exact ⟨fun depth => by simp [Stmt.layout, hfn.layout depth], rfl, rfl⟩
    | _ => cases hs
  | ret span e site =>
    cases s' with
    | ret span' e' site' =>
      obtain ⟨he, -⟩ := alike_option (Stmt.ret.inj hs).2.1 h
      cases he with
      | none => exact ⟨fun depth => rfl, rfl, rfl⟩
      | some he => exact ⟨fun depth => by simp [Stmt.layout, Expr.Alike.layout he], rfl, rfl⟩
    | _ => cases hs
  | ifElse span test consequent alternate =>
    cases s' with
    | ifElse span' test' consequent' alternate' =>
      obtain ⟨ht, h⟩ := List.forall₂_cons.mp h
      obtain ⟨hc, h⟩ := List.forall₂_cons.mp h
      rw [← List.append_nil (List.map _ alternate.toList), ← List.append_nil (List.map _ alternate'.toList)] at h
      obtain ⟨ha, -⟩ := alike_option (Stmt.ifElse.inj hs).2.2.2 h
      refine ⟨fun depth => ?_, rfl, rfl⟩
      cases ha with
      | none => simp [Stmt.layout, Expr.Alike.layout ht, Stmt.Alike.isBlock hc, Layout.outline_clause hc]
      | some ha =>
        simp [Stmt.layout, Expr.Alike.layout ht, Stmt.Alike.isBlock hc, Layout.outline_clause hc, Stmt.Alike.isBlock ha,
          Stmt.Alike.isIf ha, Layout.outline_clause ha]
    | _ => cases hs
  | forLoop span init test update body =>
    cases s' with
    | forLoop span' init' test' update' body' =>
      obtain ⟨-, -, htest, hupdate, -⟩ := Stmt.forLoop.inj hs
      obtain ⟨hi, h⟩ := List.forall₂_cons.mp h
      obtain ⟨ht, h⟩ := alike_option htest h
      obtain ⟨hu, h⟩ := alike_option hupdate h
      have hb : body.Alike body' := by simpa using h
      refine ⟨fun depth => ?_, rfl, rfl⟩
      cases ht with
      | none =>
        cases hu with
        | none => simp [Stmt.layout, hi depth, hb.isBlock, Layout.outline_clause hb]
        | some hu => simp [Stmt.layout, hi depth, Expr.Alike.layout hu, hb.isBlock, Layout.outline_clause hb]
      | some ht =>
        cases hu with
        | none => simp [Stmt.layout, hi depth, Expr.Alike.layout ht, hb.isBlock, Layout.outline_clause hb]
        | some hu =>
          simp [Stmt.layout, hi depth, Expr.Alike.layout ht, Expr.Alike.layout hu, hb.isBlock, Layout.outline_clause hb]
    | _ => cases hs
  | forEach span target values obj body =>
    cases s' with
    | forEach span' target' values' obj' body' =>
      obtain ⟨ht, h⟩ := List.forall₂_cons.mp h
      obtain ⟨ho, hb⟩ : obj.Alike obj' ∧ body.Alike body' := by simpa using h
      cases hs
      exact ⟨fun depth => by simp [Stmt.layout, ht depth, ho.fit, ho.layout, hb.isBlock, Layout.outline_clause hb], rfl, rfl⟩
    | _ => cases hs
  | «while» span test body =>
    cases s' with
    | «while» span' test' body' =>
      obtain ⟨ht, hb⟩ : test.Alike test' ∧ body.Alike body' := by simpa [Stmt.parts] using h
      exact ⟨fun depth => by simp [Stmt.layout, ht.layout, hb.isBlock, Layout.outline_clause hb], rfl, rfl⟩
    | _ => cases hs
  | doWhile span body test =>
    cases s' with
    | doWhile span' body' test' =>
      obtain ⟨hb, ht⟩ : body.Alike body' ∧ test.Alike test' := by simpa [Stmt.parts] using h
      exact ⟨fun depth => by simp [Stmt.layout, ht.layout, hb.isBlock, Layout.outline_clause hb], rfl, rfl⟩
    | _ => cases hs
  | switch span subject cases =>
    cases s' with
    | switch span' subject' cases' =>
      obtain ⟨he, hcases⟩ := List.forall₂_cons.mp h
      have hlist := alike_list (f := Node.case) id hcases
      exact ⟨fun depth => by
        simp [Stmt.layout, Expr.Alike.layout he, Layout.outline_cases hlist, Piece.outline], rfl, rfl⟩
    | _ => cases hs
  | tryCatch span body handler finalizer =>
    cases s' with
    | tryCatch span' body' handler' finalizer' =>
      obtain ⟨-, -, hhandler, hfinalizer⟩ := Stmt.tryCatch.inj hs
      obtain ⟨hb, h⟩ := List.forall₂_cons.mp h
      obtain ⟨hh, h⟩ := alike_option hhandler h
      rw [← List.append_nil (List.map _ finalizer.toList), ← List.append_nil (List.map _ finalizer'.toList)] at h
      obtain ⟨hf, -⟩ := alike_option hfinalizer h
      refine ⟨fun depth => ?_, rfl, rfl⟩
      cases hh with
      | none =>
        cases hf with
        | none => simp [Stmt.layout, hb depth]
        | some hf => simp [Stmt.layout, hb depth, hf depth]
      | some hh =>
        cases hf with
        | none => simp [Stmt.layout, hb depth, hh depth]
        | some hf => simp [Stmt.layout, hb depth, hh depth, hf depth]
    | _ => cases hs
  | throw span e =>
    cases s' with
    | throw span' e' =>
      have he : e.Alike e' := by simpa [Stmt.parts] using h
      exact ⟨fun depth => by simp [Stmt.layout, he.layout], rfl, rfl⟩
    | _ => cases hs
  | block b =>
    cases s' with
    | block b' =>
      obtain ⟨hb, -⟩ := List.forall₂_cons.mp h
      exact ⟨fun depth => by simp [Stmt.layout, Block.Alike.layout hb], rfl, rfl⟩
    | _ => cases hs
  | _ => cases s' <;> cases hs; exact ⟨fun depth => by rw [Stmt.layout, Stmt.layout], rfl, rfl⟩

/-! ### Nodes -/

theorem Function.alike {fn fn' : Function} (hs : (Node.function fn).form = (Node.function fn').form)
    (h : List.Forall₂ Node.Alike (Node.function fn).parts (Node.function fn').parts) : fn.Alike fn' := by
  obtain ⟨-, hname, hparams, -, harrow, -⟩ := Function.mk.inj (Node.function.inj hs)
  have hlength : fn.params.length = fn'.params.length := by simpa using congrArg List.length hparams
  obtain ⟨hps, hbody⟩ : List.Forall₂ Node.Alike (fn.params.map .pattern) (fn'.params.map .pattern) ∧
      List.Forall₂ Node.Alike [.body fn.body] [.body fn'.body] := by
    have htake := List.forall₂_take fn.params.length h
    have hdrop := List.forall₂_drop fn.params.length h
    simp only [Node.parts] at htake hdrop
    rw [List.take_left' (by simp), List.take_left' (by simp [hlength])] at htake
    rw [List.drop_left' (by simp), List.drop_left' (by simp [hlength])] at hdrop
    exact ⟨htake, hdrop⟩
  refine ⟨?_, harrow, alike_list (R := Pattern.Alike) id hps, (List.forall₂_cons.mp hbody).1⟩
  have hnames := congrArg (Option.map Name.text) hname
  simpa [Function.comp_def, Name.bare] using hnames

theorem Block.alike {b b' : Block} (h : List.Forall₂ Node.Alike (Node.block b).parts (Node.block b').parts) :
    b.Alike b' := by
  obtain ⟨span, ss⟩ := b
  obtain ⟨span', ss'⟩ := b'
  have hss := alike_list (R := Stmt.Alike) id h
  intro depth
  have hlines := Layout.outline_stmts hss (depth + 1)
  cases hss with
  | nil => rfl
  | cons => simp [Block.layout, hlines, Piece.outline]

theorem Property.alike {p p' : Property} (hs : (Node.property p).form = (Node.property p').form)
    (h : List.Forall₂ Node.Alike (Node.property p).parts (Node.property p').parts) (depth : Nat) :
    outline (p.layout depth) = outline (p'.layout depth) := by
  cases p with
  | keyValue k e =>
    cases p' with
    | keyValue k' e' =>
      obtain ⟨hk, h⟩ := List.forall₂_cons.mp h
      have he : e.Alike e' := by simpa using h
      simp [Property.layout, hk depth, he.fit, he.layout]
    | _ => cases hs
  | shorthand x =>
    cases p' with
    | shorthand x' =>
      have hname : x.text = x'.text := (Name.mk.inj (Property.shorthand.inj (Node.property.inj hs))).2
      rw [Property.layout, Property.layout, hname]
    | _ => cases hs
  | method k fn =>
    cases p' with
    | method k' fn' =>
      obtain ⟨hk, h⟩ := List.forall₂_cons.mp h
      have hfn : fn.Alike fn' := by simpa using h
      simp [Property.layout_method, hk depth, Layout.outline_params hfn.params, hfn.body.layout]
    | _ => cases hs
  | spread e =>
    cases p' with
    | spread e' =>
      have he : e.Alike e' := by simpa [Node.parts] using h
      simp [Property.layout, he.fit, he.layout]
    | _ => cases hs

theorem Declarator.alike {d d' : Declarator} (hs : (Node.declarator d).form = (Node.declarator d').form)
    (h : List.Forall₂ Node.Alike (Node.declarator d).parts (Node.declarator d').parts) (depth : Nat) :
    outline (d.layout depth) = outline (d'.layout depth) := by
  obtain ⟨span, target, init⟩ := d
  obtain ⟨span', target', init'⟩ := d'
  obtain ⟨ht, h⟩ := List.forall₂_cons.mp h
  rw [← List.append_nil (List.map _ init.toList), ← List.append_nil (List.map _ init'.toList)] at h
  obtain ⟨hinit, -⟩ := alike_option (Declarator.mk.inj (Node.declarator.inj hs)).2.2 h
  cases hinit with
  | none => simp [Declarator.layout, Pattern.Alike.layout ht]
  | some he => simp [Declarator.layout, Pattern.Alike.layout ht, Expr.Alike.fit he, Expr.Alike.layout he]

theorem Case.alike {c c' : Case} (hs : (Node.case c).form = (Node.case c').form)
    (h : List.Forall₂ Node.Alike (Node.case c).parts (Node.case c').parts) (depth : Nat) :
    outline (c.layout depth) = outline (c'.layout depth) := by
  obtain ⟨span, test, body⟩ := c
  obtain ⟨span', test', body'⟩ := c'
  obtain ⟨htest, hbody⟩ := alike_option (Case.mk.inj (Node.case.inj hs)).2.1 h
  have hss := Layout.outline_stmts (alike_list (R := Stmt.Alike) id hbody) (depth + 1)
  cases htest with
  | none => simp [Case.layout, hss, Piece.outline]
  | some he => simp [Case.layout, hss, Expr.Alike.layout he, Piece.outline]

theorem Handler.alike {k k' : Handler} (hs : (Node.handler k).form = (Node.handler k').form)
    (h : List.Forall₂ Node.Alike (Node.handler k).parts (Node.handler k').parts) (depth : Nat) :
    outline (k.layout depth) = outline (k'.layout depth) := by
  obtain ⟨span, param, body⟩ := k
  obtain ⟨span', param', body'⟩ := k'
  obtain ⟨hparam, h⟩ := alike_option (Handler.mk.inj (Node.handler.inj hs)).2.1 h
  obtain ⟨hbody, -⟩ := List.forall₂_cons.mp h
  cases hparam with
  | none => simp [Handler.layout, hbody depth]
  | some hp => simp [Handler.layout, hbody depth, Pattern.Alike.layout hp]

theorem PatternProp.alike {p p' : PatternProp} (hs : (Node.patternProp p).form = (Node.patternProp p').form)
    (h : List.Forall₂ Node.Alike (Node.patternProp p).parts (Node.patternProp p').parts) (depth : Nat) :
    outline (p.layout depth) = outline (p'.layout depth) := by
  cases p with
  | keyValue k q =>
    cases p' with
    | keyValue k' q' =>
      obtain ⟨hk, h⟩ := List.forall₂_cons.mp h
      have hq : q.Alike q' := by simpa using h
      simp [PatternProp.layout, hk depth, hq.layout]
    | _ => cases hs
  | shorthand b e =>
    cases p' with
    | shorthand b' e' =>
      obtain ⟨hb, h⟩ := List.forall₂_cons.mp h
      have hname : b.name.text = b'.name.text := hb
      rw [← List.append_nil (List.map _ e.toList), ← List.append_nil (List.map _ e'.toList)] at h
      obtain ⟨he, -⟩ := alike_option (PatternProp.shorthand.inj (Node.patternProp.inj hs)).2 h
      cases b
      cases b'
      cases he with
      | none => simp_all [PatternProp.layout]
      | some he => simp_all [PatternProp.layout, Expr.Alike.fit he, Expr.Alike.layout he]
    | _ => cases hs
  | rest q =>
    cases p' with
    | rest q' =>
      have hq : q.Alike q' := by simpa [Node.parts] using h
      simpa [PatternProp.layout] using hq.layout depth
    | _ => cases hs

/-- Nodes of the same form, with parts that are laid out alike. -/
theorem Node.alike {n m : Node} (hs : n.form = m.form) (h : List.Forall₂ Node.Alike n.parts m.parts) : n.Alike m := by
  cases n with
  | expr e =>
    cases m with
    | expr e' => exact Expr.alike (Node.expr.inj hs) h
    | _ => trivial
  | item e =>
    cases m with
    | item e' =>
      cases e with
      | spread span a =>
        cases e' with
        | spread span' a' => exact Expr.alike rfl h
        | _ => cases hs
      | _ =>
        cases e' with
        | spread => cases hs
        | _ => exact (List.forall₂_cons.mp h).1
    | _ => trivial
  | key k =>
    cases m with
    | key k' =>
      cases k with
      | computed e =>
        cases k' with
        | computed e' =>
          have he : e.Alike e' := by simpa [parts] using h
          exact fun depth => by simp [PropKey.layout, he.fit, he.layout]
        | _ => cases hs
      | name x =>
        cases k' with
        | name x' =>
          have hname : x.text = x'.text := (Name.mk.inj (PropKey.name.inj (Node.key.inj hs))).2
          exact fun depth => by rw [PropKey.layout, PropKey.layout, hname]
        | _ => cases hs
      | _ => cases k' <;> cases hs; exact fun depth => rfl
    | _ => trivial
  | property p =>
    cases m with
    | property p' =>
      exact Property.alike hs h
    | _ => trivial
  | function fn =>
    cases m with
    | function fn' => exact Function.alike hs h
    | _ => trivial
  | body b =>
    cases m with
    | body b' =>
      cases b with
      | block b =>
        cases b' with
        | block b' => exact .block (List.forall₂_cons.mp h).1
        | concise => cases hs
      | concise e =>
        cases b' with
        | block => cases hs
        | concise e' => exact .concise (List.forall₂_cons.mp h).1
    | _ => trivial
  | block b =>
    cases m with
    | block b' => exact Block.alike h
    | _ => trivial
  | stmt s =>
    cases m with
    | stmt s' => exact Stmt.alike (Node.stmt.inj hs) h
    | _ => trivial
  | decl d =>
    cases m with
    | decl d' =>
      obtain ⟨span, kind, ds⟩ := d
      obtain ⟨span', kind', ds'⟩ := d'
      obtain ⟨-, hkind, -⟩ := Decl.mk.inj (Node.decl.inj hs)
      cases hkind
      have hds := alike_list (f := Node.declarator) id h
      exact fun depth => by simp [Decl.layout, Layout.outline_declarators hds]
    | _ => trivial
  | declarator d =>
    cases m with
    | declarator d' =>
      exact Declarator.alike hs h
    | _ => trivial
  | forInit i =>
    cases m with
    | forInit i' =>
      cases i with
      | none =>
        cases i' with
        | none => exact fun depth => rfl
        | _ => cases hs
      | var d =>
        cases i' with
        | var d' => exact fun depth => by simpa [ForInit.layout] using (List.forall₂_cons.mp h).1 depth
        | _ => cases hs
      | expr e =>
        cases i' with
        | expr e' => exact fun depth => by simpa [ForInit.layout] using Expr.Alike.layout (List.forall₂_cons.mp h).1 depth
        | _ => cases hs
    | _ => trivial
  | forTarget t =>
    cases m with
    | forTarget t' =>
      cases t with
      | var kind p =>
        cases t' with
        | var kind' p' =>
          obtain ⟨hkind, -⟩ := ForTarget.var.inj (Node.forTarget.inj hs)
          cases hkind
          have hp : p.Alike p' := by simpa [parts] using h
          exact fun depth => by simp [ForTarget.layout, hp.layout]
        | expr => cases hs
      | expr e =>
        cases t' with
        | var => cases hs
        | expr e' =>
          have he : e.Alike e' := by simpa [parts] using h
          exact fun depth => by simp [ForTarget.layout, he.fit, he.layout]
    | _ => trivial
  | case c =>
    cases m with
    | case c' =>
      exact Case.alike hs h
    | _ => trivial
  | handler k =>
    cases m with
    | handler k' =>
      exact Handler.alike hs h
    | _ => trivial
  | pattern p =>
    cases m with
    | pattern p' => exact Pattern.alike (Node.pattern.inj hs) h
    | _ => trivial
  | patternProp p =>
    cases m with
    | patternProp p' =>
      exact PatternProp.alike hs h
    | _ => trivial
  | binding b =>
    cases m with
    | binding b' => exact (Name.mk.inj (Binding.mk.inj (Node.binding.inj hs)).2.1).2
    | _ => trivial
  | _ => cases m <;> trivial

/-- Trees with the same code are laid out alike. -/
theorem Node.SameCode.alike {n m : Node} (h : n.SameCode m) : n.Alike m :=
  h.byParts fun hform hparts => Node.alike hform (hparts.imp fun _ _ => And.right)

/-- Programs with the same code are laid out alike. -/
theorem Layout.outline_program {ss ss' : List Stmt} (h : List.Forall₂ Node.SameCode (ss.map .stmt) (ss'.map .stmt)) (depth : Nat) :
    outline (Layout.stmts depth ss) = outline (Layout.stmts depth ss') := by
  have halike : List.Forall₂ Node.Alike (ss.map .stmt) (ss'.map .stmt) := h.imp fun _ _ => Node.SameCode.alike
  exact Layout.outline_stmts (alike_list (R := Stmt.Alike) id halike) depth

end LabelWeaver
