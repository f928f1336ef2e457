import LabelWeaver.Proofs.Tree.Script
import LabelWeaver.Proofs.Layout.Forms
import LabelWeaver.Proofs.Layout.Rereads

/-! Layouts follow scripts: what a node is made of is laid out in the order of its script, and comments have
    their places only where the script has a place in the source. -/

namespace LabelWeaver

open Layout

/-- The piece is no salient token and no place for comments. -/
def Piece.isQuiet : Piece → Bool
  | token k => !k.asRead.isSalient
  | space | newline | indent _ => true
  | comments _ _ | emptyBlock _ _ => false

/-- The pieces are the whole layout of the node. -/
def Node.Written : Node → List Piece → Prop
  | stmt s, ps => ∃ depth, ps = s.layout depth ∨ ps = lead depth s ++ s.layout depth
  | block b, ps => ∃ depth, ps = b.layout depth
  | _, _ => True

/-- The constituents are laid out one after the other. -/
inductive Lays : List Constituent → List Piece → Prop where
  | nil : Lays [] []
  | quiet {ks : List Constituent} {ps : List Piece} {p : Piece} (hp : p.isQuiet = true) (h : Lays ks ps) : Lays ks (p :: ps)
  | token {ks : List Constituent} {ps : List Piece} {k : Token.Kind} (hk : k.asRead.isSalient = true) (h : Lays ks ps) :
      Lays (.token k.asRead :: ks) (.token k :: ps)
  /-- Not every place in the source is one for comments. -/
  | mark {ks : List Constituent} {ps : List Piece} (o : Nat) (h : Lays ks ps) : Lays (.mark o :: ks) ps
  | comments {ks : List Constituent} {ps : List Piece} (o depth : Nat) (h : Lays ks ps) :
      Lays (.mark o :: ks) (.comments o depth :: ps)
  | emptyBlock {ks : List Constituent} {ps : List Piece} (o depth : Nat) (h : Lays ks ps) :
      Lays (.mark o :: ks) (.emptyBlock o depth :: ps)
  | node {ks : List Constituent} {n : Node} {own ps : List Piece} (hown : Lays n.script own) (hwritten : n.Written own)
      (h : Lays ks ps) : Lays (.node n :: ks) (own ++ ps)

namespace Lays

variable {ks ks' : List Constituent} {ps ps' : List Piece} {n : Node} {depth : Nat}

theorem append (h : Lays ks ps) (h' : Lays ks' ps') : Lays (ks ++ ks') (ps ++ ps') := by
  induction h with
  | nil => exact h'
  | quiet hp _ ih => exact .quiet hp ih
  | token hk _ ih => exact .token hk ih
  | mark o _ ih => exact .mark o ih
  | comments o depth _ ih => exact .comments o depth ih
  | emptyBlock o depth _ ih => exact .emptyBlock o depth ih
  | node hown hwritten _ _ ih =>
    rw [List.append_assoc]
    exact .node hown hwritten ih

theorem quiets (h : ∀ p ∈ ps, p.isQuiet = true) : Lays [] ps := by
  induction ps with
  | nil => exact .nil
  | cons p ps ih =>
    obtain ⟨hp, hps⟩ := List.forall_mem_cons.mp h
    exact .quiet hp (ih hps)

theorem before {q : List Piece} (hq : ∀ p ∈ q, p.isQuiet = true) (h : Lays ks ps) : Lays ks (q ++ ps) :=
  (quiets hq).append h

theorem behind {q : List Piece} (hq : ∀ p ∈ q, p.isQuiet = true) (h : Lays ks ps) : Lays ks (ps ++ q) := by
  simpa using h.append (quiets hq)

theorem single (h : Lays n.script ps) (hwritten : n.Written ps) : Lays [.node n] ps := by
  simpa using Lays.node h hwritten .nil

/-! ### Parentheses, commas and lines -/

theorem paren (h : Lays ks ps) : Lays ks (paren ps) := (h.before (by decide)).behind (by decide)

theorem parenIf (needed : Bool) (h : Lays ks ps) : Lays ks (parenIf needed ps) := by
  cases needed with
  | false => exact h
  | true => exact h.paren

theorem fit (least : Prec) (e : Expr) (h : Lays ks ps) : Lays ks (fit least e ps) := h.parenIf _

theorem orParen {needed : Prop} [Decidable needed] (least : Prec) (e : Expr) (h : Lays ks ps) :
    Lays ks (if needed then Layout.paren ps else Layout.fit least e ps) := by
  split
  · exact h.paren
  · exact h.fit least e

section
variable {α : Type} {f : α → List Piece} {g : α → Node}

/-- Items with commas between them, of which some may be left out. -/
theorem commaSepOption {xs : List (Option α)} (h : ∀ x, some x ∈ xs → Lays [.node (g x)] (f x)) :
    Lays (((xs.filterMap id).map g).map .node) (commaSep (xs.map (Option.elim · [] f))) := by
  induction xs with
  | nil => exact .nil
  | cons x xs ih =>
    have hrest := ih fun x hx => h x (List.mem_cons_of_mem _ hx)
    have hitem : Lays (((x.toList.map g)).map .node) (x.elim [] f) := by
      cases x with
      | none => exact .nil
      | some x => exact h x List.mem_cons_self
    have hlist : ((x :: xs).filterMap id).map g = x.toList.map g ++ (xs.filterMap id).map g := by cases x <;> rfl
    rw [hlist, List.map_append]
    cases xs with
    | nil => simpa [commaSep] using hitem
    | cons y xs => exact (hitem.behind (by decide)).append hrest

theorem commaSep {xs : List α} (h : ∀ x ∈ xs, Lays [.node (g x)] (f x)) :
    Lays ((xs.map g).map .node) (commaSep (xs.map f)) := by
  have hall : Lays ((((xs.map some).filterMap id).map g).map .node) (Layout.commaSep ((xs.map some).map (Option.elim · [] f))) :=
    commaSepOption fun x hx => h x (by simpa using hx)
  simpa [List.filterMap_map, Function.comp_def] using hall

theorem brackets {xs : List (Option α)} (hole : Bool) (h : ∀ x, some x ∈ xs → Lays [.node (g x)] (f x)) :
    Lays (((xs.filterMap id).map g).map .node) (brackets (xs.map (Option.elim · [] f)) hole) := by
  have hcomma : ∀ p ∈ (if hole then sign .comma else []), p.isQuiet = true := by cases hole <;> decide
  exact (((commaSepOption h).before (by decide)).behind hcomma).behind (by decide)

end

theorem braces {d : Nat} (h : Lays ks ps) : Lays ks (braces d ps) := by
  have hlines := (h.before (q := sign .lbrace ++ newline) (by decide)).behind (q := indent d)
    (fun p hp => by cases List.mem_singleton.mp hp; rfl)
  exact hlines.behind (by decide)

/-- A statement on its own line. -/
theorem line {s : Stmt} (h : Lays [.node (.stmt s)] (lead depth s ++ s.layout depth)) :
    Lays [.node (.stmt s)] (lead depth s ++ s.layout depth ++ newline) :=
  h.behind (by decide)

/-- The slashes of a layout are those of its script, in order. -/
theorem slashes (h : Lays ks ps) : Layout.slashes (text ps) = (salientOf ks).filter Token.Kind.isSlash := by
  induction h with
  | nil => rfl
  | @quiet ks ps p hp h ih =>
    have hp' : Layout.slashes p.text = [] := by
      cases p with
      | token k =>
        have hk : k.asRead.isSalient = false := by simpa [Piece.isQuiet] using hp
        simp [Piece.text, (Bool.or_eq_false_iff.mp hk).1]
      | comments | emptyBlock => cases hp
      | _ => rfl
    rw [text_cons, slashes_append, hp', List.nil_append, ih]
  | token hk h ih => simp [Piece.text, List.filter_cons, ih]
  | mark o h ih => exact ih
  | comments o depth h ih => exact ih
  | emptyBlock o depth h ih => simpa [Piece.text, Token.Kind.isSlash] using ih
  | @node ks n own ps hown hwritten h ihown ih =>
    rw [text_append, slashes_append, ihown, ih, salientOf_node, List.filter_append, n.salient_eq]

end Lays

/-! ### Names and operators -/

theorem Lexeme.isSalient_word {x : String} (hx : x ≠ "for") : (Lexeme.word x).isSalient = false :=
  Token.Kind.isSalient_of_text (Lexeme.propertyText?_word x) hx

theorem Lexeme.ne_for_of_name {x : String} (h : (Lexis.of Token.Kind.Legal).name x) : x ≠ "for" := by
  rintro rfl
  cases Lexeme.word_of_name h

/-- The name of a property is laid out as the word that starts a loop if it is that word. -/
theorem Lays.name (x : Name) : Lays (x.loopWord.map .token) (Layout.name x.text) := by
  unfold Name.loopWord
  split
  · next hx =>
    rw [hx]
    exact .token (k := .ident "for") rfl .nil
  · next hx => exact .quiet (by rw [Piece.isQuiet, Token.Kind.asRead_ident, Lexeme.isSalient_word hx]; rfl) .nil

theorem Lays.quietName {x : String} (h : (Lexis.of Token.Kind.Legal).name x) : Lays [] (Layout.name x) :=
  .quiet (by rw [Piece.isQuiet, Token.Kind.asRead_ident, Lexeme.isSalient_word (Lexeme.ne_for_of_name h)]; rfl) .nil

theorem Lays.binaryOp (span : Span) (op : BinaryOp) (a b : Expr) :
    Lays ((Node.expr (.binary span op a b)).signs.map .token) (spaced op.token) := by
  cases op with
  | div => exact .quiet rfl (.token (k := .punct .slash) rfl (.quiet rfl .nil))
  | _ => exact .quiets (by decide)

theorem Lays.assignOp (span : Span) (op : AssignOp) (a b : Expr) :
    Lays ((Node.expr (.assign span op a b)).signs.map .token) (Layout.spaced (.punct op.sign)) := by
  cases op with
  | div => exact .quiet rfl (.token (k := .punct .slashEq) rfl (.quiet rfl .nil))
  | _ => exact .quiets (by decide)

/-! ### Trees -/

/-- The node is laid out as its script says. -/
def Node.Laid (n : Node) : Prop :=
  match n with
  | expr e | item e => ∀ depth, Lays [.node n] (e.layout depth)
  | key k => ∀ depth, Lays [.node n] (k.layout depth)
  | property p => ∀ depth, Lays [.node n] (p.layout depth)
  | function fn => ∀ depth, Lays [.node n] (fn.layout depth) ∧
      (fn.isArrow = false →
        Lays [.node n] (paren (commaSep (Layout.params depth fn.params)) ++ space ++ fn.body.layout depth))
  | body (.block b) => ∀ depth, Lays [.node n] (b.layout depth)
  | body (.concise e) => ∀ depth, Lays [.node n] (e.layout depth)
  | block b => ∀ depth, Lays [.node n] (b.layout depth)
  | stmt s => ∀ depth, Lays [.node n] (s.layout depth) ∧ Lays [.node n] (lead depth s ++ s.layout depth)
  | decl d => ∀ depth, Lays [.node n] (d.layout depth)
  | declarator d => ∀ depth, Lays [.node n] (d.layout depth)
  | forInit i => ∀ depth, Lays [.node n] (i.layout depth)
  | forTarget t => ∀ depth, Lays [.node n] (t.layout depth)
  | case c => ∀ depth, Lays [.node n] (c.layout depth)
  | handler k => ∀ depth, Lays [.node n] (k.layout depth)
  | pattern p => Layout.isThis p = false ∧ ∀ depth, Lays [.node n] (p.layout depth)
  | patternProp p => ∀ depth, Lays [.node n] (p.layout depth)
  | binding b => Lays [.node n] (Layout.name b.name.text)
  | site _ => Lays [.node n] []
  | _ => True

section
variable {depth : Nat}

theorem Lays.args {g : Expr → Node} {es : List Expr} (h : ∀ e ∈ es, Lays [.node (g e)] (e.layout depth)) :
    Lays ((es.map g).map .node) (Layout.commaSep (Layout.args depth es)) := by
  rw [args_eq]
  exact .commaSep fun e he => (h e he).fit .assign e

theorem Lays.stmts {ss : List Stmt} (h : ∀ m ∈ ss.map Node.stmt, m.Laid) :
    Lays ((ss.map Node.stmt).map .node) (Layout.stmts depth ss) := by
  induction ss with
  | nil => exact .nil
  | cons s ss ih =>
    obtain ⟨hs, hss⟩ := List.forall_mem_cons.mp h
    exact ((hs depth).2.line).append (ih hss)

/-- A part of a statement, on the same line or on a line of its own. -/
theorem Lays.clause {d : Nat} {s : Stmt} (hs : (Node.stmt s).Laid) (sameLine : Bool) :
    Lays [.node (.stmt s)] (Layout.clause sameLine d s (s.layout (clauseDepth sameLine d))) := by
  cases sameLine with
  | true => exact .before (q := space) (by decide) (hs _).1
  | false =>
    have hline := Lays.before (q := newline) (by decide) (hs (d + 1)).2
    simpa [Layout.clause, clauseDepth] using hline

theorem Lays.clauseGap {d : Nat} (sameLine : Bool) : Lays [] (Layout.clauseGap sameLine d) := by
  refine .quiets fun p hp => ?_
  cases sameLine with
  | true =>
    cases List.mem_singleton.mp hp
    rfl
  | false =>
    rcases List.mem_cons.mp hp with rfl | hp
    · rfl
    · cases List.mem_singleton.mp hp
      rfl

theorem Expr.laid {e : Expr} (hproper : e.Proper (.of Token.Kind.Legal)) (h : ∀ m ∈ e.parts, m.Laid) (depth : Nat) :
    Lays [.node (.expr e)] (e.layout depth) := by
  refine .single ?_ trivial
  cases e with
  | ident span x => exact .quietName hproper
  | bool span value => cases value <;> exact .quiet rfl .nil
  | regex span x y => exact .token (k := .regex x y) rfl .nil
  | number span x => exact .quiet rfl .nil
  | string span x => exact .quiet rfl .nil
  | array span elements =>
    rw [layout, elements_eq]
    refine .brackets _ fun e he => .fit .assign e ?_
    exact h (.item e) (List.mem_map_of_mem (List.mem_filterMap.mpr ⟨some e, he, rfl⟩)) depth
  | object span properties =>
    cases properties with
    | nil => exact .quiet rfl (.quiet rfl .nil)
    | cons p ps =>
      rw [layout]
      · refine .braces ?_
        have hprops : ∀ ps : List Property, (∀ p ∈ ps, (Node.property p).Laid) →
            Lays ((ps.map Node.property).map .node) (Layout.properties (depth + 1) ps) := by
          intro ps hps
          induction ps with
          | nil => exact .nil
          | cons p ps ih =>
            obtain ⟨hp, hps⟩ := List.forall_mem_cons.mp hps
            have hline : Lays [.node (.property p)] (indent (depth + 1) ++ p.layout (depth + 1)) :=
              .quiet rfl (hp _)
            cases ps with
            | nil => exact hline.behind (by decide)
            | cons q ps => exact ((hline.behind (by decide)).behind (by decide)).append (ih hps)
        exact hprops (p :: ps) fun q hq => h (.property q) (List.mem_map_of_mem hq)
      · exact List.cons_ne_nil _ _
  | function span fn => exact (h (.function fn) List.mem_cons_self depth).1
  | unary span op e =>
    have he := h (.expr e) List.mem_cons_self depth
    have hoperand : Lays [.node (.expr e)] (if e.signsClash op then Layout.paren (e.layout depth)
        else Layout.fit .unary e (e.layout depth)) := he.orParen .unary e
    cases op with
    | typeof | void | delete => exact .quiet rfl (.quiet rfl hoperand)
    | _ => exact .quiet rfl hoperand
  | update span op leading e =>
    have he := h (.expr e) List.mem_cons_self depth
    have hop : ∀ p ∈ sign op.sign, p.isQuiet = true := by cases op <;> decide
    cases leading with
    | true => exact (he.fit .unary e).before hop
    | false => exact (he.fit .update e).behind hop
  | binary span op left right =>
    obtain ⟨hleft, hright⟩ : (Node.expr left).Laid ∧ (Node.expr right).Laid := by simpa [parts] using h
    exact (((hleft depth).fit _ left).append (.binaryOp span op left right)).append ((hright depth).fit _ right)
  | assign span op target value =>
    obtain ⟨htarget, hvalue⟩ : (Node.expr target).Laid ∧ (Node.expr value).Laid := by simpa [parts] using h
    exact (((htarget depth).fit _ target).append (.assignOp span op target value)).append ((hvalue depth).fit _ value)
  | conditional span test consequent alternate =>
    obtain ⟨htest, hconsequent, halternate⟩ :
        (Node.expr test).Laid ∧ (Node.expr consequent).Laid ∧ (Node.expr alternate).Laid := by
      simpa [parts] using h
    have hquestion : Lays [] (Layout.spaced (.punct .question)) := .quiets (by decide)
    have hcolon : Lays [] (Layout.spaced (.punct .colon)) := .quiets (by decide)
    exact (((((htest depth).fit .or test).append hquestion).append ((hconsequent depth).fit .assign consequent)).append
      hcolon).append ((halternate depth).fit .assign alternate)
  | call span callee args =>
    obtain ⟨hcallee, hargs⟩ := List.forall_mem_cons.mp h
    have hlist : Lays ((args.map Node.item).map .node) (Layout.commaSep (Layout.args depth args)) :=
      .args fun e he => hargs (.item e) (List.mem_map_of_mem he) depth
    exact ((hcallee depth).fit .call callee).append hlist.paren
  | new span callee args =>
    obtain ⟨hcallee, hargs⟩ := List.forall_mem_cons.mp h
    have hlist : Lays ((args.map Node.item).map .node) (Layout.commaSep (Layout.args depth args)) :=
      .args fun e he => hargs (.item e) (List.mem_map_of_mem he) depth
    have hnew : Lays [] (keyword .kwNew ++ space) := .quiets (by decide)
    exact (hnew.append ((hcallee depth).orParen .call callee)).append hlist.paren
  | member span e x =>
    have he := h (.expr e) List.mem_cons_self depth
    exact ((he.orParen .call e).behind (by decide)).append (.name x)
  | index span e e' =>
    obtain ⟨he, he'⟩ : (Node.expr e).Laid ∧ (Node.expr e').Laid := by simpa [parts] using h
    exact ((((he depth).orParen .call e).behind (by decide)).append (he' depth)).behind (by decide)
  | sequence span items => exact .args fun e he => h (.expr e) (List.mem_map_of_mem he) depth
  | spread => exact hproper.elim
  | _ => exact .quiet rfl .nil

theorem Lays.params {ps : List Pattern} (h : ∀ m ∈ ps.map Node.pattern, m.Laid) :
    Lays ((ps.map Node.pattern).map .node) (Layout.commaSep (Layout.params depth ps)) := by
  have hparams : Layout.params depth ps = ps.map (Pattern.layout depth) := by
    induction ps with
    | nil => rfl
    | cons p ps ih =>
      obtain ⟨hp, hps⟩ := List.forall_mem_cons.mp h
      rw [Layout.params, hp.1, ih hps]
      rfl
  rw [hparams]
  exact .commaSep fun p hp => (h (.pattern p) (List.mem_map_of_mem hp)).2 depth

theorem Function.laid {fn : Function} (hproper : fn.Proper (.of Token.Kind.Legal))
    (h : ∀ m ∈ (Node.function fn).parts, m.Laid) : (Node.function fn).Laid := by
  intro depth
  obtain ⟨hparams, hbody⟩ := List.forall_mem_append.mp h
  have hbody := hbody (.body fn.body) List.mem_cons_self
  have hlist : Lays ((fn.params.map Node.pattern).map .node) (Layout.paren (Layout.commaSep (Layout.params depth fn.params))) :=
    (Lays.params hparams).paren
  have hscript : (Node.function fn).script = (fn.params.map Node.pattern).map .node ++ [.node (.body fn.body)] :=
    List.map_append
  cases harrow : fn.isArrow with
  | false =>
    obtain ⟨b, hb⟩ := hproper.body harrow
    have hblock : Lays [.node (.body fn.body)] (fn.body.layout depth) := by
      rw [hb] at hbody ⊢
      rw [FunctionBody.layout]
      exact hbody depth
    have htail : Lays [.node (.function fn)]
        (Layout.paren (Layout.commaSep (Layout.params depth fn.params)) ++ space ++ fn.body.layout depth) := by
      refine .single ?_ trivial
      rw [hscript]
      exact (hlist.behind (by decide)).append hblock
    refine ⟨?_, fun _ => htail⟩
    have hname : Lays [] (fn.name.elim [] fun n => Layout.name n.text) := by
      cases hname : fn.name with
      | none => exact .nil
      | some n => exact .quietName (hproper.name n hname)
    have hword : Lays [] (keyword .kwFunction ++ space) := .quiets (by decide)
    rw [layout_of_not_arrow harrow, List.append_assoc, List.append_assoc, ← List.append_assoc (Layout.paren _)]
    exact (hword.append hname).append htail
  | true =>
    refine ⟨.single ?_ trivial, nofun⟩
    rw [hscript]
    obtain ⟨span, name, params, body, isArrow, receiver, returns, condition, sites, instrumented⟩ := fn
    cases harrow
    have harrow : ∀ p ∈ Layout.spaced (.punct .arrow), p.isQuiet = true := by decide
    cases body with
    | block b => exact (hlist.behind harrow).append (hbody depth)
    | concise e => exact (hlist.behind harrow).append ((hbody depth).orParen .assign e)

theorem PropKey.laid {k : PropKey} (h : ∀ m ∈ (Node.key k).parts, m.Laid) (depth : Nat) :
    Lays [.node (.key k)] (k.layout depth) := by
  refine .single ?_ trivial
  cases k with
  | name x => simpa [layout, Node.script, Node.signs, Node.parts] using Lays.name x
  | computed e =>
    have he := h (.expr e) List.mem_cons_self depth
    exact ((he.fit .assign e).before (by decide)).behind (by decide)
  | string => exact .quiet rfl .nil
  | number => exact .quiet rfl .nil

theorem Property.laid {p : Property} (hproper : (Node.property p).Proper (.of Token.Kind.Legal))
    (h : ∀ m ∈ (Node.property p).parts, m.Laid) (depth : Nat) : Lays [.node (.property p)] (p.layout depth) := by
  refine .single ?_ trivial
  cases p with
  | keyValue k e =>
    obtain ⟨hk, he⟩ : (Node.key k).Laid ∧ (Node.expr e).Laid := by simpa [Node.parts] using h
    exact (((hk depth).behind (by decide)).behind (by decide)).append ((he depth).fit .assign e)
  | shorthand x => simpa [layout, Node.script, Node.signs, Node.parts] using Lays.name x
  | method k fn =>
    obtain ⟨hk, hfn⟩ : (Node.key k).Laid ∧ (Node.function fn).Laid := by simpa [Node.parts] using h
    rw [layout_method, List.append_assoc, List.append_assoc, ← List.append_assoc (Layout.paren _)]
    exact (hk depth).append ((hfn depth).2 hproper.1)
  | spread e =>
    have he := h (.expr e) List.mem_cons_self depth
    exact (he.fit .assign e).before (by decide)

theorem Block.laid {b : Block} (h : ∀ m ∈ (Node.block b).parts, m.Laid) (depth : Nat) :
    Lays [.node (.block b)] (b.layout depth) := by
  refine .single ?_ ⟨depth, rfl⟩
  obtain ⟨span, stmts⟩ := b
  cases stmts with
  | nil => exact .mark _ (.emptyBlock _ _ .nil)
  | cons s stmts =>
    rw [layout]
    · exact .mark _ ((Lays.stmts h).append (.comments _ _ .nil)).braces
    · exact List.cons_ne_nil _ _

theorem Pattern.laid {p : Pattern} (hproper : p.Proper (.of Token.Kind.Legal)) (h : ∀ m ∈ p.parts, m.Laid) :
    (Node.pattern p).Laid := by
  cases p with
  | name b =>
    have hb : Lays [.node (.binding b)] (Layout.name b.name.text) := h (.binding b) List.mem_cons_self
    obtain ⟨span, x, demand⟩ := b
    exact ⟨rfl, fun depth => .single hb trivial⟩
  | this => exact hproper.elim
  | array span elements =>
    refine ⟨rfl, fun depth => .single ?_ trivial⟩
    rw [layout, patternElements_eq]
    refine .brackets _ fun p hp => ?_
    exact (h (.pattern p) (List.mem_map_of_mem (List.mem_filterMap.mpr ⟨some p, hp, rfl⟩))).2 depth
  | object span properties =>
    refine ⟨rfl, fun depth => .single ?_ trivial⟩
    cases properties with
    | nil => exact .quiet rfl (.quiet rfl .nil)
    | cons p ps =>
      have hprops : Lays (((p :: ps).map Node.patternProp).map .node)
          (Layout.commaSep ((p :: ps).map (PatternProp.layout depth))) :=
        .commaSep fun p hp => h (.patternProp p) (List.mem_map_of_mem hp) depth
      rw [layout, patternProps_eq]
      · exact ((hprops.before (q := sign .lbrace ++ space) (by decide)).behind (by decide)).behind (by decide)
      · exact List.cons_ne_nil _ _
  | withDefault span target e =>
    obtain ⟨htarget, he⟩ : (Node.pattern target).Laid ∧ (Node.expr e).Laid := by simpa [parts] using h
    have hsign : ∀ p ∈ Layout.spaced (.punct .eq), p.isQuiet = true := by decide
    exact ⟨rfl, fun depth => .single (((htarget.2 depth).behind hsign).append ((he depth).fit .assign e)) trivial⟩
  | rest span target =>
    have htarget := h (.pattern target) List.mem_cons_self
    exact ⟨rfl, fun depth => .single ((htarget.2 depth).before (by decide)) trivial⟩

theorem PatternProp.laid {p : PatternProp} (h : ∀ m ∈ (Node.patternProp p).parts, m.Laid) (depth : Nat) :
    Lays [.node (.patternProp p)] (p.layout depth) := by
  refine .single ?_ trivial
  cases p with
  | keyValue k p =>
    obtain ⟨hk, hp⟩ : (Node.key k).Laid ∧ (Node.pattern p).Laid := by simpa [Node.parts] using h
    exact (((hk depth).behind (by decide)).behind (by decide)).append (hp.2 depth)
  | shorthand b e =>
    have hb : Lays [.node (.binding b)] (Layout.name b.name.text) := h (.binding b) List.mem_cons_self
    obtain ⟨span, x, demand⟩ := b
    cases e with
    | none => exact hb
    | some e =>
      have he := h (.expr e) (by simp [Node.parts]) depth
      have hsign : Lays [] (Layout.spaced (.punct .eq)) := .quiets (by decide)
      simpa [layout, Node.script, Node.signs, Node.parts] using hb.append (hsign.append (he.fit .assign e))
  | rest p => exact (h (.pattern p) List.mem_cons_self).2 depth

theorem Declarator.laid {d : Declarator} (h : ∀ m ∈ (Node.declarator d).parts, m.Laid) (depth : Nat) :
    Lays [.node (.declarator d)] (d.layout depth) := by
  refine .single ?_ trivial
  obtain ⟨span, target, init⟩ := d
  have htarget := (h (.pattern target) List.mem_cons_self).2 depth
  cases init with
  | none => exact htarget
  | some e =>
    have he := h (.expr e) (by simp [Node.parts]) depth
    exact (htarget.behind (q := Layout.spaced (.punct .eq)) (by decide)).append (he.fit .assign e)

theorem Decl.laid {d : Decl} (h : ∀ m ∈ (Node.decl d).parts, m.Laid) (depth : Nat) :
    Lays [.node (.decl d)] (d.layout depth) := by
  refine .single ?_ trivial
  obtain ⟨span, kind, decls⟩ := d
  rw [layout, declarators_eq]
  have hword : ∀ p ∈ keyword kind.word ++ space, p.isQuiet = true := by cases kind <;> decide
  exact .before hword (.commaSep fun d hd => h (.declarator d) (List.mem_map_of_mem hd) depth)

theorem Case.laid {c : Case} (h : ∀ m ∈ (Node.case c).parts, m.Laid) (depth : Nat) :
    Lays [.node (.case c)] (c.layout depth) := by
  refine .single ?_ trivial
  obtain ⟨span, test, body⟩ := c
  obtain ⟨htest, hbody⟩ := List.forall_mem_append.mp h
  have hstmts : Lays ((body.map Node.stmt).map .node) (sign .colon ++ newline ++ Layout.stmts (depth + 1) body) :=
    (Lays.stmts hbody).before (q := sign .colon ++ newline) (by decide)
  cases test with
  | none =>
    have hall := Lays.comments span.offset depth (.quiet (p := .indent depth) rfl (hstmts.before (q := keyword .kwDefault) (by decide)))
    simpa [layout, Node.script, Node.parts] using hall
  | some e =>
    have he := htest (.expr e) List.mem_cons_self depth
    have hhead := he.before (q := keyword .kwCase ++ space) (by decide)
    have hall := Lays.comments span.offset depth (.quiet (p := .indent depth) rfl (hhead.append hstmts))
    simpa [layout, Node.script, Node.parts] using hall

theorem Handler.laid {k : Handler} (h : ∀ m ∈ (Node.handler k).parts, m.Laid) (depth : Nat) :
    Lays [.node (.handler k)] (k.layout depth) := by
  refine .single ?_ trivial
  obtain ⟨span, param, body⟩ := k
  have hbody := h (.block body) (by simp [Node.parts]) depth
  have hword : ∀ p ∈ keyword .kwCatch ++ space, p.isQuiet = true := by decide
  cases param with
  | none => exact hbody.before hword
  | some p =>
    have hp := (h (.pattern p) (by simp [Node.parts])).2 depth
    exact ((hp.paren.before hword).behind (by decide)).append hbody

theorem ForInit.laid {i : ForInit} (h : ∀ m ∈ (Node.forInit i).parts, m.Laid) (depth : Nat) :
    Lays [.node (.forInit i)] (i.layout depth) := by
  refine .single ?_ trivial
  cases i with
  | none => exact .nil
  | var d => exact h (.decl d) List.mem_cons_self depth
  | expr e => exact h (.expr e) List.mem_cons_self depth

theorem ForTarget.laid {t : ForTarget} (h : ∀ m ∈ (Node.forTarget t).parts, m.Laid) (depth : Nat) :
    Lays [.node (.forTarget t)] (t.layout depth) := by
  refine .single ?_ trivial
  cases t with
  | var kind p =>
    have hword : ∀ p ∈ keyword kind.word ++ space, p.isQuiet = true := by cases kind <;> decide
    exact ((h (.pattern p) List.mem_cons_self).2 depth).before hword
  | expr e => exact (h (.expr e) List.mem_cons_self depth).fit .call e

/-- What a statement is made of, without the place where it starts. -/
theorem Stmt.laid_parts {s : Stmt} (h : ∀ m ∈ s.parts, m.Laid) (depth : Nat) :
    Lays ((Node.stmt s).signs.map .token ++ (s.parts.map .node ++ s.endMark)) (s.layout depth) := by
  have hsemi : ∀ p ∈ sign .semi, p.isQuiet = true := by decide
  cases s with
  | expr span e => exact ((h (.expr e) List.mem_cons_self depth).parenIf _).behind hsemi
  | var d => exact (h (.decl d) List.mem_cons_self depth).behind hsemi
  | function fn => exact (h (.function fn) List.mem_cons_self depth).1
  | ret span e site =>
    have hsite : Lays [.node (.site site)] [] := h (.site site) (by simp [parts])
    cases e with
    | none => exact .before (q := keyword .kwReturn ++ sign .semi) (by decide) hsite
    | some e =>
      have he := h (.expr e) List.mem_cons_self depth
      have hall := ((he.before (q := keyword .kwReturn ++ space) (by decide)).behind hsemi).append hsite
      simpa [layout, Stmt.parts, Node.signs, endMark] using hall
  | ifElse span test consequent alternate =>
    obtain ⟨htest, h⟩ := List.forall_mem_cons.mp h
    obtain ⟨hconsequent, halternate⟩ := List.forall_mem_cons.mp h
    have hhead := ((htest depth).paren.before (q := keyword .kwIf ++ space) (by decide)).append
      (Lays.clause (d := depth) hconsequent (isBlock consequent))
    cases alternate with
    | none => simpa [layout, Stmt.parts, Node.signs, endMark] using hhead
    | some s =>
      have hs := halternate (.stmt s) List.mem_cons_self
      have hall := hhead.append (((Lays.clauseGap (d := depth) (isBlock consequent)).behind (q := keyword .kwElse)
        (by decide)).append (Lays.clause (d := depth) hs (isBlock s || isIf s)))
      simpa [layout, Stmt.parts, Node.signs, endMark] using hall
  | forLoop span init test update body =>
    obtain ⟨hinit, h⟩ := List.forall_mem_cons.mp h
    obtain ⟨htest, h⟩ := List.forall_mem_append.mp h
    obtain ⟨hupdate, h⟩ := List.forall_mem_append.mp h
    have hbody := h (.stmt body) List.mem_cons_self
    have hoption : ∀ {o : Option Expr}, (∀ m ∈ o.toList.map Node.expr, m.Laid) →
        Lays ((o.toList.map Node.expr).map .node) (o.elim [] fun e => space ++ e.layout depth) := by
      intro o ho
      cases o with
      | none => exact .nil
      | some e => exact .before (q := space) (by decide) (ho (.expr e) List.mem_cons_self depth)
    have hword : Lays [.token (.reserved .kwFor)] (keyword .kwFor ++ space) :=
      .token (k := .reserved .kwFor) rfl (.quiet rfl .nil)
    have hhead := ((((hinit depth).behind hsemi).append (hoption htest)).behind hsemi).append (hoption hupdate)
    have hall := (hword.append hhead.paren).append (Lays.clause (d := depth) hbody (isBlock body))
    cases test <;> cases update <;> simpa [layout, Stmt.parts, Node.signs, endMark] using hall
  | forEach span target values e body =>
    obtain ⟨htarget, he, hbody⟩ : (Node.forTarget target).Laid ∧ (Node.expr e).Laid ∧ (Node.stmt body).Laid := by
      simpa [parts] using h
    have hword : Lays [.token (.reserved .kwFor)] (keyword .kwFor ++ space) :=
      .token (k := .reserved .kwFor) rfl (.quiet rfl .nil)
    have hof : ∀ p ∈ Layout.spaced (if values then .ident "of" else .reserved .kwIn), p.isQuiet = true := by
      cases values <;> decide
    have hhead := ((htarget depth).behind hof).append ((he depth).fit .assign e)
    have hall := (hword.append hhead.paren).append (Lays.clause (d := depth) hbody (isBlock body))
    simpa [layout, Stmt.parts, Node.signs, endMark] using hall
  | «while» span test body =>
    obtain ⟨htest, hbody⟩ : (Node.expr test).Laid ∧ (Node.stmt body).Laid := by simpa [parts] using h
    exact ((htest depth).paren.before (q := keyword .kwWhile ++ space) (by decide)).append (Lays.clause hbody _)
  | doWhile span body test =>
    obtain ⟨hbody, htest⟩ : (Node.stmt body).Laid ∧ (Node.expr test).Laid := by simpa [parts] using h
    have hloop := ((Lays.clause (d := depth) hbody (isBlock body)).before (q := keyword .kwDo) (by decide)).append
      (Lays.clauseGap (d := depth) (isBlock body))
    have hall := (hloop.behind (q := keyword .kwWhile ++ space) (by decide)).append (((htest depth).paren).behind hsemi)
    simpa [layout, Stmt.parts, Node.signs, endMark] using hall
  | switch span subject cases =>
    obtain ⟨hsubject, hcases⟩ := List.forall_mem_cons.mp h
    have hlines : Lays ((cases.map Node.case).map .node) (Layout.cases (depth + 1) cases) := by
      clear h hsubject
      induction cases with
      | nil => exact .nil
      | cons c cs ih =>
        obtain ⟨hc, hcs⟩ := List.forall_mem_cons.mp hcases
        exact (hc (depth + 1)).append (ih hcs)
    have hhead := ((hsubject depth).paren.before (q := keyword .kwSwitch ++ space) (by decide)).behind (q := space)
      (by decide)
    have hall := hhead.append (Lays.braces (d := depth) (hlines.append (.comments span.stop (depth + 1) .nil)))
    simpa [layout, Stmt.parts, Node.signs, endMark] using hall
  | tryCatch span body handler finalizer =>
    obtain ⟨hbody, h⟩ := List.forall_mem_cons.mp h
    obtain ⟨hhandler, hfinalizer⟩ := List.forall_mem_append.mp h
    have hcatch : Lays ((handler.toList.map Node.handler).map .node) (handler.elim [] fun k => space ++ k.layout depth) := by
      cases handler with
      | none => exact .nil
      | some k => exact .before (q := space) (by decide) (hhandler (.handler k) List.mem_cons_self depth)
    have hfinally : Lays ((finalizer.toList.map Node.block).map .node)
        (finalizer.elim [] fun b => space ++ keyword .kwFinally ++ space ++ b.layout depth) := by
      cases finalizer with
      | none => exact .nil
      | some b =>
        exact .before (q := space ++ keyword .kwFinally ++ space) (by decide)
          (hfinalizer (.block b) List.mem_cons_self depth)
    have hall := (((hbody depth).before (q := keyword .kwTry ++ space) (by decide)).append hcatch).append hfinally
    cases handler <;> cases finalizer <;> simpa [layout, Stmt.parts, Node.signs, endMark] using hall
  | throw span e =>
    exact ((h (.expr e) List.mem_cons_self depth).before (q := keyword .kwThrow ++ space) (by decide)).behind hsemi
  | block b => exact h (.block b) List.mem_cons_self depth
  | «break» => exact .quiet rfl (.quiet rfl .nil)
  | «continue» => exact .quiet rfl (.quiet rfl .nil)
  | empty => exact .quiet rfl .nil

theorem Stmt.laid {s : Stmt} (h : ∀ m ∈ s.parts, m.Laid) : (Node.stmt s).Laid := by
  intro depth
  have hparts := s.laid_parts h depth
  exact ⟨.single (.mark _ hparts) ⟨depth, .inl rfl⟩,
    .single (.comments _ _ (.quiet rfl hparts)) ⟨depth, .inr rfl⟩⟩

end

/-- A node whose parts are laid out as their scripts say is laid out as its script says. -/
theorem Node.laid_of_parts {n : Node} (hproper : n.Proper (.of Token.Kind.Legal)) (h : ∀ m ∈ n.parts, m.Laid) : n.Laid := by
  cases n with
  | expr e => exact Expr.laid hproper h
  | item e =>
    intro depth
    refine .single ?_ trivial
    cases e with
    | spread span e => exact ((h (.expr e) List.mem_cons_self depth).fit .assign e).before (by decide)
    | _ => exact h (.expr _) List.mem_cons_self depth
  | key k => exact PropKey.laid h
  | property p => exact Property.laid hproper h
  | function fn => exact Function.laid hproper h
  | body b =>
    cases b with
    | block b => exact fun depth => .single (h (.block b) List.mem_cons_self depth) trivial
    | concise e => exact fun depth => .single (h (.expr e) List.mem_cons_self depth) trivial
  | block b => exact Block.laid h
  | stmt s => exact Stmt.laid h
  | decl d => exact Decl.laid h
  | declarator d => exact Declarator.laid h
  | forInit i => exact ForInit.laid h
  | forTarget t => exact ForTarget.laid h
  | case c => exact Case.laid h
  | handler k => exact Handler.laid h
  | pattern p => exact Pattern.laid hproper h
  | patternProp p => exact PatternProp.laid h
  | binding b =>
    refine .single ?_ trivial
    simpa [Node.script, Node.signs, Node.parts] using Lays.name b.name
  | site => exact .single .nil trivial
  | _ => trivial

theorem Node.Made.laid {lo hi : Nat} {n : Node} (h : n.Made (.of Token.Kind.Legal) lo hi) : n.Laid := by
  refine h.byParts (P := fun _ _ n => n.Laid) (fun _ => Lays.single (n := .site _) .nil trivial) fun _ hproper _ ih => ?_
  refine Node.laid_of_parts hproper fun m hm => ?_
  obtain ⟨lo, hi, hlaid⟩ := ih.mem hm
  exact hlaid

end LabelWeaver
