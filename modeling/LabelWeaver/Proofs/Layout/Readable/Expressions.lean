import LabelWeaver.Proofs.Layout.Exposed
import LabelWeaver.Proofs.Layout.Forms

/-! Layouts can be read. Whatever the reader of the base language makes, the layout of the tree is a text
    that is recovered: every production reads its part of the text to the end and gives the tree back,
    spans apart. The one exception is a loop head that exposes `in`. This module has the expressions. -/

namespace LabelWeaver

open Layout

/-! ### What is recovered -/

/-- The node is no loop whose head exposes `in`. -/
def Node.ClearHead : Node → Prop
  | stmt (.forLoop _ init _ _ _) => init.exposesIn = false
  | stmt (.forEach _ target _ _ _) => target.exposesIn = false
  | _ => True

/-- The text starts neither like a block nor like a declaration of a function. -/
def Layout.PlainStart (ks : Text) : Prop := first ks ≠ .punct .lbrace ∧ first ks ≠ .reserved .kwFunction

theorem Layout.PlainStart.of_token {k : Token.Kind} {ks : Text}
    (h : (k != .punct .lbrace && k != .reserved .kwFunction) = true) : PlainStart (some k :: ks) := by
  rw [Bool.and_eq_true, bne_iff_ne, bne_iff_ne] at h
  exact h

/-- The layout of an expression is read as the expression. At the start of a statement it is not taken
    for a block or a declaration unless the layout knows that it would be. -/
structure Expr.Recovered (lo hi : Nat) (e : Expr) : Prop where
  readable : ∀ depth, Readable e.prec e.exposesIn e.containsCall lo hi (text (e.layout depth)) e.bare
  starts : e.startsLikeStatement = false → ∀ depth rest, PlainStart (text (e.layout depth) ++ rest)

/-- The layout of a pattern is read as the pattern, which has no place for a receiver. -/
structure Pattern.Recovered (lo hi : Nat) (p : Pattern) : Prop where
  readable : ∀ depth, ReadablePattern p.exposesIn lo hi (text (p.layout depth)) p.bare
  noThis : p.findThis? = none

structure PatternProp.Recovered (lo hi : Nat) (p : PatternProp) : Prop where
  readable : ∀ depth, ReadablePatternProp p.exposesIn lo hi (text (p.layout depth)) p.bare
  noThis : propertiesFindThis? [p] = none

def FunctionBody.Recovered (lo hi : Nat) : FunctionBody → Prop
  | block b => ∀ depth, ReadableBlock lo hi (text (b.layout depth)) b.bare
  | concise e => e.Recovered lo hi

/-- The layout of the node is read as the node. The parts of a function are laid out in several ways. -/
def Node.Recovered (lo hi : Nat) : Node → Prop
  | expr e => e.Recovered lo hi
  | item e => ∀ depth, ReadableItem lo hi (text (fit .assign e (e.layout depth))) e.bare
  | key k => ∀ depth, ReadableKey k.exposesIn lo hi (text (k.layout depth)) k.bare
  | property p => ∀ depth, ReadableProperty lo hi (text (p.layout depth)) p.bare
  | function fn => ∃ mid, Run Pattern.Recovered lo mid fn.params ∧ fn.body.Recovered mid hi
  | body b => b.Recovered lo hi
  | block b => ∀ depth, ReadableBlock lo hi (text (b.layout depth)) b.bare
  | stmt s => ∀ depth, ReadableStmt lo hi (text (s.layout depth)) s.bare
  | decl d => ∀ depth, ReadableDecl d.exposesIn lo hi (text (d.layout depth)) d.bare
  | declarator d => ∀ depth, ReadableDeclarator d.exposesIn lo hi (text (d.layout depth)) d.bare
  | forInit i => i.exposesIn = false → ∀ depth, ReadableInit lo hi (text (i.layout depth)) i.bare
  | forTarget t => t.exposesIn = false → ∀ depth, ReadableTarget lo hi (text (t.layout depth)) t.bare
  | case c => ∀ depth, ReadableCase lo hi (text (c.layout depth)) c.bare
  | handler h => ∀ depth, ReadableHandler lo hi (text (h.layout depth)) h.bare
  | pattern p => p.Recovered lo hi
  | patternProp p => p.Recovered lo hi
  | binding b => lo = hi ∧ b.demand = .none
  | site n => lo = n ∧ hi = n + 1
  | _ => True

/-! ### Expressions -/

namespace Expr

variable {lo mid hi : Nat} {e : Expr}

/-- What exposes `in` is no access and no call. -/
theorem prec_lt_call (h : e.exposesIn = true) : e.prec < .call := by
  cases e with
  | binary span op left right => exact (by cases op <;> decide : op.prec < .call)
  | assign => exact (by decide : Prec.assign < .call)
  | conditional => exact (by decide : Prec.conditional < .call)
  | sequence => exact (by decide : Prec.sequence < .call)
  | _ => simp [Expr.exposesIn] at h

theorem exposesIn_of_call_le (h : .call ≤ e.prec) : e.exposesIn = false := by
  by_contra hin
  exact Nat.not_lt.mpr h (prec_lt_call (Bool.not_eq_false _ ▸ hin))

theorem fits_of_le {least : Prec} (h : least ≤ e.prec) : e.fits least = true := by
  have hlt : ¬e.prec < least := Nat.not_lt.mpr h
  rw [fits, decide_eq_false hlt]
  rfl

theorem le_of_fits {least : Prec} (h : e.fits least = true) : least ≤ e.prec := by
  have hlt : ¬e.prec < least := by simpa [fits] using h
  exact Nat.not_lt.mp hlt

end Expr

namespace Expr.Recovered

variable {lo hi : Nat} {e : Expr} (h : e.Recovered lo hi) (depth : Nat)
include h

/-- In parentheses everything is an atom. -/
theorem paren : Readable .primary false false lo hi (text (Layout.paren (e.layout depth))) e.bare := by
  rw [text_paren]
  exact (h.readable depth).paren

/-- In its place, with parentheses if the place needs them. -/
theorem fit (least : Prec) : Readable least (e.fits least && e.exposesIn) (e.fits least && e.containsCall) lo hi
    (text (Layout.fit least e (e.layout depth))) e.bare := by
  by_cases hfits : e.prec < least
  · rw [Layout.fit, decide_eq_true hfits, parenIf, if_pos rfl]
    exact (h.paren depth).weaken least.le_primary (absurd · Bool.false_ne_true) (absurd · Bool.false_ne_true)
  · have hle : least ≤ e.prec := Nat.not_lt.mp hfits
    rw [Layout.fit, decide_eq_false hfits, parenIf, if_neg Bool.false_ne_true, fits_of_le hle]
    exact (h.readable depth).weaken hle id id

theorem value : Readable .assign e.valueExposesIn (e.fits .assign && e.containsCall) lo hi
    (text (Layout.fit .assign e (e.layout depth))) e.bare :=
  h.fit depth .assign

/-- With parentheses in one more case. -/
theorem orParen (needed : Bool) (hcalls : needed = true → e.containsCall = false) :
    Readable .call false e.containsCall lo hi
      (text (if needed then Layout.paren (e.layout depth) else Layout.fit .call e (e.layout depth))) e.bare := by
  cases needed with
  | true =>
    rw [if_pos rfl, hcalls rfl]
    exact (h.paren depth).weaken (Prec.le_primary _) id id
  | false =>
    rw [if_neg Bool.false_ne_true]
    refine (h.fit depth .call).weaken (Nat.le_refl _) (fun hin => ?_) fun hcalls => ?_
    · -- what exposes `in` is in parentheses here
      rw [Bool.and_eq_true] at hin
      rw [exposesIn_of_call_le (le_of_fits hin.1)] at hin
      exact hin.2
    · rw [Bool.and_eq_true] at hcalls
      exact hcalls.2

/-- What starts with an operand starts as the operand does, or with a parenthesis. -/
theorem starts_fit (hstarts : e.startsLikeStatement = false) (least : Prec) (rest : Text) :
    PlainStart (text (Layout.fit least e (e.layout depth)) ++ rest) := by
  by_cases hfits : e.prec < least
  · rw [Layout.fit, decide_eq_true hfits, parenIf, if_pos rfl, text_paren]
    exact .of_token rfl
  · rw [Layout.fit, decide_eq_false hfits, parenIf, if_neg Bool.false_ne_true]
    exact h.starts hstarts depth rest

theorem starts_orParen (hstarts : e.startsLikeStatement = false) (needed : Bool) (rest : Text) :
    PlainStart (text (if needed then Layout.paren (e.layout depth) else Layout.fit .call e (e.layout depth)) ++ rest) := by
  cases needed with
  | true =>
    rw [if_pos rfl, text_paren]
    exact .of_token rfl
  | false => exact h.starts_fit depth hstarts .call rest

end Expr.Recovered

/-- A body may be followed by less than it could be. -/
theorem ReadableBody.follow {isArrow : Bool} {ok ok' : Token.Kind → Prop} {lo hi : Nat} {ks : Text}
    {body : FunctionBody} (h : ReadableBody isArrow ok lo hi ks body) (hok : ∀ k, ok' k → ok k) :
    ReadableBody isArrow ok' lo hi ks body where
  balanced := h.balanced
  reads fn hfn _ _ hm := (h.reads fn hfn hm).follow hok

section
variable {exposes exposes' : Bool} {lo hi : Nat} {ks : Text} (hexposes : exposes = true → exposes' = true)
include hexposes

/-- Where nothing that is exposed may stand, nothing less may stand. -/
theorem clear_of_imp {b : Bool} (hb : b = true → exposes' = false) (htrue : b = true) : exposes = false := by
  cases exposes with
  | false => rfl
  | true => rw [← hb htrue, hexposes rfl]

theorem ReadablePattern.weaken {p : Pattern} (h : ReadablePattern exposes lo hi ks p) :
    ReadablePattern exposes' lo hi ks p where
  starts := h.starts
  balanced := h.balanced
  binding hp _ hb := h.binding hp (clear_of_imp hexposes hb)
  element hp _ hb := h.element hp (clear_of_imp hexposes hb)
  dots hp _ hb := h.dots hp (clear_of_imp hexposes hb)

theorem ReadablePatternProp.weaken {p : PatternProp} (h : ReadablePatternProp exposes lo hi ks p) :
    ReadablePatternProp exposes' lo hi ks p where
  starts := h.starts
  balanced := h.balanced
  reads hb := h.reads (clear_of_imp hexposes hb)

theorem ReadableDeclarator.weaken {d : Declarator} (h : ReadableDeclarator exposes lo hi ks d) :
    ReadableDeclarator exposes' lo hi ks d where
  balanced := h.balanced
  reads hb := h.reads (clear_of_imp hexposes hb)

end

/-! ### Functions -/

section
variable {lo mid hi : Nat} {fn : Function}

theorem Pattern.Recovered.isThis {p : Pattern} (h : p.Recovered lo hi) : Layout.isThis p = false := by
  cases p with
  | this => cases h.noThis
  | _ => rfl

/-- A list of parameters without the place of a receiver. -/
theorem Layout.params_eq {ps : List Pattern} (h : Run Pattern.Recovered lo hi ps) (depth : Nat) :
    Layout.params depth ps = ps.map (Pattern.layout depth) := by
  induction h with
  | nil => rfl
  | cons hp _ ih => rw [Layout.params, hp.isThis, if_neg Bool.false_ne_true, ih, List.map_cons]

theorem readable_params {ps : List Pattern} (h : Run Pattern.Recovered lo hi ps) (depth : Nat) :
    Run (fun lo hi p => ReadablePattern true lo hi (text (p.layout depth)) p.bare) lo hi ps :=
  h.imp fun _ _ _ _ hp => (hp.readable depth).weaken fun _ => rfl

theorem text_params {ps : List Pattern} (h : Run Pattern.Recovered lo hi ps) (depth : Nat) :
    text (commaSep (Layout.params depth ps)) = commaTexts (ps.map fun p => text (p.layout depth)) := by
  rw [Layout.params_eq h, text_commaSep_map]

theorem Function.bare_of_proper {L : Lexis} (h : fn.Proper L) :
    fn.bare = .plain .zero (fn.name.map Name.bare) fn.isArrow (fn.params.map Pattern.bare) fn.body.bare := by
  obtain ⟨span, name, params, body, isArrow, receiver, returns, condition, sites, instrumented⟩ := fn
  obtain ⟨-, -, -, rfl, rfl, rfl, rfl, rfl⟩ := h
  rw [← Bare.patterns_eq]
  rfl

/-- A function that is no arrow. -/
theorem Function.text_layout {b : Block} (hproper : fn.Proper (.of Token.Kind.Legal)) (harrow : fn.isArrow = false)
    (hparams : Run Pattern.Recovered lo mid fn.params) (hbody : fn.body = .block b) (depth : Nat) :
    text (fn.layout depth) = functionText (fn.name.map Name.text) (fn.params.map fun p => text (p.layout depth))
      (text (b.layout depth)) := by
  obtain ⟨span, name, params, body, isArrow, receiver, returns, condition, sites, instrumented⟩ := fn
  cases hbody
  cases harrow
  have hhead := text_params hparams depth
  cases name with
  | none => simp [Function.layout, functionText, headText, hhead, FunctionBody.layout]
  | some n =>
    have hword := Lexeme.word_of_name (hproper.name n rfl)
    simp [Function.layout, functionText, headText, hhead, FunctionBody.layout, hword]

/-- An arrow with a body of statements. -/
theorem Function.text_layout_arrow {b : Block} (harrow : fn.isArrow = true)
    (hparams : Run Pattern.Recovered lo mid fn.params) (hbody : fn.body = .block b) (depth : Nat) :
    text (fn.layout depth) = headText true (fn.params.map fun p => text (p.layout depth)) ++ text (b.layout depth) := by
  obtain ⟨span, name, params, body, isArrow, receiver, returns, condition, sites, instrumented⟩ := fn
  cases hbody
  cases harrow
  simp [Function.layout, headText, text_params hparams depth]

/-- An arrow whose body is an expression. -/
theorem Function.text_layout_concise {e : Expr} (harrow : fn.isArrow = true)
    (hparams : Run Pattern.Recovered lo mid fn.params) (hbody : fn.body = .concise e) (depth : Nat) :
    text (fn.layout depth) = headText true (fn.params.map fun p => text (p.layout depth)) ++
      text (if e.startsLikeStatement then paren (e.layout depth) else fit .assign e (e.layout depth)) := by
  obtain ⟨span, name, params, body, isArrow, receiver, returns, condition, sites, instrumented⟩ := fn
  cases hbody
  cases harrow
  simp [Function.layout, headText, text_params hparams depth]

/-- The body of an arrow that is an expression does not look like a block. -/
theorem Expr.Recovered.concise {e : Expr} (h : e.Recovered lo hi) (depth : Nat) :
    ReadableBody true (Ends false .assign) lo hi
      (text (if e.startsLikeStatement then Layout.paren (e.layout depth) else Layout.fit .assign e (e.layout depth)))
      (.concise e.bare) := by
  cases hstarts : e.startsLikeStatement with
  | true =>
    rw [if_pos rfl]
    refine .concise ((h.paren depth).weaken (Prec.le_primary _) id id) fun rest => ?_
    rw [text_paren]
    exact nofun
  | false =>
    rw [if_neg Bool.false_ne_true]
    exact .concise (h.value depth) fun rest => (h.starts_fit depth hstarts .assign rest).1

theorem map_text_name (name : Option Name) :
    (name.map Name.text).map (fun x => Name.mk .zero x) = name.map Name.bare := by
  cases name <;> rfl

theorem Expr.recovered_function {span : Span} (hproper : fn.Proper (.of Token.Kind.Legal))
    (h : (Node.function fn).Recovered lo hi) : (Expr.function span fn).Recovered lo hi := by
  obtain ⟨mid, hparams, hbody⟩ := h
  have hbare : (Expr.function span fn).bare = .function .zero fn.bare := rfl
  have hlayout : ∀ depth, (Expr.function span fn).layout depth = fn.layout depth :=
    Expr.layout_function span fn
  have hexposes : (Expr.function span fn).exposesIn = false := by simp only [Expr.exposesIn]
  cases harrow : fn.isArrow with
  | false =>
    obtain ⟨b, hb⟩ := hproper.body harrow
    rw [hb] at hbody
    refine ⟨fun depth => ?_, fun hstarts => ?_⟩
    · have hread := Readable.functionExpr (fn.name.map Name.text) (readable_params hparams depth)
        (.block (hbody depth))
      rw [hbare, Function.bare_of_proper hproper, hlayout, hexposes, Function.text_layout hproper harrow hparams hb, harrow,
        hb, ← map_text_name, Expr.prec, harrow]
      exact hread
    · rw [Expr.startsLikeStatement, harrow] at hstarts
      cases hstarts
  | true =>
    have hname := hproper.arrow harrow
    have hprec : (Expr.function span fn).prec = .assign := by rw [Expr.prec, harrow, if_pos rfl]
    cases hb : fn.body with
    | block b =>
      rw [hb] at hbody
      refine ⟨fun depth => ?_, fun _ depth rest => ?_⟩
      · have hread := Readable.arrow (readable_params hparams depth)
          ((ReadableBody.block (hbody depth)).follow fun _ _ => trivial)
        rw [hbare, Function.bare_of_proper hproper, hlayout, hexposes, hprec, Function.text_layout_arrow harrow hparams hb,
          harrow, hb, hname]
        exact hread
      · rw [hlayout, Function.text_layout_arrow harrow hparams hb]
        exact .of_token rfl
    | concise e =>
      rw [hb] at hbody
      refine ⟨fun depth => ?_, fun _ depth rest => ?_⟩
      · have hread := Readable.arrow (readable_params hparams depth) (hbody.concise depth)
        rw [hbare, Function.bare_of_proper hproper, hlayout, hexposes, hprec,
          Function.text_layout_concise harrow hparams hb, harrow, hb, hname]
        exact hread
      · rw [hlayout, Function.text_layout_concise harrow hparams hb]
        exact .of_token rfl

end

/-! ### Expressions by form -/

namespace Expr.Recovered

variable {lo mid mid' hi : Nat} {span : Span} {e e' e₂ : Expr}

/-- A token that is an expression by itself. -/
theorem token {k : Token.Kind} (hlayout : ∀ depth, text (e.layout depth) = [some k])
    (hk : PlainStart [some k]) (hexposes : e.exposesIn = false)
    (h : Readable .primary false false lo hi [some k] e.bare) : e.Recovered lo hi where
  readable depth := by
    rw [hlayout, hexposes]
    exact h.weaken (Prec.le_primary _) id (absurd · Bool.false_ne_true)
  starts _ depth rest := by
    rw [hlayout]
    exact hk

/-- What `literal` tells about the kind of a token. -/
structure LiteralKind (k : Token.Kind) : Prop where
  operand : k.startsOperand = true
  notNew : k ≠ .reserved .kwNew
  notIdent : k.identText? = none
  step : ∀ depth, Layout.step depth (some k) = some depth
  plain : PlainStart [some k]

theorem literalKind {t : Token} (h : (Grammar.literal? t).isSome = true) : LiteralKind t.kind := by
  unfold Grammar.literal? at h
  split at h
  all_goals first
    | (next hk => rw [hk]; exact ⟨rfl, nofun, rfl, fun _ => rfl, nofun, nofun⟩)
    | cases h

theorem literal {m : Span → Expr} (k : Token.Kind)
    (hk : ∀ t : Token, t.kind = k → Grammar.literal? t = some (m t.span))
    (hbare : ∀ span, (m span).bare = m .zero) (hlayout : ∀ depth, text ((m span).layout depth) = [some k])
    (hexposes : (m span).exposesIn = false) : (m span).Recovered lo lo := by
  have hkind : LiteralKind k := literalKind (t := ⟨k, .zero, false⟩) (by rw [hk _ rfl]; rfl)
  refine .token hlayout hkind.plain hexposes ?_
  rw [hbare]
  exact .literal hkind.operand hkind.notNew hkind.notIdent hkind.step fun t ht => ⟨_, hk t ht, hbare _⟩

theorem unary (op : UnaryOp) (h : e.Recovered lo hi) : (Expr.unary span op e).Recovered lo hi := by
  refine ⟨fun depth => ?_, fun _ depth rest => ?_⟩
  · rw [text_unary]
    cases e.signsClash op with
    | true =>
      rw [if_pos rfl]
      exact .unaryOp op ((h.paren depth).weaken (Prec.le_primary _) id id)
    | false =>
      rw [if_neg Bool.false_ne_true]
      exact .unaryOp op (h.fit depth .unary)
  · rw [text_unary]
    cases op <;> exact .of_token rfl

theorem update (op : UpdateOp) (leading : Bool) (h : e.Recovered lo hi) (he : e.isTarget = true) :
    (Expr.update span op leading e).Recovered lo hi := by
  have he' : e.bare.isTarget = true := by rw [isTarget_bare, he]
  cases leading with
  | true =>
    refine ⟨fun depth => ?_, fun _ depth rest => ?_⟩
    · rw [text_leadingUpdate]
      exact .leadingUpdate op (h.fit depth .unary) he'
    · rw [text_leadingUpdate]
      cases op <;> exact .of_token rfl
  | false =>
    refine ⟨fun depth => ?_, fun hstarts depth rest => ?_⟩
    · have hfits : ¬e.prec < .update := Nat.not_lt.mpr (Nat.le_trans (by decide) (call_le_prec he))
      rw [text_trailingUpdate, Layout.fit, decide_eq_false hfits, parenIf, if_neg Bool.false_ne_true]
      exact .trailingUpdate op ((h.readable depth).weaken (call_le_prec he) id id) he'
    · rw [text_trailingUpdate, List.append_assoc]
      exact h.starts_fit depth hstarts .update _

theorem binary (op : BinaryOp) (h : e.Recovered lo mid) (h' : e'.Recovered mid hi) :
    (Expr.binary span op e e').Recovered lo hi := by
  refine ⟨fun depth => ?_, fun hstarts depth rest => ?_⟩
  · rw [text_binary, Expr.exposesIn]
    exact .binaryOp op rfl (h.fit depth _) (h'.fit depth _)
  · rw [text_binary, List.append_assoc]
    exact h.starts_fit depth hstarts _ _

theorem assign (op : AssignOp) (h : e.Recovered lo mid) (he : e.isTarget = true) (h' : e'.Recovered mid hi) :
    (Expr.assign span op e e').Recovered lo hi := by
  refine ⟨fun depth => ?_, fun hstarts depth rest => ?_⟩
  · have htarget := h.fit depth .call
    rw [exposesIn_of_call_le (call_le_prec he), Bool.and_false] at htarget
    rw [text_assign, Expr.exposesIn]
    exact .assignOp op htarget (by rw [isTarget_bare, he]) (h'.fit depth .assign)
  · rw [text_assign, List.append_assoc]
    exact h.starts_fit depth hstarts _ _

theorem conditional (h : e.Recovered lo mid) (h' : e'.Recovered mid mid') (h₂ : e₂.Recovered mid' hi) :
    (Expr.conditional span e e' e₂).Recovered lo hi := by
  refine ⟨fun depth => ?_, fun hstarts depth rest => ?_⟩
  · rw [text_conditional, Expr.exposesIn]
    exact .choice (h.fit depth .or) (h'.fit depth .assign) (h₂.fit depth .assign)
  · rw [text_conditional, List.append_assoc]
    exact h.starts_fit depth hstarts _ _

theorem member {name : Name} (h : e.Recovered lo hi) : (Expr.member span e name).Recovered lo hi := by
  refine ⟨fun depth => ?_, fun hstarts depth rest => ?_⟩
  · rw [text_member]
    refine .member (h.orParen depth e.isBareInteger fun hint => ?_) (Lexeme.propertyText?_word _)
    cases e <;> first | rfl | cases hint
  · rw [text_member, List.append_assoc]
    exact h.starts_orParen depth hstarts _ _

theorem index (h : e.Recovered lo mid) (h' : e'.Recovered mid hi) : (Expr.index span e e').Recovered lo hi := by
  refine ⟨fun depth => ?_, fun hstarts depth rest => ?_⟩
  · rw [text_index]
    refine .index (h.orParen depth e.isBareInteger fun hint => ?_) (h'.readable depth)
    cases e <;> first | rfl | cases hint
  · rw [text_index, List.append_assoc]
    exact h.starts_orParen depth hstarts _ _

theorem call {args : List Expr} (h : e.Recovered lo mid)
    (hargs : Run (fun lo hi e => (Node.item e).Recovered lo hi) mid hi args) :
    (Expr.call span e args).Recovered lo hi := by
  refine ⟨fun depth => ?_, fun hstarts depth rest => ?_⟩
  · rw [text_call, Expr.bare, Bare.exprs_eq]
    exact .call (h.fit depth .call) (hargs.imp fun _ _ _ _ ha => ha depth)
  · rw [text_call, List.append_assoc]
    exact h.starts_fit depth hstarts _ _

theorem new {args : List Expr} (h : e.Recovered lo mid)
    (hargs : Run (fun lo hi e => (Node.item e).Recovered lo hi) mid hi args) :
    (Expr.new span e args).Recovered lo hi := by
  refine ⟨fun depth => ?_, fun _ depth rest => ?_⟩
  · rw [text_new, Expr.bare, Bare.exprs_eq]
    have hread : Readable .call false false lo mid
        (text (if e.containsCall then Layout.paren (e.layout depth) else Layout.fit .call e (e.layout depth))) e.bare := by
      cases hcalls : e.containsCall with
      | true =>
        rw [if_pos rfl]
        exact (h.paren depth).weaken (Prec.le_primary _) id id
      | false =>
        have hread := h.orParen depth false (absurd · Bool.false_ne_true)
        rw [hcalls] at hread
        exact hread
    exact .new hread (hargs.imp fun _ _ _ _ ha => ha depth)
  · rw [text_new]
    exact .of_token rfl

theorem array {elements : List (Option Expr)}
    (h : Run (Maybe fun lo hi e => (Node.item e).Recovered lo hi) lo hi elements) :
    (Expr.array span elements).Recovered lo hi := by
  refine ⟨fun depth => ?_, fun _ depth rest => ?_⟩
  · rw [text_array, Expr.bare, Bare.elements_eq]
    refine .array (h.imp fun e _ _ _ he => ?_)
    cases e with
    | none => exact he
    | some e => exact he depth
  · rw [text_array]
    exact .of_token rfl

theorem object {properties : List Property}
    (h : Run (fun lo hi p => (Node.property p).Recovered lo hi) lo hi properties) :
    (Expr.object span properties).Recovered lo hi := by
  refine ⟨fun depth => ?_, nofun⟩
  have hlayout : text ((Expr.object span properties).layout depth) =
      objectText (!properties.isEmpty) (properties.map fun p => text (p.layout (depth + 1))) := by
    cases properties with
    | nil => rfl
    | cons p ps =>
      have hlines := text_properties (depth + 1) (p :: ps) (List.cons_ne_nil p ps)
      rw [Expr.layout, text_braces, ← List.cons_append, hlines]
      · simp [objectText]
      · exact List.cons_ne_nil p ps
  rw [hlayout, Expr.bare, Bare.properties_eq]
  exact .object _ (h.imp fun _ _ _ _ hp => hp (depth + 1))

theorem sequence {items : List Expr} (hitems : 2 ≤ items.length) (h : Run Expr.Recovered lo hi items) :
    (Expr.sequence span items).Recovered lo hi := by
  obtain ⟨e, e', es, rfl⟩ : ∃ e e' es, items = e :: e' :: es := by
    cases items with
    | nil => exact absurd hitems (by decide)
    | cons e es =>
      cases es with
      | nil => exact absurd hitems (Nat.not_succ_le_self 1)
      | cons e' es => exact ⟨e, e', es, rfl⟩
  refine ⟨fun depth => ?_, fun hstarts depth rest => ?_⟩
  · rw [text_sequence, Expr.bare, Bare.exprs_eq, Expr.exposesIn, itemsExposeIn_eq]
    have hrun : Run (fun lo hi a => Readable .assign ((e :: e' :: es).any valueExposesIn) true lo hi
        (text (Layout.fit .assign a (a.layout depth))) a.bare) lo hi (e :: e' :: es) := by
      refine h.imp fun a ha _ _ hread => ?_
      exact (hread.value depth).weaken (Nat.le_refl _) (fun hin => List.any_eq_true.mpr ⟨a, ha, hin⟩) fun _ => rfl
    exact .sequence hrun
  · obtain ⟨mid, he, -⟩ := run_cons_iff.mp h
    rw [text_sequence, List.map_cons, List.map_cons, commaTexts_cons_cons, List.append_assoc]
    exact he.starts_fit depth hstarts _ _

end Expr.Recovered

section
variable {lo mid hi : Nat}

theorem Expr.recovered {e : Expr} (hproper : e.Proper (.of Token.Kind.Legal)) (hfn : ∀ span fn, e = .function span fn →
    fn.Proper (.of Token.Kind.Legal)) (h : Run Node.Recovered lo hi e.parts) : e.Recovered lo hi := by
  cases e with
  | ident span x =>
    obtain rfl := run_nil_iff.mp h
    have hword := Lexeme.word_of_name hproper
    refine .token (k := .ident x) (fun depth => by simp [Expr.layout, hword]) (.of_token rfl) ?_ (.ident x)
    simp only [Expr.exposesIn]
  | this span =>
    obtain rfl := run_nil_iff.mp h
    exact .literal (.reserved .kwThis) (fun t ht => by rw [Grammar.literal?, ht]) (fun _ => rfl) (fun _ => by rw [Expr.layout]; rfl)
      (by simp only [Expr.exposesIn])
  | null span =>
    obtain rfl := run_nil_iff.mp h
    exact .literal (.reserved .kwNull) (fun t ht => by rw [Grammar.literal?, ht]) (fun _ => rfl) (fun _ => by rw [Expr.layout]; rfl)
      (by simp only [Expr.exposesIn])
  | bool span value =>
    obtain rfl := run_nil_iff.mp h
    cases value with
    | true =>
      exact .literal (m := (.bool · true)) (.reserved .kwTrue) (fun t ht => by rw [Grammar.literal?, ht]) (fun _ => rfl)
        (fun _ => by rw [Expr.layout]; rfl) (by simp only [Expr.exposesIn])
    | false =>
      exact .literal (m := (.bool · false)) (.reserved .kwFalse) (fun t ht => by rw [Grammar.literal?, ht]) (fun _ => rfl)
        (fun _ => by rw [Expr.layout]; rfl) (by simp only [Expr.exposesIn])
  | number span x =>
    obtain rfl := run_nil_iff.mp h
    exact .literal (m := (.number · x)) (.number x) (fun t ht => by rw [Grammar.literal?, ht]) (fun _ => rfl)
      (fun _ => by rw [Expr.layout]; rfl) (by simp only [Expr.exposesIn])
  | string span x =>
    obtain rfl := run_nil_iff.mp h
    exact .literal (m := (.string · x)) (.string x) (fun t ht => by rw [Grammar.literal?, ht]) (fun _ => rfl)
      (fun _ => by rw [Expr.layout]; rfl) (by simp only [Expr.exposesIn])
  | regex span x y =>
    obtain rfl := run_nil_iff.mp h
    exact .literal (m := (.regex · x y)) (.regex x y) (fun t ht => by rw [Grammar.literal?, ht]) (fun _ => rfl)
      (fun _ => by rw [Expr.layout]; rfl) (by simp only [Expr.exposesIn])
  | array span elements => exact .array h.maybe
  | object span properties => exact .object (run_map_iff.mp h)
  | function span fn =>
    have hfunction := run_singleton_iff.mp h
    exact Expr.recovered_function (hfn span fn rfl) hfunction
  | unary span op e =>
    have he := run_singleton_iff.mp h
    exact .unary op he
  | update span op leading e =>
    have he := run_singleton_iff.mp h
    exact .update op leading he hproper
  | binary span op e e' =>
    obtain ⟨mid, he, h⟩ := run_cons_iff.mp h
    have he' := run_singleton_iff.mp h
    exact .binary op he he'
  | assign span op e e' =>
    obtain ⟨mid, he, h⟩ := run_cons_iff.mp h
    have he' := run_singleton_iff.mp h
    exact .assign op he hproper he'
  | conditional span e e' e₂ =>
    obtain ⟨mid, he, h⟩ := run_cons_iff.mp h
    obtain ⟨mid', he', h⟩ := run_cons_iff.mp h
    have he₂ := run_singleton_iff.mp h
    exact .conditional he he' he₂
  | call span e args =>
    obtain ⟨mid, he, h⟩ := run_cons_iff.mp h
    exact .call he (run_map_iff.mp h)
  | new span e args =>
    obtain ⟨mid, he, h⟩ := run_cons_iff.mp h
    exact .new he (run_map_iff.mp h)
  | member span e name =>
    have he := run_singleton_iff.mp h
    exact .member he
  | index span e e' =>
    obtain ⟨mid, he, h⟩ := run_cons_iff.mp h
    have he' := run_singleton_iff.mp h
    exact .index he he'
  | sequence span items => exact .sequence hproper (run_map_iff (B := Node.Recovered).mp h)
  | spread span e => exact hproper.elim

end

end LabelWeaver
