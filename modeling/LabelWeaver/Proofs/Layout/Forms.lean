import LabelWeaver.Proofs.Grammar.Recovers.Control
import LabelWeaver.Proofs.Grammar.Yields.Statements
import LabelWeaver.Proofs.Token.Legal

/-! The texts of layouts, form by form, and what names are read as. -/

namespace LabelWeaver

open Layout

attribute [simp] Piece.text

@[simp] theorem Token.Kind.asRead_punct (p : Punct) : (Token.Kind.punct p).asRead = .punct p := rfl

@[simp] theorem Token.Kind.asRead_reserved (w : Reserved) : (Token.Kind.reserved w).asRead = .reserved w := rfl

@[simp] theorem Token.Kind.asRead_ident (x : String) : (Token.Kind.ident x).asRead = Lexeme.word x := rfl

namespace Layout

section
variable {ps : List Piece}

@[simp] theorem text_paren : text (paren ps) = some (.punct .lparen) :: (text ps ++ [some (Token.Kind.punct .rparen)]) := by
  simp [paren]

@[simp] theorem text_lead (depth : Nat) (s : Stmt) : text (lead depth s) = [none] := rfl

theorem text_clause (sameLine : Bool) (depth : Nat) (s : Stmt) :
    text (clause sameLine depth s ps) = clauseText sameLine (text ps) := by
  cases sameLine <;> rfl

theorem text_clauseGap (sameLine : Bool) (depth : Nat) : text (clauseGap sameLine depth) = gapText sameLine := by
  cases sameLine <;> rfl

theorem text_braces (depth : Nat) :
    text (braces depth ps) = some (.punct .lbrace) :: none :: (text ps ++ [some (Token.Kind.punct .rbrace)]) := by
  simp [braces]

end

theorem args_eq (depth : Nat) (es : List Expr) :
    Layout.args depth es = es.map fun e => fit .assign e (e.layout depth) := by
  induction es with
  | nil => rfl
  | cons e es ih => rw [Layout.args, ih, List.map_cons]

theorem elements_eq (depth : Nat) (es : List (Option Expr)) :
    Layout.elements depth es = es.map (Option.elim · [] fun e => fit .assign e (e.layout depth)) := by
  induction es with
  | nil => rfl
  | cons e es ih => cases e <;> rw [Layout.elements, ih, List.map_cons] <;> rfl

theorem patternElements_eq (depth : Nat) (ps : List (Option Pattern)) :
    Layout.patternElements depth ps = ps.map (Option.elim · [] fun p => p.layout depth) := by
  induction ps with
  | nil => rfl
  | cons p ps ih => cases p <;> rw [Layout.patternElements, ih, List.map_cons] <;> rfl

theorem patternProps_eq (depth : Nat) (ps : List PatternProp) :
    Layout.patternProps depth ps = ps.map (PatternProp.layout depth) := by
  induction ps with
  | nil => rfl
  | cons p ps ih => rw [Layout.patternProps, ih, List.map_cons]

theorem declarators_eq (depth : Nat) (ds : List Declarator) :
    Layout.declarators depth ds = ds.map (Declarator.layout depth) := by
  induction ds with
  | nil => rfl
  | cons d ds ih => rw [Layout.declarators, ih, List.map_cons]

theorem text_commaSep_map {α : Type} (f : α → List Piece) (xs : List α) :
    text (commaSep (xs.map f)) = commaTexts (xs.map fun x => text (f x)) := by
  rw [text_commaSep, List.map_map]
  rfl

/-- Elements in brackets; one that is left out at the end has a comma of its own. -/
theorem text_brackets {α : Type} (f : α → List Piece) (xs : List (Option α)) :
    text (brackets (xs.map (Option.elim · [] f)) (endsInHole xs)) =
      some (.punct .lbracket) ::
        (elementTexts (xs.map (Option.map fun x => text (f x))) ++ [some (Token.Kind.punct .rbracket)]) := by
  have hinner : text (commaSep (xs.map (Option.elim · [] f))) ++
      text (if endsInHole xs then sign .comma else []) = elementTexts (xs.map (Option.map fun x => text (f x))) := by
    rw [text_commaSep_map]
    induction xs with
    | nil => rfl
    | cons x xs ih =>
      cases xs with
      | nil => cases x <;> simp [commaTexts, elementTexts, endsInHole]
      | cons y xs =>
        have hends : endsInHole (x :: y :: xs) = endsInHole (y :: xs) := by simp [endsInHole]
        have hcomma : commaTexts ((x :: y :: xs).map fun x => text (x.elim [] f)) =
            text (x.elim [] f) ++ some (Token.Kind.punct .comma) :: commaTexts ((y :: xs).map fun x => text (x.elim [] f)) := rfl
        rw [hends, hcomma, List.append_assoc, List.cons_append, ih]
        cases x with
        | none => rfl
        | some x => exact (elementTexts_some_cons _ _ _).symm
  rw [brackets, text_append, text_append, text_append, List.append_assoc, List.append_assoc,
    ← List.append_assoc (text (commaSep _)), hinner]
  rfl

theorem text_stmts (depth : Nat) (ss : List Stmt) :
    text (Layout.stmts depth ss) = lines (ss.map fun s => text (s.layout depth)) := by
  induction ss with
  | nil => rfl
  | cons s ss ih => simp [Layout.stmts, ih, lines]

theorem text_cases (depth : Nat) (cs : List Case) :
    text (Layout.cases depth cs) = cs.flatMap fun c => text (c.layout depth) := by
  induction cs with
  | nil => rfl
  | cons c cs ih => simp [Layout.cases, ih]

/-- Properties on lines of their own, between braces. -/
theorem text_properties (depth : Nat) (ps : List Property) (h : ps ≠ []) :
    none :: text (Layout.properties depth ps) =
      commaTexts ((ps.map fun p => text (p.layout depth)).map (none :: ·)) ++ [none] := by
  induction ps with
  | nil => exact absurd rfl h
  | cons p ps ih =>
    cases ps with
    | nil => simp [Layout.properties, commaTexts]
    | cons q ps =>
      have hrest := ih (List.cons_ne_nil q ps)
      have hcomma : commaTexts (((p :: q :: ps).map fun p => text (p.layout depth)).map (none :: ·)) =
          (none :: text (p.layout depth)) ++ some (Token.Kind.punct .comma) ::
            commaTexts (((q :: ps).map fun p => text (p.layout depth)).map (none :: ·)) := rfl
      have hlast : some (Token.Kind.punct .comma) ::
          commaTexts (((q :: ps).map fun p => text (p.layout depth)).map (none :: ·)) ++ [none] =
            some (.punct .comma) :: none :: text (Layout.properties depth (q :: ps)) := by
        rw [List.cons_append, hrest]
      rw [hcomma, List.append_assoc, hlast]
      simp [Layout.properties]

end Layout

/-- A function that is no arrow. -/
theorem Function.layout_of_not_arrow {fn : Function} (h : fn.isArrow = false) (depth : Nat) :
    fn.layout depth = keyword .kwFunction ++ space ++ (fn.name.elim [] fun n => Layout.name n.text) ++
      paren (commaSep (Layout.params depth fn.params)) ++ space ++ fn.body.layout depth := by
  obtain ⟨span, name, params, body, isArrow, receiver, returns, condition, sites, instrumented⟩ := fn
  cases h
  cases name <;> cases body <;> simp [Function.layout]

theorem Property.layout_method (k : PropKey) (fn : Function) (depth : Nat) :
    (Property.method k fn).layout depth = k.layout depth ++ paren (commaSep (Layout.params depth fn.params)) ++ space ++
      fn.body.layout depth := by
  cases fn
  rw [Property.layout]

/-! ### Expressions -/

namespace Expr

variable (depth : Nat) (span : Span) (e e' e₂ : Expr) (items : List Expr)

theorem text_unary (op : UnaryOp) : text ((unary span op e).layout depth) = some op.token ::
    text (if e.signsClash op then paren (e.layout depth) else fit .unary e (e.layout depth)) := by
  cases op <;> simp [Expr.layout, UnaryOp.token]

theorem text_leadingUpdate (op : UpdateOp) : text ((update span op true e).layout depth) =
    some (.punct op.sign) :: text (fit .unary e (e.layout depth)) := by
  simp [Expr.layout]

theorem text_trailingUpdate (op : UpdateOp) : text ((update span op false e).layout depth) =
    text (fit .update e (e.layout depth)) ++ [some (Token.Kind.punct op.sign)] := by
  simp [Expr.layout]

theorem text_binary (op : BinaryOp) : text ((binary span op e e').layout depth) =
    text (fit (if op = .pow then .update else op.prec) e (e.layout depth)) ++ some op.token ::
      text (fit op.rightPrec e' (e'.layout depth)) := by
  have htoken : op.token.asRead = op.token := by cases op <;> rfl
  simp [Expr.layout, htoken]

theorem text_assign (op : AssignOp) : text ((assign span op e e').layout depth) =
    text (fit .call e (e.layout depth)) ++ some (Token.Kind.punct op.sign) ::
      text (fit .assign e' (e'.layout depth)) := by
  simp [Expr.layout]

theorem text_conditional : text ((conditional span e e' e₂).layout depth) =
    text (fit .or e (e.layout depth)) ++ some (Token.Kind.punct .question) ::
      (text (fit .assign e' (e'.layout depth)) ++ some (Token.Kind.punct .colon) ::
        text (fit .assign e₂ (e₂.layout depth))) := by
  simp [Expr.layout]

theorem text_member (name : Name) : text ((member span e name).layout depth) =
    text (if e.isBareInteger then paren (e.layout depth) else fit .call e (e.layout depth)) ++
      [some (Token.Kind.punct .dot), some (Lexeme.word name.text)] := by
  simp [Expr.layout]

theorem text_index : text ((index span e e').layout depth) =
    text (if e.isBareInteger then paren (e.layout depth) else fit .call e (e.layout depth)) ++
      some (Token.Kind.punct .lbracket) :: (text (e'.layout depth) ++ [some (Token.Kind.punct .rbracket)]) := by
  simp [Expr.layout]

theorem text_call : text ((call span e items).layout depth) = text (fit .call e (e.layout depth)) ++
    argTexts (items.map fun e => text (fit .assign e (e.layout depth))) := by
  simp [Expr.layout, argTexts, args_eq, text_commaSep_map]

theorem text_new : text ((new span e items).layout depth) = some (.reserved .kwNew) ::
    (text (if e.containsCall then paren (e.layout depth) else fit .call e (e.layout depth)) ++
      argTexts (items.map fun e => text (fit .assign e (e.layout depth)))) := by
  simp [Expr.layout, argTexts, args_eq, text_commaSep_map]

theorem text_array (elements : List (Option Expr)) : text ((array span elements).layout depth) =
    some (.punct .lbracket) ::
      (elementTexts (elements.map (Option.map fun e => text (fit .assign e (e.layout depth)))) ++
        [some (Token.Kind.punct .rbracket)]) := by
  rw [Expr.layout, elements_eq, text_brackets]

theorem text_sequence : text ((sequence span items).layout depth) =
    commaTexts (items.map fun e => text (fit .assign e (e.layout depth))) := by
  rw [Expr.layout, args_eq, text_commaSep_map]

theorem text_spread : text ((spread span e).layout depth) =
    some (.punct .ellipsis) :: text (fit .assign e (e.layout depth)) := by
  simp [Expr.layout]

end Expr

/-! ### Parentheses -/

theorem Prec.le_primary (p : Prec) : p ≤ .primary := by cases p <;> decide

/-- What can be assigned to needs no parentheses. -/
theorem Expr.call_le_prec {e : Expr} (h : e.isTarget = true) : .call ≤ e.prec := by
  cases e with
  | ident => exact Prec.le_primary _
  | member => exact Nat.le_refl _
  | index => exact Nat.le_refl _
  | _ => cases h

theorem Layout.fit_of_lt {least : Prec} {e : Expr} (h : e.prec < least) (ps : List Piece) : fit least e ps = paren ps := by
  rw [fit, decide_eq_true h, parenIf, if_pos rfl]

theorem Layout.fit_of_le {least : Prec} {e : Expr} (h : least ≤ e.prec) (ps : List Piece) : fit least e ps = ps := by
  have hlt : ¬e.prec < least := Nat.not_lt.mpr h
  rw [fit, decide_eq_false hlt, parenIf, if_neg Bool.false_ne_true]

/-! ### Names -/

theorem Lexeme.propertyText?_word (x : String) : (Lexeme.word x).propertyText? = some x := by
  unfold Lexeme.word
  split
  · next w hw => exact congrArg some (Reserved.text_of_ofText? hw)
  · rfl

/-- Names are no reserved words, so they are read as names. -/
theorem Lexeme.word_of_name {x : String} (h : (Lexis.of Token.Kind.Legal).name x) : Lexeme.word x = .ident x := by
  obtain ⟨k, hk, hx⟩ := h
  cases k with
  | ident y =>
    cases hx
    rw [Lexeme.word, hk.2]
  | contextual => exact hk.elim
  | _ => cases hx

end LabelWeaver
