import LabelWeaver.Proofs.Layout.Neat
import LabelWeaver.Proofs.Layout.Forms

/-! The layouts of trees are neat. Most tokens are kept apart by blanks and brackets; what is left are
    the signs of unary operators, which must not run into a sign behind them, and the dot, which must not
    run into a number before it. -/

namespace LabelWeaver

variable {k : Token.Kind} {c : Char} {op : UnaryOp} {e : Expr} {depth : Nat} {ps : List Piece} {x : String}

open Layout

/-! ### Layouts one behind the other -/

namespace Layout

variable {qs : List Piece} {p : Piece}

theorem Inline.append (hps : Inline ps) (hqs : Inline qs) (h : ∀ p ∈ ps.getLast?, ∀ q ∈ qs.head?, p.Before q) :
    Inline (ps ++ qs) := by
  refine ⟨hps.toNeat.append hqs.toNeat h, ?_⟩
  cases ps with
  | nil => exact hqs.sameLine
  | cons p ps => exact hps.sameLine

theorem Neat.then (hps : Neat ps) (hqs : Neat qs) (h : qs.head?.all Piece.endsOthers = true) : Neat (ps ++ qs) := by
  refine hps.append hqs fun p _ q hq => Piece.before_of_endsOthers ?_
  rwa [Option.mem_def.mp hq] at h

theorem Neat.behind (hps : Neat ps) (hqs : Inline qs) (h : ps.getLast?.all Piece.isComplete = true) :
    Neat (ps ++ qs) := by
  refine hps.append hqs.toNeat fun p hp q hq => Piece.before_of_isComplete ?_ ?_
  · rwa [Option.mem_def.mp hp] at h
  · have hline := hqs.sameLine
    rw [Option.mem_def.mp hq] at hline
    simpa using hline

/-- Where a line ends, another one can start. -/
theorem Neat.below (hps : Neat ps) (hqs : Neat qs) (h : Closed ps) : Neat (ps ++ qs) := by
  refine hps.append hqs fun p hp q _ => ?_
  have hline := h p hp
  cases p with
  | newline => exact .inl rfl
  | comments => exact .inl rfl
  | _ => cases hline

theorem startsLine_of_endsOthers (h : p.endsOthers = true) : p.startsLine = false := by
  cases p with
  | token => rfl
  | _ => simpa [Piece.endsOthers] using h

theorem Inline.then (hps : Inline ps) (hqs : Neat qs) (h : qs.head?.all Piece.endsOthers = true) :
    Inline (ps ++ qs) := by
  refine ⟨hps.toNeat.then hqs h, ?_⟩
  cases ps with
  | nil =>
    cases qs with
    | nil => rfl
    | cons q qs => simpa using startsLine_of_endsOthers h
  | cons p ps => exact hps.sameLine

theorem Inline.behind (hps : Inline ps) (hqs : Inline qs) (h : ps.getLast?.all Piece.isComplete = true) :
    Inline (ps ++ qs) := by
  refine ⟨hps.toNeat.behind hqs h, ?_⟩
  cases ps with
  | nil => exact hqs.sameLine
  | cons p ps => exact hps.sameLine

/-- A layout between two others that keeps them apart. -/
theorem Inline.between {mid : List Piece} (hps : Inline ps) (hmid : Neat mid) (hqs : Inline qs)
    (hfirst : mid.head?.all Piece.endsOthers = true) (hlast : mid.getLast?.any Piece.isComplete = true) :
    Inline (ps ++ mid ++ qs) := by
  refine (hps.then hmid hfirst).behind hqs ?_
  have hne : mid ≠ [] := by
    rintro rfl
    cases hlast
  rw [List.getLast?_append_of_ne_nil _ hne]
  cases hend : mid.getLast? with
  | none => rfl
  | some p =>
    rw [hend] at hlast
    exact hlast

theorem Inline.nil : Inline [] := ⟨.nil, rfl⟩

theorem Inline.token (h : k.Spelled) : Inline [.token k] := ⟨.singleton h, rfl⟩

theorem Inline.sign (p : Punct) : Inline (Layout.sign p) := .token trivial

theorem Inline.keyword (w : Reserved) : Inline (Layout.keyword w) := .token trivial

theorem Inline.space : Inline Layout.space := ⟨.singleton trivial, rfl⟩

theorem Inline.newline : Inline Layout.newline := ⟨.singleton trivial, rfl⟩

theorem Inline.semi (h : Inline ps) : Inline (ps ++ Layout.sign .semi) := h.then (Inline.sign .semi).toNeat rfl

theorem Inline.spaced (h : k.Spelled) : Inline (Layout.spaced k) :=
  (Inline.space.behind (.token h) rfl).then Inline.space.toNeat rfl

theorem Inline.spacedSign (p : Punct) : Inline (Layout.spaced (.punct p)) := .spaced trivial

theorem Inline.paren (h : Inline ps) : Inline (Layout.paren ps) :=
  ((Inline.sign .lparen).behind h rfl).then (Inline.sign .rparen).toNeat rfl

theorem Inline.parenIf (h : Inline ps) (needed : Bool) : Inline (Layout.parenIf needed ps) := by
  cases needed
  · exact h
  · exact h.paren

theorem Inline.fit {e : Expr} (h : Inline ps) (least : Prec) : Inline (Layout.fit least e ps) := h.parenIf _

theorem Inline.commaSep {items : List (List Piece)} (h : ∀ ps ∈ items, Inline ps) : Inline (Layout.commaSep items) := by
  induction items with
  | nil => exact .nil
  | cons item items ih =>
    obtain ⟨hitem, hitems⟩ := List.forall_mem_cons.mp h
    cases items with
    | nil => exact hitem
    | cons item' items =>
      rw [Layout.commaSep]
      · have hcomma : Inline Layout.comma := (Inline.sign .comma).then Inline.space.toNeat rfl
        exact (hitem.then hcomma.toNeat rfl).behind (ih hitems) (by simp [comma, Piece.isComplete])
      · exact List.cons_ne_nil _ _

theorem Inline.brackets {items : List (List Piece)} (h : ∀ ps ∈ items, Inline ps) (hole : Bool) :
    Inline (Layout.brackets items hole) := by
  have hitems := (Inline.sign .lbracket).behind (Inline.commaSep h) rfl
  refine Inline.then ?_ (Inline.sign .rbracket).toNeat rfl
  cases hole
  · rwa [if_neg Bool.false_ne_true, List.append_nil]
  · exact hitems.then (Inline.sign .comma).toNeat rfl

theorem Closed.singleton (h : p.endsLine = true) : Closed [p] := by
  rintro _ ⟨rfl⟩
  exact h

theorem Closed.newline : Closed (ps ++ Layout.newline) := by
  intro p hp
  rw [List.getLast?_concat] at hp
  cases hp
  rfl

theorem Closed.append (hps : Closed ps) (hqs : Closed qs) : Closed (ps ++ qs) := by
  intro p hp
  rw [List.getLast?_append, Option.mem_def, Option.or_eq_some_iff] at hp
  rcases hp with hp | ⟨-, hp⟩
  · exact hqs p hp
  · exact hps p hp

/-- Lines between braces. -/
theorem Inline.braces (h : Neat ps) (hclosed : Closed ps) : Inline (Layout.braces depth ps) := by
  have hopen : Inline (Layout.sign .lbrace ++ Layout.newline) := (Inline.sign .lbrace).then Inline.newline.toNeat rfl
  have hindent : Neat (Layout.sign .lbrace ++ Layout.newline ++ ps ++ Layout.indent depth) :=
    (hopen.toNeat.below h .newline).below (.singleton trivial) (Closed.newline.append hclosed)
  refine ⟨hindent.behind (.sign .rbrace) ?_, rfl⟩
  rw [List.getLast?_concat]
  rfl

/-- What stands before a statement or a case on a line of its own. -/
theorem Neat.lead (before depth : Nat) : Neat [.comments before depth, .indent depth] := by
  have hcomments : Neat [.comments before depth] := .singleton trivial
  exact hcomments.below (.singleton trivial) (.singleton rfl)

theorem Inline.clause (h : Inline ps) (sameLine : Bool) (s : Stmt) : Inline (Layout.clause sameLine depth s ps) := by
  cases sameLine with
  | true => exact Inline.space.behind h rfl
  | false =>
    have hline : Neat (Layout.newline ++ Layout.lead (depth + 1) s) :=
      Inline.newline.toNeat.below (.lead _ _) (.singleton rfl)
    exact ⟨hline.behind h rfl, rfl⟩

theorem Inline.clauseGap (h : Inline ps) (sameLine : Bool) : Inline (Layout.clauseGap sameLine depth ++ ps) := by
  cases sameLine with
  | true => exact Inline.space.behind h rfl
  | false =>
    have hline : Neat (Layout.newline ++ Layout.indent depth) :=
      Inline.newline.toNeat.below (.singleton trivial) (.singleton rfl)
    exact ⟨hline.behind h rfl, rfl⟩

end Layout

/-! ### Signs before operands -/

/-- The token starts an operand that is not signed. -/
def Token.Kind.startsPlain : Token.Kind → Bool
  | punct .lparen | punct .lbracket | punct .lbrace => true
  | punct _ | contextual _ | marker _ | eof => false
  | _ => true

/-- The layout starts with an operand that is not signed. -/
def Layout.StartsPlain (ps : List Piece) : Prop := ∃ k qs, ps = .token k :: qs ∧ k.startsPlain = true

/-- No sign of an operator continues with what starts an operand. -/
theorem Token.Kind.head_of_startsPlain (h : k.startsPlain = true) (hk : k.Spelled) (hc : c ∈ k.spelling.toList.head?) :
    c ≠ '+' ∧ c ≠ '-' ∧ c ≠ '=' := by
  have hname : ∀ {cs}, NameText cs → c ∈ cs.head? → c ≠ '+' ∧ c ≠ '-' ∧ c ≠ '=' := by
    intro cs hcs hc
    cases cs with
    | nil => cases hc
    | cons d cs =>
      cases Option.some.inj hc
      have hd := hcs.1
      refine ⟨?_, ?_, ?_⟩ <;> rintro rfl <;> cases hd
  cases k with
  | reserved w => exact hname w.nameText hc
  | ident x => exact hname hk hc
  | number x =>
    obtain ⟨d, ds, hds, hd⟩ := NumberText.exists_cons hk
    rw [spelling, hds] at hc
    cases Option.some.inj hc
    refine ⟨?_, ?_, ?_⟩ <;> rintro rfl <;> rcases hd with hd | hd <;> cases hd
  | string x =>
    have hquote : (Literal.quote x).toList.head? = some '"' := by simp [Literal.quote]
    cases Option.some.inj (hquote.symm.trans hc)
    decide
  | regex x y =>
    have hslash : (Token.Kind.regex x y).spelling.toList.head? = some '/' := by simp [spelling]
    cases Option.some.inj (hslash.symm.trans hc)
    decide
  | punct p =>
    cases p <;> cases h
    all_goals
      cases Option.some.inj hc
      decide
  | contextual => exact hk.elim
  | marker => exact hk.elim
  | eof => exact hk.elim

theorem UnaryOp.stopsAt {p : Punct} (hop : op.token = .punct p) (hc : c ≠ '+' ∧ c ≠ '-' ∧ c ≠ '=') :
    (Token.Kind.punct p).stopsAt c = true := by
  cases op <;> cases hop
  all_goals simp [Token.Kind.stopsAt, Punct.continues, Punct.all, Punct.spelling, List.isPrefixOf, hc]

namespace Layout.StartsPlain

variable {qs : List Piece}

theorem append (h : StartsPlain ps) : StartsPlain (ps ++ qs) := by
  obtain ⟨k, rest, rfl, hk⟩ := h
  exact ⟨k, rest ++ qs, rfl, hk⟩

theorem paren : StartsPlain (Layout.paren ps) := ⟨.punct .lparen, _, rfl, rfl⟩

theorem fit {least : Prec} {e : Expr} (h : least ≤ e.prec → StartsPlain ps) : StartsPlain (Layout.fit least e ps) := by
  by_cases hlt : e.prec < least
  · rw [fit_of_lt hlt]
    exact paren
  · have hle : least ≤ e.prec := Nat.not_lt.mp hlt
    rw [fit_of_le hle]
    exact h hle

end Layout.StartsPlain

/-- What holds together tightly starts without a sign. -/
theorem Expr.startsPlain (e : Expr) (h : .update ≤ e.prec) (depth : Nat) : StartsPlain (e.layout depth) := by
  have hcall : ∀ {e : Expr}, .call ≤ e.prec → .update ≤ e.prec := Nat.le_trans (by decide : Prec.update ≤ .call)
  have hobject : ∀ (needed : Bool) (e : Expr), (.call ≤ e.prec → StartsPlain (e.layout depth)) →
      StartsPlain (if needed then paren (e.layout depth) else fit .call e (e.layout depth)) := by
    intro needed e h
    cases needed
    · exact StartsPlain.fit h
    · exact StartsPlain.paren
  match e with
  | .ident _ _ => exact ⟨_, _, by rw [layout], rfl⟩
  | .this _ => exact ⟨_, _, by rw [layout], rfl⟩
  | .null _ => exact ⟨_, _, by rw [layout], rfl⟩
  | .bool _ _ => exact ⟨_, _, by rw [layout], rfl⟩
  | .number _ _ => exact ⟨_, _, by rw [layout], rfl⟩
  | .string _ _ => exact ⟨_, _, by rw [layout], rfl⟩
  | .regex _ _ _ => exact ⟨_, _, by rw [layout], rfl⟩
  | .array _ _ => exact ⟨_, _, by rw [layout, brackets]; rfl, rfl⟩
  | .object _ [] => exact ⟨_, _, by rw [layout]; rfl, rfl⟩
  | .object _ (_ :: _) => exact ⟨.punct .lbrace, _, by rw [layout, braces]; rfl; exact List.cons_ne_nil _ _, rfl⟩
  | .function _ fn =>
    cases harrow : fn.isArrow with
    | false => exact ⟨_, _, by rw [layout, Function.layout_of_not_arrow harrow]; rfl, rfl⟩
    | true =>
      rw [prec, harrow] at h
      exact absurd h (by decide)
  | .update _ _ false e =>
    rw [layout]
    exact (StartsPlain.fit fun hle => e.startsPlain hle depth).append
  | .update _ _ true _ => exact absurd h (by decide : ¬Prec.update ≤ .unary)
  | .call _ e _ =>
    rw [layout]
    exact (StartsPlain.fit fun hle => e.startsPlain (hcall hle) depth).append
  | .new _ _ _ => exact ⟨_, _, by rw [layout]; rfl, rfl⟩
  | .member _ e _ =>
    rw [layout]
    exact (hobject _ _ fun hle => e.startsPlain (hcall hle) depth).append.append
  | .index _ e _ =>
    rw [layout]
    exact (hobject _ _ fun hle => e.startsPlain (hcall hle) depth).append.append.append
  | .unary _ _ _ => exact absurd h (by decide : ¬Prec.update ≤ .unary)
  | .binary _ op _ _ => exact absurd h (by cases op <;> decide : ¬Prec.update ≤ op.prec)
  | .assign _ _ _ _ => exact absurd h (by decide : ¬Prec.update ≤ .assign)
  | .conditional _ _ _ _ => exact absurd h (by decide : ¬Prec.update ≤ .conditional)
  | .sequence _ _ => exact absurd h (by decide : ¬Prec.update ≤ .sequence)
  | .spread _ _ => exact absurd h (by decide : ¬Prec.update ≤ .assign)

/-- Operands that start with a sign. -/
theorem Expr.signed_of_prec (hle : .unary ≤ e.prec) (hlt : ¬.update ≤ e.prec) :
    (∃ span op operand, e = .unary span op operand) ∨ ∃ span op operand, e = .update span op true operand := by
  cases e with
  | unary span op operand => exact .inl ⟨span, op, operand, rfl⟩
  | update span op leading operand =>
    cases leading with
    | true => exact .inr ⟨span, op, operand, rfl⟩
    | false => exact absurd (Nat.le_refl _) hlt
  | function span fn =>
    rw [prec] at hle hlt
    split at hle
    · exact absurd hle (by decide)
    · next harrow => exact absurd (by rw [if_neg harrow]; decide) hlt
  | binary span op => exact absurd hle (by cases op <;> decide : ¬Prec.unary ≤ op.prec)
  | assign => exact absurd hle (by decide : ¬Prec.unary ≤ .assign)
  | spread => exact absurd hle (by decide : ¬Prec.unary ≤ .assign)
  | conditional => exact absurd hle (by decide : ¬Prec.unary ≤ .conditional)
  | sequence => exact absurd hle (by decide : ¬Prec.unary ≤ .sequence)
  | call => exact absurd (by decide : Prec.update ≤ .call) hlt
  | new => exact absurd (by decide : Prec.update ≤ .call) hlt
  | member => exact absurd (by decide : Prec.update ≤ .call) hlt
  | index => exact absurd (by decide : Prec.update ≤ .call) hlt
  | _ => exact absurd (Prec.le_primary _) hlt

/-- The sign of an operator does not run into its operand. -/
theorem Expr.before_of_signsClash {p : Punct} (hop : op.token = .punct p) (hclash : e.signsClash op = false)
    (he : Inline (e.layout depth)) :
    ∀ q ∈ (fit .unary e (e.layout depth)).head?, (Piece.token (.punct p)).Before q := by
  intro q hq
  by_cases hlt : e.prec < .unary
  · rw [fit_of_lt hlt] at hq
    cases Option.some.inj hq
    exact Piece.before_of_endsOthers rfl
  · have hle : .unary ≤ e.prec := Nat.not_lt.mp hlt
    rw [fit_of_le hle] at hq
    by_cases hplain : .update ≤ e.prec
    · obtain ⟨k, qs, hqs, hk⟩ := e.startsPlain hplain depth
      rw [hqs] at hq he
      cases Option.some.inj hq
      refine ⟨rfl, ?_⟩
      rintro k' ⟨rfl⟩ c hc
      exact op.stopsAt hop (Token.Kind.head_of_startsPlain hk (he.spelled _ List.mem_cons_self) hc)
    · -- the operand is signed itself
      have hsigns : ∀ k : Token.Kind, q = .token k → k.spelling.toList.head?.all (Token.Kind.punct p).stopsAt = true →
          (Piece.token (.punct p)).Before q := by
        rintro k rfl hall
        refine ⟨rfl, ?_⟩
        rintro k' ⟨rfl⟩ c hc
        rwa [Option.mem_def.mp hc] at hall
      rcases signed_of_prec hle hplain with ⟨span, inner, operand, rfl⟩ | ⟨span, inner, operand, rfl⟩
      · have hhead : ((Expr.unary span inner operand).layout depth).head? = some (.token inner.token) := by
          cases inner <;> simp [layout]
        refine hsigns inner.token (Option.some.inj (hhead.symm.trans hq)).symm ?_
        cases op <;> cases hop <;> cases inner <;> first | decide | cases hclash
      · rw [layout, if_pos rfl] at hq
        refine hsigns (.punct inner.sign) (Option.some.inj hq).symm ?_
        cases op <;> cases hop <;> cases inner <;> first | decide | cases hclash

/-! ### Dots and signs behind operands -/

/-- The last token, if there is one, ends before the character. -/
def Layout.EndsBefore (c : Char) (ps : List Piece) : Prop := ∀ k, ps.getLast? = some (.token k) → k.stopsAt c = true

theorem Layout.EndsBefore.token (h : k.stopsAt c = true) : EndsBefore c [.token k] := by
  rintro k' ⟨rfl⟩
  exact h

theorem Layout.EndsBefore.append {qs : List Piece} (h : EndsBefore c qs) (hne : qs ≠ []) : EndsBefore c (ps ++ qs) := by
  intro k hk
  rw [List.getLast?_append_of_ne_nil _ hne] at hk
  exact h k hk

theorem Layout.EndsBefore.concat (h : k.stopsAt c = true) : EndsBefore c (ps ++ [.token k]) := by
  intro k' hk'
  rw [List.getLast?_concat] at hk'
  cases hk'
  exact h

theorem Layout.EndsBefore.before (h : EndsBefore c ps) (hk : k.spelling.toList.head? = some c) :
    ∀ p ∈ ps.getLast?, p.Before (.token k) := by
  intro p hp
  cases p with
  | token k' =>
    refine ⟨rfl, ?_⟩
    rintro _ ⟨rfl⟩ d hd
    cases Option.some.inj (hk.symm.trans hd)
    exact h k' hp
  | _ => exact .inr rfl

theorem FunctionBody.endsBefore (b : FunctionBody) (depth : Nat) (c : Char) : EndsBefore c (b.layout depth) := by
  have hbrace : ∀ ps : List Piece, EndsBefore c (braces depth ps) := fun ps =>
    .concat (Punct.stopsAt_of_isComplete rfl c)
  cases b with
  | concise value =>
    rw [layout]
    exact hbrace _
  | block b =>
    obtain ⟨span, stmts⟩ := b
    rw [layout]
    cases stmts with
    | nil =>
      rw [Block.layout]
      exact fun k hk => nomatch hk
    | cons s stmts =>
      rw [Block.layout]
      · exact hbrace _
      · exact nofun

theorem FunctionBody.layout_ne_nil (b : FunctionBody) (depth : Nat) : b.layout depth ≠ [] := by
  cases b with
  | concise value => rw [layout]; exact nofun
  | block b =>
    obtain ⟨span, stmts⟩ := b
    cases stmts <;> simp [layout, Block.layout, braces]

/-- What holds together tightly ends before a dot, integers apart, and before a sign. -/
theorem Expr.endsBefore (h : .call ≤ e.prec) (depth : Nat) (hc : Lexeme.isIdentPart c = false)
    (hdot : c = '.' → e.isBareInteger = false) : EndsBefore c (e.layout depth) := by
  have hword : (!Lexeme.isIdentPart c) = true := by rw [hc]; rfl
  have hclose : ∀ {p : Punct}, p.isComplete = true → (Token.Kind.punct p).stopsAt c = true := fun hp =>
    Punct.stopsAt_of_isComplete hp c
  have hparen : ∀ {ps : List Piece}, EndsBefore c (paren ps) := .concat (hclose rfl)
  cases e with
  | ident => rw [layout]; exact .token hword
  | this => rw [layout]; exact .token hword
  | null => rw [layout]; exact .token hword
  | bool => rw [layout]; exact .token hword
  | number span text =>
    rw [layout]
    refine Layout.EndsBefore.token ?_
    have hpoint : (text.toList.all Char.isDigit && c == '.') = false := by
      by_cases hcdot : c = '.'
      · rw [show text.toList.all Char.isDigit = false from hdot hcdot]
        rfl
      · simp [hcdot]
    rw [Token.Kind.stopsAt, hpoint, hc]
    rfl
  | string => rw [layout]; exact .token rfl
  | regex => rw [layout]; exact .token hword
  | array => rw [layout]; exact .concat (hclose rfl)
  | object span properties =>
    cases properties with
    | nil => rw [layout]; exact .concat (hclose rfl)
    | cons => rw [layout]; exact .concat (hclose rfl); exact List.cons_ne_nil _ _
  | function span fn =>
    cases harrow : fn.isArrow with
    | true =>
      rw [prec, harrow] at h
      exact absurd h (by decide)
    | false =>
      rw [layout, Function.layout_of_not_arrow harrow]
      exact (fn.body.endsBefore depth c).append (fn.body.layout_ne_nil depth)
  | call => rw [layout]; exact hparen.append (List.cons_ne_nil _ _)
  | new => rw [layout]; exact hparen.append (List.cons_ne_nil _ _)
  | member => rw [layout]; exact .concat hword
  | index => rw [layout]; exact .concat (hclose rfl)
  | unary => exact absurd h (by decide : ¬Prec.call ≤ .unary)
  | update span op leading => exact absurd h (by cases leading <;> decide : ¬Prec.call ≤ if leading then .unary else .update)
  | binary span op => exact absurd h (by cases op <;> decide : ¬Prec.call ≤ op.prec)
  | assign => exact absurd h (by decide : ¬Prec.call ≤ .assign)
  | spread => exact absurd h (by decide : ¬Prec.call ≤ .assign)
  | conditional => exact absurd h (by decide : ¬Prec.call ≤ .conditional)
  | sequence => exact absurd h (by decide : ¬Prec.call ≤ .sequence)

/-! ### Trees -/

/-- Lines of their own. -/
structure Layout.Lines (ps : List Piece) : Prop extends Neat ps where
  closed : Closed ps

/-- The layout of a node is neat. -/
def Node.Spaced : Node → Prop
  | expr e => ∀ depth, Inline (e.layout depth)
  | item e => ∀ depth, Inline (fit .assign e (e.layout depth))
  | key k => ∀ depth, Inline (k.layout depth)
  | property p => ∀ depth, Inline (p.layout depth)
  | function fn => ∀ depth, Inline (fn.layout depth) ∧ Inline (paren (commaSep (Layout.params depth fn.params))) ∧
      (fn.isArrow = false → Inline (fn.body.layout depth))
  | body (.block b) => ∀ depth, Inline (b.layout depth)
  | body (.concise e) => ∀ depth, Inline (e.layout depth)
  | block b => ∀ depth, Inline (b.layout depth)
  | stmt s => ∀ depth, Inline (s.layout depth)
  | decl d => ∀ depth, Inline (d.layout depth)
  | declarator d => ∀ depth, Inline (d.layout depth)
  | forInit i => ∀ depth, Inline (i.layout depth)
  | forTarget t => ∀ depth, Inline (t.layout depth)
  | case c => ∀ depth, Lines (c.layout depth)
  | handler h => ∀ depth, Inline (h.layout depth)
  | pattern p => ∀ depth, Inline (p.layout depth)
  | patternProp p => ∀ depth, Inline (p.layout depth)
  | _ => True

theorem nameText_of_property (h : (Lexis.of Token.Kind.Legal).property x) : NameText x.toList := by
  obtain ⟨k, hk, hx⟩ := h
  cases k with
  | ident y => cases hx; exact hk.1
  | reserved w => cases hx; exact w.nameText
  | contextual => exact hk.elim
  | _ => cases hx

theorem nameText_of_name (h : (Lexis.of Token.Kind.Legal).name x) : NameText x.toList := by
  obtain ⟨k, hk, hx⟩ := h
  cases k with
  | ident y => cases hx; exact hk.1
  | contextual => exact hk.elim
  | _ => cases hx

theorem UnaryOp.token_spelled (op : UnaryOp) : op.token.Spelled := by cases op <;> trivial

theorem BinaryOp.token_spelled (op : BinaryOp) : op.token.Spelled := by cases op <;> trivial

/-- A unary operator and its operand. -/
theorem Expr.spaced_unary {span : Span} (he : Inline (e.layout depth)) :
    Inline ((Expr.unary span op e).layout depth) := by
  have hword : ∀ {ps : List Piece}, Inline ps → Inline (Layout.token op.token ++ space ++ ps) := fun hps =>
    ((Inline.token op.token_spelled).then Inline.space.toNeat rfl).behind hps rfl
  have hsign : ∀ p, op.token = .punct p →
      Inline (Layout.token op.token ++ [] ++ if e.signsClash op then paren (e.layout depth) else fit .unary e (e.layout depth)) := by
    intro p hp
    rw [List.append_nil]
    cases hclash : e.signsClash op with
    | true => exact (Inline.token op.token_spelled).then he.paren.toNeat rfl
    | false =>
      refine (Inline.token op.token_spelled).append (he.fit .unary) ?_
      rintro _ ⟨rfl⟩
      rw [hp]
      exact before_of_signsClash hp hclash he
  have hoperand : Inline (if e.signsClash op then paren (e.layout depth) else fit .unary e (e.layout depth)) := by
    split
    · exact he.paren
    · exact he.fit .unary
  cases op with
  | not => rw [layout]; exact hsign _ rfl; all_goals exact fun h => by cases h
  | bitNot => rw [layout]; exact hsign _ rfl; all_goals exact fun h => by cases h
  | neg => rw [layout]; exact hsign _ rfl; all_goals exact fun h => by cases h
  | plus => rw [layout]; exact hsign _ rfl; all_goals exact fun h => by cases h
  | typeof => rw [layout]; exact hword hoperand
  | void => rw [layout]; exact hword hoperand
  | delete => rw [layout]; exact hword hoperand

/-- A name behind a dot. -/
theorem Layout.inline_dot (hx : NameText x.toList) : Inline (Layout.sign .dot ++ Layout.name x) := by
  have hname : (Token.Kind.ident x).Spelled := hx
  refine (Inline.sign .dot).append (.token hname) ?_
  rintro _ ⟨rfl⟩ _ ⟨rfl⟩
  refine ⟨rfl, ?_⟩
  rintro _ ⟨rfl⟩ c hc
  change c ∈ x.toList.head? at hc
  cases hcs : x.toList with
  | nil => rw [hcs] at hc; cases hc
  | cons d ds =>
    rw [hcs] at hc hx
    cases Option.some.inj hc
    have hpoint : c ≠ '.' := by
      rintro rfl
      cases hx.1
    have hdigit : c.isDigit = false := by
      cases hdigit : c.isDigit with
      | false => rfl
      | true => exact absurd ((isIdentStart_of_isDigit hdigit).symm.trans hx.1) Bool.false_ne_true
    simp [Token.Kind.stopsAt, Punct.continues, Punct.all, Punct.spelling, List.isPrefixOf, hpoint, hdigit]

/-- An operand before something that holds it. -/
theorem Expr.inline_object (he : Inline (e.layout depth)) (needed : Bool) :
    Inline (if needed then paren (e.layout depth) else fit .call e (e.layout depth)) := by
  cases needed
  · exact he.fit .call
  · exact he.paren

theorem Layout.lines_properties {ps : List Property} (h : ∀ p ∈ ps, Inline (p.layout depth)) :
    Lines (Layout.properties depth ps) := by
  have hindent : ∀ {p : Property}, Inline (p.layout depth) → Neat (indent depth ++ p.layout depth) := fun hp =>
    Neat.behind (.singleton trivial) hp rfl
  induction ps with
  | nil => exact ⟨.nil, nofun⟩
  | cons p ps ih =>
    obtain ⟨hp, hps⟩ := List.forall_mem_cons.mp h
    cases ps with
    | nil =>
      rw [Layout.properties]
      exact ⟨(hindent hp).then Inline.newline.toNeat rfl, .newline⟩
    | cons p' ps =>
      have hrest := ih hps
      have hline := ((hindent hp).then (Inline.sign .comma).toNeat rfl).then Inline.newline.toNeat rfl
      rw [Layout.properties]
      · exact ⟨hline.below hrest.toNeat .newline, Closed.newline.append hrest.closed⟩
      · exact List.cons_ne_nil _ _

theorem Layout.inline_args {es : List Expr} (h : ∀ e ∈ es, Inline (fit .assign e (e.layout depth))) :
    Inline (commaSep (Layout.args depth es)) := by
  rw [args_eq]
  exact .commaSep (List.forall_mem_map.mpr h)

theorem Expr.spaced (hproper : e.Proper (.of Token.Kind.Legal)) (hparts : ∀ m ∈ e.parts, m.Spaced) (depth : Nat) :
    Inline (e.layout depth) := by
  cases e with
  | ident span x =>
    have hname : (Token.Kind.ident x).Spelled := nameText_of_name hproper
    rw [layout]
    exact .token hname
  | this => rw [layout]; exact .keyword _
  | null => rw [layout]; exact .keyword _
  | bool => rw [layout]; exact .keyword _
  | number span x =>
    have hnumber : (Token.Kind.number x).Spelled := hproper
    rw [layout]
    exact .token hnumber
  | string => rw [layout]; exact .token trivial
  | regex span x y =>
    have hregex : (Token.Kind.regex x y).Spelled := hproper
    rw [layout]
    exact .token hregex
  | array span elements =>
    rw [layout, elements_eq]
    refine .brackets (List.forall_mem_map.mpr fun e he => ?_) _
    cases e with
    | none => exact .nil
    | some e => exact hparts (.item e) (List.mem_map_of_mem (List.mem_filterMap.mpr ⟨some e, he, rfl⟩)) depth
  | object span properties =>
    cases properties with
    | nil =>
      rw [layout]
      exact (Inline.sign .lbrace).then (Inline.sign .rbrace).toNeat rfl
    | cons p ps =>
      rw [layout]
      · have hlines : Lines (Layout.properties (depth + 1) (p :: ps)) :=
          lines_properties fun q hq => hparts (.property q) (List.mem_map_of_mem hq) (depth + 1)
        exact .braces hlines.toNeat hlines.closed
      · exact List.cons_ne_nil _ _
  | function span fn =>
    rw [layout]
    exact (hparts (.function fn) List.mem_cons_self depth).1
  | unary span op e => exact spaced_unary (hparts (.expr e) List.mem_cons_self depth)
  | update span op leading e =>
    have he := hparts (.expr e) List.mem_cons_self depth
    rw [layout]
    cases leading with
    | true => exact (Inline.sign op.sign).behind (he.fit .unary) (by cases op <;> rfl)
    | false =>
      have hcall : .call ≤ e.prec := call_le_prec hproper
      rw [if_neg Bool.false_ne_true, fit_of_le (Nat.le_trans (by decide : Prec.update ≤ .call) hcall)]
      refine Inline.append he (.sign op.sign) ?_
      rintro p hp _ ⟨rfl⟩
      cases op with
      | incr => exact (endsBefore (c := '+') hcall depth rfl fun h => absurd h (by decide)).before rfl p hp
      | decr => exact (endsBefore (c := '-') hcall depth rfl fun h => absurd h (by decide)).before rfl p hp
  | binary span op left right =>
    obtain ⟨hleft, hright⟩ : (Node.expr left).Spaced ∧ (Node.expr right).Spaced := by simpa [parts] using hparts
    rw [layout]
    exact ((hleft depth).fit _).between (Inline.spaced op.token_spelled).toNeat ((hright depth).fit _) rfl rfl
  | assign span op target value =>
    obtain ⟨htarget, hvalue⟩ : (Node.expr target).Spaced ∧ (Node.expr value).Spaced := by simpa [parts] using hparts
    rw [layout]
    exact ((htarget depth).fit _).between (Inline.spacedSign _).toNeat ((hvalue depth).fit _) rfl rfl
  | conditional span test consequent alternate =>
    obtain ⟨htest, hconsequent, halternate⟩ :
        (Node.expr test).Spaced ∧ (Node.expr consequent).Spaced ∧ (Node.expr alternate).Spaced := by
      simpa [parts] using hparts
    have hquestion := ((htest depth).fit (e := test) .or).between (Inline.spacedSign .question).toNeat
      ((hconsequent depth).fit (e := consequent) .assign) rfl rfl
    rw [layout]
    exact hquestion.between (Inline.spacedSign _).toNeat ((halternate depth).fit _) rfl rfl
  | call span callee args =>
    obtain ⟨hcallee, hargs⟩ := List.forall_mem_cons.mp hparts
    rw [layout]
    exact ((hcallee depth).fit _).then (inline_args fun e he => hargs (.item e) (List.mem_map_of_mem he) depth).paren.toNeat rfl
  | new span callee args =>
    obtain ⟨hcallee, hargs⟩ := List.forall_mem_cons.mp hparts
    have hnew := ((Inline.keyword .kwNew).then Inline.space.toNeat rfl).behind (inline_object (hcallee depth) callee.containsCall) rfl
    rw [layout]
    exact hnew.then (inline_args fun e he => hargs (.item e) (List.mem_map_of_mem he) depth).paren.toNeat rfl
  | member span e x =>
    have he := hparts (.expr e) List.mem_cons_self depth
    rw [layout, List.append_assoc]
    refine Inline.append (inline_object he _) (inline_dot (nameText_of_property hproper)) ?_
    have hparen : EndsBefore '.' (paren (e.layout depth)) := .concat (Punct.stopsAt_of_isComplete rfl _)
    have hends : EndsBefore '.' (if e.isBareInteger then paren (e.layout depth) else fit .call e (e.layout depth)) := by
      cases hbare : e.isBareInteger with
      | true => exact hparen
      | false =>
        by_cases hlt : e.prec < .call
        · rw [fit_of_lt hlt]
          exact hparen
        · have hle : .call ≤ e.prec := Nat.not_lt.mp hlt
          rw [fit_of_le hle]
          exact endsBefore hle depth rfl fun _ => hbare
    rintro p hp _ ⟨rfl⟩
    exact hends.before rfl p hp
  | index span e e' =>
    obtain ⟨he, he'⟩ : (Node.expr e).Spaced ∧ (Node.expr e').Spaced := by simpa [parts] using hparts
    rw [layout]
    exact (inline_object (he depth) _).between (Inline.sign .lbracket).toNeat (he' depth) rfl rfl |>.then
      (Inline.sign .rbracket).toNeat rfl
  | sequence span items =>
    rw [layout]
    exact inline_args fun e he => Inline.fit (hparts (.expr e) (List.mem_map_of_mem he) depth) _
  | spread => exact hproper.elim

theorem Layout.inline_params {ps : List Pattern} (h : ∀ p ∈ ps, Inline (p.layout depth)) :
    ∀ qs ∈ Layout.params depth ps, Inline qs := by
  induction ps with
  | nil => exact nofun
  | cons p ps ih =>
    obtain ⟨hp, hps⟩ := List.forall_mem_cons.mp h
    rw [Layout.params]
    split
    · exact ih hps
    · exact List.forall_mem_cons.mpr ⟨hp, ih hps⟩

/-- Statements on lines of their own. -/
theorem Layout.lines_stmts {ss : List Stmt} (h : ∀ s ∈ ss, Inline (s.layout depth)) : Lines (Layout.stmts depth ss) := by
  induction ss with
  | nil => exact ⟨.nil, nofun⟩
  | cons s ss ih =>
    obtain ⟨hs, hss⟩ := List.forall_mem_cons.mp h
    have hrest := ih hss
    have hline := ((Neat.lead s.span.offset depth).behind hs rfl).then Inline.newline.toNeat rfl
    rw [Layout.stmts]
    exact ⟨hline.below hrest.toNeat .newline, Closed.newline.append hrest.closed⟩

/-- Lines of statements, or of cases, with the comments at their end. -/
theorem Layout.Lines.braces {ps : List Piece} (h : Lines ps) (stop depth' : Nat) :
    Inline (Layout.braces depth (ps ++ [.comments stop depth'])) :=
  .braces (h.toNeat.below (.singleton trivial) h.closed) (h.closed.append (.singleton rfl))

theorem Block.spaced {b : Block} (h : ∀ m ∈ (Node.block b).parts, m.Spaced) : Inline (b.layout depth) := by
  obtain ⟨span, stmts⟩ := b
  cases stmts with
  | nil =>
    rw [layout]
    exact ⟨.singleton trivial, rfl⟩
  | cons s stmts =>
    rw [layout]
    · exact Lines.braces (lines_stmts fun s hs => h (.stmt s) (List.mem_map_of_mem hs) _) _ _
    · exact nofun

theorem PropKey.spaced {k : PropKey} (hproper : (Node.key k).Proper (.of Token.Kind.Legal))
    (h : ∀ m ∈ (Node.key k).parts, m.Spaced) : Inline (k.layout depth) := by
  cases k with
  | name x =>
    have hname : (Token.Kind.ident x.text).Spelled := nameText_of_property hproper
    rw [layout]
    exact .token hname
  | string => rw [layout]; exact .token trivial
  | number x =>
    have hnumber : (Token.Kind.number x).Spelled := hproper
    rw [layout]
    exact .token hnumber
  | computed e =>
    have he : Inline (e.layout depth) := h (.expr e) List.mem_cons_self depth
    rw [layout]
    exact ((Inline.sign .lbracket).behind (he.fit _) rfl).then (Inline.sign .rbracket).toNeat rfl

theorem Property.spaced {p : Property} (hproper : (Node.property p).Proper (.of Token.Kind.Legal))
    (h : ∀ m ∈ (Node.property p).parts, m.Spaced) : Inline (p.layout depth) := by
  cases p with
  | keyValue k e =>
    obtain ⟨hk, he⟩ : (Node.key k).Spaced ∧ (Node.expr e).Spaced := by simpa [Node.parts] using h
    have hcolon : Inline (sign .colon ++ space) := (Inline.sign .colon).then Inline.space.toNeat rfl
    rw [layout, List.append_assoc _ (sign .colon)]
    exact (hk depth).between hcolon.toNeat ((he depth).fit _) rfl rfl
  | shorthand x =>
    have hname : (Token.Kind.ident x.text).Spelled := nameText_of_property hproper
    rw [layout]
    exact .token hname
  | method k fn =>
    obtain ⟨hk, hfn⟩ : (Node.key k).Spaced ∧ (Node.function fn).Spaced := by simpa [Node.parts] using h
    obtain ⟨-, hparams, hbody⟩ := hfn depth
    rw [layout_method]
    exact ((hk depth).then hparams.toNeat rfl).between Inline.space.toNeat (hbody hproper.1) rfl rfl
  | spread e =>
    have he : Inline (e.layout depth) := h (.expr e) List.mem_cons_self depth
    rw [layout]
    exact (Inline.sign .ellipsis).behind (he.fit _) rfl

theorem Function.spaced {fn : Function} (hproper : fn.Proper (.of Token.Kind.Legal))
    (h : ∀ m ∈ (Node.function fn).parts, m.Spaced) : (Node.function fn).Spaced := by
  intro depth
  obtain ⟨hparams, hbody⟩ := List.forall_mem_append.mp h
  have hparen : Inline (paren (commaSep (Layout.params depth fn.params))) :=
    (Inline.commaSep (inline_params fun p hp => hparams (.pattern p) (List.mem_map_of_mem hp) depth)).paren
  have hbody := hbody (.body fn.body) List.mem_cons_self
  cases harrow : fn.isArrow with
  | false =>
    obtain ⟨b, hb⟩ := hproper.body harrow
    have hblock : Inline (fn.body.layout depth) := by
      rw [hb] at hbody ⊢
      rw [FunctionBody.layout]
      exact hbody depth
    refine ⟨?_, hparen, fun _ => hblock⟩
    have hname : Inline (fn.name.elim [] fun n => Layout.name n.text) := by
      cases hn : fn.name with
      | none => exact .nil
      | some n =>
        have hname : (Token.Kind.ident n.text).Spelled := nameText_of_name (hproper.name n hn)
        exact .token hname
    rw [layout_of_not_arrow harrow]
    have hhead := ((Inline.keyword .kwFunction).then Inline.space.toNeat rfl).behind hname rfl
    exact (hhead.then hparen.toNeat rfl).between Inline.space.toNeat hblock rfl rfl
  | true =>
    refine ⟨?_, hparen, nofun⟩
    obtain ⟨span, name, params, body, isArrow, receiver, returns, condition, sites, instrumented⟩ := fn
    cases harrow
    cases body with
    | block b =>
      rw [layout]
      exact hparen.between (Inline.spacedSign .arrow).toNeat (hbody depth) rfl rfl
    | concise e =>
      have hvalue : Inline (if e.startsLikeStatement then paren (e.layout depth) else fit .assign e (e.layout depth)) := by
        split
        · exact (hbody depth).paren
        · exact (hbody depth).fit _
      rw [layout]
      exact hparen.between (Inline.spacedSign .arrow).toNeat hvalue rfl rfl

theorem Pattern.spaced {p : Pattern} (hproper : p.Proper (.of Token.Kind.Legal)) (h : ∀ m ∈ p.parts, m.Spaced) :
    Inline (p.layout depth) := by
  cases p with
  | name b =>
    obtain ⟨span, x, demand⟩ := b
    have hname : (Token.Kind.ident x.text).Spelled := nameText_of_name hproper
    rw [layout]
    exact .token hname
  | this => exact hproper.elim
  | array span elements =>
    rw [layout, patternElements_eq]
    refine .brackets (List.forall_mem_map.mpr fun p hp => ?_) _
    cases p with
    | none => exact .nil
    | some p => exact h (.pattern p) (List.mem_map_of_mem (List.mem_filterMap.mpr ⟨some p, hp, rfl⟩)) depth
  | object span properties =>
    cases properties with
    | nil =>
      rw [layout]
      exact (Inline.sign .lbrace).then (Inline.sign .rbrace).toNeat rfl
    | cons p ps =>
      rw [layout, patternProps_eq]
      · have hprops : Inline (commaSep ((p :: ps).map (PatternProp.layout depth))) :=
          .commaSep (List.forall_mem_map.mpr fun p hp => h (.patternProp p) (List.mem_map_of_mem hp) depth)
        have hopen := ((Inline.sign .lbrace).then Inline.space.toNeat rfl).behind hprops rfl
        exact hopen.between Inline.space.toNeat (.sign .rbrace) rfl rfl
      · exact nofun
  | withDefault span target e =>
    obtain ⟨htarget, he⟩ : (Node.pattern target).Spaced ∧ (Node.expr e).Spaced := by simpa [parts] using h
    rw [layout]
    exact (htarget depth).between (Inline.spacedSign .eq).toNeat ((he depth).fit _) rfl rfl
  | rest span target =>
    rw [layout]
    exact (Inline.sign .ellipsis).behind (h (.pattern target) List.mem_cons_self depth) rfl

theorem PatternProp.spaced {p : PatternProp} (hproper : (Node.patternProp p).Proper (.of Token.Kind.Legal))
    (h : ∀ m ∈ (Node.patternProp p).parts, m.Spaced) : Inline (p.layout depth) := by
  cases p with
  | keyValue k p =>
    obtain ⟨hk, hp⟩ : (Node.key k).Spaced ∧ (Node.pattern p).Spaced := by simpa [Node.parts] using h
    have hcolon : Inline (sign .colon ++ space) := (Inline.sign .colon).then Inline.space.toNeat rfl
    rw [layout, List.append_assoc _ (sign .colon)]
    exact (hk depth).between hcolon.toNeat (hp depth) rfl rfl
  | shorthand b e =>
    obtain ⟨span, x, demand⟩ := b
    have hname : Inline (Layout.name x.text) := .token (k := .ident x.text) (nameText_of_property hproper)
    cases e with
    | none => rw [layout]; exact hname
    | some e =>
      have he : Inline (e.layout depth) := h (.expr e) (by simp [Node.parts]) depth
      rw [layout]
      exact (hname.between Inline.space.toNeat (.sign .eq) rfl rfl).between Inline.space.toNeat (he.fit _) rfl rfl
  | rest p =>
    rw [layout]
    exact h (.pattern p) List.mem_cons_self depth

theorem Declarator.spaced {d : Declarator} (h : ∀ m ∈ (Node.declarator d).parts, m.Spaced) : Inline (d.layout depth) := by
  obtain ⟨span, target, init⟩ := d
  have htarget : Inline (target.layout depth) := h (.pattern target) List.mem_cons_self depth
  cases init with
  | none => rw [layout]; exact htarget
  | some e =>
    have he : Inline (e.layout depth) := h (.expr e) (by simp [Node.parts]) depth
    rw [layout]
    exact htarget.between (Inline.spacedSign .eq).toNeat (he.fit _) rfl rfl

theorem Decl.spaced {d : Decl} (h : ∀ m ∈ (Node.decl d).parts, m.Spaced) : Inline (d.layout depth) := by
  obtain ⟨span, kind, decls⟩ := d
  rw [layout, declarators_eq]
  have hdecls : Inline (commaSep (decls.map (Declarator.layout depth))) :=
    .commaSep (List.forall_mem_map.mpr fun d hd => h (.declarator d) (List.mem_map_of_mem hd) depth)
  exact (Inline.keyword kind.word).between Inline.space.toNeat hdecls rfl rfl

theorem ForInit.spaced {i : ForInit} (h : ∀ m ∈ (Node.forInit i).parts, m.Spaced) : Inline (i.layout depth) := by
  cases i with
  | none => rw [layout]; exact .nil
  | var d => rw [layout]; exact h (.decl d) List.mem_cons_self depth
  | expr e => rw [layout]; exact h (.expr e) List.mem_cons_self depth

theorem ForTarget.spaced {t : ForTarget} (h : ∀ m ∈ (Node.forTarget t).parts, m.Spaced) : Inline (t.layout depth) := by
  cases t with
  | var kind p =>
    rw [layout]
    exact (Inline.keyword kind.word).between Inline.space.toNeat (h (.pattern p) List.mem_cons_self depth) rfl rfl
  | expr e =>
    rw [layout]
    exact Inline.fit (h (.expr e) List.mem_cons_self depth) _

theorem Handler.spaced {k : Handler} (h : ∀ m ∈ (Node.handler k).parts, m.Spaced) : Inline (k.layout depth) := by
  obtain ⟨span, param, body⟩ := k
  have hbody : Inline (body.layout depth) := h (.block body) (by simp [Node.parts]) depth
  cases param with
  | none =>
    rw [layout]
    exact (Inline.keyword .kwCatch).between Inline.space.toNeat hbody rfl rfl
  | some p =>
    have hp : Inline (p.layout depth) := h (.pattern p) (by simp [Node.parts]) depth
    rw [layout]
    exact ((Inline.keyword .kwCatch).between Inline.space.toNeat hp.paren rfl rfl).between Inline.space.toNeat hbody rfl rfl

theorem Case.spaced {c : Case} (h : ∀ m ∈ (Node.case c).parts, m.Spaced) : Lines (c.layout depth) := by
  obtain ⟨span, test, body⟩ := c
  have hbody : Lines (Layout.stmts (depth + 1) body) :=
    lines_stmts fun s hs => h (.stmt s) (List.mem_append_right _ (List.mem_map_of_mem hs)) _
  have hlines : ∀ {ps}, Inline ps → Lines ([.comments span.offset depth, .indent depth] ++ ps ++ sign .colon ++ newline ++
      Layout.stmts (depth + 1) body) := by
    intro ps hps
    have hhead := (((Neat.lead span.offset depth).behind hps rfl).then (Inline.sign .colon).toNeat rfl).then Inline.newline.toNeat rfl
    exact ⟨hhead.below hbody.toNeat .newline, Closed.newline.append hbody.closed⟩
  cases test with
  | none =>
    rw [layout]
    exact hlines (.keyword _)
  | some e =>
    have he : Inline (e.layout depth) := h (.expr e) (by simp [Node.parts]) depth
    rw [layout]
    exact hlines ((Inline.keyword .kwCase).between Inline.space.toNeat he rfl rfl)

theorem Layout.lines_cases {cs : List Case} (h : ∀ c ∈ cs, Lines (c.layout depth)) : Lines (Layout.cases depth cs) := by
  induction cs with
  | nil => exact ⟨.nil, nofun⟩
  | cons c cs ih =>
    obtain ⟨hc, hcs⟩ := List.forall_mem_cons.mp h
    have hrest := ih hcs
    rw [Layout.cases]
    exact ⟨hc.toNeat.below hrest.toNeat hc.closed, hc.closed.append hrest.closed⟩

theorem Layout.head_clause (sameLine : Bool) (depth : Nat) (s : Stmt) (ps : List Piece) :
    (clause sameLine depth s ps).head?.all Piece.endsOthers = true := by
  cases sameLine <;> rfl

/-- A statement that is a part of another one. -/
theorem Stmt.inline_clause {s : Stmt} (h : (Node.stmt s).Spaced) (sameLine : Bool) (depth : Nat) :
    Inline (clause sameLine depth s (s.layout (clauseDepth sameLine depth))) :=
  (h _).clause sameLine s

/-- The head of a statement: a word and what is in parentheses behind it. -/
theorem Layout.inline_head {ps : List Piece} (w : Reserved) (h : Inline ps) : Inline (keyword w ++ space ++ paren ps) :=
  (Inline.keyword w).between Inline.space.toNeat h.paren rfl rfl

/-- An expression that may be left out, behind a blank. -/
theorem Expr.inline_option {e : Option Expr} (h : ∀ m ∈ e.toList.map Node.expr, m.Spaced) (depth : Nat) :
    Inline (e.elim [] fun e => space ++ e.layout depth) := by
  cases e with
  | none => exact .nil
  | some e => exact Inline.space.behind (h (.expr e) List.mem_cons_self depth) rfl

theorem Stmt.spaced {s : Stmt} (h : ∀ m ∈ s.parts, m.Spaced) : Inline (s.layout depth) := by
  cases s with
  | expr span e =>
    rw [layout]
    exact (Inline.parenIf (h (.expr e) List.mem_cons_self depth) _).semi
  | var d =>
    rw [layout]
    exact Inline.semi (h (.decl d) List.mem_cons_self depth)
  | function fn =>
    rw [layout]
    exact (h (.function fn) List.mem_cons_self depth).1
  | ret span e site =>
    cases e with
    | none =>
      rw [layout]
      exact (Inline.keyword _).semi
    | some e =>
      have he : Inline (e.layout depth) := h (.expr e) (by simp [parts]) depth
      rw [layout]
      exact ((Inline.keyword _).between Inline.space.toNeat he rfl rfl).semi
  | ifElse span test consequent alternate =>
    obtain ⟨htest, hconsequent, halternate⟩ : (Node.expr test).Spaced ∧ (Node.stmt consequent).Spaced ∧
        ∀ m ∈ alternate.toList.map Node.stmt, m.Spaced := by
      simpa [parts] using h
    have hbranch := (inline_head .kwIf (htest depth)).then (inline_clause hconsequent (isBlock consequent) depth).toNeat
      (head_clause _ _ _ _)
    cases alternate with
    | none =>
      rw [layout, List.append_nil]
      exact hbranch
    | some s =>
      have hs := inline_clause (halternate (.stmt s) List.mem_cons_self) (isBlock s || isIf s) depth
      have helse := (Inline.keyword .kwElse).then hs.toNeat (head_clause _ _ _ _)
      have hgap : Inline (clauseGap (isBlock consequent) depth ++ _) := helse.clauseGap (isBlock consequent)
      rw [layout, List.append_assoc (clauseGap _ _)]
      exact hbranch.then hgap.toNeat (by cases isBlock consequent <;> rfl)
  | forLoop span init test update body =>
    obtain ⟨hinit, h⟩ := List.forall_mem_cons.mp h
    obtain ⟨htest, h⟩ := List.forall_mem_append.mp h
    obtain ⟨hupdate, h⟩ := List.forall_mem_append.mp h
    have hbody := h (.stmt body) List.mem_cons_self
    have hhead := ((hinit depth).between (Inline.sign .semi).toNeat (Expr.inline_option htest depth) rfl rfl).between
      (Inline.sign .semi).toNeat (Expr.inline_option hupdate depth) rfl rfl
    have hloop := (inline_head .kwFor hhead).then (inline_clause hbody (isBlock body) depth).toNeat (head_clause _ _ _ _)
    cases test <;> cases update <;> rw [layout] <;> exact hloop
  | forEach span target values e body =>
    obtain ⟨htarget, he, hbody⟩ : (Node.forTarget target).Spaced ∧ (Node.expr e).Spaced ∧ (Node.stmt body).Spaced := by
      simpa [parts] using h
    have hword : Token.Kind.Spelled (if values then .ident "of" else .reserved .kwIn) := by
      cases values
      · trivial
      · exact ⟨rfl, List.forall_mem_singleton.mpr rfl⟩
    have hhead := (htarget depth).between (Inline.spaced hword).toNeat ((he depth).fit (e := e) .assign) rfl rfl
    rw [layout]
    exact (inline_head .kwFor hhead).then (inline_clause hbody _ depth).toNeat (head_clause _ _ _ _)
  | «while» span test body =>
    obtain ⟨htest, hbody⟩ : (Node.expr test).Spaced ∧ (Node.stmt body).Spaced := by simpa [parts] using h
    rw [layout]
    exact (inline_head .kwWhile (htest depth)).then (inline_clause hbody _ depth).toNeat (head_clause _ _ _ _)
  | doWhile span body test =>
    obtain ⟨hbody, htest⟩ : (Node.stmt body).Spaced ∧ (Node.expr test).Spaced := by simpa [parts] using h
    have hdo := (Inline.keyword .kwDo).then (inline_clause hbody (isBlock body) depth).toNeat (head_clause _ _ _ _)
    have hwhile : Inline (clauseGap (isBlock body) depth ++ _) :=
      (inline_head .kwWhile (htest depth)).clauseGap (isBlock body)
    have hall := (hdo.then hwhile.toNeat (by cases isBlock body <;> rfl)).semi
    rw [layout]
    simpa only [List.append_assoc] using hall
  | switch span subject cases =>
    obtain ⟨hsubject, hcases⟩ := List.forall_mem_cons.mp h
    have hlines : Lines (Layout.cases (depth + 1) cases) :=
      lines_cases fun c hc => hcases (.case c) (List.mem_map_of_mem hc) _
    rw [layout]
    exact (inline_head .kwSwitch (hsubject depth)).between Inline.space.toNeat (hlines.braces _ _) rfl rfl
  | tryCatch span body handler finalizer =>
    obtain ⟨hbody, h⟩ := List.forall_mem_cons.mp h
    obtain ⟨hhandler, hfinalizer⟩ := List.forall_mem_append.mp h
    have htry := (Inline.keyword .kwTry).between Inline.space.toNeat (hbody depth) rfl rfl
    have hcatch : ∀ k ∈ handler, Inline (keyword .kwTry ++ space ++ body.layout depth ++ (space ++ k.layout depth)) := by
      rintro k ⟨rfl⟩
      exact htry.then (Inline.space.behind (hhandler (.handler k) List.mem_cons_self depth) rfl).toNeat rfl
    have hfinally : ∀ {ps}, Inline ps → ∀ b ∈ finalizer,
        Inline (ps ++ (space ++ keyword .kwFinally ++ space ++ b.layout depth)) := by
      rintro ps hps b ⟨rfl⟩
      exact hps.then ((Inline.space.behind (.keyword .kwFinally) rfl).between Inline.space.toNeat
        (hfinalizer (.block b) List.mem_cons_self depth) rfl rfl).toNeat rfl
    cases handler with
    | none =>
      cases finalizer with
      | none => rw [layout, List.append_nil, List.append_nil]; exact htry
      | some b => rw [layout, List.append_nil]; exact hfinally htry b rfl
    | some k =>
      cases finalizer with
      | none => rw [layout, List.append_nil]; exact hcatch k rfl
      | some b => rw [layout]; exact hfinally (hcatch k rfl) b rfl
  | throw span e =>
    rw [layout]
    exact ((Inline.keyword _).between Inline.space.toNeat (h (.expr e) List.mem_cons_self depth) rfl rfl).semi
  | «break» => rw [layout]; exact (Inline.keyword _).semi
  | «continue» => rw [layout]; exact (Inline.keyword _).semi
  | block b =>
    rw [layout]
    exact h (.block b) List.mem_cons_self depth
  | empty => rw [layout]; exact .sign _

/-- What is neat in its parts is neat. -/
theorem Node.spaced_of_parts {n : Node} (hproper : n.Proper (.of Token.Kind.Legal)) (h : ∀ m ∈ n.parts, m.Spaced) :
    n.Spaced := by
  cases n with
  | expr e => exact Expr.spaced hproper h
  | item e =>
    intro depth
    cases e with
    | spread span e =>
      have he : Inline (e.layout depth) := h (.expr e) List.mem_cons_self depth
      rw [Expr.layout]
      exact ((Inline.sign .ellipsis).behind (he.fit .assign) rfl).fit _
    | _ => exact Inline.fit (h (.expr _) List.mem_cons_self depth) _
  | key k => exact fun depth => PropKey.spaced hproper h
  | property p => exact fun depth => Property.spaced hproper h
  | function fn => exact Function.spaced hproper h
  | body b =>
    cases b with
    | block b => exact h (.block b) List.mem_cons_self
    | concise e => exact h (.expr e) List.mem_cons_self
  | block b => exact fun depth => Block.spaced h
  | stmt s => exact fun depth => Stmt.spaced h
  | decl d => exact fun depth => Decl.spaced h
  | declarator d => exact fun depth => Declarator.spaced h
  | forInit i => exact fun depth => ForInit.spaced h
  | forTarget t => exact fun depth => ForTarget.spaced h
  | case c => exact fun depth => Case.spaced h
  | handler k => exact fun depth => Handler.spaced h
  | pattern p => exact fun depth => Pattern.spaced hproper h
  | patternProp p => exact fun depth => PatternProp.spaced hproper h
  | _ => trivial

/-- The layouts of trees are neat. -/
theorem Node.Made.spaced {lo hi : Nat} {n : Node} (h : n.Made (.of Token.Kind.Legal) lo hi) : n.Spaced := by
  refine h.byParts (P := fun _ _ n => n.Spaced) (fun _ => trivial) fun _ hproper _ ih => ?_
  refine Node.spaced_of_parts hproper fun m hm => ?_
  obtain ⟨lo, hi, hspaced⟩ := ih.mem hm
  exact hspaced

end LabelWeaver
