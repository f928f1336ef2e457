import LabelWeaver.Proofs.Layout.RoundTrip

/-! Expressions of names, literals and operators are printed with the parentheses that reading them needs,
    whatever operators are nested in each other. A slash that is printed for such an expression stands behind
    an operand, so it is never taken for the start of a regular expression. -/

namespace LabelWeaver

open Layout

/-! ### Formulas -/

/-- A name that is no reserved word. -/
def Lexeme.IsName (x : String) : Prop := NameText x.toList ∧ Reserved.ofText? x = none

instance : (cs : List Char) → Decidable (NameText cs)
  | [] => isFalse id
  | c :: cs => decidable_of_iff ((Lexeme.isIdentStart c && cs.all Lexeme.isIdentPart) = true) (by simp [NameText])

instance (x : String) : Decidable (Lexeme.IsName x) := inferInstanceAs (Decidable (_ ∧ _))

/-- A text that is read as one number. -/
def Lexeme.IsNumber (x : String) : Prop :=
  ∃ lexed, Grammar.read [] x = .ok lexed ∧ lexed.tokens.map Token.kind = [.number x, .eof]

/-- An element or an argument without the dots before it. -/
def Expr.undotted : Expr → Expr
  | spread _ e => e
  | e => e

theorem Node.parts_item (e : Expr) : (Node.item e).parts = [.expr e.undotted] := by
  cases e <;> rfl

/-- Expressions of names, literals and operators. -/
inductive Expr.Formula : Expr → Prop where
  | ident {span : Span} {x : String} (hx : Lexeme.IsName x) : Formula (.ident span x)
  | this {span : Span} : Formula (.this span)
  | null {span : Span} : Formula (.null span)
  | bool {span : Span} {value : Bool} : Formula (.bool span value)
  | number {span : Span} {x : String} (hx : Lexeme.IsNumber x) : Formula (.number span x)
  | string {span : Span} {x : String} : Formula (.string span x)
  /-- Elements may be left out, and they may have dots. -/
  | array {span : Span} {elements : List (Option Expr)} (h : ∀ e, some e ∈ elements → Formula e.undotted) :
      Formula (.array span elements)
  | unary {span : Span} {op : UnaryOp} {e : Expr} (h : Formula e) : Formula (.unary span op e)
  | update {span : Span} {op : UpdateOp} {leading : Bool} {e : Expr} (h : Formula e) (he : e.isTarget = true) :
      Formula (.update span op leading e)
  | binary {span : Span} {op : BinaryOp} {e e' : Expr} (h : Formula e) (h' : Formula e') : Formula (.binary span op e e')
  | assign {span : Span} {op : AssignOp} {e e' : Expr} (h : Formula e) (he : e.isTarget = true) (h' : Formula e') :
      Formula (.assign span op e e')
  | conditional {span : Span} {e e' e₂ : Expr} (h : Formula e) (h' : Formula e') (h₂ : Formula e₂) :
      Formula (.conditional span e e' e₂)
  | call {span : Span} {e : Expr} {args : List Expr} (h : Formula e) (hargs : ∀ a ∈ args, Formula a.undotted) :
      Formula (.call span e args)
  | new {span : Span} {e : Expr} {args : List Expr} (h : Formula e) (hargs : ∀ a ∈ args, Formula a.undotted) :
      Formula (.new span e args)
  | member {span : Span} {e : Expr} {name : Name} (h : Formula e) (hname : Lexeme.IsName name.text) :
      Formula (.member span e name)
  | index {span : Span} {e e' : Expr} (h : Formula e) (h' : Formula e') : Formula (.index span e e')
  | sequence {span : Span} {items : List Expr} (hitems : 2 ≤ items.length) (h : ∀ e ∈ items, Formula e) :
      Formula (.sequence span items)

namespace Expr.Formula

variable {e : Expr}

theorem proper (h : e.Formula) : e.Proper (.of Token.Kind.Legal) := by
  cases h with
  | @ident _ x hx => exact ⟨.ident x, hx, rfl⟩
  | @number _ x hx =>
    obtain ⟨lexed, hread, hkinds⟩ := hx
    have hmem : Token.Kind.number x ∈ lexed.tokens.map Token.kind := by rw [hkinds]; exact List.mem_cons_self
    obtain ⟨t, ht, hkind⟩ := List.mem_map.mp hmem
    have hlegal := (Lexed.legal_of_read hread).tokens t ht
    rw [hkind] at hlegal
    exact hlegal
  | update _ he => exact he
  | assign _ he _ => exact he
  | @member _ _ name _ hname => exact ⟨.ident name.text, hname, rfl⟩
  | sequence hitems _ => exact hitems
  | _ => trivial

/-- Induction over formulas: what holds of the parts of a formula holds of the formula. -/
theorem byParts {P : Node → Prop} (expr : ∀ {e : Expr}, e.Formula → (∀ m ∈ e.parts, P m) → P (.expr e))
    (item : ∀ {e : Expr}, P (.expr e.undotted) → P (.item e)) (h : e.Formula) : P (.expr e) := by
  have hleaf : ∀ {e : Expr}, e.Formula → e.parts = [] → P (.expr e) := by
    intro e h hparts
    refine expr h fun m hm => ?_
    rw [hparts] at hm
    cases hm
  have hitems : ∀ {es : List Expr}, (∀ a ∈ es, P (.expr a.undotted)) → ∀ m ∈ es.map Node.item, P m := by
    intro es hes m hm
    obtain ⟨a, ha, rfl⟩ := List.mem_map.mp hm
    exact item (hes a ha)
  induction h with
  | ident hx => exact hleaf (.ident hx) rfl
  | this => exact hleaf .this rfl
  | null => exact hleaf .null rfl
  | bool => exact hleaf .bool rfl
  | number hx => exact hleaf (.number hx) rfl
  | string => exact hleaf .string rfl
  | array h ih => exact expr (.array h) (hitems fun a ha => ih a (by simpa using ha))
  | unary h ih => exact expr (.unary h) (by simpa [parts] using ih)
  | update h he ih => exact expr (.update h he) (by simpa [parts] using ih)
  | binary h h' ih ih' => exact expr (.binary h h') (by simpa [parts] using ⟨ih, ih'⟩)
  | assign h he h' ih ih' => exact expr (.assign h he h') (by simpa [parts] using ⟨ih, ih'⟩)
  | conditional h h' h₂ ih ih' ih₂ => exact expr (.conditional h h' h₂) (by simpa [parts] using ⟨ih, ih', ih₂⟩)
  | call h hargs ih ihargs => exact expr (.call h hargs) (List.forall_mem_cons.mpr ⟨ih, hitems ihargs⟩)
  | new h hargs ih ihargs => exact expr (.new h hargs) (List.forall_mem_cons.mpr ⟨ih, hitems ihargs⟩)
  | member h hname ih => exact expr (.member h hname) (by simpa [parts] using ih)
  | index h h' ih ih' => exact expr (.index h h') (by simpa [parts] using ⟨ih, ih'⟩)
  | sequence hitems h ih => exact expr (.sequence hitems h) (by simpa [parts] using ih)

/-- No return statement stands in a formula, so none is numbered. -/
theorem made (h : e.Formula) : (Node.expr e).Made (.of Token.Kind.Legal) 0 0 := by
  refine h.byParts (P := fun n => n.Made (.of Token.Kind.Legal) 0 0) (fun h hparts => ?_) fun h => ?_
  · exact .node rfl h.proper (.still hparts)
  · refine .node rfl trivial ?_
    rw [Node.parts_item]
    exact run_singleton_iff.mpr h

theorem clearHead (h : e.Formula) : (Node.expr e).All Node.ClearHead := by
  refine h.byParts (P := fun n => n.All Node.ClearHead) (fun _ hparts => ?_) fun h => ?_
  · refine Node.all_iff.mpr ⟨trivial, fun m hm => ?_⟩
    rcases List.mem_append.mp hm with hm | hm
    · exact hparts m hm
    · cases hm
  · refine Node.all_iff.mpr ⟨trivial, fun m hm => ?_⟩
    rcases List.mem_append.mp hm with hm | hm
    · rw [Node.parts_item, List.mem_singleton] at hm
      rw [hm]
      exact h
    · cases hm

end Expr.Formula

/-! ### Slashes behind operands -/

/-- The slashes of the text stand where they have their meaning, whatever is written before the text. -/
def Layout.Steady (ks : Text) : Prop := ∀ before last, SlashesStand before last ks

/-- Every slash of the text divides, and so does a slash behind the text. -/
structure Layout.Operand (ks : Text) : Prop where
  steady : Steady ks
  ends : ∃ init k, ks = init ++ [some k] ∧ ∀ before, Token.regexAllowed before (some k) = false

namespace Layout

variable {ks ks' : Text} {k : Token.Kind}

theorem SlashesStand.append {before last : Option Token.Kind} (h : SlashesStand before last ks) (h' : Steady ks') :
    SlashesStand before last (ks ++ ks') := by
  induction ks generalizing before last with
  | nil => exact h' before last
  | cons k ks ih =>
    cases k with
    | none => exact ih h
    | some k => exact ⟨h.1, ih h.2⟩

theorem Steady.nil : Steady [] := fun _ _ => trivial

theorem Steady.append (h : Steady ks) (h' : Steady ks') : Steady (ks ++ ks') :=
  fun before last => (h before last).append h'

theorem Steady.token (hk : k.isSlash = false) : Steady [some k] :=
  fun _ _ => ⟨fun h => absurd (hk.symm.trans h) Bool.false_ne_true, trivial⟩

theorem Steady.lead (h : Steady ks) (hk : k.isSlash = false) : Steady (some k :: ks) := (Steady.token hk).append h

/-- A slash behind an operand divides. -/
theorem SlashesStand.divide {before last : Option Token.Kind} {k' : Token.Kind}
    (h : SlashesStand before last (ks ++ [some k])) (hk : ∀ before, Token.regexAllowed before (some k) = false)
    (hk' : k'.isRegex = false) : SlashesStand before last (ks ++ [some k] ++ [some k']) := by
  induction ks generalizing before last with
  | nil => exact ⟨h.1, fun _ => (hk last).trans hk'.symm, trivial⟩
  | cons x ks ih =>
    cases x with
    | none => exact ih h
    | some x => exact ⟨h.1, ih h.2⟩

namespace Operand

theorem token (hk : k.isSlash = false) (hends : ∀ before, Token.regexAllowed before (some k) = false) :
    Operand [some k] :=
  ⟨.token hk, [], k, rfl, hends⟩

/-- Any sign may stand behind an operand. -/
theorem sign (h : Operand ks) (p : Punct) : Steady (ks ++ [some (.punct p)]) := by
  obtain ⟨init, k, rfl, hk⟩ := h.ends
  exact fun before last => (h.steady before last).divide hk rfl

/-- What ends with an operand. -/
theorem behind (h : Steady ks) (h' : Operand ks') : Operand (ks ++ ks') := by
  obtain ⟨init, k, rfl, hk⟩ := h'.ends
  exact ⟨h.append h'.steady, ks ++ init, k, (List.append_assoc _ _ _).symm, hk⟩

theorem lead (hk : k.isSlash = false) (h : Operand ks) : Operand (some k :: ks) := .behind (.token hk) h

/-- Two operands with an operator between them. -/
theorem between (h : Operand ks) (hk : k.isRegex = false) (h' : Operand ks') : Operand (ks ++ some k :: ks') := by
  have hsteady : Steady (ks ++ [some k]) := by
    obtain ⟨init, k, rfl, hends⟩ := h.ends
    exact fun before last => (h.steady before last).divide hends hk
  rw [← List.singleton_append, ← List.append_assoc]
  exact .behind hsteady h'

/-- Texts in parentheses and in brackets. -/
theorem enclosed {opening closing : Punct} (hopening : (Token.Kind.punct opening).isSlash = false) (h : Steady ks)
    (hclosing : (Token.Kind.punct closing).isSlash = false)
    (hends : ∀ before, Token.regexAllowed before (some (.punct closing)) = false) :
    Operand (some (.punct opening) :: (ks ++ [some (.punct closing)])) :=
  .lead hopening (.behind h (.token hclosing hends))

theorem paren (h : Operand ks) : Operand (some (.punct .lparen) :: (ks ++ [some (.punct .rparen)])) :=
  .enclosed rfl h.steady rfl fun _ => rfl

end Operand

theorem steady_commaTexts {texts : List Text} (h : ∀ ks ∈ texts, Operand ks) : Steady (commaTexts texts) := by
  induction texts with
  | nil => exact .nil
  | cons ks texts ih =>
    obtain ⟨hks, htexts⟩ := List.forall_mem_cons.mp h
    cases texts with
    | nil => exact hks.steady
    | cons ks' texts =>
      rw [commaTexts_cons_cons, ← List.singleton_append, ← List.append_assoc]
      exact (hks.sign .comma).append (ih htexts)

theorem operand_commaTexts {texts : List Text} (hne : texts ≠ []) (h : ∀ ks ∈ texts, Operand ks) :
    Operand (commaTexts texts) := by
  induction texts with
  | nil => exact absurd rfl hne
  | cons ks texts ih =>
    obtain ⟨hks, htexts⟩ := List.forall_mem_cons.mp h
    cases texts with
    | nil => exact hks
    | cons ks' texts =>
      rw [commaTexts_cons_cons]
      exact hks.between rfl (ih (List.cons_ne_nil _ _) htexts)

theorem steady_elementTexts {texts : List (Option Text)} (h : ∀ ks, some ks ∈ texts → Operand ks) :
    Steady (elementTexts texts) := by
  induction texts with
  | nil => exact .nil
  | cons x texts ih =>
    have htexts := ih fun ks hks => h ks (List.mem_cons_of_mem _ hks)
    cases x with
    | none => exact htexts.lead rfl
    | some ks =>
      have hks := h ks List.mem_cons_self
      cases texts with
      | nil => exact hks.steady
      | cons x texts =>
        rw [elementTexts_some_cons, ← List.singleton_append, ← List.append_assoc]
        exact (hks.sign .comma).append htexts

end Layout

/-! ### Layouts of formulas -/

section
variable {e : Expr} {depth : Nat}

theorem Layout.Operand.fit (h : Operand (text (e.layout depth))) (least : Prec) :
    Operand (text (Layout.fit least e (e.layout depth))) := by
  by_cases hlt : e.prec < least
  · rw [fit_of_lt hlt, text_paren]
    exact h.paren
  · rwa [fit_of_le (Nat.not_lt.mp hlt)]

theorem Layout.Operand.orParen (h : Operand (text (e.layout depth))) (needed : Bool) (least : Prec) :
    Operand (text (if needed then Layout.paren (e.layout depth) else Layout.fit least e (e.layout depth))) := by
  cases needed with
  | true =>
    rw [if_pos rfl, text_paren]
    exact h.paren
  | false => exact h.fit least

/-- Dots start no operand of a division. -/
theorem Layout.Operand.item (h : Operand (text (e.undotted.layout depth))) :
    Operand (text (Layout.fit .assign e (e.layout depth))) := by
  cases e with
  | spread span e =>
    have hfits : .assign ≤ (Expr.spread span e).prec := Nat.le_refl _
    rw [fit_of_le hfits, Expr.text_spread]
    exact .lead rfl (h.fit .assign)
  | _ => exact h.fit .assign

theorem Layout.operand_argTexts {args : List Expr} (h : ∀ a ∈ args, Operand (text (a.undotted.layout depth))) :
    Operand (argTexts (args.map fun e => text (Layout.fit .assign e (e.layout depth)))) := by
  refine .enclosed rfl (steady_commaTexts fun ks hks => ?_) rfl fun _ => rfl
  obtain ⟨a, ha, rfl⟩ := List.mem_map.mp hks
  exact (h a ha).item

/-- The slashes of a formula divide. -/
theorem Expr.Formula.operand (h : e.Formula) (depth : Nat) : Operand (text (e.layout depth)) := by
  have hword : ∀ {x}, Lexeme.IsName x → Operand [some (Lexeme.word x)] := by
    intro x hx
    rw [Lexeme.word_of_name ⟨.ident x, hx, rfl⟩]
    exact .token rfl fun _ => rfl
  induction h with
  | @ident _ x hx =>
    have htext : ∀ span, text ((Expr.ident span x).layout depth) = [some (Lexeme.word x)] := fun span => by
      simp [Expr.layout]
    rw [htext]
    exact hword hx
  | this => exact .token rfl fun _ => rfl
  | null => exact .token rfl fun _ => rfl
  | @bool _ value => cases value <;> exact .token rfl fun _ => rfl
  | number => exact .token rfl fun _ => rfl
  | string => exact .token rfl fun _ => rfl
  | array h ih =>
    rw [text_array]
    refine .enclosed rfl (steady_elementTexts fun ks hks => ?_) rfl fun _ => rfl
    obtain ⟨a, ha, hks⟩ := List.mem_map.mp hks
    obtain ⟨a, rfl, rfl⟩ := Option.map_eq_some_iff.mp hks
    exact (ih a ha).item
  | @unary _ op _ h ih =>
    rw [text_unary]
    exact .lead (by cases op <;> rfl) (ih.orParen _ _)
  | @update _ op leading _ h he ih =>
    cases leading with
    | true =>
      rw [text_leadingUpdate]
      exact .lead (by cases op <;> rfl) (ih.fit _)
    | false =>
      have hends : Operand [some (.punct op.sign)] := by cases op <;> exact .token rfl fun _ => rfl
      rw [text_trailingUpdate]
      exact .behind (ih.fit _).steady hends
  | @binary _ op _ _ h h' ih ih' =>
    rw [text_binary]
    exact (ih.fit _).between (by cases op <;> rfl) (ih'.fit _)
  | @assign _ op _ _ h he h' ih ih' =>
    rw [text_assign]
    exact (ih.fit _).between rfl (ih'.fit _)
  | conditional h h' h₂ ih ih' ih₂ =>
    rw [text_conditional]
    exact (ih.fit _).between rfl ((ih'.fit _).between rfl (ih₂.fit _))
  | call h hargs ih ihargs =>
    rw [text_call]
    exact .behind (ih.fit _).steady (operand_argTexts ihargs)
  | new h hargs ih ihargs =>
    rw [text_new]
    exact .lead rfl (.behind (ih.orParen _ _).steady (operand_argTexts ihargs))
  | member h hname ih =>
    rw [text_member]
    exact (ih.orParen _ _).between rfl (hword hname)
  | index h h' ih ih' =>
    rw [text_index]
    exact .behind (ih.orParen _ _).steady (.enclosed rfl ih'.steady rfl fun _ => rfl)
  | @sequence _ items hitems h ih =>
    have hne : items ≠ [] := List.ne_nil_of_length_pos (Nat.lt_of_lt_of_le Nat.zero_lt_two hitems)
    rw [text_sequence]
    refine operand_commaTexts (by simpa using hne) fun ks hks => ?_
    obtain ⟨a, ha, rfl⟩ := List.mem_map.mp hks
    exact (ih a ha).fit _

end

/-! ### Printed formulas -/

/-- What can be read as an expression is read as one with nothing behind it. -/
theorem parse_wholeExpr {level : Prec} {exposes calls : Bool} {hi : Nat} {ks : Text} {e : Expr} {tokens : List Token}
    (h : Readable level exposes calls 0 hi ks e) (hfits : Fits false tokens ks) :
    ∃ e', Grammar.parse [] Grammar.wholeExpr tokens = .ok e' ∧ e'.bare = e := by
  have hc : (Cursor.start tokens).Ready false false 0 (ks ++ []) := ⟨by rwa [List.append_nil], rfl, rfl⟩
  have hbound : count (ks ++ []) < (Cursor.start tokens).rest.length + 1 := by
    rw [hc.length]
    omega
  have hreads : Calling false (Ends false .sequence) 0 hi ks Rules.expr (·.bare = e) :=
    (h.expr (absurd · Bool.false_ne_true)).calling fun _ _ => rfl
  have hgives : Gives (Cursor.start tokens)
      (Grammar.wholeExpr (Grammar.rules [] ((Cursor.start tokens).rest.length + 1))) fun e' _ => e'.bare = e := by
    refine (hreads hbound (Nat.le_refl _) (ends_of_none rfl) hc).andThen fun e' c' h' => ?_
    exact .isAt h'.1 (.pure h'.2)
  obtain ⟨e', c', hok, hbare⟩ := hgives
  refine ⟨e', ?_, hbare⟩
  rw [Grammar.parse, Grammar.run, hok]

end LabelWeaver
