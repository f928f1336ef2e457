import LabelWeaver.Proofs.Layout.Readable.Statements
import LabelWeaver.Proofs.Grammar.Recovers.Halts

/-! Layouts that cannot be read in the head of a loop: those that write the operator `in` outside brackets.
    With the layouts that can be read, this tells exactly which loops survive being printed. -/

namespace LabelWeaver

open Layout

/-- If the layout of the node exposes `in`, readers get stuck at it in the head of a loop. -/
def Node.Halting (lo : Nat) : Node → Prop
  | expr e => e.exposesIn = true → ∀ depth, LabelWeaver.Halting e.prec lo (text (e.layout depth))
  | key k => k.exposesIn = true → ∀ depth, CallHalts Cursor.Never lo (text (k.layout depth)) Grammar.propKey
  | pattern p => p.exposesIn = true → ∀ depth, HaltingPattern lo (text (p.layout depth)) p.bare
  | patternProp p => p.exposesIn = true → ∀ depth, CallHalts Cursor.AtIn lo (text (p.layout depth)) Grammar.patternProp
  | declarator d => d.exposesIn = true → ∀ depth, CallHalts Cursor.AtIn lo (text (d.layout depth)) Grammar.declarator
  | decl d => d.exposesIn = true → ∀ depth bound,
      Halts Cursor.AtIn bound lo (text (d.layout depth)) (Grammar.declaration (Grammar.rules [] bound))
  | _ => True

/-- How the layout of the node is read, in the head of a loop and elsewhere. -/
def Node.Told (lo hi : Nat) (n : Node) : Prop := n.Recovered lo hi ∧ n.Halting lo

section
variable {lo mid hi : Nat}

/-! ### Expressions -/

theorem Expr.halting_fit {e : Expr} {least : Prec} (h : (Node.expr e).Halting lo)
    (hin : (e.fits least && e.exposesIn) = true) (depth : Nat) :
    Halting least lo (text (fit least e (e.layout depth))) := by
  obtain ⟨hfits, hexposes⟩ := Bool.and_eq_true_iff.mp hin
  have hle := le_of_fits hfits
  have hloose : ¬e.prec < least := Nat.not_lt.mpr hle
  rw [fit, decide_eq_false hloose, parenIf, if_neg Bool.false_ne_true]
  exact (h hexposes depth).weaken hle

theorem Expr.halting_binary {span : Span} {op : BinaryOp} {left right : Expr} (hleft : (Node.expr left).Told lo mid)
    (hright : (Node.expr right).Told mid hi) : (Node.expr (.binary span op left right)).Halting lo := by
  intro hin depth
  have hlayout : text ((Expr.binary span op left right).layout depth) =
      text (fit (if op = .pow then .update else op.prec) left (left.layout depth)) ++ some op.token ::
        text (fit op.rightPrec right (right.layout depth)) := by
    have htoken : op.token.asRead = op.token := by cases op <;> rfl
    simp [Expr.layout, htoken]
  rw [hlayout, Expr.prec]
  cases hexposes : left.fits (if op = .pow then .update else op.prec) && left.exposesIn with
  | true => exact (halting_fit hleft.2 hexposes depth).append (by cases op <;> decide) _
  | false =>
    have hread := hleft.1.fit depth (if op = .pow then .update else op.prec)
    rw [hexposes] at hread
    by_cases hop : op = .in
    · subst hop
      exact .inOp hread
    · have hright' : (right.fits op.rightPrec && right.exposesIn) = true := by
        simpa [Expr.exposesIn, hexposes, hop] using hin
      exact .right op hop rfl hread (halting_fit hright.2 hright' depth)

theorem Expr.halting_conditional {span : Span} {test consequent alternate : Expr} {mid' : Nat}
    (htest : (Node.expr test).Told lo mid) (hconsequent : (Node.expr consequent).Told mid mid')
    (halternate : (Node.expr alternate).Told mid' hi) :
    (Node.expr (.conditional span test consequent alternate)).Halting lo := by
  intro hin depth
  have hlayout : text ((Expr.conditional span test consequent alternate).layout depth) =
      text (fit .or test (test.layout depth)) ++ some (Token.Kind.punct .question) ::
        (text (fit .assign consequent (consequent.layout depth)) ++ some (Token.Kind.punct .colon) ::
          text (fit .assign alternate (alternate.layout depth))) := by simp [Expr.layout]
  rw [hlayout, Expr.prec]
  cases hexposes : test.fits .or && test.exposesIn with
  | true => exact (halting_fit htest.2 hexposes depth).append (by decide) _
  | false =>
    have hread := htest.1.fit depth .or
    rw [hexposes] at hread
    have halternate' : (alternate.fits .assign && alternate.exposesIn) = true := by
      simpa [Expr.exposesIn, hexposes] using hin
    exact .alternate hread (hconsequent.1.fit depth .assign) (halting_fit halternate.2 halternate' depth)

theorem Expr.halting_sequence {span : Span} {items : List Expr} (h : Run (fun lo hi e => (Node.expr e).Told lo hi) lo hi items) :
    (Node.expr (.sequence span items)).Halting lo := by
  intro hin depth
  rw [Expr.exposesIn, itemsExposeIn_eq] at hin
  have hlayout : text ((Expr.sequence span items).layout depth) =
      commaTexts (items.map fun e => text (fit .assign e (e.layout depth))) := by
    simp [Expr.layout, args_eq, text_commaSep_map]
  rw [hlayout, Expr.prec]
  cases items with
  | nil => cases hin
  | cons e es =>
    obtain ⟨mid, he, hes⟩ := run_cons_iff.mp h
    cases hexposes : e.valueExposesIn with
    | true =>
      have hfirst := halting_fit he.2 hexposes depth
      cases es with
      | nil => exact hfirst.weaken (by decide)
      | cons e' es => exact hfirst.append (by decide) _
    | false =>
      have hread := he.1.value depth
      rw [hexposes] at hread
      rw [List.any_cons, hexposes, Bool.false_or] at hin
      refine .sequence (f := Expr.bare) Expr.valueExposesIn (fun e => e.fits .assign && e.containsCall) hread (hes.imp fun e _ _ _ he => ?_) hin
      exact ⟨he.1.value depth, fun hin => halting_fit he.2 hin depth⟩

theorem Expr.halting {e : Expr} (hproper : e.Proper (.of Token.Kind.Legal)) (h : Run Node.Told lo hi e.parts) :
    (Node.expr e).Halting lo := by
  cases e with
  | binary span op left right =>
    obtain ⟨mid, hleft, h⟩ := run_cons_iff.mp h
    exact halting_binary hleft (run_singleton_iff.mp h)
  | assign span op target value =>
    obtain ⟨mid, htarget, h⟩ := run_cons_iff.mp h
    have hvalue := run_singleton_iff.mp h
    have htarget' : target.isTarget = true := hproper
    intro hin depth
    have hlayout : text ((Expr.assign span op target value).layout depth) =
        text (fit .call target (target.layout depth)) ++ some (Token.Kind.punct op.sign) ::
          text (fit .assign value (value.layout depth)) := by simp [Expr.layout]
    have hread := htarget.1.fit depth .call
    rw [exposesIn_of_call_le (call_le_prec htarget'), Bool.and_false] at hread
    rw [hlayout, Expr.prec]
    rw [Expr.exposesIn] at hin
    exact .assigned op hread (by rw [isTarget_bare, htarget']) (halting_fit hvalue.2 hin depth)
  | conditional span test consequent alternate =>
    obtain ⟨mid, htest, h⟩ := run_cons_iff.mp h
    obtain ⟨mid', hconsequent, h⟩ := run_cons_iff.mp h
    exact halting_conditional htest hconsequent (run_singleton_iff.mp h)
  | sequence span items => exact halting_sequence (run_map_iff.mp h)
  | _ =>
    intro hin
    simp [Expr.exposesIn] at hin

/-! ### Patterns -/

theorem PropKey.halting {k : PropKey} (h : Run Node.Told lo hi (Node.key k).parts) : (Node.key k).Halting lo := by
  intro hin depth
  cases k with
  | computed e =>
    have he := run_singleton_iff.mp h
    have hlayout : text ((PropKey.computed e).layout depth) = some (.punct .lbracket) ::
        (text (fit .assign e (e.layout depth)) ++ [some (Token.Kind.punct .rbracket)]) := by simp [PropKey.layout]
    rw [hlayout]
    exact .computed (Expr.halting_fit he.2 hin depth)
  | _ => cases hin

theorem Pattern.halting {p : Pattern} (hproper : p.Proper (.of Token.Kind.Legal)) (h : Run Node.Told lo hi p.parts) :
    (Node.pattern p).Halting lo := by
  intro hin depth
  cases p with
  | name => cases hin
  | this => cases hin
  | array span elements =>
    rw [Pattern.exposesIn, elementsExposeIn_eq] at hin
    have hrun : Run (Maybe fun lo hi p => (Node.pattern p).Told lo hi) lo hi elements := h.maybe
    rw [Pattern.layout, patternElements_eq, text_brackets]
    refine .array (f := Pattern.bare) Pattern.exposesIn (hrun.imp fun p _ _ _ hp => ?_) hin _
    cases p with
    | none => exact hp
    | some p => exact ⟨hp.1.readable depth, fun hin => hp.2 hin depth⟩
  | object span properties =>
    rw [Pattern.exposesIn, propertiesExposeIn_eq] at hin
    have hrun := run_map_iff.mp h
    have hlayout : text ((Pattern.object span properties).layout depth) = some (.punct .lbrace) ::
        (commaTexts (properties.map fun p => text (p.layout depth)) ++ [some (Token.Kind.punct .rbrace)]) := by
      cases properties with
      | nil => rfl
      | cons p ps =>
        rw [Pattern.layout, patternProps_eq]
        · simp [text_commaSep, Function.comp_def]
        · exact List.cons_ne_nil p ps
    rw [hlayout]
    refine .object (f := PatternProp.bare) PatternProp.exposesIn (hrun.imp fun p _ _ _ hp => ?_) hin _
    exact ⟨hp.1.readable depth, fun hin => hp.2 hin depth⟩
  | withDefault span target e =>
    obtain ⟨mid, htarget, h⟩ := run_cons_iff.mp h
    have he := run_singleton_iff.mp h
    have hbinding : target.bare.isBinding = true := by rw [target.isBinding_bare]; exact hproper
    have hlayout : text ((Pattern.withDefault span target e).layout depth) = text (target.layout depth) ++
        some (Token.Kind.punct .eq) :: text (fit .assign e (e.layout depth)) := by simp [Pattern.layout]
    rw [hlayout]
    cases hexposes : target.exposesIn with
    | true => exact (htarget.2 hexposes depth).target hbinding _
    | false =>
      have hread := htarget.1.readable depth
      rw [hexposes] at hread
      rw [Pattern.exposesIn, hexposes, Bool.false_or] at hin
      exact .value hread hbinding (Expr.halting_fit he.2 hin depth) _
  | rest span target =>
    have htarget := run_singleton_iff.mp h
    have hlayout : text ((Pattern.rest span target).layout depth) = some (.punct .ellipsis) ::
        text (target.layout depth) := by simp [Pattern.layout]
    rw [hlayout]
    exact (htarget.2 hin depth).rest (by rw [target.isBinding_bare]; exact hproper)

theorem PatternProp.halting {p : PatternProp} (hproper : (Node.patternProp p).Proper (.of Token.Kind.Legal))
    (h : Run Node.Told lo hi (Node.patternProp p).parts) : (Node.patternProp p).Halting lo := by
  intro hin depth
  cases p with
  | keyValue key value =>
    obtain ⟨mid, hkey, h⟩ := run_cons_iff.mp h
    have hvalue := run_singleton_iff.mp h
    have hlayout : text ((PatternProp.keyValue key value).layout depth) = text (key.layout depth) ++
        some (Token.Kind.punct .colon) :: text (value.layout depth) := by simp [PatternProp.layout]
    rw [hlayout]
    cases hexposes : key.exposesIn with
    | true => exact .patternKey (hkey.1 depth) (hkey.2 hexposes depth)
    | false =>
      have hread := hkey.1 depth
      rw [hexposes] at hread
      rw [PatternProp.exposesIn, hexposes, Bool.false_or] at hin
      exact .patternValue hread (hvalue.2 hin depth) (by rw [value.isRest_bare]; exact hproper)
  | shorthand b e =>
    cases e with
    | none => cases hin
    | some e =>
      obtain ⟨span, name, demand⟩ := b
      obtain ⟨mid, ⟨⟨rfl, -⟩, -⟩, h⟩ := run_cons_iff.mp h
      have he := run_singleton_iff.mp h
      have hlayout : text ((PatternProp.shorthand ⟨span, name, demand⟩ (some e)).layout depth) =
          some (Lexeme.word name.text) :: some (.punct .eq) :: text (fit .assign e (e.layout depth)) := by
        simp [PatternProp.layout]
      rw [hlayout]
      exact .shorthand (Lexeme.propertyText?_word name.text) (Expr.halting_fit he.2 hin depth)
  | rest target =>
    have htarget := run_singleton_iff.mp h
    rw [PatternProp.layout]
    exact .patternRest (htarget.1.readable depth) (by rw [target.isRest_bare]; exact hproper) (htarget.2 hin depth)

/-! ### Declarations -/

theorem Declarator.halting {d : Declarator} (hproper : d.target.isDeclared = true)
    (h : Run Node.Told lo hi (Node.declarator d).parts) : (Node.declarator d).Halting lo := by
  intro hin depth
  obtain ⟨span, target, init⟩ := d
  obtain ⟨mid, htarget, h⟩ := run_cons_iff.mp h
  have hbinding : target.bare.isBinding = true := by
    rw [target.isBinding_bare]
    exact (Pattern.isDeclared_iff.mp hproper).1
  cases hexposes : target.exposesIn with
  | true =>
    have hhalts := (htarget.2 hexposes depth)
    obtain ⟨ks, hlayout⟩ : ∃ ks, text ((Declarator.mk span target init).layout depth) =
        text (target.layout depth) ++ ks := by
      cases init with
      | none => exact ⟨[], by rw [Declarator.layout, List.append_nil]⟩
      | some e => exact ⟨some (.punct .eq) :: text (fit .assign e (e.layout depth)), by simp [Declarator.layout]⟩
    rw [hlayout]
    exact fun _ _ hm => (CallHalts.declTarget hhalts hbinding hm).of_never
  | false =>
    cases init with
    | none => simp [Declarator.exposesIn, hexposes] at hin
    | some e =>
      have he := run_singleton_iff.mp h
      have hread := htarget.1.readable depth
      rw [hexposes] at hread
      have hlayout : text ((Declarator.mk span target (some e)).layout depth) = text (target.layout depth) ++
          some (Token.Kind.punct .eq) :: text (fit .assign e (e.layout depth)) := by simp [Declarator.layout]
      rw [hlayout]
      have hin : e.valueExposesIn = true := by simpa [Declarator.exposesIn, hexposes] using hin
      exact .declInit hread hbinding (Expr.halting_fit he.2 hin depth)

theorem Decl.halting {d : Decl} (h : Run Node.Told lo hi (Node.decl d).parts) : (Node.decl d).Halting lo := by
  intro hin depth bound
  obtain ⟨span, kind, decls⟩ := d
  have hlayout : text ((Decl.mk span kind decls).layout depth) = some (.reserved kind.word) ::
      commaTexts (decls.map fun d => text (d.layout depth)) := by
    simp [Decl.layout, declarators_eq, text_commaSep_map]
  rw [hlayout]
  refine .declaration (f := Declarator.bare) Declarator.exposesIn kind
    ((run_map_iff.mp h).imp fun d _ _ _ hd => ?_) hin bound
  exact ⟨hd.1 depth, fun hin => hd.2 hin depth⟩

end

/-! ### All trees -/

/-- How the layouts of the trees that the reader makes are read. -/
theorem Node.Made.told {lo hi : Nat} {n : Node} (h : n.Made (.of Token.Kind.Legal) lo hi)
    (hclear : n.All Node.ClearHead) : n.Told lo hi := by
  refine Node.Made.byParts (P := fun lo hi n => n.All Node.ClearHead → n.Told lo hi)
    (fun _ _ => ⟨⟨rfl, rfl⟩, trivial⟩) ?_ h hclear
  intro lo hi n hn hproper hmade ih hclear
  have hparts : Run Node.Told lo hi n.parts := ih.imp fun m hm _ _ htold => htold (hclear.part hm)
  refine ⟨(Node.Made.node hn hproper hmade).recovered hclear, ?_⟩
  cases n with
  | expr e => exact Expr.halting hproper hparts
  | key k => exact PropKey.halting hparts
  | pattern p => exact Pattern.halting hproper hparts
  | patternProp p => exact PatternProp.halting hproper hparts
  | declarator d => exact Declarator.halting hproper hparts
  | decl d => exact Decl.halting hparts
  | _ => trivial

end LabelWeaver
