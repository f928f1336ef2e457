import LabelWeaver.Proofs.Grammar.Recovers.Patterns

/-! Blocks, functions of all forms, and object literals, whose methods are functions. -/

namespace LabelWeaver

open Layout Parse

/-! ### Blocks -/

/-- The token starts a statement. -/
def Token.Kind.startsStmt : Token.Kind → Bool
  | punct .semi => true
  | reserved w =>
    match w with
    | .kwVar | .kwLet | .kwConst | .kwReturn | .kwIf | .kwFor | .kwWhile | .kwDo | .kwSwitch | .kwTry | .kwThrow
    | .kwBreak | .kwContinue => true
    | w => (reserved w).startsExpr
  | k => k.startsExpr

theorem Token.Kind.ne_of_startsStmt {k k' : Token.Kind} (h : k.startsStmt = true) (hk' : k'.startsStmt = false) :
    k ≠ k' := by
  rintro rfl
  cases hk'.symm.trans h

/-- What may stand behind a statement without becoming a part of it. -/
structure Stmt.Leaves (s : Stmt) (k : Token.Kind) : Prop where
  noFinally : k ≠ .reserved .kwFinally
  noElse : s.endsOpen = true → k ≠ .reserved .kwElse

/-- No statement takes the token for a part of its own. -/
structure Token.Kind.EndsStmts (k : Token.Kind) : Prop where
  noFinally : k ≠ .reserved .kwFinally
  noElse : k ≠ .reserved .kwElse

theorem Token.Kind.EndsStmts.leaves {k : Token.Kind} (h : k.EndsStmts) (s : Stmt) : s.Leaves k :=
  ⟨h.noFinally, fun _ => h.noElse⟩

/-- The text stands for a statement. -/
structure ReadableStmt (lo hi : Nat) (ks : Text) (s : Stmt) : Prop where
  starts : ∃ k ks', ks = some k :: ks' ∧ k.startsStmt = true
  balanced : Balanced ks
  reads : Reading false s.Leaves lo hi ks (Grammar.statement []) (·.bare = s)

namespace ReadableStmt

variable {lo hi : Nat} {ks : Text} {s : Stmt}

theorem callStatement (h : ReadableStmt lo hi ks s) : Calling false s.Leaves lo hi ks Rules.statement (·.bare = s) :=
  h.reads.calling fun _ _ => rfl

theorem first_ne {k : Token.Kind} (h : ReadableStmt lo hi ks s) (hk : k.startsStmt = false) (rest : Text) :
    first (ks ++ rest) ≠ k := by
  obtain ⟨k', ks', rfl, hk'⟩ := h.starts
  exact Token.Kind.ne_of_startsStmt hk' hk

theorem count_pos (h : ReadableStmt lo hi ks s) : 0 < count ks := by
  obtain ⟨k, ks', rfl, -⟩ := h.starts
  exact Nat.succ_pos _

/-- A statement may stand behind any other one. -/
theorem endsStmts (h : ReadableStmt lo hi ks s) (rest : Text) : (first (ks ++ rest)).EndsStmts :=
  ⟨h.first_ne rfl rest, h.first_ne rfl rest⟩

end ReadableStmt

section
variable {ι : Type} {t : ι → Text} {f : ι → Stmt} {lo hi m d : Nat} {xs : List ι} {rest : Text} {line : Bool} {c : Cursor}

/-- Statements on lines of their own, up to a token that ends the list. -/
theorem Gives.statements {stop : Cursor → Bool} (stops : Token.Kind → Bool) {item : Parse Stmt}
    (hstop : ∀ {c : Cursor} {line n ks}, c.Ready line false n ks → stop c = stops (first ks))
    (hitem : ∀ {c : Cursor} {line n ks}, c.Ready line false n ks → stops (first ks) = false → first ks ≠ .eof →
      item c = (Grammar.rules [] d).statement c)
    (hfirst : ∀ k : Token.Kind, k.startsStmt = true → stops k = false)
    (hrest : stops (first rest) = true) (hends : (first rest).EndsStmts)
    (hrun : Run (fun lo hi x => ReadableStmt lo hi (t x) (f x)) lo hi xs) (hm : m < d)
    (hcount : count (lines (xs.map t) ++ none :: rest) ≤ m) (hc : c.Ready line false lo (lines (xs.map t) ++ none :: rest)) :
    Gives c (Parse.many stop item) fun ss c' =>
      c'.Ready false false hi (none :: rest) ∧ Bare.stmts ss = xs.map f := by
  have hstart : ∀ {lo hi x}, ReadableStmt lo hi (t x) (f x) → ∀ ks, stops (first (t x ++ ks)) = false ∧
      (first (t x ++ ks)).EndsStmts := by
    intro lo hi x hx ks
    obtain ⟨k, ks', hks, hk⟩ := hx.starts
    refine ⟨?_, hx.endsStmts ks⟩
    rw [hks]
    exact hfirst k hk
  refine (Gives.many (t := t) (A := fun x (s : Stmt) => s.bare = f x) hstop (fun {lo hi x} hx => ?_) (fun hx => hx.count_pos)
    hstart hrun ⟨hrest, hends⟩ hcount hc).imp fun ss c' h' => ⟨h'.1, ?_⟩
  · intro c line rest hcount hrest hc
    unfold Gives
    rw [hitem hc (hstart hx rest).1 (hx.first_ne rfl rest)]
    exact hx.callStatement hm hcount (hrest.leaves _) hc
  · rw [Bare.stmts_eq, map_eq_of_forall₂ h'.2]

/-- The text of a block; an empty one has a single place for a line to end. -/
def blockText (gap : Bool) (texts : List Text) : Text :=
  some (.punct .lbrace) :: ((if gap then [none] else []) ++ (lines texts ++ [none, some (.punct .rbrace)]))

theorem balanced_lines (hrun : Run (fun lo hi x => ReadableStmt lo hi (t x) (f x)) lo hi xs) :
    Balanced (lines (xs.map t)) := by
  refine .lines fun ks hks => ?_
  obtain ⟨x, hx, rfl⟩ := List.mem_map.mp hks
  obtain ⟨_, _, hstmt⟩ := hrun.mem hx
  exact hstmt.balanced

/-- The text stands for a block. -/
structure ReadableBlock (lo hi : Nat) (ks : Text) (b : Block) : Prop where
  starts : ∃ ks', ks = some (.punct .lbrace) :: ks'
  balanced : Balanced ks
  reads : Reading false (fun _ => True) lo hi ks Grammar.block (·.bare = b)

theorem ReadableBlock.ofStmts (gap : Bool) (hrun : Run (fun lo hi x => ReadableStmt lo hi (t x) (f x)) lo hi xs) :
    ReadableBlock lo hi (blockText gap (xs.map t)) ⟨.zero, xs.map f⟩ where
  starts := ⟨_, rfl⟩
  balanced := by
    have hlines : Balanced (lines (xs.map t) ++ [none]) := (balanced_lines hrun).append Balanced.nil.line
    cases gap with
    | false => simpa [blockText] using hlines.enclosed isPair_braces .nil
    | true => simpa [blockText] using hlines.line.enclosed isPair_braces .nil
  reads d c line rest hcount _ hc := by
    rw [blockText, List.cons_append] at hc hcount
    rw [count_some] at hcount
    refine .expect hc nofun fun _ c₁ _ h₁ => ?_
    obtain ⟨line₁, hbody⟩ : ∃ line₁, c₁.Ready line₁ false lo
        (lines (xs.map t) ++ none :: some (.punct .rbrace) :: rest) := by
      cases gap with
      | false => exact ⟨false, by simpa using h₁⟩
      | true =>
        have h₁ : c₁.Ready false false lo (none :: (lines (xs.map t) ++ none :: some (.punct .rbrace) :: rest)) := by
          simpa using h₁
        exact ⟨true, h₁.of_none⟩
    have hbound : count (lines (xs.map t) ++ none :: some (.punct .rbrace) :: rest) < d := by
      cases gap <;> simpa [Nat.succ_le_iff] using hcount
    have hstmts : Gives c₁ (many (·.isAt (.punct .rbrace)) do
        if ← isAt .eof then failHere .unclosedBlock
        (Grammar.rules [] d).statement) fun ss c' =>
          c'.Ready false false hi (none :: some (.punct .rbrace) :: rest) ∧ Bare.stmts ss = xs.map f := by
      refine Gives.statements (fun k => k.sameSort (.punct .rbrace)) (fun h => h.isAt _)
        (fun {c line n ks} hc _ heof => ?_) (fun k hk => ?_) rfl ⟨nofun, nofun⟩ hrun hbound (Nat.le_refl _) hbody
      · have hat : isAt .eof c = .ok false c := by
          rw [isAt, look, hc.isAt, Token.Kind.sameSort_eof, beq_eq_false_iff_ne.mpr heof]
        exact Parse.bind_ok hat
      · simpa using (Token.Kind.ne_of_startsStmt hk rfl : k ≠ .punct .rbrace)
    refine hstmts.andThen fun ss c₂ h₂ => .expect h₂.1.of_none nofun fun _ c₃ _ h₃ => .pure ⟨h₃, ?_⟩
    exact congrArg (Block.mk .zero) h₂.2

end

/-! ### Bodies -/

/-- The text stands for the body of a function. -/
structure ReadableBody (isArrow : Bool) (ok : Token.Kind → Prop) (lo hi : Nat) (ks : Text) (body : FunctionBody) :
    Prop where
  balanced : Balanced ks
  reads : ∀ fn : Function, fn.isArrow = isArrow → Calling false ok lo hi ks (Grammar.baseBody · fn) fun fn' =>
    ∃ body', fn' = { fn with body := body' } ∧ body'.bare = body

section
variable {exposes calls : Bool} {lo hi : Nat} {ks : Text} {e : Expr}

theorem ReadableBody.block {isArrow : Bool} {b : Block} (h : ReadableBlock lo hi ks b) :
    ReadableBody isArrow (fun _ => True) lo hi ks (.block b) where
  balanced := h.balanced
  reads fn hfn d m hm c line rest hcount hrest hc := by
    have hblock := h.reads d (Nat.le_trans hcount (Nat.le_of_lt hm)) trivial hc
    have hbrace : (first (ks ++ rest)).sameSort (.punct .lbrace) = true := by
      obtain ⟨ks', rfl⟩ := h.starts
      rfl
    refine .isAt hc ?_
    rw [hbrace, Bool.not_true, Bool.and_false]
    exact hblock.andThen fun b c₁ h₁ => .pure ⟨h₁.1, _, rfl, congrArg FunctionBody.block h₁.2⟩

theorem ReadableBody.concise (h : Readable .assign exposes calls lo hi ks e)
    (hfirst : ∀ rest, first (ks ++ rest) ≠ .punct .lbrace) :
    ReadableBody true (Ends false .assign) lo hi ks (.concise e) where
  balanced := h.balanced
  reads fn hfn d m hm c line rest hcount hrest hc := by
    refine .isAt hc ?_
    rw [Token.Kind.sameSort_punct, beq_eq_false_iff_ne.mpr (hfirst rest), hfn]
    refine (h.callAssign (b := false) nofun hm hcount hrest hc).andThen fun a c₁ h₁ => ?_
    exact .pure ⟨h₁.1, _, rfl, congrArg FunctionBody.concise h₁.2⟩

end

/-! ### Functions -/

/-- A function without annotations. -/
def Function.plain (span : Span) (name : Option Name) (isArrow : Bool) (params : List Pattern) (body : FunctionBody) :
    Function :=
  ⟨span, name, params, body, isArrow, none, none, none, [], false⟩

/-- The text of a function up to its body. -/
def headText (isArrow : Bool) (texts : List Text) : Text :=
  some (.punct .lparen) :: (commaTexts texts ++ some (Token.Kind.punct .rparen) :: if isArrow then [some (.punct .arrow)] else [])

section
variable {ι : Type} {t : ι → Text} {f : ι → Pattern} {lo mid hi : Nat} {xs : List ι} {exposes isArrow b : Bool}
  {ok : Token.Kind → Prop} {ks : Text} {body : FunctionBody}

theorem balanced_params (hrun : Run (fun lo hi x => ReadablePattern exposes lo hi (t x) (f x)) lo mid xs) :
    Balanced (commaTexts (xs.map t)) := by
  refine .commaTexts fun ks hks => ?_
  obtain ⟨x, hx, rfl⟩ := List.mem_map.mp hks
  obtain ⟨_, _, hitem⟩ := hrun.mem hx
  exact hitem.balanced

theorem balanced_headText (hrun : Run (fun lo hi x => ReadablePattern exposes lo hi (t x) (f x)) lo mid xs) :
    Balanced (headText isArrow (xs.map t)) := by
  refine .enclosed isPair_parens (balanced_params hrun) ?_
  cases isArrow with
  | false => exact .nil
  | true => exact Balanced.nil.token fun _ => rfl

/-- The parameters and the arrow behind them. -/
theorem Gives.params {d m : Nat} {c : Cursor} {line : Bool} {rest : Text} {fn : Function} {α : Type}
    {p : Function → Parse α} {Q : α → Cursor → Prop}
    (hrun : Run (fun lo hi x => ReadablePattern exposes lo hi (t x) (f x)) lo mid xs) (hm : m < d)
    (hcount : count (commaTexts (xs.map t) ++ some (Token.Kind.punct .rparen) :: rest) ≤ m)
    (hc : c.Ready line false lo (some (.punct .lparen) :: (commaTexts (xs.map t) ++ some (Token.Kind.punct .rparen) :: rest)))
    (hp : ∀ ps c', Bare.patterns ps = xs.map f → c'.Ready false false mid rest →
      Gives c' (p { fn with params := fn.params ++ ps }) Q) :
    Gives c (Grammar.params [] (Grammar.rules [] d) fn >>= p) Q := by
  refine .bind (.expect hc nofun fun _ c₁ _ h₁ => ?_)
  refine .andThen (.separated (A := fun x (p : Pattern) => p.bare = f x) (by decide)
    (fun hx => hx.item (b := false) nofun hm) (fun hx => hx.first_ne (by decide) rfl) ⟨ends_comma, ends_of_none rfl⟩ hrun
    rfl hcount h₁) fun ps c₂ h₂ => .expect h₂.1 nofun fun _ c₃ _ h₃ => .pure ?_
  refine hp ps c₃ ?_ h₃
  rw [Bare.patterns_eq, map_eq_of_forall₂ h₂.2]

theorem function_reading (start : Span) (name : Option Name)
    (hparams : Run (fun lo hi x => ReadablePattern exposes lo hi (t x) (f x)) lo mid xs)
    (hbody : ReadableBody isArrow ok mid hi ks body) :
    Reading b ok lo hi (headText isArrow (xs.map t) ++ ks) (Grammar.function [] · start name isArrow)
      (·.bare = .plain .zero (name.map Name.bare) isArrow (xs.map f) body) := by
  intro d c line rest hcount hrest hc
  rw [headText, List.cons_append, List.cons_append, List.append_assoc, List.append_assoc, List.cons_append] at hc hcount
  rw [count_some] at hcount
  have hlt := Nat.lt_of_succ_le hcount
  refine .andThen (P := fun fn c' => c'.Ready false b hi rest ∧ ∃ ps body', Bare.patterns ps = xs.map f ∧
    body'.bare = body ∧ fn = .plain start name isArrow ps body') ?_ ?_
  · refine .underNoIn hc fun c₀ h₀ => .params hparams hlt (Nat.le_refl _) h₀ fun ps c₁ hps h₁ => ?_
    have hbound : count (ks ++ rest) < d := by
      rw [count_append, count_some, count_append] at hlt
      omega
    have hfinish : ∀ c', c'.Ready false false mid (ks ++ rest) → Gives c'
        (Grammar.body [] (Grammar.rules [] d) { Function.blank start name isArrow with params := [] ++ ps }) fun fn c'' =>
          c''.Ready false false hi rest ∧ ∃ ps body', Bare.patterns ps = xs.map f ∧ body'.bare = body ∧
            fn = .plain start name isArrow ps body' := by
      intro c' h'
      refine (hbody.reads { Function.blank start name isArrow with params := [] ++ ps } rfl hbound (Nat.le_refl _) hrest
        h').imp ?_
      rintro fn c'' ⟨hc'', body', rfl, hbody'⟩
      exact ⟨hc'', ps, body', hps, hbody', rfl⟩
    cases isArrow with
    | false => exact hfinish c₁ h₁
    | true =>
      refine .look (.isAt h₁ ?_)
      rw [h₁.newlineBefore]
      exact .expect h₁ nofun fun _ c₂ _ h₂ => hfinish c₂ h₂
  · rintro fn c₁ ⟨h₁, ps, body', hps, hbody', rfl⟩
    refine .look (.pure ⟨h₁, ?_⟩)
    change Function.plain .zero (name.map Name.bare) isArrow (Bare.patterns ps) body'.bare = _
    rw [hps, hbody']

/-- The text of a function that starts with its word. -/
def functionText (name : Option String) (texts : List Text) (ks : Text) : Text :=
  some (.reserved .kwFunction) :: ((name.toList.map fun x => some (.ident x)) ++ (headText false texts ++ ks))

theorem Readable.functionExpr (name : Option String)
    (hparams : Run (fun lo hi x => ReadablePattern exposes lo hi (t x) (f x)) lo mid xs)
    (hbody : ReadableBody false (fun _ => True) mid hi ks body) :
    Readable .primary false false lo hi (functionText name (xs.map t) ks)
      (.function .zero (.plain .zero (name.map fun x => ⟨.zero, x⟩) false (xs.map f) body)) := by
  have hbalanced : Balanced (functionText name (xs.map t) ks) := by
    refine .token (fun _ => rfl) (.append ?_ ((balanced_headText hparams).append hbody.balanced))
    cases name with
    | none => exact .nil
    | some x => exact Balanced.nil.token fun _ => rfl
  refine ofAtom rfl nofun hbalanced fun {b} d c line rest hcount hrest hc => .compound hc rfl ?_
  refine .advance hc nofun fun tok c₁ _ h₁ => .look ?_
  rw [List.cons_append, count_some] at hcount
  have hfinish : ∀ (name' : Option Name) c', name'.map Name.bare = name.map (fun x => ⟨.zero, x⟩) →
      c'.Ready false b lo (headText false (xs.map t) ++ ks ++ rest) → Gives c' (do
        let fn ← Grammar.function [] (Grammar.rules [] d) tok.span name' false
        return Expr.function fn.span fn) fun a c'' => c''.Ready false b hi rest ∧
          a.bare = .function .zero (.plain .zero (name.map fun x => ⟨.zero, x⟩) false (xs.map f) body) := by
    intro name' c' hname h'
    have hbound : count (headText false (xs.map t) ++ ks ++ rest) ≤ d := by
      rw [List.append_assoc, count_append] at hcount
      omega
    refine (function_reading tok.span name' hparams hbody d hbound trivial h').andThen fun fn c₂ h₂ => .pure ⟨h₂.1, ?_⟩
    rw [← hname]
    exact congrArg (Expr.function .zero) h₂.2
  rw [h₁.isAtIdent]
  cases name with
  | none => exact hfinish none c₁ rfl h₁
  | some x =>
    refine .bind (.map ((Gives.ident h₁).imp fun name' c₂ h₂ => hfinish (some name') c₂ ?_ h₂.2))
    exact congrArg some (Name.bare_eq h₂.1)

theorem Readable.arrow (hparams : Run (fun lo hi x => ReadablePattern exposes lo hi (t x) (f x)) lo mid xs)
    (hbody : ReadableBody true (Ends false .assign) mid hi ks body) :
    Readable .assign false false lo hi (headText true (xs.map t) ++ ks)
      (.function .zero (.plain .zero none true (xs.map f) body)) := by
  have hbalanced : Balanced (headText true (xs.map t) ++ ks) := (balanced_headText hparams).append hbody.balanced
  refine ofAssign (by decide) rfl hbalanced fun {b} hb d => ?_
  have hatom : Recovers d b (Ends false .assign) lo hi (headText true (xs.map t) ++ ks)
      (Grammar.chainHead true (Grammar.rules [] d))
      (·.bare = .function .zero (.plain .zero none true (xs.map f) body)) := by
    intro c line rest hcount hrest hc
    have htext : headText true (xs.map t) ++ ks ++ rest = some (.punct .lparen) :: (commaTexts (xs.map t) ++
        some (Token.Kind.punct .rparen) :: some (.punct .arrow) :: (ks ++ rest)) := by simp [headText]
    refine .isAt hc (.compound (htext ▸ hc) rfl (.look ?_))
    rw [arrowFollows_eq_true (balanced_params hparams) (htext ▸ hc)]
    refine .look ((function_reading _ none hparams hbody d hcount hrest hc).andThen fun fn c₁ h₁ => .pure ⟨h₁.1, ?_⟩)
    exact congrArg (Expr.function .zero) h₁.2
  -- an arrow is read by the production of atoms, and nothing that binds more tightly follows it
  have hchain : Leads d b (Ends false .assign) lo hi (headText true (xs.map t) ++ ks)
      (Grammar.chain true (Grammar.rules [] d)) (Grammar.memberStep (Grammar.rules [] d) true) _ := hatom.leads
  have hunary : Recovers d b (Ends false .assign) lo hi (headText true (xs.map t) ++ ks)
      (Grammar.unary [] (Grammar.rules [] d)) _ := hchain.unary rfl fun k hk => ⟨hk, hk.any.mono (by decide)⟩
  have hbinary : Leads d b (Ends false .assign) lo hi (headText true (xs.map t) ++ ks)
      (Grammar.binary [] (Grammar.rules [] d) .sequence) (Grammar.binaryStep (Grammar.rules [] d) .sequence) _ :=
    hunary.leads
  have hconditional : Recovers d b (Ends false .assign) lo hi (headText true (xs.map t) ++ ks)
      (Grammar.conditional [] (Grammar.rules [] d)) _ :=
    hbinary.conditional fun k hk => ⟨hk, hk.any.mono (by decide)⟩
  exact hconditional.assign fun k hk => ⟨hk, hk.any⟩

end

/-! ### Object literals -/

/-- The text stands for a property of an object literal. -/
structure ReadableProperty (lo hi : Nat) (ks : Text) (p : Property) : Prop where
  starts : ∀ rest, first (ks ++ rest) ≠ .punct .rbrace
  balanced : Balanced ks
  reads : Calling false EndsProperty lo hi ks Grammar.property (·.bare = p)

section
variable {exposes exposes' calls : Bool} {lo mid hi : Nat} {k : Token.Kind} {ks ks' : Text} {x : String} {e : Expr}
  {key : PropKey}

theorem ReadableProperty.spread (h : Readable .assign exposes calls lo hi ks e) :
    ReadableProperty lo hi (some (.punct .ellipsis) :: ks) (.spread e) where
  starts _ := nofun
  balanced := h.balanced.token fun _ => rfl
  reads d m hm c line rest hcount hrest hc := by
    rw [List.cons_append, count_some] at hcount
    refine .eat hc rfl fun c₁ h₁ => ?_
    refine (h.callAssign (b := false) nofun hm (by omega) hrest.assign h₁).andThen fun a c₂ h₂ => ?_
    exact .pure ⟨h₂.1, congrArg Property.spread h₂.2⟩

/-- A key and what is behind it. -/
theorem Gives.keyed {d m : Nat} {c : Cursor} {line : Bool} {rest : Text} {α : Type} {p : Span → PropKey → Parse α}
    {q : Parse α} {Q : α → Cursor → Prop} (h : ReadableKey exposes lo mid ks key) (hm : m < d)
    (hcount : count (ks ++ rest) ≤ m) (hc : c.Ready line false lo (ks ++ rest))
    (hp : ∀ start key' c', key'.bare = key → c'.Ready false false mid rest → Gives c' (p start key') Q) :
    Gives c (do if ← Parse.eat (.punct .ellipsis) then q else p (← here) (← Grammar.propKey (Grammar.rules [] d))) Q := by
  refine .pass hc ?_ (.look ?_)
  · simpa using h.first_ne (p := .ellipsis) (by decide) rest
  · exact (h.reads (b := false) nofun hm hcount trivial hc).andThen fun key' c₁ h₁ => hp _ key' c₁ h₁.2 h₁.1

theorem ReadableProperty.keyValue (h : ReadableKey exposes lo mid ks key)
    (h' : Readable .assign exposes' calls mid hi ks' e) :
    ReadableProperty lo hi (ks ++ some (Token.Kind.punct .colon) :: ks') (.keyValue key e) where
  starts rest := by
    rw [List.append_assoc]
    exact h.first_ne (by decide) _
  balanced := h.balanced.append (h'.balanced.token fun _ => rfl)
  reads d m hm c line rest hcount hrest hc := by
    rw [List.append_assoc, List.cons_append] at hc hcount
    refine .keyed h hm hcount hc fun start key' c₁ hkey h₁ => .eat h₁ rfl fun c₂ h₂ => ?_
    rw [count_append, count_some] at hcount
    refine (h'.callAssign (b := false) nofun hm (by omega) hrest.assign h₂).andThen fun a c₃ h₃ => ?_
    exact .pure ⟨h₃.1, congrArg₂ Property.keyValue hkey h₃.2⟩

theorem ReadableProperty.shorthand (hk : k.propertyText? = some x) :
    ReadableProperty lo lo [some k] (.shorthand ⟨.zero, x⟩) where
  starts _ := ReadableKey.ne_punct_of_propertyText? hk _
  balanced := Balanced.nil.token (ReadableKey.step_of_propertyText? hk)
  reads d m hm c line rest hcount hrest hc := by
    refine .keyed (ReadableKey.name hk) hm hcount hc fun start key' c₁ hkey h₁ => ?_
    obtain ⟨name, rfl, hname⟩ := ReadablePatternProp.eq_name_of_bare hkey
    refine .pass h₁ (hrest.sameSort (by decide)) (.isAt h₁ ?_)
    rw [hrest.sameSort (by decide)]
    exact .pure ⟨h₁, congrArg Property.shorthand hname⟩

theorem ReadableProperty.method {ι : Type} {t : ι → Text} {f : ι → Pattern} {mid' : Nat} {xs : List ι}
    {body : FunctionBody} (h : ReadableKey exposes lo mid ks key)
    (hparams : Run (fun lo hi x => ReadablePattern exposes' lo hi (t x) (f x)) mid mid' xs)
    (hbody : ReadableBody false (fun _ => True) mid' hi ks' body) :
    ReadableProperty lo hi (ks ++ (headText false (xs.map t) ++ ks'))
      (.method key (.plain .zero none false (xs.map f) body)) where
  starts rest := by
    rw [List.append_assoc]
    exact h.first_ne (by decide) _
  balanced := h.balanced.append ((balanced_headText hparams).append hbody.balanced)
  reads d m hm c line rest hcount hrest hc := by
    rw [List.append_assoc] at hc hcount
    refine .keyed h hm hcount hc fun start key' c₁ hkey h₁ => .pass h₁ rfl (.isAt h₁ ?_)
    rw [count_append] at hcount
    have hfunction := (function_reading (b := false) start none hparams hbody).calling
      (q := fun r => r.function start none false) fun _ _ => rfl
    refine (hfunction hm (by omega) trivial h₁).andThen fun fn c₂ h₂ => ?_
    exact .pure ⟨h₂.1, congrArg₂ Property.method hkey h₂.2⟩

end

/-- The text of an object literal; each property is on a line of its own, and so is the closing brace. -/
def objectText (gap : Bool) (texts : List Text) : Text :=
  some (.punct .lbrace) :: (commaTexts (texts.map (none :: ·)) ++ ((if gap then [none] else []) ++ [some (Token.Kind.punct .rbrace)]))

theorem Readable.object {ι : Type} {t : ι → Text} {f : ι → Property} {lo hi : Nat} {xs : List ι} (gap : Bool)
    (hrun : Run (fun lo hi x => ReadableProperty lo hi (t x) (f x)) lo hi xs) :
    Readable .primary false false lo hi (objectText gap (xs.map t)) (.object .zero (xs.map f)) := by
  have hprops : Balanced (commaTexts (xs.map fun x => none :: t x)) := by
    refine .commaTexts fun ks hks => ?_
    obtain ⟨x, hx, rfl⟩ := List.mem_map.mp hks
    obtain ⟨_, _, hitem⟩ := hrun.mem hx
    exact hitem.balanced.line
  have hbalanced : Balanced (objectText gap (xs.map t)) := by
    rw [objectText, List.map_map, ← List.append_assoc]
    refine .enclosed isPair_braces (hprops.append ?_) .nil
    cases gap <;> exact .nil
  rw [objectText, List.map_map] at hbalanced ⊢
  refine ofAtom rfl nofun hbalanced fun {b} d c line rest hcount hrest hc => .compound hc rfl ?_
  rw [List.cons_append, List.append_assoc, List.append_assoc] at hc hcount
  rw [count_some] at hcount
  refine .expect hc nofun fun _ c₁ _ h₁ => ?_
  have hproperties : Gives c₁ (withNoIn false (separated (.punct .rbrace) (Grammar.property (Grammar.rules [] d))))
      fun ps c' => c'.Ready false b hi ((if gap then [none] else []) ++ ([some (.punct .rbrace)] ++ rest)) ∧
        List.Forall₂ (fun x (p : Property) => p.bare = f x) xs ps := by
    refine .underNoIn h₁ fun c₂ h₂ => .separated (by decide) (fun hx => (hx.reads (Nat.lt_of_succ_le hcount)).line)
      (fun hx ks => hx.starts ks) ⟨.inl rfl, .inr rfl⟩ hrun ?_ (Nat.le_refl _) h₂
    cases gap <;> rfl
  refine hproperties.andThen fun ps c₂ h₂ => ?_
  have hclose : ∃ line', c₂.Ready line' b hi (some (.punct .rbrace) :: rest) := by
    cases gap with
    | false => exact ⟨_, h₂.1⟩
    | true => exact ⟨_, h₂.1.of_none⟩
  obtain ⟨line', hclose⟩ := hclose
  refine .expect hclose nofun fun _ c₃ _ h₃ => .pure ⟨h₃, ?_⟩
  change Expr.object .zero (Bare.properties ps) = _
  rw [Bare.properties_eq, map_eq_of_forall₂ h₂.2]

end LabelWeaver
