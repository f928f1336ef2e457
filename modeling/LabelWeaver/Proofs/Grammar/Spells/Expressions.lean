import LabelWeaver.Proofs.Grammar.Recovers.Levels
import LabelWeaver.Proofs.Grammar.Spells.Basic

/-! From which tokens patterns, functions and expressions of the base language are read. -/

namespace LabelWeaver

variable {b : Place}

/-- The result is a node of this kind that is read from the place on. -/
abbrev SpellsOne {α : Type} (f : α → Node) (a b : Place) (x : α) : Prop := Spells [.node (f x)] a b

/-- The result is a function from its first bracket on, and it ends with the last token that is read. -/
def SpellsFunction (start : Span) (c : Cursor) (b : Place) (fn : Function) : Prop :=
  (∃ t ts, c.Quiet t ts ∧ SpellsOne .function ⟨t.span, ts⟩ b fn) ∧ fn.span = start.join b.prev

theorem SpellsFunction.spells {start : Span} {c : Cursor} {fn : Function} (h : SpellsFunction start c b fn) :
    SpellsOne .function c.place b fn := by
  obtain ⟨⟨t, ts, hq, h⟩, -⟩ := h
  exact .skip hq h

/-- The productions of the base language read trees from the tokens that they pass. -/
structure RulesSpell (r : Rules) : Prop where
  depth : ∃ depth, r = Grammar.rules [] depth
  statement : ∀ c, Takes c r.statement (SpellsOne .stmt c.place)
  expr : ∀ c, Takes c r.expr (SpellsOne .expr c.place)
  assign : ∀ c, Takes c r.assign (SpellsOne .expr c.place)
  binary : ∀ c least, Takes c (r.binary least) (SpellsOne .expr c.place)
  unary : ∀ c, Takes c r.unary (SpellsOne .expr c.place)
  new : ∀ c, Takes c r.new (SpellsOne .expr c.place)
  binding : ∀ c, Takes c r.binding (SpellsOne .pattern c.place)
  function : ∀ c start name isArrow, Takes c (r.function start name isArrow) (SpellsFunction start c)

/-- A node that reports no span. -/
theorem Spells.plain {n : Node} {a : Place} (h : Spells n.script a b) (hn : n.span? = none) (hran : n.Ran a.rest) :
    Spells [.node n] a b :=
  .single h (.of_none hn) hran

/-- An element of a list. -/
theorem Spells.item {e : Expr} {a : Place} (h : SpellsOne .expr a b e) : SpellsOne .item a b e := by
  cases e with
  | spread => exact .plain h.script rfl trivial
  | _ => exact .plain h rfl trivial

namespace Spelling

variable {r : Rules}

section
variable {a : Place} {c : Cursor} {e : Expr} {t : Token} {ts : List Token} (hr : RulesSpell r)

open Grammar

include hr

/-! ### Patterns -/

/-- A key; a name is a single token. -/
theorem propKey (c : Cursor) : Takes c (propKey r) fun b k => SpellsOne .key c.place b k ∧
    ∀ n, k = .name n → ∃ t ts, c.rest = t :: ts ∧ b = ⟨t.span, ts⟩ ∧ t.kind.propertyText? = some n.text := by
  refine .intro fun hc => .advance fun {t ts} hrest => ?_
  split
  · next hk => exact .pure ⟨.plain (.quiet hrest (by rw [hk]; rfl) (.nil _)) rfl trivial, nofun⟩
  · next hk => exact .pure ⟨.plain (.quiet hrest (by rw [hk]; rfl) (.nil _)) rfl trivial, nofun⟩
  · next hk =>
    refine (hr.assign _).bind fun he => .expect rfl fun hq => .pure ⟨.plain ?_ rfl trivial, nofun⟩
    exact .quiet hrest (by rw [hk]; rfl) (he.close hq)
  · split
    · next x hx =>
      refine .pure ⟨.plain (Spells.names (n := ⟨t.span, x⟩) hc hrest hx (.nil _)) rfl trivial, ?_⟩
      rintro n ⟨⟩
      exact ⟨t, ts, hrest, rfl, hx⟩
    · exact .failAt

theorem bindingElement (c : Cursor) : Takes c (bindingElement r.binding r) (SpellsOne .pattern c.place) := by
  refine (hr.binding c).bind fun hp => .eat rfl (fun hq => ?_) (.pure hp)
  exact (hr.assign _).bind fun he => .pure (.plain (hp.append (.skip hq he)) rfl trivial)

theorem restElement (c : Cursor) : Takes c (restElement r) (SpellsOne .pattern c.place) :=
  .expect rfl fun hq => (hr.binding _).bind fun hp => .pure (.plain (.skip hq hp) rfl trivial)

theorem listElement (c : Cursor) : Takes c (listElement r) (SpellsOne .pattern c.place) := by
  refine .look ?_
  split
  · exact restElement hr c
  · exact bindingElement hr c

theorem patternProp (c : Cursor) : Takes c (patternProp r) (SpellsOne .patternProp c.place) := by
  refine .intro fun hc => .look ?_
  split
  · exact (restElement hr c).bind fun hp => .pure (.plain hp rfl trivial)
  · refine (propKey hr c).bind fun {c' k} hk => .eat rfl (fun hq => ?_) ?_
    · exact (bindingElement hr _).bind fun hp => .pure (.plain (hk.1.append (.skip hq hp)) rfl trivial)
    · cases k with
      | name n =>
        obtain ⟨t, ts, hrest, hplace, hn⟩ := hk.2 n rfl
        refine .eatOptional (g := .expr) rfl (fun _ => hr.assign _) fun {c'' o} he => .pure (.plain ?_ rfl trivial)
        have hbinding : Spells [.node (.binding ⟨n.span, n, .none⟩)] c.place ⟨t.span, ts⟩ :=
          .plain (Spells.names hc hrest hn (.nil _)) rfl trivial
        rw [hplace] at he
        exact hbinding.append he
      | string => exact .failHere
      | number => exact .failHere
      | computed => exact .failHere

theorem baseBinding (c : Cursor) : Takes c (baseBinding r) (SpellsOne .pattern c.place) := by
  refine .intro fun hc => .look ?_
  split
  · refine .expect rfl fun hq => (Takes.elements (f := .pattern) (listElement hr) _).bind fun hes => ?_
    exact .expect rfl fun hq' => .pure (.plain (.skip hq (hes.close hq')) rfl trivial)
  · refine .expect rfl fun hq => (Takes.separated (f := .patternProp) (patternProp hr) _).bind fun hps => ?_
    exact .expect rfl fun hq' => .pure (.plain (.skip hq (hps.close hq')) rfl trivial)
  · refine .expectIdent fun hq hn => .pure (.plain ?_ rfl trivial)
    exact .plain (Spells.names hc hq.rest hn (.nil _)) rfl trivial

/-! ### Functions -/

theorem block (c : Cursor) : Takes c (block r) (SpellsOne .block c.place) := by
  refine .intro fun hc => .expect rfl fun {t ts} hq => (Takes.many (f := .stmt) (fun c => .look ?_) _).bind fun hs => ?_
  · split
    · exact .failHere_bind
    · exact hr.statement c
  · refine .expect rfl fun {t' ts'} hq' => .pure ?_
    have htail := hs.append (.skip hq' (.mark (t.span.join t'.span).stop (.nil _)))
    exact .single (.mark _ (.skip hq htail)) (.wordToLast hc hq.rest htail (by simp [Node.parts, -List.map_map]) rfl) trivial

theorem baseParams (c : Cursor) (fn : Function) : Takes c (baseParams r fn) fun b fn' =>
    ∃ ps, fn' = { fn with params := fn.params ++ ps } ∧
      ∃ t ts, c.Quiet t ts ∧ Spells ((ps.map .pattern).map .node) ⟨t.span, ts⟩ b := by
  refine .expect rfl fun hq => (Takes.separated (f := .pattern) (listElement hr) _).bind fun hps => ?_
  exact .expect rfl fun hq' => .pure ⟨_, rfl, _, _, hq, hps.close hq'⟩

theorem baseBody (c : Cursor) (fn : Function) : Takes c (baseBody r fn) fun b fn' =>
    ∃ body, fn' = { fn with body := body } ∧ SpellsOne .body c.place b body := by
  refine .look ?_
  split
  · exact (hr.assign c).bind fun he => .pure ⟨_, rfl, .plain he rfl trivial⟩
  · exact (block hr c).bind fun hb => .pure ⟨_, rfl, .plain hb rfl trivial⟩

theorem function (c : Cursor) (start : Span) (name : Option Name) (isArrow : Bool) :
    Takes c (function [] r start name isArrow) (SpellsFunction start c) := by
  refine Takes.bind (A := fun b fn => ∃ t ts, c.Quiet t ts ∧ Spells (Node.function fn).script ⟨t.span, ts⟩ b)
    (.withNoIn ?_) fun hf => ?_
  · refine (baseParams hr _ (.blank start name isArrow)).bind fun {c' fn} hps => ?_
    obtain ⟨ps, rfl, t, ts, hq, hps⟩ := hps
    have hfn : ∀ {c₁ : Cursor}, Spells [] c'.place c₁.place →
        Takes c₁ (Grammar.body [] r { Function.blank start name isArrow with params := [] ++ ps })
          fun b fn => ∃ t ts, c.Quiet t ts ∧ Spells (Node.function fn).script ⟨t.span, ts⟩ b := by
      intro c₁ hskip
      refine (baseBody hr c₁ _).imp ?_
      rintro b _ ⟨body, rfl, hbody⟩
      refine ⟨t, ts, ⟨hq.rest, hq.kind⟩, ?_⟩
      change Spells ((ps.map Node.pattern ++ [Node.body body]).map .node) _ b
      rw [List.map_append]
      exact hps.append (hskip.append hbody)
    split
    · refine .look (.look ?_)
      split
      · exact .failHere_bind
      · exact .expect rfl fun hq => hfn (.skip hq (.nil _))
    · exact hfn (.nil _)
  · obtain ⟨t, ts, hq, hf⟩ := hf
    exact .look (.pure ⟨⟨t, ts, hq, .plain hf rfl trivial⟩, rfl⟩)

theorem nameArrow (c : Cursor) : Takes c (nameArrow [] r) (SpellsOne .expr c.place) := by
  refine .intro fun hc => .look (.expectIdent fun {t ts n} hq hn => ?_)
  have hword : n.loopWord = [] := by
    refine if_neg fun hfor => ?_
    have hk := Token.Kind.eq_for_of_text (hfor ▸ hn) (hc.names t (by rw [Cursor.place, hq.rest]; exact List.mem_cons_self))
    have hquiet := hq.kind
    rw [hk] at hquiet
    cases hquiet
  refine Takes.bind (A := fun b fn => Spells ((Node.function fn).script) ⟨t.span, ts⟩ b) (.withNoIn ?_) fun {c' fn} hf => ?_
  · refine .expect rfl fun hq' => (baseBody hr _ _).imp ?_
    rintro b _ ⟨body, rfl, hbody⟩
    have hname : Spells [.node (.pattern (.name ⟨n.span, n, .none⟩))] ⟨t.span, ts⟩ ⟨t.span, ts⟩ := by
      refine .plain (.plain ?_ rfl trivial) rfl trivial
      change Spells (n.loopWord.map .token ++ []) _ _
      rw [hword]
      exact .nil _
    exact hname.append (.skip hq' hbody)
  · refine .look (.pure ?_)
    have hfn : Spells [.node (.function { fn with span := c.here.join c'.prev })] ⟨t.span, ts⟩ c'.place := .plain hf rfl trivial
    exact .single (.skip hq hfn) (.wordToLast hc hq.rest hfn rfl (by rw [Cursor.here_of_rest hq.rest]; rfl)) trivial

/-! ### Lists and members -/

theorem spreadOrAssign (c : Cursor) : Takes c (spreadOrAssign r) (SpellsOne .item c.place) := by
  refine .look ?_
  split
  · next hdots =>
    refine .advance fun hrest => (hr.assign _).bind fun he => .pure (.plain ?_ rfl trivial)
    exact .skip (.of_isAt hrest hdots rfl) he
  · exact (hr.assign c).imp Spells.item

theorem exprList (close : Token.Kind) (hclose : close.isSalient = false) (c : Cursor) :
    Takes c (exprList r close) fun b es => Spells ((es.map .item).map .node) c.place b := by
  refine .withNoIn ((Takes.separated (f := .item) (spreadOrAssign hr) _).bind fun hs => ?_)
  exact .expect hclose fun hq => .pure (hs.close hq)

/-- One more access to a member or one more call, behind an expression that is read from `a` on. -/
theorem memberStep (allowCall : Bool) (ha : a.Lawful) (he : SpellsOne .expr a c.place e) :
    Takes c (memberStep r allowCall e) fun b o => SpellsOne .expr a b (o.getD e) := by
  refine .eat rfl (fun hq => ?_) (.eat rfl (fun hq => ?_) ?_)
  · refine .intro fun hc => .expectPropertyName fun {t ts n} hrest hspan hn => .pure ?_
    have hname := Spells.names hc hrest hn (.nil _)
    rw [List.append_nil] at hname
    refine .single (he.append (.skip hq hname)) ?_ trivial
    refine .leftToLast ha he (.skip hq hname) ?_ (congrArg (fun s => some (e.span.join s)) hspan) rfl
    simp [Node.parts, Expr.parts]
  · refine (Takes.withNoIn (hr.expr _)).bind fun hp => .expect rfl fun hq' => .pure ?_
    have htail := Spells.skip hq (hp.close hq')
    exact .single (he.append htail) (.leftToLast ha he htail rfl rfl rfl) trivial
  · cases allowCall with
    | false => exact .pure he
    | true =>
      refine .eat rfl (fun hq => ?_) (.pure he)
      refine (exprList hr _ rfl _).bind fun hs => .look (.pure ?_)
      have htail := Spells.skip hq hs
      exact .single (he.append htail) (.leftToLast ha he htail (by simp [Node.parts, Expr.parts, -List.map_map]) rfl rfl) trivial

theorem memberTail (allowCall : Bool) (ha : a.Lawful) (he : SpellsOne .expr a c.place e) :
    Takes c (memberTail r allowCall e) (SpellsOne .expr a) :=
  .extend (A := SpellsOne .expr a) (memberStep hr allowCall ha) he

/-! ### Literals -/

theorem arrayLiteral (c : Cursor) : Takes c (arrayLiteral r) (SpellsOne .expr c.place) := by
  refine .intro fun hc => .expect rfl fun hq => Takes.bind
    (.withNoIn (.elements (f := .item) (spreadOrAssign hr) _)) fun hs => .expect rfl fun hq' => .pure ?_
  have htail := hs.close hq'
  exact .single (.skip hq htail) (.wordToLast hc hq.rest htail (by simp [Node.parts, Expr.parts, -List.map_map]) rfl) trivial

theorem property (c : Cursor) : Takes c (property r) (SpellsOne .property c.place) := by
  refine .intro fun hc => .eat rfl (fun hq => ?_) ?_
  · exact (hr.assign _).bind fun he => .pure (.plain (.skip hq he) rfl trivial)
  · refine .look ((propKey hr c).bind fun {c' k} hk => .eat rfl (fun hq => ?_) (.look ?_))
    · exact (hr.assign _).bind fun he => .pure (.plain (hk.1.append (.skip hq he)) rfl trivial)
    · split
      · exact (hr.function _ _ none false).bind fun hf => .pure (.plain (hk.1.append hf.spells) rfl trivial)
      · cases k with
        | name n =>
          obtain ⟨t, ts, hrest, hplace, hn⟩ := hk.2 n rfl
          refine .pure (.plain ?_ rfl trivial)
          rw [hplace]
          exact Spells.names hc hrest hn (.nil _)
        | string => exact .failHere
        | number => exact .failHere
        | computed => exact .failHere

theorem objectLiteral (c : Cursor) : Takes c (objectLiteral r) (SpellsOne .expr c.place) := by
  refine .intro fun hc => .expect rfl fun hq => Takes.bind
    (.withNoIn (.separated (f := .property) (property hr) _)) fun hs => .expect rfl fun hq' => .pure ?_
  have htail := hs.close hq'
  exact .single (.skip hq htail) (.wordToLast hc hq.rest htail (by simp [Node.parts, Expr.parts, -List.map_map]) rfl) trivial

theorem parenthesized (c : Cursor) (hopen : c.isAt (.punct .lparen) = true) :
    Takes c (parenthesized [] r) (SpellsOne .expr c.place) := by
  refine .intro fun hc => .look ?_
  split
  · refine .look ((function hr c _ none true).bind fun {c' fn} hf => .pure ?_)
    obtain ⟨⟨t, ts, hq, hfn⟩, hspan⟩ := hf
    rw [Cursor.here_of_rest hq.rest] at hspan
    exact .single (.skip hq hfn) (.wordToLast hc hq.rest hfn rfl (congrArg some hspan)) trivial
  · refine .advance fun {t ts} hrest => (Takes.withNoIn (hr.expr _)).bind fun he => ?_
    exact .expect rfl fun hq' => .pure (.skip (.of_isAt hrest hopen rfl) (he.close hq'))

theorem functionExpr (c : Cursor) (hword : c.isAt (.reserved .kwFunction) = true) :
    Takes c (functionExpr [] r) (SpellsOne .expr c.place) := by
  refine .intro fun hc => .advance fun {t ts} hrest => .look ?_
  refine .either (A := fun b _ => Spells [] ⟨t.span, ts⟩ b) (fun _ => ?_) (fun _ => .pure (.nil _)) fun {c' name} hname => ?_
  · rw [map_eq_pure_bind]
    exact .expectIdent fun hq _ => .pure (.skip hq (.nil _))
  · refine (function hr c' _ name false).bind fun hf => .pure ?_
    have htail := hname.append hf.spells
    exact .single (.skip (.of_isAt hrest hword rfl) htail) (.wordToLast hc hrest htail rfl (congrArg some hf.2)) trivial

omit hr in
theorem literal?_spells (ha : a.Lawful) (hrest : a.rest = t :: ts) (h : literal? t = some e) :
    SpellsOne .expr a ⟨t.span, ts⟩ e := by
  unfold literal? at h
  split at h <;> cases h
  case h_7 x y hk =>
    have htoken := Spells.token (a := a) hrest (by rw [hk]; rfl) (.nil _)
    rw [hk] at htoken
    exact .single htoken (.single ha hrest rfl rfl) trivial
  all_goals
    refine .single (.quiet hrest ?_ (.nil _)) (.single ha hrest rfl rfl) trivial
    simp_all [Token.Kind.isSalient, Token.Kind.isSlash]

theorem baseAtom (c : Cursor) : Takes c (baseAtom [] r) (SpellsOne .expr c.place) := by
  refine .intro fun hc => .look ?_
  cases hpeek : c.peek? with
  | none => exact .failHere
  | some t =>
    have hnext : ∀ {t' : Token} {ts : List Token}, c.rest = t' :: ts → t' = t := by
      intro t' ts hrest
      rw [Cursor.peek?, hrest] at hpeek
      exact Option.some.inj hpeek
    have hat : ∀ {k : Token.Kind}, t.kind = k → c.isAt k = true := by
      rintro k rfl
      rw [Cursor.isAt, Cursor.kind?, hpeek]
      simp
    dsimp only
    split
    · next name hname =>
      refine .look ?_
      split
      · exact nameArrow hr c
      · refine .advance fun {t' ts} hrest => .pure ?_
        cases hnext hrest
        refine .single (.quiet hrest ?_ (.nil _)) (.single hc hrest rfl rfl) trivial
        cases hk : t.kind <;> rw [hk] at hname <;> first | rfl | cases hname
    · split
      · next e he =>
        refine .advance fun {t' ts} hrest => .pure ?_
        cases hnext hrest
        exact literal?_spells hc hrest he
      · split
        · next hk => exact parenthesized hr c (hat hk)
        · exact arrayLiteral hr c
        · exact objectLiteral hr c
        · next hk => exact functionExpr hr c (hat hk)
        · exact .failAt

/-! ### Operators -/

theorem new (c : Cursor) : Takes c (new [] r) (SpellsOne .expr c.place) := by
  refine .intro fun hc => .expect rfl fun {t ts} hq => .look ?_
  have hnext := hc.past hq.rest
  refine .either (A := SpellsOne .expr ⟨t.span, ts⟩) (fun _ => hr.new _) (fun _ => baseAtom hr _) fun he => ?_
  refine (memberTail hr false hnext he).bind fun {c₁ callee} hcallee => ?_
  have hargs : ∀ {c₂ : Cursor} {args : List Expr}, Spells ((args.map .item).map .node) c₁.place c₂.place →
      SpellsOne .expr c.place c₂.place (.new (t.span.join c₂.prev) callee args) := by
    intro c₂ args hs
    have htail := hcallee.append hs
    exact .single (.skip hq htail) (.wordToLast hc hq.rest htail (by simp [Node.parts, Expr.parts, -List.map_map]) rfl) trivial
  refine .eat rfl (fun hq => ?_) (.look (.pure (hargs (.nil _))))
  exact (exprList hr _ rfl _).bind fun hs => .look (.pure (hargs (.skip hq hs)))

theorem leftHandSide (c : Cursor) : Takes c (leftHandSide [] r) (SpellsOne .expr c.place) :=
  .intro fun hc => .look (.either (A := SpellsOne .expr c.place) (fun _ => new hr c) (fun _ => baseAtom hr c)
    fun he => memberTail hr true hc he)

omit hr in
theorem checkUpdateTarget {α : Type} {A : Place → α → Prop} {f : Unit → Parse α} (hf : Takes c (f ()) A) :
    Takes c (checkUpdateTarget e >>= f) A := by
  unfold Grammar.checkUpdateTarget
  split
  · exact hf
  · exact .failAt_bind

omit hr in
theorem quiet_unaryOp {op : UnaryOp} (hrest : c.rest = t :: ts) (h : c.kind?.bind UnaryOp.ofToken? = some op) :
    c.Quiet t ts := by
  rw [Cursor.kind?_of_rest hrest] at h
  refine ⟨hrest, ?_⟩
  change UnaryOp.ofToken? t.kind = some op at h
  unfold UnaryOp.ofToken? at h
  split at h <;> first | (rename_i hk; rw [hk]; rfl) | cases h

omit hr in
theorem quiet_updateOp {op : UpdateOp} (hrest : c.rest = t :: ts) (h : c.kind?.bind UpdateOp.ofToken? = some op) :
    c.Quiet t ts := by
  rw [Cursor.kind?_of_rest hrest] at h
  refine ⟨hrest, ?_⟩
  rw [eq_of_updateOp h]
  cases op <;> rfl

omit hr in
theorem baseTrailing (ha : a.Lawful) (he : SpellsOne .expr a c.place e) :
    Takes c (baseTrailing e) (SpellsOne .expr a) := by
  refine .look ?_
  split
  · exact .pure he
  · next op hop =>
    refine .look ?_
    split
    · exact .pure he
    · refine checkUpdateTarget (.advance fun hrest => .pure ?_)
      have htail := Spells.skip (quiet_updateOp hrest hop) (.nil _)
      exact .single (he.append htail) (.leftToLast ha he htail rfl rfl rfl) trivial

theorem unary (c : Cursor) : Takes c (unary [] r) (SpellsOne .expr c.place) := by
  refine .intro fun hc => .look ?_
  split
  · next op hop =>
    refine .advance fun {t ts} hrest => (hr.unary _).bind fun he => .pure ?_
    exact .single (.skip (quiet_unaryOp hrest hop) he) (.wordToPart hc hrest he rfl List.mem_cons_self rfl rfl rfl) trivial
  · split
    · next op hop =>
      refine .advance fun {t ts} hrest => (hr.unary _).bind fun he => checkUpdateTarget (.pure ?_)
      exact .single (.skip (quiet_updateOp hrest hop) he) (.wordToPart hc hrest he rfl List.mem_cons_self rfl rfl rfl) trivial
    · exact (leftHandSide hr c).bind fun he => baseTrailing hc he

/-- One more operator, behind an expression that is read from `a` on. -/
theorem binaryStep (least : Prec) (ha : a.Lawful) (he : SpellsOne .expr a c.place e) :
    Takes c (binaryStep r least e) fun b o => SpellsOne .expr a b (o.getD e) := by
  refine .look ?_
  split
  · exact .pure he
  · next op hop =>
    split
    · exact .pure he
    · refine .advance fun {t ts} hrest => (hr.binary _ _).bind fun {c' right} hright => .pure ?_
      have hk : t.kind = op.token := by
        unfold binaryOp? at hop
        rw [Cursor.kind?_of_rest hrest] at hop
        split at hop
        · next op' hop' =>
          split at hop <;> cases hop
          exact eq_of_binaryOp hop'
        · cases hop
      have htail : Spells ((Node.expr (.binary (e.span.join right.span) op e right)).signs.map .token ++ [.node (.expr right)])
          c.place c'.place := by
        cases op
        case div =>
          have htoken := Spells.token (a := c.place) hrest (by rw [hk]; rfl) hright
          rwa [hk] at htoken
        all_goals exact .quiet hrest (by rw [hk]; rfl) hright
      refine .single (he.append htail) (.leftToPart (m := .expr right) ha he htail ?_ ?_ rfl rfl rfl) trivial
      · simp [Node.parts, Expr.parts]
      · exact List.mem_append_right _ List.mem_cons_self

theorem binary (c : Cursor) (least : Prec) : Takes c (binary [] r least) (SpellsOne .expr c.place) :=
  .intro fun hc => (unary hr c).bind fun he => .extend (A := SpellsOne .expr c.place) (binaryStep hr least hc) he

theorem conditional (c : Cursor) : Takes c (conditional [] r) (SpellsOne .expr c.place) := by
  refine .intro fun hc => (binary hr c _).bind fun htest => .eat rfl (fun hq => ?_) (.pure htest)
  refine (Takes.withNoIn (hr.assign _)).bind fun hthen => .expect rfl fun hq' => ?_
  refine (hr.assign _).bind fun {_ alternate} helse => .pure ?_
  have htail := Spells.skip hq (hthen.append (.skip hq' helse))
  refine .single (htest.append htail) (.leftToPart (m := .expr alternate) hc htest htail rfl ?_ rfl rfl rfl) trivial
  exact List.mem_cons_of_mem _ List.mem_cons_self

theorem assign (c : Cursor) : Takes c (assign [] r) (SpellsOne .expr c.place) := by
  refine .intro fun hc => (conditional hr c).bind fun {c₁ e} he => .look ?_
  split
  · exact .pure he
  · next op hop =>
    split
    · exact .failAt_bind
    · refine .advance fun {t ts} hrest => (hr.assign _).bind fun {c' value} hvalue => .pure ?_
      have hk : t.kind = .punct op.sign := by
        rw [Cursor.kind?_of_rest hrest] at hop
        exact eq_of_assignOp hop
      have htail : Spells ((Node.expr (.assign (e.span.join value.span) op e value)).signs.map .token ++ [.node (.expr value)])
          c₁.place c'.place := by
        cases op
        case div =>
          have htoken := Spells.token (a := c₁.place) hrest (by rw [hk]; rfl) hvalue
          rwa [hk] at htoken
        all_goals exact .quiet hrest (by rw [hk]; rfl) hvalue
      refine .single (he.append htail) (.leftToPart (m := .expr value) hc he htail ?_ ?_ rfl rfl rfl) trivial
      · simp [Node.parts, Expr.parts]
      · exact List.mem_append_right _ List.mem_cons_self

theorem sequence (c : Cursor) : Takes c (Grammar.expr [] r) (SpellsOne .expr c.place) := by
  refine .intro fun hc => (assign hr c).bind fun hfirst => .eat rfl (fun hq => ?_) (.pure hfirst)
  refine (Takes.commaList (f := .expr) hr.assign _).bind fun {c' items} hs => .pure ?_
  have htail := Spells.skip hq hs.2
  obtain ⟨last, hlast⟩ := Option.ne_none_iff_exists'.mp (mt List.getLast?_eq_none_iff.mp hs.1)
  have hmem : .node (.expr last) ∈ (items.map Node.expr).map Constituent.node :=
    List.mem_map_of_mem (List.mem_map_of_mem (List.mem_of_getLast? hlast))
  rw [hlast]
  refine .single (hfirst.append htail) (.leftToPart hc hfirst htail ?_ hmem rfl rfl rfl) trivial
  simp [Node.parts, Expr.parts, -List.map_map]

end

end Spelling

end LabelWeaver
