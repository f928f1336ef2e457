import LabelWeaver.Proofs.Grammar.Yields.Basic

/-! What the readers of patterns and functions yield, and what is asked of the productions that layers
    change. -/

namespace LabelWeaver

namespace Making

variable (M : Making)

/-- What is known about a statement: where it ends in a branch without `else`, no `else` follows. -/
def StatementMade (lo : Nat) (c : Cursor) (s : Stmt) : Prop :=
  M.on .stmt lo c s ∧ (s.endsOpen = true → c.isAt (.reserved .kwElse) = false)

def BindingMade (lo : Nat) (c : Cursor) (p : Pattern) : Prop :=
  M.on .pattern lo c p ∧ p.isBinding = true

/-- A function that has got its body, wherever it ends. -/
def FunctionMade (lo : Nat) (name : Option Name) (isArrow : Bool) (c : Cursor) (fn : Function) : Prop :=
  (∀ s, M.made lo c.nextSite (.function { fn with span := s })) ∧ fn.name = name ∧ fn.isArrow = isArrow

/-- A key; a name is a single token. -/
def KeyMade (lo : Nat) (c : Cursor) (k : PropKey) : Prop :=
  M.on .key lo c k ∧ ∀ n, k = .name n → M.lexis.property n.text ∧ c.nextSite = lo

/-- The names that a function may have. -/
def Named (name : Option Name) (isArrow : Bool) : Prop :=
  (∀ n ∈ name, M.lexis.name n.text) ∧ (isArrow = true → name = none)

/-- The productions of two runs. -/
structure RulesYield (r r' : Rules) : Prop where
  own : M.own r
  statement : ∀ c, M.Yields M.Dead c r.statement r'.statement (M.StatementMade c.nextSite)
  stuck : ∀ {c}, M.Dead c → Dies Cursor.Never c r.statement
  expr : ∀ c, M.Yields Cursor.Never c r.expr r'.expr (M.on .expr c.nextSite)
  assign : ∀ c, M.Yields Cursor.Never c r.assign r'.assign (M.on .expr c.nextSite)
  conditional : ∀ c, M.Yields Cursor.Never c r.conditional r'.conditional (M.on .expr c.nextSite)
  binary : ∀ c least, M.Yields Cursor.Never c (r.binary least) (r'.binary least) (M.on .expr c.nextSite)
  unary : ∀ c, M.Yields Cursor.Never c r.unary r'.unary (M.on .expr c.nextSite)
  new : ∀ c, M.Yields Cursor.Never c r.new r'.new (M.on .expr c.nextSite)
  binding : ∀ c, M.Yields M.Dead c r.binding r'.binding (M.BindingMade c.nextSite)
  function : ∀ c start name isArrow, M.Named name isArrow →
    M.Yields Cursor.Never c (r.function start name isArrow) (r'.function start name isArrow)
      (M.FunctionMade c.nextSite name isArrow)

variable {M} {r r' : Rules}

theorem FunctionMade.made {lo : Nat} {name : Option Name} {isArrow : Bool} {c : Cursor} {fn : Function}
    (h : M.FunctionMade lo name isArrow c fn) : M.on .function lo c fn := by
  have hmade := h.1 fn.span
  cases fn
  exact hmade

section
variable (hr : M.RulesYield r r')

open Grammar

include hr

/-! ### Patterns -/

theorem propKey (c : Cursor) :
    M.Yields Cursor.Never c (propKey r) (propKey r') (M.KeyMade c.nextSite) := by
  refine .advance fun _ ht => ?_
  split
  · exact .pure ⟨M.node rfl trivial (.nil _), fun n h => by cases h⟩
  · next hk =>
    rw [hk] at ht
    exact .pure ⟨M.node rfl (M.number ht) (.nil _), fun n h => by cases h⟩
  · refine (hr.assign _).bind fun he => .expect fun _ _ => .pure ⟨?_, fun n h => by cases h⟩
    exact M.node rfl trivial (.cons he (.nil _))
  · split
    · next hk =>
      have hname := M.propertyName ht hk
      refine .pure ⟨M.node rfl hname (.nil _), fun n h => ?_⟩
      cases h
      exact ⟨hname, rfl⟩
    · exact .failAt

theorem bindingElement (c : Cursor) : M.Yields M.Dead c (bindingElement r.binding r)
    (bindingElement r'.binding r') fun c' p => M.on .pattern c.nextSite c' p ∧ p.isRest = false := by
  refine (hr.binding c).bindDead (fun {c' p} hp => ?_) fun hd _ => .eat hd.2 rfl (.pure hd)
  obtain ⟨hmade, hbinding⟩ := hp
  refine .eat (fun _ _ => ?_) fun _ => ?_
  · refine (hr.assign _).bind fun he => .pure ⟨?_, rfl⟩
    exact M.node rfl hbinding (.cons hmade (.cons he (.nil _)))
  · refine .pure ⟨hmade, ?_⟩
    cases p <;> first | rfl | cases hbinding

theorem restElement (c : Cursor) : M.Yields M.Dead c (restElement r) (restElement r')
    fun c' p => M.on .pattern c.nextSite c' p ∧ p.isRest = true := by
  refine .expect fun _ _ => (hr.binding _).bindDead (fun hp => .pure ⟨?_, rfl⟩) fun hd _ => .pure hd
  exact M.node rfl hp.2 (.cons hp.1 (.nil _))

theorem listElement (c : Cursor) :
    M.Yields M.Dead c (listElement r) (listElement r') (M.on .pattern c.nextSite) := by
  refine .look ?_
  split
  · exact (restElement hr c).imp And.left
  · exact (bindingElement hr c).imp And.left

theorem patternProp (c : Cursor) :
    M.Yields M.Dead c (patternProp r) (patternProp r') (M.on .patternProp c.nextSite) := by
  refine .look ?_
  split
  · refine (restElement hr c).bindDead (fun hp => .pure ?_) fun hd _ => .pure hd
    exact M.node rfl hp.2 (.cons hp.1 (.nil _))
  · refine (propKey hr c).bind fun {c' k} hk => .eat (fun _ _ => ?_) fun _ => ?_
    · refine (bindingElement hr _).bindDead (fun hp => .pure ?_) fun hd _ => .pure hd
      exact M.node rfl hp.2 (.cons hk.1 (.cons hp.1 (.nil _)))
    · cases k with
      | name n =>
        obtain ⟨hname, hlo⟩ := hk.2 n rfl
        refine .eatOptional (R := fun lo hi e => M.made lo hi (.expr e)) (fun _ => hr.assign _) fun hvalue => .pure ?_
        rw [hlo] at hvalue
        exact M.node rfl hname (.cons (M.node rfl rfl (.nil _)) (optionNodes hvalue))
      | string => exact .failHere
      | number => exact .failHere
      | computed => exact .failHere

/-- A binding target; a name is a single token. -/
theorem baseTarget (c : Cursor) : M.Yields Cursor.Never c (baseBinding r) (baseBinding r') fun c' p =>
    M.BindingMade c.nextSite c' p ∧ ∀ b, p = .name b → M.lexis.name b.name.text ∧ b.demand = .none := by
  have hpattern : ∀ {p : Pattern}, (∀ b, p ≠ .name b) → ∀ b, p = .name b → M.lexis.name b.name.text ∧ b.demand = .none :=
    fun h b hb => absurd hb (h b)
  refine .look ?_
  split
  · exact .expect fun _ _ => (Yields.elements (R := fun lo hi p => M.made lo hi (.pattern p))
      And.right (listElement hr) _).bindDead
        (fun hes => .expect fun _ _ => .pure ⟨⟨M.node rfl trivial (hes.filterMap id), rfl⟩, hpattern fun _ => nofun⟩)
        fun hd _ => .expect hd.2 rfl
  · exact .expect fun _ _ => (Yields.separated (R := fun lo hi p => M.made lo hi (.patternProp p))
      And.right (patternProp hr) _).bindDead
        (fun hps => .expect fun _ _ => .pure ⟨⟨M.node rfl trivial (nodes hps), rfl⟩, hpattern fun _ => nofun⟩)
        fun hd _ => .expect hd.2 rfl
  · refine .expectIdent fun _ hn => .pure ⟨⟨M.node rfl hn (.cons (M.node rfl rfl (.nil _)) (.nil _)), rfl⟩, ?_⟩
    rintro b ⟨⟩
    exact ⟨hn, rfl⟩

theorem baseBinding (c : Cursor) :
    M.Yields Cursor.Never c (baseBinding r) (baseBinding r') (M.BindingMade c.nextSite) :=
  (baseTarget hr c).imp And.left

/-! ### Functions -/

/-- Statements between braces. -/
theorem block (c : Cursor) :
    M.Yields Cursor.Never c (block r) (block r') (M.on .block c.nextSite) := by
  refine .expect fun _ _ => (Yields.many (R := fun lo hi s => M.made lo hi (.stmt s)) (fun c => ?_) (fun {c} hd => ?_)
    _).bind fun hs => .expect fun _ _ => .pure (M.node rfl trivial (nodes hs))
  · refine .look ?_
    split
    · exact .failHere_bind
    · exact (hr.statement c).imp And.left
  · have hkind : c.kind? = some (.punct .colon) := hd.2
    refine ⟨by simp [Cursor.isAt, hkind], Dies.look ?_⟩
    have heof : c.isAt .eof = false := by simp [Cursor.isAt, hkind]
    rw [heof]
    exact hr.stuck hd

end

/-! ### What layers may change -/

open Grammar

/-- The productions that layers change, for two grammars. `head` is what is known about a function
    whose body is not read yet. -/
structure HooksYield (M : Making) (head : Nat → Nat → Function → Prop) (g g' : Grammar) : Prop where
  own : ∀ depth, M.own (Grammar.rules g depth)
  binding : ∀ {r r'}, M.RulesYield r r' → ∀ c,
    M.Yields M.Dead c (Grammar.binding g r) (Grammar.binding g' r') (M.BindingMade c.nextSite)
  params : ∀ {r r'}, M.RulesYield r r' → ∀ c start name isArrow, M.Named name isArrow →
    M.Yields Cursor.Bodiless c (Grammar.params g r (.blank start name isArrow)) (Grammar.params g' r' (.blank start name isArrow))
      fun c' fn => head c.nextSite c'.nextSite fn ∧ fn.name = name ∧ fn.isArrow = isArrow
  single : ∀ {lo start n}, M.lexis.name n.text →
    head lo lo { Function.blank start none true with params := [.name ⟨n.span, n, .none⟩] }
  body : ∀ {r r'}, M.RulesYield r r' → ∀ {c lo fn}, head lo c.nextSite fn →
    M.Yields Cursor.Never c (Grammar.body g r fn) (Grammar.body g' r' fn) (M.FunctionMade lo fn.name fn.isArrow)
  bodyStuck : ∀ {r r'}, M.RulesYield r r' → ∀ {c fn}, c.Bodiless → fn.isArrow = false →
    Dies Cursor.Never c (Grammar.body g r fn)
  atom : ∀ {r r'}, M.RulesYield r r' →
    (∀ c, M.Yields Cursor.Never c (baseAtom g r) (baseAtom g' r') (M.on .expr c.nextSite)) →
    ∀ c, M.Yields Cursor.Never c (Grammar.atom g r) (Grammar.atom g' r') (M.on .expr c.nextSite)
  trailing : ∀ {r r'}, M.RulesYield r r' → ∀ {c lo e}, M.on .expr lo c e →
    M.Yields Cursor.Never c (Grammar.trailing g r e) (Grammar.trailing g' r' e) (M.on .expr lo)
  statement : ∀ {r r'}, M.RulesYield r r' →
    (∀ c, M.Yields M.Dead c (baseStatement g r) (baseStatement g' r') (M.StatementMade c.nextSite)) →
    ∀ c, M.Yields M.Dead c (Grammar.statement g r) (Grammar.statement g' r') (M.StatementMade c.nextSite)
  statementStuck : ∀ {r r'}, M.RulesYield r r' → ∀ {c}, M.Dead c → Dies Cursor.Never c (Grammar.statement g r)

section
variable (hr : M.RulesYield r r') {head : Nat → Nat → Function → Prop} {g g' : Grammar}
  (hg : M.HooksYield head g g')

include hr hg

theorem function (c : Cursor) (start : Span) (name : Option Name) (isArrow : Bool) (hname : M.Named name isArrow) :
    M.Yields Cursor.Never c (function g r start name isArrow) (function g' r' start name isArrow)
      (M.FunctionMade c.nextSite name isArrow) := by
  refine (Yields.withNoIn (A := M.FunctionMade c.nextSite name isArrow) id ?_).bind fun hf =>
    .look (.pure ⟨fun s => hf.1 s, hf.2⟩)
  refine (hg.params hr _ start name isArrow hname).bindDead (fun {c' fn} hfn => ?_) fun {c' fn} hd hfn => ?_
  · obtain ⟨hhead, rfl, rfl⟩ := hfn
    split
    · refine .look (.look ?_)
      split
      · exact .failHere_bind
      · exact .expect fun _ _ => hg.body hr hhead
    · exact hg.body hr hhead
  · split
    · refine .look (.look ?_)
      split
      · exact .failHere_bind
      · exact .expectOther hd.1
    · next h => exact hg.bodyStuck hr hd (hfn.2.2.trans (eq_false_of_ne_true h))

theorem nameArrow (c : Cursor) :
    M.Yields Cursor.Never c (nameArrow g r) (nameArrow g' r') (M.on .expr c.nextSite) := by
  refine .look (.expectIdent fun _ hn => ?_)
  refine (Yields.withNoIn (A := M.FunctionMade c.nextSite none true) id ?_).bind fun hf => .look (.pure ?_)
  · exact .expect fun _ _ => hg.body hr (hg.single hn)
  · exact M.node rfl trivial (.cons (hf.1 _) (.nil _))

end

end Making

end LabelWeaver
