import LabelWeaver.Proofs.Grammar.Lockstep

/-! Patterns, keys and functions of two runs. Where the grammar looks at the form of what was read,
    the results of the two runs have to be of the same form; `PatternLike` and `KeyLike` say so. -/

namespace LabelWeaver

namespace Likeness

variable (L : Likeness)

/-- Likeness of trees of one type. -/
abbrev on {α : Type} (f : α → Node) (lo hi : Nat) (a b : α) : Prop := L.rel lo hi (f a) (f b)

/-! ### Forms -/

/-- Keys of the same form. -/
inductive KeyLike (lo : Nat) : Nat → PropKey → PropKey → Prop where
  | name {n n' : Name} (h : n.text = n'.text) : KeyLike lo lo (.name n) (.name n')
  | string (value : String) : KeyLike lo lo (.string value) (.string value)
  | number (text : String) : KeyLike lo lo (.number text) (.number text)
  | computed {hi : Nat} {e e' : Expr} (h : L.rel lo hi (.expr e) (.expr e')) :
      KeyLike lo hi (.computed e) (.computed e')

/-- Constraints of the same form. -/
inductive ShapeLike : Shape → Shape → Prop where
  | every {c c' : Contract} (hc : L.Alike (.contract c) (.contract c')) : ShapeLike (.every c) (.every c')
  | named {e e' : Expr} {c c' : Contract} (he : L.Alike (.expr e) (.expr e'))
      (hc : L.Alike (.contract c) (.contract c')) : ShapeLike (.named e c) (.named e' c')
  | atLeast {e e' : Expr} {c c' : Contract} (he : L.Alike (.expr e) (.expr e'))
      (hc : L.Alike (.contract c) (.contract c')) : ShapeLike (.atLeast e c) (.atLeast e' c')

/-- Demands of the same form. -/
structure DemandLike (d d' : Demand) : Prop where
  expected : Option.Rel (fun c c' => L.Alike (.contract c) (.contract c')) d.expected d'.expected
  shapes : List.Forall₂ L.ShapeLike d.shapes d'.shapes

/-- Patterns of the same form. -/
inductive PatternLike : Nat → Nat → Pattern → Pattern → Prop where
  | name {lo hi : Nat} {b b' : Binding} (hname : b.name.text = b'.name.text)
      (hd : L.DemandLike b.demand b'.demand) (hle : lo ≤ hi) :
      PatternLike lo hi (.name b) (.name b')
  | this {lo hi : Nat} {s s' : Span} {d d' : Demand} (hd : L.DemandLike d d')
      (hle : lo ≤ hi) : PatternLike lo hi (.this s d) (.this s' d')
  | array {lo hi : Nat} {s s' : Span} {es es' : List (Option Pattern)}
      (h : L.rel lo hi (.pattern (.array s es)) (.pattern (.array s' es')))
      (hthis : (elementsFindThis? es).isSome = (elementsFindThis? es').isSome) :
      PatternLike lo hi (.array s es) (.array s' es')
  | object {lo hi : Nat} {s s' : Span} {ps ps' : List PatternProp}
      (h : L.rel lo hi (.pattern (.object s ps)) (.pattern (.object s' ps')))
      (hthis : (propertiesFindThis? ps).isSome = (propertiesFindThis? ps').isSome) :
      PatternLike lo hi (.object s ps) (.object s' ps')
  | withDefault {lo mid hi : Nat} {s s' : Span} {p p' : Pattern} {e e' : Expr}
      (hp : PatternLike lo mid p p') (he : L.rel mid hi (.expr e) (.expr e')) :
      PatternLike lo hi (.withDefault s p e) (.withDefault s' p' e')
  | rest {lo hi : Nat} {s s' : Span} {p p' : Pattern} (hp : PatternLike lo hi p p') :
      PatternLike lo hi (.rest s p) (.rest s' p')

variable {L} {lo hi : Nat}

/-- Results that are alike are nodes that are alike. -/
theorem nodes {α : Type} {f : α → Node} {as bs : List α} (h : Chain (L.on f) lo hi as bs) :
    Chain L.rel lo hi (as.map f) (bs.map f) :=
  h.map id

theorem optionNodes {α : Type} {f : α → Node} {a b : Option α} (h : Optional (L.on f) lo hi a b) :
    Chain L.rel lo hi (a.toList.map f) (b.toList.map f) :=
  h.toList id

theorem KeyLike.rel {k k' : PropKey} (h : L.KeyLike lo hi k k') : L.rel lo hi (.key k) (.key k') := by
  cases h with
  | name h => exact bare rfl (by simp only [Node.skeleton, Name.bare, h]) rfl rfl (.nil lo)
  | string value => exact bare rfl rfl rfl rfl (.nil lo)
  | number text => exact bare rfl rfl rfl rfl (.nil lo)
  | computed h => exact bare rfl rfl rfl rfl (.cons h (.nil hi))

theorem ShapeLike.alike {s s' : Shape} (h : L.ShapeLike s s') : L.Alike (.shape s) (.shape s') := by
  cases h with
  | every hc => exact L.demand rfl rfl (.cons hc .nil)
  | named he hc => exact L.demand rfl rfl (.cons he (.cons hc .nil))
  | atLeast he hc => exact L.demand rfl rfl (.cons he (.cons hc .nil))

theorem DemandLike.alike {d d' : Demand} (h : L.DemandLike d d') : L.Alike (.demand d) (.demand d') := by
  obtain ⟨expected, shapes⟩ := d
  obtain ⟨expected', shapes'⟩ := d'
  obtain ⟨hexpected, hshapes⟩ := h
  have hparts : List.Forall₂ L.Alike (shapes.map .shape) (shapes'.map .shape) :=
    List.forall₂_map_left_iff.mpr (List.forall₂_map_right_iff.mpr (hshapes.imp fun _ _ => ShapeLike.alike))
  have hskeleton : (shapes.map fun _ => Shape.every .hole) = shapes'.map fun _ => Shape.every .hole := by
    rw [List.map_const', List.map_const', hshapes.length_eq]
  cases hexpected with
  | none => exact L.demand rfl (by simp only [Node.skeleton, hskeleton]) hparts
  | some hc => exact L.demand rfl (by simp only [Node.skeleton, hskeleton]; rfl) (.cons hc hparts)

theorem noDemand : L.DemandLike .none .none := ⟨.none, .nil⟩

theorem binding {b b' : Binding} (hname : b.name.text = b'.name.text)
    (hd : L.DemandLike b.demand b'.demand) : L.rel lo lo (.binding b) (.binding b') :=
  L.node rfl (by simp only [Node.skeleton, Name.bare, hname]) (.nil lo) (.cons hd.alike .nil)

theorem PatternLike.rel {p p' : Pattern} (h : L.PatternLike lo hi p p') :
    L.rel lo hi (.pattern p) (.pattern p') := by
  induction h with
  | name hname hd hle =>
    exact L.mono (bare rfl rfl rfl rfl (.cons (binding hname hd) (.nil _))) (Nat.le_refl _) hle
  | this hd hle =>
    exact L.mono (L.node rfl rfl (.nil _) (.cons hd.alike .nil)) (Nat.le_refl _) hle
  | array h _ => exact h
  | object h _ => exact h
  | withDefault _ he ih => exact bare rfl rfl rfl rfl (.cons ih (.cons he (.nil _)))
  | rest _ ih => exact bare rfl rfl rfl rfl (.cons ih (.nil _))

theorem PatternLike.mono {lo' : Nat} {p p' : Pattern} (h : L.PatternLike lo hi p p') (hlo : lo' ≤ lo) :
    L.PatternLike lo' hi p p' := by
  induction h with
  | name hname hd hle => exact .name hname hd (Nat.le_trans hlo hle)
  | this hd hle => exact .this hd (Nat.le_trans hlo hle)
  | array h hthis => exact .array (L.mono h hlo (Nat.le_refl _)) hthis
  | object h hthis => exact .object (L.mono h hlo (Nat.le_refl _)) hthis
  | withDefault _ he ih => exact .withDefault ih he
  | rest _ ih => exact .rest ih

theorem PatternLike.findThis? {p p' : Pattern} (h : L.PatternLike lo hi p p') :
    p.findThis?.isSome = p'.findThis?.isSome := by
  induction h with
  | name => rfl
  | this => rfl
  | array _ hthis => exact hthis
  | object _ hthis => exact hthis
  | withDefault _ _ ih => exact ih
  | rest _ ih => exact ih

theorem isSome_or {α β : Type} {a b : Option α} {a' b' : Option β} (ha : a.isSome = a'.isSome)
    (hb : b.isSome = b'.isSome) : (a.or b).isSome = (a'.or b').isSome := by
  cases a <;> cases a' <;> simp_all

theorem elementsFindThis?_of_chain {es es' : List (Option Pattern)}
    (h : Chain (Optional L.PatternLike) lo hi es es') :
    (elementsFindThis? es).isSome = (elementsFindThis? es').isSome := by
  induction h with
  | nil => rfl
  | cons he _ ih =>
    cases he with
    | none => exact ih
    | some hp => exact isSome_or hp.findThis? ih

/-- Properties of object patterns: alike, and with a place for a receiver in both or in neither. -/
structure PatternPropLike (L : Likeness) (lo hi : Nat) (p p' : PatternProp) : Prop where
  rel : L.rel lo hi (.patternProp p) (.patternProp p')
  this : (propertiesFindThis? [p]).isSome = (propertiesFindThis? [p']).isSome

theorem propertiesFindThis?_cons (p : PatternProp) (ps : List PatternProp) :
    propertiesFindThis? (p :: ps) = (propertiesFindThis? [p]).or (propertiesFindThis? ps) := by
  cases p <;> simp [propertiesFindThis?]

theorem propertiesFindThis?_of_chain {ps ps' : List PatternProp}
    (h : Chain L.PatternPropLike lo hi ps ps') :
    (propertiesFindThis? ps).isSome = (propertiesFindThis? ps').isSome := by
  induction h with
  | nil => rfl
  | @cons _ _ _ p p' ps ps' hp _ ih =>
    rw [propertiesFindThis?_cons p ps, propertiesFindThis?_cons p' ps']
    exact isSome_or hp.this ih

/-! ### Rules -/

/-- The productions of two runs. -/
structure RulesLike (L : Likeness) (r r' : Rules) : Prop where
  statement : ∀ lo, L.Sim lo r.statement r'.statement (L.on .stmt lo)
  expr : ∀ lo, L.Sim lo r.expr r'.expr (L.on .expr lo)
  assign : ∀ lo, L.Sim lo r.assign r'.assign (L.on .expr lo)
  conditional : ∀ lo, L.Sim lo r.conditional r'.conditional (L.on .expr lo)
  binary : ∀ lo least, L.Sim lo (r.binary least) (r'.binary least) (L.on .expr lo)
  unary : ∀ lo, L.Sim lo r.unary r'.unary (L.on .expr lo)
  new : ∀ lo, L.Sim lo r.new r'.new (L.on .expr lo)
  binding : ∀ lo, L.Sim lo r.binding r'.binding (L.PatternLike lo)
  function : ∀ lo start start' isArrow {name name' : Option Name}, name.map (·.text) = name'.map (·.text) →
    L.Sim lo (r.function start name isArrow) (r'.function start' name' isArrow) (L.on .function lo)

open Grammar

variable {r r' : Rules} (hr : L.RulesLike r r')

include hr

theorem propKey (lo : Nat) : L.Sim lo (propKey r) (propKey r') (L.KeyLike lo) := by
  refine .advance fun t t' ht => ?_
  rw [ht]
  split
  · exact .pure (.string _)
  · exact .pure (.number _)
  · refine (hr.assign lo).bind fun _ he => .expect fun _ _ _ => ?_
    exact .pure (.computed he)
  · split
    · exact .pure (.name rfl)
    · exact .failAt

theorem bindingElement {p p' : Parse Pattern} (hp : ∀ lo, L.Sim lo p p' (L.PatternLike lo)) (lo : Nat) :
    L.Sim lo (bindingElement p r) (bindingElement p' r') (L.PatternLike lo) := by
  refine (hp lo).bind fun _ ht => .eat fun b => ?_
  split
  · exact (hr.assign _).bind fun _ he => .pure (.withDefault ht he)
  · exact .pure ht

theorem restElement (lo : Nat) :
    L.Sim lo (restElement r) (restElement r') (L.PatternLike lo) := by
  refine .expect fun _ _ _ => ?_
  exact (hr.binding lo).bind fun _ ht => .pure (.rest ht)

theorem listElement (lo : Nat) :
    L.Sim lo (listElement r) (listElement r') (L.PatternLike lo) := by
  refine .isAt fun b => ?_
  split
  · exact restElement hr lo
  · exact bindingElement hr hr.binding lo

theorem arrayPattern (lo : Nat) :
    L.Sim lo (arrayPattern r) (arrayPattern r') (L.PatternLike lo) := by
  refine .expect fun _ _ _ => (Sim.elements (listElement hr) lo).bind fun _ hes => ?_
  refine .expect fun _ _ _ => .pure (.array (bare rfl ?_ rfl rfl ?_) (elementsFindThis?_of_chain hes))
  · simp only [Node.skeleton, Pattern.skeleton, hes.map_holes]
  · exact hes.filterMap PatternLike.rel

theorem patternProp (lo : Nat) :
    L.Sim lo (patternProp r) (patternProp r') (L.PatternPropLike lo) := by
  refine .isAt fun b => ?_
  split
  · refine (restElement hr lo).bind fun _ hp => .pure ⟨bare rfl rfl rfl rfl (.cons hp.rel (.nil _)), ?_⟩
    simpa [propertiesFindThis?] using hp.findThis?
  · refine (propKey hr lo).bind fun _ hk => .eat fun b => ?_
    split
    · refine (bindingElement hr hr.binding _).bind fun _ hp => .pure ⟨?_, ?_⟩
      · exact bare rfl rfl rfl rfl (.cons hk.rel (.cons hp.rel (.nil _)))
      · simpa [propertiesFindThis?] using hp.findThis?
    · cases hk with
      | name hname =>
        refine .eat fun b => Sim.optional (hr.assign _) fun _ he => .pure ⟨?_, rfl⟩
        refine bare rfl ?_ rfl rfl (.cons (binding hname noDemand) (optionNodes he))
        simp only [Node.skeleton, he.map_const]
      | string => exact .failHere
      | number => exact .failHere
      | computed => exact .failHere

theorem objectPattern (lo : Nat) :
    L.Sim lo (objectPattern r) (objectPattern r') (L.PatternLike lo) := by
  refine .expect fun _ _ _ => (Sim.separated (patternProp hr) lo).bind fun _ hps => ?_
  refine .expect fun _ _ _ => .pure (.object (bare rfl ?_ rfl rfl ?_) (propertiesFindThis?_of_chain hps))
  · simp only [Node.skeleton, Pattern.skeleton, hps.map_const]
  · exact hps.map PatternPropLike.rel

theorem baseBinding (lo : Nat) :
    L.Sim lo (baseBinding r) (baseBinding r') (L.PatternLike lo) := by
  refine .kind? fun k => ?_
  split
  · exact arrayPattern hr lo
  · exact objectPattern hr lo
  · exact .expectIdent fun n n' hn => .pure (.name hn noDemand (Nat.le_refl _))

end Likeness

end LabelWeaver
