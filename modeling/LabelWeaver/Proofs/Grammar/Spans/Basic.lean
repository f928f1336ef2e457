import LabelWeaver.Proofs.Grammar.Yields.Basic

/-! Where spans come from. Readers take spans from tokens and join them; nothing else goes into a tree or
    into an error. So a set of spans that is closed under joins holds every span that is reported,
    if it holds those of the tokens. -/

namespace LabelWeaver

/-- A set of spans that holds with two spans the one that covers both, and with a span the place where
    it begins. -/
structure SpanSet where
  mem : Span → Prop
  join : ∀ {a b}, mem a → mem b → mem (a.join b)
  anchor : ∀ {a}, mem a → mem a.anchor

instance : Membership Span SpanSet := ⟨SpanSet.mem⟩

namespace SpanSet

variable (S : SpanSet) {α β : Type}

theorem join_mem {S : SpanSet} {a b : Span} (ha : a ∈ S) (hb : b ∈ S) : a.join b ∈ S := S.join ha hb

theorem anchor_mem {S : SpanSet} {a : Span} (ha : a ∈ S) : a.anchor ∈ S := S.anchor ha

/-- The spans of the tokens around the cursor are in the set. -/
structure At (c : Cursor) : Prop where
  rest : ∀ t ∈ c.rest, t.span ∈ S
  prev : c.prev ∈ S

/-- The reader goes on among tokens with spans in the set: a result satisfies `A`, and an error is
    reported at a span of the set. -/
def Keeps (p : Parse α) (A : α → Prop) : Prop :=
  ∀ ⦃c : Cursor⦄, S.At c → match p c with
    | .ok a c' => S.At c' ∧ A a
    | .error e _ => e.span ∈ S

variable {S}

theorem At.past {c : Cursor} {t : Token} {ts : List Token} (h : S.At c) (hrest : c.rest = t :: ts) :
    t.span ∈ S ∧ S.At (c.past t ts) := by
  have ht : t.span ∈ S := h.rest t (by rw [hrest]; exact List.mem_cons_self)
  exact ⟨ht, fun t' ht' => h.rest t' (by rw [hrest]; exact List.mem_cons_of_mem _ ht'), ht⟩

theorem At.here {c : Cursor} (h : S.At c) : c.here ∈ S := by
  rw [Cursor.here, Cursor.peek?]
  cases hrest : c.rest with
  | nil => exact h.prev
  | cons t ts => exact (h.past hrest).1

namespace Keeps

variable {p q : Parse α} {A : α → Prop} {B : β → Prop} {f : α → Parse β}

theorem ok (h : S.Keeps p A) {c c' : Cursor} {a : α} (hc : S.At c) (hp : p c = .ok a c') : S.At c' ∧ A a := by
  have := h hc
  rwa [hp] at this

theorem error (h : S.Keeps p A) {c c' : Cursor} {e : SyntaxError} (hc : S.At c) (hp : p c = .error e c') :
    e.span ∈ S := by
  have := h hc
  rwa [hp] at this

/-! ### Putting readers together -/

theorem pure {a : α} (h : A a) : S.Keeps (pure a) A := fun _ hc => ⟨hc, h⟩

theorem bind (hp : S.Keeps p A) (hf : ∀ a, A a → S.Keeps (f a) B) : S.Keeps (p >>= f) B := by
  intro c hc
  cases hpc : p c with
  | error e c' =>
    rw [Parse.bind_error hpc]
    exact hp.error hc hpc
  | ok a c' =>
    obtain ⟨hc', ha⟩ := hp.ok hc hpc
    rw [Parse.bind_ok hpc]
    exact hf a ha hc'

theorem imp {A' : α → Prop} (h : S.Keeps p A) (hA : ∀ a, A a → A' a) : S.Keeps p A' := by
  rw [← bind_pure p]
  exact h.bind fun a ha => .pure (hA a ha)

theorem map {f : α → β} (hp : S.Keeps p A) (hf : ∀ a, A a → B (f a)) : S.Keeps (f <$> p) B := by
  rw [map_eq_pure_bind]
  exact hp.bind fun a ha => .pure (hf a ha)

theorem failAt {fault : SyntaxFault} {span : Span} (h : span ∈ S) : S.Keeps (Parse.failAt fault span) A :=
  fun _ _ => h

theorem failHere {fault : SyntaxFault} : S.Keeps (Parse.failHere fault) A := fun _ hc => hc.here

/-- What comes after a failure does not count. -/
theorem failAt_bind {fault : SyntaxFault} {span : Span} (h : span ∈ S) :
    S.Keeps (Parse.failAt fault span >>= f) B :=
  fun _ _ => h

theorem failHere_bind {fault : SyntaxFault} : S.Keeps (Parse.failHere fault >>= f) B := fun _ hc => hc.here

theorem ite {b : Bool} (hp : S.Keeps p A) (hq : S.Keeps q A) : S.Keeps (if b then p else q) A := by
  cases b
  · exact hq
  · exact hp

/-- Two ways to a value. -/
theorem either {b : Bool} (hp : S.Keeps p A) (hq : S.Keeps q A) (hf : ∀ a, A a → S.Keeps (f a) B) :
    S.Keeps (if b then p >>= f else q >>= f) B :=
  ite (hp.bind hf) (hq.bind hf)

/-- A value that may be left out. -/
theorem optional {b : Bool} {f : Option α → Parse β} (hp : S.Keeps p A) (hf : ∀ o, S.Keeps (f o) B) :
    S.Keeps (if b then some <$> p >>= f else Pure.pure none >>= f) B :=
  either (A := fun _ => True) (hp.map fun _ _ => trivial) (.pure trivial) fun o _ => hf o

theorem optionalUnless {b : Bool} {f : Option α → Parse β} (hp : S.Keeps p A) (hf : ∀ o, S.Keeps (f o) B) :
    S.Keeps (if b then Pure.pure none >>= f else some <$> p >>= f) B :=
  either (A := fun _ => True) (.pure trivial) (hp.map fun _ _ => trivial) fun o _ => hf o

/-! ### Single tokens -/

theorem look {h : Cursor → α} (hA : ∀ c, S.At c → A (h c)) : S.Keeps (Parse.look h) A := fun c hc => ⟨hc, hA c hc⟩

/-- What the cursor shows of the tokens does not matter. -/
theorem see {h : Cursor → α} (hf : ∀ a, S.Keeps (f a) B) : S.Keeps (Parse.look h >>= f) B :=
  (look (A := fun _ => True) fun _ _ => trivial).bind fun a _ => hf a

theorem here : S.Keeps Parse.here (· ∈ S) := look fun _ hc => hc.here

theorem prevSpan : S.Keeps Parse.prevSpan (· ∈ S) := look fun _ hc => hc.prev

theorem advance : S.Keeps Parse.advance (·.span ∈ S) := by
  intro c hc
  unfold Parse.advance
  cases hrest : c.rest with
  | nil => exact hc.prev
  | cons t ts =>
    obtain ⟨ht, hpast⟩ := hc.past hrest
    by_cases hk : t.kind = .eof
    · simpa [hk] using ht
    · simp only [hk, if_false]
      exact ⟨hpast, ht⟩

theorem eat {k : Token.Kind} : S.Keeps (Parse.eat k) fun _ => True := by
  intro c hc
  unfold Parse.eat
  cases hrest : c.rest with
  | nil => exact ⟨hc, trivial⟩
  | cons t ts =>
    cases hk : t.kind.sameSort k with
    | false => simpa [hk] using hc
    | true => simpa [hk, Cursor.past] using (hc.past hrest).2

theorem expect {k : Token.Kind} : S.Keeps (Parse.expect k) (·.span ∈ S) := by
  refine advance.bind fun t ht => ?_
  split
  · exact .pure ht
  · exact .failAt ht

theorem expectIdent : S.Keeps Parse.expectIdent (·.span ∈ S) := by
  refine advance.bind fun t ht => ?_
  split
  · exact .pure ht
  · exact .failAt ht

theorem expectPropertyName : S.Keeps Parse.expectPropertyName (·.span ∈ S) := by
  refine advance.bind fun t ht => ?_
  split
  · exact .pure ht
  · exact .failAt ht

theorem consumeSemicolon : S.Keeps Parse.consumeSemicolon fun _ => True := by
  refine eat.bind fun _ _ => .ite (.pure trivial) (.see fun _ => .ite (.pure trivial) .failHere)

theorem freshSite : S.Keeps Parse.freshSite fun _ => True := fun _ hc => ⟨⟨hc.rest, hc.prev⟩, trivial⟩

theorem withNoIn {noIn : Bool} (h : S.Keeps p A) : S.Keeps (Parse.withNoIn noIn p) A := by
  intro c hc
  have hp := @h { c with noIn := noIn } ⟨hc.rest, hc.prev⟩
  unfold Parse.withNoIn
  cases hpc : p { c with noIn := noIn } with
  | error e c' =>
    rw [hpc] at hp
    exact hp
  | ok a c' =>
    rw [hpc] at hp
    exact ⟨⟨hp.1.rest, hp.1.prev⟩, hp.2⟩

/-! ### Loops -/

section
variable {item : Parse α} {close : Token.Kind}

theorem sized {p : Nat → Parse α} (h : ∀ size, S.Keeps (p size) A) : S.Keeps (Parse.sized p) A := fun _ hc => h _ hc

theorem many {stop : Cursor → Bool} (hitem : S.Keeps item A) : S.Keeps (Parse.many stop item) fun as => ∀ a ∈ as, A a := by
  refine sized fun size => ?_
  induction size with
  | zero => exact .failHere
  | succ size ih =>
    refine .see fun _ => .ite (.pure nofun) (hitem.bind fun a ha => ih.bind fun as has => .pure ?_)
    exact List.forall_mem_cons.mpr ⟨ha, has⟩

theorem separated (hitem : S.Keeps item A) : S.Keeps (Parse.separated close item) fun as => ∀ a ∈ as, A a := by
  refine sized fun size => ?_
  induction size with
  | zero => exact .failHere
  | succ size ih =>
    refine .see fun _ => .ite (.pure nofun) (hitem.bind fun a ha => eat.bind fun _ _ => .ite ?_ (.pure (by simpa using ha)))
    exact ih.bind fun as has => .pure (List.forall_mem_cons.mpr ⟨ha, has⟩)

theorem elements (hitem : S.Keeps item A) : S.Keeps (Parse.elements close item) fun as => ∀ a, some a ∈ as → A a := by
  have hcons : ∀ {o : Option α} {as : List (Option α)}, (∀ a ∈ o, A a) → (∀ a, some a ∈ as → A a) →
      ∀ a, some a ∈ o :: as → A a := by
    intro o as ho has a ha
    rcases List.mem_cons.mp ha with ha | ha
    · exact ho a ha.symm
    · exact has a ha
  refine sized fun size => ?_
  induction size with
  | zero => exact .failHere
  | succ size ih =>
    refine .see fun _ => .ite (.pure nofun) (eat.bind fun _ _ => .ite ?_ ?_)
    · exact ih.bind fun as has => .pure (hcons nofun has)
    · refine hitem.bind fun a ha => eat.bind fun _ _ => ?_
      have hone : ∀ b ∈ some a, A b := fun b hb => by cases hb; exact ha
      exact .ite (ih.bind fun as has => .pure (hcons hone has)) (.pure (hcons hone nofun))

theorem commaList (hitem : S.Keeps item A) : S.Keeps (Parse.commaList item) fun as => ∀ a ∈ as, A a := by
  refine sized fun size => ?_
  induction size with
  | zero => exact .failHere
  | succ size ih =>
    refine hitem.bind fun a ha => eat.bind fun _ _ => .ite ?_ (.pure (by simpa using ha))
    exact ih.bind fun as has => .pure (List.forall_mem_cons.mpr ⟨ha, has⟩)

theorem extend {step : α → Parse (Option α)} (hstep : ∀ a, A a → S.Keeps (step a) fun o => ∀ b ∈ o, A b) {a : α}
    (ha : A a) : S.Keeps (Parse.extend step a) A := by
  refine sized fun size => ?_
  induction size generalizing a with
  | zero => exact .failHere
  | succ size ih =>
    refine (hstep a ha).bind fun o ho => ?_
    cases o with
    | none => exact .pure ha
    | some b => exact ih (ho b rfl)

end

end Keeps

/-! ### Productions -/

/-- The span of a pattern and that of the place of a receiver in it. -/
def HasPattern (S : SpanSet) (p : Pattern) : Prop := p.span ∈ S ∧ ∀ s ∈ p.findThis?, s ∈ S

/-- The parameters of a function, as far as they are read. -/
def HasParams (S : SpanSet) (fn : Function) : Prop := ∀ p ∈ fn.params, S.HasPattern p

/-- The productions as other productions call them. -/
structure KeepsRules (S : SpanSet) (r : Rules) : Prop where
  statement : S.Keeps r.statement (·.span ∈ S)
  expr : S.Keeps r.expr (·.span ∈ S)
  assign : S.Keeps r.assign (·.span ∈ S)
  conditional : S.Keeps r.conditional (·.span ∈ S)
  binary : ∀ least, S.Keeps (r.binary least) (·.span ∈ S)
  unary : S.Keeps r.unary (·.span ∈ S)
  new : S.Keeps r.new (·.span ∈ S)
  binding : S.Keeps r.binding S.HasPattern
  function : ∀ {start} name isArrow, start ∈ S → S.Keeps (r.function start name isArrow) (·.span ∈ S)

/-- What a layer makes of the productions below it. -/
structure KeepsLayer (S : SpanSet) (layer : Layer) : Prop where
  statement : ∀ {r inner}, S.KeepsRules r → S.Keeps inner (·.span ∈ S) → S.Keeps (layer.statement r inner) (·.span ∈ S)
  binding : ∀ {r inner}, S.KeepsRules r → S.Keeps inner S.HasPattern → S.Keeps (layer.binding r inner) S.HasPattern
  atom : ∀ {r inner}, S.KeepsRules r → S.Keeps inner (·.span ∈ S) → S.Keeps (layer.atom r inner) (·.span ∈ S)
  trailing : ∀ {r inner}, S.KeepsRules r → (∀ e : Expr, e.span ∈ S → S.Keeps (inner e) (·.span ∈ S)) →
    ∀ e : Expr, e.span ∈ S → S.Keeps (layer.trailing r inner e) (·.span ∈ S)
  params : ∀ {r inner}, S.KeepsRules r → (∀ fn, S.HasParams fn → S.Keeps (inner fn) S.HasParams) →
    ∀ fn, S.HasParams fn → S.Keeps (layer.params r inner fn) S.HasParams
  body : ∀ {r inner}, S.KeepsRules r → (∀ fn, S.HasParams fn → S.Keeps (inner fn) fun _ => True) →
    ∀ fn, S.HasParams fn → S.Keeps (layer.body r inner fn) fun _ => True

/-- The layer that changes nothing. -/
theorem KeepsLayer.plain : S.KeepsLayer .plain where
  statement _ h := h
  binding _ h := h
  atom _ h := h
  trailing _ h := h
  params _ h := h
  body _ h := h

end SpanSet

end LabelWeaver
