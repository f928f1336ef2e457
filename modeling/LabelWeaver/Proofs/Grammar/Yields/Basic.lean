import LabelWeaver.Proofs.Tree.Proper
import LabelWeaver.Grammar.Basic

/-! What readers yield. Two readers start at the same cursor. If the first one succeeds, its result is
    made as a `Making` says, and the second one succeeds with the same result at the same place; the
    one exception is a place from which the first one cannot reach the end of the program. With one
    reader in both roles this is a statement about its results alone. -/

namespace LabelWeaver

/-! ### Cursors -/

/-- The cursor behind the token `t`. -/
def Cursor.past (c : Cursor) (t : Token) (ts : List Token) : Cursor := { c with rest := ts, prev := t.span }

/-- The current token is a colon. -/
def Cursor.AtColon (c : Cursor) : Prop := c.kind? = some (.punct .colon)

/-- Neither an arrow nor the body of a function follows. -/
def Cursor.Bodiless (c : Cursor) : Prop := c.isAt (.punct .arrow) = false ∧ c.isAt (.punct .lbrace) = false

/-- No cursor. -/
def Cursor.Never (_ : Cursor) : Prop := False

theorem Cursor.kind?_of_rest {c : Cursor} {t : Token} {ts : List Token} (h : c.rest = t :: ts) :
    c.kind? = some t.kind := by
  rw [kind?, peek?, h]
  rfl

theorem Cursor.Never.atColon {c : Cursor} (h : c.Never) : c.AtColon := h.elim

theorem Cursor.AtColon.bodiless {c : Cursor} (h : c.AtColon) : c.Bodiless := by
  have hkind : c.kind? = some (.punct .colon) := h
  exact ⟨by simp [isAt, hkind], by simp [isAt, hkind]⟩

theorem Cursor.AtColon.rest {c : Cursor} (h : c.AtColon) :
    ∃ t ts, c.rest = t :: ts ∧ t.kind = .punct .colon := by
  cases hc : c.rest with
  | nil => simp [AtColon, kind?, peek?, hc] at h
  | cons t ts =>
    rw [AtColon, kind?_of_rest hc] at h
    exact ⟨t, ts, rfl, Option.some.inj h⟩

/-! ### Steps -/

theorem Except.exists_of_any {ε α : Type} {x : Except ε α} {f : α → Bool} (h : x.toOption.any f = true) :
    ∃ a, x = .ok a ∧ f a = true := by
  cases x with
  | error e => cases h
  | ok a => exact ⟨a, rfl, h⟩

section
variable {α β : Type} {c c' : Cursor} {p : Parse α} {f : α → Parse β}

theorem Parse.bind_ok {a : α} (h : p c = .ok a c') : (p >>= f) c = f a c' := by
  change EStateM.bind p f c = _
  unfold EStateM.bind
  rw [h]

theorem Parse.bind_error {e : SyntaxError} (h : p c = .error e c') : (p >>= f) c = .error e c' := by
  change EStateM.bind p f c = _
  unfold EStateM.bind
  rw [h]

theorem Parse.bind_eq_ok {b : β} (h : (p >>= f) c = .ok b c') : ∃ a c₁, p c = .ok a c₁ ∧ f a c₁ = .ok b c' := by
  cases hp : p c with
  | error e c₁ =>
    rw [Parse.bind_error hp] at h
    cases h
  | ok a c₁ =>
    rw [Parse.bind_ok hp] at h
    exact ⟨a, c₁, rfl, h⟩

theorem Parse.eat_eq_false {k : Token.Kind} (h : c.isAt k = false) : Parse.eat k c = .ok false c := by
  unfold Parse.eat
  split
  · next t ts hrest =>
    rw [Cursor.isAt, Cursor.kind?_of_rest hrest] at h
    exact if_neg (by simpa using h)
  · rfl

theorem Parse.eat_eq_true {k : Token.Kind} {t : Token} {ts : List Token} (hrest : c.rest = t :: ts)
    (hk : t.kind.sameSort k = true) : Parse.eat k c = .ok true (c.past t ts) := by
  simp [Parse.eat, hrest, hk, Cursor.past]

theorem Parse.advance_eq_ok {t : Token} {ts : List Token} (hrest : c.rest = t :: ts) (hk : t.kind ≠ .eof) :
    Parse.advance c = .ok t (c.past t ts) := by
  simp [Parse.advance, hrest, hk, Cursor.past]

end

/-! ### Makings -/

/-- What is said about the nodes that are read. `made lo hi n` is about a node that was read while
    the number of the next return went from `lo` to `hi`. -/
structure Making where
  /-- The tokens that are read. -/
  admits : Token.Kind → Prop
  lexis : Lexis
  made : Nat → Nat → Node → Prop
  /-- The second reader may take a colon for the start of an annotation. -/
  tolerant : Prop
  /-- What may be left of the tokens. -/
  ahead : List Token → Prop := fun _ => True
  /-- The rules with which the first reader goes on. -/
  own : Rules → Prop := fun _ => True
  /-- Functions whose parameter list is read, and what stands behind it. -/
  signed : Function → Prop := fun _ => True
  /-- Functions are left to the productions that read them. -/
  node : ∀ {lo hi n}, n.isPlain = true → n.Proper lexis → Run made lo hi n.parts → made lo hi n
  site : ∀ n, made n (n + 1) (.site n)
  item : ∀ {lo hi e}, made lo hi (.expr e) → made lo hi (.item e)
  name : ∀ {k x}, admits k → k.identText? = some x → lexis.name x
  propertyName : ∀ {k x}, admits k → k.propertyText? = some x → lexis.property x
  number : ∀ {x}, admits (.number x) → lexis.number x
  regex : ∀ {x y}, admits (.regex x y) → lexis.regex x y
  ahead_tail : ∀ {t ts}, ahead (t :: ts) → ahead ts := by exact fun _ => trivial

namespace Making

variable (M : Making) {α β : Type}

def Admits (c : Cursor) : Prop := (∀ t ∈ c.rest, M.admits t.kind) ∧ M.ahead c.rest

/-- A place from which the first reader cannot reach the end of the program. -/
def Dead (c : Cursor) : Prop := M.tolerant ∧ c.AtColon

/-- Wherever the first reader succeeds, the result satisfies `A`, and the second reader does the same
    or the place that is reached satisfies `D`. -/
def Yields (D : Cursor → Prop) (c : Cursor) (p q : Parse α) (A : Cursor → α → Prop) : Prop :=
  M.Admits c → ∀ ⦃a : α⦄ ⦃c' : Cursor⦄, p c = .ok a c' → M.Admits c' ∧ A c' a ∧ (q c = .ok a c' ∨ D c')

/-- What one round of a loop yields: nothing, or a value that goes into the next one. -/
def Stepped (A : Cursor → α → Prop) (c c' : Cursor) : Option α → Prop
  | none => c' = c
  | some a => A c' a

/-- The result is a node of this kind that is made. -/
abbrev on (f : α → Node) (lo : Nat) (c : Cursor) (a : α) : Prop := M.made lo c.nextSite (f a)

variable {M} {D E : Cursor → Prop} {c : Cursor}

/-- Results that are made are nodes that are made. -/
theorem nodes {f : α → Node} {lo hi : Nat} {as : List α} (h : Run (fun lo hi a => M.made lo hi (f a)) lo hi as) :
    Run M.made lo hi (as.map f) :=
  run_map_iff.mpr h

theorem optionNodes {f : α → Node} {lo hi : Nat} {a : Option α}
    (h : Maybe (fun lo hi a => M.made lo hi (f a)) lo hi a) : Run M.made lo hi (a.toList.map f) :=
  run_toList_iff.mpr h

theorem Admits.past {t : Token} {ts : List Token} (h : M.Admits c) (hc : c.rest = t :: ts) :
    M.admits t.kind ∧ M.Admits (c.past t ts) := by
  rw [Admits, hc] at h
  exact ⟨h.1 t List.mem_cons_self, fun t' ht' => h.1 t' (List.mem_cons_of_mem _ ht'), M.ahead_tail h.2⟩

/-! ### Readers that go on from a dead end -/

/-- If the reader succeeds, the place that is reached satisfies `E`. -/
def Dies (E : Cursor → Prop) (c : Cursor) (p : Parse α) : Prop := ∀ ⦃a : α⦄ ⦃c' : Cursor⦄, p c = .ok a c' → E c'

namespace Dies

variable {f : β → Parse α} {k : Token.Kind}

theorem pure {a : α} (h : E c) : Dies E c (pure a) := by
  rintro _ _ ⟨⟩
  exact h

theorem failAt {fault : SyntaxFault} {span : Span} : Dies E c (Parse.failAt fault span : Parse α) := by
  rintro _ _ ⟨⟩

theorem failAt_bind {fault : SyntaxFault} {span : Span} : Dies E c (Parse.failAt fault span >>= f) := by
  rintro _ _ ⟨⟩

theorem failHere_bind {fault : SyntaxFault} : Dies E c (Parse.failHere fault >>= f) := by
  rintro _ _ ⟨⟩

theorem bind {p : Parse β} (hp : Dies Cursor.Never c p) : Dies E c (p >>= f) := by
  intro a c' h
  obtain ⟨b, c₁, hpc, -⟩ := Parse.bind_eq_ok h
  exact (hp hpc).elim

theorem look {h : Cursor → β} (hf : Dies E c (f (h c))) : Dies E c (Parse.look h >>= f) := hf

theorem eat {f : Bool → Parse α} (hc : c.AtColon) (hk : (Token.Kind.punct .colon).sameSort k = false)
    (hf : Dies E c (f false)) : Dies E c (Parse.eat k >>= f) := by
  have hkind : c.kind? = some (.punct .colon) := hc
  have hno : c.isAt k = false := by simp [Cursor.isAt, hkind, hk]
  intro a c' h
  rw [Parse.bind_ok (Parse.eat_eq_false hno)] at h
  exact hf h

theorem expectOther {f : Token → Parse α} (hk : c.isAt k = false) : Dies E c (Parse.expect k >>= f) := by
  intro a c' h
  obtain ⟨t, c₁, hexpect, -⟩ := Parse.bind_eq_ok h
  obtain ⟨u, c₂, hadvance, hu⟩ := Parse.bind_eq_ok hexpect
  cases hrest : c.rest with
  | nil => simp [Parse.advance, hrest] at hadvance
  | cons t' ts =>
    rw [Cursor.isAt, Cursor.kind?_of_rest hrest] at hk
    by_cases heof : t'.kind = .eof
    · simp [Parse.advance, hrest, heof] at hadvance
    · rw [Parse.advance_eq_ok hrest heof] at hadvance
      cases hadvance
      rw [if_neg (by simpa using hk)] at hu
      cases hu

theorem expect {f : Token → Parse α} (hc : c.AtColon) (hk : (Token.Kind.punct .colon).sameSort k = false) :
    Dies E c (Parse.expect k >>= f) := by
  have hkind : c.kind? = some (.punct .colon) := hc
  exact expectOther (by simp [Cursor.isAt, hkind, hk])

theorem consumeSemicolon {f : Unit → Parse α} (hc : c.AtColon) (hf : Dies E c (f ())) :
    Dies E c (Parse.consumeSemicolon >>= f) := by
  simp only [Parse.consumeSemicolon, bind_assoc]
  refine eat hc rfl ?_
  simp only [Bool.false_eq_true, if_false, bind_assoc]
  refine look ?_
  split
  · exact hf
  · exact failHere_bind

end Dies

/-! ### Putting readers together -/

namespace Yields

variable {A A' : Cursor → α → Prop} {B : Cursor → β → Prop} {p p' q q' : Parse α} {f g : α → Parse β}

theorem pure {a : α} (h : A c a) : M.Yields D c (pure a) (pure a) A := by
  rintro hc _ _ ⟨⟩
  exact ⟨hc, h, .inl rfl⟩

theorem failAt {fault : SyntaxFault} {span : Span} : M.Yields D c (Parse.failAt fault span) q A := by
  rintro - _ _ ⟨⟩

theorem failHere {fault : SyntaxFault} : M.Yields D c (Parse.failHere fault) q A := by
  rintro - _ _ ⟨⟩

/-- What comes after a failure does not count. -/
theorem failAt_bind {fault : SyntaxFault} {span : Span} {q : Parse β} :
    M.Yields D c (Parse.failAt fault span >>= f) q B := by
  rintro - _ _ ⟨⟩

theorem failHere_bind {fault : SyntaxFault} {q : Parse β} :
    M.Yields D c (Parse.failHere fault >>= f) q B := by
  rintro - _ _ ⟨⟩

theorem of_dies (h : Dies Cursor.Never c p) : M.Yields D c p q A := fun _ _ _ hp => (h hp).elim

theorem imp (h : M.Yields D c p q A) (hA : ∀ {c' a}, A c' a → A' c' a) : M.Yields D c p q A' := by
  intro hc a c' hp
  obtain ⟨hc', ha, hq⟩ := h hc hp
  exact ⟨hc', hA ha, hq⟩

theorem weaken (h : M.Yields Cursor.Never c p q A) : M.Yields D c p q A := by
  intro hc a c' hp
  obtain ⟨hc', ha, hq⟩ := h hc hp
  exact ⟨hc', ha, .inl (hq.resolve_right id)⟩

/-- After a dead end the first reader has to die. -/
theorem bindDead (hp : M.Yields D c p q A) (hf : ∀ {c' a}, A c' a → M.Yields E c' (f a) (g a) B)
    (hdead : ∀ {c' a}, D c' → A c' a → Dies E c' (f a)) : M.Yields E c (p >>= f) (q >>= g) B := by
  intro hc b c'' h
  obtain ⟨a, c', hpc, hfc⟩ := Parse.bind_eq_ok h
  obtain ⟨hc', ha, hq⟩ := hp hc hpc
  obtain ⟨hc'', hb, hg⟩ := hf ha hc' hfc
  refine ⟨hc'', hb, ?_⟩
  rcases hq with hq | hd
  · rw [Parse.bind_ok hq]
    exact hg
  · exact .inr (hdead hd ha hfc)

theorem bind (hp : M.Yields Cursor.Never c p q A) (hf : ∀ {c' a}, A c' a → M.Yields D c' (f a) (g a) B) :
    M.Yields D c (p >>= f) (q >>= g) B :=
  hp.bindDead hf fun h => h.elim

theorem map {f : α → β} (hp : M.Yields Cursor.Never c p q A) (hf : ∀ {c' a}, A c' a → B c' (f a)) :
    M.Yields D c (f <$> p) (f <$> q) B := by
  rw [map_eq_pure_bind, map_eq_pure_bind]
  exact hp.bind fun ha => .pure (hf ha)

/-- One reader in other words. -/
theorem of_eq {s : Parse α} (hp : p = s) (h : M.Yields D c s s A) : M.Yields D c p p A := hp ▸ h

/-- The second reader in other words. -/
theorem congr {s : Parse α} (hq : M.Admits c → q c = s c) (h : M.Yields D c p s A) : M.Yields D c p q A := by
  intro hc a c' hp
  rw [hq hc]
  exact h hc hp

/-- The second reader goes on, and leaves the result as it is. -/
theorem andThen {f : α → Parse α} (h : M.Yields D c p q A)
    (hf : ∀ {c' a}, M.Admits c' → A c' a → f a c' = .ok a c' ∨ D c') : M.Yields D c p (q >>= f) A := by
  intro hc a c' hp
  obtain ⟨hc', ha, hq⟩ := h hc hp
  refine ⟨hc', ha, ?_⟩
  rcases hq with hq | hd
  · rw [Parse.bind_ok hq]
    exact hf hc' ha
  · exact .inr hd

/-- Two ways to a value. -/
theorem either {b : Bool} (hp : b = true → M.Yields Cursor.Never c p q A)
    (hp' : b = false → M.Yields Cursor.Never c p' q' A)
    (hf : ∀ {c' a}, A c' a → M.Yields D c' (f a) (g a) B) :
    M.Yields D c (if b then p >>= f else p' >>= f) (if b then q >>= g else q' >>= g) B := by
  cases b with
  | true => exact (hp rfl).bind hf
  | false => exact (hp' rfl).bind hf

/-! ### Single tokens -/

/-- What both readers see. -/
theorem look {h : Cursor → α} (hf : M.Yields D c (f (h c)) (g (h c)) B) :
    M.Yields D c (Parse.look h >>= f) (Parse.look h >>= g) B := hf

theorem advance {f g : Token → Parse β}
    (hf : ∀ {t ts}, c.rest = t :: ts → M.admits t.kind → M.Yields D (c.past t ts) (f t) (g t) B) :
    M.Yields D c (Parse.advance >>= f) (Parse.advance >>= g) B := by
  intro hc b c' h
  obtain ⟨t, c₁, hadvance, -⟩ := Parse.bind_eq_ok h
  cases hrest : c.rest with
  | nil => simp [Parse.advance, hrest] at hadvance
  | cons t' ts =>
    by_cases hk : t'.kind = .eof
    · simp [Parse.advance, hrest, hk] at hadvance
    · obtain ⟨ht, hpast⟩ := hc.past hrest
      rw [Parse.bind_ok (Parse.advance_eq_ok hrest hk)] at h ⊢
      exact hf hrest ht hpast h

theorem eat {k : Token.Kind} {f g : Bool → Parse β}
    (htrue : ∀ {t ts}, c.rest = t :: ts → t.kind.sameSort k = true →
      M.Yields D (c.past t ts) (f true) (g true) B)
    (hfalse : c.isAt k = false → M.Yields D c (f false) (g false) B) :
    M.Yields D c (Parse.eat k >>= f) (Parse.eat k >>= g) B := by
  intro hc b c' h
  cases hat : c.isAt k with
  | false =>
    rw [Parse.bind_ok (Parse.eat_eq_false hat)] at h ⊢
    exact hfalse hat hc h
  | true =>
    cases hrest : c.rest with
    | nil => simp [Cursor.isAt, Cursor.kind?, Cursor.peek?, hrest] at hat
    | cons t ts =>
      have hk : t.kind.sameSort k = true := by
        rw [Cursor.isAt, Cursor.kind?_of_rest hrest] at hat
        simpa using hat
      rw [Parse.bind_ok (Parse.eat_eq_true hrest hk)] at h ⊢
      exact htrue hrest hk (hc.past hrest).2 h

theorem expect {k : Token.Kind} {f g : Token → Parse β}
    (hf : ∀ {t ts}, c.rest = t :: ts → t.kind.sameSort k = true → M.Yields D (c.past t ts) (f t) (g t) B) :
    M.Yields D c (Parse.expect k >>= f) (Parse.expect k >>= g) B := by
  simp only [Parse.expect, bind_assoc]
  refine advance fun hrest _ => ?_
  split
  · next hk =>
    simp only [pure_bind]
    exact hf hrest hk
  · exact failAt_bind

theorem expectIdent {f g : Name → Parse β}
    (hf : ∀ {t ts n}, c.rest = t :: ts → M.lexis.name n.text → M.Yields D (c.past t ts) (f n) (g n) B) :
    M.Yields D c (Parse.expectIdent >>= f) (Parse.expectIdent >>= g) B := by
  simp only [Parse.expectIdent, bind_assoc]
  refine advance fun hrest ht => ?_
  split
  · next hk =>
    simp only [pure_bind]
    exact hf hrest (M.name ht hk)
  · exact failAt_bind

theorem expectPropertyName {f g : Name → Parse β}
    (hf : ∀ {t ts n}, c.rest = t :: ts → M.lexis.property n.text → M.Yields D (c.past t ts) (f n) (g n) B) :
    M.Yields D c (Parse.expectPropertyName >>= f) (Parse.expectPropertyName >>= g) B := by
  simp only [Parse.expectPropertyName, bind_assoc]
  refine advance fun hrest ht => ?_
  split
  · next hk =>
    simp only [pure_bind]
    exact hf hrest (M.propertyName ht hk)
  · exact failAt_bind

theorem consumeSemicolon {f g : Unit → Parse β}
    (hf : ∀ {c' : Cursor}, c'.nextSite = c.nextSite → M.Yields D c' (f ()) (g ()) B) :
    M.Yields D c (Parse.consumeSemicolon >>= f) (Parse.consumeSemicolon >>= g) B := by
  simp only [Parse.consumeSemicolon, bind_assoc]
  refine eat (fun _ _ => ?_) fun _ => ?_
  · simp only [if_true, pure_bind]
    exact hf rfl
  · simp only [Bool.false_eq_true, if_false, bind_assoc]
    refine look ?_
    split
    · simp only [pure_bind]
      exact hf rfl
    · exact failHere_bind

theorem freshSite {f g : Nat → Parse β}
    (hf : M.Yields D { c with nextSite := c.nextSite + 1 } (f c.nextSite) (g c.nextSite) B) :
    M.Yields D c (Parse.freshSite >>= f) (Parse.freshSite >>= g) B := hf

theorem withNoIn {noIn : Bool} (hD : ∀ {c' : Cursor} {b}, D c' → D { c' with noIn := b })
    (h : M.Yields D { c with noIn := noIn } p q fun c' a => A { c' with noIn := c.noIn } a) :
    M.Yields D c (Parse.withNoIn noIn p) (Parse.withNoIn noIn q) A := by
  intro hc a c' hp
  unfold Parse.withNoIn at hp ⊢
  split at hp
  · next a₁ c₁ hpc =>
    obtain ⟨hc₁, ha, hq⟩ := h hc hpc
    cases hp
    refine ⟨hc₁, ha, ?_⟩
    rcases hq with hq | hd
    · rw [hq]
      exact .inl rfl
    · exact .inr (hD hd)
  · cases hp

theorem resetNoIn {noIn : Bool} {f : α → Node} {lo : Nat}
    (h : M.Yields Cursor.Never { c with noIn := noIn } p q (M.on f lo)) :
    M.Yields Cursor.Never c (Parse.withNoIn noIn p) (Parse.withNoIn noIn q) (M.on f lo) :=
  withNoIn id h

section
variable {b : Bool} {f g : Option α → Parse β} {R : Nat → Nat → α → Prop}

/-- What may be left out. -/
theorem optional (hp : b = true → M.Yields Cursor.Never c p q fun c' a => R c.nextSite c'.nextSite a)
    (hf : ∀ {c' : Cursor} {a}, Maybe R c.nextSite c'.nextSite a → M.Yields D c' (f a) (g a) B) :
    M.Yields D c (if b then some <$> p >>= f else Pure.pure none >>= f)
      (if b then some <$> q >>= g else Pure.pure none >>= g) B :=
  either (A := fun c' a => Maybe R c.nextSite c'.nextSite a) (fun hb => (hp hb).map id) (fun _ => .pure rfl) hf

theorem optionalUnless (hp : b = false → M.Yields Cursor.Never c p q fun c' a => R c.nextSite c'.nextSite a)
    (hf : ∀ {c' : Cursor} {a}, Maybe R c.nextSite c'.nextSite a → M.Yields D c' (f a) (g a) B) :
    M.Yields D c (if b then Pure.pure none >>= f else some <$> p >>= f)
      (if b then Pure.pure none >>= g else some <$> q >>= g) B :=
  either (A := fun c' a => Maybe R c.nextSite c'.nextSite a) (fun _ => .pure rfl) (fun hb => (hp hb).map id) hf

/-- What stands behind a token that may be missing. -/
theorem eatOptional {k : Token.Kind}
    (hp : ∀ {t ts}, c.rest = t :: ts →
      M.Yields Cursor.Never (c.past t ts) p q fun c' a => R c.nextSite c'.nextSite a)
    (hf : ∀ {c' : Cursor} {a}, Maybe R c.nextSite c'.nextSite a → M.Yields D c' (f a) (g a) B) :
    M.Yields D c (Parse.eat k >>= fun b => if b then some <$> p >>= f else Pure.pure none >>= f)
      (Parse.eat k >>= fun b => if b then some <$> q >>= g else Pure.pure none >>= g) B :=
  eat (fun hrest _ => optional (fun _ => hp hrest) hf) fun _ => optional (fun h => by cases h) hf

end

/-! ### Loops -/

section
variable {item item' : Parse α} {R : Nat → Nat → α → Prop} {close : Token.Kind}

theorem manyFrom {stop : Cursor → Bool}
    (hitem : ∀ c, M.Yields M.Dead c item item' fun c' a => R c.nextSite c'.nextSite a)
    (hdead : ∀ {c}, M.Dead c → stop c = false ∧ Dies Cursor.Never c item) (size : Nat) (c : Cursor) :
    M.Yields Cursor.Never c (Parse.manyFrom stop item size) (Parse.manyFrom stop item' size)
      fun c' as => Run R c.nextSite c'.nextSite as := by
  induction size generalizing c with
  | zero => exact failHere
  | succ size ih =>
    refine look ?_
    split
    · exact .pure (.nil _)
    · refine (hitem c).bindDead (fun ha => (ih _).bind fun has => .pure (.cons ha has)) ?_
      intro c' a hd _ as c'' h
      -- the next round starts at the dead end
      obtain ⟨hstop, hdies⟩ := hdead hd
      cases size with
      | zero => cases h
      | succ size =>
        have hround : Dies Cursor.Never c' (Parse.manyFrom stop item (size + 1)) := by
          refine Dies.look ?_
          rw [hstop]
          exact hdies.bind
        exact Dies.bind hround h

theorem many {stop : Cursor → Bool}
    (hitem : ∀ c, M.Yields M.Dead c item item' fun c' a => R c.nextSite c'.nextSite a)
    (hdead : ∀ {c}, M.Dead c → stop c = false ∧ Dies Cursor.Never c item) (c : Cursor) :
    M.Yields Cursor.Never c (Parse.many stop item) (Parse.many stop item')
      fun c' as => Run R c.nextSite c'.nextSite as :=
  manyFrom hitem hdead (c.rest.length + 1) c

theorem separated (hD : ∀ {c}, D c → c.AtColon)
    (hitem : ∀ c, M.Yields D c item item' fun c' a => R c.nextSite c'.nextSite a)
    (c : Cursor) : M.Yields D c (Parse.separated close item) (Parse.separated close item')
      fun c' as => Run R c.nextSite c'.nextSite as := by
  suffices h : ∀ size c, M.Yields D c (Parse.separatedFrom close item size)
      (Parse.separatedFrom close item' size) fun c' as => Run R c.nextSite c'.nextSite as from
    h (c.rest.length + 1) c
  intro size
  induction size with
  | zero => exact fun c => failHere
  | succ size ih =>
    intro c
    refine look ?_
    split
    · exact .pure (.nil _)
    · refine (hitem c).bindDead (fun ha => eat (fun _ _ => ?_) fun _ => .pure (.cons ha (.nil _)))
        fun hd _ => .eat (hD hd) rfl (.pure hd)
      exact (ih _).bindDead (fun has => .pure (.cons ha has)) fun hd _ => .pure hd

theorem elements (hD : ∀ {c}, D c → c.AtColon)
    (hitem : ∀ c, M.Yields D c item item' fun c' a => R c.nextSite c'.nextSite a)
    (c : Cursor) : M.Yields D c (Parse.elements close item) (Parse.elements close item')
      fun c' as => Run (Maybe R) c.nextSite c'.nextSite as := by
  suffices h : ∀ size c, M.Yields D c (Parse.elementsFrom close item size)
      (Parse.elementsFrom close item' size) fun c' as => Run (Maybe R) c.nextSite c'.nextSite as from
    h (c.rest.length + 1) c
  intro size
  induction size with
  | zero => exact fun c => failHere
  | succ size ih =>
    intro c
    refine look ?_
    split
    · exact .pure (.nil _)
    · refine eat (fun _ _ => ?_) fun _ => ?_
      · exact (ih _).bindDead (fun has => .pure (.cons (a := none) rfl has)) fun hd _ => .pure hd
      · refine (hitem c).bindDead (fun ha => eat (fun _ _ => ?_) fun _ => .pure (.cons (a := some _) ha (.nil _)))
          fun hd _ => .eat (hD hd) rfl (.pure hd)
        exact (ih _).bindDead (fun has => .pure (.cons (a := some _) ha has)) fun hd _ => .pure hd

theorem commaList (hD : ∀ {c}, D c → c.AtColon)
    (hitem : ∀ c, M.Yields D c item item' fun c' a => R c.nextSite c'.nextSite a)
    (c : Cursor) : M.Yields D c (Parse.commaList item) (Parse.commaList item')
      fun c' as => as ≠ [] ∧ Run R c.nextSite c'.nextSite as := by
  suffices h : ∀ size c, M.Yields D c (Parse.commaListFrom item size)
      (Parse.commaListFrom item' size) fun c' as => as ≠ [] ∧ Run R c.nextSite c'.nextSite as from
    h (c.rest.length + 1) c
  intro size
  induction size with
  | zero => exact fun c => failHere
  | succ size ih =>
    intro c
    refine (hitem c).bindDead
      (fun ha => eat (fun _ _ => ?_) fun _ => .pure ⟨List.cons_ne_nil _ _, .cons ha (.nil _)⟩)
      fun hd _ => .eat (hD hd) rfl (.pure hd)
    exact (ih _).bindDead (fun has => .pure ⟨List.cons_ne_nil _ _, .cons ha has.2⟩) fun hd _ => .pure hd

theorem extend {step step' : α → Parse (Option α)} {B : Cursor → α → Prop}
    (hstep : ∀ {c a}, B c a → M.Yields Cursor.Never c (step a) (step' a) (Stepped B c))
    {a : α} (ha : B c a) : M.Yields Cursor.Never c (Parse.extend step a) (Parse.extend step' a) B := by
  suffices h : ∀ size {c a}, B c a → M.Yields Cursor.Never c (Parse.extendFrom step size a)
      (Parse.extendFrom step' size a) B from h (c.rest.length + 1) ha
  intro size
  induction size with
  | zero => exact fun _ => failHere
  | succ size ih =>
    intro c a ha
    refine (hstep ha).bind fun {c' o} ho => ?_
    cases o with
    | none =>
      cases ho
      exact .pure ha
    | some b => exact ih ho

end

end Yields

end Making

end LabelWeaver
