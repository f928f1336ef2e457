import LabelWeaver.Proofs.Layout.Text
import LabelWeaver.Proofs.Grammar.Yields.Basic
import Mathlib.Data.List.Forall2

/-! Readers that recover what was laid out. A reader `Recovers` a text if it succeeds wherever the text
    stands, reads it to its end and gives what the text stands for. Productions are bounded by the
    number of tokens, so the bound is part of the statement. -/

namespace LabelWeaver

open Layout Parse

/-! ### Cursors at a text -/

/-- The cursor is at the start of a text. -/
structure Cursor.Ready (line b : Bool) (site : Nat) (ks : Text) (c : Cursor) : Prop where
  fits : Fits line c.rest ks
  noIn : c.noIn = b
  site : c.nextSite = site

namespace Cursor.Ready

variable {line b : Bool} {n : Nat} {ks : Text} {k : Token.Kind} {c : Cursor}

theorem length (h : c.Ready line b n ks) : c.rest.length = count ks + 1 := h.fits.length

theorem kind? (h : c.Ready line b n ks) : c.kind? = some (first ks) := by
  obtain ⟨t, ts, hrest, ht⟩ := h.fits.exists_cons
  rw [Cursor.kind?_of_rest hrest, ht]

theorem isAt (h : c.Ready line b n ks) (k : Token.Kind) : c.isAt k = (first ks).sameSort k := by
  rw [Cursor.isAt, h.kind?]
  rfl

theorem isAtIdent (h : c.Ready line b n ks) : c.isAtIdent = (first ks).identText?.isSome := by
  rw [Cursor.isAtIdent, h.kind?]
  rfl

theorem of_none (h : c.Ready line b n (none :: ks)) : c.Ready true b n ks := ⟨h.fits.of_none, h.noIn, h.site⟩

theorem none (h : c.Ready true b n ks) : c.Ready line b n (none :: ks) := ⟨.line h.fits, h.noIn, h.site⟩

theorem of_some (h : c.Ready line b n (some k :: ks)) :
    ∃ t ts, c.rest = t :: ts ∧ t.kind = k ∧ (t.newlineBefore = true → line = true) ∧
      (c.past t ts).Ready false b n ks := by
  obtain ⟨t, ts, hrest, ht, hline, hfits⟩ := h.fits.of_some
  exact ⟨t, ts, hrest, ht, hline, hfits, h.noIn, h.site⟩

/-- No line ends before the token. -/
theorem newlineBefore (h : c.Ready false b n (some k :: ks)) : c.newlineBefore = false := by
  obtain ⟨t, ts, hrest, -, hline, -⟩ := h.of_some
  have ht : t.newlineBefore = false := eq_false_of_ne_true fun ht => by cases hline ht
  simp [Cursor.newlineBefore, peek?, hrest, ht]

theorem withNoIn (h : c.Ready line b n ks) (b' : Bool) : ({ c with noIn := b' } : Cursor).Ready line b' n ks :=
  ⟨h.fits, rfl, h.site⟩

end Cursor.Ready

/-! ### Readers that succeed -/

section
variable {α β : Type}

/-- The reader succeeds, and its result and the cursor behind it satisfy `Q`. -/
def Gives (c : Cursor) (p : Parse α) (Q : α → Cursor → Prop) : Prop := ∃ a c', p c = .ok a c' ∧ Q a c'

namespace Gives

variable {line b : Bool} {n : Nat} {ks : Text} {k k' : Token.Kind} {c : Cursor} {p : Parse α} {f : α → Parse β}
  {P : α → Cursor → Prop} {Q : β → Cursor → Prop}

theorem pure {a : α} (h : P a c) : Gives c (Pure.pure a) P := ⟨a, c, rfl, h⟩

theorem bind (h : Gives c p fun a c' => Gives c' (f a) Q) : Gives c (p >>= f) Q := by
  obtain ⟨a, c', hp, b, c'', hf, hQ⟩ := h
  exact ⟨b, c'', (Parse.bind_ok hp).trans hf, hQ⟩

theorem imp {P' : α → Cursor → Prop} (h : Gives c p P) (hP : ∀ a c', P a c' → P' a c') : Gives c p P' := by
  obtain ⟨a, c', hp, hQ⟩ := h
  exact ⟨a, c', hp, hP a c' hQ⟩

theorem andThen (h : Gives c p P) (hf : ∀ a c', P a c' → Gives c' (f a) Q) : Gives c (p >>= f) Q :=
  bind (h.imp hf)

theorem map {g : α → β} (h : Gives c p fun a c' => Q (g a) c') : Gives c (g <$> p) Q := by
  obtain ⟨a, c', hp, hQ⟩ := h
  refine ⟨g a, c', ?_, hQ⟩
  change EStateM.map g p c = _
  unfold EStateM.map
  rw [hp]

theorem look {g : Cursor → α} (h : Gives c (f (g c)) Q) : Gives c (Parse.look g >>= f) Q := h

theorem kind? {f : Option Token.Kind → Parse β} (hc : c.Ready line b n ks) (h : Gives c (f (some (first ks))) Q) :
    Gives c (Parse.kind? >>= f) Q := by
  rw [← hc.kind?] at h
  exact h

theorem isAt {f : Bool → Parse β} (hc : c.Ready line b n ks) (h : Gives c (f ((first ks).sameSort k)) Q) :
    Gives c (Parse.isAt k >>= f) Q := by
  rw [← hc.isAt] at h
  exact h

theorem advance {f : Token → Parse β} (hc : c.Ready line b n (some k :: ks)) (hk : k ≠ .eof)
    (h : ∀ t c', t.kind = k → c'.Ready false b n ks → Gives c' (f t) Q) : Gives c (Parse.advance >>= f) Q := by
  obtain ⟨t, ts, hrest, ht, -, hpast⟩ := hc.of_some
  obtain ⟨b, c', hf, hQ⟩ := h t (c.past t ts) ht hpast
  exact ⟨b, c', (Parse.bind_ok (Parse.advance_eq_ok hrest (by rwa [ht]))).trans hf, hQ⟩

theorem expect {f : Token → Parse β} (hc : c.Ready line b n (some k :: ks)) (hk : k ≠ .eof)
    (h : ∀ t c', t.kind = k → c'.Ready false b n ks → Gives c' (f t) Q) : Gives c (Parse.expect k >>= f) Q := by
  refine andThen (P := fun t c' => t.kind = k ∧ c'.Ready false b n ks) ?_ fun t c' hP => h t c' hP.1 hP.2
  refine advance hc hk fun t c' ht hc' => ?_
  rw [ht, Token.Kind.sameSort_self, if_pos rfl]
  exact pure ⟨ht, hc'⟩

theorem eat {f : Bool → Parse β} (hc : c.Ready line b n (some k :: ks)) (hk : k.sameSort k' = true)
    (h : ∀ c', c'.Ready false b n ks → Gives c' (f true) Q) : Gives c (Parse.eat k' >>= f) Q := by
  obtain ⟨t, ts, hrest, ht, -, hpast⟩ := hc.of_some
  obtain ⟨b, c', hf, hQ⟩ := h (c.past t ts) hpast
  exact ⟨b, c', (Parse.bind_ok (Parse.eat_eq_true hrest (by rwa [ht]))).trans hf, hQ⟩

theorem pass {f : Bool → Parse β} (hc : c.Ready line b n ks) (hk : (first ks).sameSort k' = false)
    (h : Gives c (f false) Q) : Gives c (Parse.eat k' >>= f) Q := by
  obtain ⟨b, c', hf, hQ⟩ := h
  exact ⟨b, c', (Parse.bind_ok (Parse.eat_eq_false (hc.isAt k' ▸ hk))).trans hf, hQ⟩

theorem ident {x : String} (hc : c.Ready line b n (some (.ident x) :: ks)) :
    Gives c Parse.expectIdent fun name c' => name.text = x ∧ c'.Ready false b n ks := by
  refine advance hc nofun fun t c' ht hc' => ?_
  rw [ht]
  exact pure ⟨rfl, hc'⟩

theorem expectIdent {x : String} {f : Name → Parse β} (hc : c.Ready line b n (some (.ident x) :: ks))
    (h : ∀ name c', name.text = x → c'.Ready false b n ks → Gives c' (f name) Q) :
    Gives c (Parse.expectIdent >>= f) Q :=
  (ident hc).andThen fun name c' hP => h name c' hP.1 hP.2

theorem expectPropertyName {x : String} {f : Name → Parse β} (hc : c.Ready line b n (some k :: ks))
    (hk : k.propertyText? = some x) (h : ∀ name c', name.text = x → c'.Ready false b n ks → Gives c' (f name) Q) :
    Gives c (Parse.expectPropertyName >>= f) Q := by
  refine andThen (P := fun name c' => name.text = x ∧ c'.Ready false b n ks) ?_ fun name c' hP => h name c' hP.1 hP.2
  refine advance hc (fun heof => by rw [heof] at hk; cases hk) fun t c' ht hc' => ?_
  rw [ht, hk]
  exact pure ⟨rfl, hc'⟩

theorem consumeSemicolon {f : Unit → Parse β} (hc : c.Ready line b n (some (.punct .semi) :: ks))
    (h : ∀ c', c'.Ready false b n ks → Gives c' (f ()) Q) : Gives c (Parse.consumeSemicolon >>= f) Q := by
  refine andThen (P := fun _ c' => c'.Ready false b n ks) ?_ fun _ c' hP => h c' hP
  exact eat hc rfl fun c' hc' => pure hc'

theorem freshSite {f : Nat → Parse β} (hc : c.Ready line b n ks)
    (h : ∀ c', c'.Ready line b (n + 1) ks → Gives c' (f n) Q) : Gives c (Parse.freshSite >>= f) Q := by
  have hsite := hc.site
  have hgives := h { c with nextSite := c.nextSite + 1 } ⟨hc.fits, hc.noIn, by rw [hsite]⟩
  rw [← hsite] at hgives
  exact hgives

theorem withNoIn {b' : Bool} (h : Gives { c with noIn := b' } p fun a c' => P a { c' with noIn := c.noIn }) :
    Gives c (Parse.withNoIn b' p) P := by
  obtain ⟨a, c', hp, hP⟩ := h
  refine ⟨a, _, ?_, hP⟩
  unfold Parse.withNoIn
  rw [hp]

theorem underNoIn {b' line' : Bool} {hi : Nat} {rest : Text} {A : α → Prop} (hc : c.Ready line b n ks)
    (h : ∀ c₁, c₁.Ready line b' n ks → Gives c₁ p fun a c' => c'.Ready line' b' hi rest ∧ A a) :
    Gives c (Parse.withNoIn b' p) fun a c' => c'.Ready line' b hi rest ∧ A a :=
  withNoIn ((h _ (hc.withNoIn b')).imp fun _ _ ha => ⟨hc.noIn ▸ ha.1.withNoIn _, ha.2⟩)

theorem sized {p : Nat → Parse α} (hc : c.Ready line b n ks) (h : Gives c (p (count ks + 2)) P) :
    Gives c (Parse.sized p) P := by
  unfold Gives Parse.sized
  rw [hc.length]
  exact h

end Gives

/-! ### Texts that are recovered -/

/-- Where the text `ks` of at most `m` tokens, together with what is behind it, starts, and what is
    behind it starts as `ok` says, the reader reads the text and its result satisfies `A`. -/
def Recovers (m : Nat) (b : Bool) (ok : Token.Kind → Prop) (lo hi : Nat) (ks : Text) (p : Parse α) (A : α → Prop) :
    Prop :=
  ∀ ⦃c : Cursor⦄ ⦃line : Bool⦄ ⦃rest : Text⦄, count (ks ++ rest) ≤ m → ok (first rest) →
    c.Ready line b lo (ks ++ rest) → Gives c p fun a c' => c'.Ready false b hi rest ∧ A a

/-- The reader starts with the text `ks` and goes on with a loop, whose first value satisfies `A`. -/
def Leads (m : Nat) (b : Bool) (ok : Token.Kind → Prop) (lo hi : Nat) (ks : Text) (p : Parse α)
    (step : α → Parse (Option α)) (A : α → Prop) : Prop :=
  ∀ ⦃c : Cursor⦄ ⦃line : Bool⦄ ⦃rest : Text⦄ ⦃Q : α → Cursor → Prop⦄, count (ks ++ rest) ≤ m → ok (first rest) →
    c.Ready line b lo (ks ++ rest) →
    (∀ a c' size, c'.Ready false b hi rest → count rest < size → A a → Gives c' (extendFrom step size a) Q) →
    Gives c p Q

section
variable {m : Nat} {b : Bool} {ok ok' : Token.Kind → Prop} {lo mid hi : Nat} {ks ks' : Text} {p : Parse α}
  {step : α → Parse (Option α)} {A A' : α → Prop}

theorem Recovers.follow (h : Recovers m b ok lo hi ks p A) (hok : ∀ k, ok' k → ok k) : Recovers m b ok' lo hi ks p A :=
  fun _ _ _ hm hrest hc => h hm (hok _ hrest) hc

theorem Recovers.withNoIn {b' : Bool} (h : Recovers m b' ok lo hi ks p A) :
    Recovers m b ok lo hi ks (Parse.withNoIn b' p) A := fun _ _ _ hm hrest hc =>
  .underNoIn hc fun _ hc' => h hm hrest hc'

theorem Leads.follow (h : Leads m b ok lo hi ks p step A) (hok : ∀ k, ok' k → ok k) : Leads m b ok' lo hi ks p step A :=
  fun _ _ _ _ hm hrest hc hQ => h hm (hok _ hrest) hc hQ

/-- A line may end before the text. -/
theorem Recovers.line (h : Recovers m b ok lo hi ks p A) : Recovers m b ok lo hi (none :: ks) p A :=
  fun _ _ _ hm hrest hc => h hm hrest hc.of_none

/-- The loop starts with what a reader recovers. -/
theorem Recovers.leads (h : Recovers m b ok lo hi ks p A) : Leads m b ok lo hi ks (p >>= extend step) step A := by
  intro c line rest Q hm hrest hc hQ
  refine (h hm hrest hc).andThen fun a c' hP => .sized hP.1 ?_
  exact hQ a c' _ hP.1 (by omega) hP.2

/-- One more round of the loop. -/
theorem Leads.more (h : Leads m b ok lo mid ks p step A) (hks : 0 < count ks')
    (hstep : ∀ a, A a → Recovers m b ok' mid hi ks' (step a) fun o => ∃ a', o = some a' ∧ A' a')
    (hok : ∀ rest, ok' (first rest) → ok (first (ks' ++ rest))) : Leads m b ok' lo hi (ks ++ ks') p step A' := by
  intro c line rest Q hm hrest hc hQ
  rw [List.append_assoc] at hm hc
  refine h hm (hok rest hrest) hc fun a c' size hc' hsize ha => ?_
  rw [count_append] at hm hsize
  obtain ⟨size, rfl⟩ : ∃ n, size = n + 1 := ⟨size - 1, by omega⟩
  refine (hstep a ha (by omega) hrest hc').andThen fun o c'' hP => ?_
  obtain ⟨hc'', a', rfl, ha'⟩ := hP
  exact hQ a' c'' size hc'' (by omega) ha'

/-- The loop ends. -/
theorem Leads.stop (h : Leads m b ok lo hi ks p step A) (hok : ∀ k, ok' k → ok k)
    (hstop : ∀ a c line n rest, c.Ready line b n rest → ok' (first rest) →
      Gives c (step a) fun o c' => o = none ∧ c' = c) : Recovers m b ok' lo hi ks p A := by
  intro c line rest hm hrest hc
  refine h hm (hok _ hrest) hc fun a c' size hc' hsize ha => ?_
  obtain ⟨size, rfl⟩ : ∃ n, size = n + 1 := ⟨size - 1, by omega⟩
  refine (hstop a c' false hi rest hc' hrest).andThen fun o c'' hP => ?_
  obtain ⟨rfl, rfl⟩ := hP
  exact .pure ⟨hc', ha⟩

end

/-! ### Productions -/

section
variable {b : Bool} {ok : Token.Kind → Prop} {lo hi : Nat} {ks : Text} {A : α → Prop}

/-- The production recovers the text however deep it may call others, if only deep enough. -/
def Reading (b : Bool) (ok : Token.Kind → Prop) (lo hi : Nat) (ks : Text) (p : Rules → Parse α) (A : α → Prop) : Prop :=
  ∀ d, Recovers d b ok lo hi ks (p (Grammar.rules [] d)) A

/-- The reader recovers the text where others call it, after they read a token. -/
def Calling (b : Bool) (ok : Token.Kind → Prop) (lo hi : Nat) (ks : Text) (p : Rules → Parse α) (A : α → Prop) : Prop :=
  ∀ ⦃d m⦄, m < d → Recovers m b ok lo hi ks (p (Grammar.rules [] d)) A

/-- What a production recovers is recovered when it is called. -/
theorem Reading.calling {p q : Rules → Parse α} (h : Reading b ok lo hi ks p A)
    (hq : ∀ d c, q (Grammar.rules [] (d + 1)) c = p (Grammar.rules [] d) c) : Calling b ok lo hi ks q A := by
  intro d m hm
  obtain ⟨d, rfl⟩ : ∃ n, d = n + 1 := ⟨d - 1, by omega⟩
  intro c line rest hcount hrest hc
  unfold Gives
  rw [hq]
  exact h d (by omega) hrest hc

end

/-! ### Lists -/

section
variable {ι : Type} {m : Nat} {b : Bool} {ok : Token.Kind → Prop} {R : Nat → Nat → ι → Prop} {t : ι → Text}
  {item : Parse α} {A : ι → α → Prop} {lo hi : Nat} {xs : List ι} {rest : Text} {c : Cursor}

/-- Items on lines of their own, up to a token at which the loop stops. -/
theorem Gives.many {stop : Cursor → Bool} {stops : Token.Kind → Bool} {line : Bool}
    (hstop : ∀ {c line n ks}, Cursor.Ready line b n ks c → stop c = stops (first ks))
    (hitem : ∀ {lo hi x}, R lo hi x → Recovers m b ok lo hi (t x) item (A x))
    (hpos : ∀ {lo hi x}, R lo hi x → 0 < count (t x))
    (hfirst : ∀ {lo hi x}, R lo hi x → ∀ ks, stops (first (t x ++ ks)) = false ∧ ok (first (t x ++ ks)))
    (hrun : Run R lo hi xs) (hrest : stops (first rest) = true ∧ ok (first rest))
    (hm : count (lines (xs.map t) ++ none :: rest) ≤ m) (hc : c.Ready line b lo (lines (xs.map t) ++ none :: rest)) :
    Gives c (Parse.many stop item) fun as c' => c'.Ready false b hi (none :: rest) ∧ List.Forall₂ A xs as := by
  suffices hloop : ∀ size, count (lines (xs.map t) ++ none :: rest) < size → Gives c (manyFrom stop item size)
      fun as c' => c'.Ready false b hi (none :: rest) ∧ List.Forall₂ A xs as from .sized hc (hloop _ (by omega))
  induction hrun generalizing c line with
  | nil =>
    intro size hsize
    obtain ⟨size, rfl⟩ : ∃ n, size = n + 1 := ⟨size - 1, by omega⟩
    refine .look ?_
    have hstops : stop c = true := (hstop hc).trans hrest.1
    rw [hstops]
    exact .pure ⟨hc.of_none.none, .nil⟩
  | @cons _ _ _ x xs hx hxs ih =>
    intro size hsize
    obtain ⟨size, rfl⟩ : ∃ n, size = n + 1 := ⟨size - 1, by omega⟩
    rw [List.map_cons, lines_cons_append, count_none] at hsize hm
    rw [List.map_cons, lines_cons_append] at hc
    have hcount := hpos hx
    refine .look ?_
    have hstops : stop c = false := (hstop hc).trans (hfirst hx _).1
    rw [hstops]
    have hnext : ok (first (lines (xs.map t) ++ none :: rest)) := by
      cases hxs with
      | nil => exact hrest.2
      | cons hy _ =>
        rw [List.map_cons, lines_cons_append]
        exact (hfirst hy _).2
    refine (hitem hx hm hnext hc.of_none).andThen fun a c₁ h₁ => ?_
    rw [count_append, count_none] at hm hsize
    refine (ih (by omega) h₁.1.of_none size (by omega)).andThen fun as c₂ h₂ => ?_
    exact .pure ⟨h₂.1, .cons h₁.2 h₂.2⟩

/-- Items with commas between them, up to a closing sign. -/
theorem Gives.separated {close : Punct} (hclose : close ≠ .comma)
    (hitem : ∀ {lo hi x}, R lo hi x → Recovers m b ok lo hi (t x) item (A x))
    (hfirst : ∀ {lo hi x}, R lo hi x → ∀ ks, first (t x ++ ks) ≠ .punct close)
    (hok : ok (.punct .comma) ∧ ok (.punct close)) (hrun : Run R lo hi xs) (hrest : first rest = .punct close)
    (hm : count (commaTexts (xs.map t) ++ rest) ≤ m) (hc : c.Ready false b lo (commaTexts (xs.map t) ++ rest)) :
    Gives c (Parse.separated (.punct close) item) fun as c' => c'.Ready false b hi rest ∧ List.Forall₂ A xs as := by
  suffices hloop : ∀ size, count (commaTexts (xs.map t) ++ rest) < size →
      Gives c (separatedFrom (.punct close) item size) fun as c' =>
        c'.Ready false b hi rest ∧ List.Forall₂ A xs as from .sized hc (hloop _ (by omega))
  induction hrun generalizing c with
  | nil =>
    intro size hsize
    obtain ⟨size, rfl⟩ : ∃ n, size = n + 1 := ⟨size - 1, by omega⟩
    have hc : c.Ready false b _ rest := hc
    refine .isAt hc ?_
    rw [hrest, Token.Kind.sameSort_self]
    exact .pure ⟨hc, .nil⟩
  | @cons _ _ _ x xs hx hxs ih =>
    intro size hsize
    obtain ⟨size, rfl⟩ : ∃ n, size = n + 1 := ⟨size - 1, by omega⟩
    have hx' : ∀ ks, (first (t x ++ ks)).sameSort (.punct close) = false := by simpa using hfirst hx
    cases hxs with
    | nil =>
      have hm : count (t x ++ rest) ≤ m := hm
      have hc : c.Ready false b _ (t x ++ rest) := hc
      refine .isAt hc ?_
      rw [hx']
      refine (hitem hx hm (hrest ▸ hok.2) hc).andThen fun a c₁ h₁ => ?_
      exact .pass h₁.1 (by simpa [hrest] using hclose) (.pure ⟨h₁.1, .cons h₁.2 .nil⟩)
    | cons =>
      rw [List.map_cons, List.map_cons, commaTexts_cons_cons, List.append_assoc, List.cons_append] at hm hc hsize
      refine .isAt hc ?_
      rw [hx']
      refine (hitem hx hm hok.1 hc).andThen fun a c₁ h₁ => .eat h₁.1 rfl fun c₂ h₂ => ?_
      rw [count_append, count_some] at hm hsize
      rw [List.map_cons] at ih
      refine (ih (by omega) h₂ size (by omega)).andThen fun as c₃ h₃ => ?_
      exact .pure ⟨h₃.1, .cons h₁.2 h₃.2⟩

/-- Items with commas between them, of which some may be left out, up to a closing sign. -/
theorem Gives.elements {xs : List (Option ι)} {close : Punct} (hclose : close ≠ .comma)
    (hitem : ∀ {lo hi x}, R lo hi x → Recovers m b ok lo hi (t x) item (A x))
    (hfirst : ∀ {lo hi x}, R lo hi x → ∀ ks, first (t x ++ ks) ≠ .punct close ∧ first (t x ++ ks) ≠ .punct .comma)
    (hok : ok (.punct .comma) ∧ ok (.punct close)) (hrun : Run (Maybe R) lo hi xs) (hrest : first rest = .punct close)
    (hm : count (elementTexts (xs.map (Option.map t)) ++ rest) ≤ m)
    (hc : c.Ready false b lo (elementTexts (xs.map (Option.map t)) ++ rest)) :
    Gives c (Parse.elements (.punct close) item) fun as c' =>
      c'.Ready false b hi rest ∧ List.Forall₂ (Option.Rel A) xs as := by
  suffices hloop : ∀ size, count (elementTexts (xs.map (Option.map t)) ++ rest) < size →
      Gives c (elementsFrom (.punct close) item size) fun as c' =>
        c'.Ready false b hi rest ∧ List.Forall₂ (Option.Rel A) xs as from .sized hc (hloop _ (by omega))
  have hcomma : (Token.Kind.punct .comma).sameSort (.punct close) = false := by simpa using hclose.symm
  induction hrun generalizing c with
  | nil =>
    intro size hsize
    obtain ⟨size, rfl⟩ : ∃ n, size = n + 1 := ⟨size - 1, by omega⟩
    have hc : c.Ready false b _ rest := hc
    refine .isAt hc ?_
    rw [hrest, Token.Kind.sameSort_self]
    exact .pure ⟨hc, .nil⟩
  | @cons _ _ _ x xs hx hxs ih =>
    intro size hsize
    obtain ⟨size, rfl⟩ : ∃ n, size = n + 1 := ⟨size - 1, by omega⟩
    cases x with
    | none =>
      cases hx
      have hc : c.Ready false b _ (some (.punct .comma) :: (elementTexts (xs.map (Option.map t)) ++ rest)) := hc
      have hm : count (elementTexts (xs.map (Option.map t)) ++ rest) + 1 ≤ m := hm
      have hsize : count (elementTexts (xs.map (Option.map t)) ++ rest) + 1 < size + 1 := hsize
      refine .isAt hc ?_
      rw [first_some, hcomma]
      refine .eat hc rfl fun c₁ h₁ => (ih (by omega) h₁ size (by omega)).andThen fun as c₂ h₂ => ?_
      exact .pure ⟨h₂.1, .cons .none h₂.2⟩
    | some x =>
      have hx' : ∀ ks, (first (t x ++ ks)).sameSort (.punct close) = false ∧
          (first (t x ++ ks)).sameSort (.punct .comma) = false := by simpa using hfirst hx
      cases hxs with
      | nil =>
        have hm : count (t x ++ rest) ≤ m := hm
        have hc : c.Ready false b _ (t x ++ rest) := hc
        refine .isAt hc ?_
        rw [(hx' _).1]
        refine .pass hc (hx' _).2 ((hitem hx hm (hrest ▸ hok.2) hc).andThen fun a c₁ h₁ => ?_)
        exact .pass h₁.1 (by simpa [hrest] using hclose) (.pure ⟨h₁.1, .cons (.some h₁.2) .nil⟩)
      | cons =>
        rw [List.map_cons, List.map_cons, Option.map_some, elementTexts_some_cons, List.append_assoc,
          List.cons_append] at hm hc hsize
        refine .isAt hc ?_
        rw [(hx' _).1]
        refine .pass hc (hx' _).2 ((hitem hx hm hok.1 hc).andThen fun a c₁ h₁ => .eat h₁.1 rfl fun c₂ h₂ => ?_)
        rw [count_append, count_some] at hm hsize
        rw [List.map_cons] at ih
        refine (ih (by omega) h₂ size (by omega)).andThen fun as c₃ h₃ => ?_
        exact .pure ⟨h₃.1, .cons (.some h₁.2) h₃.2⟩

/-- One item or more with commas between them. -/
theorem Gives.commaList (hitem : ∀ {lo hi x}, R lo hi x → Recovers m b ok lo hi (t x) item (A x))
    (hok : ok (.punct .comma)) (hne : xs ≠ []) (hrun : Run R lo hi xs)
    (hrest : first rest ≠ .punct .comma ∧ ok (first rest)) (hm : count (commaTexts (xs.map t) ++ rest) ≤ m)
    (hc : c.Ready false b lo (commaTexts (xs.map t) ++ rest)) :
    Gives c (Parse.commaList item) fun as c' => c'.Ready false b hi rest ∧ List.Forall₂ A xs as := by
  suffices hloop : ∀ size, count (commaTexts (xs.map t) ++ rest) < size →
      Gives c (commaListFrom item size) fun as c' => c'.Ready false b hi rest ∧ List.Forall₂ A xs as from
    .sized hc (hloop _ (by omega))
  induction hrun generalizing c with
  | nil => exact absurd rfl hne
  | @cons _ _ _ x xs hx hxs ih =>
    intro size hsize
    obtain ⟨size, rfl⟩ : ∃ n, size = n + 1 := ⟨size - 1, by omega⟩
    cases hxs with
    | nil =>
      have hm : count (t x ++ rest) ≤ m := hm
      have hc : c.Ready false b _ (t x ++ rest) := hc
      refine (hitem hx hm hrest.2 hc).andThen fun a c₁ h₁ => ?_
      exact .pass h₁.1 (by simpa using hrest.1) (.pure ⟨h₁.1, .cons h₁.2 .nil⟩)
    | cons =>
      rw [List.map_cons, List.map_cons, commaTexts_cons_cons, List.append_assoc, List.cons_append] at hm hc hsize
      refine (hitem hx hm hok hc).andThen fun a c₁ h₁ => .eat h₁.1 rfl fun c₂ h₂ => ?_
      rw [count_append, count_some] at hm hsize
      rw [List.map_cons] at ih
      refine (ih (List.cons_ne_nil _ _) (by omega) h₂ size (by omega)).andThen fun as c₃ h₃ => ?_
      exact .pure ⟨h₃.1, .cons h₁.2 h₃.2⟩

end

end

end LabelWeaver
