import LabelWeaver.Proofs.Grammar.Reads
import LabelWeaver.Proofs.Grammar.Yields.Basic

/-! Readers that take some tokens and leave the others alone. The kinds of the tokens that are taken are
    known; nothing is known about the tokens behind them, and these are the ones that are left. -/

namespace LabelWeaver

open Parse

/-- The cursor is at tokens of the kinds `ks`, with the tokens `more` behind them. -/
def Cursor.Facing (ks : List Token.Kind) (more : List Token) (c : Cursor) : Prop :=
  ∃ ts, c.rest = ts ++ more ∧ ts.map Token.kind = ks

namespace Cursor.Facing

variable {c : Cursor} {k : Token.Kind} {ks : List Token.Kind} {more : List Token}

theorem exists_cons (h : c.Facing (k :: ks) more) :
    ∃ t ts, c.rest = t :: ts ∧ t.kind = k ∧ (c.past t ts).Facing ks more := by
  obtain ⟨ts, hrest, hts⟩ := h
  obtain ⟨t, ts, rfl, ht, hts⟩ := List.map_eq_cons_iff.mp hts
  exact ⟨t, ts ++ more, hrest, ht, ts, rfl, hts⟩

theorem rest_eq (h : c.Facing [] more) : c.rest = more := by
  obtain ⟨ts, hrest, hts⟩ := h
  rw [hrest, List.map_eq_nil_iff.mp hts, List.nil_append]

theorem kind? (h : c.Facing (k :: ks) more) : c.kind? = some k := by
  obtain ⟨t, ts, hrest, ht, -⟩ := h.exists_cons
  rw [Cursor.kind?_of_rest hrest, ht]

theorem isAt (h : c.Facing (k :: ks) more) (k' : Token.Kind) : c.isAt k' = k.sameSort k' := by
  rw [Cursor.isAt, h.kind?]
  rfl

theorem length (h : c.Facing ks more) : ks.length ≤ c.rest.length := by
  obtain ⟨ts, hrest, rfl⟩ := h
  rw [hrest, List.length_append, List.length_map]
  exact Nat.le_add_right _ _

end Cursor.Facing

/-- On tokens of the kinds `ks` the reader succeeds with a result that satisfies `A`, and stops in front
    of those of the kinds `ks'`; the tokens behind them do not matter and are left. -/
def Consumes {α : Type} (p : Parse α) (ks ks' : List Token.Kind) (A : α → Prop) : Prop :=
  ∀ (c : Cursor) (more : List Token), c.Facing ks more →
    ∃ a c', p c = .ok a c' ∧ c'.Facing ks' more ∧ c'.noIn = c.noIn ∧ A a

namespace Consumes

variable {α β : Type} {k k' : Token.Kind} {ks ks' ks'' : List Token.Kind} {A : α → Prop} {B : β → Prop} {p : Parse α}

theorem pure {a : α} (h : A a) : Consumes (pure a) ks ks A :=
  fun c _ hc => ⟨a, c, rfl, hc, rfl, h⟩

theorem bind {f : α → Parse β} (hp : Consumes p ks ks' A) (hf : ∀ a, A a → Consumes (f a) ks' ks'' B) :
    Consumes (p >>= f) ks ks'' B := by
  intro c more hc
  obtain ⟨a, c', hp, hc', hnoIn, ha⟩ := hp c more hc
  obtain ⟨b, c'', hf, hc'', hnoIn', hb⟩ := hf a ha c' more hc'
  exact ⟨b, c'', (Parse.bind_ok hp).trans hf, hc'', hnoIn'.trans hnoIn, hb⟩

theorem imp {A' : α → Prop} (h : Consumes p ks ks' A) (hA : ∀ a, A a → A' a) : Consumes p ks ks' A' := by
  intro c more hc
  obtain ⟨a, c', hp, hc', hnoIn, ha⟩ := h c more hc
  exact ⟨a, c', hp, hc', hnoIn, hA a ha⟩

/-- A look at what the kinds of the tokens tell. -/
theorem look {g : Cursor → β} {f : β → Parse α} (b : β) (hb : ∀ c more, c.Facing ks more → g c = b)
    (h : Consumes (f b) ks ks' A) : Consumes (Parse.look g >>= f) ks ks' A := by
  intro c more hc
  change ∃ a c', f (g c) c = _ ∧ _
  rw [hb c more hc]
  exact h c more hc

theorem kind? {f : Option Token.Kind → Parse α} (h : Consumes (f (some k)) (k :: ks) ks' A) :
    Consumes (Parse.kind? >>= f) (k :: ks) ks' A :=
  look (some k) (fun _ _ hc => hc.kind?) h

theorem isAt {f : Bool → Parse α} (h : Consumes (f (k.sameSort k')) (k :: ks) ks' A) :
    Consumes (Parse.isAt k' >>= f) (k :: ks) ks' A :=
  look (k.sameSort k') (fun _ _ hc => hc.isAt k') h

theorem here {f : Span → Parse α} (h : ∀ s, Consumes (f s) ks ks' A) : Consumes (Parse.here >>= f) ks ks' A :=
  fun c more hc => h c.here c more hc

theorem prevSpan {f : Span → Parse α} (h : ∀ s, Consumes (f s) ks ks' A) : Consumes (Parse.prevSpan >>= f) ks ks' A :=
  fun c more hc => h c.prev c more hc

theorem advance {f : Token → Parse α} (hk : k ≠ .eof) (h : ∀ t, t.kind = k → Consumes (f t) ks ks' A) :
    Consumes (Parse.advance >>= f) (k :: ks) ks' A := by
  intro c more hc
  obtain ⟨t, ts, hrest, ht, hpast⟩ := hc.exists_cons
  obtain ⟨a, c', hf, hc', hnoIn, ha⟩ := h t ht _ more hpast
  exact ⟨a, c', (Parse.bind_ok (Parse.advance_eq_ok hrest (by rwa [ht]))).trans hf, hc', hnoIn, ha⟩

theorem expect {f : Token → Parse α} (hk : k ≠ .eof) (h : ∀ t, t.kind = k → Consumes (f t) ks ks' A) :
    Consumes (Parse.expect k >>= f) (k :: ks) ks' A := by
  refine bind (A := fun t => t.kind = k) ?_ h
  refine advance hk fun t ht => ?_
  rw [ht, Token.Kind.sameSort_self, if_pos rfl]
  exact pure ht

theorem expectIdent {x : String} {f : Name → Parse α} (hk : k.identText? = some x)
    (h : ∀ n, n.text = x → Consumes (f n) ks ks' A) : Consumes (Parse.expectIdent >>= f) (k :: ks) ks' A := by
  refine bind (A := fun n => n.text = x) ?_ h
  refine advance (fun heof => by rw [heof] at hk; cases hk) fun t ht => ?_
  rw [ht, hk]
  exact pure rfl

theorem expectPropertyName {x : String} {f : Name → Parse α} (hk : k.propertyText? = some x)
    (h : ∀ n, n.text = x → Consumes (f n) ks ks' A) :
    Consumes (Parse.expectPropertyName >>= f) (k :: ks) ks' A := by
  refine bind (A := fun n => n.text = x) ?_ h
  refine advance (fun heof => by rw [heof] at hk; cases hk) fun t ht => ?_
  rw [ht, hk]
  exact pure rfl

theorem eat {f : Bool → Parse α} (hk : k.sameSort k' = true) (h : Consumes (f true) ks ks' A) :
    Consumes (Parse.eat k' >>= f) (k :: ks) ks' A := by
  intro c more hc
  obtain ⟨t, ts, hrest, ht, hpast⟩ := hc.exists_cons
  obtain ⟨a, c', hf, hc', hnoIn, ha⟩ := h _ more hpast
  exact ⟨a, c', (Parse.bind_ok (Parse.eat_eq_true hrest (by rwa [ht]))).trans hf, hc', hnoIn, ha⟩

theorem pass {f : Bool → Parse α} (hk : k.sameSort k' = false) (h : Consumes (f false) (k :: ks) ks' A) :
    Consumes (Parse.eat k' >>= f) (k :: ks) ks' A := by
  intro c more hc
  obtain ⟨a, c', hf, hc', hnoIn, ha⟩ := h c more hc
  exact ⟨a, c', (Parse.bind_ok (Parse.eat_eq_false (hc.isAt k' ▸ hk))).trans hf, hc', hnoIn, ha⟩

theorem withNoIn {noIn : Bool} (h : Consumes p ks ks' A) : Consumes (Parse.withNoIn noIn p) ks ks' A := by
  intro c more hc
  obtain ⟨a, c', hp, hc', -, ha⟩ := h { c with noIn := noIn } more hc
  refine ⟨a, { c' with noIn := c.noIn }, ?_, hc', rfl, ha⟩
  unfold Parse.withNoIn
  rw [hp]

/-- A loop with more rounds than there are tokens to take. -/
theorem sized {p : Nat → Parse α} (h : ∀ size, ks.length < size → Consumes (p size) ks ks' A) :
    Consumes (Parse.sized p) ks ks' A :=
  fun c more hc => h _ (Nat.lt_succ_of_le hc.length) c more hc

/-- A value that is not extended. -/
theorem stop {step : α → Parse (Option α)} {a : α} (h : Consumes (step a) ks ks (· = none)) :
    Consumes (Parse.extend step a) ks ks (· = a) := by
  refine sized fun size hsize => ?_
  obtain ⟨size, rfl⟩ : ∃ n, size = n + 1 := ⟨size - 1, by omega⟩
  refine bind h ?_
  rintro _ rfl
  exact pure rfl

/-- What takes all tokens of known kinds reads them wherever they stand. -/
theorem reads (h : Consumes p ks [] A) : Reads p (ks ++ ks') ks' A := by
  intro c hc
  obtain ⟨ts, ts', hts, hks, hks'⟩ := List.map_eq_append_iff.mp (hc.trans (List.map_append ..))
  have hkinds : ts.map Token.kind = ks := by
    have := congrArg (List.map Prod.fst) hks
    simpa [Function.comp_def] using this
  obtain ⟨a, c', hp, hc', hnoIn, ha⟩ := h c ts' ⟨ts, hts, hkinds⟩
  refine ⟨a, c', hp, ?_, hnoIn, ha⟩
  rw [hc'.rest_eq]
  exact hks'

end Consumes

end LabelWeaver
