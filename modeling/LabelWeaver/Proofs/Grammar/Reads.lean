import LabelWeaver.Proofs.Token.ReadAs
import LabelWeaver.Grammar.Basic

/-! Readers on tokens whose kinds are known. All tokens stand on one line, so the kinds say all that a
    reader looks at. -/

namespace LabelWeaver

open Parse

/-- On tokens of the kinds `ks` the reader succeeds with a result that satisfies `A`, and leaves tokens
    of the kinds `ks'`. -/
def Reads {α : Type} (p : Parse α) (ks ks' : List Token.Kind) (A : α → Prop) : Prop :=
  ∀ c : Cursor, OnLine c.rest ks →
    ∃ a c', p c = .ok a c' ∧ OnLine c'.rest ks' ∧ c'.noIn = c.noIn ∧ A a

theorem OnLine.length {ts : List Token} {ks : List Token.Kind} (h : OnLine ts ks) : ts.length = ks.length := by
  have := congrArg List.length h
  simpa using this

theorem OnLine.exists_cons {ts : List Token} {k : Token.Kind} {ks : List Token.Kind} (h : OnLine ts (k :: ks)) :
    ∃ s ts', ts = ⟨k, s, false⟩ :: ts' ∧ OnLine ts' ks := by
  cases ts with
  | nil => cases h
  | cons t ts =>
    obtain ⟨kind, s, newline⟩ := t
    obtain ⟨ht, hts⟩ := List.cons.inj h
    cases ht
    exact ⟨s, ts, rfl, hts⟩

theorem OnLine.cons {ts : List Token} {k : Token.Kind} {ks : List Token.Kind} (s : Span) (h : OnLine ts ks) :
    OnLine (⟨k, s, false⟩ :: ts) (k :: ks) := by
  rw [OnLine] at h ⊢
  rw [List.map_cons, List.map_cons, h]

/-- Things that are at least one token long are not more than their tokens. -/
theorem length_le_flatMap {ι : Type} {kinds : ι → List Token.Kind} (h : ∀ x, 0 < (kinds x).length) (xs : List ι) :
    xs.length ≤ (xs.flatMap kinds).length := by
  induction xs with
  | nil => exact Nat.le_refl _
  | cons x xs ih =>
    have := h x
    rw [List.length_cons, List.flatMap_cons, List.length_append]
    omega

namespace Reads

variable {α β : Type} {k k' : Token.Kind} {ks ks' ks'' : List Token.Kind} {A : α → Prop} {B : β → Prop}

theorem pure {a : α} (h : A a) : Reads (pure a) ks ks A :=
  fun c hc => ⟨a, c, rfl, hc, rfl, h⟩

theorem bind {p : Parse α} {f : α → Parse β} (hp : Reads p ks ks' A)
    (hf : ∀ a, A a → Reads (f a) ks' ks'' B) : Reads (p >>= f) ks ks'' B := by
  intro c hc
  obtain ⟨a, c', hp, hc', hnoIn, ha⟩ := hp c hc
  obtain ⟨b, c'', hf, hc'', hnoIn', hb⟩ := hf a ha c' hc'
  refine ⟨b, c'', ?_, hc'', hnoIn'.trans hnoIn, hb⟩
  change EStateM.bind p f c = _
  unfold EStateM.bind
  rw [hp]
  exact hf

theorem pure_bind {a : α} {f : α → Parse β} (h : Reads (f a) ks ks' B) : Reads (Pure.pure a >>= f) ks ks' B := h

theorem map {p : Parse α} {f : α → β} (hp : Reads p ks ks' A) (hf : ∀ a, A a → B (f a)) :
    Reads (f <$> p) ks ks' B := by
  intro c hc
  obtain ⟨a, c', hp, hc', hnoIn, ha⟩ := hp c hc
  refine ⟨f a, c', ?_, hc', hnoIn, hf a ha⟩
  change EStateM.map f p c = _
  unfold EStateM.map
  rw [hp]

theorem imp {A' : α → Prop} {p : Parse α} (h : Reads p ks ks' A) (hA : ∀ a, A a → A' a) : Reads p ks ks' A' := by
  intro c hc
  obtain ⟨a, c', hp, hc', hnoIn, ha⟩ := h c hc
  exact ⟨a, c', hp, hc', hnoIn, hA a ha⟩

/-- What a reader does with the first token. -/
theorem first {p : Parse α} (h : ∀ s ts prev noIn n, OnLine ts ks →
    ∃ a c', p ⟨⟨k, s, false⟩ :: ts, prev, noIn, n⟩ = .ok a c' ∧ OnLine c'.rest ks' ∧ c'.noIn = noIn ∧ A a) :
    Reads p (k :: ks) ks' A := by
  rintro ⟨rest, prev, noIn, n⟩ hc
  obtain ⟨s, ts, rfl, hts⟩ := OnLine.exists_cons hc
  exact h s ts prev noIn n hts

/-- What a reader does with the first two tokens. -/
theorem firstTwo {p : Parse α} (h : ∀ s s' ts prev noIn n, OnLine ts ks →
    ∃ a c', p ⟨⟨k, s, false⟩ :: ⟨k', s', false⟩ :: ts, prev, noIn, n⟩ = .ok a c' ∧ OnLine c'.rest ks' ∧
      c'.noIn = noIn ∧ A a) : Reads p (k :: k' :: ks) ks' A := by
  refine first fun s ts prev noIn n hts => ?_
  obtain ⟨s', ts', rfl, hts'⟩ := hts.exists_cons
  exact h s s' ts' prev noIn n hts'

/-! ### One token -/

variable {p : Parse α}

theorem look {f : Cursor → β} {g : β → Parse α} (b : β) (hb : ∀ c, OnLine c.rest ks → f c = b)
    (h : Reads (g b) ks ks' A) : Reads (Parse.look f >>= g) ks ks' A := by
  intro c hc
  change ∃ a c', g (f c) c = _ ∧ _
  rw [hb c hc]
  exact h c hc

/-- A look at the first token. -/
theorem lookFirst {f : Cursor → β} {g : β → Parse α} (b : β)
    (hb : ∀ s ts prev noIn n, f ⟨⟨k, s, false⟩ :: ts, prev, noIn, n⟩ = b) (h : Reads (g b) (k :: ks) ks' A) :
    Reads (Parse.look f >>= g) (k :: ks) ks' A := by
  refine look b (fun c hc => ?_) h
  obtain ⟨rest, prev, noIn, n⟩ := c
  obtain ⟨s, ts, rfl, -⟩ := OnLine.exists_cons hc
  exact hb s ts prev noIn n

/-- A look at the first two tokens. -/
theorem lookTwo {f : Cursor → β} {g : β → Parse α} (b : β)
    (hb : ∀ s s' ts prev noIn n, f ⟨⟨k, s, false⟩ :: ⟨k', s', false⟩ :: ts, prev, noIn, n⟩ = b)
    (h : Reads (g b) (k :: k' :: ks) ks' A) : Reads (Parse.look f >>= g) (k :: k' :: ks) ks' A := by
  refine look b (fun c hc => ?_) h
  obtain ⟨rest, prev, noIn, n⟩ := c
  obtain ⟨s, ts, rfl, hts⟩ := OnLine.exists_cons hc
  obtain ⟨s', ts', rfl, -⟩ := hts.exists_cons
  exact hb s s' ts' prev noIn n

theorem kind? {g : Option Token.Kind → Parse α} (h : Reads (g (some k)) (k :: ks) ks' A) :
    Reads (Parse.kind? >>= g) (k :: ks) ks' A :=
  lookFirst (some k) (fun _ _ _ _ _ => rfl) h

theorem isAt {g : Bool → Parse α} (h : Reads (g (k.sameSort k')) (k :: ks) ks' A) :
    Reads (Parse.isAt k' >>= g) (k :: ks) ks' A :=
  lookFirst (k.sameSort k') (fun _ _ _ _ _ => rfl) h

theorem here {g : Span → Parse α} (h : ∀ s, Reads (g s) ks ks' A) : Reads (Parse.here >>= g) ks ks' A :=
  fun c hc => h c.here c hc

theorem prevSpan {g : Span → Parse α} (h : ∀ s, Reads (g s) ks ks' A) : Reads (Parse.prevSpan >>= g) ks ks' A :=
  fun c hc => h c.prev c hc

theorem freshSite {g : Nat → Parse α} (h : ∀ n, Reads (g n) ks ks' A) : Reads (Parse.freshSite >>= g) ks ks' A :=
  fun c hc => h c.nextSite { c with nextSite := c.nextSite + 1 } hc

theorem advance {g : Token → Parse α} (hk : k ≠ .eof) (h : ∀ t, t.kind = k → Reads (g t) ks ks' A) :
    Reads (Parse.advance >>= g) (k :: ks) ks' A := by
  refine first fun s ts prev noIn n hts => ?_
  have hrun : (Parse.advance >>= g) ⟨⟨k, s, false⟩ :: ts, prev, noIn, n⟩ = g ⟨k, s, false⟩ ⟨ts, s, noIn, n⟩ := by
    change EStateM.bind _ _ _ = _
    unfold EStateM.bind Parse.advance
    dsimp only
    rw [if_neg hk]
  rw [hrun]
  exact h ⟨k, s, false⟩ rfl ⟨ts, s, noIn, n⟩ hts

theorem expect {g : Token → Parse α} (hk : k ≠ .eof) (h : ∀ t, t.kind = k → Reads (g t) ks ks' A) :
    Reads (Parse.expect k >>= g) (k :: ks) ks' A := by
  refine bind (A := fun t => t.kind = k) ?_ h
  refine advance hk fun t ht => ?_
  rw [ht, Token.Kind.sameSort_self, if_pos rfl]
  exact pure ht

theorem eat {g : Bool → Parse α} (hk : k.sameSort k' = true) (h : Reads (g true) ks ks' A) :
    Reads (Parse.eat k' >>= g) (k :: ks) ks' A := by
  refine first fun s ts prev noIn n hts => ?_
  have hrun : (Parse.eat k' >>= g) ⟨⟨k, s, false⟩ :: ts, prev, noIn, n⟩ = g true ⟨ts, s, noIn, n⟩ := by
    change EStateM.bind _ _ _ = _
    unfold EStateM.bind Parse.eat
    dsimp only
    rw [hk, if_pos rfl]
  rw [hrun]
  exact h ⟨ts, s, noIn, n⟩ hts

theorem pass {g : Bool → Parse α} (hk : k.sameSort k' = false) (h : Reads (g false) (k :: ks) ks' A) :
    Reads (Parse.eat k' >>= g) (k :: ks) ks' A := by
  refine first fun s ts prev noIn n hts => ?_
  have hrun : (Parse.eat k' >>= g) ⟨⟨k, s, false⟩ :: ts, prev, noIn, n⟩ =
      g false ⟨⟨k, s, false⟩ :: ts, prev, noIn, n⟩ := by
    change EStateM.bind _ _ _ = _
    unfold EStateM.bind Parse.eat
    dsimp only
    rw [hk, if_neg Bool.false_ne_true]
  rw [hrun]
  exact h _ (hts.cons s)

theorem expectIdent {x : String} {g : Name → Parse α} (h : ∀ n, n.text = x → Reads (g n) ks ks' A) :
    Reads (Parse.expectIdent >>= g) (.ident x :: ks) ks' A := by
  refine bind (A := fun n => n.text = x) ?_ h
  refine advance (by simp) fun t ht => ?_
  rw [ht]
  exact pure rfl

theorem consumeSemicolon {g : Unit → Parse α} (h : Reads (g ()) ks ks' A) :
    Reads (Parse.consumeSemicolon >>= g) (.punct .semi :: ks) ks' A := by
  refine bind (A := fun _ => True) ?_ fun _ _ => h
  exact eat rfl (pure trivial)

/-! ### Loops -/

theorem withNoIn {noIn : Bool} (h : Reads p ks ks' A) : Reads (Parse.withNoIn noIn p) ks ks' A := by
  intro c hc
  obtain ⟨a, c', hp, hc', -, ha⟩ := h { c with noIn := noIn } hc
  refine ⟨a, { c' with noIn := c.noIn }, ?_, hc', rfl, ha⟩
  unfold Parse.withNoIn
  rw [hp]

theorem sized {p : Nat → Parse α} (h : Reads (p (ks.length + 1)) ks ks' A) : Reads (Parse.sized p) ks ks' A := by
  intro c hc
  unfold Parse.sized
  rw [hc.length]
  exact h c hc

/-- The end of a repetition. -/
theorem manyFrom_nil {size : Nat} (hk : k.sameSort k' = true) :
    Reads (Parse.manyFrom (·.isAt k') p (size + 1)) (k :: ks) (k :: ks) (· = []) :=
  lookFirst true (fun _ _ _ _ _ => hk) (pure rfl)

/-- One round of a repetition. -/
theorem manyFrom_cons {size : Nat} {B : List α → Prop} (hk : k.sameSort k' = false) (hp : Reads p (k :: ks) ks' A)
    (hrest : Reads (Parse.manyFrom (·.isAt k') p size) ks' ks'' B) :
    Reads (Parse.manyFrom (·.isAt k') p (size + 1)) (k :: ks) ks'' fun xs => ∃ x xs', xs = x :: xs' ∧ A x ∧ B xs' := by
  refine lookFirst false (fun _ _ _ _ _ => hk) (hp.bind fun x hx => hrest.bind fun xs hxs => ?_)
  exact pure ⟨x, xs, rfl, hx, hxs⟩

/-- A list of one item. -/
theorem commaList (hp : Reads p ks (k :: ks') A) (hk : k.sameSort (.punct .comma) = false) :
    Reads (Parse.commaList p) ks (k :: ks') fun xs => ∃ x, xs = [x] ∧ A x :=
  sized (hp.bind fun x hx => pass hk (pure ⟨x, rfl, hx⟩))

/-- A value that is extended by one thing after the other; `ok` is what the steps need to know about
    the tokens behind them, and `A` relates the value to what was taken in. -/
theorem extend_foldl {ι γ : Type} {kinds : ι → List Token.Kind} {ok : List Token.Kind → Prop}
    {step : α → Parse (Option α)} {A : γ → α → Prop} (add : γ → ι → γ)
    (hstep : ∀ x rest g a, ok rest → A g a →
      Reads (step a) (kinds x ++ rest) rest fun o => ∃ b, o = some b ∧ A (add g x) b)
    (hok : ∀ x rest, ok rest → ok (kinds x ++ rest)) (hlength : ∀ x, 0 < (kinds x).length) (htail : ok ks)
    (hstop : ∀ g a, A g a → Reads (step a) ks ks (· = none)) (xs : List ι) {g : γ} {a : α} (ha : A g a) :
    Reads (Parse.extend step a) (xs.flatMap kinds ++ ks) ks (A (xs.foldl add g)) := by
  have hoks : ∀ xs : List ι, ok (xs.flatMap kinds ++ ks) := by
    intro xs
    induction xs with
    | nil => exact htail
    | cons x xs ih =>
      rw [List.flatMap_cons, List.append_assoc]
      exact hok x _ ih
  have hloop : ∀ (xs : List ι) (size : Nat) (g : γ) (a : α), xs.length < size → A g a →
      Reads (Parse.extendFrom step size a) (xs.flatMap kinds ++ ks) ks (A (xs.foldl add g)) := by
    intro xs
    induction xs with
    | nil =>
      intro size g a hsize ha
      obtain ⟨size, rfl⟩ : ∃ n, size = n + 1 := ⟨size - 1, by simp at hsize; omega⟩
      refine bind (hstop g a ha) ?_
      rintro _ rfl
      exact pure ha
    | cons x xs ih =>
      intro size g a hsize ha
      rw [List.length_cons] at hsize
      obtain ⟨size, rfl⟩ : ∃ n, size = n + 1 := ⟨size - 1, by omega⟩
      rw [List.flatMap_cons, List.append_assoc]
      refine bind (hstep x _ g a (hoks xs) ha) ?_
      rintro _ ⟨b, rfl, hb⟩
      exact ih size (add g x) b (by omega) hb
  have hcount := length_le_flatMap hlength xs
  refine sized (hloop xs _ g a ?_ ha)
  rw [List.length_append]
  omega

/-- A value that keeps a property however it is extended. -/
theorem extend {ι : Type} {kinds : ι → List Token.Kind} {ok : List Token.Kind → Prop}
    {step : α → Parse (Option α)}
    (hstep : ∀ x rest a, ok rest → A a → Reads (step a) (kinds x ++ rest) rest fun o => ∃ b, o = some b ∧ A b)
    (hok : ∀ x rest, ok rest → ok (kinds x ++ rest)) (hlength : ∀ x, 0 < (kinds x).length) (htail : ok ks)
    (hstop : ∀ a, A a → Reads (step a) ks ks (· = none)) (xs : List ι) {a : α} (ha : A a) :
    Reads (Parse.extend step a) (xs.flatMap kinds ++ ks) ks A :=
  extend_foldl (A := fun _ => A) (g := ()) (fun u _ => u) (fun x rest _ a => hstep x rest a) hok hlength htail
    (fun _ a => hstop a) xs ha

/-- A value that is not extended. -/
theorem stop {step : α → Parse (Option α)} {a : α} (h : Reads (step a) ks ks (· = none)) :
    Reads (Parse.extend step a) ks ks (· = a) := by
  refine sized (bind h ?_)
  rintro _ rfl
  exact pure rfl

end Reads

end LabelWeaver
