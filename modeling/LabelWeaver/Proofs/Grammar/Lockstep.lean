import LabelWeaver.Proofs.Tree.Node
import LabelWeaver.Grammar.Basic
import Mathlib.Data.List.Forall2

/-! Two readers side by side. They read tokens that differ at most in their spans, and wherever the
    first one succeeds the second one does too, with a result that is like the first one's. What
    like means is a parameter, a `Likeness`: a relation between nodes that every node of a form
    common to both runs inherits from its parts. The number of the next return statement is followed
    in the first run, so that results know between which two numbers their returns lie. -/

namespace LabelWeaver

/-! ### Cursors -/

/-- The token without its place. -/
def Token.bare (t : Token) : Token := { t with span := .zero }

/-- The cursors are at the same place of tokens that differ in their spans only. -/
structure Cursor.Beside (c d : Cursor) : Prop where
  rest : c.rest.map Token.bare = d.rest.map Token.bare
  noIn : c.noIn = d.noIn

namespace Cursor.Beside

variable {c d : Cursor}

theorem length (h : c.Beside d) : c.rest.length = d.rest.length := by
  have := congrArg List.length h.rest
  simpa using this

theorem getElem? (h : c.Beside d) (n : Nat) :
    c.rest[n]?.map Token.bare = d.rest[n]?.map Token.bare := by
  have := congrArg (·[n]?) h.rest
  simpa only [List.getElem?_map] using this

theorem peek? (h : c.Beside d) : c.peek?.map Token.bare = d.peek?.map Token.bare := by
  have := h.getElem? 0
  simpa only [Cursor.peek?, List.head?_eq_getElem?] using this

/-- What depends on the bare token ahead is the same. -/
theorem ahead {α : Type} (h : c.Beside d) (n : Nat) (f : Token → α) (hf : ∀ t, f t.bare = f t) :
    c.rest[n]?.map f = d.rest[n]?.map f := by
  have hmap : ∀ o : Option Token, o.map f = (o.map Token.bare).map f := by
    intro o
    cases o with
    | none => rfl
    | some t => exact congrArg some (hf t).symm
  rw [hmap, h.getElem? n, ← hmap]

theorem kindAhead? (h : c.Beside d) (n : Nat) : c.kindAhead? n = d.kindAhead? n :=
  h.ahead n (·.kind) fun _ => rfl

theorem kind? (h : c.Beside d) : c.kind? = d.kind? := by
  have := h.kindAhead? 0
  simpa only [Cursor.kindAhead?, Cursor.kind?, Cursor.peek?, List.head?_eq_getElem?] using this

theorem isAt (h : c.Beside d) (k : Token.Kind) : c.isAt k = d.isAt k := by
  rw [Cursor.isAt, Cursor.isAt, h.kind?]

theorem isAtIdent (h : c.Beside d) : c.isAtIdent = d.isAtIdent := by
  rw [Cursor.isAtIdent, Cursor.isAtIdent, h.kind?]

theorem newlineBefore (h : c.Beside d) : c.newlineBefore = d.newlineBefore := by
  have hnl := h.ahead 0 (·.newlineBefore) fun _ => rfl
  have hany : ∀ o : Option Token, o.any (·.newlineBefore) = (o.map (·.newlineBefore)).any id := by
    intro o
    cases o <;> rfl
  rw [Cursor.newlineBefore, Cursor.newlineBefore, Cursor.peek?, Cursor.peek?, List.head?_eq_getElem?,
    List.head?_eq_getElem?, hany, hnl, ← hany]

theorem isAtStatementEnd (h : c.Beside d) : c.isAtStatementEnd = d.isAtStatementEnd := by
  rw [Cursor.isAtStatementEnd, Cursor.isAtStatementEnd, h.isAt, h.isAt, h.isAt, h.newlineBefore]

/-- Reading one token keeps the cursors beside each other. -/
theorem tail {t t' : Token} {ts ts' : List Token} (h : c.Beside d) (hc : c.rest = t :: ts)
    (hd : d.rest = t' :: ts') (s s' : Span) :
    t.bare = t'.bare ∧ Beside { c with rest := ts, prev := s } { d with rest := ts', prev := s' } := by
  have hrest := h.rest
  rw [hc, hd, List.map_cons, List.map_cons] at hrest
  obtain ⟨ht, hts⟩ := List.cons.inj hrest
  exact ⟨ht, hts, h.noIn⟩

end Cursor.Beside

/-! ### Lists of results -/

section
variable {α β α' β' : Type}

/-- Results that follow each other: each begins with the number at which the one before ends. -/
inductive Chain (A : Nat → Nat → α → β → Prop) : Nat → Nat → List α → List β → Prop where
  | nil (lo : Nat) : Chain A lo lo [] []
  | cons {lo mid hi : Nat} {a : α} {b : β} {as : List α} {bs : List β} (ha : A lo mid a b)
      (has : Chain A mid hi as bs) : Chain A lo hi (a :: as) (b :: bs)

/-- Results that may be left out. -/
inductive Optional (A : Nat → Nat → α → β → Prop) (lo : Nat) : Nat → Option α → Option β → Prop where
  | none : Optional A lo lo none none
  | some {hi : Nat} {a : α} {b : β} (ha : A lo hi a b) : Optional A lo hi (some a) (some b)

variable {A : Nat → Nat → α → β → Prop} {B : Nat → Nat → α' → β' → Prop} {lo mid hi : Nat}

theorem Chain.append {as cs : List α} {bs ds : List β} (h : Chain A lo mid as bs)
    (h' : Chain A mid hi cs ds) : Chain A lo hi (as ++ cs) (bs ++ ds) := by
  induction h with
  | nil => exact h'
  | cons ha _ ih => exact .cons ha (ih h')

theorem Chain.map {f : α → α'} {g : β → β'} {as : List α} {bs : List β}
    (hAB : ∀ {lo hi a b}, A lo hi a b → B lo hi (f a) (g b)) (h : Chain A lo hi as bs) :
    Chain B lo hi (as.map f) (bs.map g) := by
  induction h with
  | nil => exact .nil _
  | cons ha _ ih => exact .cons (hAB ha) ih

theorem Chain.length {as : List α} {bs : List β} (h : Chain A lo hi as bs) : as.length = bs.length := by
  induction h with
  | nil => rfl
  | cons _ _ ih => rw [List.length_cons, List.length_cons, ih]

/-- Lists of the same length look the same where their members do not count. -/
theorem Chain.map_const {γ : Type} {as : List α} {bs : List β} (h : Chain A lo hi as bs) (x : γ) :
    (as.map fun _ => x) = bs.map fun _ => x := by
  rw [List.map_const', List.map_const', h.length]

theorem Optional.map_const {γ : Type} {a : Option α} {b : Option β} (h : Optional A lo hi a b) (x : γ) :
    (a.map fun _ => x) = b.map fun _ => x := by
  cases h <;> rfl

theorem Optional.toList {f : α → α'} {g : β → β'} {a : Option α} {b : Option β}
    (hAB : ∀ {lo hi a b}, A lo hi a b → B lo hi (f a) (g b)) (h : Optional A lo hi a b) :
    Chain B lo hi (a.toList.map f) (b.toList.map g) := by
  cases h with
  | none => exact .nil _
  | some ha => exact .cons (hAB ha) (.nil _)

theorem Chain.filterMap {f : α → α'} {g : β → β'} {as : List (Option α)} {bs : List (Option β)}
    (hAB : ∀ {lo hi a b}, A lo hi a b → B lo hi (f a) (g b)) (h : Chain (Optional A) lo hi as bs) :
    Chain B lo hi ((as.filterMap id).map f) ((bs.filterMap id).map g) := by
  induction h with
  | nil => exact .nil _
  | cons ha _ ih =>
    cases ha with
    | none => exact ih
    | some ha => exact .cons (hAB ha) ih

theorem Chain.map_holes {γ : Type} {as : List (Option α)} {bs : List (Option β)}
    (h : Chain (Optional A) lo hi as bs) (x : γ) :
    as.map (Option.map fun _ => x) = bs.map (Option.map fun _ => x) := by
  induction h with
  | nil => rfl
  | cons ha _ ih => rw [List.map_cons, List.map_cons, ha.map_const x, ih]

end

/-! ### Likeness -/

/-- A relation between the nodes of two runs. `rel lo hi n m` says that `n` is like `m` and was read
    while the number of the next return went from `lo` to `hi`. -/
structure Likeness where
  /-- What the tokens of the runs satisfy. -/
  admits : List Token → Prop
  rel : Nat → Nat → Node → Node → Prop
  admits_tail : ∀ {t ts}, admits (t :: ts) → admits ts
  le : ∀ {lo hi n m}, rel lo hi n m → lo ≤ hi
  mono : ∀ {lo hi lo' hi' n m}, rel lo hi n m → lo' ≤ lo → hi ≤ hi' → rel lo' hi' n m
  /-- Nodes of the same form are alike if their parts and their metadata are. -/
  node : ∀ {lo hi n m}, n.isPlain = true → n.skeleton = m.skeleton → Chain rel lo hi n.parts m.parts →
    List.Forall₂ (fun a b => ∃ lo hi, rel lo hi a b) n.metadata m.metadata → rel lo hi n m
  /-- Demands take their contracts in any order. -/
  demand : ∀ {n m}, n.isDemand = true → n.skeleton = m.skeleton →
    List.Forall₂ (fun a b => ∃ lo hi, rel lo hi a b) n.parts m.parts → ∃ lo hi, rel lo hi n m
  site : ∀ n n', rel n (n + 1) (.site n) (.site n')
  item : ∀ {lo hi e e'}, rel lo hi (.expr e) (.expr e') → rel lo hi (.item e) (.item e')
  target : ∀ {lo hi e e'}, rel lo hi (.expr e) (.expr e') → e.isTarget = true → e'.isTarget = true

namespace Likeness

variable (L : Likeness) {α β α' β' : Type}

/-- The nodes are alike, whatever the numbers. -/
def Alike (n m : Node) : Prop := ∃ lo hi, L.rel lo hi n m

variable {L}

theorem rel.alike {lo hi : Nat} {n m : Node} (h : L.rel lo hi n m) : L.Alike n m := ⟨lo, hi, h⟩

theorem chain_le {lo hi : Nat} {ns ms : List Node} (h : Chain L.rel lo hi ns ms) : lo ≤ hi := by
  induction h with
  | nil => exact Nat.le_refl _
  | cons ha _ ih => exact Nat.le_trans (L.le ha) ih

/-- A node without metadata. -/
theorem bare {lo hi : Nat} {n m : Node} (hn : n.isPlain = true) (hs : n.skeleton = m.skeleton)
    (hmeta : n.metadata = []) (hmeta' : m.metadata = []) (h : Chain L.rel lo hi n.parts m.parts) :
    L.rel lo hi n m :=
  L.node hn hs h (by rw [hmeta, hmeta']; exact .nil)

/-- An expression of the same form. -/
theorem expr {lo hi : Nat} {e e' : Expr} (hs : e.skeleton = e'.skeleton)
    (h : Chain L.rel lo hi e.parts e'.parts) : L.rel lo hi (.expr e) (.expr e') :=
  bare rfl (congrArg Node.expr hs) rfl rfl h

/-- A statement of the same form. -/
theorem stmt {lo hi : Nat} {s s' : Stmt} (hs : s.skeleton = s'.skeleton)
    (h : Chain L.rel lo hi s.parts s'.parts) : L.rel lo hi (.stmt s) (.stmt s') :=
  bare rfl (congrArg Node.stmt hs) rfl rfl h

/-! ### Readers -/

variable (L)

/-- What the cursors of two runs satisfy. -/
structure Side (c d : Cursor) : Prop where
  beside : c.Beside d
  admits : L.admits c.rest

/-- Wherever the first reader succeeds with `lo` as the number of the next return, so does the
    second, and the results satisfy `A`. -/
def Sim (lo : Nat) (p : Parse α) (q : Parse β) (A : Nat → α → β → Prop) : Prop :=
  ∀ ⦃c d : Cursor⦄, L.Side c d → c.nextSite = lo → ∀ ⦃a : α⦄ ⦃c' : Cursor⦄, p c = .ok a c' →
    ∃ b d', q d = .ok b d' ∧ L.Side c' d' ∧ lo ≤ c'.nextSite ∧ A c'.nextSite a b

variable {L} {lo : Nat} {A : Nat → α → β → Prop} {B : Nat → α' → β' → Prop}

namespace Sim

theorem pure {a : α} {b : β} (h : A lo a b) : L.Sim lo (pure a) (pure b) A := by
  rintro c d hs rfl _ _ ⟨⟩
  exact ⟨b, d, rfl, hs, Nat.le_refl _, h⟩

theorem bind {p : Parse α} {q : Parse β} {f : α → Parse α'} {g : β → Parse β'} (hp : L.Sim lo p q A)
    (hf : ∀ {w a b}, lo ≤ w → A w a b → L.Sim w (f a) (g b) B) : L.Sim lo (p >>= f) (q >>= g) B := by
  intro c d hs hlo r c' h
  change EStateM.bind p f c = _ at h
  unfold EStateM.bind at h
  split at h
  · next a c₁ hpc =>
    obtain ⟨b, d₁, hq, hs₁, hle, hA⟩ := hp hs hlo hpc
    obtain ⟨r', d', hg, hs', hle', hB⟩ := hf hle hA hs₁ rfl h
    refine ⟨r', d', ?_, hs', Nat.le_trans hle hle', hB⟩
    change EStateM.bind q g d = _
    unfold EStateM.bind
    rw [hq]
    exact hg
  · cases h

theorem imp {A' : Nat → α → β → Prop} {p : Parse α} {q : Parse β} (h : L.Sim lo p q A)
    (hA : ∀ {w a b}, lo ≤ w → A w a b → A' w a b) : L.Sim lo p q A' := by
  intro c d hs hlo a c' hp
  obtain ⟨b, d', hq, hs', hle, hab⟩ := h hs hlo hp
  exact ⟨b, d', hq, hs', hle, hA hle hab⟩

/-- The same readers in other words. -/
theorem congr {p p' : Parse α} {q q' : Parse β} (hp : p = p') (hq : q = q') (h : L.Sim lo p' q' A) :
    L.Sim lo p q A := by
  rw [hp, hq]
  exact h

theorem map {p : Parse α} {q : Parse β} {f : α → α'} {g : β → β'} (hp : L.Sim lo p q A)
    (hf : ∀ {w a b}, lo ≤ w → A w a b → B w (f a) (g b)) : L.Sim lo (f <$> p) (g <$> q) B := by
  rw [map_eq_pure_bind, map_eq_pure_bind]
  exact hp.bind fun hle hA => .pure (hf hle hA)

theorem failAt {q : Parse β} {fault : SyntaxFault} {span : Span} : L.Sim lo (Parse.failAt fault span) q A := by
  rintro c d - - a c' ⟨⟩

theorem failHere {q : Parse β} {fault : SyntaxFault} : L.Sim lo (Parse.failHere fault) q A := by
  rintro c d - - a c' ⟨⟩

/-- What comes after a failure does not count. -/
theorem failAt_bind {q : Parse β} {fault : SyntaxFault} {span : Span} {f : α' → Parse α} :
    L.Sim lo (Parse.failAt fault span >>= f) q A := by
  rintro c d - - a c' ⟨⟩

theorem failHere_bind {q : Parse β} {fault : SyntaxFault} {f : α' → Parse α} :
    L.Sim lo (Parse.failHere fault >>= f) q A := by
  rintro c d - - a c' ⟨⟩

/-! ### Single tokens -/

/-- What both cursors agree on, and some cursor of the runs shows. -/
theorem lookAt {h : Cursor → α} {f : α → Parse α'} {g : α → Parse β'}
    (hh : ∀ {c d : Cursor}, c.Beside d → h c = h d)
    (hf : ∀ c d, L.Side c d → L.Sim lo (f (h c)) (g (h c)) B) :
    L.Sim lo (Parse.look h >>= f) (Parse.look h >>= g) B := by
  intro c d hs hlo r c' hr
  obtain ⟨r', d', hg, hrest⟩ := hf c d hs hs hlo hr
  refine ⟨r', d', ?_, hrest⟩
  rw [hh hs.beside] at hg
  exact hg

/-- What both cursors agree on. -/
theorem look {h : Cursor → α} {f : α → Parse α'} {g : α → Parse β'}
    (hh : ∀ {c d : Cursor}, c.Beside d → h c = h d) (hf : ∀ a, L.Sim lo (f a) (g a) B) :
    L.Sim lo (Parse.look h >>= f) (Parse.look h >>= g) B :=
  lookAt hh fun _ _ _ => hf _

/-- Spans of the two runs have nothing to do with each other. -/
theorem lookSpan {h : Cursor → Span} {f : Span → Parse α'} {g : Span → Parse β'}
    (hf : ∀ s s', L.Sim lo (f s) (g s') B) : L.Sim lo (Parse.look h >>= f) (Parse.look h >>= g) B := by
  intro c d hs hlo r c' hr
  exact hf (h c) (h d) hs hlo hr

theorem kind? {f : Option Token.Kind → Parse α'} {g : Option Token.Kind → Parse β'}
    (hf : ∀ k, L.Sim lo (f k) (g k) B) : L.Sim lo (Parse.kind? >>= f) (Parse.kind? >>= g) B :=
  look (fun h => h.kind?) hf

theorem isAt {k : Token.Kind} {f : Bool → Parse α'} {g : Bool → Parse β'}
    (hf : ∀ b, L.Sim lo (f b) (g b) B) : L.Sim lo (Parse.isAt k >>= f) (Parse.isAt k >>= g) B :=
  look (fun h => h.isAt k) hf

theorem here {f : Span → Parse α'} {g : Span → Parse β'} (hf : ∀ s s', L.Sim lo (f s) (g s') B) :
    L.Sim lo (Parse.here >>= f) (Parse.here >>= g) B :=
  lookSpan hf

theorem prevSpan {f : Span → Parse α'} {g : Span → Parse β'} (hf : ∀ s s', L.Sim lo (f s) (g s') B) :
    L.Sim lo (Parse.prevSpan >>= f) (Parse.prevSpan >>= g) B :=
  lookSpan hf

/-- The current tokens of the two runs, without reading them. -/
theorem peek? {f : Option Token → Parse α'} {g : Option Token → Parse β'}
    (hnone : L.Sim lo (f none) (g none) B)
    (hsome : ∀ t t' : Token, t.bare = t'.bare → L.Sim lo (f (some t)) (g (some t')) B) :
    L.Sim lo (Parse.look Cursor.peek? >>= f) (Parse.look Cursor.peek? >>= g) B := by
  intro c d hs hlo r c' hr
  change f c.peek? c = _ at hr
  have hpeek := hs.beside.peek?
  change ∃ b d', g d.peek? d = .ok b d' ∧ _
  cases hc : c.peek? with
  | none =>
    cases hd : d.peek? with
    | none => exact hnone hs hlo (hc ▸ hr)
    | some t' => rw [hc, hd] at hpeek; cases hpeek
  | some t =>
    cases hd : d.peek? with
    | none => rw [hc, hd] at hpeek; cases hpeek
    | some t' =>
      rw [hc, hd] at hpeek
      exact hsome t t' (Option.some.inj hpeek) hs hlo (hc ▸ hr)

theorem bare_kind {t t' : Token} (h : t.bare = t'.bare) : t.kind = t'.kind :=
  (congrArg Token.kind h : t.bare.kind = t'.bare.kind)

theorem advance {f : Token → Parse α'} {g : Token → Parse β'}
    (hf : ∀ t t' : Token, t.kind = t'.kind → L.Sim lo (f t) (g t') B) :
    L.Sim lo (Parse.advance >>= f) (Parse.advance >>= g) B := by
  refine bind (A := fun w t t' => w = lo ∧ t.kind = t'.kind) ?_ fun _ ⟨hw, ht⟩ => hw ▸ hf _ _ ht
  intro c d hs hlo t c' h
  unfold Parse.advance at h ⊢
  cases hc : c.rest with
  | nil => simp [hc] at h
  | cons tok ts =>
    have hlen := hs.beside.length
    cases hd : d.rest with
    | nil => simp [hc, hd] at hlen
    | cons tok' ts' =>
      obtain ⟨hbare, hb⟩ := hs.beside.tail hc hd tok.span tok'.span
      simp only [hc] at h ⊢
      split at h
      · cases h
      · next hk =>
        rw [bare_kind hbare] at hk
        cases h
        rw [if_neg hk]
        exact ⟨tok', _, rfl, ⟨hb, L.admits_tail (hc ▸ hs.admits)⟩, Nat.le_of_eq hlo.symm, hlo,
          bare_kind hbare⟩

theorem eat {k : Token.Kind} {f : Bool → Parse α'} {g : Bool → Parse β'}
    (hf : ∀ b, L.Sim lo (f b) (g b) B) : L.Sim lo (Parse.eat k >>= f) (Parse.eat k >>= g) B := by
  refine bind (A := fun w b b' => w = lo ∧ b = b') ?_ fun _ ⟨hw, hb⟩ => hw ▸ hb ▸ hf _
  intro c d hs hlo b c' h
  unfold Parse.eat at h ⊢
  have hlen := hs.beside.length
  cases hc : c.rest with
  | nil =>
    cases hd : d.rest with
    | nil =>
      simp only [hc] at h
      cases h
      exact ⟨false, d, rfl, hs, Nat.le_of_eq hlo.symm, hlo, rfl⟩
    | cons => simp [hc, hd] at hlen
  | cons tok ts =>
    cases hd : d.rest with
    | nil => simp [hc, hd] at hlen
    | cons tok' ts' =>
      obtain ⟨hbare, hb⟩ := hs.beside.tail hc hd tok.span tok'.span
      simp only [hc, bare_kind hbare] at h ⊢
      split at h
      · next hk =>
        cases h
        exact ⟨true, _, if_pos hk, ⟨hb, L.admits_tail (hc ▸ hs.admits)⟩, Nat.le_of_eq hlo.symm, hlo, rfl⟩
      · next hk =>
        cases h
        exact ⟨false, _, if_neg hk, hs, Nat.le_of_eq hlo.symm, hlo, rfl⟩

theorem expect {k : Token.Kind} {f : Token → Parse α'} {g : Token → Parse β'}
    (hf : ∀ t t' : Token, t.kind = t'.kind → L.Sim lo (f t) (g t') B) :
    L.Sim lo (Parse.expect k >>= f) (Parse.expect k >>= g) B := by
  simp only [Parse.expect, bind_assoc]
  refine advance fun t t' ht => ?_
  rw [ht]
  split
  · simp only [pure_bind]
    exact hf t t' ht
  · exact failAt_bind

theorem expectIdent {f : Name → Parse α'} {g : Name → Parse β'}
    (hf : ∀ n n' : Name, n.text = n'.text → L.Sim lo (f n) (g n') B) :
    L.Sim lo (Parse.expectIdent >>= f) (Parse.expectIdent >>= g) B := by
  simp only [Parse.expectIdent, bind_assoc]
  refine advance fun t t' ht => ?_
  rw [ht]
  split
  · simp only [pure_bind]
    exact hf _ _ rfl
  · exact failAt_bind

theorem expectPropertyName {f : Name → Parse α'} {g : Name → Parse β'}
    (hf : ∀ n n' : Name, n.text = n'.text → L.Sim lo (f n) (g n') B) :
    L.Sim lo (Parse.expectPropertyName >>= f) (Parse.expectPropertyName >>= g) B := by
  simp only [Parse.expectPropertyName, bind_assoc]
  refine advance fun t t' ht => ?_
  rw [ht]
  split
  · simp only [pure_bind]
    exact hf _ _ rfl
  · exact failAt_bind

theorem consumeSemicolon {f : Unit → Parse α'} {g : Unit → Parse β'} (hf : L.Sim lo (f ()) (g ()) B) :
    L.Sim lo (Parse.consumeSemicolon >>= f) (Parse.consumeSemicolon >>= g) B := by
  simp only [Parse.consumeSemicolon, bind_assoc]
  refine eat fun b => ?_
  split
  · simpa only [pure_bind] using hf
  · simp only [bind_assoc]
    refine look (fun h => h.isAtStatementEnd) fun b => ?_
    split
    · simpa only [pure_bind] using hf
    · exact failHere_bind

/-- The number of a return of the first run is the one that was followed. -/
theorem freshSite {f : Nat → Parse α'} {g : Nat → Parse β'} (hf : ∀ n, L.Sim (lo + 1) (f lo) (g n) B) :
    L.Sim lo (Parse.freshSite >>= f) (Parse.freshSite >>= g) B := by
  refine bind (A := fun w n _ => w = lo + 1 ∧ n = lo) ?_ fun _ ⟨hw, hn⟩ => hw ▸ hn ▸ hf _
  rintro c d hs rfl n c' ⟨⟩
  exact ⟨d.nextSite, _, rfl, ⟨⟨hs.beside.rest, hs.beside.noIn⟩, hs.admits⟩, Nat.le_succ _, rfl, rfl⟩

theorem withNoIn {b : Bool} {p : Parse α} {q : Parse β} (h : L.Sim lo p q A) :
    L.Sim lo (Parse.withNoIn b p) (Parse.withNoIn b q) A := by
  intro c d hs hlo a c' hp
  unfold Parse.withNoIn at hp ⊢
  split at hp
  · next x c₁ hx =>
    cases hp
    obtain ⟨y, d₁, hy, hs₁, hle, hA⟩ :=
      h (c := { c with noIn := b }) (d := { d with noIn := b }) ⟨⟨hs.beside.rest, rfl⟩, hs.admits⟩ hlo hx
    rw [hy]
    exact ⟨y, _, rfl, ⟨⟨hs₁.beside.rest, hs.beside.noIn⟩, hs₁.admits⟩, hle, hA⟩
  · cases hp

/-! ### Loops -/

theorem sized {p : Nat → Parse α} {q : Nat → Parse β} (h : ∀ size, L.Sim lo (p size) (q size) A) :
    L.Sim lo (Parse.sized p) (Parse.sized q) A := by
  intro c d hs hlo a c' hp
  unfold Parse.sized at hp ⊢
  rw [← hs.beside.length]
  exact h _ hs hlo hp

section
variable {A : Nat → Nat → α → β → Prop} {p : Parse α} {q : Parse β}

theorem many {stop : Cursor → Bool} (hstop : ∀ {c d : Cursor}, c.Beside d → stop c = stop d)
    (hp : ∀ lo, L.Sim lo p q (A lo)) (lo : Nat) :
    L.Sim lo (Parse.many stop p) (Parse.many stop q) (Chain A lo) := by
  refine sized fun size => ?_
  induction size generalizing lo with
  | zero => exact failHere
  | succ size ih =>
    refine look hstop fun b => ?_
    split
    · exact pure (.nil lo)
    · refine (hp lo).bind fun _ ha => ?_
      exact (ih _).bind fun _ has => pure (.cons ha has)

theorem separated {close : Token.Kind} (hp : ∀ lo, L.Sim lo p q (A lo)) (lo : Nat) :
    L.Sim lo (Parse.separated close p) (Parse.separated close q) (Chain A lo) := by
  refine sized fun size => ?_
  induction size generalizing lo with
  | zero => exact failHere
  | succ size ih =>
    refine isAt fun b => ?_
    split
    · exact pure (.nil lo)
    · refine (hp lo).bind fun _ ha => eat fun b => ?_
      split
      · exact (ih _).bind fun _ has => pure (.cons ha has)
      · exact pure (.cons ha (.nil _))

theorem elements {close : Token.Kind} (hp : ∀ lo, L.Sim lo p q (A lo)) (lo : Nat) :
    L.Sim lo (Parse.elements close p) (Parse.elements close q) (Chain (Optional A) lo) := by
  refine sized fun size => ?_
  induction size generalizing lo with
  | zero => exact failHere
  | succ size ih =>
    refine isAt fun b => ?_
    split
    · exact pure (.nil lo)
    · refine eat fun b => ?_
      split
      · exact (ih _).bind fun _ has => pure (.cons .none has)
      · refine (hp lo).bind fun _ ha => eat fun b => ?_
        split
        · exact (ih _).bind fun _ has => pure (.cons (.some ha) has)
        · exact pure (.cons (.some ha) (.nil _))

theorem commaList (hp : ∀ lo, L.Sim lo p q (A lo)) (lo : Nat) :
    L.Sim lo (Parse.commaList p) (Parse.commaList q) (Chain A lo) := by
  refine sized fun size => ?_
  induction size generalizing lo with
  | zero => exact failHere
  | succ size ih =>
    refine (hp lo).bind fun _ ha => eat fun b => ?_
    split
    · exact (ih _).bind fun _ has => pure (.cons ha has)
    · exact pure (.cons ha (.nil _))

/-- What every round of an extension keeps, the last one keeps. -/
theorem extend {A : Nat → α → β → Prop} {step : α → Parse (Option α)} {step' : β → Parse (Option β)}
    (hstep : ∀ {w a b}, A w a b → L.Sim w (step a) (step' b) (Optional (fun _ hi a b => A hi a b) w))
    {a : α} {b : β} (h : A lo a b) : L.Sim lo (Parse.extend step a) (Parse.extend step' b) A := by
  refine sized fun size => ?_
  induction size generalizing lo a b with
  | zero => exact failHere
  | succ size ih =>
    refine (hstep h).bind fun _ ho => ?_
    cases ho with
    | none => exact pure h
    | some h => exact ih h

end

/-! ### Branches -/

/-- Two ways to a result. -/
theorem either {p₁ p₂ : Parse α} {q₁ q₂ : Parse β} {b : Bool} {f : α → Parse α'} {g : β → Parse β'}
    (h₁ : L.Sim lo p₁ q₁ A) (h₂ : L.Sim lo p₂ q₂ A)
    (hf : ∀ {w a b}, lo ≤ w → A w a b → L.Sim w (f a) (g b) B) :
    L.Sim lo (if b then p₁ >>= f else p₂ >>= f) (if b then q₁ >>= g else q₂ >>= g) B := by
  split
  · exact h₁.bind hf
  · exact h₂.bind hf

section
variable {A : Nat → Nat → α → β → Prop} {p : Parse α} {q : Parse β} {b : Bool} {f : Option α → Parse α'}
  {g : Option β → Parse β'}

theorem some (hp : L.Sim lo p q (A lo)) : L.Sim lo (some <$> p) (some <$> q) (Optional A lo) :=
  hp.map fun _ ha => .some ha

/-- A result behind a token that may be missing. -/
theorem optional (hp : L.Sim lo p q (A lo))
    (hf : ∀ {w a b}, lo ≤ w → Optional A lo w a b → L.Sim w (f a) (g b) B) :
    L.Sim lo (if b then Option.some <$> p >>= f else Pure.pure none >>= f)
      (if b then Option.some <$> q >>= g else Pure.pure none >>= g) B :=
  either hp.some (pure .none) hf

/-- A result before a token that ends it. -/
theorem optionalUnless (hp : L.Sim lo p q (A lo))
    (hf : ∀ {w a b}, lo ≤ w → Optional A lo w a b → L.Sim w (f a) (g b) B) :
    L.Sim lo (if b then Pure.pure none >>= f else Option.some <$> p >>= f)
      (if b then Pure.pure none >>= g else Option.some <$> q >>= g) B :=
  either (pure .none) hp.some hf

end

end Sim

end Likeness

end LabelWeaver
