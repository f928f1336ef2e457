import LabelWeaver.Proofs.Instrument.Exact
import LabelWeaver.Proofs.Label.Conservative
import LabelWeaver.Proofs.Label.Yields

/-! Layers of annotations on top of each other. A second layer finds nothing left to do for statements,
    binding targets, atoms, operators and bodies. For parameter lists it does: it takes the place of
    the receiver to be empty, whatever the layer below has found, and reads the signature once more. -/

namespace LabelWeaver

/-! ### Hooks that a second layer does not change -/

section
variable {α β : Type}

/-- At each place the reader does its own work or leaves all of it to the reader below. -/
def Defers (h : Parse α → Parse α) : Prop :=
  ∀ c, (∀ p, h p c = p c) ∨ ∃ res, ∀ p, h p c = res

/-- What comes after this reader finds nothing more to do in the same way. -/
def Settles (k : α → Parse α) : Prop := ∀ ⦃a b c c'⦄, k a c = .ok b c' → k b c' = .ok b c'

theorem Defers.twice {h : Parse α → Parse α} (hh : Defers h) (p : Parse α) : h (h p) = h p := by
  funext c
  rcases hh c with hbelow | ⟨res, hown⟩
  · exact hbelow (h p)
  · rw [hown, hown]

theorem Settles.bind_eq {k : α → Parse α} (hk : Settles k) (p : Parse α) : p >>= k >>= k = p >>= k := by
  funext c
  cases hp : (p >>= k) c with
  | error e c' => exact Parse.bind_error hp
  | ok b c' =>
    obtain ⟨a, c₁, -, hka⟩ := Parse.bind_eq_ok hp
    rw [Parse.bind_ok hp]
    exact hk hka

theorem Parse.bind_congr_left {p q : Parse α} {f : α → Parse β} {c : Cursor} (h : p c = q c) :
    (p >>= f) c = (q >>= f) c := by
  change EStateM.bind p f c = EStateM.bind q f c
  unfold EStateM.bind
  rw [h]

theorem Parse.either_eq_ok {p q : Parse α} {f : α → Parse β} {b : Bool} {c c' : Cursor} {x : β}
    (h : (if b then p >>= f else q >>= f) c = .ok x c') : ∃ a c₁, f a c₁ = .ok x c' := by
  cases b with
  | true =>
    obtain ⟨a, c₁, -, h⟩ := Parse.bind_eq_ok h
    exact ⟨a, c₁, h⟩
  | false =>
    obtain ⟨a, c₁, -, h⟩ := Parse.bind_eq_ok h
    exact ⟨a, c₁, h⟩

theorem Parse.bind_congr {p : Parse α} {f g : α → Parse β}
    (h : ∀ ⦃a c c'⦄, p c = .ok a c' → f a c' = g a c') : p >>= f = p >>= g := by
  funext c
  cases hp : p c with
  | error e c' => rw [Parse.bind_error hp, Parse.bind_error hp]
  | ok a c' =>
    rw [Parse.bind_ok hp, Parse.bind_ok hp]
    exact h hp

/-- A loop ends where its step finds nothing. -/
theorem Parse.extend_eq_ok {step : α → Parse (Option α)} {a b : α} {c c' : Cursor}
    (h : Parse.extend step a c = .ok b c') : ∃ c₁, step b c₁ = .ok none c' := by
  suffices hsize : ∀ size {a c}, Parse.extendFrom step size a c = .ok b c' → ∃ c₁, step b c₁ = .ok none c' from
    hsize (c.rest.length + 1) h
  intro size
  induction size with
  | zero => nofun
  | succ size ih =>
    intro a c h
    obtain ⟨found, c₁, hstep, hnext⟩ := Parse.bind_eq_ok h
    cases found with
    | some a' => exact ih hnext
    | none =>
      cases hnext
      exact ⟨c, hstep⟩

theorem Parse.extend_of_none {step : α → Parse (Option α)} {a : α} {c : Cursor} (h : step a c = .ok none c) :
    Parse.extend step a c = .ok a c :=
  Parse.bind_ok h

/-- A loop whose step looks only at where it stands when it finds nothing. -/
theorem Settles.extend {step : α → Parse (Option α)}
    (h : ∀ ⦃a b c c'⦄, step a c = .ok none c' → step b c' = .ok none c') : Settles (Parse.extend step) := by
  intro a b c c' hok
  obtain ⟨c₁, hnone⟩ := Parse.extend_eq_ok hok
  exact Parse.extend_of_none (h hnone)

end

namespace Label

open Making.inert (suffixed signed)

variable {settings : Settings} {r : Rules} {c c' : Cursor}

theorem statement_defers : Defers (Label.statement settings r) := by
  intro c
  cases hname : c.kindAhead? 1 == some (.punct .dot) || c.kindAhead? 1 == some (.punct .eq) with
  | true => exact .inl fun p => statement_of_name hname p
  | false =>
    by_cases hdeclare : c.kind? = some (.contextual .kwSecAnn)
    · exact .inr ⟨declaration settings r c, fun p => by rw [statement_eq hname, hdeclare]⟩
    by_cases hrule : c.kind? = some (.contextual .kwTraitRule)
    · exact .inr ⟨traitRule settings r c, fun p => by rw [statement_eq hname, hrule]⟩
    by_cases hassert : c.kind? = some (.contextual .kwAssert)
    · exact .inr ⟨assertion settings r c, fun p => by rw [statement_eq hname, hassert]⟩
    refine .inl fun p => (statement_eq hname p).trans ?_
    generalize c.kind? = k at hdeclare hrule hassert ⊢
    split <;> first | contradiction | rfl

theorem atom_defers : Defers (Label.atom settings r) := by
  intro c
  by_cases hsymbolic : c.kind? = some (.contextual .kwSymbolic) ∧ ∃ x, c.kindAhead? 1 = some (.ident x)
  · obtain ⟨hk, x, hx⟩ := hsymbolic
    exact .inr ⟨symbolic settings r c, fun p => by rw [atom_eq, hk, hx]⟩
  by_cases hcopy : c.kind? = some (.ident "cpAnn") ∧ c.kindAhead? 1 = some (.punct .lparen)
  · exact .inr ⟨copyLabels settings r c, fun p => by rw [atom_eq, hcopy.1, hcopy.2]; rfl⟩
  refine .inl fun p => (atom_eq p).trans ?_
  generalize c.kind? = k, c.kindAhead? 1 = k' at hsymbolic hcopy ⊢
  split
  · exact absurd ⟨rfl, _, rfl⟩ hsymbolic
  · exact absurd ⟨rfl, rfl⟩ hcopy
  · rfl

theorem suffix_eq_none {d : Demand} (h : suffix r d c = .ok none c') : c' = c ∧ isAtSuffix c = false := by
  unfold isAtSuffix
  unfold suffix at h
  rw [Parse.bind_ok (show Parse.kind? c = .ok c.kind? c from rfl)] at h
  generalize c.kind? = k at h ⊢
  split at h
  · obtain ⟨_, _, -, h⟩ := Parse.bind_eq_ok h
    obtain ⟨_, _, -, h⟩ := Parse.bind_eq_ok h
    cases h
  · obtain ⟨_, _, -, h⟩ := Parse.bind_eq_ok h
    obtain ⟨_, _, -, h⟩ := Parse.bind_eq_ok h
    cases h
  · obtain ⟨_, _, -, h⟩ := Parse.bind_eq_ok h
    obtain ⟨_, _, -, h⟩ := Parse.bind_eq_ok h
    cases h
  · obtain ⟨_, _, -, h⟩ := Parse.bind_eq_ok h
    obtain ⟨_, _, -, h⟩ := Parse.bind_eq_ok h
    cases h
  · cases h
    refine ⟨rfl, ?_⟩
    split <;> first | contradiction | rfl

/-- A name without suffixes stays as it is. -/
theorem suffixed_name {b : Binding} (h : isAtSuffix c = false) : suffixed r (.name b) c = .ok (.name b) c := by
  change (if isAtSuffix c then _ else pure (.name b) : Parse Pattern) c = _
  rw [h]
  rfl

theorem suffixed_settles : Settles (suffixed r) := by
  intro p q c c' h
  cases p with
  | name b =>
    cases hat : isAtSuffix c with
    | false =>
      rw [suffixed_name hat] at h
      cases h
      exact suffixed_name hat
    | true =>
      change (if isAtSuffix c then _ else pure (.name b) : Parse Pattern) c = _ at h
      rw [hat] at h
      obtain ⟨d, c₁, hd, h⟩ := Parse.bind_eq_ok h
      cases h
      obtain ⟨c₂, hnone⟩ := Parse.extend_eq_ok hd
      obtain ⟨rfl, hdone⟩ := suffix_eq_none hnone
      exact suffixed_name hdone
  | _ =>
    cases h
    rfl

theorem labelOps_settles : Settles (labelOps settings r) := by
  refine Settles.extend fun a b c c' h => ?_
  have hop (e : Expr) : labelOp settings r e c = (if !((c.isAt (.contextual .kwDrop) || c.isAt (.contextual .kwAs)) &&
      !c.newlineBefore && c.kindAhead? 1 == some (.marker .labelOpen)) then (pure none : Parse (Option Expr)) else do
        let _ ← Parse.advance
        let k ← labelContract r
        pure (some (relabelled settings k.span (c.isAt (.contextual .kwDrop)) k.labels e))) c := by
    simp only [← pure_relabelled]
    rfl
  rw [hop] at h
  split at h
  · next hno =>
    cases h
    rw [hop, if_pos hno]
    rfl
  · obtain ⟨_, _, -, h⟩ := Parse.bind_eq_ok h
    obtain ⟨_, _, -, h⟩ := Parse.bind_eq_ok h
    cases h

/-- A body that has got its checks is a block and marked. -/
theorem marked_of_instrument (names : RuntimeNames) (fn : Function) {b : Block} (h : fn.body = .block b) :
    (fn.instrument names).1.instrumented = true ∧ ∃ b', (fn.instrument names).1.body = .block b' := by
  unfold Function.instrument
  split
  · next hflag => exact ⟨hflag, b, h⟩
  · rw [h]
    dsimp only
    split
    · exact ⟨rfl, _, rfl⟩
    · exact ⟨rfl, _, rfl⟩

/-- A function that was finished has nothing left to check. -/
theorem finished_finished (settings : Settings) (fn : Function) (site site' : Nat) :
    finished settings site' (finished settings site fn) = finished settings site fn ∧
      takesSite settings (finished settings site fn) = false := by
  by_cases hskip : (!settings.enabled || !fn.needsChecks) = true
  · have hfn : finished settings site fn = fn := if_pos hskip
    rw [hfn]
    refine ⟨if_pos hskip, ?_⟩
    rcases Bool.or_eq_true_iff.mp hskip with h | h <;> rw [Bool.not_eq_true'] at h <;> simp [takesSite, h]
  · have hfn : finished settings site fn = ({ fn with body := fn.body.toBlock site }.instrument settings.names).1 :=
      if_neg hskip
    have hblock : ∃ b, fn.body.toBlock site = .block b := by
      cases fn.body <;> exact ⟨_, rfl⟩
    obtain ⟨b, hb⟩ := hblock
    obtain ⟨hmarked, b', hb'⟩ := marked_of_instrument settings.names { fn with body := fn.body.toBlock site } hb
    rw [hfn]
    generalize ({ fn with body := fn.body.toBlock site }.instrument settings.names).1 = f at hmarked hb'
    constructor
    · unfold finished
      split
      · rfl
      · have hsame : { f with body := f.body.toBlock site' } = f := by
          rw [hb']
          cases f
          cases hb'
          rfl
        rw [hsame, instrument_of_instrumented hmarked]
    · unfold takesSite
      rw [hb', Bool.and_false]

theorem finish_settles : Settles (finish settings) := by
  rintro fn _ c _ ⟨⟩
  obtain ⟨hsame, hsite⟩ := finished_finished settings fn c.nextSite
    (if takesSite settings fn then c.nextSite + 1 else c.nextSite)
  unfold finish
  dsimp only
  rw [hsame, hsite]
  rfl

theorem binding_binding (p : Parse Pattern) : Label.binding r (Label.binding r p) = Label.binding r p := by
  funext c
  have hbinding (q : Parse Pattern) : Label.binding r q c = (if isAtSuffix c then do
      let start ← Parse.here
      let d ← suffixes r .none
      return .this (start.join (← Parse.prevSpan)) d
    else q >>= suffixed r) c := rfl
  by_cases hat : isAtSuffix c = true
  · rw [hbinding, hbinding p, if_pos hat, if_pos hat]
  · have hinner : Label.binding r p c = (p >>= suffixed r) c := by
      rw [hbinding, if_neg hat]
    rw [hbinding, if_neg hat, Parse.bind_congr_left hinner, suffixed_settles.bind_eq, hinner]

theorem trailing_trailing (p : Expr → Parse Expr) :
    Label.trailing settings r (Label.trailing settings r p) = Label.trailing settings r p := by
  have hops (a : Parse Expr) : a >>= labelOps settings r >>= labelOps settings r = a >>= labelOps settings r :=
    labelOps_settles.bind_eq a
  funext e
  calc Label.trailing settings r (Label.trailing settings r p) e
      = labelOps settings r e >>= fun v => labelOps settings r v >>= fun w =>
          p w >>= labelOps settings r >>= labelOps settings r := by
        simp only [Label.trailing, bind_assoc]
    _ = pure e >>= labelOps settings r >>= labelOps settings r >>= fun w => p w >>= labelOps settings r := by
        simp only [hops, pure_bind, bind_assoc]
    _ = Label.trailing settings r p e := by
        rw [hops, pure_bind]
        rfl

theorem body_body (p : Function → Parse Function) :
    Label.body settings (Label.body settings p) = Label.body settings p := by
  funext fn
  rw [body_eq, body_eq, finish_settles.bind_eq]

/-! ### Signatures -/

/-- What stands behind a parameter list, with what the list says about the receiver. -/
def signature (r : Rules) (receiver : Option Demand) (fn : Function) : Parse Function := do
  if fn.isArrow then return { fn with receiver := receiver }
  let receiver ← receiverContract r receiver
  let returns ← if ← Parse.eat (.punct .colon) then some <$> contract false r else pure fn.returns
  let condition ← if ← Parse.eat (.contextual .kwWhere) then some <$> r.expr else pure fn.condition
  return { fn with receiver := receiver, returns := returns, condition := condition }

/-- What `n` further layers do behind a parameter list: each forgets what was found about the receiver,
    and reads a signature once more. -/
def signatures (r : Rules) : Nat → Function → Parse Function
  | 0, fn => pure fn
  | n + 1, fn => signatures r n fn >>= signature r none

theorem signed_eq_signature {fn : Function} {d : Option Demand} {ps : List Pattern}
    (h : takeReceiver none fn.params = .ok (d, ps)) : signed r fn = signature r d { fn with params := ps } := by
  unfold signed
  rw [h]
  rfl

theorem params_of_signature {fn fn' : Function} {d : Option Demand} (h : signature r d fn c = .ok fn' c') :
    fn'.params = fn.params := by
  unfold signature at h
  split at h
  · cases h
    rfl
  · obtain ⟨_, _, -, h⟩ := Parse.bind_eq_ok h
    obtain ⟨_, _, -, h⟩ := Parse.bind_eq_ok h
    obtain ⟨_, _, h⟩ := Parse.either_eq_ok h
    obtain ⟨_, _, -, h⟩ := Parse.bind_eq_ok h
    obtain ⟨_, _, h⟩ := Parse.either_eq_ok h
    cases h
    rfl

/-- The parameters that are left hold no place for a receiver. -/
theorem findThis?_of_signed {fn fn' : Function} (h : signed r fn c = .ok fn' c') :
    ∀ p ∈ fn'.params, p.findThis? = none := by
  cases htake : takeReceiver none fn.params with
  | error e =>
    rw [signed, htake] at h
    cases h
  | ok found =>
    obtain ⟨d, ps⟩ := found
    rw [signed_eq_signature htake] at h
    rw [params_of_signature h]
    exact findThis?_of_takeReceiver htake

theorem params_of_signatures {fn fn' : Function} {n : Nat} (h : signatures r n fn c = .ok fn' c') :
    fn'.params = fn.params := by
  induction n generalizing fn' c' with
  | zero =>
    cases h
    rfl
  | succ n ih =>
    obtain ⟨f, c₁, hf, hsign⟩ := Parse.bind_eq_ok h
    exact (params_of_signature hsign).trans (ih hf)

/-- A further layer over a parameter list with `n` signatures. -/
theorem params_signatures (inner : Function → Parse Function) (fn : Function) (n : Nat) :
    Label.params r (fun fn => Label.params r inner fn >>= signatures r n) fn =
      Label.params r inner fn >>= signatures r (n + 1) := by
  have hparams (p : Function → Parse Function) : Label.params r p fn = p fn >>= signed r := rfl
  rw [hparams, show signatures r (n + 1) = fun f => signatures r n f >>= signature r none from rfl, ← bind_assoc]
  refine Parse.bind_congr fun f c c' h => ?_
  obtain ⟨f₁, c₁, hf₁, hf⟩ := Parse.bind_eq_ok h
  obtain ⟨f₀, c₀, -, hf₀⟩ := Parse.bind_eq_ok hf₁
  have hthis : ∀ p ∈ f.params, p.findThis? = none := by
    rw [params_of_signatures hf]
    exact findThis?_of_signed hf₀
  rw [signed_eq_signature (takeReceiver_eq hthis)]
  rfl

end Label

/-! ### Grammars -/

namespace Grammar

/-- The layers of the grammar are `n` layers of annotations with the same settings, and any number of
    layers that change nothing. -/
inductive Stacked (settings : Settings) : Nat → Grammar → Prop where
  | nil : Stacked settings 0 []
  | plain {n : Nat} {g : Grammar} (h : Stacked settings n g) : Stacked settings n (.plain :: g)
  | labels {n : Nat} {g : Grammar} (h : Stacked settings n g) : Stacked settings (n + 1) (.labels settings :: g)

end Grammar

/-- A layer of annotations that reads `n` more signatures behind a parameter list. -/
def Layer.signing (settings : Settings) (n : Nat) : Layer :=
  { Layer.labels settings with
    params := fun r inner fn => Label.params r inner fn >>= Label.signatures r n }

namespace Grammar.Stacked

variable {settings : Settings} {n : Nat} {g : Grammar} {β : Type} {h : Layer → β → β}

theorem foldr_zero (hplain : ∀ b, h .plain b = b) (hg : Stacked settings 0 g) (b : β) : g.foldr h b = b := by
  generalize hn : 0 = n at hg
  induction hg with
  | nil => rfl
  | plain _ ih => rw [List.foldr_cons, hplain, ih hn]
  | labels => cases hn

/-- A hook that a second layer of annotations does not change is the hook of a single one. -/
theorem foldr_eq (hplain : ∀ b, h .plain b = b)
    (htwice : ∀ b, h (.labels settings) (h (.labels settings) b) = h (.labels settings) b)
    (hg : Stacked settings (n + 1) g) (b : β) : g.foldr h b = h (.labels settings) b := by
  generalize hn : n + 1 = m at hg
  induction hg generalizing n with
  | nil => cases hn
  | plain _ ih => rw [List.foldr_cons, hplain, ih hn]
  | @labels m g hg ih =>
    cases m with
    | zero => rw [List.foldr_cons, foldr_zero hplain hg]
    | succ m => rw [List.foldr_cons, ih rfl, htwice]

variable {r : Rules} (hg : Stacked settings (n + 1) g)

include hg

theorem scan_eq : g.scan = Label.scan := by
  funext cs
  have hfold : g.scan cs = g.foldr (fun layer rest => (layer.scan cs).or rest) none := by
    unfold Grammar.scan
    clear hg
    induction g with
    | nil => rfl
    | cons layer g ih =>
      rw [List.findSome?_cons, List.foldr_cons, ← ih]
      cases layer.scan cs <;> rfl
  rw [hfold, foldr_eq (fun _ => rfl) (fun b => ?_) hg, Option.or_none]
  · rfl
  · rw [← Option.or_assoc, Option.or_self]

theorem statement_layers (p : Parse Stmt) :
    g.foldr (fun layer inner => layer.statement r inner) p = Label.statement settings r p :=
  foldr_eq (fun _ => rfl) Label.statement_defers.twice hg p

theorem binding_layers (p : Parse Pattern) :
    g.foldr (fun layer inner => layer.binding r inner) p = Label.binding r p :=
  foldr_eq (fun _ => rfl) Label.binding_binding hg p

theorem atom_layers (p : Parse Expr) :
    g.foldr (fun layer inner => layer.atom r inner) p = Label.atom settings r p :=
  foldr_eq (fun _ => rfl) Label.atom_defers.twice hg p

theorem trailing_layers (p : Expr → Parse Expr) :
    g.foldr (fun layer inner => layer.trailing r inner) p = Label.trailing settings r p :=
  foldr_eq (fun _ => rfl) Label.trailing_trailing hg p

theorem body_layers (p : Function → Parse Function) :
    g.foldr (fun layer inner => layer.body r inner) p = Label.body settings p :=
  foldr_eq (fun _ => rfl) Label.body_body hg p

/-- The hook for parameter lists is not that of a single layer. -/
theorem params_layers (p : Function → Parse Function) :
    g.foldr (fun layer inner => layer.params r inner) p = fun fn => Label.params r p fn >>= Label.signatures r n := by
  generalize hn : n + 1 = m at hg
  induction hg generalizing n with
  | nil => cases hn
  | plain _ ih => exact ih hn
  | @labels m g hg ih =>
    cases hn
    rw [List.foldr_cons]
    cases m with
    | zero =>
      rw [foldr_zero (fun _ => rfl) hg]
      funext fn
      exact (bind_pure _).symm
    | succ n =>
      rw [ih rfl]
      funext fn
      exact Label.params_signatures p fn n

end Grammar.Stacked

namespace Grammar

/-- Two grammars whose layers make the same of every production below them. -/
structure SameHooks (g g' : Grammar) : Prop where
  statement : ∀ r p, g.foldr (fun layer inner => layer.statement r inner) p =
    g'.foldr (fun layer inner => layer.statement r inner) p
  binding : ∀ r p, g.foldr (fun layer inner => layer.binding r inner) p =
    g'.foldr (fun layer inner => layer.binding r inner) p
  atom : ∀ r p, g.foldr (fun layer inner => layer.atom r inner) p = g'.foldr (fun layer inner => layer.atom r inner) p
  trailing : ∀ r p, g.foldr (fun layer inner => layer.trailing r inner) p =
    g'.foldr (fun layer inner => layer.trailing r inner) p
  params : ∀ r p, g.foldr (fun layer inner => layer.params r inner) p =
    g'.foldr (fun layer inner => layer.params r inner) p
  body : ∀ r p, g.foldr (fun layer inner => layer.body r inner) p = g'.foldr (fun layer inner => layer.body r inner) p

namespace SameHooks

variable {g g' : Grammar} (h : SameHooks g g')

include h

theorem function_eq (r : Rules) : Grammar.function g r = Grammar.function g' r := by
  have hparams : Grammar.params g r = Grammar.params g' r := h.params r _
  have hbody : Grammar.body g r = Grammar.body g' r := h.body r _
  unfold Grammar.function
  rw [hparams, hbody]

theorem atom_eq (r : Rules) : Grammar.atom g r = Grammar.atom g' r := by
  have hbody : Grammar.body g r = Grammar.body g' r := h.body r _
  have hbase : Grammar.baseAtom g r = Grammar.baseAtom g' r := by
    unfold Grammar.baseAtom Grammar.parenthesized Grammar.functionExpr Grammar.nameArrow
    rw [h.function_eq, hbody]
  unfold Grammar.atom
  rw [h.atom, hbase]

theorem unary_eq (r : Rules) : Grammar.unary g r = Grammar.unary g' r := by
  have htrailing : Grammar.trailing g r = Grammar.trailing g' r := h.trailing r _
  unfold Grammar.unary Grammar.leftHandSide Grammar.new
  rw [h.atom_eq, htrailing]

theorem new_eq (r : Rules) : Grammar.new g r = Grammar.new g' r := by
  unfold Grammar.new
  rw [h.atom_eq]

theorem binary_eq (r : Rules) : Grammar.binary g r = Grammar.binary g' r := by
  unfold Grammar.binary
  rw [h.unary_eq]

theorem conditional_eq (r : Rules) : Grammar.conditional g r = Grammar.conditional g' r := by
  unfold Grammar.conditional
  rw [h.binary_eq]

theorem assign_eq (r : Rules) : Grammar.assign g r = Grammar.assign g' r := by
  unfold Grammar.assign
  rw [h.conditional_eq]

theorem expr_eq (r : Rules) : Grammar.expr g r = Grammar.expr g' r := by
  unfold Grammar.expr
  rw [h.assign_eq]

theorem statement_eq (r : Rules) : Grammar.statement g r = Grammar.statement g' r := by
  have hbase : Grammar.baseStatement g r = Grammar.baseStatement g' r := by
    unfold Grammar.baseStatement Grammar.functionStmt Grammar.exprStmt
    rw [h.function_eq, h.expr_eq]
  unfold Grammar.statement
  rw [h.statement, hbase]

theorem rules_eq (depth : Nat) : g.rules depth = g'.rules depth := by
  induction depth with
  | zero => rfl
  | succ depth ih =>
    have hbinding : Grammar.binding g = Grammar.binding g' := funext fun r => h.binding r _
    simp only [Grammar.rules, ih, h.statement_eq, h.expr_eq, h.assign_eq, h.conditional_eq, h.binary_eq, h.unary_eq,
      h.new_eq, hbinding, h.function_eq]

theorem parse_eq {α : Type} (p : Rules → Parse α) (tokens : List Token) : g.parse p tokens = g'.parse p tokens := by
  unfold Grammar.parse Grammar.run
  rw [h.rules_eq]

end SameHooks

/-- A stack of layers reads as one layer that reads further signatures. -/
theorem Stacked.sameHooks {settings : Settings} {n : Nat} {g : Grammar} (hg : Stacked settings (n + 1) g) :
    SameHooks g [.signing settings n] where
  statement _ p := hg.statement_layers p
  binding _ p := hg.binding_layers p
  atom _ p := hg.atom_layers p
  trailing _ p := hg.trailing_layers p
  params _ p := hg.params_layers p
  body _ p := hg.body_layers p

end Grammar

/-! ### Functions that do not mark their receiver -/

/-- A layer of annotations in which no function may say anything about its receiver. -/
def Layer.unmarked (settings : Settings) : Layer :=
  { Layer.labels settings with
    params := fun r inner fn => do
      let fn ← Label.params r inner fn
      if fn.receiver.isSome then Parse.failAt .receiverAlreadyMarked fn.span
      return fn }

/-- Nodes of all kinds, with returns numbered upwards. -/
def Making.any : Making where
  admits _ := True
  lexis := ⟨fun _ => True, fun _ => True, fun _ => True, fun _ _ => True⟩
  made lo hi _ := lo ≤ hi
  tolerant := False
  node _ _ h := Run.le id h
  site n := Nat.le_succ n
  item := id
  name _ _ := trivial
  propertyName _ _ := trivial
  number _ := trivial
  regex _ := trivial

namespace Making.any

theorem annotates (settings : Settings) : Making.any.Annotates settings where
  own _ := trivial
  signed _ _ _ := trivial
  single _ _ := trivial
  le h := h
  mono h hlo hhi := Nat.le_trans hlo (Nat.le_trans h hhi)
  demand _ _ := ⟨0, 0, Nat.le_refl 0⟩
  name h _ _ := h
  this h _ := h
  receiver _ := ⟨0, 0, Nat.le_refl 0⟩
  declared h _ _ _ := h
  ruled h h' _ _ := Nat.le_trans h h'
  asserted {lo mid hi e c} h h' _ := by
    cases c with
    | none => exact h' ▸ h
    | some c => exact Nat.le_trans h h'
  symbolized h _ _ := h
  relabelled h h' _ _ := Nat.le_trans h (Run.le id h')
  copier _ _ := Nat.le_refl _
  copied _ h _ _ := Run.le id h
  finished h h' _ _ := by
    have hle := Nat.le_trans h.noted.le h'
    change _ ≤ ite _ _ _
    split
    · exact Nat.le_succ_of_le hle
    · exact hle

variable {settings : Settings} {r r' : Rules} {c : Cursor} {n : Nat}

theorem bodiless_of_isAt {k : Token.Kind} (h : c.isAt k = true) (harrow : k.sameSort (.punct .arrow) = false)
    (hbrace : k.sameSort (.punct .lbrace) = false) : c.Bodiless := by
  obtain ⟨k', hk', hsame⟩ := (Option.any_eq_true ..).mp h
  unfold Cursor.Bodiless Cursor.isAt
  rw [hk']
  cases k <;> cases k' <;> simp_all [Token.Kind.sameSort]

/-- A further layer finds nothing behind a parameter list, or no body follows. -/
theorem signature_eq {fn : Function} (hreceiver : fn.receiver = none) :
    Label.signature r none fn c = .ok fn c ∨ c.Bodiless := by
  have hfn : { fn with receiver := none } = fn := by
    cases fn
    cases hreceiver
    rfl
  unfold Label.signature
  split
  · rw [hfn]
    exact .inl rfl
  · cases hmark : c.isAt (.marker .receiver) with
    | true => exact .inr (bodiless_of_isAt hmark rfl rfl)
    | false =>
      cases hcolon : c.isAt (.punct .colon) with
      | true => exact .inr (bodiless_of_isAt hcolon rfl rfl)
      | false =>
        cases hwhere : c.isAt (.contextual .kwWhere) with
        | true => exact .inr (bodiless_of_isAt hwhere rfl rfl)
        | false =>
          have hnone : Label.receiverContract r none c = .ok none c := by
            change (if c.isAt (.marker .receiver) then _ else pure none : Parse (Option Demand)) c = _
            rw [hmark]
            rfl
          rw [Parse.bind_ok hnone, Parse.bind_ok (Parse.eat_eq_false hcolon)]
          change (Parse.eat (.contextual .kwWhere) >>= _) c = _ ∨ _
          rw [Parse.bind_ok (Parse.eat_eq_false hwhere)]
          change EStateM.Result.ok { fn with receiver := none } c = _ ∨ _
          rw [hfn]
          exact .inl rfl

theorem signatures_eq {fn : Function} (hreceiver : fn.receiver = none) (n : Nat) :
    Label.signatures r n fn c = .ok fn c ∨ c.Bodiless := by
  induction n with
  | zero => exact .inl rfl
  | succ n ih =>
    rcases ih with ih | ih
    · change (Label.signatures r n fn >>= _) c = _ ∨ _
      rw [Parse.bind_ok ih]
      exact signature_eq hreceiver
    · exact .inr ih

theorem hooks (settings : Settings) (n : Nat) :
    Making.any.HooksYield Making.any.SignedHead [.unmarked settings] [.signing settings n] where
  own _ := trivial
  binding := (HooksYield.labels (annotates settings) id).binding
  params := by
    intro r r' hr c start name isArrow hname
    refine (signedHead hr (annotates settings) c start name isArrow hname).bind fun {c' fn} hfn => ?_
    cases hreceiver : fn.receiver with
    | some d => exact .failAt_bind
    | none =>
      rintro hc _ _ ⟨⟩
      exact ⟨hc, hfn, signatures_eq hreceiver n⟩
  single := (HooksYield.labels (annotates settings) id).single
  body := (HooksYield.labels (annotates settings) id).body
  bodyStuck := (HooksYield.labels (annotates settings) id).bodyStuck
  atom hr h := labelAtom (annotates settings) hr h
  trailing := (HooksYield.labels (annotates settings) id).trailing
  statement hr h := labelStatement (annotates settings) hr h
  statementStuck _ _ hd := hd.1.elim

end Making.any

/-! ### Stacks -/

namespace Grammar

theorem Stacked.single (settings : Settings) : Stacked settings 1 (.labels settings) := .labels .nil

theorem Stacked.read_eq {settings : Settings} {n : Nat} {g : Grammar} (hg : g.Stacked settings (n + 1)) (source : String) :
    g.read source = (Grammar.labels settings).read source := by
  unfold read
  rw [hg.scan_eq, (Stacked.single settings).scan_eq]

theorem Stacked.parseProgram_eq {settings : Settings} {n : Nat} {g : Grammar} (hg : g.Stacked settings (n + 1))
    (source : String) : g.parseProgram source = parseProgram [.signing settings n] source := by
  unfold parseProgram
  simp only [hg.read_eq, hg.sameHooks.parse_eq]
  rfl

/-- What a layer reads that lets no function mark its receiver, every stack reads in the same way. -/
theorem Stacked.parseProgram_unmarked {settings : Settings} {n : Nat} {g : Grammar} (hg : g.Stacked settings (n + 1))
    {source : String} {program : Program} (h : parseProgram [.unmarked settings] source = .ok program) :
    g.parseProgram source = .ok program := by
  obtain ⟨lexed, stmts, hread, hparse, rfl⟩ := Grammar.parseProgram_eq_ok.mp h
  rw [hg.parseProgram_eq]
  refine Grammar.parseProgram_eq_ok.mpr ⟨lexed, stmts, hread, ?_, rfl⟩
  exact (Making.any.program (Making.any.hooks settings n) ⟨fun _ _ => trivial, trivial⟩ hparse).2

/-- Layers of annotations with the same settings, with or without layers between them that change
    nothing, read every source as a single layer that reads its signatures once per layer; with one
    layer this is the annotation language itself. Sources in which no function says anything about
    its receiver are read by every stack as they are by a single layer. -/
theorem stacked_layers {settings : Settings} {n : Nat} {g : Grammar} (hg : g.Stacked settings (n + 1))
    (source : String) :
    g.read source = (Grammar.labels settings).read source ∧
    g.parseProgram source = parseProgram [.signing settings n] source ∧
    g.parseExpr source = parseExpr [.signing settings n] source ∧
    (n = 0 → g.parseProgram source = (Grammar.labels settings).parseProgram source) ∧
    ∀ program, parseProgram [.unmarked settings] source = .ok program →
      g.parseProgram source = .ok program ∧ (Grammar.labels settings).parseProgram source = .ok program := by
  refine ⟨hg.read_eq source, hg.parseProgram_eq source, ?_, ?_, fun program h => ?_⟩
  · unfold parseExpr
    simp only [hg.read_eq, hg.sameHooks.parse_eq]
    rfl
  · rintro rfl
    rw [hg.parseProgram_eq, (Stacked.single settings).parseProgram_eq]
  · exact ⟨hg.parseProgram_unmarked h, (Stacked.single settings).parseProgram_unmarked h⟩

/-- Two layers with one between them that changes nothing, over a function with all parts of a signature
    but one. -/
theorem stacked_layers_signature :
    Stacked ⟨true, {}⟩ 2 [.labels ⟨true, {}⟩, .plain, .labels ⟨true, {}⟩] ∧
      ∃ program, parseProgram [.unmarked ⟨true, {}⟩] "function f(x :<!A!>) : <!B!> where x > 0 { return x; }" = .ok program ∧
        parseProgram [.labels ⟨true, {}⟩, .plain, .labels ⟨true, {}⟩]
          "function f(x :<!A!>) : <!B!> where x > 0 { return x; }" = .ok program := by
  generalize hsource : "function f(x :<!A!>) : <!B!> where x > 0 { return x; }" = source
  have hg : Stacked ⟨true, {}⟩ 2 [.labels ⟨true, {}⟩, .plain, .labels ⟨true, {}⟩] := .labels (.plain (.labels .nil))
  have hread : (parseProgram [.unmarked ⟨true, {}⟩] source).isOk = true := by
    rw [← hsource]
    decide +kernel
  cases h : parseProgram [.unmarked ⟨true, {}⟩] source with
  | error e => rw [h] at hread; cases hread
  | ok program => exact ⟨hg, program, rfl, ((stacked_layers hg source).2.2.2.2 program h).1⟩

/-- A function among the statements says something about its receiver. -/
def marksReceiver (program : Program) : Bool :=
  program.body.any fun s =>
    match s with
    | .function fn => fn.receiver.isSome
    | _ => false

/-- A second layer forgets the receiver that the first one has found, and reads a second signature. -/
theorem stacked_layers_receiver :
    ((Grammar.labels ⟨true, {}⟩).parseProgram "function f(:<!A!>) {}").toOption.map marksReceiver = some true ∧
    (parseProgram [.labels ⟨true, {}⟩, .labels ⟨true, {}⟩] "function f(:<!A!>) {}").toOption.map marksReceiver =
      some false ∧
    ((Grammar.labels ⟨true, {}⟩).parseProgram "function f() : <!A!> : <!B!> {}").isOk = false ∧
    (parseProgram [.labels ⟨true, {}⟩, .labels ⟨true, {}⟩] "function f() : <!A!> : <!B!> {}").isOk = true := by
  decide +kernel

end Grammar

end LabelWeaver
