import LabelWeaver.Proofs.Label.Signatures

/-! The productions of the annotation language, in two runs with settings of their own. What is read
    does not depend on the settings; what is made of it does, and the functions below say what it is.
    `BuildsLike` asks that these functions keep a likeness, and `labels` concludes that the two
    runs stay side by side. -/

namespace LabelWeaver

namespace Label

open Parse

/-! ### What is made of what was read -/

/-- The declaration of labels, which may stand below other labels. -/
def declared (settings : Settings) (span : Span) (labels : List Label) (parents : Option (List Label)) : Stmt :=
  let e := Emitter.startingAt settings.names span
  if !settings.enabled || labels.isEmpty || parents.any List.isEmpty then .empty span
  else match parents with
    | some parents => e.stmt (e.declareBelow labels parents)
    | none => e.stmt (e.declare labels)

theorem pure_declared (settings : Settings) (span : Span) (labels : List Label) (parents : Option (List Label)) :
    (if !settings.enabled || labels.isEmpty || parents.any List.isEmpty then (pure (.empty span) : Parse Stmt)
      else match parents with
        | some parents =>
          let e := Emitter.startingAt settings.names span
          pure (e.stmt (e.declareBelow labels parents))
        | none =>
          let e := Emitter.startingAt settings.names span
          pure (e.stmt (e.declare labels))) =
      pure (declared settings span labels parents) := by
  unfold declared
  split
  · rfl
  · cases parents <;> rfl

/-- The rule for an operation of an object. -/
def ruled (settings : Settings) (span : Span) (target : Expr) (name : Name) (fn : Function) : Stmt :=
  let e := Emitter.startingAt settings.names span
  if !settings.enabled then .empty span else e.stmt (e.traitRule target name.text fn)

theorem pure_ruled (settings : Settings) (span : Span) (target : Expr) (name : Name) (fn : Function) :
    (if !settings.enabled then (pure (.empty span) : Parse Stmt)
      else
        let e := Emitter.startingAt settings.names span
        pure (e.stmt (e.traitRule target name.text fn))) =
      pure (ruled settings span target name fn) := by
  unfold ruled
  split <;> rfl

/-- The assertion of a condition or of a contract. -/
def asserted (settings : Settings) (span : Span) (value : Expr) (c : Option Contract) : Stmt :=
  let e := Emitter.startingAt settings.names span
  if !settings.enabled then .empty span
  else match c with
    | some c => .block (e.block (e.expectation value c))
    | none => e.stmt (e.assertCondition value "assertion")

theorem pure_asserted (settings : Settings) (span : Span) (value : Expr) (c : Option Contract) :
    (if !settings.enabled then (pure (.empty span) : Parse Stmt)
      else
        let e := Emitter.startingAt settings.names span
        match c with
        | some c => pure (.block (e.block (e.expectation value c)))
        | none => pure (e.stmt (e.assertCondition value "assertion"))) =
      pure (asserted settings span value c) := by
  unfold asserted
  split
  · rfl
  · cases c <;> rfl

/-- A symbolic value. -/
def symbolized (settings : Settings) (span : Span) (name : Name) (value : Expr) : Expr :=
  if !settings.enabled then value else (Emitter.startingAt settings.names span).symbol name.text value

theorem pure_symbolized (settings : Settings) (span : Span) (name : Name) (value : Expr) :
    (if !settings.enabled then (pure value : Parse Expr)
      else pure ((Emitter.startingAt settings.names span).symbol name.text value)) =
      pure (symbolized settings span name value) := by
  unfold symbolized
  split <;> rfl

/-- A value with labels added or removed. -/
def relabelled (settings : Settings) (span : Span) (dropping : Bool) (labels : List Label) (value : Expr) :
    Expr :=
  let e := Emitter.startingAt settings.names span
  if !settings.enabled then value else labels.foldl (if dropping then e.drop else e.assume) value

theorem pure_relabelled (settings : Settings) (span : Span) (dropping : Bool) (labels : List Label)
    (value : Expr) :
    (if !settings.enabled then (pure (some value) : Parse (Option Expr))
      else
        let e := Emitter.startingAt settings.names span
        pure (some (labels.foldl (if dropping then e.drop else e.assume) value))) =
      pure (some (relabelled settings span dropping labels value)) := by
  unfold relabelled
  split <;> rfl

/-- The body of the function becomes a block for its checks, with a return that needs a number. -/
def takesSite (settings : Settings) (fn : Function) : Bool :=
  settings.enabled && fn.needsChecks &&
    match fn.body with
    | .concise _ => true
    | .block _ => false

/-- A function whose body was read, with the checks put in if it needs them. -/
def finished (settings : Settings) (site : Nat) (fn : Function) : Function :=
  if !settings.enabled || !fn.needsChecks then fn
  else ({ fn with body := fn.body.toBlock site }.instrument settings.names).1

/-- Puts the checks in. -/
def finish (settings : Settings) (fn : Function) : Parse Function := fun c =>
  .ok (finished settings c.nextSite fn)
    { c with nextSite := if takesSite settings fn then c.nextSite + 1 else c.nextSite }

theorem body_eq (settings : Settings) (inner : Function → Parse Function) (fn : Function) :
    Label.body settings inner fn = inner fn >>= finish settings := by
  unfold Label.body
  congr 1
  funext f
  obtain ⟨span, name, params, body, isArrow, receiver, returns, condition, sites, flag⟩ := f
  generalize hf : Function.mk span name params body isArrow receiver returns condition sites flag = f
  funext c
  unfold finish finished takesSite
  cases henabled : settings.enabled with
  | false => rfl
  | true =>
    cases hneeds : f.needsChecks with
    | false => rfl
    | true =>
      subst hf
      cases body <;> rfl

end Label

/-- The two tokens ahead. -/
theorem Cursor.twoAhead {c : Cursor} {k k' : Token.Kind} (h : c.kind? = some k)
    (h' : c.kindAhead? 1 = some k') :
    ∃ t t' rest, c.rest = t :: t' :: rest ∧ t.kind = k ∧ t'.kind = k' := by
  obtain ⟨tokens, prev, noIn, nextSite⟩ := c
  rcases tokens with _ | ⟨t, _ | ⟨t', rest⟩⟩
  · cases h
  · cases h'
  · exact ⟨t, t', rest, rfl, Option.some.inj h, Option.some.inj h'⟩

namespace Likeness

open Grammar Label

/-- The return of a body that becomes a block has the next number. -/
theorem HeadLike.le_takesSite {L : Likeness} {lo mid hi : Nat} {fn fn' : Function} {b b' : FunctionBody}
    (h : L.HeadLike lo mid fn fn') (hb : L.BodyLike mid hi b b') (settings : Settings) :
    lo ≤ if takesSite settings { fn with body := b } then hi + 1 else hi := by
  have := chain_le (h.parts hb)
  split <;> omega

/-- What is made of like things is alike. -/
structure BuildsLike (L : Likeness) (settings settings' : Settings) : Prop where
  declared : ∀ {lo hi span span' ls ls' ps ps'}, lo ≤ hi →
    L.rel lo hi (.stmt (declared settings span ls ps)) (.stmt (declared settings' span' ls' ps'))
  ruled : ∀ {lo mid hi span span' e e' fn fn'} {n n' : Name}, n.text = n'.text →
    L.rel lo mid (.expr e) (.expr e') → L.rel mid hi (.function fn) (.function fn') →
    L.rel lo hi (.stmt (ruled settings span e n fn)) (.stmt (ruled settings' span' e' n' fn'))
  asserted : ∀ {lo mid hi span span' e e' c c'}, L.rel lo mid (.expr e) (.expr e') →
    Optional (L.on .contract) mid hi c c' →
    L.rel lo hi (.stmt (asserted settings span e c)) (.stmt (asserted settings' span' e' c'))
  symbolized : ∀ {lo hi span span' e e'} {n n' : Name}, n.text = n'.text →
    L.rel lo hi (.expr e) (.expr e') →
    L.rel lo hi (.expr (symbolized settings span n e)) (.expr (symbolized settings' span' n' e'))
  relabelled : ∀ {lo mid hi span span' dropping e e' ls ls'}, L.rel lo mid (.expr e) (.expr e') →
    Chain (L.on .label) mid hi ls ls' →
    L.rel lo hi (.expr (relabelled settings span dropping ls e))
      (.expr (relabelled settings' span' dropping ls' e'))
  finished : ∀ {lo mid hi fn fn' b b'}, L.HeadLike lo mid fn fn' → L.BodyLike mid hi b b' → ∀ site',
    L.FunctionLike lo (if takesSite settings { fn with body := b } then hi + 1 else hi)
      (finished settings hi { fn with body := b }) (finished settings' site' { fn' with body := b' })
  /-- The function that copies labels, where tokens admit it. -/
  copied : ∀ {r r'}, L.RulesLike r r' → ∀ {word paren rest}, L.admits (word :: paren :: rest) →
    word.kind = .ident "cpAnn" → paren.kind = .punct .lparen → ∀ lo,
    L.Sim lo (copyLabels settings r) (copyLabels settings' r') (L.on .expr lo)

variable {L : Likeness} {settings settings' : Settings} (hb : L.BuildsLike settings settings')
  {r r' : Rules} (hr : L.RulesLike r r') {lo hi : Nat}

include hb

theorem finish {fn fn' f f' : Function} (hfn : L.HeadLike lo hi fn fn') {w : Nat} (hf : L.Bodied fn fn' hi w f f') :
    L.Sim w (Label.finish settings f) (Label.finish settings' f') (L.FunctionLike lo) := by
  obtain ⟨b, b', rfl, rfl, hbody⟩ := hf
  rintro c d hs rfl _ _ ⟨⟩
  refine ⟨_, _, rfl, ⟨⟨hs.beside.rest, hs.beside.noIn⟩, hs.admits⟩, ?_, hb.finished hfn hbody d.nextSite⟩
  dsimp only
  split <;> omega

include hr

/-! ### Statements -/

theorem labelDeclaration (lo : Nat) :
    L.Sim lo (Label.declaration settings r) (Label.declaration settings' r') (L.on .stmt lo) := by
  refine .advance fun _ _ _ => .expect fun _ _ _ => (labelsOrNone hr lo).bind fun hle _ => .eat fun b => ?_
  split
  · refine .expect fun _ _ _ => (labelsOrNone hr _).some.bind fun hle' _ => ?_
    refine .consumeSemicolon (.prevSpan fun _ _ => ?_)
    exact .congr (pure_declared ..) (pure_declared ..) (.pure (hb.declared (Nat.le_trans hle hle')))
  · refine .consumeSemicolon (.prevSpan fun _ _ => ?_)
    exact .congr (pure_declared ..) (pure_declared ..) (.pure (hb.declared hle))

theorem traitRule (lo : Nat) :
    L.Sim lo (Label.traitRule settings r) (Label.traitRule settings' r') (L.on .stmt lo) := by
  refine .advance fun _ _ _ => (hr.expr lo).bind fun _ he => .expectIdent fun n n' hn => ?_
  refine .here fun s s' => .eat fun _ => (hr.function _ s s' false rfl).bind fun _ hf => ?_
  refine .consumeSemicolon (.prevSpan fun _ _ => ?_)
  exact .congr (pure_ruled ..) (pure_ruled ..) (.pure (hb.ruled hn he hf))

theorem assertion (lo : Nat) :
    L.Sim lo (Label.assertion settings r) (Label.assertion settings' r') (L.on .stmt lo) := by
  refine .advance fun _ _ _ => (hr.expr lo).bind fun _ he => .eat fun b => ?_
  refine Sim.optional (contract hr true _) fun _ hc => .consumeSemicolon (.prevSpan fun _ _ => ?_)
  exact .congr (pure_asserted ..) (pure_asserted ..) (.pure (hb.asserted he hc))

theorem labelStatement {p p' : Parse Stmt} (hp : ∀ lo, L.Sim lo p p' (L.on .stmt lo)) (lo : Nat) :
    L.Sim lo (Label.statement settings r p) (Label.statement settings' r' p') (L.on .stmt lo) := by
  refine .look (fun h => ?_) fun b => ?_
  · rw [h.kindAhead?]
  · split
    · exact hp lo
    · refine .kind? fun k => ?_
      split
      · exact labelDeclaration hb hr lo
      · exact traitRule hb hr lo
      · exact assertion hb hr lo
      · exact hp lo

/-! ### Operators -/

theorem symbolic (lo : Nat) :
    L.Sim lo (Label.symbolic settings r) (Label.symbolic settings' r') (L.on .expr lo) := by
  refine .advance fun _ _ _ => .expectIdent fun n n' hn => (hr.conditional lo).bind fun _ he => ?_
  exact .congr (pure_symbolized ..) (pure_symbolized ..) (.pure (hb.symbolized hn he))

theorem labelOp {e e' : Expr} (he : L.rel lo hi (.expr e) (.expr e')) :
    L.Sim hi (Label.labelOp settings r e) (Label.labelOp settings' r' e')
      (Optional (fun _ w e e' => L.on .expr lo w e e') hi) := by
  refine .look (fun h => h.isAt _) fun dropping => .look (fun h => ?_) fun isOp => ?_
  · rw [h.isAt, h.newlineBefore, h.kindAhead?]
  · split
    · exact .pure .none
    · refine .advance fun _ _ _ => (labelContract hr hi).bind fun _ hls => ?_
      exact .congr (pure_relabelled ..) (pure_relabelled ..) (.pure (.some (hb.relabelled he hls)))

theorem labelOps {e e' : Expr} (he : L.rel lo hi (.expr e) (.expr e')) :
    L.Sim hi (Label.labelOps settings r e) (Label.labelOps settings' r' e') (L.on .expr lo) :=
  .extend (labelOp hb hr) he

theorem labelTrailing {f f' : Expr → Parse Expr}
    (hf : ∀ {lo hi e e'}, L.rel lo hi (.expr e) (.expr e') → L.Sim hi (f e) (f' e') (L.on .expr lo))
    {e e' : Expr} (he : L.rel lo hi (.expr e) (.expr e')) :
    L.Sim hi (Label.trailing settings r f e) (Label.trailing settings' r' f' e') (L.on .expr lo) := by
  refine (labelOps hb hr he).bind fun _ he => (hf he).bind fun _ he => ?_
  exact labelOps hb hr he

theorem labelAtom {p p' : Parse Expr} (hp : ∀ lo, L.Sim lo p p' (L.on .expr lo)) (lo : Nat) :
    L.Sim lo (Label.atom settings r p) (Label.atom settings' r' p') (L.on .expr lo) := by
  have hlook : ∀ F : Option Token.Kind → Option Token.Kind → Parse Expr,
      (Parse.kind? >>= fun k => Parse.look (·.kindAhead? 1) >>= fun k' => F k k') =
        Parse.look (fun c => (c.kind?, c.kindAhead? 1)) >>= fun k => F k.1 k.2 := fun _ => rfl
  refine .congr (hlook _) (hlook _) (.lookAt (fun h => ?_) fun c d hs => ?_)
  · rw [h.kind?, h.kindAhead?]
  · dsimp only
    split
    · exact symbolic hb hr lo
    · next hword hparen =>
      obtain ⟨word, paren, rest, hrest, hword, hparen⟩ := Cursor.twoAhead hword hparen
      exact hb.copied hr (hrest ▸ hs.admits) hword hparen lo
    · exact hp lo

omit hr in
/-- Two runs of the annotation language stay side by side. -/
theorem labels_hooks : L.HooksLike (.labels settings) (.labels settings') where
  binding hr := suffixed hr (baseBinding hr)
  params hr _ _ _ hfn hp hp' := signature hr (baseParams hr hfn hp hp')
  body hr lo hi fn fn' hfn := by
    change L.Sim hi (Label.body settings (Grammar.baseBody _) fn) (Label.body settings' (Grammar.baseBody _) fn') _
    rw [body_eq, body_eq]
    exact (baseBody hr hfn.isArrow).bind fun _ hf => finish hb hfn hf
  atom hr hp := labelAtom hb hr hp
  trailing hr _ _ _ _ he := labelTrailing hb hr baseTrailing he
  statement hr hp := labelStatement hb hr hp

end Likeness

end LabelWeaver
