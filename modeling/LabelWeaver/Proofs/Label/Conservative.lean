import LabelWeaver.Compile
import LabelWeaver.Proofs.Grammar.Statements
import LabelWeaver.Proofs.Grammar.Yields.Statements
import LabelWeaver.Proofs.Label.Receiver
import LabelWeaver.Proofs.Token.Legal
import Mathlib.Data.List.Chain

/-! The annotation language extends the base language conservatively: what the base language makes of a
    source without annotations is what it makes of it. The one token with a second meaning that such
    a source can contain is the colon. In the base language no colon follows a binding or a
    parameter list on the way to the end of a program, so the second meaning never shows. -/

namespace LabelWeaver

/-- The text from a byte on. -/
def textAt (offset : Nat) : List Char → List Char
  | [] => []
  | c :: cs => if offset = 0 then c :: cs else textAt (offset - c.utf8Size) cs

theorem textAt_append (pre cs : List Char) : textAt (byteLength pre) (pre ++ cs) = cs := by
  induction pre with
  | nil => cases cs <;> simp [textAt]
  | cons c pre ih =>
    have hpos := c.utf8Size_pos
    have hne : c.utf8Size + byteLength pre ≠ 0 := by omega
    rw [List.cons_append, textAt, byteLength_cons, if_neg hne, Nat.add_sub_cancel_left, ih]

/-- A source in which no annotation starts at a token, and in which the function that copies labels is
    not mentioned. -/
def Unannotated (source : String) : Prop :=
  ∀ lexed, Grammar.read [] source = .ok lexed → ∀ t ∈ lexed.tokens,
    Label.scan (textAt t.span.offset source.toList) = none ∧ t.kind ≠ .ident "cpAnn"

/-! ### Tokens -/

theorem Lexed.next_of_scan {scan : Scanner} {pos : Nat} {before last : Option Token.Kind} {cs : List Char}
    (h : scan cs = none) : Lexed.next scan pos before last cs = Lexed.next (fun _ => none) pos before last cs := by
  unfold Lexed.next
  rw [h]

/-- Where the scanner finds nothing, it might as well not be there. -/
theorem Lexed.readFrom_of_scan {scan : Scanner} {source cs : List Char} {size : Nat}
    {before last : Option Token.Kind} {lexed : Lexed} (pre : List Char) (hsource : source = pre ++ cs)
    (h : Lexed.readFrom (fun _ => none) size (byteLength pre) before last cs = .ok lexed)
    (hscan : ∀ t ∈ lexed.tokens, scan (textAt t.span.offset source) = none) :
    Lexed.readFrom scan size (byteLength pre) before last cs = .ok lexed := by
  induction size generalizing pre cs before last lexed with
  | zero => exact h
  | succ size ih =>
    obtain ⟨gap, hskip, hend | ⟨hne, k, n, more, hnext, hmore, rfl⟩⟩ := Lexed.readFrom_succ_eq_ok.mp h
    · exact Lexed.readFrom_succ_eq_ok.mpr ⟨gap, hskip, .inl hend⟩
    · obtain ⟨skipped, hcs, hpos⟩ := (Gap.exact_of_skipFrom (Nat.le_refl _) hskip).text
      -- the token starts behind what was skipped
      have hstart : source = (pre ++ skipped) ++ gap.rest := by rw [hsource, hcs, List.append_assoc]
      have hgappos : gap.pos = byteLength (pre ++ skipped) := by rw [hpos, byteLength_append]
      have hnone : scan gap.rest = none := by
        have := hscan _ List.mem_cons_self
        rwa [hgappos, hstart, textAt_append] at this
      refine Lexed.readFrom_succ_eq_ok.mpr ⟨gap, hskip, .inr ⟨hne, k, n, more, ?_, ?_, rfl⟩⟩
      · rw [Lexed.next_of_scan hnone, hnext]
      · have hwidth : gap.pos + byteLength (gap.rest.take n) = byteLength (pre ++ skipped ++ gap.rest.take n) := by
          rw [hgappos, byteLength_append (pre ++ skipped)]
        rw [hwidth] at hmore ⊢
        refine ih _ ?_ hmore fun t ht => hscan t (List.mem_cons_of_mem _ ht)
        rw [List.append_assoc, List.take_append_drop, hstart]

theorem Grammar.read_labels_of_unannotated {source : String} {lexed : Lexed} (settings : Settings)
    (hsource : Unannotated source) (h : Grammar.read [] source = .ok lexed) :
    (Grammar.labels settings).read source = .ok lexed := by
  have hscan : (Grammar.labels settings).scan = Label.scan := by
    funext cs
    simp [Grammar.scan, Grammar.labels, Layer.labels]
  have hread : Lexed.read Label.scan source = .ok lexed :=
    Lexed.readFrom_of_scan [] rfl (Grammar.read_nil_eq_ok.mp h) fun t ht => (hsource lexed h t ht).1
  rw [Grammar.read, hscan, hread]
  rfl

/-! ### Patterns without annotations -/

/-- No binding inside demands anything, and no place is kept for a receiver. -/
def Node.Undemanding : Node → Prop
  | pattern p => p.findThis? = none ∧ ∀ b ∈ p.bindings, b.demand = .none
  | patternProp p => propertiesFindThis? [p] = none ∧ ∀ b ∈ propertyBindings [p], b.demand = .none
  | binding b => b.demand = .none
  | _ => True

theorem mem_propertyBindings {ps : List PatternProp} {b : Binding} (h : b ∈ propertyBindings ps) :
    ∃ p ∈ ps, b ∈ propertyBindings [p] := by
  induction ps with
  | nil => cases h
  | cons p ps ih =>
    have hsplit : b ∈ propertyBindings [p] ∨ b ∈ propertyBindings ps := by
      cases p <;> simpa [propertyBindings] using h
    rcases hsplit with hb | hb
    · exact ⟨p, List.mem_cons_self, hb⟩
    · obtain ⟨q, hq, hb⟩ := ih hb
      exact ⟨q, List.mem_cons_of_mem _ hq, hb⟩

theorem mem_elementBindings {es : List (Option Pattern)} {b : Binding} (h : b ∈ elementBindings es) :
    ∃ p, some p ∈ es ∧ b ∈ p.bindings := by
  induction es with
  | nil => cases h
  | cons e es ih =>
    cases e with
    | none =>
      obtain ⟨p, hp, hb⟩ := ih h
      exact ⟨p, List.mem_cons_of_mem _ hp, hb⟩
    | some p =>
      rcases List.mem_append.mp h with hb | hb
      · exact ⟨p, List.mem_cons_self, hb⟩
      · obtain ⟨q, hq, hb⟩ := ih hb
        exact ⟨q, List.mem_cons_of_mem _ hq, hb⟩

theorem Node.Made.undemanding {L : Lexis} {lo hi : Nat} {n : Node} (h : n.Made L lo hi) : n.Undemanding := by
  refine Node.Made.byParts (P := fun _ _ n => n.Undemanding) (fun _ => trivial) ?_ h
  intro lo hi n _ hproper _ ih
  -- what is said about the parts, without their numbers
  have hparts : ∀ m ∈ n.parts, m.Undemanding := fun m hm => (ih.mem hm).choose_spec.choose_spec
  cases n with
  | binding b => exact hproper
  | pattern p =>
    cases p with
    | name b =>
      have hb : b.demand = .none := hparts (.binding b) (by simp [Node.parts, Pattern.parts])
      exact ⟨rfl, by simpa [Pattern.bindings] using hb⟩
    | this => exact hproper.elim
    | array s es =>
      have hes : ∀ p, some p ∈ es → (Node.pattern p).Undemanding := fun p hp =>
        hparts _ (by simpa [Node.parts, Pattern.parts] using hp)
      refine ⟨elementsFindThis?_eq_none.mpr fun p hp => (hes p hp).1, fun b hb => ?_⟩
      obtain ⟨p, hp, hb⟩ := mem_elementBindings hb
      exact (hes p hp).2 b hb
    | object s ps =>
      have hps : ∀ p ∈ ps, (Node.patternProp p).Undemanding := fun p hp =>
        hparts _ (by simpa [Node.parts, Pattern.parts] using hp)
      refine ⟨propertiesFindThis?_eq_none.mpr fun p hp => ?_, fun b hb => ?_⟩
      · exact propertiesFindThis?_eq_none.mp (hps p hp).1 p List.mem_cons_self
      · obtain ⟨p, hp, hb⟩ := mem_propertyBindings hb
        exact (hps p hp).2 b hb
    | withDefault s p e => exact hparts (.pattern p) (by simp [Node.parts, Pattern.parts])
    | rest s p => exact hparts (.pattern p) (by simp [Node.parts, Pattern.parts])
  | patternProp p =>
    cases p with
    | keyValue k p =>
      have hp : (Node.pattern p).Undemanding := hparts _ (by simp [Node.parts])
      exact ⟨by simpa [propertiesFindThis?] using hp.1, by simpa [propertyBindings] using hp.2⟩
    | shorthand b e =>
      have hb : b.demand = .none := hparts (.binding b) (by simp [Node.parts])
      exact ⟨rfl, by simpa [propertyBindings] using hb⟩
    | rest p =>
      have hp : (Node.pattern p).Undemanding := hparts _ (by simp [Node.parts])
      exact ⟨by simpa [propertiesFindThis?] using hp.1, by simpa [propertyBindings] using hp.2⟩
  | _ => trivial

theorem Label.takeReceiver_eq {ps : List Pattern} (h : ∀ p ∈ ps, p.findThis? = none) :
    Label.takeReceiver none ps = .ok (none, ps) := by
  induction ps with
  | nil => rfl
  | cons p ps ih =>
    have hp := h p List.mem_cons_self
    rw [Label.takeReceiver, hp]
    · rw [ih fun q hq => h q (List.mem_cons_of_mem _ hq)]
      rfl
    · rintro s d rfl
      cases hp
    · rintro s s' d e rfl
      cases hp

theorem Function.needsChecks_eq_false {L : Lexis} {lo hi : Nat} {fn : Function}
    (h : (Node.function fn).Made L lo hi) : fn.needsChecks = false := by
  have hproper : fn.Proper L := h.proper
  have hdemand : ∀ b ∈ fn.params.flatMap Pattern.bindings, b.demand = .none := by
    intro b hb
    obtain ⟨p, hp, hb⟩ := List.mem_flatMap.mp hb
    obtain ⟨lo', hi', hmade⟩ := (h.parts rfl).mem (a := .pattern p) (by simp [Node.parts, hp])
    exact hmade.undemanding.2 b hb
  have hany : (fn.params.flatMap Pattern.bindings).any (!·.demand.isEmpty) = false := by
    rw [List.any_eq_false]
    intro b hb
    rw [hdemand b hb]
    decide
  rw [Function.needsChecks, hproper.receiver, hproper.returns, hproper.condition, hany]
  rfl

/-! ### Productions -/

/-- The token stands in none of the roles that the annotation language adds: it is no mark, no word that starts a
    statement, and not the function that copies labels. -/
def Token.Kind.Inert : Token.Kind → Prop
  | marker _ | contextual .kwAssert | contextual .kwSecAnn | contextual .kwTraitRule => False
  | k => k ≠ .ident "cpAnn"

instance : DecidablePred Token.Kind.Inert := fun k => by
  unfold Token.Kind.Inert
  split <;> infer_instance

/-- No `symbolic` stands before a name. -/
def NoSymbols (tokens : List Token) : Prop :=
  tokens.IsChain fun word name => word.kind = .contextual .kwSymbolic → name.kind.sameSort (.ident "") = false

theorem Token.Kind.Legal.inert {k : Token.Kind} (h : k.Legal) (hcopy : k ≠ .ident "cpAnn") : k.Inert := by
  cases k with
  | marker | contextual => exact h.elim
  | _ => exact hcopy

theorem noSymbols_of_legal {tokens : List Token} (h : ∀ t ∈ tokens, t.kind.Legal) : NoSymbols tokens := by
  induction tokens with
  | nil => exact .nil
  | cons t ts ih =>
    obtain ⟨ht, hts⟩ := List.forall_mem_cons.mp h
    refine List.isChain_cons.mpr ⟨fun _ _ hk => ?_, ih hts⟩
    rw [hk] at ht
    exact ht.elim

instance : DecidablePred NoSymbols := fun tokens =>
  inferInstanceAs (Decidable (tokens.IsChain fun word name =>
    word.kind = .contextual .kwSymbolic → name.kind.sameSort (.ident "") = false))

/-- The trees of sources in which nothing has a meaning that the annotation language adds. -/
def Making.inert : Making := { Making.trees Token.Kind.Inert True with
  ahead := NoSymbols
  ahead_tail := fun h => List.IsChain.tail h }

instance : Making.inert.MakesFunctions := ⟨fun hproper hparts => .node rfl hproper hparts⟩

namespace Label

variable {settings : Settings} {r : Rules} {c : Cursor}

/-- A word that is used as a name starts no statement of the annotation language. -/
theorem statement_of_name (h : (c.kindAhead? 1 == some (.punct .dot) || c.kindAhead? 1 == some (.punct .eq)) = true)
    (p : Parse Stmt) : Label.statement settings r p c = p c := by
  change (if (c.kindAhead? 1 == some (.punct .dot) || c.kindAhead? 1 == some (.punct .eq)) = true then p
    else _ : Parse Stmt) c = _
  rw [if_pos h]

/-- The first word tells the statements of the annotation language apart. -/
theorem statement_eq (h : (c.kindAhead? 1 == some (.punct .dot) || c.kindAhead? 1 == some (.punct .eq)) = false)
    (p : Parse Stmt) : Label.statement settings r p c = (match c.kind? with
      | some (.contextual .kwSecAnn) => declaration settings r
      | some (.contextual .kwTraitRule) => traitRule settings r
      | some (.contextual .kwAssert) => assertion settings r
      | _ => p) c := by
  change (if (c.kindAhead? 1 == some (.punct .dot) || c.kindAhead? 1 == some (.punct .eq)) = true then p
    else _ : Parse Stmt) c = _
  rw [h]
  rfl

/-- The first two tokens tell the atoms of the annotation language apart. -/
theorem atom_eq (p : Parse Expr) : Label.atom settings r p c = (match c.kind?, c.kindAhead? 1 with
      | some (.contextual .kwSymbolic), some (.ident _) => symbolic settings r
      | some (.ident "cpAnn"), some (.punct .lparen) => copyLabels settings r
      | _, _ => p) c := rfl

end Label

namespace Making.inert

variable {c : Cursor}

theorem kind?_ne {k : Token.Kind} (hc : inert.Admits c) (hk : ¬k.Inert) : c.kind? ≠ some k := by
  intro h
  cases hrest : c.rest with
  | nil => simp [Cursor.kind?, Cursor.peek?, hrest] at h
  | cons t ts =>
    have ht : t.kind.Inert := (hc.past hrest).1
    rw [Cursor.kind?_of_rest hrest] at h
    cases h
    exact hk ht

/-- Behind `symbolic` there is no name. -/
theorem kind?_symbolic (hc : inert.Admits c) (h : c.kind? = some (.contextual .kwSymbolic)) (x : String) :
    c.kindAhead? 1 ≠ some (.ident x) := by
  intro hx
  have hahead : NoSymbols c.rest := hc.2
  cases hrest : c.rest with
  | nil => simp [Cursor.kindAhead?, hrest] at hx
  | cons t ts =>
    cases ts with
    | nil => simp [Cursor.kindAhead?, hrest] at hx
    | cons t' ts =>
      rw [Cursor.kind?_of_rest hrest] at h
      have hname : t'.kind = .ident x := by simpa [Cursor.kindAhead?, hrest] using hx
      rw [hrest] at hahead
      have hno := (List.isChain_cons_cons.mp hahead).1 (Option.some.inj h)
      rw [hname] at hno
      cases hno

theorem isAt_marker (hc : inert.Admits c) (m : Marker) : c.isAt (.marker m) = false := by
  have hne := kind?_ne (k := .marker m) hc id
  cases h : c.kind? <;> simp_all [Cursor.isAt]

theorem kindAhead?_ne_marker (hc : inert.Admits c) (n : Nat) (m : Marker) : c.kindAhead? n ≠ some (.marker m) := by
  intro h
  obtain ⟨t, ht, hk⟩ := Option.map_eq_some_iff.mp h
  have hinert : t.kind.Inert := hc.1 t (List.mem_of_getElem? ht)
  rw [hk] at hinert
  exact hinert

/-- The only suffix that can be seen is a colon. -/
theorem isAtSuffix (hc : inert.Admits c) : Label.isAtSuffix c = false ∨ c.AtColon := by
  unfold Label.isAtSuffix
  split
  · next h => exact .inr h
  · next h => exact absurd h (kind?_ne hc id)
  · next h => exact absurd h (kind?_ne hc id)
  · next h => exact absurd h (kind?_ne hc id)
  · exact .inl rfl

variable {r r' : Rules} {settings : Settings}

theorem labelOps_eq (hc : inert.Admits c) (e : Expr) : Label.labelOps settings r e c = .ok e c := by
  have hop : Label.labelOp settings r e c = .ok none c := by
    have hfalse : ((c.isAt (.contextual .kwDrop) || c.isAt (.contextual .kwAs)) && !c.newlineBefore &&
        c.kindAhead? 1 == some (.marker .labelOpen)) = false := by
      rw [beq_eq_false_iff_ne.mpr (kindAhead?_ne_marker hc 1 _), Bool.and_false]
    change (if !((c.isAt (.contextual .kwDrop) || c.isAt (.contextual .kwAs)) && !c.newlineBefore &&
      c.kindAhead? 1 == some (.marker .labelOpen)) then (pure none : Parse (Option Expr)) else _) c = _
    rw [hfalse]
    rfl
  change (Label.labelOp settings r e >>= _) c = _
  rw [Parse.bind_ok hop]
  rfl

/-- What follows the name of a binding. -/
def suffixed (r : Rules) : Pattern → Parse Pattern
  | .name b => do
    if ← Parse.look Label.isAtSuffix then
      let d ← Label.suffixes r b.demand
      return .name ⟨b.span.join (← Parse.prevSpan), b.name, d⟩
    return .name b
  | p => return p

theorem baseBinding_dies (hc : c.AtColon) : Dies Cursor.Never c (Grammar.baseBinding r) := by
  obtain ⟨t, ts, hrest, ht⟩ := hc.rest
  have hkind : c.kind? = some (.punct .colon) := hc
  have hident : Parse.expectIdent c = .error ⟨.expectedIdentifier t.kind, t.span⟩ (c.past t ts) := by
    rw [Parse.expectIdent, Parse.bind_ok (Parse.advance_eq_ok hrest (by rw [ht]; decide)), ht]
    rfl
  refine Dies.look ?_
  rw [hkind]
  refine Dies.bind fun _ _ h => ?_
  rw [hident] at h
  cases h

theorem binding (hr : inert.RulesYield r r') (c : Cursor) :
    inert.Yields inert.Dead c (Grammar.baseBinding r)
      (Label.binding r' (Grammar.baseBinding r')) (inert.BindingMade c.nextSite) := by
  intro hc
  rcases isAtSuffix hc with hno | hcolon
  · refine Yields.congr (s := Grammar.baseBinding r' >>= suffixed r') (fun _ => ?_)
      ((baseBinding hr c).weaken.andThen fun {c' p} hc' _ => ?_) hc
    · change (if Label.isAtSuffix c then _ else Grammar.baseBinding r' >>= suffixed r' : Parse Pattern) c = _
      rw [hno]
      rfl
    · cases p with
      | name b =>
        rcases isAtSuffix hc' with hno' | hcolon'
        · refine .inl ?_
          change (if Label.isAtSuffix c' then _ else pure (.name b) : Parse Pattern) c' = _
          rw [hno']
          rfl
        · exact .inr ⟨trivial, hcolon'⟩
      | _ => exact .inl rfl
  · exact Yields.of_dies (baseBinding_dies hcolon) hc

/-- The signature behind the parameter list. -/
def signed (r : Rules) (fn : Function) : Parse Function :=
  match Label.takeReceiver none fn.params with
  | .error e => Parse.failAt e.fault e.span
  | .ok (receiver, params) => do
    if fn.isArrow then return { fn with params := params, receiver := receiver }
    let receiver ← Label.receiverContract r receiver
    let returns ← if ← Parse.eat (.punct .colon) then some <$> Label.contract false r else pure fn.returns
    let condition ← if ← Parse.eat (.contextual .kwWhere) then some <$> r.expr else pure fn.condition
    return { fn with
      params := params, receiver := receiver, returns := returns, condition := condition }

theorem signed_eq {lo : Nat} {fn : Function} (hc : inert.Admits c)
    (h : inert.BaseHead lo c.nextSite fn) : signed r fn c = .ok fn c ∨ c.Bodiless := by
  have hthis : ∀ p ∈ fn.params, p.findThis? = none := by
    intro p hp
    obtain ⟨lo', hi', hmade⟩ := h.params.mem hp
    exact hmade.undemanding.1
  have hfn : { fn with receiver := none } = fn := by
    obtain ⟨-, -, hreceiver, -⟩ := h
    cases fn
    cases hreceiver
    rfl
  unfold signed
  rw [Label.takeReceiver_eq hthis]
  dsimp only
  split
  · rw [hfn]
    exact .inl rfl
  · by_cases hcolon : c.AtColon
    · exact .inr hcolon.bodiless
    by_cases hwhere : c.kind? = some (.contextual .kwWhere)
    · exact .inr ⟨by simp [Cursor.isAt, hwhere], by simp [Cursor.isAt, hwhere]⟩
    · refine .inl ?_
      have hreceiver : Label.receiverContract r none c = .ok none c := by
        change (if c.isAt (.marker .receiver) then _ else pure none : Parse (Option Demand)) c = _
        rw [isAt_marker hc]
        rfl
      have hno : c.isAt (.punct .colon) = false := by
        have hne : c.kind? ≠ some (.punct .colon) := hcolon
        cases h : c.kind? <;> simp_all [Cursor.isAt]
      have hnot : c.isAt (.contextual .kwWhere) = false := by
        cases h : c.kind? <;> simp_all [Cursor.isAt]
      rw [Parse.bind_ok hreceiver, Parse.bind_ok (Parse.eat_eq_false hno)]
      change (Parse.eat (.contextual .kwWhere) >>= _) c = _
      rw [Parse.bind_ok (Parse.eat_eq_false hnot)]
      change EStateM.Result.ok { fn with receiver := none } c = _
      rw [hfn]

/-- In the annotation language the same productions succeed in the same way, or the base language is
    stuck at a colon. -/
theorem hooks (settings : Settings) :
    inert.HooksYield inert.BaseHead [] (Grammar.labels settings) where
  own _ := trivial
  binding hr c := binding hr c
  params := by
    intro r r' hr c start name isArrow hname
    refine Yields.andThen (f := signed r') (baseParams hr c start name isArrow hname).weaken ?_
    exact fun hc' h => signed_eq hc' h.1
  single := (HooksYield.base fun _ => trivial).single
  body := by
    intro r r' hr c lo fn h
    refine (baseBody hr h).andThen fun {c' f} _ hf => .inl ?_
    have hneeds : f.needsChecks = false := Function.needsChecks_eq_false hf.made
    dsimp only
    rw [hneeds, Bool.not_false, Bool.or_true]
    rfl
  bodyStuck := (HooksYield.base fun _ => trivial).bodyStuck
  atom := by
    intro r r' hr h c
    refine (h c).congr fun hc => ?_
    have hsymbolic := kind?_symbolic hc
    have hcopy := kind?_ne (k := .ident "cpAnn") hc fun h => h rfl
    refine (Label.atom_eq _).trans ?_
    generalize c.kind? = k, c.kindAhead? 1 = k' at hsymbolic hcopy ⊢
    split
    · exact absurd rfl (hsymbolic rfl _)
    · exact absurd rfl hcopy
    · rfl
  trailing := by
    intro r r' hr c lo e he
    refine .congr (fun hc => ?_)
      ((baseTrailing he).andThen (f := Label.labelOps settings r') fun hc' _ => .inl (labelOps_eq hc' _))
    change (Label.labelOps settings r' e >>= _) c = _
    rw [Parse.bind_ok (labelOps_eq hc e)]
    rfl
  statement := by
    intro r r' hr h c
    refine (h c).congr fun hc => ?_
    have hne := fun k => kind?_ne (k := k) hc
    cases hname : c.kindAhead? 1 == some (.punct .dot) || c.kindAhead? 1 == some (.punct .eq) with
    | true => exact Label.statement_of_name hname _
    | false =>
      refine (Label.statement_eq hname _).trans ?_
      generalize c.kind? = k at hne ⊢
      split
      · exact absurd rfl (hne _ id)
      · exact absurd rfl (hne _ id)
      · exact absurd rfl (hne _ id)
      · rfl
  statementStuck := (HooksYield.base fun _ => trivial).statementStuck

end Making.inert

/-! ### Programs -/

/-- Where nothing has a meaning that the annotation language adds, it reads what the base language reads. -/
theorem Grammar.parse_labels_of_inert {tokens : List Token} {stmts : List Stmt} (settings : Settings)
    (htokens : ∀ t ∈ tokens, t.kind.Inert) (hsymbols : NoSymbols tokens)
    (h : Grammar.parse [] Grammar.program tokens = .ok stmts) :
    (Grammar.labels settings).parse Grammar.program tokens = .ok stmts :=
  (Making.inert.program (Making.inert.hooks settings) ⟨htokens, hsymbols⟩ h).2

theorem compile_of_parse {settings : Settings} {source : String} {program : Program}
    (h : (Grammar.labels settings).parseProgram source = .ok program) (name : String) :
    compile settings none ⟨name, source⟩ = .ok program.print := by
  have hunit : CompileUnit.compile settings ⟨name, source⟩ = .ok program.print := by
    rw [CompileUnit.compile, h]
  rw [compile, hunit]
  exact congrArg Except.ok String.empty_append

/-- A source without annotations means to the annotation language what it means to the base language,
    whether checks are wanted or not and whatever the run-time calls them. -/
theorem Grammar.labels_conservative {source : String} {program : Program} (hsource : Unannotated source)
    (h : Grammar.parseProgram [] source = .ok program) (settings : Settings) :
    (Grammar.labels settings).parseProgram source = .ok program ∧
      ∀ name, compile settings none ⟨name, source⟩ = .ok program.print := by
  obtain ⟨lexed, stmts, hread, hparse, rfl⟩ := Grammar.parseProgram_eq_ok.mp h
  have hlegal := (Lexed.legal_of_read hread).tokens
  have htokens : ∀ t ∈ lexed.tokens, t.kind.Inert := fun t ht => (hlegal t ht).inert (hsource lexed hread t ht).2
  have hsymbols : NoSymbols lexed.tokens := noSymbols_of_legal hlegal
  have hprogram : (Grammar.labels settings).parseProgram source = .ok ⟨stmts, lexed.comments⟩ :=
    Grammar.parseProgram_eq_ok.mpr ⟨lexed, stmts, Grammar.read_labels_of_unannotated settings hsource hread,
      Grammar.parse_labels_of_inert settings htokens hsymbols hparse, rfl⟩
  exact ⟨hprogram, compile_of_parse hprogram⟩

/-- Colons in all their roles, and names that begin like words of the annotation language. -/
theorem Grammar.labels_conservative_colons :
    Unannotated "switch (a ? b : c) { case (x) => x: f({ k: 1, asserts(y) { return y; } }); default: isNew = -a }" ∧
      ∃ program, Grammar.parseProgram []
          "switch (a ? b : c) { case (x) => x: f({ k: 1, asserts(y) { return y; } }); default: isNew = -a }" =
            .ok program ∧
        ∀ settings, (Grammar.labels settings).parseProgram
            "switch (a ? b : c) { case (x) => x: f({ k: 1, asserts(y) { return y; } }); default: isNew = -a }" =
              .ok program ∧
          ∀ name, compile settings none ⟨name,
            "switch (a ? b : c) { case (x) => x: f({ k: 1, asserts(y) { return y; } }); default: isNew = -a }"⟩ =
              .ok program.print := by
  generalize hsource :
    "switch (a ? b : c) { case (x) => x: f({ k: 1, asserts(y) { return y; } }); default: isNew = -a }" = source
  have htokens : ((Grammar.read [] source).toOption.any fun lexed => lexed.tokens.all fun t =>
      (Label.scan (textAt t.span.offset source.toList)).isNone && t.kind != .ident "cpAnn") = true := by
    rw [← hsource]
    decide +kernel
  have hreads : (Grammar.parseProgram [] source).isOk = true := by
    rw [← hsource]
    decide +kernel
  have hunannotated : Unannotated source := by
    intro lexed hread t ht
    rw [hread] at htokens
    simpa using List.all_eq_true.mp htokens t ht
  cases hparse : Grammar.parseProgram [] source with
  | error e => rw [hparse] at hreads; cases hreads
  | ok program => exact ⟨hunannotated, program, rfl, labels_conservative hunannotated hparse⟩

/-! ### Words as names -/

end LabelWeaver
