import LabelWeaver.Proofs.Grammar.Statements
import LabelWeaver.Proofs.Label.Receiver

/-! Contracts, suffixes and signatures of two runs of the annotation language. The settings play no
    role here: annotations are read in the same way whether checks are wanted or not. -/

namespace LabelWeaver

namespace Likeness

variable {L : Likeness} {lo hi : Nat} {r r' : Rules} (hr : L.RulesLike r r')

include hr

/-! ### Labels and contracts -/

theorem labelName (lo : Nat) :
    L.Sim lo (Label.labelName r) (Label.labelName r') (L.on .expr lo) := by
  refine .isAt fun b => ?_
  split
  · refine .advance fun t t' _ => ?_
    have hthis : L.rel lo lo (.expr (.this t.span)) (.expr (.this t'.span)) := expr rfl (.nil lo)
    exact memberTail hr false hthis
  · refine .look (fun h => h.isAtIdent) fun b => ?_
    split
    · refine .expectIdent fun n n' hn => ?_
      have hident : L.rel lo lo (.expr (.ident n.span n.text)) (.expr (.ident n'.span n'.text)) :=
        expr (by simp only [Expr.skeleton, hn]) (.nil lo)
      exact memberTail hr false hident
    · exact .failHere

theorem label {p p' : Parse (List Label)} (hp : ∀ lo, L.Sim lo p p' (Chain (L.on .label) lo)) (lo : Nat) :
    L.Sim lo (Label.label r p) (Label.label r' p') (L.on .label lo) := by
  refine .here fun _ _ => .eat fun b => ?_
  split
  · exact (labelName hr lo).bind fun _ he => .pure (bare rfl rfl rfl rfl (.cons he (.nil _)))
  · refine (labelName hr lo).bind fun _ he => .eat fun b => Sim.either (hp _) (.pure (.nil _)) fun _ hls => ?_
    refine .eat fun b => Sim.either (exprList hr _ _) (.pure (.nil _)) fun _ hds => .prevSpan fun _ _ => ?_
    refine .pure (bare rfl ?_ rfl rfl (.cons he ((nodes hls).append (nodes hds))))
    simp only [Node.skeleton, hls.map_const, hds.map_const]

theorem labels (lo : Nat) : L.Sim lo (Label.labels r) (Label.labels r') (Chain (L.on .label) lo) := by
  refine .sized fun size => ?_
  induction size generalizing lo with
  | zero => exact .failHere
  | succ size ih =>
    refine (label hr ih lo).bind fun _ hfirst => .eat fun b => ?_
    split
    · exact (ih _).bind fun _ hrest => .pure (.cons hfirst hrest)
    · refine .eat fun b => ?_
      split
      · exact .pure (.cons hfirst (.nil _))
      · exact .failHere

theorem labelsOrNone (lo : Nat) :
    L.Sim lo (Label.labelsOrNone r) (Label.labelsOrNone r') (Chain (L.on .label) lo) := by
  refine .eat fun b => ?_
  split
  · exact .pure (.nil lo)
  · exact labels hr lo

/-- The condition at the end of a contract. -/
theorem contractEnd (allowCondition : Bool) {mid w : Nat} {base base' : Option Expr} {ls ls' : List Label}
    (s s' : Span) (hbase : Optional (L.on .expr) lo mid base base')
    (hls : Chain (L.on .label) mid w ls ls') :
    L.Sim w (do
        let condition ← if allowCondition then do
            if ← Parse.eat (.contextual .kwWhere) then some <$> r.conditional else pure none
          else pure none
        return Contract.mk (s.join (← Parse.prevSpan)) base ls condition)
      (do
        let condition ← if allowCondition then do
            if ← Parse.eat (.contextual .kwWhere) then some <$> r'.conditional else pure none
          else pure none
        return Contract.mk (s'.join (← Parse.prevSpan)) base' ls' condition) (L.on .contract lo) := by
  have hmake : ∀ {w' e e'}, Optional (L.on .expr) w w' e e' →
      L.Sim w' (do return Contract.mk (s.join (← Parse.prevSpan)) base ls e)
        (do return Contract.mk (s'.join (← Parse.prevSpan)) base' ls' e') (L.on .contract lo) := by
    intro w' e e' he
    refine .prevSpan fun _ _ => .pure (bare rfl ?_ rfl rfl ?_)
    · simp only [Node.skeleton, hbase.map_const, hls.map_const, he.map_const]
    · exact (optionNodes hbase).append ((nodes hls).append (optionNodes he))
  split
  · exact .eat fun _ => Sim.optional (hr.conditional w) fun _ he => hmake he
  · exact hmake .none

/-- The labels may be left out only if there is a base type. -/
theorem contractRest (allowCondition : Bool) {w : Nat} {base base' : Option Expr} (s s' : Span)
    (hbase : Optional (L.on .expr) lo w base base') :
    L.Sim w (do
        let labels ← if ← Parse.eat (.marker .labelOpen) then Label.labels r
          else if base.isNone then Parse.failHere .expectedContract
          else pure []
        let condition ← if allowCondition then do
            if ← Parse.eat (.contextual .kwWhere) then some <$> r.conditional else pure none
          else pure none
        return Contract.mk (s.join (← Parse.prevSpan)) base labels condition)
      (do
        let labels ← if ← Parse.eat (.marker .labelOpen) then Label.labels r'
          else if base'.isNone then Parse.failHere .expectedContract
          else pure []
        let condition ← if allowCondition then do
            if ← Parse.eat (.contextual .kwWhere) then some <$> r'.conditional else pure none
          else pure none
        return Contract.mk (s'.join (← Parse.prevSpan)) base' labels condition) (L.on .contract lo) := by
  refine .eat fun c => ?_
  cases c with
  | true => exact (labels hr w).bind fun _ hls => contractEnd hr allowCondition s s' hbase hls
  | false =>
    cases hbase with
    | none => exact .failHere_bind
    | some hbase => exact contractEnd hr allowCondition s s' (.some hbase) (.nil _)

theorem contract (allowCondition : Bool) (lo : Nat) :
    L.Sim lo (Label.contract allowCondition r) (Label.contract allowCondition r') (L.on .contract lo) := by
  refine .here fun s s' => .kind? fun k => ?_
  cases k with
  | none => exact contractRest hr allowCondition s s' .none
  | some k =>
    cases k with
    | ident x => exact (hr.conditional lo).some.bind fun _ hbase => contractRest hr allowCondition s s' hbase
    | _ => exact contractRest hr allowCondition s s' .none

/-- Contracts of labels only. -/
theorem labelContract (lo : Nat) :
    L.Sim lo (Label.labelContract r) (Label.labelContract r')
      fun hi c c' => Chain (L.on .label) lo hi c.labels c'.labels := by
  refine .expect fun _ _ _ => (labels hr lo).bind fun _ hls => ?_
  exact .prevSpan fun _ _ => .pure hls

/-! ### Suffixes -/

omit hr in
theorem DemandLike.expect {d d' : Demand} {c c' : Contract} (h : L.DemandLike d d')
    (hc : L.Alike (.contract c) (.contract c')) : L.DemandLike (d.expect c) (d'.expect c') := by
  obtain ⟨expected, shapes⟩ := d
  obtain ⟨expected', shapes'⟩ := d'
  obtain ⟨hexpected, hshapes⟩ := h
  cases hexpected with
  | none => exact ⟨.some hc, hshapes⟩
  | some h => exact ⟨.some h, hshapes⟩

omit hr in
theorem every?_isSome {shapes shapes' : List Shape} (h : List.Forall₂ L.ShapeLike shapes shapes')
    (e e' : Option Contract) :
    (Demand.mk e shapes).every?.isSome = (Demand.mk e' shapes').every?.isSome := by
  simp only [Demand.every?]
  induction h with
  | nil => rfl
  | cons hs _ ih =>
    cases hs with
    | every => rfl
    | named => exact ih
    | atLeast => exact ih

omit hr in
theorem DemandLike.addShape {d d' : Demand} {s s' : Shape} (h : L.DemandLike d d') (hs : L.ShapeLike s s') :
    L.DemandLike (d.addShape s) (d'.addShape s') := by
  obtain ⟨expected, shapes⟩ := d
  obtain ⟨expected', shapes'⟩ := d'
  have hevery := every?_isSome h.shapes expected expected'
  have hmore : L.DemandLike ⟨expected, shapes ++ [s]⟩ ⟨expected', shapes' ++ [s']⟩ :=
    ⟨h.expected, List.rel_append h.shapes (.cons hs .nil)⟩
  unfold Demand.addShape
  cases hs with
  | every hc =>
    generalize Demand.every? ⟨expected, shapes⟩ = a, Demand.every? ⟨expected', shapes'⟩ = b at hevery
    cases a with
    | none =>
      cases b with
      | none => exact hmore
      | some => cases hevery
    | some =>
      cases b with
      | none => cases hevery
      | some => exact h
  | named => exact hmore
  | atLeast => exact hmore

theorem shapeArgs (lo : Nat) :
    L.Sim lo (Label.shapeArgs r) (Label.shapeArgs r') fun _ a a' =>
      L.Alike (.expr a.1) (.expr a'.1) ∧ L.Alike (.contract a.2) (.contract a'.2) := by
  refine .expect fun _ _ _ => (hr.assign lo).bind fun _ he => .expect fun _ _ _ => ?_
  refine (contract hr true _).bind fun _ hc => .expect fun _ _ _ => ?_
  exact .pure ⟨he.alike, hc.alike⟩

theorem suffix {d d' : Demand} (hd : L.DemandLike d d') (lo : Nat) :
    L.Sim lo (Label.suffix r d) (Label.suffix r' d')
      (Optional (fun _ _ d d' => L.DemandLike d d') lo) := by
  refine .kind? fun k => ?_
  split
  · refine .advance fun _ _ _ => (contract hr true lo).bind fun _ hc => ?_
    exact .pure (.some (hd.expect hc.alike))
  · refine .advance fun _ _ _ => (contract hr true lo).bind fun _ hc => ?_
    exact .pure (.some (hd.addShape (.every hc.alike)))
  · refine .advance fun _ _ _ => (shapeArgs hr lo).bind fun _ hargs => ?_
    exact .pure (.some (hd.addShape (.named hargs.1 hargs.2)))
  · refine .advance fun _ _ _ => (shapeArgs hr lo).bind fun _ hargs => ?_
    exact .pure (.some (hd.addShape (.atLeast hargs.1 hargs.2)))
  · exact .pure .none

theorem suffixes {d d' : Demand} (hd : L.DemandLike d d') (lo : Nat) :
    L.Sim lo (Label.suffixes r d) (Label.suffixes r' d') fun _ d d' => L.DemandLike d d' :=
  .extend (A := fun _ d d' => L.DemandLike d d') (fun h => suffix hr h _) hd

omit hr in
theorem isAtSuffix_beside {c d : Cursor} (h : c.Beside d) : Label.isAtSuffix c = Label.isAtSuffix d := by
  rw [Label.isAtSuffix, Label.isAtSuffix, h.kind?]

theorem suffixed {p p' : Parse Pattern} (hp : ∀ lo, L.Sim lo p p' (L.PatternLike lo)) (lo : Nat) :
    L.Sim lo (Label.binding r p) (Label.binding r' p') (L.PatternLike lo) := by
  refine .look isAtSuffix_beside fun b => ?_
  split
  · refine .here fun _ _ => (suffixes hr noDemand lo).bind fun hle hd => .prevSpan fun _ _ => ?_
    exact .pure (.this hd hle)
  · refine (hp lo).bind fun _ hq => ?_
    cases hq with
    | name hname hd hle =>
      refine .look isAtSuffix_beside fun b => ?_
      split
      · refine (suffixes hr hd _).bind fun hle' hd => .prevSpan fun _ _ => ?_
        exact .pure (.name hname hd (Nat.le_trans hle hle'))
      · exact .pure (.name hname hd hle)
    | this hd hle => exact .pure (.this hd hle)
    | array h hthis => exact .pure (.array h hthis)
    | object h hthis => exact .pure (.object h hthis)
    | withDefault h he => exact .pure (.withDefault h he)
    | rest h => exact .pure (.rest h)

/-! ### Receivers -/

omit hr in
theorem PatternLike.isReceiver {p p' : Pattern} (h : L.PatternLike lo hi p p') :
    p.isReceiver = p'.isReceiver := by
  cases h with
  | withDefault hp => cases hp <;> rfl
  | _ => rfl

omit hr in
/-- A chain of patterns may begin with a smaller number. -/
theorem widen {mid : Nat} {ps ps' : List Pattern} (h : Chain L.PatternLike mid hi ps ps') (hlo : lo ≤ mid) :
    ∃ top ≤ hi, Chain L.PatternLike lo top ps ps' := by
  cases h with
  | nil => exact ⟨lo, hlo, .nil lo⟩
  | cons hp hrest => exact ⟨hi, Nat.le_refl _, .cons (hp.mono hlo) hrest⟩

omit hr in
theorem takeReceiver {seen seen' : Option Demand} {ps ps' : List Pattern}
    (h : Chain L.PatternLike lo hi ps ps') (hseen : Option.Rel L.DemandLike seen seen') {d : Option Demand}
    {qs : List Pattern} (htake : Label.takeReceiver seen ps = .ok (d, qs)) :
    ∃ d' qs', Label.takeReceiver seen' ps' = .ok (d', qs') ∧ Option.Rel L.DemandLike d d' ∧
      ∃ mid ≤ hi, Chain L.PatternLike lo mid qs qs' := by
  induction h generalizing seen seen' d qs with
  | nil =>
    cases htake
    exact ⟨seen', [], rfl, hseen, _, Nat.le_refl _, .nil _⟩
  | @cons lo mid hi p p' ps ps' hp hrest ih =>
    cases hreceiver : p.isReceiver with
    | true =>
      cases hp with
      | this hd hle =>
        unfold Label.takeReceiver at htake ⊢
        cases hseen with
        | some => cases htake
        | none =>
          obtain ⟨d', qs', htake', hd', top, htop, hqs⟩ := ih (.some hd) htake
          obtain ⟨top', htop', hqs⟩ := widen hqs hle
          exact ⟨d', qs', htake', hd', top', Nat.le_trans htop' htop, hqs⟩
      | withDefault ht =>
        cases ht with
        | this => cases htake
        | _ => cases hreceiver
      | _ => cases hreceiver
    | false =>
      rw [takeReceiver_cons hreceiver] at htake
      rw [takeReceiver_cons (hp.isReceiver ▸ hreceiver)]
      have hthis := hp.findThis?
      generalize p.findThis? = a, p'.findThis? = b at htake hthis ⊢
      cases a with
      | some => cases htake
      | none =>
        cases b with
        | some => cases hthis
        | none =>
          cases hq : Label.takeReceiver seen ps with
          | error e => rw [hq] at htake; cases htake
          | ok q =>
            obtain ⟨dq, qs⟩ := q
            rw [hq] at htake
            cases htake
            obtain ⟨d', qs', htake', hd', top, htop, hqs⟩ := ih hseen hq
            exact ⟨d', p' :: qs', by rw [htake']; rfl, hd', top, htop, .cons hp hqs⟩

theorem receiverContract {d d' : Option Demand} (hd : Option.Rel L.DemandLike d d') (lo : Nat) :
    L.Sim lo (Label.receiverContract r d) (Label.receiverContract r' d') fun _ d d' =>
      Option.Rel L.DemandLike d d' := by
  refine .isAt fun b => ?_
  split
  · refine .advance fun _ _ _ => ?_
    cases hd with
    | some => exact .failAt_bind
    | none => exact (contract hr false lo).bind fun _ hc => .pure (.some (noDemand.expect hc.alike))
  · exact .pure hd

/-- A parameter list with its signature. -/
theorem signature {f f' : Function → Parse Function} {fn fn' : Function}
    (hf : L.Sim lo (f fn) (f' fn') (L.HeadLike lo)) :
    L.Sim lo (Label.params r f fn) (Label.params r' f' fn') (L.HeadLike lo) := by
  refine hf.bind fun {w h h'} hle hh => ?_
  obtain ⟨mid, hmid, hparams⟩ := hh.params
  cases htake : Label.takeReceiver none h.params with
  | error e => exact .failAt
  | ok q =>
    obtain ⟨d, qs⟩ := q
    obtain ⟨d', qs', htake', hd, top, htop, hqs⟩ := takeReceiver hparams .none htake
    have halike : ∀ {d d'}, Option.Rel L.DemandLike d d' →
        Option.Rel (fun d d' => L.Alike (.demand d) (.demand d')) d d' := by
      intro d d' h
      cases h with
      | none => exact .none
      | some h => exact .some h.alike
    have htop' : top ≤ w := Nat.le_trans htop hmid
    rw [htake', hh.isArrow]
    dsimp only
    split
    · exact .pure { hh with params := ⟨top, htop', hqs⟩, receiver := halike hd, isArrow := rfl }
    · refine (receiverContract hr hd w).bind fun hle₁ hreceiver => .eat fun b => ?_
      refine Sim.either (A := fun _ c c' => Option.Rel (fun c c' => L.Alike (.contract c) (.contract c')) c c')
        ((contract hr false _).map fun _ hc => .some hc.alike) (.pure hh.returns) fun hle₂ hreturns => ?_
      refine .eat fun b => Sim.either
        (A := fun _ e e' => Option.Rel (fun e e' => L.Alike (.expr e) (.expr e')) e e')
        ((hr.expr _).map fun _ he => .some he.alike) (.pure hh.condition) fun hle₃ hcondition => ?_
      exact .pure { hh with
        params := ⟨top, by omega, hqs⟩
        receiver := halike hreceiver
        returns := hreturns
        condition := hcondition
        isArrow := rfl }

end Likeness

end LabelWeaver
