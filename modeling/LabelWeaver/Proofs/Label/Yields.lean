import LabelWeaver.Proofs.Grammar.Yields.Statements
import LabelWeaver.Proofs.Label.Productions
import LabelWeaver.Proofs.Instrument.Exact

/-! What the productions of the annotation language yield. Annotations are read between the nodes that
    carry them, so a making has to leave room for the numbers of the returns inside them; what is
    built from what was read is made if `Annotates` says so. -/

namespace LabelWeaver

namespace Making

open Label

variable (M : Making)

/-- A node among the annotations. -/
def Noted (n : Node) : Prop := ∃ lo hi, M.made lo hi n

/-- A function before its body is read. -/
structure NotedHead (lo hi : Nat) (fn : Function) : Prop where
  le : lo ≤ hi
  named : M.Named fn.name fn.isArrow
  params : ∀ p ∈ fn.params, M.Noted (.pattern p)
  clear : ∀ p ∈ fn.params, p.findThis? = none
  receiver : ∀ d ∈ fn.receiver, M.Noted (.demand d)
  returns : ∀ c ∈ fn.returns, M.Noted (.contract c)
  condition : ∀ e ∈ fn.condition, M.Noted (.expr e)
  sites : fn.checkedSites = []
  instrumented : fn.instrumented = false

/-- A function before its body is read, with the signature that was read. -/
structure SignedHead (lo hi : Nat) (fn : Function) : Prop where
  noted : M.NotedHead lo hi fn
  signed : M.signed fn

/-- What carries annotations and what is built from them is made. -/
structure Annotates (settings : Settings) : Prop where
  own : ∀ depth, M.own ((Grammar.labels settings).rules depth)
  signed : ∀ {r c c' start name isArrow fn}, M.own r → M.ahead (Cursor.rest c) →
    Label.params r (Grammar.baseParams r) (.blank start name isArrow) c = .ok fn c' → M.signed fn
  single : ∀ start n, M.signed { Function.blank start none true with params := [.name ⟨n.span, n, .none⟩] }
  le : ∀ {lo hi n}, M.made lo hi n → lo ≤ hi
  mono : ∀ {lo lo' hi hi' n}, M.made lo hi n → lo' ≤ lo → hi ≤ hi' → M.made lo' hi' n
  demand : ∀ {n : Node}, n.isDemand = true → (∀ m ∈ n.parts, M.Noted m) → M.Noted n
  name : ∀ {lo hi b}, lo ≤ hi → M.lexis.name b.name.text → M.Noted (.demand b.demand) →
    M.made lo hi (.pattern (.name b))
  this : ∀ {lo hi s d}, lo ≤ hi → M.Noted (.demand d) → M.made lo hi (.pattern (.this s d))
  receiver : ∀ {s d}, M.Noted (.pattern (.this s d)) → M.Noted (.demand d)
  declared : ∀ {lo hi}, lo ≤ hi → ∀ span ls ps, M.made lo hi (.stmt (declared settings span ls ps))
  ruled : ∀ {lo mid hi e fn}, M.made lo mid (.expr e) → M.made mid hi (.function fn) →
    ∀ span name, M.made lo hi (.stmt (ruled settings span e name fn))
  asserted : ∀ {lo mid hi e c}, M.made lo mid (.expr e) →
    Maybe (fun lo hi c => M.made lo hi (.contract c)) mid hi c →
    ∀ span, M.made lo hi (.stmt (asserted settings span e c))
  symbolized : ∀ {lo hi e}, M.made lo hi (.expr e) → ∀ span name,
    M.made lo hi (.expr (symbolized settings span name e))
  relabelled : ∀ {lo mid hi e ls}, M.made lo mid (.expr e) →
    Run (fun lo hi l => M.made lo hi (.label l)) mid hi ls →
    ∀ span dropping, M.made lo hi (.expr (relabelled settings span dropping ls e))
  copier : ∀ {lo}, settings.enabled = true → ∀ span,
    M.made lo lo (.expr (Emitter.startingAt settings.names span).copyLabels)
  copied : ∀ {lo hi args}, settings.enabled = false → Run (fun lo hi e => M.made lo hi (.item e)) lo hi args →
    args.length = 2 → ∀ span, M.made lo hi (.expr (.sequence span args))
  finished : ∀ {lo mid hi fn b}, M.SignedHead lo mid fn → M.made mid hi (.body b) →
    (fn.isArrow = false → ∃ block, b = .block block) → ∀ span,
    M.made lo (if takesSite settings { fn with body := b } then hi + 1 else hi)
      (.function { finished settings hi { fn with body := b } with span := span })

variable {M} {settings : Settings} (hM : M.Annotates settings) {r r' : Rules} (hr : M.RulesYield r r')

/-! ### Labels and contracts -/

section
include hr

theorem labelName (c : Cursor) :
    M.Yields Cursor.Never c (labelName r) (labelName r') (M.on .expr c.nextSite) := by
  refine .look ?_
  split
  · refine .advance fun _ _ => memberTail hr false ?_
    exact M.node rfl trivial (.nil _)
  · refine .look ?_
    split
    · refine .expectIdent fun _ hn => memberTail hr false ?_
      exact M.node rfl hn (.nil _)
    · exact .failHere

theorem label {p q : Parse (List Label)} (c : Cursor)
    (hp : ∀ c, M.Yields Cursor.Never c p q fun c' ls =>
      Run (fun lo hi l => M.made lo hi (.label l)) c.nextSite c'.nextSite ls) :
    M.Yields Cursor.Never c (label r p) (label r' q) (M.on .label c.nextSite) := by
  refine .look (.eat (fun _ _ => ?_) fun _ => (labelName hr c).bind fun {c₁ e} he => ?_)
  · exact (labelName hr _).bind fun he => .pure (M.node rfl trivial (.cons he (.nil _)))
  · have hdependants : ∀ {c₂ ls}, Run (fun lo hi l => M.made lo hi (.label l)) c₁.nextSite (Cursor.nextSite c₂) ls →
        ∀ {c₃ ds}, Run (fun lo hi e => M.made lo hi (.item e)) c₂.nextSite (Cursor.nextSite c₃) ds →
        ∀ s, M.on .label c.nextSite c₃ (.named s e ls ds) := fun hls _ _ hds s =>
      M.node rfl trivial (.cons he ((nodes hls).append (nodes hds)))
    have htail : ∀ {c₂ ls}, Run (fun lo hi l => M.made lo hi (.label l)) c₁.nextSite (Cursor.nextSite c₂) ls →
        M.Yields Cursor.Never c₂
          (do
            let ds ← if ← Parse.eat (.punct .lparen) then Grammar.exprList r (.punct .rparen) else pure []
            return Label.named (c.here.join (← Parse.prevSpan)) e ls ds)
          (do
            let ds ← if ← Parse.eat (.punct .lparen) then Grammar.exprList r' (.punct .rparen) else pure []
            return Label.named (c.here.join (← Parse.prevSpan)) e ls ds) (M.on .label c.nextSite) := by
      intro c₂ ls hls
      refine .eat (fun _ _ => ?_) fun _ => .look (.pure (hdependants hls (.nil _) _))
      exact (exprList hr _ _).bind fun hds => .look (.pure (hdependants hls hds _))
    refine .eat (fun _ _ => ?_) fun _ => htail (.nil _)
    exact (hp _).bind fun hls => htail hls

theorem labels (c : Cursor) : M.Yields Cursor.Never c (labels r) (labels r') fun c' ls =>
    Run (fun lo hi l => M.made lo hi (.label l)) c.nextSite c'.nextSite ls := by
  suffices h : ∀ size c, M.Yields Cursor.Never c (labelsFrom r size) (labelsFrom r' size) fun c' ls =>
      Run (fun lo hi l => M.made lo hi (.label l)) c.nextSite c'.nextSite ls from h (c.rest.length + 1) c
  intro size
  induction size with
  | zero => exact fun c => .failHere
  | succ size ih =>
    intro c
    refine (label hr c ih).bind fun hl => .eat (fun _ _ => ?_) fun _ => .eat (fun _ _ => ?_) fun _ => ?_
    · exact (ih _).bind fun hls => .pure (.cons hl hls)
    · exact .pure (.cons hl (.nil _))
    · exact .failHere

theorem labelsOrNone (c : Cursor) : M.Yields Cursor.Never c (labelsOrNone r) (labelsOrNone r') fun c' ls =>
    Run (fun lo hi l => M.made lo hi (.label l)) c.nextSite c'.nextSite ls :=
  .eat (fun _ _ => .pure (.nil _)) fun _ => labels hr c

/-- The condition at the end of a contract. -/
theorem contractEnd (allowCondition : Bool) (s : Span) {lo mid : Nat} {c : Cursor} {base : Option Expr}
    {ls : List Label} (hbase : Maybe (fun lo hi e => M.made lo hi (.expr e)) lo mid base)
    (hls : Run (fun lo hi l => M.made lo hi (.label l)) mid c.nextSite ls) :
    M.Yields Cursor.Never c
      (do
        let condition ← if allowCondition then do
            if ← Parse.eat (.contextual .kwWhere) then some <$> r.conditional else pure none
          else pure none
        return Contract.mk (s.join (← Parse.prevSpan)) base ls condition)
      (do
        let condition ← if allowCondition then do
            if ← Parse.eat (.contextual .kwWhere) then some <$> r'.conditional else pure none
          else pure none
        return Contract.mk (s.join (← Parse.prevSpan)) base ls condition) (M.on .contract lo) := by
  have hmade : ∀ {c' e}, Maybe (fun lo hi e => M.made lo hi (.expr e)) c.nextSite (Cursor.nextSite c') e → ∀ s,
      M.on .contract lo c' ⟨s, base, ls, e⟩ := fun he s =>
    M.node rfl trivial ((optionNodes hbase).append ((nodes hls).append (optionNodes he)))
  split
  · exact .eatOptional (R := fun lo hi e => M.made lo hi (.expr e)) (fun _ => hr.conditional _)
      fun he => .look (.pure (hmade he _))
  · exact .look (.pure (hmade (e := none) rfl _))

/-- The labels may be left out only if there is a base type. -/
theorem contractRest (allowCondition : Bool) (s : Span) {lo : Nat} {c : Cursor} {base : Option Expr}
    (hbase : Maybe (fun lo hi e => M.made lo hi (.expr e)) lo c.nextSite base) :
    M.Yields Cursor.Never c
      (do
        let labels ← if ← Parse.eat (.marker .labelOpen) then Label.labels r
          else if base.isNone then Parse.failHere .expectedContract
          else pure []
        let condition ← if allowCondition then do
            if ← Parse.eat (.contextual .kwWhere) then some <$> r.conditional else pure none
          else pure none
        return Contract.mk (s.join (← Parse.prevSpan)) base labels condition)
      (do
        let labels ← if ← Parse.eat (.marker .labelOpen) then Label.labels r'
          else if base.isNone then Parse.failHere .expectedContract
          else pure []
        let condition ← if allowCondition then do
            if ← Parse.eat (.contextual .kwWhere) then some <$> r'.conditional else pure none
          else pure none
        return Contract.mk (s.join (← Parse.prevSpan)) base labels condition) (M.on .contract lo) := by
  refine .eat (fun _ _ => ?_) fun _ => ?_
  · exact (labels hr _).bind fun hls => contractEnd hr allowCondition s hbase hls
  · cases base with
    | none => exact .failHere_bind
    | some e => exact contractEnd hr allowCondition s hbase (.nil _)

theorem contract (allowCondition : Bool) (c : Cursor) :
    M.Yields Cursor.Never c (contract allowCondition r) (contract allowCondition r') (M.on .contract c.nextSite) := by
  have hbase : Maybe (fun lo hi e => M.made lo hi (.expr e)) c.nextSite c.nextSite none := rfl
  have hnone := contractRest hr allowCondition c.here hbase
  refine .look (.look ?_)
  generalize c.kind? = k
  cases k with
  | none => exact hnone
  | some k =>
    cases k with
    | ident x =>
      have hbase : M.Yields Cursor.Never c (some <$> r.conditional) (some <$> r'.conditional) fun c' base =>
          Maybe (fun lo hi e => M.made lo hi (.expr e)) c.nextSite c'.nextSite base := (hr.conditional c).map id
      exact hbase.bind fun h => contractRest hr allowCondition _ h
    | _ => exact hnone

theorem labelContract (c : Cursor) : M.Yields Cursor.Never c (labelContract r) (labelContract r') fun c' k =>
    Run (fun lo hi l => M.made lo hi (.label l)) c.nextSite c'.nextSite k.labels :=
  .expect fun _ _ => (labels hr _).bind fun hls => .look (.pure hls)

end

/-! ### Suffixes -/

theorem Noted.of {lo hi : Nat} {n : Node} (h : M.made lo hi n) : M.Noted n := ⟨lo, hi, h⟩

theorem mem_parts_expect {d : Demand} {k : Contract} {n : Node} (h : n ∈ (Node.demand (d.expect k)).parts) :
    n ∈ (Node.demand d).parts ∨ n = .contract k := by
  obtain ⟨expected, shapes⟩ := d
  cases expected with
  | none =>
    simp only [Node.parts, Demand.expect, Option.none_or, Option.toList_some, List.map_cons, List.map_nil,
      List.cons_append, List.nil_append, List.mem_cons] at h
    exact h.symm.imp_left (List.mem_append_right _)
  | some => exact .inl h

theorem mem_parts_addShape {d : Demand} {s : Shape} {n : Node} (h : n ∈ (Node.demand (d.addShape s)).parts) :
    n ∈ (Node.demand d).parts ∨ n = .shape s := by
  have hmore : n ∈ (Node.demand { d with shapes := d.shapes ++ [s] }).parts →
      n ∈ (Node.demand d).parts ∨ n = .shape s := by
    simp only [Node.parts, List.map_append, List.map_cons, List.map_nil, List.mem_append, List.mem_singleton]
    rintro (h | h | h)
    · exact .inl (.inl h)
    · exact .inl (.inr h)
    · exact .inr h
  unfold Demand.addShape at h
  split at h
  · exact .inl h
  · exact hmore h

section
include hr

theorem shapeArgs (hM : M.Annotates settings) (c : Cursor) :
    M.Yields Cursor.Never c (shapeArgs r) (shapeArgs r') fun c' a =>
      c.nextSite ≤ c'.nextSite ∧ M.Noted (.expr a.1) ∧ M.Noted (.contract a.2) := by
  refine .expect fun _ _ => (hr.assign _).bind fun he => .expect fun _ _ => ?_
  refine (contract hr true _).bind fun hk => .expect fun _ _ => .pure ?_
  exact ⟨Nat.le_trans (hM.le he) (hM.le hk), .of he, .of hk⟩

/-- The parts of what is demanded so far. -/
theorem suffix (hM : M.Annotates settings) {lo : Nat} {c : Cursor} {d : Demand}
    (hd : lo ≤ c.nextSite ∧ ∀ m ∈ (Node.demand d).parts, M.Noted m) :
    M.Yields Cursor.Never c (suffix r d) (suffix r' d)
      (Stepped (fun c' d => lo ≤ c'.nextSite ∧ ∀ m ∈ (Node.demand d).parts, M.Noted m) c) := by
  have hshape : ∀ {s : Shape}, (∀ m ∈ (Node.shape s).parts, M.Noted m) →
      ∀ m ∈ (Node.demand (d.addShape s)).parts, M.Noted m := by
    intro s hs m hm
    rcases mem_parts_addShape hm with hm | rfl
    · exact hd.2 m hm
    · exact hM.demand rfl hs
  refine .look ?_
  split
  · refine .advance fun _ _ => (contract hr true _).bind fun hk => .pure ⟨Nat.le_trans hd.1 (hM.le hk), ?_⟩
    intro m hm
    rcases mem_parts_expect hm with hm | rfl
    · exact hd.2 m hm
    · exact .of hk
  · refine .advance fun _ _ => (contract hr true _).bind fun hk => .pure ⟨Nat.le_trans hd.1 (hM.le hk), ?_⟩
    exact hshape (by simpa [Node.parts] using .of hk)
  · refine .advance fun _ _ => (shapeArgs hr hM _).bind fun ha => .pure ⟨Nat.le_trans hd.1 ha.1, ?_⟩
    exact hshape (by simpa [Node.parts] using ha.2)
  · refine .advance fun _ _ => (shapeArgs hr hM _).bind fun ha => .pure ⟨Nat.le_trans hd.1 ha.1, ?_⟩
    exact hshape (by simpa [Node.parts] using ha.2)
  · exact .pure rfl

theorem suffixes (hM : M.Annotates settings) {lo : Nat} {c : Cursor} (hlo : lo ≤ c.nextSite) :
    M.Yields Cursor.Never c (suffixes r .none) (suffixes r' .none) fun c' d =>
      lo ≤ c'.nextSite ∧ M.Noted (.demand d) := by
  have hnone : lo ≤ c.nextSite ∧ ∀ m ∈ (Node.demand .none).parts, M.Noted m := ⟨hlo, nofun⟩
  exact (Yields.extend (suffix hr hM) hnone).imp fun hd => ⟨hd.1, hM.demand rfl hd.2⟩

/-- A binding target with its suffixes. -/
theorem suffixed (hM : M.Annotates settings) (c : Cursor) :
    M.Yields Cursor.Never c (Label.binding r (Grammar.baseBinding r)) (Label.binding r' (Grammar.baseBinding r'))
      (M.BindingMade c.nextSite) := by
  refine .look ?_
  split
  · refine .look ((suffixes hr hM (Nat.le_refl _)).bind fun hd => .look (.pure ?_))
    exact ⟨hM.this hd.1 hd.2, rfl⟩
  · refine (baseTarget hr c).bind fun {c' p} hp => ?_
    cases p with
    | name b =>
      obtain ⟨hname, hdemand⟩ := hp.2 b rfl
      refine .look ?_
      split
      · rw [hdemand]
        refine (suffixes hr hM (hM.le hp.1.1)).bind fun hd => .look (.pure ?_)
        exact ⟨hM.name hd.1 hname hd.2, rfl⟩
      · exact .pure hp.1
    | _ => exact .pure hp.1

/-! ### Signatures -/

omit hr in
/-- What stands behind a token that may be missing, or what was there before. -/
theorem eatOr {α β : Type} {c : Cursor} {k : Token.Kind} {p q : Parse α} {a : α} {f g : α → Parse β}
    {A : Cursor → α → Prop} {B : Cursor → β → Prop}
    (hp : ∀ c' : Cursor, c'.nextSite = c.nextSite → M.Yields Cursor.Never c' p q A) (ha : A c a)
    (hf : ∀ {c' a}, A c' a → M.Yields Cursor.Never c' (f a) (g a) B) :
    M.Yields Cursor.Never c (Parse.eat k >>= fun b => if b then p >>= f else pure a >>= f)
      (Parse.eat k >>= fun b => if b then q >>= g else pure a >>= g) B :=
  .eat (fun {t ts} _ _ => (hp (c.past t ts) rfl).bind hf) fun _ => (Yields.pure ha).bind hf

omit hr in
theorem eatAny {β : Type} {c : Cursor} {k : Token.Kind} {p q : Parse β} {B : Cursor → β → Prop}
    (hp : ∀ c' : Cursor, c'.nextSite = c.nextSite → M.Yields Cursor.Never c' p q B) :
    M.Yields Cursor.Never c (Parse.eat k >>= fun _ => p) (Parse.eat k >>= fun _ => q) B :=
  .eat (fun {t ts} _ _ => hp (c.past t ts) rfl) fun _ => hp c rfl

omit hr in
theorem takeReceiver (hM : M.Annotates settings) {ps qs : List Pattern} {d : Option Demand}
    (h : Label.takeReceiver none ps = .ok (d, qs)) (hps : ∀ p ∈ ps, M.Noted (.pattern p)) :
    (∀ x ∈ d, M.Noted (.demand x)) ∧ ∀ q ∈ qs, M.Noted (.pattern q) := by
  obtain ⟨-, -, rfl, rfl⟩ := takeReceiver_eq_ok_iff.mp h
  refine ⟨fun x hx => ?_, fun q hq => hps q (List.mem_filter.mp hq).1⟩
  obtain ⟨p, hp, hx⟩ := List.exists_of_findSome?_eq_some hx
  cases p with
  | this s d =>
    cases hx
    exact hM.receiver (hps _ hp)
  | _ => cases hx

theorem receiverContract (hM : M.Annotates settings) {lo : Nat} {c : Cursor} {d : Option Demand}
    (hlo : lo ≤ c.nextSite) (hd : ∀ x ∈ d, M.Noted (.demand x)) :
    M.Yields Cursor.Never c (receiverContract r d) (receiverContract r' d) fun c' d =>
      lo ≤ c'.nextSite ∧ ∀ x ∈ d, M.Noted (.demand x) := by
  refine .look ?_
  split
  · refine .advance fun _ _ => ?_
    split
    · exact .failAt_bind
    · refine (contract hr false _).bind fun hk => .pure ⟨Nat.le_trans hlo (hM.le hk), ?_⟩
      rintro _ ⟨⟩
      refine hM.demand rfl fun m hm => ?_
      rcases mem_parts_expect hm with hm | rfl
      · cases hm
      · exact .of hk
  · exact .pure ⟨hlo, hd⟩

/-- A parameter list with its signature. -/
theorem signature (hM : M.Annotates settings) (c : Cursor) (start : Span) (name : Option Name) (isArrow : Bool)
    (hname : M.Named name isArrow) :
    M.Yields Cursor.Never c (Label.params r (Grammar.baseParams r) (.blank start name isArrow))
      (Label.params r' (Grammar.baseParams r') (.blank start name isArrow)) fun c' fn =>
        M.NotedHead c.nextSite c'.nextSite fn ∧ fn.name = name ∧ fn.isArrow = isArrow := by
  refine (baseParams hr c start name isArrow hname).bind fun {c₁ fn} hfn => ?_
  obtain ⟨hhead, rfl, rfl⟩ := hfn
  have hparams : ∀ p ∈ fn.params, M.Noted (.pattern p) := fun p hp => hhead.params.mem hp
  have hle : c.nextSite ≤ c₁.nextSite := Run.le hM.le hhead.params
  cases htake : Label.takeReceiver none fn.params with
  | error e => exact .failAt
  | ok found =>
    obtain ⟨d, qs⟩ := found
    obtain ⟨hd, hqs⟩ := takeReceiver hM htake hparams
    have hclear := findThis?_of_takeReceiver htake
    have hreturns : ∀ k ∈ fn.returns, M.Noted (.contract k) := by
      rw [hhead.returns]
      nofun
    have hcondition : ∀ e ∈ fn.condition, M.Noted (.expr e) := by
      rw [hhead.condition]
      nofun
    dsimp only
    split
    · exact .pure ⟨⟨hle, hhead.named, hqs, hclear, hd, hreturns, hcondition, hhead.sites, hhead.instrumented⟩, rfl, rfl⟩
    · refine (receiverContract hr hM hle hd).bind fun {c₂ d'} hd' => ?_
      refine eatOr (A := fun c' k => c.nextSite ≤ c'.nextSite ∧ ∀ x ∈ k, M.Noted (.contract x))
        (fun c₃ h => ?_) ⟨hd'.1, hreturns⟩ fun {c₃ k} hk => ?_
      · refine (contract hr false _).map fun hk => ⟨Nat.le_trans (h ▸ hd'.1) (hM.le hk), ?_⟩
        rintro _ ⟨⟩
        exact .of hk
      refine eatOr (A := fun c' e => c.nextSite ≤ c'.nextSite ∧ ∀ x ∈ e, M.Noted (.expr x))
        (fun c₄ h => ?_) ⟨hk.1, hcondition⟩ fun {c₄ e} he => ?_
      · refine (hr.expr _).map fun he => ⟨Nat.le_trans (h ▸ hk.1) (hM.le he), ?_⟩
        rintro _ ⟨⟩
        exact .of he
      exact .pure ⟨⟨he.1, hhead.named, hqs, hclear, hd'.2, hk.2, he.2, hhead.sites, hhead.instrumented⟩, rfl, rfl⟩

theorem signedHead (hM : M.Annotates settings) (c : Cursor) (start : Span) (name : Option Name) (isArrow : Bool)
    (hname : M.Named name isArrow) :
    M.Yields Cursor.Never c (Label.params r (Grammar.baseParams r) (.blank start name isArrow))
      (Label.params r' (Grammar.baseParams r') (.blank start name isArrow)) fun c' fn =>
        M.SignedHead c.nextSite c'.nextSite fn ∧ fn.name = name ∧ fn.isArrow = isArrow := by
  intro hc fn c' h
  obtain ⟨hc', ⟨hhead, hnames⟩, hsame⟩ := signature hr hM c start name isArrow hname hc h
  exact ⟨hc', ⟨⟨hhead, hM.signed hr.own hc.2 h⟩, hnames⟩, hsame⟩

end

/-! ### Statements -/

theorem endsOpen_declared (span : Span) (ls : List Label) (ps : Option (List Label)) :
    (declared settings span ls ps).endsOpen = false := by
  unfold declared
  split
  · rfl
  · cases ps <;> rfl

theorem endsOpen_ruled (span : Span) (e : Expr) (name : Name) (fn : Function) :
    (ruled settings span e name fn).endsOpen = false := by
  unfold ruled
  split <;> rfl

theorem endsOpen_asserted (span : Span) (e : Expr) (k : Option Contract) :
    (asserted settings span e k).endsOpen = false := by
  unfold asserted
  split
  · rfl
  · cases k <;> rfl

theorem StatementMade.of {lo : Nat} {c : Cursor} {s : Stmt} (h : M.on .stmt lo c s) (hs : s.endsOpen = false) :
    M.StatementMade lo c s :=
  ⟨h, fun hopen => by rw [hs] at hopen; cases hopen⟩

section
include hM hr

theorem labelDeclaration (c : Cursor) : M.Yields Cursor.Never c (Label.declaration settings r)
    (Label.declaration settings r') (M.StatementMade c.nextSite) := by
  refine .advance fun _ _ => .expect fun _ _ => (labelsOrNone hr _).bind fun {c₁ ls} hls => ?_
  have hle : c.nextSite ≤ c₁.nextSite := Run.le hM.le hls
  have hparents : ∀ c₂ : Cursor, c₂.nextSite = c₁.nextSite → M.Yields Cursor.Never c₂ (some <$> Label.labelsOrNone r)
      (some <$> Label.labelsOrNone r') fun c' _ => c.nextSite ≤ c'.nextSite := fun c₂ h₂ =>
    (labelsOrNone hr c₂).map fun hps => Nat.le_trans hle (h₂ ▸ Run.le hM.le hps)
  refine .eat (fun {t ts} _ _ => .expect fun {t' ts'} _ _ => ?_) fun _ => ?_
  · refine (hparents ((c₁.past t ts).past t' ts') rfl).bind fun hle => .consumeSemicolon fun hsite => .look ?_
    rw [← hsite] at hle
    exact .of_eq (pure_declared ..) (.pure (.of (hM.declared hle _ _ _) (endsOpen_declared _ _ _)))
  · refine .consumeSemicolon fun {c₂} hsite => .look ?_
    rw [← hsite] at hle
    exact .of_eq (pure_declared ..) (.pure (.of (hM.declared hle _ _ _) (endsOpen_declared _ _ _)))

theorem traitRule (c : Cursor) : M.Yields Cursor.Never c (Label.traitRule settings r)
    (Label.traitRule settings r') (M.StatementMade c.nextSite) := by
  refine .advance fun _ _ => (hr.expr _).bind fun {c₁ e} he => .expectIdent fun _ _ => .look ?_
  refine eatAny fun c₂ h₂ => (hr.function _ _ none false ⟨nofun, nofun⟩).bind fun {c₃ fn} hfn => ?_
  refine .consumeSemicolon fun {c₄} hsite => .look ?_
  have hfunction : M.made c₁.nextSite c₄.nextSite (.function fn) := by
    rw [hsite, show c₁.nextSite = c₂.nextSite from h₂.symm]
    exact hfn.made
  exact .of_eq (pure_ruled ..) (.pure (.of (hM.ruled he hfunction _ _) (endsOpen_ruled _ _ _ _)))

theorem assertion (c : Cursor) : M.Yields Cursor.Never c (Label.assertion settings r)
    (Label.assertion settings r') (M.StatementMade c.nextSite) := by
  refine .advance fun _ _ => (hr.expr _).bind fun {c₁ e} he => ?_
  refine .eatOptional (R := fun lo hi k => M.made lo hi (.contract k)) (fun _ => contract hr true _) fun {c₂ k} hk => ?_
  refine .consumeSemicolon fun {c₃} hsite => .look ?_
  rw [← hsite] at hk
  exact .of_eq (pure_asserted ..) (.pure (.of (hM.asserted he hk _) (endsOpen_asserted _ _ _)))

theorem labelStatement {p q : Parse Stmt} (hp : ∀ c, M.Yields M.Dead c p q (M.StatementMade c.nextSite)) (c : Cursor) :
    M.Yields M.Dead c (Label.statement settings r p) (Label.statement settings r' q) (M.StatementMade c.nextSite) := by
  refine .look ?_
  split
  · exact hp c
  · refine .look ?_
    split
    · exact (labelDeclaration hM hr c).weaken
    · exact (traitRule hM hr c).weaken
    · exact (assertion hM hr c).weaken
    · exact hp c

/-! ### Operators -/

theorem symbolic (c : Cursor) :
    M.Yields Cursor.Never c (Label.symbolic settings r) (Label.symbolic settings r') (M.on .expr c.nextSite) := by
  refine .advance fun _ _ => .expectIdent fun _ _ => (hr.conditional _).bind fun he => ?_
  exact .of_eq (pure_symbolized ..) (.pure (hM.symbolized he _ _))

theorem copyLabels (c : Cursor) :
    M.Yields Cursor.Never c (Label.copyLabels settings r) (Label.copyLabels settings r') (M.on .expr c.nextSite) := by
  refine .advance fun _ _ => ?_
  split
  · next henabled => exact .pure (hM.copier henabled _)
  · next hdisabled =>
    refine .expect fun _ _ => (exprList hr _ _).bind fun hargs => .look ?_
    split
    · exact .failAt_bind
    · next hlength => exact .pure (hM.copied (eq_false_of_ne_true hdisabled) hargs (not_not.mp hlength) _)

theorem labelOp {lo : Nat} {c : Cursor} {e : Expr} (he : M.on .expr lo c e) :
    M.Yields Cursor.Never c (Label.labelOp settings r e) (Label.labelOp settings r' e) (Stepped (M.on .expr lo) c) := by
  refine .look (.look ?_)
  split
  · exact .pure rfl
  · refine .advance fun _ _ => (labelContract hr _).bind fun hls => ?_
    exact .of_eq (pure_relabelled ..) (.pure (hM.relabelled he hls _ _))

theorem labelOps {lo : Nat} {c : Cursor} {e : Expr} (he : M.on .expr lo c e) :
    M.Yields Cursor.Never c (Label.labelOps settings r e) (Label.labelOps settings r' e) (M.on .expr lo) :=
  .extend (labelOp hM hr) he

theorem labelAtom {p q : Parse Expr} (hp : ∀ c, M.Yields Cursor.Never c p q (M.on .expr c.nextSite)) (c : Cursor) :
    M.Yields Cursor.Never c (Label.atom settings r p) (Label.atom settings r' q) (M.on .expr c.nextSite) := by
  refine .look (.look ?_)
  split
  · exact symbolic hM hr c
  · exact copyLabels hM hr c
  · exact hp c

end

/-! ### Bodies -/

/-- The head and the body of a function. -/
theorem NotedHead.children {lo mid hi : Nat} {fn : Function} {b : FunctionBody} (hfn : M.NotedHead lo mid fn)
    (hb : M.made mid hi (.body b)) (span : Span) :
    ∀ m ∈ (Node.function { fn with span := span, body := b }).children, M.Noted m := by
  intro m hm
  simp only [Node.children, Node.parts, Node.metadata, List.mem_append, List.mem_map, List.mem_singleton,
    Option.mem_toList] at hm
  rcases hm with (⟨p, hp, rfl⟩ | rfl) | ⟨d, hd, rfl⟩ | ⟨c, hc, rfl⟩ | ⟨e, he, rfl⟩
  · exact hfn.params p hp
  · exact .of hb
  · exact hfn.receiver d hd
  · exact hfn.returns c hc
  · exact hfn.condition e he

theorem finished_name (site : Nat) (fn : Function) :
    (finished settings site fn).name = fn.name ∧ (finished settings site fn).isArrow = fn.isArrow := by
  unfold finished
  split
  · exact ⟨rfl, rfl⟩
  · obtain ⟨hname, harrow, -⟩ := instrument_head settings.names { fn with body := fn.body.toBlock site }
    exact ⟨hname, harrow⟩

include hM in
theorem finishedBody (hr : M.RulesYield r r') {lo : Nat} {c : Cursor} {fn : Function}
    (hfn : M.SignedHead lo c.nextSite fn) :
    M.Yields Cursor.Never c (Label.body settings (Grammar.baseBody r) fn) (Label.body settings (Grammar.baseBody r') fn)
      (M.FunctionMade lo fn.name fn.isArrow) := by
  rw [body_eq, body_eq]
  refine (baseBodied hr c fn).bind ?_
  rintro c' _ ⟨b, rfl, hb, hblock⟩ hc' _ _ ⟨⟩
  exact ⟨hc', ⟨hM.finished hfn hb hblock, finished_name _ _⟩, .inl rfl⟩

/-- The productions of the annotation language yield what is asked of them. -/
theorem HooksYield.labels (hM : M.Annotates settings) (htolerant : ¬M.tolerant) :
    M.HooksYield M.SignedHead (Grammar.labels settings) (Grammar.labels settings) where
  own := hM.own
  binding hr c := (suffixed hr hM c).weaken
  params hr c start name isArrow hname := (signedHead hr hM c start name isArrow hname).weaken
  single hn := by
    refine ⟨?_, hM.single _ _⟩
    refine ⟨Nat.le_refl _, ⟨nofun, fun _ => rfl⟩, ?_, ?_, nofun, nofun, nofun, rfl, rfl⟩
    · intro p hp
      rw [List.mem_singleton.mp hp]
      exact .of (hM.name (Nat.le_refl 0) hn (hM.demand rfl nofun))
    · intro p hp
      rw [List.mem_singleton.mp hp]
      rfl
  body hr _ _ _ hfn := finishedBody hM hr hfn
  bodyStuck _ _ _ hd harrow := Dies.bind (baseBody_dies hd harrow)
  atom hr h := labelAtom hM hr h
  trailing hr _ _ _ he := (labelOps hM hr he).bind fun he => (baseTrailing he).bind fun he => labelOps hM hr he
  statement hr h := labelStatement hM hr h
  statementStuck _ _ hd := absurd hd.1 htolerant

end Making

end LabelWeaver
