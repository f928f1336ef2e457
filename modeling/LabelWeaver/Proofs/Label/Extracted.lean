import LabelWeaver.Proofs.Label.Receiver
import LabelWeaver.Proofs.Label.WellFormed

/-! The place of a receiver is taken out of its parameter list once, or the source is refused. No tree
    that is read holds such a place any more. Each function has the parameters of its list but for
    that place, and asks of its receiver what the list asks, or what stands behind the list. Where a
    place is found twice, inside a pattern, in front of a mark behind the list, in a declaration or
    in a handler, reading the source fails. -/

namespace LabelWeaver

open Label Parse

/-! ### Signatures -/

namespace Label

/-- The parameters as they stand in the source. -/
def sourceParams (r : Rules) : Parse (List Pattern) := do
  let _ ← expect (.punct .lparen)
  let params ← separated (.punct .rparen) (Grammar.listElement r)
  let _ ← expect (.punct .rparen)
  return params

/-- A function whose parameter list stands somewhere in the tokens. -/
inductive Signed (settings : Settings) (tokens : List Token) (fn : Function) : Prop where
  /-- An arrow with a name in place of the list. -/
  | single (n : Name) (hparams : fn.params = [.name ⟨n.span, n, .none⟩]) (hreceiver : fn.receiver = none)
  /-- No mark behind the list: the receiver is the one of the list, if there is one. -/
  | listed {depth : Nat} {c c' : Cursor} {ps : List Pattern} (hc : c.rest <:+ tokens)
      (hread : sourceParams ((Grammar.labels settings).rules depth) c = .ok ps c') (hplaced : WellPlaced ps)
      (hmark : fn.isArrow = true ∨ c'.isAt (.marker .receiver) = false) (hparams : fn.params = ownParams ps)
      (hreceiver : fn.receiver = listed? ps)
  /-- A mark behind the list, and none in it. -/
  | marked {depth : Nat} {c c' c₁ c₂ : Cursor} {ps : List Pattern} {mark : Token} {k : Contract}
      (hc : c.rest <:+ tokens) (hread : sourceParams ((Grammar.labels settings).rules depth) c = .ok ps c')
      (hplaced : WellPlaced ps) (hnone : Label.listed? ps = none) (harrow : fn.isArrow = false)
      (hmark : c'.isAt (.marker .receiver) = true) (hadvance : advance c' = .ok mark c₁)
      (hcontract : contract false ((Grammar.labels settings).rules depth) c₁ = .ok k c₂)
      (hparams : fn.params = ownParams ps) (hreceiver : fn.receiver = some (Demand.none.expect k))

/-- A signature is about the parameters, the receiver and the form of a function. -/
theorem Signed.congr {settings : Settings} {tokens : List Token} {fn fn' : Function} (h : Signed settings tokens fn)
    (hparams : fn'.params = fn.params) (hreceiver : fn'.receiver = fn.receiver) (harrow : fn'.isArrow = fn.isArrow) :
    Signed settings tokens fn' := by
  cases h with
  | single n hps hr => exact .single n (hparams.trans hps) (hreceiver.trans hr)
  | listed hc hread hplaced hmark hps hr =>
    exact .listed hc hread hplaced (harrow ▸ hmark) (hparams.trans hps) (hreceiver.trans hr)
  | marked hc hread hplaced hnone ha hmark hadvance hcontract hps hr =>
    exact .marked hc hread hplaced hnone (harrow.trans ha) hmark hadvance hcontract (hparams.trans hps)
      (hreceiver.trans hr)

theorem baseParams_eq (r : Rules) (start : Span) (name : Option Name) (isArrow : Bool) :
    Grammar.baseParams r (.blank start name isArrow) =
      sourceParams r >>= fun ps => pure { Function.blank start name isArrow with params := ps } := by
  simp [sourceParams, Grammar.baseParams, Function.blank]

/-- What is known about a list of parameters tells what the signature is. -/
theorem params_eq {r : Rules} {start : Span} {name : Option Name} {isArrow : Bool} {c c' : Cursor} {ps : List Pattern}
    (h : sourceParams r c = .ok ps c') :
    Label.params r (Grammar.baseParams r) (.blank start name isArrow) c =
      (match takeReceiver none ps with
      | .error e => failAt e.fault e.span
      | .ok (receiver, params) =>
        if isArrow then
          pure { Function.blank start name isArrow with params := params, receiver := receiver }
        else do
          let receiver ← receiverContract r receiver
          let returns ← if ← eat (.punct .colon) then some <$> contract false r else pure none
          let condition ← if ← eat (.contextual .kwWhere) then some <$> r.expr else pure none
          return { Function.blank start name isArrow with
            params := params, receiver := receiver, returns := returns, condition := condition }) c' := by
  have hbase : Grammar.baseParams r (.blank start name isArrow) c =
      .ok { Function.blank start name isArrow with params := ps } c' := by
    rw [baseParams_eq, Parse.bind_ok h]
    rfl
  exact Parse.bind_ok hbase

/-- The mark behind a list is read, or there is none. -/
theorem receiverContract_eq_ok {r : Rules} {d d' : Option Demand} {c c' : Cursor}
    (h : receiverContract r d c = .ok d' c') :
    c.isAt (.marker .receiver) = false ∧ d' = d ∨
      c.isAt (.marker .receiver) = true ∧ d = none ∧ ∃ mark c₁ k, advance c = .ok mark c₁ ∧
        contract false r c₁ = .ok k c' ∧ d' = some (Demand.none.expect k) := by
  change (if c.isAt (.marker .receiver) then _ else pure d : Parse (Option Demand)) c = _ at h
  cases hmark : c.isAt (.marker .receiver) with
  | false =>
    rw [hmark] at h
    cases h
    exact .inl ⟨rfl, rfl⟩
  | true =>
    rw [hmark, if_pos rfl] at h
    obtain ⟨mark, c₁, hadvance, h⟩ := Parse.bind_eq_ok h
    cases d with
    | some => cases h
    | none =>
      obtain ⟨k, c₂, hcontract, ⟨⟩⟩ := Parse.bind_eq_ok h
      exact .inr ⟨rfl, rfl, mark, c₁, k, hadvance, hcontract, rfl⟩

theorem signed_of_params {settings : Settings} {tokens : List Token} {depth : Nat} {c c' : Cursor} {start : Span}
    {name : Option Name} {isArrow : Bool} {fn : Function} (hc : c.rest <:+ tokens)
    (h : Label.params ((Grammar.labels settings).rules depth) (Grammar.baseParams ((Grammar.labels settings).rules depth))
      (.blank start name isArrow) c = .ok fn c') : Signed settings tokens fn := by
  obtain ⟨base, c₁, hbase, -⟩ := Parse.bind_eq_ok h
  rw [baseParams_eq] at hbase
  obtain ⟨ps, c₂, hread, -⟩ := Parse.bind_eq_ok hbase
  rw [params_eq hread] at h
  cases htake : takeReceiver none ps with
  | error e =>
    rw [htake] at h
    cases h
  | ok found =>
    obtain ⟨d, qs⟩ := found
    obtain ⟨hplaced, -, hd, rfl⟩ := takeReceiver_eq_ok_iff.mp htake
    rw [Option.none_or] at hd
    rw [htake, hd] at h
    cases isArrow with
    | true =>
      cases h
      exact .listed hc hread hplaced (.inl rfl) rfl rfl
    | false =>
      obtain ⟨receiver, c₃, hreceiver, h⟩ := Parse.bind_eq_ok h
      obtain ⟨harrow, hparams, hfn⟩ : fn.isArrow = false ∧ fn.params = ownParams ps ∧ fn.receiver = receiver := by
        -- what is read behind the receiver goes to other fields
        obtain ⟨hasReturns, c₄, -, h⟩ := Parse.bind_eq_ok h
        cases hasReturns
        all_goals
          obtain ⟨returns, c₅, -, h⟩ := Parse.bind_eq_ok h
          obtain ⟨hasCondition, c₆, -, h⟩ := Parse.bind_eq_ok h
          cases hasCondition
          all_goals
            obtain ⟨condition, c₇, -, ⟨⟩⟩ := Parse.bind_eq_ok h
            exact ⟨rfl, rfl, rfl⟩
      rcases receiverContract_eq_ok hreceiver with ⟨hmark, rfl⟩ | ⟨hmark, hnone, mark, c₄, k, hadvance, hcontract, rfl⟩
      · exact .listed hc hread hplaced (.inr hmark) hparams hfn
      · exact .marked hc hread hplaced hnone harrow hmark hadvance hcontract hparams hfn

end Label

/-! ### Nodes -/

/-- The node holds the place of a receiver. -/
def Node.isThis : Node → Bool
  | pattern p => p.isThis
  | _ => false

/-- A receiver in the pattern that the node is. -/
def Node.findThis? : Node → Option Span
  | pattern p => p.findThis?
  | patternProp p => propertiesFindThis? [p]
  | _ => none

/-- The node holds no place of a receiver, and a function has the signature that stands in the tokens. -/
structure Node.Extracted (settings : Settings) (tokens : List Token) (n : Node) : Prop where
  clear : n.isThis = false
  signed : n.OnFunctions (Signed settings tokens)

instance {settings : Settings} {tokens : List Token} : Node.Ordinary (Node.Extracted settings tokens) where
  holds {n} hn := by
    refine ⟨?_, Node.Ordinary.holds hn⟩
    cases n with
    | pattern p =>
      cases p with
      | this => cases hn
      | _ => rfl
    | _ => rfl
  mapReturns f _ hs h := ⟨rfl, Node.Ordinary.mapReturns f hs h.signed⟩

/-- Where no receiver is found in a node, none is found in its parts. -/
theorem Node.Proper.findThis?_parts {L : Lexis} {n : Node} (hproper : n.Proper L) (hplain : n.isPlain = true)
    (h : n.findThis? = none) : ∀ m ∈ n.parts, m.findThis? = none := by
  cases n with
  | expr e => cases e <;> simp [parts, Expr.parts, findThis?]
  | stmt s => cases s <;> simp [parts, Stmt.parts, findThis?, or_imp, forall_and]
  | item e => cases e <;> simp [parts, findThis?]
  | key k => cases k <;> simp [parts, findThis?]
  | property p => cases p <;> simp [parts, findThis?]
  | body b => cases b <;> simp [parts, findThis?]
  | forInit i => cases i <;> simp [parts, findThis?]
  | shape s => cases s <;> simp [parts, findThis?]
  | label l => cases l <;> simp [parts, findThis?, or_imp, forall_and]
  | function => cases hplain
  | declarator d =>
    have htarget := (Pattern.isDeclared_iff.mp hproper).2
    simpa [parts, findThis?] using htarget
  | forTarget t =>
    cases t with
    | var kind p =>
      have htarget := (Pattern.isDeclared_iff.mp hproper).2
      simpa [parts, findThis?] using htarget
    | expr e => simp [parts, findThis?]
  | handler handler =>
    have hparam : ∀ p ∈ handler.param, p.findThis? = none := fun p hp =>
      (Pattern.isDeclared_iff.mp (hproper p hp)).2
    simpa [parts, findThis?, or_imp, forall_and] using hparam
  | pattern p =>
    cases p with
    | array s es => simpa [parts, Pattern.parts, findThis?] using elementsFindThis?_eq_none.mp h
    | object s ps =>
      have hprops := propertiesFindThis?_eq_none.mp h
      simp only [parts, Pattern.parts, List.mem_map, forall_exists_index, and_imp, forall_apply_eq_imp_iff₂]
      intro p hp
      refine propertiesFindThis?_eq_none.mpr fun q hq => ?_
      rw [List.mem_singleton.mp hq]
      exact hprops p hp
    | withDefault s t e =>
      have htarget : t.findThis? = none := h
      simpa [parts, Pattern.parts, findThis?] using htarget
    | rest s t =>
      have htarget : t.findThis? = none := h
      simpa [parts, Pattern.parts, findThis?] using htarget
    | _ => simp [parts, Pattern.parts, findThis?]
  | patternProp p =>
    have htarget := propertiesFindThis?_eq_none.mp h p (List.mem_singleton_self p)
    cases p with
    | keyValue k q => simpa [parts, findThis?] using htarget q rfl
    | shorthand b e => simp [parts, findThis?]
    | rest q => simpa [parts, findThis?] using htarget q rfl
  | _ => simp [parts, findThis?, or_imp, forall_and]

/-- What is followed while a program is read. Inside a pattern there may be the place of a receiver, as
    long as the search finds it; what it asks is in order. -/
structure Node.ExtractedIn (settings : Settings) (tokens : List Token) (lo hi : Nat) (n : Node) : Prop where
  all : n.findThis? = none → n.All (Node.Extracted settings tokens)
  demand : ∀ s d, n = .pattern (.this s d) → (Node.demand d).All (Node.Extracted settings tokens)
  sites : n.SitesIn lo hi

section
variable {settings : Settings} {tokens : List Token} {lo mid hi : Nat}

theorem Node.ExtractedIn.of_all {n : Node} (hall : n.All (Node.Extracted settings tokens)) (hsites : n.SitesIn lo hi) :
    n.ExtractedIn settings tokens lo hi where
  all _ := hall
  demand s d h := by
    rw [h] at hall
    cases hall.self.clear
  sites := hsites

theorem Node.ExtractedIn.node {L : Lexis} {n : Node} (hplain : n.isPlain = true) (hproper : n.Proper L)
    (hparts : Run (Node.ExtractedIn settings tokens) lo hi n.parts) : n.ExtractedIn settings tokens lo hi where
  all h := by
    refine Node.all_iff.mpr ⟨⟨?_, ?_⟩, fun m hm => ?_⟩
    · cases n with
      | pattern p =>
        cases p with
        | this => exact hproper.elim
        | _ => rfl
      | _ => rfl
    · refine Node.onFunctions_of_ne fun fn hfn => ?_
      rw [hfn] at hplain
      cases hplain
    · rcases List.mem_append.mp hm with hm | hm
      · obtain ⟨lo', hi', hmade⟩ := hparts.mem hm
        exact hmade.all (hproper.findThis?_parts hplain h m hm)
      · rw [hproper.metadata m hm]
        simp [Demand.none]
  demand s d h := by
    rw [h] at hproper
    exact hproper.elim
  sites := .node Node.ExtractedIn.sites hplain hparts.chain

end

/-- Nodes without places of receivers, but for patterns that are still searched for them. -/
def Making.extracted (settings : Settings) (tokens : List Token) : Making where
  admits _ := True
  lexis := ⟨fun _ => True, fun _ => True, fun _ => True, fun _ _ => True⟩
  made := Node.ExtractedIn settings tokens
  tolerant := False
  ahead ts := ts <:+ tokens
  own r := ∃ depth, r = (Grammar.labels settings).rules depth
  signed := Signed settings tokens
  node := Node.ExtractedIn.node
  site n := .of_all (by simp) (.site n)
  item h := .of_all (h.all rfl).item (.of_nil rfl h.sites.le)
  name _ _ := trivial
  propertyName _ _ := trivial
  number _ := trivial
  regex _ := trivial
  ahead_tail h := (List.suffix_cons _ _).trans h

section
variable {settings : Settings} {tokens : List Token} {lo mid hi : Nat}

/-- An annotation, or what is built from annotations. -/
theorem Making.Noted.all {n : Node} (h : (Making.extracted settings tokens).Noted n) (hn : n.findThis? = none) :
    n.All (Node.Extracted settings tokens) := by
  obtain ⟨_, _, hmade⟩ := h
  exact hmade.all hn

theorem extracted_demand {n : Node} (hn : n.isDemand = true)
    (hparts : ∀ m ∈ n.parts, (Making.extracted settings tokens).Noted m) : (Making.extracted settings tokens).Noted n := by
  have hform : n.isOrdinary = true ∧ n.ownedSites = [] ∧ n.metadata = [] ∧ n.isPlain = true ∧ n.findThis? = none ∧
      n.Proper ⟨fun _ => True, fun _ => True, fun _ => True, fun _ _ => True⟩ := by
    cases n <;> first | exact ⟨rfl, rfl, rfl, rfl, rfl, trivial⟩ | cases hn
  obtain ⟨hordinary, hsites, hmeta, hplain, hthis, hproper⟩ := hform
  refine ⟨0, 0, .of_all ?_ (.of_nil hsites (Nat.le_refl 0))⟩
  rw [Node.all_of_ordinary hordinary, Node.children, hmeta, List.append_nil]
  exact fun m hm => (hparts m hm).all (hproper.findThis?_parts hplain hthis m hm)

theorem extracted_name {b : Binding} (hle : lo ≤ hi) (hd : (Making.extracted settings tokens).Noted (.demand b.demand)) :
    (Node.pattern (.name b)).ExtractedIn settings tokens lo hi := by
  refine .of_all ?_ (.of_nil rfl hle)
  rw [Node.all_of_ordinary rfl]
  simpa [Node.children, Node.parts, Node.metadata, Pattern.parts] using Node.all_demand.mp (hd.all rfl)

theorem extracted_this {s : Span} {d : Demand} (hle : lo ≤ hi) (hd : (Making.extracted settings tokens).Noted (.demand d)) :
    (Node.pattern (.this s d)).ExtractedIn settings tokens lo hi where
  all h := by cases h
  demand _ _ h := by
    cases h
    exact hd.all rfl
  sites := .of_nil rfl hle

/-- An item is an expression in order, dots included. -/
theorem extracted_of_item {e : Expr} (h : (Node.item e).All (Node.Extracted settings tokens)) :
    (Node.expr e).All (Node.Extracted settings tokens) := by
  cases e with
  | spread s e =>
    refine Node.all_iff.mpr ⟨⟨rfl, Node.onFunctions_of_ne fun _ hfn => by cases hfn⟩, fun m hm => ?_⟩
    rw [List.mem_singleton.mp hm]
    exact h.part (by simp [Node.parts])
  | _ => exact h.part (by simp [Node.parts])

/-- The two arguments of a call that copies labels. -/
theorem extracted_copied {args : List Expr}
    (h : Run (fun lo hi e => (Node.item e).ExtractedIn settings tokens lo hi) lo hi args) (span : Span) :
    (Node.expr (.sequence span args)).ExtractedIn settings tokens lo hi := by
  refine .of_all (Node.all_iff.mpr ⟨⟨rfl, Node.onFunctions_of_ne fun _ hfn => by cases hfn⟩, fun m hm => ?_⟩)
    (.of_nil rfl (h.le fun h => h.sites.le))
  obtain ⟨e, he, rfl⟩ : ∃ e ∈ args, .expr e = m := by
    simpa [Node.children, Node.parts, Node.metadata, Expr.parts] using hm
  obtain ⟨_, _, hitem⟩ := h.mem he
  exact extracted_of_item (hitem.all rfl)

/-- A function with a signature as it stands in the tokens, of children in order. -/
theorem extracted_function {fn : Function} (h : Signed settings tokens fn)
    (hchildren : ∀ m ∈ (Node.function fn).children, m.All (Node.Extracted settings tokens)) :
    (Node.function fn).All (Node.Extracted settings tokens) := by
  refine Node.all_iff.mpr ⟨⟨rfl, fun f hf => ?_⟩, hchildren⟩
  cases hf
  exact h

theorem extracted_finished {fn : Function} {b : FunctionBody} (hfn : (Making.extracted settings tokens).SignedHead lo mid fn)
    (hb : (Node.body b).ExtractedIn settings tokens mid hi) (span : Span) :
    (Node.function { finished settings hi { fn with body := b } with span := span }).ExtractedIn settings tokens lo
      (if takesSite settings { fn with body := b } then hi + 1 else hi) := by
  have hle : lo ≤ hi := Nat.le_trans hfn.noted.le hb.sites.le
  have hsites : lo ≤ (if takesSite settings { fn with body := b } then hi + 1 else hi) := by split <;> omega
  refine .of_all ?_ (.of_nil rfl hsites)
  have hchildren : ∀ m ∈ (Node.function { fn with span := span, body := b }).children,
      m.All (Node.Extracted settings tokens) := by
    intro m hm
    have hnoted := hfn.noted.children hb span m hm
    refine hnoted.all ?_
    simp only [Node.children, Node.parts, Node.metadata, List.mem_append, List.mem_map, List.mem_singleton,
      Option.mem_toList] at hm
    rcases hm with (⟨p, hp, rfl⟩ | rfl) | ⟨d, -, rfl⟩ | ⟨c, -, rfl⟩ | ⟨e, -, rfl⟩
    · exact hfn.noted.clear p hp
    all_goals rfl
  unfold finished
  split
  · exact extracted_function (hfn.signed.congr rfl rfl rfl) hchildren
  · obtain ⟨at_, stmts, hblock, hnodup⟩ := hb.sites.toBlock hi
    obtain ⟨-, harrow, hparams, hreceiver⟩ :=
      instrument_head settings.names { fn with span := span, body := b.toBlock hi }
    rw [← Function.instrument_span settings.names { fn with body := b.toBlock hi }]
    refine Function.all_instrument settings.names { fn with span := span, body := b.toBlock hi } hblock
      hfn.noted.instrumented hfn.noted.sites hnodup (fun m hm => ?_)
      ⟨rfl, fun f hf => ?_⟩
    · simp only [Node.children, Node.parts, List.mem_append, List.mem_singleton] at hm hchildren
      rcases hm with (hm | rfl) | hm
      · exact hchildren m (.inl (.inl hm))
      · exact all_toBlock hi (hb.all rfl)
      · exact hchildren m (.inr hm)
    · cases hf
      exact hfn.signed.congr hparams hreceiver harrow

theorem extracted_annotates (settings : Settings) (tokens : List Token) :
    (Making.extracted settings tokens).Annotates settings where
  own depth := ⟨depth, rfl⟩
  signed := by
    rintro r c c' start name isArrow fn ⟨depth, rfl⟩ hc h
    exact signed_of_params hc h
  single _ n := .single n rfl rfl
  le h := h.sites.le
  mono h hlo hhi := ⟨h.all, h.demand, h.sites.mono hlo hhi⟩
  demand := extracted_demand
  name hle _ hd := extracted_name hle hd
  this := extracted_this
  receiver := by
    rintro s d ⟨_, _, h⟩
    exact ⟨0, 0, .of_all (h.demand s d rfl) (.of_nil rfl (Nat.le_refl 0))⟩
  declared hle _ _ _ := .of_all (all_declared _ _ _) (.of_nil (ownedSites_declared _ _ _) hle)
  ruled he hfn _ _ := .of_all (all_ruled (he.all rfl) (hfn.all rfl) _ _)
    (.of_nil (ownedSites_ruled _ _ _ _) (Nat.le_trans he.sites.le hfn.sites.le))
  asserted := by
    intro lo mid hi e c he hc span
    have hmade := run_toList_iff.mpr hc
    refine .of_all (all_asserted (he.all rfl) (fun k hk => ?_) span)
      (.of_nil (ownedSites_asserted _ _ _) (Nat.le_trans he.sites.le (hmade.le fun h => h.sites.le)))
    obtain ⟨_, _, hk⟩ := hmade.mem (List.mem_map.mpr ⟨k, Option.mem_toList.mpr hk, rfl⟩)
    exact hk.all rfl
  symbolized he _ _ := .of_all (all_symbolized (he.all rfl) _ _) (.of_nil rfl he.sites.le)
  relabelled := by
    intro lo mid hi e ls he hls span dropping
    refine .of_all (all_relabelled (he.all rfl) (fun l hl => ?_) span dropping)
      (.of_nil rfl (Nat.le_trans he.sites.le (hls.le fun h => h.sites.le)))
    obtain ⟨_, _, hl⟩ := hls.mem hl
    exact hl.all rfl
  copier _ _ := .of_all (by simp [Emitter.copyLabels, Emitter.runtime]) (.of_nil rfl (Nat.le_refl _))
  copied _ h _ span := extracted_copied h span
  finished hfn hb _ span := extracted_finished hfn hb span

end

/-! ### Refusals -/

/-- Reading with `p` from `c` on comes to reading with `q` from `d` on. -/
inductive Parse.Comes {β : Type} (q : Parse β) (d : Cursor) : {α : Type} → Parse α → Cursor → Prop where
  | here : Comes q d q d
  | first {α γ : Type} {p : Parse γ} {f : γ → Parse α} {c : Cursor} (h : Comes q d p c) : Comes q d (p >>= f) c
  | next {α γ : Type} {p : Parse γ} {f : γ → Parse α} {c c' : Cursor} {a : γ} (hp : p c = .ok a c')
      (h : Comes q d (f a) c') : Comes q d (p >>= f) c

theorem Parse.Comes.sized {α β : Type} {p : Nat → Parse α} {q : Parse β} {c d : Cursor}
    (h : Comes q d (p (c.rest.length + 1)) c) : Comes q d (Parse.sized p) c :=
  .next (p := look (·.rest.length + 1)) rfl h

/-- A failure is final. -/
theorem Parse.Comes.fails {α β : Type} {p : Parse α} {q : Parse β} {c d d' : Cursor} {e : SyntaxError}
    (h : Comes q d p c) (hq : q d = .error e d') : p c = .error e d' := by
  induction h with
  | here => exact hq
  | first _ ih => exact Parse.bind_error ih
  | next hp _ ih => exact (Parse.bind_ok hp).trans ih

/-- What is said about a receiver in a wrong place. -/
def SyntaxFault.isReceiver : SyntaxFault → Bool
  | receiverOutsideParams | receiverTwice | receiverWithDefault | receiverInsidePattern | receiverAlreadyMarked => true
  | _ => false

namespace Label

theorem isReceiver_of_takeReceiver {seen : Option Demand} {ps : List Pattern} {e : SyntaxError}
    (h : takeReceiver seen ps = .error e) : e.fault.isReceiver = true := by
  induction ps generalizing seen with
  | nil => cases h
  | cons p ps ih =>
    cases hreceiver : p.isReceiver with
    | true =>
      cases p with
      | this s d =>
        cases seen with
        | none => exact ih h
        | some => cases h; rfl
      | withDefault s t e =>
        cases t with
        | this => cases h; rfl
        | _ => cases hreceiver
      | _ => cases hreceiver
    | false =>
      rw [takeReceiver_cons hreceiver] at h
      cases hfind : p.findThis? with
      | some span =>
        rw [hfind] at h
        cases h
        rfl
      | none =>
        rw [hfind] at h
        cases hrest : takeReceiver seen ps with
        | error e' =>
          rw [hrest] at h
          cases h
          exact ih hrest
        | ok found =>
          rw [hrest] at h
          cases h

/-- A receiver in a wrong place: twice in a list, below a default value or inside a pattern of the list, in
    a list with a mark behind it, in a declaration or in a handler. -/
inductive Misplaced (r : Rules) : {β : Type} → Parse β → Cursor → Prop where
  | twice {d d' : Cursor} {start : Span} {name : Option Name} {isArrow : Bool} {ps : List Pattern}
      (hread : sourceParams r d = .ok ps d') (htwice : 2 ≤ (ps.filter Pattern.isThis).length) :
      Misplaced r (Label.params r (Grammar.baseParams r) (.blank start name isArrow)) d
  | inside {d d' : Cursor} {start : Span} {name : Option Name} {isArrow : Bool} {ps : List Pattern} {p q : Pattern}
      (hread : sourceParams r d = .ok ps d') (hp : p ∈ ps) (hq : q.Part p) (hinside : q ≠ p) (hthis : q.isThis = true) :
      Misplaced r (Label.params r (Grammar.baseParams r) (.blank start name isArrow)) d
  | marked {d d' : Cursor} {start : Span} {name : Option Name} {ps : List Pattern} {p : Pattern}
      (hread : sourceParams r d = .ok ps d') (hp : p ∈ ps) (hthis : p.isThis = true)
      (hmark : d'.isAt (.marker .receiver) = true) :
      Misplaced r (Label.params r (Grammar.baseParams r) (.blank start name false)) d
  | declared {d d' : Cursor} {p q : Pattern} (hread : r.binding d = .ok p d') (hq : q.Part p) (hthis : q.isThis = true) :
      Misplaced r (Grammar.declarator r) d
  | caught {d d₁ d₂ d₃ : Cursor} {word : Token} {p q : Pattern} (hword : expect (.reserved .kwCatch) d = .ok word d₁)
      (hopen : eat (.punct .lparen) d₁ = .ok true d₂) (hread : r.binding d₂ = .ok p d₃) (hq : q.Part p)
      (hthis : q.isThis = true) : Misplaced r (Grammar.handler r) d

/-- A list with receivers in wrong places is refused. -/
theorem params_fails {r : Rules} {d d' : Cursor} {start : Span} {name : Option Name} {isArrow : Bool}
    {ps : List Pattern} (hread : sourceParams r d = .ok ps d') (hplaced : ¬WellPlaced ps) :
    ∃ e c, Label.params r (Grammar.baseParams r) (.blank start name isArrow) d = .error e c ∧
      e.fault.isReceiver = true := by
  rw [params_eq hread]
  cases htake : takeReceiver none ps with
  | error e => exact ⟨_, _, rfl, isReceiver_of_takeReceiver htake⟩
  | ok found =>
    obtain ⟨x, own⟩ := found
    exact absurd (takeReceiver_eq_ok_iff.mp htake).1 hplaced

/-- A mark behind the list is refused if there is a receiver in it. -/
theorem receiverContract_fails {r : Rules} {c : Cursor} (x : Demand) (hmark : c.isAt (.marker .receiver) = true) :
    ∃ e c', receiverContract r (some x) c = .error e c' ∧ e.fault.isReceiver = true := by
  cases hrest : c.rest with
  | nil => simp [Cursor.isAt, Cursor.kind?, Cursor.peek?, hrest] at hmark
  | cons t ts =>
    have hkind : t.kind ≠ .eof := by
      intro h
      simp [Cursor.isAt, Cursor.kind?_of_rest hrest, h, Token.Kind.sameSort] at hmark
    refine ⟨⟨.receiverAlreadyMarked, t.span⟩, c.past t ts, ?_, rfl⟩
    change (if c.isAt (.marker .receiver) then _ else _ : Parse (Option Demand)) c = _
    rw [if_pos hmark, Parse.bind_ok (Parse.advance_eq_ok hrest hkind)]
    rfl

theorem rejectReceiver_fails {p q : Pattern} (hq : q.Part p) (hthis : q.isThis = true) (c : Cursor) :
    ∃ e, Grammar.rejectReceiver p c = .error e c ∧ e.fault.isReceiver = true := by
  unfold Grammar.rejectReceiver
  cases hfind : p.findThis? with
  | some span => exact ⟨_, rfl, rfl⟩
  | none =>
    have hclear := Pattern.findThis?_eq_none_iff.mp hfind q hq
    rw [hthis] at hclear
    cases hclear

/-- Reading fails at a receiver in a wrong place. -/
theorem Misplaced.fails {r : Rules} {β : Type} {q : Parse β} {d : Cursor} (h : Misplaced r q d) :
    ∃ e c, q d = .error e c ∧ e.fault.isReceiver = true := by
  cases h with
  | twice hread htwice =>
    refine params_fails hread fun hplaced => ?_
    have honce := hplaced.once
    omega
  | @inside _ _ _ _ _ ps p q hread hp hq hinside hthis =>
    refine params_fails hread fun hplaced => ?_
    cases hself : p.isThis with
    | true =>
      -- a receiver has no parts but itself
      cases hq with
      | self => exact hinside rfl
      | _ => cases hself
    | false =>
      have hclear := hplaced.apart p hp hself q hq
      rw [hthis] at hclear
      cases hclear
  | @marked d d' start name ps p hread hp hthis hmark =>
    by_cases hplaced : WellPlaced ps
    · obtain ⟨x, hx⟩ : ∃ x, listed? ps = some x := by
        rw [← Option.ne_none_iff_exists', ne_eq, listed?_eq_none_iff, List.filter_eq_nil_iff]
        exact fun hnone => hnone p hp hthis
      have htake : takeReceiver none ps = .ok (some x, ownParams ps) := by
        refine takeReceiver_eq_ok_iff.mpr ⟨hplaced, fun h => ?_, ?_, rfl⟩
        · cases h
        · rw [hx, Option.none_or]
      rw [params_eq hread, htake]
      obtain ⟨e, c, he, hfault⟩ := receiverContract_fails (r := r) x hmark
      exact ⟨e, c, Parse.bind_error he, hfault⟩
    · exact params_fails hread hplaced
  | declared hread hq hthis =>
    obtain ⟨e, he, hfault⟩ := rejectReceiver_fails hq hthis _
    exact ⟨e, _, (Comes.next hread (.first .here)).fails he, hfault⟩
  | @caught d d₁ d₂ d₃ word p q hword hopen hread hq hthis =>
    obtain ⟨e, he, hfault⟩ := rejectReceiver_fails hq hthis _
    have hcomes : Comes (Grammar.rejectReceiver p) d₃ (Grammar.handler r) d := by
      refine .next hword (.next hopen ?_)
      change Comes _ _ (r.binding >>= _) _
      exact .next hread (.first .here)
    exact ⟨e, _, hcomes.fails he, hfault⟩

end Label

/-! ### Programs -/

/-- The tokens of a declaration with a receiver. -/
private def declaredTokens : List Token :=
  [⟨.reserved .kwVar, ⟨0, 3⟩, false⟩, ⟨.punct .colon, ⟨4, 1⟩, false⟩, ⟨.marker .labelOpen, ⟨5, 2⟩, false⟩,
    ⟨.ident "S", ⟨7, 1⟩, false⟩, ⟨.marker .labelClose, ⟨8, 2⟩, false⟩, ⟨.punct .semi, ⟨10, 1⟩, false⟩,
    ⟨.eof, ⟨11, 0⟩, false⟩]

/-- Reading comes to the target of the declaration. -/
theorem comes_declarator : Comes (Grammar.declarator ((Grammar.labels {}).rules 7))
    ((Cursor.start declaredTokens).past ⟨.reserved .kwVar, ⟨0, 3⟩, false⟩ declaredTokens.tail)
    (Grammar.program ((Grammar.labels {}).rules 8)) (.start declaredTokens) := by
  refine .sized ?_
  change Comes _ _ (look _ >>= _) _
  refine .next rfl ?_
  change Comes _ _ (((Grammar.labels {}).rules 8).statement >>= _) _
  refine .first ?_
  change Comes _ _ (look _ >>= _) _
  refine .next rfl ?_
  change Comes _ _ (kind? >>= _) _
  refine .next rfl ?_
  change Comes _ _ (kind? >>= _) _
  refine .next rfl ?_
  change Comes _ _ (Grammar.declaration _ >>= _) _
  exact .first (.next rfl (.first (.sized (.first .here))))

end LabelWeaver
