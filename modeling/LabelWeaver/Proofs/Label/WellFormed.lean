import LabelWeaver.Proofs.Instrument.Covered
import LabelWeaver.Proofs.Grammar.Sites
import LabelWeaver.Proofs.Label.Yields

/-! Trees are well formed as they are read, and stay so when checks are put in. The one exception is
    the call of the function that copies labels where no checks are wanted: its two arguments
    become a sequence, with whatever dots they have. -/

namespace LabelWeaver

open Label

/-! ### Well-formed nodes -/

def Node.isSpread : Node → Bool
  | expr (.spread _ _) => true
  | _ => false

def Node.isList : Node → Bool
  | expr (.call _ _ _) | expr (.new _ _ _) | expr (.array _ _) => true
  | _ => false

def Node.isLabel : Node → Bool
  | label _ => true
  | _ => false

def Node.isPair : Node → Bool
  | expr (.sequence _ [_, _]) => true
  | _ => false

/-- What the form of a node asks of it. -/
def Node.Formed : Node → Prop
  | expr (.sequence _ items) => 2 ≤ items.length
  | expr (.assign _ _ e _) | expr (.update _ _ _ e) | forTarget (.expr e) => e.isTarget = true
  | stmt (.tryCatch _ _ h b) => h.isSome = true ∨ b.isSome = true
  | stmt (.switch _ _ cases) => (cases.filter (·.test.isNone)).length ≤ 1
  | stmt (.function fn) => fn.name.isSome = true
  | function fn => (∃ value, fn.body = .concise value) → fn.isArrow = true
  | _ => True

/-- If the child has dots, it is an element of an array literal or of an argument list. With `labels` it
    may also be a value that a label depends on, and with `pairs` one of two expressions in a sequence. -/
def Node.DotsFit (labels pairs : Bool) (n : Node) : Node → Prop
  | item (.spread _ _) => n.isList = true ∨ labels = true ∧ n.isLabel = true
  | expr (.spread _ _) => pairs = true ∧ n.isPair = true
  | _ => True

/-- The node has the form it should have, and dots stand below it only where they may. -/
def Node.WellFormed (labels pairs : Bool) (n : Node) : Prop :=
  n.Formed ∧ ∀ m ∈ n.children, n.DotsFit labels pairs m

/-- The node has the form it should have, and is no expression with dots. -/
def Node.Sound (n : Node) : Prop := n.Formed ∧ n.isSpread = false

section
variable {labels pairs : Bool} {n : Node}

theorem Node.isList_or_isLabel {e : Expr} (h : Node.item e ∈ n.children) : n.isList = true ∨ n.isLabel = true := by
  rcases List.mem_append.mp h with h | h
  · cases n with
    | expr x =>
      cases x with
      | call => exact .inl rfl
      | new => exact .inl rfl
      | array => exact .inl rfl
      | _ => simp [parts, Expr.parts] at h
    | label => exact .inr rfl
    | stmt s => cases s <;> simp [parts, Stmt.parts] at h
    | pattern p => cases p <;> simp [parts, Pattern.parts] at h
    | item x => cases x <;> simp [parts] at h
    | key k => cases k <;> simp [parts] at h
    | property p => cases p <;> simp [parts] at h
    | body b => cases b <;> simp [parts] at h
    | forInit i => cases i <;> simp [parts] at h
    | forTarget t => cases t <;> simp [parts] at h
    | patternProp p => cases p <;> simp [parts] at h
    | shape s => cases s <;> simp [parts] at h
    | _ => simp [parts] at h
  · cases n with
    | pattern p => cases p <;> simp [metadata] at h
    | _ => simp [metadata] at h

theorem Node.dotsFit_of_ne {m : Node} (hm : m ∈ n.children) (h : m.isSpread = false) : n.DotsFit true pairs m := by
  cases m with
  | item e =>
    cases e with
    | spread => exact (isList_or_isLabel hm).imp_right fun h => ⟨rfl, h⟩
    | _ => trivial
  | expr e =>
    cases e with
    | spread => cases h
    | _ => trivial
  | _ => trivial

theorem Node.wellFormed_of (hn : n.Formed) (hchildren : ∀ m ∈ n.children, m.isSpread = false) :
    n.WellFormed true pairs :=
  ⟨hn, fun m hm => dotsFit_of_ne hm (hchildren m hm)⟩

theorem Node.WellFormed.withoutLabels (h : n.WellFormed true pairs) (hn : n.isLabel = false) :
    n.WellFormed false pairs := by
  refine ⟨h.1, fun m hm => ?_⟩
  have hfit := h.2 m hm
  cases m with
  | item e =>
    cases e with
    | spread =>
      rcases hfit with hlist | ⟨-, hlabel⟩
      · exact .inl hlist
      · rw [hn] at hlabel
        cases hlabel
    | _ => trivial
  | expr e =>
    cases e with
    | spread => exact hfit
    | _ => trivial
  | _ => trivial

theorem Node.WellFormed.isSpread {m : Node} (h : n.WellFormed labels false) (hm : m ∈ n.children) :
    m.isSpread = false := by
  have hfit := h.2 m hm
  cases m with
  | expr e =>
    cases e with
    | spread => cases hfit.1
    | _ => rfl
  | _ => rfl

theorem Node.all_sound_iff : n.All Node.Sound ↔ n.All (Node.WellFormed true false) ∧ n.isSpread = false := by
  constructor
  · intro h
    refine ⟨fun m hm => wellFormed_of (h m hm).1 fun k hk => ?_, h.self.2⟩
    exact (h k (hm.trans (.inside hk (.self _)))).2
  · rintro ⟨hall, hspread⟩ m hm
    induction hm with
    | self => exact ⟨hall.self.1, hspread⟩
    | inside hm _ ih => exact ih (hall.child hm) (hall.self.isSpread hm)

end

theorem Stmt.formed_mapReturns (f : Return → Stmt) {s : Stmt} (hs : ∀ r : Return, s ≠ r.stmt)
    (h : (Node.stmt s).Formed) : (Node.stmt (s.mapReturns f)).Formed := by
  cases s with
  | ret span argument site => exact absurd rfl (hs ⟨span, argument, site⟩)
  | switch span subject cases =>
    rw [Stmt.mapReturns, caseMapReturns_eq]
    simpa [Node.Formed, List.filter_map, Function.comp_def] using h
  | tryCatch span body handler finalizer =>
    rw [Stmt.mapReturns_tryCatch]
    simpa [Node.Formed] using h
  | ifElse span test consequent alternate =>
    rw [Stmt.mapReturns_ifElse]
    trivial
  | block body =>
    obtain ⟨span, stmts⟩ := body
    trivial
  | _ => exact h

instance : Node.Ordinary Node.Sound where
  holds {n} hn := by
    cases n with
    | expr e => cases e <;> first | exact ⟨trivial, rfl⟩ | exact ⟨hn, rfl⟩ | cases hn
    | stmt s =>
      cases s with
      | tryCatch => exact ⟨by simpa [Node.isOrdinary, Node.Formed] using hn, rfl⟩
      | switch => cases hn
      | function => cases hn
      | _ => exact ⟨trivial, rfl⟩
    | forTarget t =>
      cases t with
      | var => exact ⟨trivial, rfl⟩
      | expr => cases hn
    | function fn => cases hn
    | _ => exact ⟨trivial, rfl⟩
  mapReturns f _ hs h := ⟨Stmt.formed_mapReturns f hs h.1, rfl⟩

/-! ### Nodes without annotations -/

section
variable {L : Lexis} {n : Node}

theorem Node.Proper.formed (h : n.Proper L) : n.Formed := by
  cases n with
  | expr e =>
    cases e with
    | sequence => exact h
    | assign => exact h
    | update => exact h
    | _ => trivial
  | stmt s =>
    cases s with
    | tryCatch => exact h
    | switch => exact h
    | function => exact h.2
    | _ => trivial
  | forTarget t =>
    cases t with
    | var => trivial
    | expr => exact h
  | function fn =>
    rintro ⟨value, hvalue⟩
    cases harrow : fn.isArrow with
    | true => rfl
    | false =>
      obtain ⟨b, hb⟩ := Function.Proper.body h harrow
      rw [hb] at hvalue
      cases hvalue
  | _ => trivial

theorem Node.Proper.isSpread (h : n.Proper L) : n.isSpread = false := by
  cases n with
  | expr e =>
    cases e with
    | spread => exact h.elim
    | _ => rfl
  | _ => rfl

theorem Node.Proper.metadata (h : n.Proper L) : ∀ m ∈ n.metadata, m = .demand .none := by
  cases n with
  | binding b =>
    have hb : b.demand = .none := h
    simp [Node.metadata, hb]
  | function fn =>
    obtain ⟨-, -, -, hreceiver, hreturns, hcondition, -, -⟩ := h
    simp [Node.metadata, hreceiver, hreturns, hcondition]
  | pattern p =>
    cases p with
    | this => exact h.elim
    | _ => exact fun _ hm => absurd hm List.not_mem_nil
  | _ => exact fun _ hm => absurd hm List.not_mem_nil

end

/-- A node of the annotations. -/
def Node.isNote : Node → Bool
  | demand _ | shape _ | contract _ | label _ => true
  | _ => false

theorem Node.isNote_parts {n : Node} (hn : n.isNote = false) : ∀ m ∈ n.parts, m.isNote = false := by
  cases n with
  | expr e => cases e <;> simp [parts, Expr.parts, isNote]
  | stmt s => cases s <;> simp [parts, Stmt.parts, isNote, or_imp, forall_and]
  | pattern p => cases p <;> simp [parts, Pattern.parts, isNote]
  | item e => cases e <;> simp [parts, isNote]
  | key k => cases k <;> simp [parts, isNote]
  | property p => cases p <;> simp [parts, isNote]
  | body b => cases b <;> simp [parts, isNote]
  | forInit i => cases i <;> simp [parts, isNote]
  | forTarget t => cases t <;> simp [parts, isNote]
  | patternProp p => cases p <;> simp [parts, isNote]
  | demand => cases hn
  | shape => cases hn
  | contract => cases hn
  | label => cases hn
  | _ => simp [parts, isNote, or_imp, forall_and]

theorem Node.isLabel_of_isNote {n : Node} (hn : n.isNote = false) : n.isLabel = false := by
  cases n with
  | label => cases hn
  | _ => rfl

/-- No labels are inside trees of the base language. -/
theorem Node.Made.noLabel {L : Lexis} {lo hi : Nat} {n : Node} (h : n.Made L lo hi) :
    n.isNote = false → n.All fun m => m.isLabel = false := by
  refine h.byParts (P := fun _ _ n => n.isNote = false → n.All fun m => m.isLabel = false) ?_ ?_
  · exact fun _ _ => Node.all_iff.mpr ⟨rfl, nofun⟩
  · intro lo hi n _ hproper _ ih hn
    refine Node.all_iff.mpr ⟨Node.isLabel_of_isNote hn, fun m hm => ?_⟩
    rcases List.mem_append.mp hm with hm | hm
    · obtain ⟨_, _, hall⟩ := ih.mem hm
      exact hall (Node.isNote_parts hn m hm)
    · rw [hproper.metadata m hm]
      exact Node.all_iff.mpr ⟨rfl, nofun⟩

/-! ### What reading makes -/

theorem Run.chain {α : Type} {A : Nat → Nat → α → Prop} {lo hi : Nat} {as : List α} (h : Run A lo hi as) :
    Chain (fun lo hi a _ => A lo hi a) lo hi as as := by
  induction h with
  | nil => exact .nil _
  | cons ha _ ih => exact .cons ha ih

/-- What is followed while a program is read. -/
structure Node.FormedIn (pairs : Bool) (lo hi : Nat) (n : Node) : Prop where
  all : n.All (Node.WellFormed true pairs)
  spread : n.isSpread = false
  sites : n.SitesIn lo hi

section
variable {pairs : Bool} {lo mid hi : Nat}

theorem Node.FormedIn.of {n : Node} (hn : n.Formed) (hspread : n.isSpread = false) (hsites : n.SitesIn lo hi)
    (hchildren : ∀ m ∈ n.children, m.All (Node.WellFormed true pairs) ∧ m.isSpread = false) :
    n.FormedIn pairs lo hi where
  all := Node.all_iff.mpr ⟨wellFormed_of hn fun m hm => (hchildren m hm).2, fun m hm => (hchildren m hm).1⟩
  spread := hspread
  sites := hsites

theorem Node.FormedIn.node {L : Lexis} {n : Node} (hn : n.isSite = false) (hproper : n.Proper L)
    (hparts : Run (Node.FormedIn pairs) lo hi n.parts) : n.FormedIn pairs lo hi := by
  refine .of hproper.formed hproper.isSpread ?_ fun m hm => ?_
  · cases hplain : n.isPlain with
    | true => exact .node Node.FormedIn.sites hplain hparts.chain
    | false =>
      refine .of_nil ?_ (hparts.le fun h => h.sites.le)
      cases n with
      | function => rfl
      | site => cases hn
      | _ => cases hplain
  · rcases List.mem_append.mp hm with hm | hm
    · obtain ⟨lo', hi', hmade⟩ := hparts.mem hm
      exact ⟨hmade.all, hmade.spread⟩
    · rw [hproper.metadata m hm]
      exact ⟨Node.all_iff.mpr ⟨wellFormed_of trivial nofun, nofun⟩, rfl⟩

theorem Node.FormedIn.item {e : Expr} (h : (Node.expr e).FormedIn pairs lo hi) : (Node.item e).FormedIn pairs lo hi := by
  refine .of trivial rfl (.of_nil rfl h.sites.le) fun m hm => ?_
  have hm : m = .expr e := by
    cases e with
    | spread => cases h.spread
    | _ => simpa [Node.children, Node.parts, Node.metadata] using hm
  rw [hm]
  exact ⟨h.all, h.spread⟩

end

/-- Nodes that are well formed, with their returns numbered apart. -/
def Making.formed (pairs : Bool) : Making where
  admits _ := True
  lexis := ⟨fun _ => True, fun _ => True, fun _ => True, fun _ _ => True⟩
  made := Node.FormedIn pairs
  tolerant := False
  node {_ _ n} hn := Node.FormedIn.node (by cases n <;> first | rfl | cases hn)
  site n := .of trivial rfl (.site n) nofun
  item := Node.FormedIn.item
  name _ _ := trivial
  propertyName _ _ := trivial
  number _ := trivial
  regex _ := trivial

instance (pairs : Bool) : (Making.formed pairs).MakesFunctions :=
  ⟨fun hproper hparts => Node.FormedIn.node rfl hproper hparts⟩

/-! ### What the annotation language makes -/

section
variable {pairs : Bool} {lo mid hi : Nat}

theorem Node.FormedIn.noted {n : Node} (hn : n.Formed) (hspread : n.isSpread = false) (hsites : n.ownedSites = [])
    (hle : lo ≤ hi) (hchildren : ∀ m ∈ n.children, (Making.formed pairs).Noted m) : n.FormedIn pairs lo hi := by
  refine .of hn hspread (.of_nil hsites hle) fun m hm => ?_
  obtain ⟨_, _, hmade⟩ := hchildren m hm
  exact ⟨hmade.all, hmade.spread⟩

/-- Generated code is well formed. -/
theorem Node.FormedIn.sound {n : Node} (h : n.All Node.Sound) (hsites : n.ownedSites = []) (hle : lo ≤ hi) :
    n.FormedIn false lo hi :=
  ⟨(Node.all_sound_iff.mp h).1, (Node.all_sound_iff.mp h).2, .of_nil hsites hle⟩

theorem Node.FormedIn.allSound {n : Node} (h : n.FormedIn false lo hi) : n.All Node.Sound :=
  Node.all_sound_iff.mpr ⟨h.all, h.spread⟩

/-- A function without checks. -/
theorem formed_unchecked {fn : Function} {b : FunctionBody} (hfn : (Making.formed pairs).NotedHead lo mid fn)
    (hb : (Node.body b).FormedIn pairs mid hi) (hblock : fn.isArrow = false → ∃ block, b = .block block)
    (hle : lo ≤ hi) (span : Span) : (Node.function { fn with span := span, body := b }).FormedIn pairs lo hi := by
  refine .noted ?_ rfl rfl hle (hfn.children hb span)
  rintro ⟨value, rfl⟩
  cases harrow : fn.isArrow with
  | true => rfl
  | false =>
    obtain ⟨block, hblock⟩ := hblock harrow
    cases hblock

/-- The body becomes a block whose returns have numbers of their own. -/
theorem Node.SitesIn.toBlock {b : FunctionBody} (h : (Node.body b).SitesIn lo hi) (site : Nat) :
    ∃ span stmts, b.toBlock site = .block ⟨span, stmts⟩ ∧ (listSites stmts).Nodup := by
  cases b with
  | block b =>
    obtain ⟨span, stmts⟩ := b
    exact ⟨span, stmts, rfl, h.nodup⟩
  | concise value => exact ⟨_, _, rfl, List.nodup_singleton site⟩

/-- A function with checks. -/
theorem formed_checked (names : RuntimeNames) {fn : Function} {b : FunctionBody}
    (hfn : (Making.formed false).NotedHead lo mid fn) (hb : (Node.body b).FormedIn false mid hi) (site : Nat)
    (span : Span) :
    (Node.function { ({ fn with body := b.toBlock site }.instrument names).1 with span := span }).All Node.Sound := by
  obtain ⟨at_, stmts, hblock, hnodup⟩ := hb.sites.toBlock site
  have hchildren : ∀ m ∈ (Node.function { fn with span := span, body := b.toBlock site }).children,
      m.All Node.Sound := by
    intro m hm
    have hold := hfn.children hb span
    simp only [Node.children, Node.parts, List.mem_append, List.mem_singleton] at hm hold
    rcases hm with (hm | rfl) | hm
    · obtain ⟨_, _, hmade⟩ := hold m (.inl (.inl hm))
      exact hmade.allSound
    · exact all_toBlock site hb.allSound
    · obtain ⟨_, _, hmade⟩ := hold m (.inr hm)
      exact hmade.allSound
  rw [← Function.instrument_span names { fn with body := b.toBlock site }]
  refine Function.all_instrument names { fn with span := span, body := b.toBlock site } hblock hfn.instrumented
    hfn.sites hnodup hchildren ⟨?_, rfl⟩
  obtain ⟨sites, hrun⟩ := Function.instrument_fresh names { fn with span := span, body := b.toBlock site } hblock
    hfn.instrumented hfn.sites hnodup
  rw [hrun]
  rintro ⟨value, hvalue⟩
  cases hvalue

/-- An item is well formed as an expression, dots included. -/
theorem Node.FormedIn.of_item {e : Expr} (h : (Node.item e).FormedIn pairs lo hi) :
    (Node.expr e).All (Node.WellFormed true pairs) := by
  cases e with
  | spread s e =>
    have he : (Node.expr e).All (Node.WellFormed true pairs) := h.all.part (by simp [Node.parts])
    have hspread : (Node.expr e).isSpread = false := by
      cases e with
      | spread => cases (h.all.self.2 _ (List.mem_singleton_self _)).2
      | _ => rfl
    refine Node.all_iff.mpr ⟨Node.wellFormed_of trivial fun m hm => ?_, fun m hm => ?_⟩
    · rw [List.mem_singleton.mp hm]
      exact hspread
    · rw [List.mem_singleton.mp hm]
      exact he
  | _ => exact h.all.part (by simp [Node.parts])

/-- The two arguments of a call that copies labels. -/
theorem formed_copied {args : List Expr} (h : Run (fun lo hi e => (Node.item e).FormedIn true lo hi) lo hi args)
    (hlength : args.length = 2) (span : Span) : (Node.expr (.sequence span args)).FormedIn true lo hi := by
  obtain ⟨a, b, rfl⟩ := List.length_eq_two.mp hlength
  refine ⟨Node.all_iff.mpr ⟨⟨Nat.le_refl _, fun m hm => ?_⟩, fun m hm => ?_⟩, rfl,
    .of_nil rfl (h.le fun h => h.sites.le)⟩
  · cases m with
    | expr e =>
      cases e with
      | spread => exact ⟨rfl, rfl⟩
      | _ => trivial
    | item => simp [Node.children, Node.parts, Node.metadata, Expr.parts] at hm
    | _ => trivial
  · obtain ⟨e, he, rfl⟩ : ∃ e ∈ [a, b], .expr e = m := by
      simpa [Node.children, Node.parts, Node.metadata, Expr.parts, eq_comm] using hm
    obtain ⟨_, _, hitem⟩ := h.mem he
    exact hitem.of_item

end

section
variable {pairs : Bool} {lo hi : Nat}

theorem formed_mono {lo' hi' : Nat} {n : Node} (h : n.FormedIn pairs lo hi) (hlo : lo' ≤ lo) (hhi : hi ≤ hi') :
    n.FormedIn pairs lo' hi' :=
  ⟨h.all, h.spread, h.sites.mono hlo hhi⟩

theorem formed_demand {n : Node} (hn : n.isDemand = true) (hparts : ∀ m ∈ n.parts, (Making.formed pairs).Noted m) :
    (Making.formed pairs).Noted n := by
  have hform : n.Formed ∧ n.isSpread = false ∧ n.ownedSites = [] ∧ n.metadata = [] := by
    cases n <;> first | exact ⟨trivial, rfl, rfl, rfl⟩ | cases hn
  obtain ⟨hform, hspread, hsites, hmeta⟩ := hform
  refine ⟨0, 0, .noted hform hspread hsites (Nat.le_refl 0) ?_⟩
  rw [Node.children, hmeta, List.append_nil]
  exact hparts

theorem formed_name {b : Binding} (hle : lo ≤ hi) (hd : (Making.formed pairs).Noted (.demand b.demand)) :
    (Node.pattern (.name b)).FormedIn pairs lo hi := by
  have hbinding : (Node.binding b).FormedIn pairs 0 0 := by
    refine .noted trivial rfl rfl (Nat.le_refl 0) fun m hm => ?_
    rw [List.mem_singleton.mp hm]
    exact hd
  refine .noted trivial rfl rfl hle fun m hm => ?_
  rw [List.mem_singleton.mp hm]
  exact .of hbinding

theorem formed_this {s : Span} {d : Demand} (hle : lo ≤ hi) (hd : (Making.formed pairs).Noted (.demand d)) :
    (Node.pattern (.this s d)).FormedIn pairs lo hi := by
  refine .noted trivial rfl rfl hle fun m hm => ?_
  rw [List.mem_singleton.mp hm]
  exact hd

theorem formed_receiver {s : Span} {d : Demand} (h : (Making.formed pairs).Noted (.pattern (.this s d))) :
    (Making.formed pairs).Noted (.demand d) := by
  obtain ⟨_, _, h⟩ := h
  exact ⟨0, 0, h.all.child (List.mem_singleton_self _), rfl, .of_nil rfl (Nat.le_refl 0)⟩

theorem formed_empty (hle : lo ≤ hi) (span : Span) : (Node.stmt (.empty span)).FormedIn pairs lo hi :=
  .noted trivial rfl rfl hle nofun

end

/-! ### What is built from annotations -/

section
variable {W : Node → Prop} [Node.Ordinary W] {settings : Settings}

theorem all_empty (span : Span) : (Node.stmt (.empty span)).All W := by
  rw [Node.all_stmt rfl]
  exact List.forall_mem_nil _

theorem all_declared (span : Span) (ls : List Label) (ps : Option (List Label)) :
    (Node.stmt (declared settings span ls ps)).All W := by
  unfold declared
  split
  · exact all_empty span
  · cases ps with
    | none => exact Emitter.all_stmt _ rfl (Emitter.all_runtimeCall _ _ (by simp))
    | some ps => exact Emitter.all_stmt _ rfl (Emitter.all_runtimeCall _ _ (by simp))

theorem all_ruled {e : Expr} {fn : Function} (he : (Node.expr e).All W) (hfn : (Node.function fn).All W) (span : Span)
    (name : Name) : (Node.stmt (ruled settings span e name fn)).All W := by
  unfold ruled
  split
  · exact all_empty span
  · exact Emitter.all_traitRule _ he hfn _

theorem all_asserted {e : Expr} {c : Option Contract} (he : (Node.expr e).All W)
    (hc : ∀ k ∈ c, (Node.contract k).All W) (span : Span) : (Node.stmt (asserted settings span e c)).All W := by
  unfold asserted
  split
  · exact all_empty span
  · cases c with
    | none => exact Emitter.all_stmt _ rfl (Emitter.all_assertCondition _ he _)
    | some c => exact Emitter.all_block_stmt _ (Emitter.all_expectation _ he (hc c rfl))

theorem all_symbolized {e : Expr} (he : (Node.expr e).All W) (span : Span) (name : Name) :
    (Node.expr (symbolized settings span name e)).All W := by
  unfold symbolized
  split
  · exact he
  · exact Emitter.all_symbol _ he _

theorem all_relabelled {e : Expr} {ls : List Label} (he : (Node.expr e).All W) (hls : ∀ l ∈ ls, (Node.label l).All W)
    (span : Span) (dropping : Bool) : (Node.expr (relabelled settings span dropping ls e)).All W := by
  unfold relabelled
  split
  · exact he
  · induction ls generalizing e with
    | nil => exact he
    | cons l ls ih =>
      obtain ⟨hl, hls⟩ := List.forall_mem_cons.mp hls
      exact ih (Emitter.all_relabel _ dropping he hl) hls

omit [Node.Ordinary W]

theorem ownedSites_declared (span : Span) (ls : List Label) (ps : Option (List Label)) :
    (Node.stmt (declared settings span ls ps)).ownedSites = [] := by
  unfold declared
  split
  · rfl
  · cases ps <;> rfl

theorem ownedSites_ruled (span : Span) (e : Expr) (name : Name) (fn : Function) :
    (Node.stmt (ruled settings span e name fn)).ownedSites = [] := by
  unfold ruled
  split <;> rfl

theorem ownedSites_asserted (span : Span) (e : Expr) (c : Option Contract) :
    (Node.stmt (asserted settings span e c)).ownedSites = [] := by
  unfold asserted
  split
  · rfl
  · cases c with
    | none => rfl
    | some c => simp [Node.ownedSites, Stmt.sites, Stmt.returns, Emitter.block]

end

section
variable {lo mid hi : Nat} {names : RuntimeNames}

theorem formed_asserted {e : Expr} {c : Option Contract} (he : (Node.expr e).FormedIn false lo mid)
    (hc : Maybe (fun lo hi c => (Node.contract c).FormedIn false lo hi) mid hi c) (span : Span) :
    (Node.stmt (asserted ⟨true, names⟩ span e c)).FormedIn false lo hi := by
  have hmade := run_toList_iff.mpr hc
  refine .sound (all_asserted he.allSound (fun k hk => ?_) span) (ownedSites_asserted _ _ _)
    (Nat.le_trans he.sites.le (hmade.le fun h => h.sites.le))
  obtain ⟨_, _, hk⟩ := hmade.mem (List.mem_map.mpr ⟨k, Option.mem_toList.mpr hk, rfl⟩)
  exact hk.allSound

theorem formed_relabelled {e : Expr} {ls : List Label} (he : (Node.expr e).FormedIn false lo mid)
    (hls : Run (fun lo hi l => (Node.label l).FormedIn false lo hi) mid hi ls) (span : Span) (dropping : Bool) :
    (Node.expr (relabelled ⟨true, names⟩ span dropping ls e)).FormedIn false lo hi := by
  refine .sound (all_relabelled he.allSound (fun l hl => ?_) span dropping) rfl
    (Nat.le_trans he.sites.le (hls.le fun h => h.sites.le))
  obtain ⟨_, _, hl⟩ := hls.mem hl
  exact hl.allSound

theorem formed_finished {fn : Function} {b : FunctionBody} (hfn : (Making.formed false).NotedHead lo mid fn)
    (hb : (Node.body b).FormedIn false mid hi) (hblock : fn.isArrow = false → ∃ block, b = .block block) (span : Span) :
    (Node.function { finished ⟨true, names⟩ hi { fn with body := b } with span := span }).FormedIn false lo
      (if takesSite ⟨true, names⟩ { fn with body := b } then hi + 1 else hi) := by
  have hle : lo ≤ hi := Nat.le_trans hfn.le hb.sites.le
  cases hneeds : Function.needsChecks { fn with body := b } with
  | false => simpa [finished, takesSite, hneeds] using formed_unchecked hfn hb hblock hle span
  | true =>
    have hsound := formed_checked names hfn hb hi span
    refine .sound ?_ rfl (by split <;> omega)
    simpa [finished, hneeds] using hsound

/-- With checks, what the annotation language makes is well formed. -/
theorem formed_annotates (names : RuntimeNames) : (Making.formed false).Annotates ⟨true, names⟩ where
  le h := h.sites.le
  mono := formed_mono
  demand := formed_demand
  name hle _ hd := formed_name hle hd
  this := formed_this
  receiver := formed_receiver
  declared hle _ _ _ := .sound (all_declared _ _ _) (ownedSites_declared _ _ _) hle
  ruled he hfn _ _ :=
    .sound (all_ruled he.allSound hfn.allSound _ _) (ownedSites_ruled _ _ _ _) (Nat.le_trans he.sites.le hfn.sites.le)
  asserted := formed_asserted
  symbolized he _ _ := .sound (all_symbolized he.allSound _ _) rfl he.sites.le
  relabelled := formed_relabelled
  copier _ _ := .sound (by simp [Emitter.copyLabels, Emitter.runtime]) rfl (Nat.le_refl _)
  copied h := by cases h
  finished hfn := formed_finished hfn.noted
  own _ := trivial
  signed _ _ _ := trivial
  single _ _ := trivial

/-- Without checks nothing is generated, but arguments become a sequence. -/
theorem formed_annotates_pairs (names : RuntimeNames) : (Making.formed true).Annotates ⟨false, names⟩ where
  le h := h.sites.le
  mono := formed_mono
  demand := formed_demand
  name hle _ hd := formed_name hle hd
  this := formed_this
  receiver := formed_receiver
  declared hle span _ _ := formed_empty hle span
  ruled he hfn span _ := formed_empty (Nat.le_trans he.sites.le hfn.sites.le) span
  asserted {lo mid hi e c} he hc span := by
    refine formed_empty (Nat.le_trans he.sites.le ?_) span
    cases c with
    | none => exact Nat.le_of_eq hc
    | some => exact hc.sites.le
  symbolized he _ _ := he
  relabelled he hls _ _ := formed_mono he (Nat.le_refl _) (hls.le fun h => h.sites.le)
  copier h := by cases h
  copied _ h hlength span := formed_copied h hlength span
  finished hfn hb hblock span := formed_unchecked hfn.noted hb hblock (Nat.le_trans hfn.noted.le hb.sites.le) span
  own _ := trivial
  signed _ _ _ := trivial
  single _ _ := trivial

end

/-! ### Programs -/

theorem Making.formed_program {pairs : Bool} {Head : Nat → Nat → Function → Prop} {g : Grammar} {source : String}
    {program : Program} (hg : (Making.formed pairs).HooksYield Head g g) (h : g.parseProgram source = .ok program) :
    ∀ s ∈ program.body, (Node.stmt s).All (Node.WellFormed true pairs) := by
  obtain ⟨lexed, stmts, -, hstmts, rfl⟩ := Grammar.parseProgram_eq_ok.mp h
  obtain ⟨⟨hi, hrun⟩, -⟩ := (Making.formed pairs).program hg ⟨fun _ _ => trivial, trivial⟩ hstmts
  intro s hs
  obtain ⟨_, _, hmade⟩ := hrun.mem hs
  exact hmade.all

theorem Grammar.noLabel_of_parse {source : String} {program : Program}
    (h : Grammar.parseProgram [] source = .ok program) :
    ∀ s ∈ program.body, (Node.stmt s).All fun n => n.isLabel = false := by
  obtain ⟨lexed, stmts, -, hstmts, rfl⟩ := Grammar.parseProgram_eq_ok.mp h
  obtain ⟨hi, hrun⟩ := @Grammar.made_of_parse (fun _ => True) _ _ (fun _ _ => trivial) hstmts
  intro s hs
  obtain ⟨_, _, hmade⟩ := hrun.mem hs
  exact hmade.noLabel rfl

theorem Grammar.read_copied :
    (((Grammar.labels ⟨false, {}⟩).parseProgram "cpAnn(...a, b);").toOption.any fun program =>
      match program.body with
      | [.expr _ (.sequence _ [.spread _ _, _])] => true
      | _ => false) = true := by
  decide +kernel

end LabelWeaver
