import LabelWeaver.Proofs.Grammar.Patterns

/-! Functions of two runs: blocks, parameter lists, bodies and arrows, and what is asked of the
    productions that layers change. -/

namespace LabelWeaver

namespace Likeness

variable (L : Likeness)

/-! ### Functions before and after their bodies -/

/-- Functions whose bodies are not read yet. The parameters were read first, then annotations. -/
structure HeadLike (lo hi : Nat) (fn fn' : Function) : Prop where
  name : fn.name.map (·.text) = fn'.name.map (·.text)
  isArrow : fn.isArrow = fn'.isArrow
  params : ∃ mid ≤ hi, Chain L.PatternLike lo mid fn.params fn'.params
  receiver : Option.Rel (fun d d' => L.Alike (.demand d) (.demand d')) fn.receiver fn'.receiver
  returns : Option.Rel (fun c c' => L.Alike (.contract c) (.contract c')) fn.returns fn'.returns
  condition : Option.Rel (fun e e' => L.Alike (.expr e) (.expr e')) fn.condition fn'.condition
  sites : fn.checkedSites = [] ∧ fn'.checkedSites = []
  instrumented : fn.instrumented = false ∧ fn'.instrumented = false

/-- Bodies of the same form. -/
inductive BodyLike (lo hi : Nat) : FunctionBody → FunctionBody → Prop where
  | block {s s' : Span} {stmts stmts' : List Stmt} (h : Chain (L.on .stmt) lo hi stmts stmts') :
      BodyLike lo hi (.block ⟨s, stmts⟩) (.block ⟨s', stmts'⟩)
  | concise {e e' : Expr} (h : L.rel lo hi (.expr e) (.expr e')) :
      BodyLike lo hi (.concise e) (.concise e')

/-- The functions with bodies put in. -/
def Bodied (fn fn' : Function) (lo hi : Nat) (f f' : Function) : Prop :=
  ∃ b b', f = { fn with body := b } ∧ f' = { fn' with body := b' } ∧ L.BodyLike lo hi b b'

/-- Functions that are alike wherever they end. -/
def FunctionLike (lo hi : Nat) (fn fn' : Function) : Prop :=
  ∀ s s', L.rel lo hi (.function { fn with span := s }) (.function { fn' with span := s' })

variable {L} {lo hi : Nat}

theorem BodyLike.rel {b b' : FunctionBody} (h : L.BodyLike lo hi b b') : L.rel lo hi (.body b) (.body b') := by
  cases h with
  | block h =>
    refine bare rfl rfl rfl rfl (.cons (bare rfl ?_ rfl rfl (nodes h)) (.nil _))
    simp only [Node.skeleton, h.map_const]
  | concise h => exact bare rfl rfl rfl rfl (.cons h (.nil _))

/-- Functions that are being read are of the same form, whatever their bodies. -/
theorem HeadLike.skeleton {fn fn' : Function} (h : L.HeadLike lo hi fn fn') (s s' : Span)
    (b b' : FunctionBody) :
    (Node.function { fn with span := s, body := b }).skeleton =
      (Node.function { fn' with span := s', body := b' }).skeleton := by
  obtain ⟨mid, -, hparams⟩ := h.params
  have hname : ∀ name : Option Name, name.map Name.bare = (name.map (·.text)).map (Name.mk .zero) := by
    intro name
    cases name <;> rfl
  simp only [Node.skeleton, hname, h.name, h.isArrow, h.instrumented.1, h.instrumented.2, hparams.map_const]

/-- The metadata of functions that are being read. -/
theorem HeadLike.metadata {fn fn' : Function} (h : L.HeadLike lo hi fn fn') (s s' : Span)
    (b b' : FunctionBody) :
    List.Forall₂ L.Alike (Node.function { fn with span := s, body := b }).metadata
      (Node.function { fn' with span := s', body := b' }).metadata := by
  have hoption : ∀ {α : Type} {f : α → Node} {a a' : Option α},
      Option.Rel (fun x x' => L.Alike (f x) (f x')) a a' →
        List.Forall₂ L.Alike (a.toList.map f) (a'.toList.map f) := by
    intro α f a a' h
    cases h with
    | none => exact .nil
    | some h => exact .cons h .nil
  exact List.rel_append (hoption h.receiver) (List.rel_append (hoption h.returns) (hoption h.condition))

/-- The parts of functions that are being read, with bodies put in. -/
theorem HeadLike.parts {fn fn' : Function} {top : Nat} {b b' : FunctionBody} (h : L.HeadLike lo hi fn fn')
    (hb : L.BodyLike hi top b b') :
    Chain L.rel lo top (fn.params.map .pattern ++ [.body b]) (fn'.params.map .pattern ++ [.body b']) := by
  obtain ⟨mid, hmid, hparams⟩ := h.params
  have hps : Chain L.rel lo mid (fn.params.map .pattern) (fn'.params.map .pattern) :=
    hparams.map PatternLike.rel
  exact hps.append (.cons (L.mono hb.rel hmid (Nat.le_refl _)) (.nil _))

theorem HeadLike.blank (start start' : Span) (isArrow : Bool) {name name' : Option Name}
    (hname : name.map (·.text) = name'.map (·.text)) {params params' : List Pattern}
    (hparams : Chain L.PatternLike lo lo params params') :
    L.HeadLike lo lo { Function.blank start name isArrow with params := params }
      { Function.blank start' name' isArrow with params := params' } where
  name := hname
  isArrow := rfl
  params := ⟨lo, Nat.le_refl _, hparams⟩
  receiver := .none
  returns := .none
  condition := .none
  sites := ⟨rfl, rfl⟩
  instrumented := ⟨rfl, rfl⟩

/-! ### What layers may change -/

open Grammar

/-- The productions that layers change, for two grammars. -/
structure HooksLike (L : Likeness) (g g' : Grammar) : Prop where
  binding : ∀ {r r'}, L.RulesLike r r' → ∀ lo, L.Sim lo (Grammar.binding g r) (Grammar.binding g' r')
    (L.PatternLike lo)
  params : ∀ {r r'}, L.RulesLike r r' → ∀ {lo fn fn'}, L.HeadLike lo lo fn fn' → fn.params = [] →
    fn'.params = [] → L.Sim lo (params g r fn) (params g' r' fn') (L.HeadLike lo)
  body : ∀ {r r'}, L.RulesLike r r' → ∀ {lo hi fn fn'}, L.HeadLike lo hi fn fn' →
    L.Sim hi (body g r fn) (body g' r' fn') (L.FunctionLike lo)
  atom : ∀ {r r'}, L.RulesLike r r' → (∀ lo, L.Sim lo (baseAtom g r) (baseAtom g' r') (L.on .expr lo)) →
    ∀ lo, L.Sim lo (atom g r) (atom g' r') (L.on .expr lo)
  trailing : ∀ {r r'}, L.RulesLike r r' → ∀ {lo hi e e'}, L.rel lo hi (.expr e) (.expr e') →
    L.Sim hi (trailing g r e) (trailing g' r' e') (L.on .expr lo)
  statement : ∀ {r r'}, L.RulesLike r r' →
    (∀ lo, L.Sim lo (baseStatement g r) (baseStatement g' r') (L.on .stmt lo)) →
    ∀ lo, L.Sim lo (statement g r) (statement g' r') (L.on .stmt lo)

variable {r r' : Rules} (hr : L.RulesLike r r')

include hr

/-- Statements between braces. -/
theorem block (lo : Nat) :
    L.Sim lo (block r) (block r') fun hi b b' => Chain (L.on .stmt) lo hi b.stmts b'.stmts := by
  refine .expect fun _ _ _ => ?_
  refine (Sim.many (A := L.on .stmt) (fun h => h.isAt _) (fun lo => ?_) lo).bind fun _ hs => ?_
  · refine .isAt fun b => ?_
    split
    · exact .failHere_bind
    · exact hr.statement lo
  · exact .expect fun _ _ _ => .pure hs

theorem baseParams {fn fn' : Function} (h : L.HeadLike lo lo fn fn') (hp : fn.params = [])
    (hp' : fn'.params = []) : L.Sim lo (baseParams r fn) (baseParams r' fn') (L.HeadLike lo) := by
  refine .expect fun _ _ _ => (Sim.separated (listElement hr) lo).bind fun _ hs => .expect fun _ _ _ => ?_
  refine .pure { h with params := ⟨_, Nat.le_refl _, ?_⟩ }
  simpa only [hp, hp', List.nil_append] using hs

theorem baseBody {fn fn' : Function} (h : fn.isArrow = fn'.isArrow) :
    L.Sim hi (baseBody r fn) (baseBody r' fn') (L.Bodied fn fn' hi) := by
  refine .isAt fun b => ?_
  have hcond : (fn'.isArrow && !b) = (fn.isArrow && !b) := by rw [h]
  rw [hcond]
  split
  · exact (hr.assign hi).bind fun _ he => .pure ⟨_, _, rfl, rfl, .concise he⟩
  · refine (block hr hi).bind fun {_ b b'} _ hs => .pure ⟨_, _, rfl, rfl, ?_⟩
    obtain ⟨s, stmts⟩ := b
    obtain ⟨s', stmts'⟩ := b'
    exact .block hs

variable {g g' : Grammar} (hg : L.HooksLike g g')

include hg

theorem function (lo : Nat) (start start' : Span) (isArrow : Bool) {name name' : Option Name}
    (hname : name.map (·.text) = name'.map (·.text)) :
    L.Sim lo (function g r start name isArrow) (function g' r' start' name' isArrow)
      (L.on .function lo) := by
  refine (Sim.withNoIn (A := L.FunctionLike lo) ?_).bind fun _ hf => .prevSpan fun _ _ => .pure (hf _ _)
  refine (hg.params hr (.blank start start' isArrow hname (.nil lo)) rfl rfl).bind fun _ hfn => ?_
  split
  · refine .look (fun h => h.newlineBefore) fun _ => .isAt fun _ => ?_
    split
    · exact .failHere_bind
    · exact .expect fun _ _ _ => hg.body hr hfn
  · exact hg.body hr hfn

theorem nameArrow (lo : Nat) : L.Sim lo (nameArrow g r) (nameArrow g' r') (L.on .expr lo) := by
  refine .here fun _ _ => .expectIdent fun n n' hn => ?_
  refine (Sim.withNoIn (A := L.FunctionLike lo) ?_).bind fun _ hf => .prevSpan fun _ _ => .pure ?_
  · refine .expect fun _ _ _ => hg.body hr (.blank _ _ true rfl (.cons ?_ (.nil lo)))
    exact .name hn noDemand (Nat.le_refl _)
  · exact expr rfl (.cons (hf _ _) (.nil _))

end Likeness

end LabelWeaver
