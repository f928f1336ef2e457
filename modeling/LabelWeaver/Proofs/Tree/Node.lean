import LabelWeaver.Proofs.Instrument.Returns

/-! Syntax trees seen as trees of nodes of one type. A node has parts, the code below it in source
    order, and metadata, the annotations that it carries. Its skeleton is what it adds to them: its
    form and its names, without spans and numbers and with blanks in place of the parts. -/

namespace LabelWeaver

/-- A place in a syntax tree. The number of a return statement counts as a place of its own, and the
    elements of arrays and argument lists are told from other expressions. -/
inductive Node where
  | expr (e : Expr)
  | item (e : Expr)
  | key (k : PropKey)
  | property (p : Property)
  | function (fn : Function)
  | body (b : FunctionBody)
  | block (b : Block)
  | stmt (s : Stmt)
  | decl (d : Decl)
  | declarator (d : Declarator)
  | forInit (i : ForInit)
  | forTarget (t : ForTarget)
  | case (c : Case)
  | handler (h : Handler)
  | pattern (p : Pattern)
  | patternProp (p : PatternProp)
  | binding (b : Binding)
  | demand (d : Demand)
  | shape (s : Shape)
  | contract (c : Contract)
  | label (l : Label)
  | site (n : Nat)

/-! ### Parts -/

def Expr.parts : Expr → List Node
  | ident _ _ | this _ | null _ | bool _ _ | number _ _ | string _ _ | regex _ _ _ => []
  | array _ elements => (elements.filterMap id).map .item
  | object _ properties => properties.map .property
  | function _ fn => [.function fn]
  | unary _ _ e | update _ _ _ e | member _ e _ | spread _ e => [.expr e]
  | binary _ _ a b | assign _ _ a b | index _ a b => [.expr a, .expr b]
  | conditional _ a b c => [.expr a, .expr b, .expr c]
  | call _ callee args | new _ callee args => .expr callee :: args.map .item
  | sequence _ items => items.map .expr

def Stmt.parts : Stmt → List Node
  | expr _ e | throw _ e => [.expr e]
  | var d => [.decl d]
  | function fn => [.function fn]
  | ret _ argument site => argument.toList.map .expr ++ [.site site]
  | ifElse _ test consequent alternate =>
    .expr test :: .stmt consequent :: alternate.toList.map .stmt
  | forLoop _ init test update body =>
    .forInit init :: (test.toList.map .expr ++ (update.toList.map .expr ++ [.stmt body]))
  | forEach _ target _ obj body => [.forTarget target, .expr obj, .stmt body]
  | .while _ test body => [.expr test, .stmt body]
  | doWhile _ body test => [.stmt body, .expr test]
  | switch _ subject cases => .expr subject :: cases.map .case
  | tryCatch _ body handler finalizer =>
    .block body :: (handler.toList.map .handler ++ finalizer.toList.map .block)
  | .break _ | .continue _ | empty _ => []
  | block body => [.block body]

def Pattern.parts : Pattern → List Node
  | name b => [.binding b]
  | this _ _ => []
  | array _ elements => (elements.filterMap id).map .pattern
  | object _ properties => properties.map .patternProp
  | withDefault _ target e => [.pattern target, .expr e]
  | rest _ target => [.pattern target]

/-- The code below a node, in source order. -/
def Node.parts : Node → List Node
  | expr e => e.parts
  | item (.spread _ e) => [.expr e]
  | item e => [.expr e]
  | key (.computed e) => [.expr e]
  | key _ | site _ | binding _ => []
  | property (.keyValue k e) => [.key k, .expr e]
  | property (.shorthand _) => []
  | property (.method k fn) => [.key k, .function fn]
  | property (.spread e) => [.expr e]
  | function fn => fn.params.map .pattern ++ [.body fn.body]
  | body (.block b) => [.block b]
  | body (.concise e) => [.expr e]
  | block b => b.stmts.map .stmt
  | stmt s => s.parts
  | decl d => d.decls.map .declarator
  | declarator d => .pattern d.target :: d.init.toList.map .expr
  | forInit .none => []
  | forInit (.var d) => [.decl d]
  | forInit (.expr e) => [.expr e]
  | forTarget (.var _ p) => [.pattern p]
  | forTarget (.expr e) => [.expr e]
  | case c => c.test.toList.map .expr ++ c.body.map .stmt
  | handler h => h.param.toList.map .pattern ++ [.block h.body]
  | pattern p => p.parts
  | patternProp (.keyValue k p) => [.key k, .pattern p]
  | patternProp (.shorthand b e) => .binding b :: e.toList.map .expr
  | patternProp (.rest p) => [.pattern p]
  | demand d => d.expected.toList.map .contract ++ d.shapes.map .shape
  | shape (.every c) => [.contract c]
  | shape (.named e c) => [.expr e, .contract c]
  | shape (.atLeast e c) => [.expr e, .contract c]
  | contract c => c.base.toList.map .expr ++ (c.labels.map .label ++ c.condition.toList.map .expr)
  | label (.named _ e parameters dependants) =>
    .expr e :: (parameters.map .label ++ dependants.map .item)
  | label (.ref _ e) => [.expr e]

/-- The annotations that a node carries. -/
def Node.metadata : Node → List Node
  | binding b => [.demand b.demand]
  | pattern (.this _ d) => [.demand d]
  | function fn =>
    fn.receiver.toList.map .demand ++ (fn.returns.toList.map .contract ++ fn.condition.toList.map .expr)
  | _ => []

/-- The node collects annotations, which need not be in source order. -/
def Node.isDemand : Node → Bool
  | demand _ | shape _ => true
  | _ => false

/-- What a node consists of. -/
def Node.children (n : Node) : List Node := n.parts ++ n.metadata

/-! ### Skeletons -/

/-- The name without its place. -/
def Name.bare (n : Name) : Name := ⟨.zero, n.text⟩

/-- What stands for an expression in a skeleton. -/
def Expr.hole : Expr := .this .zero

def Function.hole : Function := .blank .zero none false

def Block.hole : Block := ⟨.zero, []⟩

def Stmt.hole : Stmt := .empty .zero

def Pattern.hole : Pattern := .rest .zero (.array .zero [])

def Binding.hole : Binding := ⟨.zero, ⟨.zero, ""⟩, .none⟩

def Contract.hole : Contract := .blank .zero

def Label.hole : Label := .ref .zero .hole

def Expr.skeleton : Expr → Expr
  | ident _ name => ident .zero name
  | this _ => this .zero
  | null _ => null .zero
  | bool _ value => bool .zero value
  | number _ text => number .zero text
  | string _ value => string .zero value
  | regex _ pattern flags => regex .zero pattern flags
  | array _ elements => array .zero (elements.map (Option.map fun _ => .hole))
  | object _ properties => object .zero (properties.map fun _ => .spread .hole)
  | function _ _ => function .zero .hole
  | unary _ op _ => unary .zero op .hole
  | update _ op leading _ => update .zero op leading .hole
  | binary _ op _ _ => binary .zero op .hole .hole
  | assign _ op _ _ => assign .zero op .hole .hole
  | conditional _ _ _ _ => conditional .zero .hole .hole .hole
  | call _ _ args => call .zero .hole (args.map fun _ => .hole)
  | new _ _ args => new .zero .hole (args.map fun _ => .hole)
  | member _ _ property => member .zero .hole property.bare
  | index _ _ _ => index .zero .hole .hole
  | sequence _ items => sequence .zero (items.map fun _ => .hole)
  | spread _ _ => spread .zero .hole

def Stmt.skeleton : Stmt → Stmt
  | expr _ _ => expr .zero .hole
  | var _ => var ⟨.zero, .var, []⟩
  | function _ => function .hole
  | ret _ argument _ => ret .zero (argument.map fun _ => .hole) 0
  | ifElse _ _ _ alternate => ifElse .zero .hole .hole (alternate.map fun _ => .hole)
  | forLoop _ _ test update _ =>
    forLoop .zero .none (test.map fun _ => .hole) (update.map fun _ => .hole) .hole
  | forEach _ _ values _ _ => forEach .zero (.expr .hole) values .hole .hole
  | .while _ _ _ => .while .zero .hole .hole
  | doWhile _ _ _ => doWhile .zero .hole .hole
  | switch _ _ cases => switch .zero .hole (cases.map fun _ => ⟨.zero, none, []⟩)
  | tryCatch _ _ handler finalizer =>
    tryCatch .zero .hole (handler.map fun _ => ⟨.zero, none, .hole⟩) (finalizer.map fun _ => .hole)
  | throw _ _ => throw .zero .hole
  | .break _ => .break .zero
  | .continue _ => .continue .zero
  | block _ => block .hole
  | empty _ => empty .zero

def Pattern.skeleton : Pattern → Pattern
  | name _ => name .hole
  | this _ _ => this .zero .none
  | array _ elements => array .zero (elements.map (Option.map fun _ => .hole))
  | object _ properties => object .zero (properties.map fun _ => .rest .hole)
  | withDefault _ _ _ => withDefault .zero .hole .hole
  | rest _ _ => rest .zero .hole

/-- The node without spans, numbers, metadata and all that belongs to its parts. -/
def Node.skeleton : Node → Node
  | expr e => expr e.skeleton
  | item (.spread _ _) => item (.spread .zero .hole)
  | item _ => item .hole
  | key (.name name) => key (.name name.bare)
  | key (.computed _) => key (.computed .hole)
  | key k => key k
  | property (.keyValue _ _) => property (.keyValue (.computed .hole) .hole)
  | property (.shorthand name) => property (.shorthand name.bare)
  | property (.method _ _) => property (.method (.computed .hole) .hole)
  | property (.spread _) => property (.spread .hole)
  | function fn =>
    function { Function.hole with
      name := fn.name.map Name.bare
      params := fn.params.map fun _ => .hole
      isArrow := fn.isArrow
      instrumented := fn.instrumented }
  | body (.block _) => body (.block .hole)
  | body (.concise _) => body (.concise .hole)
  | block b => block ⟨.zero, b.stmts.map fun _ => .hole⟩
  | stmt s => stmt s.skeleton
  | decl d => decl ⟨.zero, d.kind, d.decls.map fun _ => ⟨.zero, .hole, none⟩⟩
  | declarator d => declarator ⟨.zero, .hole, d.init.map fun _ => .hole⟩
  | forInit .none => forInit .none
  | forInit (.var _) => forInit (.var ⟨.zero, .var, []⟩)
  | forInit (.expr _) => forInit (.expr .hole)
  | forTarget (.var kind _) => forTarget (.var kind .hole)
  | forTarget (.expr _) => forTarget (.expr .hole)
  | case c => case ⟨.zero, c.test.map fun _ => .hole, c.body.map fun _ => .hole⟩
  | handler h => handler ⟨.zero, h.param.map fun _ => .hole, .hole⟩
  | pattern p => pattern p.skeleton
  | patternProp (.keyValue _ _) => patternProp (.keyValue (.computed .hole) .hole)
  | patternProp (.shorthand _ e) => patternProp (.shorthand .hole (e.map fun _ => .hole))
  | patternProp (.rest _) => patternProp (.rest .hole)
  | binding b => binding ⟨.zero, b.name.bare, .none⟩
  | demand d => demand ⟨d.expected.map fun _ => .hole, d.shapes.map fun _ => .every .hole⟩
  | shape (.every _) => shape (.every .hole)
  | shape (.named _ _) => shape (.named .hole .hole)
  | shape (.atLeast _ _) => shape (.atLeast .hole .hole)
  | contract c =>
    contract ⟨.zero, c.base.map fun _ => .hole, c.labels.map fun _ => .hole,
      c.condition.map fun _ => .hole⟩
  | label (.named _ _ parameters dependants) =>
    label (.named .zero .hole (parameters.map fun _ => .hole) (dependants.map fun _ => .hole))
  | label (.ref _ _) => label .hole
  | site _ => site 0

@[simp] theorem Expr.isTarget_skeleton (e : Expr) : e.skeleton.isTarget = e.isTarget := by
  cases e <;> rfl

/-- Expressions with the same skeleton can be assigned to alike. -/
theorem Expr.isTarget_of_skeleton {e e' : Expr} (h : (Node.expr e).skeleton = (Node.expr e').skeleton) :
    e.isTarget = e'.isTarget := by
  have hs : e.skeleton = e'.skeleton := Node.expr.inj h
  rw [← e.isTarget_skeleton, hs, e'.isTarget_skeleton]

/-! ### Nodes inside nodes -/

/-- The second node is the first one or lies inside it, annotations included. -/
inductive Node.Contains : Node → Node → Prop where
  | self (n : Node) : Contains n n
  | inside {n m k : Node} (hm : m ∈ n.children) (hk : Contains m k) : Contains n k

theorem Node.contains_iff {n k : Node} : n.Contains k ↔ k = n ∨ ∃ m ∈ n.children, m.Contains k := by
  constructor
  · intro h
    cases h with
    | self => exact .inl rfl
    | inside hm hk => exact .inr ⟨_, hm, hk⟩
  · rintro (rfl | ⟨m, hm, hk⟩)
    · exact .self _
    · exact .inside hm hk

theorem Node.Contains.trans {n m k : Node} (hnm : n.Contains m) (hmk : m.Contains k) :
    n.Contains k := by
  induction hnm with
  | self => exact hmk
  | inside hm _ ih => exact .inside hm (ih hmk)

/-! ### Return sites -/

/-- The sites of the return statements that belong to the function around a node. -/
def Node.ownedSites : Node → List Nat
  | stmt s => s.sites
  | block b => listSites b.stmts
  | case c => listSites c.body
  | handler h => listSites h.body.stmts
  | body (.block b) => listSites b.stmts
  | site n => [n]
  | _ => []

/-- The node owns what its parts own. A function does not: what is in its body is its own. -/
def Node.isPlain : Node → Bool
  | function _ | site _ => false
  | _ => true

theorem listSites_eq (stmts : List Stmt) :
    listSites stmts = (stmts.map Node.stmt).flatMap Node.ownedSites := by
  induction stmts with
  | nil => rfl
  | cons s rest ih => rw [listSites_cons, ih]; rfl

/-- Parts of a kind that owns no returns. -/
theorem flatMap_ownedSites_eq_nil {α : Type} {f : α → Node} (h : ∀ a, (f a).ownedSites = [])
    (as : List α) : (as.map f).flatMap Node.ownedSites = [] := by
  simp [List.flatMap_eq_nil_iff, h]

theorem Expr.parts_ownedSites (e : Expr) : e.parts.flatMap Node.ownedSites = [] := by
  cases e <;> simp [Expr.parts, Node.ownedSites]

theorem Pattern.parts_ownedSites (p : Pattern) : p.parts.flatMap Node.ownedSites = [] := by
  cases p <;> simp [Pattern.parts, Node.ownedSites]

theorem Stmt.parts_ownedSites (s : Stmt) : s.parts.flatMap Node.ownedSites = s.sites := by
  have hexprs : ∀ es : List Expr, (es.map Node.expr).flatMap Node.ownedSites = [] :=
    flatMap_ownedSites_eq_nil fun _ => rfl
  cases s with
  | ret span argument site => simp [Stmt.parts, hexprs, Node.ownedSites, Stmt.sites, Stmt.returns]
  | ifElse span test consequent alternate =>
    rw [Stmt.sites_ifElse]
    cases alternate <;> simp [Stmt.parts, Node.ownedSites]
  | forLoop span init test update body =>
    simp [Stmt.parts, hexprs, Node.ownedSites, Stmt.sites, Stmt.returns]
  | switch span subject cases =>
    simp only [Stmt.parts, List.flatMap_cons, Node.ownedSites, List.nil_append, Stmt.sites, Stmt.returns,
      caseReturns_eq, List.map_flatMap, List.flatMap_map]
    rfl
  | tryCatch span body handler finalizer =>
    rw [Stmt.sites_tryCatch]
    cases handler <;> cases finalizer <;> simp [Stmt.parts, Node.ownedSites]
  | block body =>
    obtain ⟨span, stmts⟩ := body
    simp [Stmt.parts, Node.ownedSites, Stmt.sites, Stmt.returns, listSites]
  | _ => simp [Stmt.parts, Node.ownedSites, Stmt.sites, Stmt.returns]

theorem Node.ownedSites_eq {n : Node} (h : n.isPlain = true) :
    n.ownedSites = n.parts.flatMap Node.ownedSites := by
  cases n with
  | function fn => cases h
  | site k => cases h
  | expr e => exact e.parts_ownedSites.symm
  | pattern p => exact p.parts_ownedSites.symm
  | stmt s => exact s.parts_ownedSites.symm
  | block b => exact listSites_eq b.stmts
  | case c => simp [parts, ownedSites, listSites_eq]
  | handler h => simp [parts, ownedSites]
  | body b => cases b <;> simp [parts, ownedSites]
  | item e => cases e <;> simp [parts, ownedSites]
  | key k => cases k <;> simp [parts, ownedSites]
  | property p => cases p <;> simp [parts, ownedSites]
  | forInit i => cases i <;> simp [parts, ownedSites]
  | forTarget t => cases t <;> simp [parts, ownedSites]
  | patternProp p => cases p <;> simp [parts, ownedSites]
  | shape s => cases s <;> simp [parts, ownedSites]
  | label l => cases l <;> simp [parts, ownedSites]
  | decl d => simp [parts, ownedSites]
  | declarator d => simp [parts, ownedSites]
  | demand d => simp [parts, ownedSites]
  | contract c => simp [parts, ownedSites]
  | binding b => rfl

end LabelWeaver
