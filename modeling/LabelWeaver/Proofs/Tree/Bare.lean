import LabelWeaver.Proofs.Tree.Node

/-! Trees without their places: what is left of a tree when the spans are forgotten. -/

namespace LabelWeaver

mutual

/-- The same expression with all spans forgotten. -/
def Expr.bare : Expr → Expr
  | .ident _ name => .ident .zero name
  | .this _ => .this .zero
  | .null _ => .null .zero
  | .bool _ value => .bool .zero value
  | .number _ text => .number .zero text
  | .string _ value => .string .zero value
  | .regex _ pattern flags => .regex .zero pattern flags
  | .array _ elements => .array .zero (Bare.elements elements)
  | .object _ properties => .object .zero (Bare.properties properties)
  | .function _ fn => .function .zero fn.bare
  | .unary _ op operand => .unary .zero op operand.bare
  | .update _ op leading operand => .update .zero op leading operand.bare
  | .binary _ op left right => .binary .zero op left.bare right.bare
  | .assign _ op target value => .assign .zero op target.bare value.bare
  | .conditional _ test consequent alternate => .conditional .zero test.bare consequent.bare alternate.bare
  | .call _ callee args => .call .zero callee.bare (Bare.exprs args)
  | .new _ callee args => .new .zero callee.bare (Bare.exprs args)
  | .member _ obj property => .member .zero obj.bare property.bare
  | .index _ obj property => .index .zero obj.bare property.bare
  | .sequence _ items => .sequence .zero (Bare.exprs items)
  | .spread _ operand => .spread .zero operand.bare

def Bare.exprs : List Expr → List Expr
  | [] => []
  | e :: rest => e.bare :: Bare.exprs rest

def Bare.elements : List (Option Expr) → List (Option Expr)
  | [] => []
  | none :: rest => none :: Bare.elements rest
  | some e :: rest => some e.bare :: Bare.elements rest

def PropKey.bare : PropKey → PropKey
  | .name name => .name name.bare
  | .string value => .string value
  | .number text => .number text
  | .computed key => .computed key.bare

def Property.bare : Property → Property
  | .keyValue key value => .keyValue key.bare value.bare
  | .shorthand name => .shorthand name.bare
  | .method key fn => .method key.bare fn.bare
  | .spread operand => .spread operand.bare

def Bare.properties : List Property → List Property
  | [] => []
  | p :: rest => p.bare :: Bare.properties rest

def Function.bare : Function → Function
  | ⟨_, name, params, body, isArrow, receiver, returns, condition, checkedSites, instrumented⟩ =>
    { span := .zero
      name := name.map Name.bare
      params := Bare.patterns params
      body := body.bare
      isArrow := isArrow
      receiver := match receiver with
        | none => none
        | some d => some d.bare
      returns := match returns with
        | none => none
        | some c => some c.bare
      condition := match condition with
        | none => none
        | some e => some e.bare
      checkedSites := checkedSites
      instrumented := instrumented }

def FunctionBody.bare : FunctionBody → FunctionBody
  | .block body => .block body.bare
  | .concise value => .concise value.bare

def Block.bare : Block → Block
  | ⟨_, stmts⟩ => ⟨.zero, Bare.stmts stmts⟩

def Bare.stmts : List Stmt → List Stmt
  | [] => []
  | s :: rest => s.bare :: Bare.stmts rest

/-- The same statement with all spans forgotten. -/
def Stmt.bare : Stmt → Stmt
  | .expr _ value => .expr .zero value.bare
  | .var decl => .var decl.bare
  | .function fn => .function fn.bare
  | .ret _ none site => .ret .zero none site
  | .ret _ (some value) site => .ret .zero (some value.bare) site
  | .ifElse _ test consequent none => .ifElse .zero test.bare consequent.bare none
  | .ifElse _ test consequent (some s) => .ifElse .zero test.bare consequent.bare (some s.bare)
  | .forLoop _ init test update body =>
    .forLoop .zero init.bare
      (match test with
        | none => none
        | some e => some e.bare)
      (match update with
        | none => none
        | some e => some e.bare) body.bare
  | .forEach _ target values obj body => .forEach .zero target.bare values obj.bare body.bare
  | .while _ test body => .while .zero test.bare body.bare
  | .doWhile _ body test => .doWhile .zero body.bare test.bare
  | .switch _ subject cases => .switch .zero subject.bare (Bare.cases cases)
  | .tryCatch _ body handler finalizer =>
    .tryCatch .zero body.bare
      (match handler with
        | none => none
        | some h => some h.bare)
      (match finalizer with
        | none => none
        | some b => some b.bare)
  | .throw _ argument => .throw .zero argument.bare
  | .break _ => .break .zero
  | .continue _ => .continue .zero
  | .block body => .block body.bare
  | .empty _ => .empty .zero

def Case.bare : Case → Case
  | ⟨_, none, body⟩ => ⟨.zero, none, Bare.stmts body⟩
  | ⟨_, some e, body⟩ => ⟨.zero, some e.bare, Bare.stmts body⟩

def Bare.cases : List Case → List Case
  | [] => []
  | c :: rest => c.bare :: Bare.cases rest

def Handler.bare : Handler → Handler
  | ⟨_, none, body⟩ => ⟨.zero, none, body.bare⟩
  | ⟨_, some param, body⟩ => ⟨.zero, some param.bare, body.bare⟩

def Decl.bare : Decl → Decl
  | ⟨_, kind, decls⟩ => ⟨.zero, kind, Bare.declarators decls⟩

def Declarator.bare : Declarator → Declarator
  | ⟨_, target, none⟩ => ⟨.zero, target.bare, none⟩
  | ⟨_, target, some init⟩ => ⟨.zero, target.bare, some init.bare⟩

def Bare.declarators : List Declarator → List Declarator
  | [] => []
  | d :: rest => d.bare :: Bare.declarators rest

def ForInit.bare : ForInit → ForInit
  | .none => .none
  | .var decl => .var decl.bare
  | .expr value => .expr value.bare

def ForTarget.bare : ForTarget → ForTarget
  | .var kind target => .var kind target.bare
  | .expr target => .expr target.bare

def Pattern.bare : Pattern → Pattern
  | .name binding => .name binding.bare
  | .this _ demand => .this .zero demand.bare
  | .array _ elements => .array .zero (Bare.patternElements elements)
  | .object _ properties => .object .zero (Bare.patternProps properties)
  | .withDefault _ target value => .withDefault .zero target.bare value.bare
  | .rest _ target => .rest .zero target.bare

def Bare.patterns : List Pattern → List Pattern
  | [] => []
  | p :: rest => p.bare :: Bare.patterns rest

def Bare.patternElements : List (Option Pattern) → List (Option Pattern)
  | [] => []
  | none :: rest => none :: Bare.patternElements rest
  | some p :: rest => some p.bare :: Bare.patternElements rest

def PatternProp.bare : PatternProp → PatternProp
  | .keyValue key value => .keyValue key.bare value.bare
  | .shorthand binding none => .shorthand binding.bare none
  | .shorthand binding (some value) => .shorthand binding.bare (some value.bare)
  | .rest target => .rest target.bare

def Bare.patternProps : List PatternProp → List PatternProp
  | [] => []
  | p :: rest => p.bare :: Bare.patternProps rest

def Binding.bare : Binding → Binding
  | ⟨_, name, demand⟩ => ⟨.zero, name.bare, demand.bare⟩

def Demand.bare : Demand → Demand
  | ⟨none, shapes⟩ => ⟨none, Bare.shapes shapes⟩
  | ⟨some c, shapes⟩ => ⟨some c.bare, Bare.shapes shapes⟩

def Shape.bare : Shape → Shape
  | .every c => .every c.bare
  | .named prop c => .named prop.bare c.bare
  | .atLeast count c => .atLeast count.bare c.bare

def Bare.shapes : List Shape → List Shape
  | [] => []
  | s :: rest => s.bare :: Bare.shapes rest

def Contract.bare : Contract → Contract
  | ⟨_, base, labels, condition⟩ =>
    ⟨.zero,
      match base with
        | none => none
        | some e => some e.bare,
      Bare.labels labels,
      match condition with
        | none => none
        | some e => some e.bare⟩

def Label.bare : Label → Label
  | .named _ name parameters dependants =>
    .named .zero name.bare (Bare.labels parameters) (Bare.exprs dependants)
  | .ref _ target => .ref .zero target.bare

def Bare.labels : List Label → List Label
  | [] => []
  | l :: rest => l.bare :: Bare.labels rest

end

namespace Bare

theorem exprs_eq (es : List Expr) : Bare.exprs es = es.map Expr.bare := by
  induction es with
  | nil => rfl
  | cons e es ih => rw [Bare.exprs, ih, List.map_cons]

theorem elements_eq (es : List (Option Expr)) : Bare.elements es = es.map (Option.map Expr.bare) := by
  induction es with
  | nil => rfl
  | cons e es ih => cases e <;> rw [Bare.elements, ih, List.map_cons] <;> rfl

theorem properties_eq (ps : List Property) : Bare.properties ps = ps.map Property.bare := by
  induction ps with
  | nil => rfl
  | cons p ps ih => rw [Bare.properties, ih, List.map_cons]

theorem stmts_eq (ss : List Stmt) : Bare.stmts ss = ss.map Stmt.bare := by
  induction ss with
  | nil => rfl
  | cons s ss ih => rw [Bare.stmts, ih, List.map_cons]

theorem cases_eq (cs : List Case) : Bare.cases cs = cs.map Case.bare := by
  induction cs with
  | nil => rfl
  | cons c cs ih => rw [Bare.cases, ih, List.map_cons]

theorem declarators_eq (ds : List Declarator) : Bare.declarators ds = ds.map Declarator.bare := by
  induction ds with
  | nil => rfl
  | cons d ds ih => rw [Bare.declarators, ih, List.map_cons]

theorem patterns_eq (ps : List Pattern) : Bare.patterns ps = ps.map Pattern.bare := by
  induction ps with
  | nil => rfl
  | cons p ps ih => rw [Bare.patterns, ih, List.map_cons]

theorem patternElements_eq (ps : List (Option Pattern)) :
    Bare.patternElements ps = ps.map (Option.map Pattern.bare) := by
  induction ps with
  | nil => rfl
  | cons p ps ih => cases p <;> rw [Bare.patternElements, ih, List.map_cons] <;> rfl

theorem patternProps_eq (ps : List PatternProp) : Bare.patternProps ps = ps.map PatternProp.bare := by
  induction ps with
  | nil => rfl
  | cons p ps ih => rw [Bare.patternProps, ih, List.map_cons]

end Bare

theorem Stmt.bare_ifElse (span : Span) (test : Expr) (consequent : Stmt) (alternate : Option Stmt) :
    (Stmt.ifElse span test consequent alternate).bare =
      .ifElse .zero test.bare consequent.bare (alternate.map Stmt.bare) := by
  cases alternate <;> rfl

theorem Stmt.bare_forLoop (span : Span) (init : ForInit) (test update : Option Expr) (body : Stmt) :
    (Stmt.forLoop span init test update body).bare =
      .forLoop .zero init.bare (test.map Expr.bare) (update.map Expr.bare) body.bare := by
  cases test <;> cases update <;> rfl

theorem Stmt.bare_tryCatch (span : Span) (body : Block) (handler : Option Handler) (finalizer : Option Block) :
    (Stmt.tryCatch span body handler finalizer).bare =
      .tryCatch .zero body.bare (handler.map Handler.bare) (finalizer.map Block.bare) := by
  cases handler <;> cases finalizer <;> rfl

theorem Case.bare_mk (span : Span) (test : Option Expr) (body : List Stmt) :
    (Case.mk span test body).bare = ⟨.zero, test.map Expr.bare, Bare.stmts body⟩ := by
  cases test <;> rfl

theorem Handler.bare_mk (span : Span) (param : Option Pattern) (body : Block) :
    (Handler.mk span param body).bare = ⟨.zero, param.map Pattern.bare, body.bare⟩ := by
  cases param <;> rfl

theorem Name.bare_eq {n : Name} {x : String} (h : n.text = x) : n.bare = ⟨.zero, x⟩ := by
  rw [Name.bare, h]

@[simp] theorem Expr.isTarget_bare (e : Expr) : e.bare.isTarget = e.isTarget := by
  cases e <;> rfl

mutual

/-- A pattern holds the place of a receiver if it does so without its spans. -/
theorem Pattern.findThis?_bare : ∀ p : Pattern, p.bare.findThis?.isSome = p.findThis?.isSome
  | .name _ => rfl
  | .this _ _ => rfl
  | .array _ elements => elementsFindThis?_bare elements
  | .object _ properties => propertiesFindThis?_bare properties
  | .withDefault _ target _ => target.findThis?_bare
  | .rest _ target => target.findThis?_bare

theorem elementsFindThis?_bare : ∀ es : List (Option Pattern),
    (elementsFindThis? (Bare.patternElements es)).isSome = (elementsFindThis? es).isSome
  | [] => rfl
  | none :: es => elementsFindThis?_bare es
  | some p :: es => by
    simp only [Bare.patternElements, elementsFindThis?, Option.isSome_or, p.findThis?_bare, elementsFindThis?_bare es]

theorem propertiesFindThis?_bare : ∀ ps : List PatternProp,
    (propertiesFindThis? (Bare.patternProps ps)).isSome = (propertiesFindThis? ps).isSome
  | [] => rfl
  | .keyValue _ p :: ps => by
    simp only [Bare.patternProps, PatternProp.bare, propertiesFindThis?, Option.isSome_or, p.findThis?_bare,
      propertiesFindThis?_bare ps]
  | .shorthand _ none :: ps => propertiesFindThis?_bare ps
  | .shorthand _ (some _) :: ps => propertiesFindThis?_bare ps
  | .rest p :: ps => by
    simp only [Bare.patternProps, PatternProp.bare, propertiesFindThis?, Option.isSome_or, p.findThis?_bare,
      propertiesFindThis?_bare ps]

end

end LabelWeaver
