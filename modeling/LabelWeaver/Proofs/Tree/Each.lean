import LabelWeaver.Proofs.Tree.Node
import LabelWeaver.Proofs.Instrument.Exact

/-! Properties of every node inside a node. Generated code is made of nodes that no property of
    interest excludes, so it has what the values and the annotations have that it is made from. -/

namespace LabelWeaver

/-- Every node inside the node, annotations included, has the property. -/
def Node.All (W : Node → Prop) (n : Node) : Prop := ∀ m, n.Contains m → W m

/-- The node is a function with the property, or no function. -/
def Node.OnFunctions (P : Function → Prop) (n : Node) : Prop := ∀ fn, n = .function fn → P fn

/-- Every function inside the node, annotations included, has the property. -/
abbrev Node.Each (P : Function → Prop) (n : Node) : Prop := n.All (Node.OnFunctions P)

/-- The nodes that generated code adds: no functions, no dots, no places of receivers, and targets where
    targets belong. -/
def Node.isOrdinary : Node → Bool
  | expr (.spread _ _) | expr (.sequence _ _) | expr (.assign _ _ _ _) => false
  | expr (.update _ _ _ e) => e.isTarget
  | stmt (.function _) | stmt (.switch _ _ _) => false
  | stmt (.tryCatch _ _ h b) => h.isSome || b.isSome
  | forTarget (.expr _) => false
  | pattern (.this _ _) => false
  | function _ => false
  | _ => true

/-- A property that generated code cannot violate by itself. -/
class Node.Ordinary (W : Node → Prop) : Prop where
  holds : ∀ {n : Node}, n.isOrdinary = true → W n
  /-- Statements that get checks for the returns inside keep the property. -/
  mapReturns : ∀ (f : Return → Stmt) {s : Stmt}, (∀ r : Return, s ≠ r.stmt) → W (.stmt s) →
    W (.stmt (s.mapReturns f))

section
variable {n : Node} {W : Node → Prop}

theorem Node.all_iff : n.All W ↔ W n ∧ ∀ m ∈ n.children, m.All W := by
  constructor
  · intro h
    exact ⟨h n (.self _), fun m hm k hk => h k (.inside hm hk)⟩
  · rintro ⟨hself, hinside⟩ k hk
    rcases contains_iff.mp hk with rfl | ⟨m, hm, hk⟩
    · exact hself
    · exact hinside m hm k hk

theorem Node.All.self (h : n.All W) : W n := h n (.self _)

theorem Node.All.child {m : Node} (h : n.All W) (hm : m ∈ n.children) : m.All W :=
  (Node.all_iff.mp h).2 m hm

/-- A part of a node has what every node inside has. -/
theorem Node.All.part {m : Node} (h : n.All W) (hm : m ∈ n.parts) : m.All W :=
  h.child (List.mem_append_left _ hm)

theorem Node.all_stmt_iff {s : Stmt} : (Node.stmt s).All W ↔ W (.stmt s) ∧ ∀ m ∈ s.parts, m.All W := by
  rw [all_iff]
  simp [children, parts, metadata]

section
variable {P : Function → Prop}

theorem Node.onFunctions_of_ne {n : Node} (h : ∀ fn, n ≠ .function fn) : n.OnFunctions P :=
  fun fn hn => absurd hn (h fn)

instance : Node.Ordinary (Node.OnFunctions P) where
  holds {n} hn := Node.onFunctions_of_ne fun fn h => by
    rw [h] at hn
    cases hn
  mapReturns _ _ _ _ := Node.onFunctions_of_ne fun _ => nofun

theorem Node.each_of_plain {n : Node} (hn : n.isPlain = true) :
    n.Each P ↔ ∀ m ∈ n.children, m.Each P := by
  refine all_iff.trans (and_iff_right (onFunctions_of_ne fun fn h => ?_))
  rw [h] at hn
  cases hn

theorem Node.each_function {fn : Function} :
    (Node.function fn).Each P ↔ P fn ∧ ∀ m ∈ (Node.function fn).children, m.Each P := by
  refine all_iff.trans (and_congr_left fun _ => ⟨fun h => h fn rfl, fun h f hf => ?_⟩)
  cases hf
  exact h

end

/-! ### By form -/

variable [Node.Ordinary W]

theorem Node.all_of_ordinary (h : n.isOrdinary = true) : n.All W ↔ ∀ m ∈ n.children, m.All W := by
  rw [all_iff]
  exact and_iff_right (Node.Ordinary.holds h)

theorem Node.all_expr {e : Expr} (h : (Node.expr e).isOrdinary = true) :
    (Node.expr e).All W ↔ ∀ m ∈ e.parts, m.All W := by
  rw [all_of_ordinary h]
  simp [children, parts, metadata]

theorem Node.all_stmt {s : Stmt} (h : (Node.stmt s).isOrdinary = true) :
    (Node.stmt s).All W ↔ ∀ m ∈ s.parts, m.All W := by
  rw [all_of_ordinary h]
  simp [children, parts, metadata]

theorem Node.All.item {e : Expr} (h : (Node.expr e).All W) : (Node.item e).All W := by
  rw [all_of_ordinary rfl]
  cases e with
  | spread s e =>
    have he : (Node.expr e).All W := h.part (by simp [parts, Expr.parts])
    simpa [children, parts, metadata] using he
  | _ => simpa [children, parts, metadata] using h

@[simp] theorem Node.all_block {b : Block} : (Node.block b).All W ↔ ∀ s ∈ b.stmts, (Node.stmt s).All W := by
  rw [all_of_ordinary rfl]
  simp [children, parts, metadata]

@[simp] theorem Node.all_site {n : Nat} : (Node.site n).All W := by
  rw [all_of_ordinary rfl]
  simp [children, parts, metadata]

@[simp] theorem Node.all_binding {b : Binding} : (Node.binding b).All W ↔ (Node.demand b.demand).All W := by
  rw [all_of_ordinary rfl]
  simp [children, parts, metadata]

@[simp] theorem Node.all_contract {c : Contract} :
    (Node.contract c).All W ↔ (∀ e ∈ c.base, (Node.expr e).All W) ∧ (∀ l ∈ c.labels, (Node.label l).All W) ∧
      ∀ e ∈ c.condition, (Node.expr e).All W := by
  rw [all_of_ordinary rfl]
  simp [children, parts, metadata, or_imp, forall_and]

@[simp] theorem Node.all_demand {d : Demand} :
    (Node.demand d).All W ↔ (∀ c ∈ d.expected, (Node.contract c).All W) ∧
      ∀ s ∈ d.shapes, (Node.shape s).All W := by
  rw [all_of_ordinary rfl]
  simp [children, parts, metadata, or_imp, forall_and]

@[simp] theorem Node.all_handler {h : Handler} :
    (Node.handler h).All W ↔ (∀ p ∈ h.param, (Node.pattern p).All W) ∧ (Node.block h.body).All W := by
  rw [all_of_ordinary rfl]
  simp [children, parts, metadata, or_imp, forall_and]

@[simp] theorem Node.all_case {k : Case} :
    (Node.case k).All W ↔ (∀ e ∈ k.test, (Node.expr e).All W) ∧ ∀ s ∈ k.body, (Node.stmt s).All W := by
  rw [all_of_ordinary rfl]
  simp [children, parts, metadata, or_imp, forall_and]

@[simp] theorem Node.all_decl {d : Decl} :
    (Node.decl d).All W ↔ ∀ x ∈ d.decls, (Node.declarator x).All W := by
  rw [all_of_ordinary rfl]
  simp [children, parts, metadata]

@[simp] theorem Node.all_declarator {d : Declarator} :
    (Node.declarator d).All W ↔ (Node.pattern d.target).All W ∧ ∀ e ∈ d.init, (Node.expr e).All W := by
  rw [all_of_ordinary rfl]
  simp [children, parts, metadata]

omit [Node.Ordinary W]

mutual

/-- The bindings of a pattern lie inside it. -/
theorem Pattern.all_bindings : ∀ {p : Pattern}, (Node.pattern p).All W →
    ∀ b ∈ p.bindings, (Node.binding b).All W
  | .name b, h, b', hb => by
    rw [Pattern.bindings, List.mem_singleton] at hb
    exact h.part (by simp [Node.parts, Pattern.parts, hb])
  | .this _ _, _, _, hb => by cases hb
  | .array _ es, h, b, hb => elementBindings_all es
      (fun p hp => h.part (by simpa [Node.parts, Pattern.parts] using hp)) b hb
  | .object _ ps, h, b, hb => propertyBindings_all ps
      (fun p hp => h.part (by simpa [Node.parts, Pattern.parts] using hp)) b hb
  | .withDefault _ p _, h, b, hb =>
    Pattern.all_bindings (p := p) (h.part (by simp [Node.parts, Pattern.parts])) b hb
  | .rest _ p, h, b, hb =>
    Pattern.all_bindings (p := p) (h.part (by simp [Node.parts, Pattern.parts])) b hb

theorem elementBindings_all : ∀ es : List (Option Pattern),
    (∀ p, some p ∈ es → (Node.pattern p).All W) → ∀ b ∈ elementBindings es, (Node.binding b).All W
  | [], _, _, hb => by cases hb
  | none :: es, h, b, hb =>
    elementBindings_all es (fun p hp => h p (List.mem_cons_of_mem _ hp)) b hb
  | some p :: es, h, b, hb => by
    rcases List.mem_append.mp hb with hb | hb
    · exact Pattern.all_bindings (p := p) (h p List.mem_cons_self) b hb
    · exact elementBindings_all es (fun p hp => h p (List.mem_cons_of_mem _ hp)) b hb

theorem propertyBindings_all : ∀ ps : List PatternProp,
    (∀ p ∈ ps, (Node.patternProp p).All W) → ∀ b ∈ propertyBindings ps, (Node.binding b).All W
  | [], _, _, hb => by cases hb
  | .keyValue k p :: ps, h, b, hb => by
    have hp : (Node.pattern p).All W := (h _ List.mem_cons_self).part (by simp [Node.parts])
    rcases List.mem_append.mp hb with hb | hb
    · exact Pattern.all_bindings (p := p) hp b hb
    · exact propertyBindings_all ps (fun p hp => h p (List.mem_cons_of_mem _ hp)) b hb
  | .shorthand b' e :: ps, h, b, hb => by
    rcases List.mem_cons.mp hb with rfl | hb
    · exact (h _ List.mem_cons_self).part (by simp [Node.parts])
    · exact propertyBindings_all ps (fun p hp => h p (List.mem_cons_of_mem _ hp)) b hb
  | .rest p :: ps, h, b, hb => by
    have hp : (Node.pattern p).All W := (h _ List.mem_cons_self).part (by simp [Node.parts])
    rcases List.mem_append.mp hb with hb | hb
    · exact Pattern.all_bindings (p := p) hp b hb
    · exact propertyBindings_all ps (fun p hp => h p (List.mem_cons_of_mem _ hp)) b hb

end

/-! ### Generated code -/

namespace Emitter

variable {value : Expr} {c : Contract} [Node.Ordinary W] (e : Emitter)

@[simp] theorem all_reference (name : String) : (Node.expr (e.reference name)).All W := by
  rw [Node.all_expr rfl]
  simp [reference, Expr.parts]

@[simp] theorem all_string (value : String) : (Node.expr (e.string value)).All W := by
  rw [Node.all_expr rfl]
  simp [string, Expr.parts]

@[simp] theorem all_number (text : String) : (Node.expr (e.number text)).All W := by
  rw [Node.all_expr rfl]
  simp [number, Expr.parts]

@[simp] theorem all_member (object : Expr) (name : String) :
    (Node.expr (e.member object name)).All W ↔ (Node.expr object).All W := by
  rw [Node.all_expr rfl]
  simp [member, Expr.parts]

@[simp] theorem all_index (object property : Expr) :
    (Node.expr (e.index object property)).All W ↔ (Node.expr object).All W ∧ (Node.expr property).All W := by
  rw [Node.all_expr rfl]
  simp [index, Expr.parts]

@[simp] theorem all_binary (left : Expr) (op : BinaryOp) (right : Expr) :
    (Node.expr (e.binary left op right)).All W ↔ (Node.expr left).All W ∧ (Node.expr right).All W := by
  rw [Node.all_expr rfl]
  simp [binary, Expr.parts]

theorem all_call {callee : Expr} {args : List Expr} (hcallee : (Node.expr callee).All W)
    (hargs : ∀ a ∈ args, (Node.expr a).All W) : (Node.expr (e.call callee args)).All W := by
  rw [Node.all_expr rfl]
  simp only [call, Expr.parts, List.forall_mem_cons, List.forall_mem_map]
  exact ⟨hcallee, fun a ha => (hargs a ha).item⟩

@[simp] theorem all_increment (name : String) : (Node.expr (e.increment name)).All W := by
  rw [Node.all_expr rfl]
  simp [increment, Expr.parts]

theorem all_runtimeCall (method : String) {args : List Expr} (h : ∀ a ∈ args, (Node.expr a).All W) :
    (Node.expr (e.runtimeCall method args)).All W :=
  e.all_call (by simp [runtime]) h

/-- A statement that is an expression made at the same place. -/
theorem all_stmt (hplace : value.moveTo e.anchor = value) (h : (Node.expr value).All W) :
    (Node.stmt (e.stmt value)).All W := by
  rw [Node.all_stmt rfl]
  simpa [stmt, Stmt.parts, hplace] using h

@[simp] theorem all_pattern (name : String) : (Node.pattern (e.binding name)).All W := by
  rw [Node.all_of_ordinary rfl]
  simp [binding, Node.children, Node.parts, Node.metadata, Pattern.parts, Demand.none]

@[simp] theorem all_var (name : String) (init : Expr) :
    (Node.stmt (e.var name init)).All W ↔ (Node.expr init).All W := by
  rw [Node.all_stmt rfl]
  simp [var, decl, Stmt.parts]

theorem all_labelArg {l : Label} (h : (Node.label l).All W) : (Node.expr (e.labelArg l)).All W := by
  cases l with
  | named => exact e.all_string _
  | ref => exact h.part (by simp [Node.parts, labelArg])

theorem all_assert {label : Expr} (hvalue : (Node.expr value).All W) (hlabel : (Node.expr label).All W) :
    (Node.expr (e.assert value label)).All W :=
  e.all_runtimeCall _ (by simp [hvalue, hlabel])

theorem all_assertCondition {condition : Expr} (h : (Node.expr condition).All W) (what : String) :
    (Node.expr (e.assertCondition condition what)).All W :=
  e.all_assert h (e.all_string _)

theorem all_expectation (hvalue : (Node.expr value).All W) (hc : (Node.contract c).All W) :
    ∀ s ∈ e.expectation value c, (Node.stmt s).All W := by
  obtain ⟨hbase, hlabels, hcondition⟩ := Node.all_contract.mp hc
  intro s hs
  simp only [expectation, List.mem_append, List.mem_map, Option.mem_toList] at hs
  rcases hs with (⟨base, hmem, rfl⟩ | ⟨l, hmem, rfl⟩) | ⟨condition, hmem, rfl⟩
  · exact e.all_stmt rfl (e.all_assert hvalue (hbase base hmem))
  · exact e.all_stmt rfl (e.all_assert hvalue (e.all_labelArg (hlabels l hmem)))
  · exact e.all_stmt rfl (e.all_assertCondition (hcondition condition hmem) _)

theorem all_block_stmt {stmts : List Stmt} (h : ∀ s ∈ stmts, (Node.stmt s).All W) :
    (Node.stmt (.block (e.block stmts))).All W := by
  rw [Node.all_stmt rfl]
  simpa [Stmt.parts, block] using h

theorem all_fail : (Node.stmt e.fail).All W := by
  refine e.all_block_stmt fun s hs => ?_
  rw [List.mem_singleton.mp hs, Node.all_stmt rfl]
  simp [Stmt.parts]

theorem all_orFail {test : Expr} {checks : List Stmt} (htest : (Node.expr test).All W)
    (hchecks : ∀ s ∈ checks, (Node.stmt s).All W) : (Node.stmt (e.orFail test checks)).All W := by
  rw [Node.all_stmt rfl]
  simp only [orFail, Stmt.parts, Option.toList_some, List.map_cons, List.map_nil, List.forall_mem_cons]
  exact ⟨htest, e.all_block_stmt hchecks, e.all_fail, fun _ h => by cases h⟩

theorem all_isObject (h : (Node.expr value).All W) : (Node.expr (e.isObject value)).All W := by
  have hunary : (Node.expr (.unary e.anchor .typeof value)).All W := by
    rw [Node.all_expr rfl]
    simpa [Expr.parts] using h
  have hnull : (Node.expr (.null e.anchor)).All W := by
    rw [Node.all_expr rfl]
    simp [Expr.parts]
  simp [isObject, hunary, hnull, h]

theorem all_ownNames (h : (Node.expr value).All W) : (Node.expr (e.ownNames value)).All W :=
  e.all_call (by simp) (by simpa using h)

theorem all_currentProp (h : (Node.expr value).All W) : (Node.expr (e.currentProp value)).All W := by
  simp [currentProp, h]

theorem all_propsLoop {body : List Stmt} (h : ∀ s ∈ body, (Node.stmt s).All W) :
    (Node.stmt (e.propsLoop body)).All W := by
  have hinit : (Node.forInit (.var (e.decl iterVar (e.number "0")))).All W := by
    rw [Node.all_of_ordinary rfl]
    simp [Node.children, Node.parts, Node.metadata, decl]
  rw [Node.all_stmt rfl]
  simp only [propsLoop, Stmt.parts, Option.toList_some, List.map_cons, List.map_nil, List.cons_append,
    List.nil_append, List.forall_mem_cons]
  exact ⟨hinit, by simp, by simp, e.all_block_stmt h, fun _ h => by cases h⟩

theorem all_everyProp (hvalue : (Node.expr value).All W) (hc : (Node.contract c).All W) :
    (Node.stmt (e.everyProp value c)).All W := by
  refine e.all_orFail (e.all_isObject hvalue) fun s hs => ?_
  rcases List.mem_pair.mp hs with rfl | rfl
  · exact (e.all_var _ _).mpr (e.all_ownNames hvalue)
  · exact e.all_propsLoop (e.all_expectation (e.all_currentProp hvalue) hc)

theorem all_namedProp {prop : Expr} (hvalue : (Node.expr value).All W) (hprop : (Node.expr prop).All W)
    (hc : (Node.contract c).All W) : (Node.stmt (e.namedProp value prop c)).All W := by
  refine e.all_orFail ?_ (e.all_expectation ((e.all_index _ _).mpr ⟨hvalue, hprop⟩) hc)
  have hcall : (Node.expr (e.call (e.member (e.ownNames value) "indexOf") [prop])).All W :=
    e.all_call (by simpa using e.all_ownNames hvalue) (by simpa using hprop)
  simp [e.all_isObject hvalue, hcall]

theorem all_countProps {count : Expr} (hvalue : (Node.expr value).All W) (hcount : (Node.expr count).All W)
    (hc : (Node.contract c).All W) : (Node.stmt (e.countProps value count c)).All W := by
  have hattempt : ∀ s ∈ e.expectation (e.currentProp value) c ++ [e.stmt (e.increment hitsVar)],
      (Node.stmt s).All W := by
    intro s hs
    rcases List.mem_append.mp hs with hs | hs
    · exact e.all_expectation (e.all_currentProp hvalue) hc s hs
    · rw [List.mem_singleton.mp hs]
      exact e.all_stmt rfl (e.all_increment _)
  refine e.all_orFail (e.all_isObject hvalue) fun s hs => ?_
  simp only [List.mem_cons, List.not_mem_nil, or_false] at hs
  rcases hs with rfl | rfl | rfl | rfl
  · exact (e.all_var _ _).mpr (e.all_ownNames hvalue)
  · exact (e.all_var _ _).mpr (e.all_number _)
  · refine e.all_propsLoop fun s hs => ?_
    rw [List.mem_singleton.mp hs, Node.all_stmt rfl]
    simp only [Stmt.parts, Option.toList_some, Option.toList_none, List.map_cons, List.map_nil,
      List.append_nil, List.forall_mem_cons, Node.all_block]
    exact ⟨hattempt, by simp [block], fun _ h => by cases h⟩
  · rw [Node.all_stmt rfl]
    simpa [Stmt.parts, hcount] using e.all_fail

theorem all_demand {d : Demand} (hvalue : (Node.expr value).All W) (hd : (Node.demand d).All W) :
    ∀ s ∈ e.demand value d, (Node.stmt s).All W := by
  obtain ⟨hexpected, hshapes⟩ := Node.all_demand.mp hd
  intro s hs
  simp only [demand, List.mem_append, List.mem_map, Option.mem_toList] at hs
  rcases hs with ((hs | ⟨c, hc, rfl⟩) | ⟨⟨prop, c⟩, hc, rfl⟩) | ⟨⟨count, c⟩, hc, rfl⟩
  · cases hd : d.expected with
    | none => simp [hd] at hs
    | some c =>
      rw [hd] at hs hexpected
      exact e.all_expectation hvalue (hexpected c rfl) s hs
  · obtain ⟨shape, hshape, hc⟩ := List.exists_of_findSome?_eq_some hc
    cases shape with
    | every c' =>
      cases hc
      exact e.all_everyProp hvalue ((hshapes _ hshape).part (by simp [Node.parts]))
    | named => cases hc
    | atLeast => cases hc
  · obtain ⟨shape, hshape, hc⟩ := List.mem_filterMap.mp hc
    cases shape with
    | named prop' c' =>
      cases hc
      exact e.all_namedProp hvalue ((hshapes _ hshape).part (by simp [Node.parts]))
        ((hshapes _ hshape).part (by simp [Node.parts]))
    | every => cases hc
    | atLeast => cases hc
  · obtain ⟨shape, hshape, hc⟩ := List.mem_filterMap.mp hc
    cases shape with
    | atLeast count' c' =>
      cases hc
      exact e.all_countProps hvalue ((hshapes _ hshape).part (by simp [Node.parts]))
        ((hshapes _ hshape).part (by simp [Node.parts]))
    | every => cases hc
    | named => cases hc

theorem all_traitRule {target : Expr} {fn : Function} (htarget : (Node.expr target).All W)
    (hfn : (Node.function fn).All W) (name : String) : (Node.stmt (e.stmt (e.traitRule target name fn))).All W := by
  have hfunction : (Node.expr (.function fn.span fn)).All W := by
    rw [Node.all_expr rfl]
    simpa [Expr.parts] using hfn
  exact e.all_stmt rfl (e.all_call (by simp) (by simp [htarget, hfunction]))

theorem all_symbol (h : (Node.expr value).All W) (name : String) : (Node.expr (e.symbol name value)).All W :=
  e.all_call (e.all_reference _) (by simp [h])

/-- Labels added to a value, or removed from it. -/
theorem all_relabel {l : Label} (dropping : Bool) (hvalue : (Node.expr value).All W) (hl : (Node.label l).All W) :
    (Node.expr ((if dropping then e.drop else e.assume) value l)).All W := by
  have hargs : ∀ a ∈ [value, e.labelArg l], (Node.expr a).All W := by simp [hvalue, e.all_labelArg hl]
  cases dropping with
  | true => exact e.all_runtimeCall _ hargs
  | false => exact e.all_runtimeCall _ hargs

end Emitter

end

end LabelWeaver
