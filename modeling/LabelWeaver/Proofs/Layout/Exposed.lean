import LabelWeaver.Layout.Basic
import LabelWeaver.Proofs.Tree.Each

/-! Where the operator `in` is exposed. A loop head is read without that operator up to the next bracket, so
    what matters is whether the layout of a tree writes `in` outside all brackets, those included that
    the layout itself puts around an operand. -/

namespace LabelWeaver

/-- The expression needs no parentheses in a place for `least`. -/
def Expr.fits (least : Prec) (e : Expr) : Bool := !decide (e.prec < least)

mutual

/-- The layout of the expression writes the operator `in` outside brackets. -/
def Expr.exposesIn : Expr → Bool
  | .binary _ op left right =>
    op == .in || (left.fits (if op = .pow then .update else op.prec) && left.exposesIn ||
      right.fits op.rightPrec && right.exposesIn)
  | .assign _ _ _ value => value.fits .assign && value.exposesIn
  | .conditional _ test _ alternate => test.fits .or && test.exposesIn || alternate.fits .assign && alternate.exposesIn
  | .sequence _ items => itemsExposeIn items
  | _ => false

def itemsExposeIn : List Expr → Bool
  | [] => false
  | e :: rest => e.fits .assign && e.exposesIn || itemsExposeIn rest

end

/-- The expression exposes `in` in a place for values. -/
def Expr.valueExposesIn (e : Expr) : Bool := e.fits .assign && e.exposesIn

def PropKey.exposesIn : PropKey → Bool
  | computed e => e.valueExposesIn
  | _ => false

mutual

/-- The brackets of a pattern are no shelter: they are read like the head around them. -/
def Pattern.exposesIn : Pattern → Bool
  | .name _ | .this _ _ => false
  | .array _ elements => elementsExposeIn elements
  | .object _ properties => propertiesExposeIn properties
  | .withDefault _ target value => target.exposesIn || value.valueExposesIn
  | .rest _ target => target.exposesIn

def elementsExposeIn : List (Option Pattern) → Bool
  | [] => false
  | none :: rest => elementsExposeIn rest
  | some p :: rest => p.exposesIn || elementsExposeIn rest

def PatternProp.exposesIn : PatternProp → Bool
  | .keyValue key value => key.exposesIn || value.exposesIn
  | .shorthand _ none => false
  | .shorthand _ (some value) => value.valueExposesIn
  | .rest target => target.exposesIn

def propertiesExposeIn : List PatternProp → Bool
  | [] => false
  | p :: rest => p.exposesIn || propertiesExposeIn rest

end

def Declarator.exposesIn (d : Declarator) : Bool := d.target.exposesIn || d.init.any Expr.valueExposesIn

def Decl.exposesIn (d : Decl) : Bool := d.decls.any Declarator.exposesIn

def ForInit.exposesIn : ForInit → Bool
  | none => false
  | var d => d.exposesIn
  | expr e => e.exposesIn

def ForTarget.exposesIn : ForTarget → Bool
  | var _ p => p.exposesIn
  -- only names and members are assigned to
  | expr _ => false

theorem itemsExposeIn_eq (es : List Expr) : itemsExposeIn es = es.any Expr.valueExposesIn := by
  induction es with
  | nil => rfl
  | cons e es ih => rw [itemsExposeIn, ih, List.any_cons, Expr.valueExposesIn]

theorem elementsExposeIn_eq (ps : List (Option Pattern)) :
    elementsExposeIn ps = (ps.filterMap id).any Pattern.exposesIn := by
  induction ps with
  | nil => rfl
  | cons p ps ih => cases p <;> simp [elementsExposeIn, ih]

theorem propertiesExposeIn_eq (ps : List PatternProp) : propertiesExposeIn ps = ps.any PatternProp.exposesIn := by
  induction ps with
  | nil => rfl
  | cons p ps ih => rw [propertiesExposeIn, ih, List.any_cons]

/-! ### Trees without the operator -/

/-- The node is no operator `in`. -/
def Node.NotIn : Node → Prop
  | expr (.binary _ .in _ _) => False
  | _ => True

section

/-- The node has the operator nowhere inside. -/
abbrev Node.WithoutIn (n : Node) : Prop := n.All Node.NotIn

variable {e : Expr}

mutual

theorem Expr.exposesIn_eq_false : ∀ e : Expr, (Node.expr e).WithoutIn → e.exposesIn = false
  | .binary span op left right, h => by
    have hop : (op == .in) = false := by
      have := h.self
      cases op <;> first | rfl | exact this.elim
    have hleft := left.exposesIn_eq_false (h.part (List.mem_cons_self ..))
    have hright := right.exposesIn_eq_false (h.part (List.mem_cons_of_mem _ (List.mem_cons_self ..)))
    simp [Expr.exposesIn, hop, hleft, hright]
  | .assign span op target value, h => by
    simp [Expr.exposesIn, value.exposesIn_eq_false (h.part (List.mem_cons_of_mem _ (List.mem_cons_self ..)))]
  | .conditional span test consequent alternate, h => by
    have htest := test.exposesIn_eq_false (h.part (List.mem_cons_self ..))
    have halternate := alternate.exposesIn_eq_false
      (h.part (List.mem_cons_of_mem _ (List.mem_cons_of_mem _ (List.mem_cons_self ..))))
    simp [Expr.exposesIn, htest, halternate]
  | .sequence span items, h => itemsExposeIn_eq_false items fun e he => h.part (List.mem_map_of_mem he)
  | .ident _ _, _ | .this _, _ | .null _, _ | .bool _ _, _ | .number _ _, _ | .string _ _, _ | .regex _ _ _, _
  | .array _ _, _ | .object _ _, _ | .function _ _, _ | .unary _ _ _, _ | .update _ _ _ _, _ | .call _ _ _, _
  | .new _ _ _, _ | .member _ _ _, _ | .index _ _ _, _ | .spread _ _, _ => by simp only [Expr.exposesIn]

theorem itemsExposeIn_eq_false : ∀ es : List Expr, (∀ e ∈ es, (Node.expr e).WithoutIn) → itemsExposeIn es = false
  | [], _ => rfl
  | e :: es, h => by
    have he := e.exposesIn_eq_false (h e (List.mem_cons_self ..))
    have hes := itemsExposeIn_eq_false es fun e he => h e (List.mem_cons_of_mem _ he)
    simp [itemsExposeIn, he, hes]

end

theorem Expr.valueExposesIn_eq_false (h : (Node.expr e).WithoutIn) : e.valueExposesIn = false := by
  simp [Expr.valueExposesIn, e.exposesIn_eq_false h]

theorem PropKey.exposesIn_eq_false {k : PropKey} (h : (Node.key k).WithoutIn) : k.exposesIn = false := by
  cases k with
  | computed e => exact Expr.valueExposesIn_eq_false (h.part (List.mem_cons_self ..))
  | _ => rfl

mutual

theorem Pattern.exposesIn_eq_false : ∀ p : Pattern, (Node.pattern p).WithoutIn → p.exposesIn = false
  | .name _, _ => rfl
  | .this _ _, _ => rfl
  | .array _ elements, h => elementsExposeIn_eq_false elements fun p hp =>
      h.part (List.mem_map_of_mem (List.mem_filterMap.mpr ⟨some p, hp, rfl⟩))
  | .object _ properties, h => propertiesExposeIn_eq_false properties fun p hp => h.part (List.mem_map_of_mem hp)
  | .withDefault _ target value, h => by
    have htarget := target.exposesIn_eq_false (h.part (List.mem_cons_self ..))
    have hvalue := Expr.valueExposesIn_eq_false (h.part (List.mem_cons_of_mem _ (List.mem_cons_self ..)))
    simp [Pattern.exposesIn, htarget, hvalue]
  | .rest _ target, h => target.exposesIn_eq_false (h.part (List.mem_cons_self ..))

theorem elementsExposeIn_eq_false : ∀ ps : List (Option Pattern),
    (∀ p, some p ∈ ps → (Node.pattern p).WithoutIn) → elementsExposeIn ps = false
  | [], _ => rfl
  | none :: ps, h => elementsExposeIn_eq_false ps fun p hp => h p (List.mem_cons_of_mem _ hp)
  | some p :: ps, h => by
    have hp := p.exposesIn_eq_false (h p (List.mem_cons_self ..))
    have hps := elementsExposeIn_eq_false ps fun p hp => h p (List.mem_cons_of_mem _ hp)
    simp [elementsExposeIn, hp, hps]

theorem PatternProp.exposesIn_eq_false : ∀ p : PatternProp, (Node.patternProp p).WithoutIn → p.exposesIn = false
  | .keyValue key value, h => by
    have hkey := PropKey.exposesIn_eq_false (h.part (List.mem_cons_self ..))
    have hvalue := value.exposesIn_eq_false (h.part (List.mem_cons_of_mem _ (List.mem_cons_self ..)))
    simp [PatternProp.exposesIn, hkey, hvalue]
  | .shorthand _ none, _ => rfl
  | .shorthand _ (some value), h =>
    Expr.valueExposesIn_eq_false (h.part (List.mem_cons_of_mem _ (List.mem_cons_self ..)))
  | .rest target, h => target.exposesIn_eq_false (h.part (List.mem_cons_self ..))

theorem propertiesExposeIn_eq_false : ∀ ps : List PatternProp, (∀ p ∈ ps, (Node.patternProp p).WithoutIn) →
    propertiesExposeIn ps = false
  | [], _ => rfl
  | p :: ps, h => by
    have hp := p.exposesIn_eq_false (h p (List.mem_cons_self ..))
    have hps := propertiesExposeIn_eq_false ps fun p hp => h p (List.mem_cons_of_mem _ hp)
    simp [propertiesExposeIn, hp, hps]

end

theorem Declarator.exposesIn_eq_false {d : Declarator} (h : (Node.declarator d).WithoutIn) : d.exposesIn = false := by
  obtain ⟨span, target, init⟩ := d
  have htarget := target.exposesIn_eq_false (h.part (List.mem_cons_self ..))
  cases init with
  | none => simp [Declarator.exposesIn, htarget]
  | some e =>
    have he := Expr.valueExposesIn_eq_false (h.part (List.mem_cons_of_mem _ (List.mem_cons_self ..)))
    simp [Declarator.exposesIn, htarget, he]

theorem Decl.exposesIn_eq_false {d : Decl} (h : (Node.decl d).WithoutIn) : d.exposesIn = false := by
  refine List.any_eq_false.mpr fun x hx => ?_
  rw [Declarator.exposesIn_eq_false (h.part (List.mem_map_of_mem hx))]
  exact Bool.false_ne_true

theorem ForInit.exposesIn_eq_false {i : ForInit} (h : (Node.forInit i).WithoutIn) : i.exposesIn = false := by
  cases i with
  | none => rfl
  | var d => exact Decl.exposesIn_eq_false (h.part (List.mem_cons_self ..))
  | expr e => exact e.exposesIn_eq_false (h.part (List.mem_cons_self ..))

theorem ForTarget.exposesIn_eq_false {t : ForTarget} (h : (Node.forTarget t).WithoutIn) : t.exposesIn = false := by
  cases t with
  | var kind p => exact p.exposesIn_eq_false (h.part (List.mem_cons_self ..))
  | expr => rfl

end

end LabelWeaver
