import LabelWeaver.Proofs.Tree.Node

/-! Trees of the base language as reading makes them. `Node.Proper` is what holds at each node by
    itself; in a tree that is `Made`, it holds everywhere and the return statements are numbered in
    the order in which they are read. -/

namespace LabelWeaver

/-! ### Lists of results -/

section
variable {α β : Type}

/-- Results that follow each other: each begins with the number at which the one before ends. -/
inductive Run (A : Nat → Nat → α → Prop) : Nat → Nat → List α → Prop where
  | nil (lo : Nat) : Run A lo lo []
  | cons {lo mid hi : Nat} {a : α} {as : List α} (ha : A lo mid a) (has : Run A mid hi as) :
      Run A lo hi (a :: as)

/-- A result that may be left out. -/
def Maybe (A : Nat → Nat → α → Prop) (lo hi : Nat) : Option α → Prop
  | none => lo = hi
  | some a => A lo hi a

variable {A : Nat → Nat → α → Prop} {B : Nat → Nat → β → Prop} {lo mid hi : Nat}

@[simp] theorem run_nil_iff : Run A lo hi [] ↔ lo = hi := by
  constructor
  · rintro ⟨⟩
    rfl
  · rintro rfl
    exact .nil _

@[simp] theorem run_cons_iff {a : α} {as : List α} :
    Run A lo hi (a :: as) ↔ ∃ mid, A lo mid a ∧ Run A mid hi as := by
  constructor
  · rintro ⟨⟩
    exact ⟨_, ‹_›, ‹_›⟩
  · rintro ⟨mid, ha, has⟩
    exact .cons ha has

theorem run_singleton_iff {a : α} : Run A lo hi [a] ↔ A lo hi a := by
  simp

theorem Run.append {as bs : List α} (h : Run A lo mid as) (h' : Run A mid hi bs) :
    Run A lo hi (as ++ bs) := by
  induction h with
  | nil => exact h'
  | cons ha _ ih => exact .cons ha (ih h')

theorem run_append_iff {as bs : List α} :
    Run A lo hi (as ++ bs) ↔ ∃ mid, Run A lo mid as ∧ Run A mid hi bs := by
  constructor
  · intro h
    induction as generalizing lo with
    | nil => exact ⟨lo, .nil _, h⟩
    | cons a as ih =>
      obtain ⟨w, ha, has⟩ := run_cons_iff.mp h
      obtain ⟨mid, hleft, hright⟩ := ih has
      exact ⟨mid, .cons ha hleft, hright⟩
  · rintro ⟨mid, hleft, hright⟩
    exact hleft.append hright

theorem Run.map {f : α → β} {as : List α} (hAB : ∀ {lo hi a}, A lo hi a → B lo hi (f a))
    (h : Run A lo hi as) : Run B lo hi (as.map f) := by
  induction h with
  | nil => exact .nil _
  | cons ha _ ih => exact .cons (hAB ha) ih

theorem run_map_iff {f : α → β} {as : List α} :
    Run B lo hi (as.map f) ↔ Run (fun lo hi a => B lo hi (f a)) lo hi as := by
  induction as generalizing lo with
  | nil => simp
  | cons a as ih => simp [ih]

theorem Run.imp {B : Nat → Nat → α → Prop} {as : List α} (h : Run A lo hi as)
    (hAB : ∀ a ∈ as, ∀ {lo hi}, A lo hi a → B lo hi a) : Run B lo hi as := by
  induction h with
  | nil => exact .nil _
  | cons ha _ ih =>
    exact .cons (hAB _ List.mem_cons_self ha) (ih fun a hmem => hAB a (List.mem_cons_of_mem _ hmem))

/-- Results that move nothing. -/
theorem Run.still {as : List α} (h : ∀ a ∈ as, A lo lo a) : Run A lo lo as := by
  induction as with
  | nil => exact .nil lo
  | cons a as ih =>
    obtain ⟨ha, has⟩ := List.forall_mem_cons.mp h
    exact .cons ha (ih has)

theorem Run.mem {as : List α} {a : α} (h : Run A lo hi as) (ha : a ∈ as) : ∃ lo hi, A lo hi a := by
  induction h with
  | nil => cases ha
  | cons hb _ ih =>
    rcases List.mem_cons.mp ha with rfl | ha
    · exact ⟨_, _, hb⟩
    · exact ih ha

theorem Run.le {as : List α} (hA : ∀ {lo hi a}, A lo hi a → lo ≤ hi) (h : Run A lo hi as) : lo ≤ hi := by
  induction h with
  | nil => exact Nat.le_refl _
  | cons ha _ ih => exact Nat.le_trans (hA ha) ih

theorem run_toList_iff {f : α → β} {a : Option α} :
    Run B lo hi (a.toList.map f) ↔ Maybe (fun lo hi a => B lo hi (f a)) lo hi a := by
  cases a <;> simp [Maybe]

theorem Run.filterMap {f : α → β} {as : List (Option α)} (hAB : ∀ {lo hi a}, A lo hi a → B lo hi (f a))
    (h : Run (Maybe A) lo hi as) : Run B lo hi ((as.filterMap id).map f) := by
  induction h with
  | nil => exact .nil _
  | @cons _ _ _ a as ha _ ih =>
    cases a with
    | none => cases ha; exact ih
    | some a => exact .cons (hAB ha) ih

/-- Results of which some are left out. -/
theorem Run.maybe {f : α → β} {as : List (Option α)} (h : Run B lo hi ((as.filterMap id).map f)) :
    Run (Maybe fun lo hi a => B lo hi (f a)) lo hi as := by
  induction as generalizing lo with
  | nil => exact run_nil_iff.mpr (run_nil_iff.mp h)
  | cons a as ih =>
    cases a with
    | none => exact .cons rfl (ih h)
    | some a =>
      obtain ⟨mid, ha, has⟩ := run_cons_iff.mp h
      exact .cons ha (ih has)

end

/-! ### Forms -/

/-- How names and literals are spelled. -/
structure Lexis where
  name : String → Prop
  /-- Names after a dot and names of properties. -/
  property : String → Prop
  number : String → Prop
  regex : String → String → Prop

/-- A pattern without a default value and without dots. -/
def Pattern.isBinding : Pattern → Bool
  | name _ | this _ _ | array _ _ | object _ _ => true
  | withDefault _ _ _ | rest _ _ => false

/-- What a declaration or a handler can bind: a target that holds no place for a receiver. -/
def Pattern.isDeclared (p : Pattern) : Bool := p.isBinding && p.findThis?.isNone

theorem Pattern.isDeclared_iff {p : Pattern} : p.isDeclared = true ↔ p.isBinding = true ∧ p.findThis? = none := by
  simp [isDeclared]

def Pattern.isRest : Pattern → Bool
  | rest _ _ => true
  | _ => false

/-- The statement ends in a branch without `else`, so that an `else` behind it would belong to it. -/
def Stmt.endsOpen : Stmt → Bool
  | ifElse _ _ _ none => true
  | ifElse _ _ _ (some s) => s.endsOpen
  | forLoop _ _ _ _ s | forEach _ _ _ _ s | .while _ _ s => s.endsOpen
  | _ => false

variable (L : Lexis)

def Expr.Proper : Expr → Prop
  | ident _ name => L.name name
  | number _ text => L.number text
  | regex _ pattern flags => L.regex pattern flags
  | update _ _ _ e | assign _ _ e _ => e.isTarget = true
  | member _ _ name => L.property name.text
  | sequence _ items => 2 ≤ items.length
  -- dots stand in items only
  | spread _ _ => False
  | _ => True

structure Function.Proper (fn : Function) : Prop where
  name : ∀ n ∈ fn.name, L.name n.text
  arrow : fn.isArrow = true → fn.name = none
  body : fn.isArrow = false → ∃ b, fn.body = .block b
  receiver : fn.receiver = none
  returns : fn.returns = none
  condition : fn.condition = none
  sites : fn.checkedSites = []
  instrumented : fn.instrumented = false

def Stmt.Proper : Stmt → Prop
  | function fn => fn.isArrow = false ∧ fn.name.isSome = true
  -- otherwise the `else` would belong to the inner branch
  | ifElse _ _ consequent (some _) => consequent.endsOpen = false
  | switch _ _ cases => (cases.filter (·.test.isNone)).length ≤ 1
  | tryCatch _ _ handler finalizer => handler.isSome = true ∨ finalizer.isSome = true
  | _ => True

def Pattern.Proper : Pattern → Prop
  | name b => L.name b.name.text
  | this _ _ => False
  | withDefault _ target _ | rest _ target => target.isBinding = true
  | _ => True

/-- What holds at a node of the base language by itself. -/
def Node.Proper : Node → Prop
  | expr e => e.Proper L
  | key (.name n) => L.property n.text
  | key (.number text) => L.number text
  | property (.shorthand n) => L.property n.text
  | property (.method _ fn) => fn.isArrow = false ∧ fn.name = none
  | function fn => fn.Proper L
  | stmt s => s.Proper
  | decl d => d.decls ≠ []
  | declarator d => d.target.isDeclared = true
  | forTarget (.var _ p) => p.isDeclared = true
  | forTarget (.expr e) => e.isTarget = true
  | handler h => ∀ p ∈ h.param, p.isDeclared = true
  | pattern p => p.Proper L
  | patternProp (.keyValue _ p) => p.isRest = false
  | patternProp (.shorthand b _) => L.property b.name.text
  | patternProp (.rest p) => p.isRest = true
  | binding b => b.demand = .none
  | _ => True

def Node.isSite : Node → Bool
  | site _ => true
  | _ => false

/-- A tree that is proper everywhere, whose return statements have the numbers from `lo` to below
    `hi` in the order of the source. -/
inductive Node.Made : Nat → Nat → Node → Prop where
  | site (n : Nat) : Node.Made n (n + 1) (.site n)
  | node {lo hi : Nat} {n : Node} (hn : n.isSite = false) (hproper : n.Proper L)
      (hparts : Run Node.Made lo hi n.parts) : Node.Made lo hi n

variable {L}

namespace Node.Made

variable {lo hi : Nat} {n : Node}

/-- Induction over made trees: what holds of the parts of a proper node holds of the node. -/
theorem byParts {P : Nat → Nat → Node → Prop} (site : ∀ n, P n (n + 1) (.site n))
    (node : ∀ {lo hi n}, n.isSite = false → n.Proper L → Run (Node.Made L) lo hi n.parts →
      Run P lo hi n.parts → P lo hi n)
    (h : n.Made L lo hi) : P lo hi n :=
  @Node.Made.rec L (fun lo hi n _ => P lo hi n) (fun lo hi ns _ => Run P lo hi ns) site
    (fun hn hproper hparts ih => node hn hproper hparts ih) (fun lo => .nil lo)
    (fun _ _ iha ihas => .cons iha ihas) lo hi n h

theorem proper (h : n.Made L lo hi) : n.Proper L := by
  cases h with
  | site => trivial
  | node _ hproper _ => exact hproper

theorem parts (h : n.Made L lo hi) (hn : n.isSite = false) : Run (Node.Made L) lo hi n.parts := by
  cases h with
  | site => cases hn
  | node _ _ hparts => exact hparts

/-- No dots stand where an expression is read, so any such expression is an item. -/
theorem item {e : Expr} (h : (Node.expr e).Made L lo hi) : (Node.item e).Made L lo hi := by
  cases e with
  | spread => exact h.proper.elim
  | _ => exact .node rfl trivial (.cons h (.nil _))

end Node.Made

end LabelWeaver
