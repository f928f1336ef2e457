import LabelWeaver.Check.Demand

/-! How generated checks run. This is the part of the host language that they use: variables, branches, loops,
    thrown and caught values, and properties that are read. Checks do not change objects, so the objects of a run
    stay as they are; only variables change. -/

namespace LabelWeaver.Running

/-! ### Values -/

/-- Kinds of primitive values that checks only hand on. -/
inductive Primitive where
  | fraction
  | bigint
  | symbol
  deriving DecidableEq

/-- Values of a running program. Objects and functions are references. -/
inductive Value where
  | undefined
  | null
  | boolean (value : Bool)
  | number (value : Int)
  | string (value : String)
  | primitive (kind : Primitive) (id : Nat)
  | array (items : List String)
  | object (ref : Nat)
  | function (ref : Nat)
  deriving DecidableEq

namespace Value

def typeOf : Value → String
  | undefined => "undefined"
  | null | array _ | object _ => "object"
  | boolean _ => "boolean"
  | number _ | primitive .fraction _ => "number"
  | string _ => "string"
  | primitive .bigint _ => "bigint"
  | primitive .symbol _ => "symbol"
  | function _ => "function"

/-- The value is an object and no function. -/
def isObject : Value → Bool
  | array _ | object _ => true
  | _ => false

/-- An element of an array, which may be missing. -/
def ofItem (item : Option String) : Value := item.elim undefined string

end Value

/-- What the variables hold. -/
abbrev Store := String → Value

namespace Store

variable (σ : Store) (x : String) (v : Value)

def set : Store := fun y => if y = x then v else σ y

@[simp] theorem set_same : σ.set x v x = v := if_pos rfl

theorem set_other {y : String} (h : y ≠ x) : σ.set x v y = σ y := if_neg h

end Store

/-- The objects of a run, and the label check of the run-time library. -/
structure World where
  /-- The names of the own properties. -/
  own : (ref : Nat) → List String
  property : (ref : Nat) → String → Value
  /-- Returns a value or throws one, and changes nothing. -/
  assert : (value label : Value) → Except Value Value

namespace World

variable (W : World)

def ownNames : Value → List String
  | .object ref | .function ref => W.own ref
  | .array items => (List.range items.length).map toString ++ ["length"]
  | _ => []

/-- The property with a name. -/
def get : Value → String → Value
  | .object ref, name | .function ref, name => W.property ref name
  | .array items, name =>
    if name = "length" then .number items.length
    else .ofItem ((items.zipIdx.find? (toString ·.2 = name)).map Prod.fst)
  | _, _ => .undefined

end World

/-! ### Expressions -/

/-- What running returns or throws, and what the variables hold then. There is no result if the run does not come to
    an end, or if it needs more of the host language than checks do. -/
abbrev Eval := ExceptT Value (StateT Store Option)

namespace Eval

def stuck {α : Type} : Eval α := fun _ => none

def lookup (x : String) : Eval Value := fun σ => some (.ok (σ x), σ)

def assign (x : String) (v : Value) : Eval Unit := fun σ => some (.ok (), σ.set x v)

/-- What going round as long as a round says so comes to. -/
inductive Loops (round : Eval Bool) : Store → Except Value Unit × Store → Prop where
  | done {σ σ' : Store} (h : round σ = some (.ok false, σ')) : Loops round σ (.ok (), σ')
  | threw {σ σ' : Store} {v : Value} (h : round σ = some (.error v, σ')) : Loops round σ (.error v, σ')
  | again {σ σ' : Store} {out : Except Value Unit × Store} (h : round σ = some (.ok true, σ')) (hout : Loops round σ' out) :
      Loops round σ out

open Classical in
/-- Goes round as long as a round says so. -/
noncomputable def loop (round : Eval Bool) : Eval Unit := fun σ =>
  if h : ∃ out, Loops round σ out then some h.choose else none

end Eval

/-- Operators that take the values of both operands. -/
def operate : BinaryOp → Value → Value → Eval Value
  -- values of different types would be converted
  | .eq, a, b => if a.typeOf = b.typeOf then return .boolean (a = b) else .stuck
  | .strictNe, a, b => return .boolean (a ≠ b)
  | .lt, .number a, .number b => return .boolean (a < b)
  | .ge, .number a, .number b => return .boolean (a ≥ b)
  | _, _, _ => .stuck

/-- The number that decimal digits stand for. -/
def decimal? (text : String) : Option Nat :=
  if text.toList.all Char.isDigit then some (Nat.ofDigitChars 10 text.toList 0) else none

theorem decimal?_toString (n : Nat) : decimal? (toString n) = some n := by
  have hdigits : (toString n).toList = Nat.toDigits 10 n := by rw [Nat.toString_eq_repr, Nat.toList_repr]
  have hall : (Nat.toDigits 10 n).all Char.isDigit = true :=
    List.all_eq_true.mpr fun _ hc => Nat.isDigit_of_mem_toDigits (by decide) (by decide) hc
  rw [decimal?, hdigits, if_pos hall, Nat.ofDigitChars_ten_toDigits]

def isReference (x : String) : Expr → Bool
  | .ident _ y => x = y
  | _ => false

namespace World

variable (W : World) (names : RuntimeNames)

def read : (object key : Value) → Eval Value
  | .array items, .number (.ofNat i) => return .ofItem items[i]?
  | v, .string name => if v.isObject then return W.get v name else .stuck
  | _, _ => .stuck

/-- Runs an expression. The calls are those of `Object.getOwnPropertyNames`, of `indexOf` on an array and of the label
    check. -/
def eval : Expr → Eval Value
  | .ident _ x => .lookup x
  | .null _ => return .null
  | .string _ s => return .string s
  | .number _ text => (decimal? text).elim .stuck fun n => return .number n
  | .unary _ .typeof e => return .string (← eval e).typeOf
  | .binary _ .and a b => do
    match ← eval a with
    | .boolean true => eval b
    | .boolean false => return .boolean false
    | _ => .stuck
  | .binary _ op a b => do operate op (← eval a) (← eval b)
  | .update _ .incr false (.ident _ x) => do
    match ← Eval.lookup x with
    | .number n => .assign x (.number (n + 1)); return .number n
    | _ => .stuck
  | .index _ object key => do W.read (← eval object) (← eval key)
  | .member _ object name => do W.read (← eval object) (.string name.text)
  | .call _ (.member _ object method) [a] => do
    if method.text = "getOwnPropertyNames" ∧ isReference "Object" object then
      let v ← eval a
      if v.isObject then return .array (W.ownNames v) else .stuck
    else if method.text = "indexOf" then
      match ← eval object, ← eval a with
      | .array items, .string name => return .number ((items.idxOf? name).elim (-1) Int.ofNat)
      | _, _ => .stuck
    else .stuck
  | .call _ (.member _ object method) [a, b] => do
    if method.text = "assert" ∧ isReference names.runtime object then
      match W.assert (← eval a) (← eval b) with
      | .ok v => return v
      | .error v => throw v
    else .stuck
  | _ => .stuck

/-- Runs a test. -/
def holds (e : Expr) : Eval Bool := do
  match ← W.eval names e with
  | .boolean b => return b
  | _ => .stuck

/-- Runs the declaration of one variable. -/
def declare : Decl → Eval Unit
  | ⟨_, _, [⟨_, .name b, some init⟩]⟩ => do .assign b.name.text (← W.eval names init)
  | _ => .stuck

/-- Runs one round of a loop if the test holds, and says whether it does. -/
def round (test update : Expr) (body : Eval Unit) : Eval Bool := do
  if ← W.holds names test then
    body
    let _ ← W.eval names update
    return true
  else return false

mutual

/-- Runs a statement. -/
noncomputable def exec : Stmt → Eval Unit
  | .expr _ e => do
    let _ ← W.eval names e
    return
  | .var d => W.declare names d
  | .throw _ e => do throw (← W.eval names e)
  | .block ⟨_, stmts⟩ => execAll stmts
  | .ifElse _ test yes (some no) => do if ← W.holds names test then exec yes else exec no
  | .ifElse _ test yes none => do if ← W.holds names test then exec yes
  | .forLoop _ (.var d) (some test) (some update) body => do
    W.declare names d
    .loop (W.round names test update (exec body))
  | .tryCatch _ ⟨_, stmts⟩ (some ⟨_, some (.name b), ⟨_, handler⟩⟩) none => fun σ => do
    match ← execAll stmts σ with
    | (.ok a, σ') => some (.ok a, σ')
    | (.error v, σ') =>
      -- the name of the caught value belongs to the handler
      let (result, σ'') ← execAll handler (σ'.set b.name.text v)
      some (result, σ''.set b.name.text (σ' b.name.text))
  | _ => .stuck

noncomputable def execAll : List Stmt → Eval Unit
  | [] => return
  | s :: ss => do
    exec s
    execAll ss

end

/-- Runs the rounds of a loop. -/
noncomputable def execLoop (test update : Expr) (body : Stmt) : Eval Unit :=
  .loop (W.round names test update (W.exec names body))

end World

/-! ### What runs come to -/

namespace Eval

section
variable {α β : Type}

/-- The run returns a value. -/
def Returns (m : Eval α) (σ : Store) (a : α) (σ' : Store) : Prop := m σ = some (.ok a, σ')

/-- The run throws a value. -/
def Throws (m : Eval α) (σ : Store) (v : Value) (σ' : Store) : Prop := m σ = some (.error v, σ')

variable {m : Eval α} {f : α → Eval β} {σ σ₁ σ₂ : Store} {a : α} {b : β} {v : Value}

theorem Returns.pure (a : α) (σ : Store) : Returns (Pure.pure a) σ a σ := rfl

theorem Returns.run_bind (h : Returns m σ a σ₁) : (m >>= f) σ = f a σ₁ := by
  simp only [Bind.bind, ExceptT.bind, ExceptT.mk, StateT.bind, Option.bind, ExceptT.bindCont]
  rw [show m σ = some (.ok a, σ₁) from h]

theorem Returns.bind (h : Returns m σ a σ₁) (h' : Returns (f a) σ₁ b σ₂) : Returns (m >>= f) σ b σ₂ :=
  h.run_bind.trans h'

theorem Returns.bindThrows (h : Returns m σ a σ₁) (h' : Throws (f a) σ₁ v σ₂) : Throws (m >>= f) σ v σ₂ :=
  h.run_bind.trans h'

theorem Throws.bind (h : Throws m σ v σ₁) : Throws (m >>= f) σ v σ₁ := by
  simp only [Throws, Bind.bind, ExceptT.bind, ExceptT.mk, StateT.bind, Option.bind, ExceptT.bindCont]
  rw [show m σ = some (.error v, σ₁) from h]
  rfl

end

section
variable {round : Eval Bool} {σ σ₁ : Store} {v : Value} {out out' : Except Value Unit × Store}

theorem Loops.unique (h : Loops round σ out) (h' : Loops round σ out') : out = out' := by
  induction h with
  | done h => cases h' <;> simp_all
  | threw h => cases h' <;> simp_all
  | again h _ ih =>
    cases h' with
    | again h₁ hout => exact ih (by simp_all)
    | _ => simp_all

theorem loop_eq_some_iff : loop round σ = some out ↔ Loops round σ out := by
  constructor
  · intro h
    unfold loop at h
    split at h
    · next hloops => exact Option.some.inj h ▸ hloops.choose_spec
    · cases h
  · intro h
    have hloops : ∃ out, Loops round σ out := ⟨out, h⟩
    rw [loop, dif_pos hloops, hloops.choose_spec.unique h]

/-- A loop that goes on goes on from where the round ended. -/
theorem loop_of_returns_true (h : Returns round σ true σ₁) : loop round σ = loop round σ₁ := by
  refine Option.ext fun out => ?_
  rw [loop_eq_some_iff, loop_eq_some_iff]
  constructor
  · intro hout
    cases hout with
    | again h₁ hout =>
      cases Option.some.inj (h.symm.trans h₁)
      exact hout
    | done h₁ => cases h.symm.trans h₁
    | threw h₁ => cases h.symm.trans h₁
  · exact .again h

theorem Returns.loop (h : Returns round σ false σ₁) : (Eval.loop round).Returns σ () σ₁ := loop_eq_some_iff.mpr (.done h)

theorem Throws.loop (h : Throws round σ v σ₁) : (Eval.loop round).Throws σ v σ₁ := loop_eq_some_iff.mpr (.threw h)

end

end Eval

open Eval

namespace World

variable (W : World) (names : RuntimeNames) {span : Span} {σ σ₁ σ₂ : Store} {a b : Expr} {u v w : Value} {x : String}

/-! ### Runs of expressions -/

section
-- The lemmas below share the equations of `eval` and `exec`, which take long to make.
attribute [local simp] eval exec execAll
end

theorem returns_ident (h : σ x = v) : (W.eval names (.ident span x)).Returns σ v σ := h ▸ rfl

theorem returns_null : (W.eval names (.null span)).Returns σ .null σ := rfl

theorem returns_string (s : String) : (W.eval names (.string span s)).Returns σ (.string s) σ := rfl

theorem returns_number {text : String} {n : Nat} (h : decimal? text = some n) :
    (W.eval names (.number span text)).Returns σ (.number n) σ := by
  rw [eval, h]
  exact .pure _ _

variable {W names}

theorem returns_typeof (ha : (W.eval names a).Returns σ u σ₁) :
    (W.eval names (.unary span .typeof a)).Returns σ (.string u.typeOf) σ₁ := by
  rw [eval]
  exact ha.bind (.pure _ _)

/-- An operator other than `&&`. -/
theorem returns_binary {op : BinaryOp} (hop : op ≠ .and) (ha : (W.eval names a).Returns σ u σ₁)
    (hb : (W.eval names b).Returns σ₁ v σ₂) (h : operate op u v = pure w) :
    (W.eval names (.binary span op a b)).Returns σ w σ₂ := by
  rw [eval]
  · refine ha.bind (hb.bind ?_)
    rw [h]
    exact .pure _ _
  · exact hop

/-- The right side is run if the left side holds. -/
theorem returns_and {p q : Bool} (ha : (W.eval names a).Returns σ (.boolean p) σ)
    (hb : p = true → (W.eval names b).Returns σ (.boolean q) σ) :
    (W.eval names (.binary span .and a b)).Returns σ (.boolean (p && q)) σ := by
  rw [eval]
  refine ha.bind ?_
  cases p with
  | true => exact hb rfl
  | false => exact .pure _ _

theorem returns_increment {n : Int} (h : σ x = .number n) :
    (W.eval names (.update span .incr false (.ident span x))).Returns σ (.number n) (σ.set x (.number (n + 1))) := by
  have hlookup : (lookup x).Returns σ (.number n) σ := by rw [Returns, lookup, h]
  have hassign : (assign x (.number (n + 1))).Returns σ () (σ.set x (.number (n + 1))) := rfl
  rw [eval]
  exact hlookup.bind (hassign.bind (.pure _ _))

theorem returns_index (ha : (W.eval names a).Returns σ u σ₁) (hb : (W.eval names b).Returns σ₁ v σ₂)
    (h : W.read u v = pure w) : (W.eval names (.index span a b)).Returns σ w σ₂ := by
  rw [eval]
  refine ha.bind (hb.bind ?_)
  rw [h]
  exact .pure _ _

theorem returns_member {name : Name} (ha : (W.eval names a).Returns σ u σ₁)
    (h : W.read u (.string name.text) = pure w) : (W.eval names (.member span a name)).Returns σ w σ₁ := by
  rw [eval]
  refine ha.bind ?_
  rw [h]
  exact .pure _ _

/-! ### Runs of statements -/

theorem returns_test {p : Bool} (h : (W.eval names a).Returns σ (.boolean p) σ₁) : (W.holds names a).Returns σ p σ₁ :=
  h.bind (.pure _ _)

theorem returns_expr (h : (W.eval names a).Returns σ u σ₁) : (W.exec names (.expr span a)).Returns σ () σ₁ := by
  rw [exec]
  exact h.bind (.pure _ _)

theorem throws_expr (h : (W.eval names a).Throws σ u σ₁) : (W.exec names (.expr span a)).Throws σ u σ₁ := by
  rw [exec]
  exact h.bind

theorem returns_declare {e : Emitter} (h : (W.eval names a).Returns σ u σ₁) :
    (W.declare names (e.decl x a)).Returns σ () (σ₁.set x u) := h.bind rfl

theorem returns_var {e : Emitter} (h : (W.eval names a).Returns σ u σ₁) :
    (W.exec names (e.var x a)).Returns σ () (σ₁.set x u) := by
  rw [Emitter.var, exec]
  exact returns_declare h

theorem throws_throw (h : (W.eval names a).Returns σ u σ₁) : (W.exec names (.throw span a)).Throws σ u σ₁ := by
  rw [exec]
  exact h.bindThrows rfl

section
variable {s yes : Stmt} {no : Option Stmt} {ss : List Stmt}

theorem exec_then (h : (W.holds names a).Returns σ true σ₁) :
    W.exec names (.ifElse span a yes no) σ = W.exec names yes σ₁ := by
  cases no <;> rw [exec] <;> exact h.run_bind

theorem exec_else (h : (W.holds names a).Returns σ false σ₁) :
    W.exec names (.ifElse span a yes (some s)) σ = W.exec names s σ₁ := by
  rw [exec]
  exact h.run_bind

theorem returns_skip (h : (W.holds names a).Returns σ false σ₁) :
    (W.exec names (.ifElse span a yes none)).Returns σ () σ₁ := by
  rw [exec]
  exact h.bind (.pure _ _)

theorem exec_block (b : Block) : W.exec names (.block b) = W.execAll names b.stmts := by
  obtain ⟨span, stmts⟩ := b
  rw [exec]

theorem returns_nil : (W.execAll names []).Returns σ () σ := by
  rw [execAll]
  exact .pure _ _

theorem execAll_cons (h : (W.exec names s).Returns σ () σ₁) : W.execAll names (s :: ss) σ = W.execAll names ss σ₁ := by
  rw [execAll]
  exact h.run_bind

theorem throws_cons (h : (W.exec names s).Throws σ v σ₁) : (W.execAll names (s :: ss)).Throws σ v σ₁ := by
  rw [execAll]
  exact h.bind

/-- The last statement decides. -/
theorem execAll_last (s : Stmt) : W.execAll names [s] σ = W.exec names s σ := by
  rw [execAll]
  change (W.exec names s >>= fun _ => W.execAll names []) σ = _
  cases hs : W.exec names s σ with
  | none => exact congrArg (Option.bind · _) hs
  | some r =>
    obtain ⟨r, σ₁⟩ := r
    cases r with
    | ok => exact (Returns.run_bind hs).trans returns_nil
    | error => exact Throws.bind hs

theorem returns_last (h : (W.exec names s).Returns σ () σ₁) : (W.execAll names [s]).Returns σ () σ₁ :=
  (execAll_last s).trans h

/-- Nothing is thrown, so the handler is not run. -/
theorem returns_try {body : Block} {handler : Span} {caught : Binding} (h : (W.execAll names body.stmts).Returns σ () σ₁) :
    (W.exec names (.tryCatch span body (some ⟨handler, some (.name caught), ⟨handler, []⟩⟩) none)).Returns σ () σ₁ := by
  obtain ⟨place, stmts⟩ := body
  rw [exec, Returns, show W.execAll names stmts σ = some (.ok (), σ₁) from h]
  rfl

/-- What is thrown is caught by a handler that does nothing. -/
theorem returns_caught {body : Block} {handler : Span} {caught : Binding} (h : (W.execAll names body.stmts).Throws σ v σ₁) :
    (W.exec names (.tryCatch span body (some ⟨handler, some (.name caught), ⟨handler, []⟩⟩) none)).Returns σ () σ₁ := by
  have hrestored : (σ₁.set caught.name.text v).set caught.name.text (σ₁ caught.name.text) = σ₁ := by
    funext y
    by_cases hy : y = caught.name.text
    · rw [hy, Store.set_same]
    · rw [Store.set_other _ _ _ hy, Store.set_other _ _ _ hy]
  obtain ⟨place, stmts⟩ := body
  rw [exec, Returns, show W.execAll names stmts σ = some (.error v, σ₁) from h]
  exact congrArg (fun σ' => some (Except.ok (), σ')) hrestored

end

section
variable {test update : Expr} {body : Stmt} {e : Emitter}

theorem exec_for (h : (W.eval names a).Returns σ u σ₁) :
    W.exec names (.forLoop span (.var (e.decl x a)) (some test) (some update) body) σ =
      W.execLoop names test update body (σ₁.set x u) := by
  rw [exec]
  exact (returns_declare h).run_bind

/-- One round of a loop. -/
theorem execLoop_round (htest : (W.holds names test).Returns σ true σ) (hbody : (W.exec names body).Returns σ () σ₁)
    (hupdate : (W.eval names update).Returns σ₁ u σ₂) :
    W.execLoop names test update body σ = W.execLoop names test update body σ₂ :=
  loop_of_returns_true (htest.bind (hbody.bind (hupdate.bind (.pure _ _))))

theorem throws_loop (htest : (W.holds names test).Returns σ true σ) (hbody : (W.exec names body).Throws σ v σ₁) :
    (W.execLoop names test update body).Throws σ v σ₁ :=
  (htest.bindThrows hbody.bind).loop

theorem returns_loop (htest : (W.holds names test).Returns σ false σ) :
    (W.execLoop names test update body).Returns σ () σ := by
  have hround : (W.round names test update (W.exec names body)).Returns σ false σ := htest.bind (.pure _ _)
  exact hround.loop

end

end World

end LabelWeaver.Running
