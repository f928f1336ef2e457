import LabelWeaver.Proofs.Check.Running

/-! Shape checks mean what they say. A check of all properties comes to its end if and only if the value is an object
    all of whose own properties pass; a check of the number of properties, if so many of them pass; a check of a named
    property, if the property is there and passes. Otherwise they throw. -/

namespace LabelWeaver.Running

open Emitter Eval World

/-! ### Variables -/

/-- The variables that checks of shapes declare. -/
def checkVars : List String := [propsVar, iterVar, hitsVar]

/-- The variables of the program hold the same. -/
def Store.Agree (σ σ' : Store) : Prop := ∀ y ∉ checkVars, σ' y = σ y

theorem Store.Agree.refl (σ : Store) : σ.Agree σ := fun _ _ => rfl

theorem Store.Agree.set {σ σ' : Store} (h : σ.Agree σ') {x : String} (hx : x ∈ checkVars) (v : Value) :
    σ.Agree (σ'.set x v) := by
  intro y hy
  have hne : y ≠ x := by
    rintro rfl
    exact hy hx
  rw [set_other _ _ _ hne]
  exact h y hy

/-! ### Labels -/

/-- The contract names its base type and its labels by identifiers of the program, and has no condition. -/
structure Plain (c : Contract) : Prop where
  base : ∀ b ∈ c.base, ∃ span x, b = .ident span x ∧ x ∉ checkVars
  refs : ∀ span target, Label.ref span target ∈ c.labels → ∃ span x, target = .ident span x ∧ x ∉ checkVars
  condition : c.condition = none

/-- What a base type or a label stands for as an argument of the label check. -/
def argument (σ : Store) : Expr → Value
  | .ident _ x => σ x
  | .string _ s => .string s
  | _ => .undefined

/-- The base type and the labels that a value is checked for, in order. -/
def checkedFor (e : Emitter) (σ : Store) (c : Contract) : List Value :=
  (c.base.toList ++ c.labels.map e.labelArg).map (argument σ)

namespace World

variable (W : World)

/-- What the label check throws. -/
def refusal (v label : Value) : Option Value :=
  match W.assert v label with
  | .ok _ => none
  | .error err => some err

/-- What the first label check that fails throws. -/
def firstRefusal (labels : List Value) (v : Value) : Option Value := labels.findSome? (W.refusal v)

/-- The result of statements that throw `err`, if there is one, and otherwise go on. -/
def orElse (err : Option Value) (m : Eval Unit) : Eval Unit := err.elim m fun v => throw v

end World

section
variable {W : World} {e : Emitter} {σ σ₀ : Store} {value arg : Expr} {v label : Value} {c : Contract}

theorem exec_assert (hvalue : (W.eval e.names value).Returns σ v σ) (harg : (W.eval e.names arg).Returns σ label σ) :
    W.exec e.names (e.stmt (e.assert value arg)) σ = orElse (W.refusal v label) (pure ()) σ := by
  have heval : ∀ {r}, W.assert v label = r → W.eval e.names (e.assert value arg) σ = some (r, σ) := by
    intro r hr
    have hname : isReference e.names.runtime (.ident e.anchor e.names.runtime) = true := by simp [isReference]
    rw [Emitter.assert, runtimeCall, call, runtime, member, reference, eval, if_pos ⟨rfl, hname⟩]
    refine hvalue.run_bind.trans (harg.run_bind.trans ?_)
    rw [hr]
    cases r <;> rfl
  cases hassert : W.assert v label with
  | ok u =>
    have hreturns : (W.exec e.names (e.stmt (e.assert value arg))).Returns σ () σ := returns_expr (heval hassert)
    rw [hreturns, refusal, hassert]
    rfl
  | error err =>
    have hthrows : (W.exec e.names (e.stmt (e.assert value arg))).Throws σ err σ := throws_expr (heval hassert)
    rw [hthrows, refusal, hassert]
    rfl

/-- Checks for one label after the other. -/
theorem execAll_asserts {args : List Expr} (hvalue : (W.eval e.names value).Returns σ v σ)
    (hargs : ∀ arg ∈ args, (W.eval e.names arg).Returns σ (argument σ arg) σ) (ss : List Stmt) :
    W.execAll e.names ((args.map fun arg => e.stmt (e.assert value arg)) ++ ss) σ =
      orElse (W.firstRefusal (args.map (argument σ)) v) (W.execAll e.names ss) σ := by
  induction args with
  | nil => rfl
  | cons arg args ih =>
    obtain ⟨harg, hargs⟩ := List.forall_mem_cons.mp hargs
    have hassert := exec_assert hvalue harg
    rw [firstRefusal, List.map_cons, List.map_cons, List.findSome?_cons]
    cases hrefusal : W.refusal v (argument σ arg) with
    | none =>
      rw [hrefusal] at hassert
      exact (execAll_cons hassert).trans (ih hargs)
    | some err =>
      rw [hrefusal] at hassert
      exact throws_cons hassert

/-- What a base type or a label stands for does not depend on the variables of checks. -/
theorem Plain.arguments (hc : Plain c) (hσ : σ₀.Agree σ) :
    (∀ arg ∈ c.base.toList ++ c.labels.map e.labelArg, (W.eval e.names arg).Returns σ (argument σ arg) σ) ∧
      (c.base.toList ++ c.labels.map e.labelArg).map (argument σ) = checkedFor e σ₀ c := by
  have hident : ∀ {span x}, x ∉ checkVars → (W.eval e.names (.ident span x)).Returns σ (argument σ (.ident span x)) σ ∧
      argument σ (.ident span x) = argument σ₀ (.ident span x) := fun hx => ⟨rfl, hσ _ hx⟩
  have harg : ∀ arg ∈ c.base.toList ++ c.labels.map e.labelArg,
      (W.eval e.names arg).Returns σ (argument σ arg) σ ∧ argument σ arg = argument σ₀ arg := by
    intro arg harg
    rcases List.mem_append.mp harg with harg | harg
    · obtain ⟨span, x, rfl, hx⟩ := hc.base arg (Option.mem_toList.mp harg)
      exact hident hx
    · obtain ⟨l, hl, rfl⟩ := List.mem_map.mp harg
      cases l with
      | named => exact ⟨rfl, rfl⟩
      | ref span target =>
        obtain ⟨span, x, rfl, hx⟩ := hc.refs span target hl
        exact hident hx
  exact ⟨fun arg h => (harg arg h).1, List.map_congr_left fun arg h => (harg arg h).2⟩

/-- The checks of a contract throw what the first one that fails throws. -/
theorem execAll_expectation (hc : Plain c) (hσ : σ₀.Agree σ) (hvalue : (W.eval e.names value).Returns σ v σ)
    (ss : List Stmt) : W.execAll e.names (e.expectation value c ++ ss) σ =
      orElse (W.firstRefusal (checkedFor e σ₀ c) v) (W.execAll e.names ss) σ := by
  obtain ⟨hargs, hlabels⟩ := hc.arguments (W := W) (e := e) hσ
  have hchecks : e.expectation value c =
      (c.base.toList ++ c.labels.map e.labelArg).map fun arg => e.stmt (e.assert value arg) := by
    simp [expectation, hc.condition]
  rw [hchecks, execAll_asserts hvalue hargs, hlabels]

/-! ### Guards -/

theorem returns_isObject (hvalue : (W.eval e.names value).Returns σ v σ) :
    (W.eval e.names (e.isObject value)).Returns σ (.boolean v.isObject) σ := by
  have hleft : (W.eval e.names (e.binary (.unary e.anchor .typeof value) .eq (e.string "object"))).Returns σ
      (.boolean (v.typeOf = "object")) σ := by
    refine returns_binary (by decide) (returns_typeof hvalue) (returns_string _ _ _) ?_
    have htypes : (Value.string v.typeOf).typeOf = (Value.string "object").typeOf := rfl
    rw [operate, if_pos htypes]
    simp
  have hright : (W.eval e.names (e.binary value .strictNe (.null e.anchor))).Returns σ (.boolean (v ≠ .null)) σ :=
    returns_binary (by decide) hvalue (returns_null _ _) rfl
  have hboth : v.isObject = (decide (v.typeOf = "object") && decide (v ≠ .null)) := by
    cases v with
    | primitive kind id => cases kind <;> rfl
    | _ => rfl
  rw [hboth]
  exact returns_and hleft fun _ => hright

theorem read_string (hv : v.isObject = true) {p : String} : W.read v (.string p) = pure (W.get v p) := by
  cases v with
  | array items => rfl
  | object ref => rfl
  | _ => cases hv

theorem returns_ownNames (hvalue : (W.eval e.names value).Returns σ v σ) (hv : v.isObject = true) :
    (W.eval e.names (e.ownNames value)).Returns σ (.array (W.ownNames v)) σ := by
  rw [Emitter.ownNames, call, member, reference, eval, if_pos ⟨rfl, rfl⟩]
  refine hvalue.bind ?_
  rw [if_pos hv]
  exact .pure _ _

theorem returns_hasOwn {place : Span} {p : String} (hvalue : (W.eval e.names value).Returns σ v σ) (hv : v.isObject = true) :
    (W.eval e.names (e.binary (e.call (e.member (e.ownNames value) "indexOf") [.string place p]) .ge (e.number "0"))).Returns σ
      (.boolean (p ∈ W.ownNames v)) σ := by
  have hne : "indexOf" ≠ "getOwnPropertyNames" := by decide
  have hindex : (W.eval e.names (e.call (e.member (e.ownNames value) "indexOf") [.string place p])).Returns σ
      (.number (((W.ownNames v).idxOf? p).elim (-1) Int.ofNat)) σ := by
    rw [call, member, eval, if_neg fun h => absurd h.1 hne, if_pos rfl]
    exact (returns_ownNames hvalue hv).bind ((returns_string _ _ _).bind (.pure _ _))
  have hfound : decide (((W.ownNames v).idxOf? p).elim (-1) Int.ofNat ≥ (0 : Nat)) = decide (p ∈ W.ownNames v) := by
    cases hidx : (W.ownNames v).idxOf? p with
    | none => simp [List.idxOf?_eq_none_iff.mp hidx]
    | some i =>
      have hmem : p ∈ W.ownNames v := Decidable.byContradiction fun hnot => by
        rw [List.idxOf?_eq_none_iff.mpr hnot] at hidx
        cases hidx
      simp [hmem]
  refine returns_binary (by decide) hindex (returns_number _ _ (decimal?_toString 0)) ?_
  rw [operate, hfound]

theorem throws_fail : (W.exec e.names e.fail).Throws σ (.string failedCheck) σ := by
  rw [fail, exec_block]
  exact throws_cons (throws_throw (returns_string _ _ _))

/-- Where the test fails, so does the check. -/
theorem throws_orFail {test : Expr} {checks : List Stmt} (htest : (W.eval e.names test).Returns σ (.boolean false) σ) :
    (W.exec e.names (e.orFail test checks)).Throws σ (.string failedCheck) σ :=
  (exec_else (returns_test htest)).trans throws_fail

theorem exec_orFail {test : Expr} {checks : List Stmt} (htest : (W.eval e.names test).Returns σ (.boolean true) σ) :
    W.exec e.names (e.orFail test checks) σ = W.execAll e.names checks σ := by
  refine (exec_then (returns_test htest)).trans ?_
  rw [exec_block]
  rfl

/-! ### Loops over properties -/

/-- The start of a round: `before` are the names of the properties that the loop has passed, `rest` are those that it
    has not. -/
structure AtRound (σ₀ : Store) (before rest : List String) (σ : Store) : Prop where
  agree : σ₀.Agree σ
  props : σ propsVar = .array (before ++ rest)
  iter : σ iterVar = .number before.length

theorem AtRound.test {before rest : List String} (h : AtRound σ₀ before rest σ) :
    (W.holds e.names (e.binary (e.reference iterVar) .lt (e.member (e.reference propsVar) "length"))).Returns σ
      (!rest.isEmpty) σ := by
  have hiter : (W.eval e.names (e.reference iterVar)).Returns σ (.number before.length) σ := returns_ident _ _ h.iter
  have hprops : (W.eval e.names (e.reference propsVar)).Returns σ (.array (before ++ rest)) σ := returns_ident _ _ h.props
  have hlength : (W.eval e.names (e.member (e.reference propsVar) "length")).Returns σ (.number (before ++ rest).length) σ :=
    returns_member hprops rfl
  have hlt : decide ((before.length : Int) < ((before ++ rest).length : Int)) = !rest.isEmpty := by
    cases rest with
    | nil => simp
    | cons p rest => exact decide_eq_true (by rw [List.length_append, List.length_cons]; omega)
  refine returns_test (returns_binary (by decide) hiter hlength ?_)
  rw [operate, hlt]

/-- The update of the loop moves on to the next round. -/
theorem AtRound.next {p : String} {before rest : List String} (h : AtRound σ₀ before (p :: rest) σ) :
    ∃ v, (W.eval e.names (e.increment iterVar)).Returns σ v (σ.set iterVar (.number (before.length + 1))) ∧
      AtRound σ₀ (before ++ [p]) rest (σ.set iterVar (.number (before.length + 1))) := by
  refine ⟨_, returns_increment h.iter, h.agree.set (by decide) _, ?_, ?_⟩
  · rw [Store.set_other _ _ _ (by decide), h.props, List.append_assoc, List.singleton_append]
  · rw [Store.set_same, List.length_append, List.length_singleton]
    rfl

theorem AtRound.currentProp {p : String} {before rest : List String} (h : AtRound σ₀ before (p :: rest) σ)
    (hvalue : (W.eval e.names value).Returns σ v σ) (hv : v.isObject = true) :
    (W.eval e.names (e.currentProp value)).Returns σ (W.get v p) σ := by
  have hiter : (W.eval e.names (e.reference iterVar)).Returns σ (.number before.length) σ := returns_ident _ _ h.iter
  have hprops : (W.eval e.names (e.reference propsVar)).Returns σ (.array (before ++ p :: rest)) σ :=
    returns_ident _ _ h.props
  have hname : (W.eval e.names (e.index (e.reference propsVar) (e.reference iterVar))).Returns σ (.string p) σ := by
    refine returns_index hprops hiter ?_
    change W.read (.array (before ++ p :: rest)) (.number (.ofNat before.length)) = _
    rw [World.read, List.getElem?_append_right (Nat.le_refl _), Nat.sub_self]
    rfl
  exact returns_index hvalue hname (read_string hv)

/-- The first round. -/
theorem AtRound.start {xs : List String} (hσ : σ₀.Agree σ) (hprops : σ propsVar = .array xs) :
    AtRound σ₀ [] xs (σ.set iterVar (.number 0)) :=
  ⟨hσ.set (by decide) _, (Store.set_other _ _ _ (by decide)).trans hprops, Store.set_same _ _ _⟩

theorem exec_propsLoop (body : List Stmt) : W.exec e.names (e.propsLoop body) σ = W.execLoop e.names
    (e.binary (e.reference iterVar) .lt (e.member (e.reference propsVar) "length")) (e.increment iterVar)
    (.block (e.block body)) (σ.set iterVar (.number 0)) :=
  exec_for (returns_number _ _ (decimal?_toString 0))

section
variable {span : Span} {x : String} {before rest : List String} (hc : Plain c) (hx : x ∉ checkVars)
  (hv : (σ₀ x).isObject = true)
include hc hx hv

/-- The checks of one property. -/
theorem AtRound.checks {p : String} (h : AtRound σ₀ before (p :: rest) σ) (ss : List Stmt) :
    W.execAll e.names (e.expectation (e.currentProp (.ident span x)) c ++ ss) σ =
      orElse (W.firstRefusal (checkedFor e σ₀ c) (W.get (σ₀ x) p)) (W.execAll e.names ss) σ := by
  have hvalue : (W.eval e.names (.ident span x)).Returns σ (σ₀ x) σ := returns_ident _ _ (h.agree x hx)
  exact execAll_expectation hc h.agree (h.currentProp hvalue hv) ss

/-- The checks of all properties throw what the first one that fails throws. -/
theorem execLoop_every (W : World) (e : Emitter) (span : Span) (h : AtRound σ₀ before rest σ) :
    ∃ σ', W.execLoop e.names (e.binary (e.reference iterVar) .lt (e.member (e.reference propsVar) "length"))
      (e.increment iterVar) (.block (e.block (e.expectation (e.currentProp (.ident span x)) c))) σ =
        orElse (rest.findSome? fun p => W.firstRefusal (checkedFor e σ₀ c) (W.get (σ₀ x) p)) (pure ()) σ' := by
  induction rest generalizing before σ with
  | nil => exact ⟨σ, returns_loop h.test⟩
  | cons p rest ih =>
    have hchecks : W.execAll e.names (e.expectation (e.currentProp (.ident span x)) c ++ []) σ = _ := h.checks hc hx hv []
    rw [List.append_nil] at hchecks
    rw [List.findSome?_cons]
    cases hrefusal : W.firstRefusal (checkedFor e σ₀ c) (W.get (σ₀ x) p) with
    | none =>
      have hbody : (W.exec e.names (.block (e.block (e.expectation (e.currentProp (.ident span x)) c)))).Returns σ () σ := by
        have hdone : (W.execAll e.names []).Returns σ () σ := returns_nil
        rw [hrefusal] at hchecks
        rw [exec_block]
        exact hchecks.trans hdone
      obtain ⟨u, hupdate, hnext⟩ := h.next (W := W) (e := e)
      obtain ⟨σ', hrest⟩ := ih hnext
      exact ⟨σ', (execLoop_round h.test hbody hupdate).trans hrest⟩
    | some err =>
      have hbody : (W.exec e.names (.block (e.block (e.expectation (e.currentProp (.ident span x)) c)))).Throws σ err σ := by
        rw [hrefusal] at hchecks
        rw [exec_block]
        exact hchecks
      exact ⟨σ, throws_loop h.test hbody⟩

/-- One round of counting: a property that passes adds one to the hits, and what is thrown for others is caught. -/
theorem AtRound.count {p : String} {hits : Nat} (h : AtRound σ₀ before (p :: rest) σ) (hhits : σ hitsVar = .number hits) :
    ∃ σ₁, (W.exec e.names (.block (e.block [.tryCatch e.anchor
        (e.block (e.expectation (e.currentProp (.ident span x)) c ++ [e.stmt (e.increment hitsVar)]))
        (some ⟨e.anchor, some (e.binding errorVar), e.block []⟩) none]))).Returns σ () σ₁ ∧
      AtRound σ₀ before (p :: rest) σ₁ ∧
      σ₁ hitsVar = .number (hits + if W.firstRefusal (checkedFor e σ₀ c) (W.get (σ₀ x) p) = none then 1 else 0 : Nat) := by
  have hchecks : W.execAll e.names (e.expectation (e.currentProp (.ident span x)) c ++ [e.stmt (e.increment hitsVar)]) σ =
      _ := h.checks hc hx hv _
  cases hrefusal : W.firstRefusal (checkedFor e σ₀ c) (W.get (σ₀ x) p) with
  | none =>
    have hcounted : (W.exec e.names (e.stmt (e.increment hitsVar))).Returns σ () (σ.set hitsVar (.number (hits + 1))) :=
      returns_expr (returns_increment hhits)
    rw [hrefusal] at hchecks
    refine ⟨σ.set hitsVar (.number (hits + 1)), ?_, ⟨h.agree.set (by decide) _, ?_, ?_⟩, ?_⟩
    · rw [exec_block]
      exact returns_last (returns_try (hchecks.trans (returns_last hcounted)))
    · exact (Store.set_other _ _ _ (by decide)).trans h.props
    · exact (Store.set_other _ _ _ (by decide)).trans h.iter
    · rw [Store.set_same]
      rfl
  | some err =>
    rw [hrefusal] at hchecks
    refine ⟨σ, ?_, h, hhits⟩
    rw [exec_block]
    exact returns_last (returns_caught hchecks)

/-- The loop counts the properties that pass. -/
theorem execLoop_count (W : World) (e : Emitter) (span : Span) {hits : Nat} (h : AtRound σ₀ before rest σ)
    (hhits : σ hitsVar = .number hits) :
    ∃ σ', (W.execLoop e.names (e.binary (e.reference iterVar) .lt (e.member (e.reference propsVar) "length"))
      (e.increment iterVar) (.block (e.block [.tryCatch e.anchor
        (e.block (e.expectation (e.currentProp (.ident span x)) c ++ [e.stmt (e.increment hitsVar)]))
        (some ⟨e.anchor, some (e.binding errorVar), e.block []⟩) none]))).Returns σ () σ' ∧
      σ' hitsVar = .number (hits + rest.countP fun p => W.firstRefusal (checkedFor e σ₀ c) (W.get (σ₀ x) p) = none : Nat) := by
  induction rest generalizing before σ hits with
  | nil => exact ⟨σ, returns_loop h.test, hhits⟩
  | cons p rest ih =>
    obtain ⟨σ₁, hbody, h₁, hhits₁⟩ := h.count hc hx hv hhits
    obtain ⟨u, hupdate, hnext⟩ := h₁.next (W := W) (e := e)
    obtain ⟨σ', hrest, hhits'⟩ := ih hnext ((Store.set_other _ _ _ (by decide)).trans hhits₁)
    refine ⟨σ', (execLoop_round h.test hbody hupdate).trans hrest, hhits'.trans ?_⟩
    rw [List.countP_cons]
    simp only [decide_eq_true_eq]
    congr 2
    omega

end

/-! ### Whole checks -/

/-- The run comes to its end, or it throws a value. -/
def Ends (m : Eval Unit) (σ : Store) : Option Value → Prop
  | none => ∃ σ', m.Returns σ () σ'
  | some err => ∃ σ', m.Throws σ err σ'

theorem ends_of_eq {m : Eval Unit} {err : Option Value} {σ' : Store} (h : m σ = orElse err (pure ()) σ') : Ends m σ err := by
  cases err with
  | none => exact ⟨σ', h⟩
  | some err => exact ⟨σ', h⟩

/-- A run ends in one way only. -/
theorem Ends.iff {m : Eval Unit} {err err' : Option Value} (h : Ends m σ err) : Ends m σ err' ↔ err = err' := by
  refine ⟨fun h' => ?_, fun heq => heq ▸ h⟩
  cases err with
  | none =>
    obtain ⟨σ₁, h⟩ := h
    cases err' with
    | none => rfl
    | some err' =>
      obtain ⟨σ₂, h'⟩ := h'
      cases h.symm.trans h'
  | some err =>
    obtain ⟨σ₁, h⟩ := h
    cases err' with
    | none =>
      obtain ⟨σ₂, h'⟩ := h'
      cases h.symm.trans h'
    | some err' =>
      obtain ⟨σ₂, h'⟩ := h'
      cases h.symm.trans h'
      rfl

section
variable (W : World) (e : Emitter) (σ : Store) (span : Span) {x : String} (hc : Plain c) (hx : x ∉ checkVars)
include hc

theorem ends_namedProp (place : Span) (p : String) : Ends (W.exec e.names (e.namedProp (.ident span x) (.string place p) c)) σ
    (if (σ x).isObject = true ∧ p ∈ W.ownNames (σ x) then W.firstRefusal (checkedFor e σ c) (W.get (σ x) p)
      else some (.string failedCheck)) := by
  have hvalue : (W.eval e.names (.ident span x)).Returns σ (σ x) σ := returns_ident _ _ rfl
  have htest : (W.eval e.names (e.binary (e.isObject (.ident span x)) .and
      (e.binary (e.call (e.member (e.ownNames (.ident span x)) "indexOf") [.string place p]) .ge (e.number "0")))).Returns σ
        (.boolean ((σ x).isObject && decide (p ∈ W.ownNames (σ x)))) σ :=
    returns_and (returns_isObject hvalue) (returns_hasOwn hvalue)
  by_cases hown : (σ x).isObject = true ∧ p ∈ W.ownNames (σ x)
  · rw [if_pos hown]
    have hprop : (W.eval e.names (e.index (.ident span x) (.string place p))).Returns σ (W.get (σ x) p) σ :=
      returns_index hvalue (returns_string _ _ _) (read_string hown.1)
    rw [hown.1, Bool.true_and, decide_eq_true hown.2] at htest
    have hchecks := execAll_expectation hc (Store.Agree.refl σ) hprop []
    rw [List.append_nil, execAll] at hchecks
    exact ends_of_eq ((exec_orFail htest).trans hchecks)
  · rw [if_neg hown]
    have hfalse : ((σ x).isObject && decide (p ∈ W.ownNames (σ x))) = false := by simpa using hown
    rw [hfalse] at htest
    exact ⟨σ, throws_orFail htest⟩

include hx

theorem ends_everyProp : Ends (W.exec e.names (e.everyProp (.ident span x) c)) σ
    (if (σ x).isObject = true then (W.ownNames (σ x)).findSome? fun q => W.firstRefusal (checkedFor e σ c) (W.get (σ x) q)
      else some (.string failedCheck)) := by
  have hvalue : (W.eval e.names (.ident span x)).Returns σ (σ x) σ := returns_ident _ _ rfl
  have htest := returns_isObject hvalue
  cases hv : (σ x).isObject with
  | false =>
    rw [hv] at htest
    exact ⟨σ, throws_orFail htest⟩
  | true =>
    rw [hv] at htest
    have hstart : AtRound σ [] (W.ownNames (σ x)) _ :=
      .start ((Store.Agree.refl σ).set (by decide) _) (Store.set_same σ propsVar _)
    obtain ⟨σ', hloop⟩ := execLoop_every hc hx hv W e span hstart
    rw [← exec_propsLoop] at hloop
    exact ends_of_eq <| (exec_orFail htest).trans <|
      (execAll_cons (returns_var (returns_ownNames hvalue hv))).trans ((execAll_last _).trans hloop)

theorem ends_countProps (place : Span) (n : Nat) :
    Ends (W.exec e.names (e.countProps (.ident span x) (.number place (toString n)) c)) σ
      (if (σ x).isObject = true ∧
          n ≤ (W.ownNames (σ x)).countP fun q => W.firstRefusal (checkedFor e σ c) (W.get (σ x) q) = none
        then none else some (.string failedCheck)) := by
  have hvalue : (W.eval e.names (.ident span x)).Returns σ (σ x) σ := returns_ident _ _ rfl
  have htest := returns_isObject hvalue
  cases hv : (σ x).isObject with
  | false =>
    rw [hv] at htest
    rw [if_neg fun h => Bool.false_ne_true h.1]
    exact ⟨σ, throws_orFail htest⟩
  | true =>
    rw [hv] at htest
    have hprops : (σ.set propsVar (.array (W.ownNames (σ x)))).set hitsVar (.number 0) propsVar = .array (W.ownNames (σ x)) :=
      (Store.set_other _ _ _ (by decide)).trans (Store.set_same _ _ _)
    have hhits : (((σ.set propsVar (.array (W.ownNames (σ x)))).set hitsVar (.number 0)).set iterVar (.number 0)) hitsVar =
        .number (0 : Nat) := (Store.set_other _ _ _ (by decide)).trans (Store.set_same _ _ _)
    have hstart := AtRound.start (((Store.Agree.refl σ).set (by decide) _).set (by decide) _) hprops
    obtain ⟨σ', hloop, hcount⟩ := execLoop_count hc hx hv W e span hstart hhits
    rw [Returns, ← exec_propsLoop] at hloop
    rw [Nat.zero_add] at hcount
    have hrun : W.exec e.names (e.countProps (.ident span x) (.number place (toString n)) c) σ =
        W.exec e.names (.ifElse e.anchor (e.binary (e.reference hitsVar) .lt (.number place (toString n))) e.fail none) σ' :=
      (exec_orFail htest).trans <| (execAll_cons (returns_var (returns_ownNames hvalue hv))).trans <|
        (execAll_cons (returns_var (returns_number _ _ (decimal?_toString 0)))).trans <|
        (execAll_cons hloop).trans (execAll_last _)
    generalize (W.ownNames (σ x)).countP _ = hits at hcount ⊢
    have hless : (W.eval e.names (e.binary (e.reference hitsVar) .lt (.number place (toString n)))).Returns σ'
        (.boolean ((hits : Int) < (n : Int))) σ' :=
      returns_binary (by decide) (returns_ident _ _ hcount) (returns_number _ _ (decimal?_toString n)) rfl
    by_cases henough : n ≤ hits
    · rw [if_pos ⟨rfl, henough⟩]
      rw [decide_eq_false (by omega)] at hless
      exact ⟨σ', hrun.trans (returns_skip (returns_test hless))⟩
    · rw [if_neg fun h => henough h.2]
      rw [decide_eq_true (by omega)] at hless
      exact ⟨σ', hrun.trans ((exec_then (returns_test hless)).trans throws_fail)⟩

end

end

/-- What the checks of shapes come to, for a value `v` in a variable of the program. A property passes if none of the label
    checks refuses it. Where they do not come to their end, the checks throw `failedCheck` or, if all properties
    or one of them must pass, what the first label check that fails throws. -/
theorem shapeChecks_end (W : World) (e : Emitter) (σ : Store) (span place : Span) (x : String) (hx : x ∉ checkVars)
    (c : Contract) (hc : Plain c) (n : Nat) (p : String) :
    let v := σ x
    let refusal := fun q => W.firstRefusal (checkedFor e σ c) (W.get v q)
    let counted := W.exec e.names (e.countProps (.ident span x) (.number place (toString n)) c)
    let every := W.exec e.names (e.everyProp (.ident span x) c)
    let named := W.exec e.names (e.namedProp (.ident span x) (.string place p) c)
    ((Ends counted σ none ↔ v.isObject = true ∧ n ≤ (W.ownNames v).countP fun q => refusal q = none) ∧
      (¬Ends counted σ none → Ends counted σ (some (.string failedCheck)))) ∧
    ((Ends every σ none ↔ v.isObject = true ∧ ∀ q ∈ W.ownNames v, refusal q = none) ∧
      (v.isObject = false → Ends every σ (some (.string failedCheck))) ∧
      (v.isObject = true → ∀ err, (W.ownNames v).findSome? refusal = some err → Ends every σ (some err))) ∧
    (Ends named σ none ↔ v.isObject = true ∧ p ∈ W.ownNames v ∧ refusal p = none) ∧
      (¬(v.isObject = true ∧ p ∈ W.ownNames v) → Ends named σ (some (.string failedCheck))) ∧
      (v.isObject = true → p ∈ W.ownNames v → ∀ err, refusal p = some err → Ends named σ (some err)) := by
  intro v refusal counted every named
  have hcounted := ends_countProps W e σ span hc hx place n
  have hevery := ends_everyProp W e σ span hc hx
  have hnamed : Ends named σ _ := ends_namedProp W e σ span hc place p
  refine ⟨⟨?_, fun h => ?_⟩, ⟨?_, fun h => ?_, fun hv err herr => ?_⟩, ?_, fun h => ?_, fun hv hp err herr => ?_⟩
  · rw [hcounted.iff, ite_eq_left_iff]
    simp [v, refusal]
  · rw [hcounted.iff] at h ⊢
    exact if_neg fun hpass => h (if_pos hpass)
  · rw [hevery.iff]
    cases (σ x).isObject with
    | false => simp [v]
    | true => simp [v, refusal]
  · rw [hevery.iff, if_neg (by simpa [v] using h)]
  · rw [hevery.iff, if_pos hv]
    exact herr
  · rw [hnamed.iff]
    by_cases hown : (σ x).isObject = true ∧ p ∈ W.ownNames (σ x)
    · simp [v, refusal, hown]
    · rw [if_neg hown]
      exact iff_of_false (Option.some_ne_none _) fun h => hown ⟨h.1, h.2.1⟩
  · rw [hnamed.iff, if_neg h]
  · rw [hnamed.iff, if_pos ⟨hv, hp⟩]
    exact herr

/-- Numbers pass, other values are refused. -/
def numbersOnly : World where
  own _ := ["a", "b"]
  property _ name := if name = "a" then .number 1 else .null
  assert v _ := match v with
    | .number _ => .ok v
    | _ => .error (.string "no number")

/-- An object with a number and another property: one property passes, not all do, and the one with the number is there. -/
theorem shapeChecks_end_numbersOnly :
    let e : Emitter := ⟨{}, .zero⟩
    let c : Contract := ⟨.zero, none, [.named .zero (.ident .zero "Num") [] []], none⟩
    let σ : Store := fun _ => .object 0
    ("v" ∉ checkVars ∧ Plain c) ∧
      Ends (numbersOnly.exec e.names (e.countProps (.ident .zero "v") (.number .zero (toString 1)) c)) σ none ∧
      Ends (numbersOnly.exec e.names (e.countProps (.ident .zero "v") (.number .zero (toString 2)) c)) σ
        (some (.string failedCheck)) ∧
      Ends (numbersOnly.exec e.names (e.everyProp (.ident .zero "v") c)) σ (some (.string "no number")) ∧
      Ends (numbersOnly.exec e.names (e.namedProp (.ident .zero "v") (.string .zero "a") c)) σ none := by
  intro e c σ
  have hx : "v" ∉ checkVars := by decide
  have hc : Plain c := ⟨by simp [c], by simp [c], rfl⟩
  have hone := shapeChecks_end numbersOnly e σ .zero .zero "v" hx c hc 1 "a"
  have htwo := shapeChecks_end numbersOnly e σ .zero .zero "v" hx c hc 2 "a"
  exact ⟨⟨hx, hc⟩, hone.1.1.mpr (by decide), htwo.1.2 (fun h => absurd (htwo.1.1.mp h) (by decide)),
    hone.2.1.2.2 rfl _ (by decide), hone.2.2.1.mpr (by decide)⟩

end LabelWeaver.Running
