import LabelWeaver.Proofs.Instrument.Exact

/-! Which functions get checks. Whether a function needs checks is told by its annotations alone; the pass that puts the
    checks in goes through the same annotations once more. The two agree: a function that needs checks gets at least one
    statement more, and any other keeps its body. -/

namespace LabelWeaver

open Instrument

/-! ### Contracts and demands -/

theorem Emitter.expectation_eq_nil_iff {e : Emitter} {value : Expr} {c : Contract} :
    e.expectation value c = [] ↔ c.isEmpty = true := by
  obtain ⟨span, base, labels, condition⟩ := c
  simp [expectation, Contract.isEmpty, Option.toList_eq_nil_iff, and_assoc]

/-- The contract for the value itself, if there is one, asks for something. -/
def Demand.Asks (d : Demand) : Prop := ∀ c ∈ d.expected, c.isEmpty = false

/-- Every constraint on the properties is of one of the three kinds that are checked. -/
theorem Demand.shapes_eq_nil_iff {d : Demand} : d.shapes = [] ↔ d.every? = .none ∧ d.named = [] ∧ d.counted = [] := by
  rw [every?, named, counted, List.findSome?_eq_none_iff, List.filterMap_eq_nil_iff, List.filterMap_eq_nil_iff]
  constructor
  · intro h
    simp [h]
  · rintro ⟨hevery, hnamed, hcounted⟩
    refine List.eq_nil_iff_forall_not_mem.mpr fun s hs => ?_
    cases s with
    | every c => cases hevery _ hs
    | named prop c => cases hnamed _ hs
    | atLeast count c => cases hcounted _ hs

theorem Emitter.demand_eq_nil_iff {e : Emitter} {value : Expr} {d : Demand} (hd : d.Asks) :
    e.demand value d = [] ↔ d.isEmpty = true := by
  have hexpected : d.expected.elim [] (e.expectation value) = [] ↔ d.expected = none := by
    cases h : d.expected with
    | none => simp
    | some c => simp [expectation_eq_nil_iff, hd c h]
  simp only [demand, List.append_eq_nil_iff, List.map_eq_nil_iff, Option.toList_eq_nil_iff, hexpected, and_assoc]
  rw [← Demand.shapes_eq_nil_iff, Demand.isEmpty, Bool.and_eq_true, Option.isNone_iff_eq_none, List.isEmpty_iff]

/-! ### Functions -/

/-- What is demanded of the arguments and of the receiver asks for something wherever a contract is given. -/
structure Function.Asks (fn : Function) : Prop where
  receiver : ∀ d ∈ fn.receiver, d.Asks
  params : ∀ b ∈ fn.params.flatMap Pattern.bindings, b.demand.Asks

theorem preconditions_eq_nil_iff {e : Emitter} {fn : Function} (hfn : fn.Asks) :
    preconditions e fn = [] ↔ fn.condition = none ∧ (∀ d ∈ fn.receiver, d.isEmpty = true) ∧
      ∀ b ∈ fn.params.flatMap Pattern.bindings, b.demand.isEmpty = true := by
  have hreceiver : fn.receiver.elim [] (e.demand (.this e.anchor)) = [] ↔ ∀ d ∈ fn.receiver, d.isEmpty = true := by
    cases h : fn.receiver with
    | none => simp
    | some d => simp [Emitter.demand_eq_nil_iff (hfn.receiver d h)]
  have hparams : ((fn.params.flatMap Pattern.bindings).flatMap fun b => e.demand (e.reference b.name.text) b.demand) = [] ↔
      ∀ b ∈ fn.params.flatMap Pattern.bindings, b.demand.isEmpty = true := by
    rw [List.flatMap_eq_nil_iff]
    exact forall₂_congr fun b hb => Emitter.demand_eq_nil_iff (hfn.params b hb)
  rw [preconditions, List.append_eq_nil_iff, List.append_eq_nil_iff, hreceiver, hparams, List.map_eq_nil_iff,
    Option.toList_eq_nil_iff, and_assoc]

/-- A function needs checks if and only if there are some for its front or for the values that it returns. -/
theorem Function.needsChecks_eq_false_iff {e : Emitter} {fn : Function} (hfn : fn.Asks) :
    fn.needsChecks = false ↔ preconditions e fn = [] ∧ returnContract? fn = none := by
  have hreceiver : fn.receiver.any (!·.isEmpty) = false ↔ ∀ d ∈ fn.receiver, d.isEmpty = true := by
    cases fn.receiver <;> simp
  have hparams : (fn.params.flatMap Pattern.bindings).any (!·.demand.isEmpty) = false ↔
      ∀ b ∈ fn.params.flatMap Pattern.bindings, b.demand.isEmpty = true := by
    rw [List.any_eq_false]
    simp
  have hreturns : fn.returns.any (!·.isEmpty) = false ↔ returnContract? fn = none := by
    rw [returnContract?]
    cases fn.returns <;> simp
  rw [preconditions_eq_nil_iff hfn, needsChecks, Bool.or_eq_false_iff, Bool.or_eq_false_iff, Bool.or_eq_false_iff,
    hreceiver, hparams, hreturns, Option.isSome_eq_false_iff, Option.isNone_iff_eq_none]
  constructor
  · rintro ⟨⟨⟨h₁, h₂⟩, h₃⟩, h₄⟩
    exact ⟨⟨h₃, h₁, h₂⟩, h₄⟩
  · rintro ⟨⟨h₃, h₁, h₂⟩, h₄⟩
    exact ⟨⟨⟨h₁, h₂⟩, h₃⟩, h₄⟩

/-- Wrapping the returns of statements keeps their number. -/
theorem length_wrapList (e : Emitter) (c : Contract) (stmts : List Stmt) (checked : List Nat) :
    (wrapList e c stmts checked).1.length = stmts.length := by
  induction stmts generalizing checked with
  | nil => rfl
  | cons s rest ih => exact congrArg (· + 1) (ih _)

theorem Instrument.Added.isEmpty_eq_false_iff {a : Added} :
    a.isEmpty = false ↔ 0 < a.preconditions + a.wrappedReturns + a.tailChecks := by
  obtain ⟨pre, wrapped, tail⟩ := a
  rw [isEmpty, beq_eq_false_iff_ne, ne_eq, mk.injEq]
  dsimp only
  omega

/-- A contract for the returned values is checked at the end of the body, whatever stands there. -/
theorem Function.instrument_tail (names : RuntimeNames) {fn : Function} {body : Block} {c : Contract}
    (hbody : fn.body = .block body) (hfresh : fn.instrumented = false) (hreturns : returnContract? fn = some c) :
    (fn.instrument names).2.isEmpty = false ∧
      ∃ body', (fn.instrument names).1.body = .block body' ∧ body.stmts.length < body'.stmts.length := by
  have htail : tailChecks (.startingAt names body.span) body.span c ≠ [] := by
    have hc : c.isEmpty = false := by simpa using (Option.filter_eq_some_iff.mp hreturns).2
    rw [tailChecks, ne_eq, Emitter.expectation_eq_nil_iff, hc]
    exact Bool.false_ne_true
  have hlength := List.length_pos_iff.mpr htail
  rw [instrument, hfresh, if_neg Bool.false_ne_true, hbody]
  dsimp only
  rw [hreturns]
  dsimp only
  refine ⟨Added.isEmpty_eq_false_iff.mpr (Nat.lt_of_lt_of_le hlength (Nat.le_add_left _ _)), _, rfl, ?_⟩
  have hwrapped := length_wrapList (.startingAt names body.span) c
    (preconditions (.startingAt names body.span) fn ++ body.stmts) fn.checkedSites
  rw [List.length_append] at hwrapped
  dsimp only
  rw [List.length_append, hwrapped]
  omega

/-- Whether a function needs checks tells whether the pass adds something, by its report and by the body that it
    leaves; a function that needs none keeps its body. -/
theorem Function.needsChecks_iff_instrument (names : RuntimeNames) (fn : Function) (body : Block)
    (hbody : fn.body = .block body) (hfresh : fn.instrumented = false) (hfn : fn.Asks) :
    (fn.needsChecks = true ↔ (fn.instrument names).2.isEmpty = false) ∧
      (fn.needsChecks = true ↔
        ∃ body', (fn.instrument names).1.body = .block body' ∧ body.stmts.length < body'.stmts.length) ∧
      (fn.needsChecks = false → fn.instrument names = ({ fn with instrumented := true }, {})) := by
  have hneeds := needsChecks_eq_false_iff (e := .startingAt names body.span) hfn
  obtain ⟨span, stmts⟩ := body
  cases hreturns : returnContract? fn with
  | some c =>
    obtain ⟨hadded, hlonger⟩ := instrument_tail names hbody hfresh hreturns
    have htrue : fn.needsChecks = true := by
      rw [hreturns] at hneeds
      exact Bool.of_not_eq_false fun h => nomatch (hneeds.mp h).2
    exact ⟨iff_of_true htrue hadded, iff_of_true htrue hlonger, fun h => absurd htrue (by rw [h]; decide)⟩
  | none =>
    have htrue : fn.needsChecks = true ↔ 0 < (preconditions (.startingAt names span) fn).length := by
      rw [hreturns] at hneeds
      rw [← Bool.not_eq_false, hneeds, List.length_pos_iff]
      simp
    rw [instrument_of_none hbody hfresh hreturns, htrue, Added.isEmpty_eq_false_iff]
    refine ⟨Iff.rfl, ⟨fun h => ⟨_, rfl, ?_⟩, ?_⟩, fun h => ?_⟩
    · dsimp only
      rw [List.length_append]
      omega
    · rintro ⟨_, ⟨⟩, h⟩
      dsimp only at h
      rw [List.length_append] at h
      omega
    · rw [(hneeds.mp h).1, hbody]
      rfl

/-- A function with the contract `A` for what stands at a place inside its only parameter. -/
private def guarded : Function :=
  { Function.blank ⟨0, 9⟩ none false with
    params := [.array ⟨1, 3⟩ [none, some (.name ⟨⟨2, 1⟩, ⟨⟨2, 1⟩, "a"⟩, ⟨some ⟨⟨3, 1⟩, some (.ident ⟨3, 1⟩ "A"), [], none⟩, []⟩⟩)]]
    receiver := some .none }

/-- A name inside a pattern gets its check; a receiver of which nothing is demanded gets none. -/
theorem Function.needsChecks_iff_instrument_inside :
    guarded.needsChecks = true ∧ (guarded.instrument {}).2 = { preconditions := 1 } ∧
      ∃ body', (guarded.instrument {}).1.body = .block body' ∧ 0 < body'.stmts.length := by
  have hasks : guarded.Asks := ⟨by rintro d ⟨⟩; nofun, by simp [guarded, Pattern.bindings, elementBindings, Demand.Asks, Contract.isEmpty]⟩
  obtain ⟨-, hlonger, -⟩ := needsChecks_iff_instrument {} guarded ⟨⟨0, 9⟩, []⟩ rfl rfl hasks
  exact ⟨rfl, rfl, hlonger.mp rfl⟩

end LabelWeaver
