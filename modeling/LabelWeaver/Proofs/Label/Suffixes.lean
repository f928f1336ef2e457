import LabelWeaver.Label.Layer
import LabelWeaver.Proofs.Grammar.Yields.Basic

/-! Suffixes of one binding. The order of suffixes of different kinds does not matter: the checks are told by the first
    contract for the value, the first one for every property, and the constraints on single properties and
    on their number in the order in which they are written. -/

namespace LabelWeaver

/-- A suffix of a binding: a contract for its value, or a constraint on the properties of the value. -/
inductive Suffix where
  | value (c : Contract)
  | shape (s : Shape)

def Shape.isEvery : Shape → Bool
  | every _ => true
  | _ => false

namespace Suffix

/-! ### The four kinds -/

def value? : Suffix → Option Contract
  | value c => some c
  | shape _ => none

def every? : Suffix → Option Contract
  | shape (.every c) => some c
  | _ => none

def named? : Suffix → Option (Expr × Contract)
  | shape (.named prop c) => some (prop, c)
  | _ => none

def atLeast? : Suffix → Option (Expr × Contract)
  | shape (.atLeast count c) => some (count, c)
  | _ => none

/-- The suffixes of each kind are the same, and stand in the same order. -/
structure SameByKind (ss ts : List Suffix) : Prop where
  value : ss.filterMap value? = ts.filterMap value?
  every : ss.filterMap every? = ts.filterMap every?
  named : ss.filterMap named? = ts.filterMap named?
  atLeast : ss.filterMap atLeast? = ts.filterMap atLeast?

end Suffix

/-! ### Demands -/

namespace Demand

/-- Adds what a suffix demands. -/
def add (d : Demand) : Suffix → Demand
  | .value c => d.expect c
  | .shape s => d.addShape s

/-- What a sequence of suffixes demands. -/
def ofSuffixes (ss : List Suffix) : Demand := ss.foldl add .none

/-- The demand has at most one constraint on every property. -/
def OneForEvery (d : Demand) : Prop := (d.shapes.filter Shape.isEvery).length ≤ 1

section
variable (d : Demand) (s : Suffix)

theorem every?_eq_none_iff : d.every? = Option.none ↔ d.shapes.filter Shape.isEvery = [] := by
  rw [every?, List.findSome?_eq_none_iff, List.filter_eq_nil_iff]
  refine forall₂_congr fun s _ => ?_
  cases s <;> simp [Shape.isEvery]

/-- Another constraint on every property is left out. -/
theorem addShape_every (c : Contract) :
    d.addShape (.every c) = if d.every?.isSome then d else { d with shapes := d.shapes ++ [.every c] } := by
  unfold addShape
  cases d.every? <;> rfl

theorem expected_add : (d.add s).expected = d.expected.or s.value? := by
  cases s with
  | value c => rfl
  | shape s =>
    rw [Suffix.value?, Option.or_none]
    cases s with
    | every c =>
      rw [add, addShape_every]
      split <;> rfl
    | named | atLeast => rfl

theorem every?_add : (d.add s).every? = d.every?.or s.every? := by
  cases s with
  | value c => exact Option.or_none.symm
  | shape s =>
    cases s with
    | every c =>
      rw [add, addShape_every]
      cases h : d.every? with
      | none =>
        rw [every?] at h
        simp [every?, Suffix.every?, h]
      | some c' => exact h
    | named | atLeast => simp [add, addShape, every?, Suffix.every?]

theorem named_add : (d.add s).named = d.named ++ s.named?.toList := by
  cases s with
  | value c => exact (List.append_nil _).symm
  | shape s =>
    cases s with
    | every c =>
      rw [add, addShape_every]
      split <;> simp [named, Suffix.named?]
    | named | atLeast => simp [add, addShape, named, Suffix.named?]

theorem counted_add : (d.add s).counted = d.counted ++ s.atLeast?.toList := by
  cases s with
  | value c => exact (List.append_nil _).symm
  | shape s =>
    cases s with
    | every c =>
      rw [add, addShape_every]
      split <;> simp [counted, Suffix.atLeast?]
    | named | atLeast => simp [add, addShape, counted, Suffix.atLeast?]

variable {d}

theorem OneForEvery.add (h : d.OneForEvery) : (d.add s).OneForEvery := by
  cases s with
  | value c => exact h
  | shape s =>
    cases s with
    | every c =>
      rw [Demand.add, addShape_every]
      cases hevery : d.every? with
      | none =>
        rw [every?_eq_none_iff] at hevery
        simpa [OneForEvery, hevery] using List.length_filter_le Shape.isEvery [.every c]
      | some c' => exact h
    | named | atLeast => simpa [OneForEvery, Demand.add, addShape, Shape.isEvery] using h

end

section
variable (d : Demand) (ss : List Suffix)

theorem expected_foldl_add : (ss.foldl add d).expected = d.expected.or (ss.filterMap Suffix.value?).head? := by
  induction ss generalizing d with
  | nil => exact Option.or_none.symm
  | cons s ss ih =>
    rw [List.foldl_cons, ih, expected_add, Option.or_assoc, List.filterMap_cons]
    cases s.value? <;> rfl

theorem every?_foldl_add : (ss.foldl add d).every? = d.every?.or (ss.filterMap Suffix.every?).head? := by
  induction ss generalizing d with
  | nil => exact Option.or_none.symm
  | cons s ss ih =>
    rw [List.foldl_cons, ih, every?_add, Option.or_assoc, List.filterMap_cons]
    cases s.every? <;> rfl

theorem named_foldl_add : (ss.foldl add d).named = d.named ++ ss.filterMap Suffix.named? := by
  induction ss generalizing d with
  | nil => exact (List.append_nil _).symm
  | cons s ss ih =>
    rw [List.foldl_cons, ih, named_add, List.append_assoc, List.filterMap_cons]
    cases s.named? <;> rfl

theorem counted_foldl_add : (ss.foldl add d).counted = d.counted ++ ss.filterMap Suffix.atLeast? := by
  induction ss generalizing d with
  | nil => exact (List.append_nil _).symm
  | cons s ss ih =>
    rw [List.foldl_cons, ih, counted_add, List.append_assoc, List.filterMap_cons]
    cases s.atLeast? <;> rfl

variable {d}

theorem OneForEvery.foldl_add (h : d.OneForEvery) : (ss.foldl Demand.add d).OneForEvery := by
  induction ss generalizing d with
  | nil => exact h
  | cons s ss ih => exact ih (h.add s)

end

end Demand

/-! ### Reading -/

namespace Label

open Parse

/-- One suffix, by itself. -/
def suffix? (r : Rules) : Parse (Option Suffix) := do
  match ← kind? with
  | some (.punct .colon) =>
    let _ ← advance
    return some (.value (← contract true r))
  | some (.marker .shapeEvery) =>
    let _ ← advance
    return some (.shape (.every (← contract true r)))
  | some (.marker .shapeNamed) =>
    let _ ← advance
    let (prop, c) ← shapeArgs r
    return some (.shape (.named prop c))
  | some (.marker .shapeCount) =>
    let _ ← advance
    let (count, c) ← shapeArgs r
    return some (.shape (.atLeast count c))
  | _ => return none

theorem suffix_eq (r : Rules) (d : Demand) : suffix r d = Option.map d.add <$> suffix? r := by
  rw [suffix, suffix?, map_bind]
  congr 1
  funext k
  split <;> simp [Demand.add]

/-- What is read behind a binding is a sequence of suffixes, which are added one after the other. -/
theorem exists_of_suffixes {r : Rules} {d d' : Demand} {c c' : Cursor} (h : suffixes r d c = .ok d' c') :
    ∃ ss : List Suffix, d' = ss.foldl Demand.add d := by
  have hloop : ∀ size d c, extendFrom (suffix r) size d c = .ok d' c' → ∃ ss : List Suffix, d' = ss.foldl Demand.add d := by
    intro size
    induction size with
    | zero => exact fun d c h => nomatch h
    | succ size ih =>
      intro d c h
      rw [Parse.extendFrom, suffix_eq, bind_map_left] at h
      obtain ⟨o, c₁, -, hrest⟩ := bind_eq_ok h
      cases o with
      | none =>
        cases hrest
        exact ⟨[], rfl⟩
      | some s =>
        obtain ⟨ss, hss⟩ := ih (d.add s) c₁ hrest
        exact ⟨s :: ss, hss⟩
  exact hloop _ d c h

end Label

/-! ### Checks -/

/-- The checks that a sequence of suffixes stands for: those of the first contract for the value, of the first one for
    every property, and of all constraints on single properties and then on their number, in order. So
    they are the same for all sequences that have the same suffixes of each kind, and all demands that are read are of this form. -/
theorem Emitter.demand_ofSuffixes (e : Emitter) (value : Expr) (ss : List Suffix) :
    (Demand.ofSuffixes ss).OneForEvery ∧
      e.demand value (.ofSuffixes ss) =
        (ss.filterMap Suffix.value?).head?.toList.flatMap (e.expectation value) ++
          (ss.filterMap Suffix.every?).head?.toList.map (e.everyProp value) ++
          (ss.filterMap Suffix.named?).map (fun (prop, c) => e.namedProp value prop c) ++
          (ss.filterMap Suffix.atLeast?).map (fun (count, c) => e.countProps value count c) ∧
      (∀ ts, Suffix.SameByKind ss ts → e.demand value (.ofSuffixes ts) = e.demand value (.ofSuffixes ss)) ∧
      ∀ r c d c', Label.suffixes r .none c = .ok d c' → ∃ ts, d = .ofSuffixes ts := by
  have hchecks : ∀ ss : List Suffix, e.demand value (.ofSuffixes ss) =
      (ss.filterMap Suffix.value?).head?.toList.flatMap (e.expectation value) ++
        (ss.filterMap Suffix.every?).head?.toList.map (e.everyProp value) ++
        (ss.filterMap Suffix.named?).map (fun (prop, c) => e.namedProp value prop c) ++
        (ss.filterMap Suffix.atLeast?).map (fun (count, c) => e.countProps value count c) := by
    intro ss
    have hexpected : (Demand.ofSuffixes ss).expected = (ss.filterMap Suffix.value?).head? := Demand.expected_foldl_add .none ss
    have hevery : (Demand.ofSuffixes ss).every? = (ss.filterMap Suffix.every?).head? := Demand.every?_foldl_add .none ss
    have hnamed : (Demand.ofSuffixes ss).named = ss.filterMap Suffix.named? := Demand.named_foldl_add .none ss
    have hcounted : (Demand.ofSuffixes ss).counted = ss.filterMap Suffix.atLeast? := Demand.counted_foldl_add .none ss
    rw [demand, hexpected, hevery, hnamed, hcounted]
    cases (ss.filterMap Suffix.value?).head? <;> simp
  refine ⟨Demand.OneForEvery.foldl_add ss (Nat.zero_le 1), hchecks ss, fun ts h => ?_, fun _ _ _ _ h => Label.exists_of_suffixes h⟩
  rw [hchecks, hchecks, h.value, h.every, h.named, h.atLeast]

/-- The contract that asks for a base type only. -/
private def typedAs (base : String) : Contract := ⟨.zero, some (.ident .zero base), [], none⟩

private def mixedSuffixes : List Suffix :=
  [.shape (.every (typedAs "A")), .value (typedAs "V"), .shape (.every (typedAs "B")), .shape (.named (.string .zero "p") (typedAs "P"))]

private def groupedSuffixes : List Suffix :=
  [.shape (.named (.string .zero "p") (typedAs "P")), .shape (.every (typedAs "A")), .shape (.every (typedAs "B")), .value (typedAs "V")]

/-- Two orders of a contract for the value, two constraints on every property and one on a single property. -/
theorem Emitter.demand_ofSuffixes_interleaved :
    Suffix.SameByKind mixedSuffixes groupedSuffixes ∧
      (Emitter.mk {} .zero).demand (.ident .zero "x") (.ofSuffixes groupedSuffixes) =
        (Emitter.mk {} .zero).expectation (.ident .zero "x") (typedAs "V") ++
          [(Emitter.mk {} .zero).everyProp (.ident .zero "x") (typedAs "A"),
            (Emitter.mk {} .zero).namedProp (.ident .zero "x") (.string .zero "p") (typedAs "P")] := by
  have hsame : Suffix.SameByKind mixedSuffixes groupedSuffixes := ⟨rfl, rfl, rfl, rfl⟩
  obtain ⟨-, hchecks, hsuffixes, -⟩ := demand_ofSuffixes ⟨{}, .zero⟩ (.ident .zero "x") mixedSuffixes
  exact ⟨hsame, (hsuffixes _ hsame).trans hchecks⟩

end LabelWeaver
