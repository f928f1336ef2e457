import LabelWeaver.Label.Layer

/-! Receivers in parameter lists. Suffixes without a name hold the place of the receiver. Such a place may
    stand in a list once, as a parameter of its own; taking it out leaves the other parameters in
    their order. -/

namespace LabelWeaver

/-! ### Patterns and what they are made of -/

/-- The pattern that a property has inside; a shorthand has none. -/
def PatternProp.target? : PatternProp → Option Pattern
  | keyValue _ p | rest p => some p
  | shorthand _ _ => none

/-- The first pattern is the second one, or one of those that it is made of. -/
inductive Pattern.Part : Pattern → Pattern → Prop where
  | self (p : Pattern) : Part p p
  | element {p q : Pattern} {s : Span} {es : List (Option Pattern)} (hq : some q ∈ es) (h : Part p q) :
      Part p (.array s es)
  | property {p q : Pattern} {s : Span} {ps : List PatternProp} {prop : PatternProp} (hprop : prop ∈ ps)
      (hq : prop.target? = some q) (h : Part p q) : Part p (.object s ps)
  | target {p q : Pattern} {s : Span} {e : Expr} (h : Part p q) : Part p (.withDefault s q e)
  | rest {p q : Pattern} {s : Span} (h : Part p q) : Part p (.rest s q)

/-- What the pattern asks of the receiver, if it holds its place. -/
def Pattern.receiver? : Pattern → Option Demand
  | this _ d => some d
  | _ => none

def Pattern.isThis (p : Pattern) : Bool := p.receiver?.isSome

/-- No receiver has its place in the pattern. -/
def Pattern.Clear (p : Pattern) : Prop := ∀ q : Pattern, q.Part p → q.isThis = false

theorem elementsFindThis?_eq_none {es : List (Option Pattern)} :
    elementsFindThis? es = none ↔ ∀ p, some p ∈ es → p.findThis? = none := by
  induction es with
  | nil => exact iff_of_true rfl nofun
  | cons e es ih =>
    cases e with
    | none => simpa [elementsFindThis?] using ih
    | some p => simp [elementsFindThis?, Option.or_eq_none_iff, ih]

theorem propertiesFindThis?_eq_none {ps : List PatternProp} :
    propertiesFindThis? ps = none ↔ ∀ p ∈ ps, ∀ q, p.target? = some q → q.findThis? = none := by
  induction ps with
  | nil => exact iff_of_true rfl nofun
  | cons p ps ih =>
    cases p with
    | keyValue k q => simp [propertiesFindThis?, PatternProp.target?, Option.or_eq_none_iff, ih]
    | shorthand b e => simp [propertiesFindThis?, PatternProp.target?, ih]
    | rest q => simp [propertiesFindThis?, PatternProp.target?, Option.or_eq_none_iff, ih]

theorem Pattern.Part.findThis? {p q : Pattern} (h : p.Part q) (hq : q.findThis? = none) : p.findThis? = none := by
  induction h with
  | self => exact hq
  | element hmem _ ih => exact ih (elementsFindThis?_eq_none.mp hq _ hmem)
  | property hmem htarget _ ih => exact ih (propertiesFindThis?_eq_none.mp hq _ hmem _ htarget)
  | target _ ih => exact ih hq
  | rest _ ih => exact ih hq

mutual

theorem Pattern.Clear.findThis? : ∀ {p : Pattern}, p.Clear → p.findThis? = none
  | .name _, _ => rfl
  | .this _ _, h => nomatch h _ (.self _)
  | .array _ es, h => elements_clear es fun _ hp q hq => h q (.element hp hq)
  | .object _ ps, h => properties_clear ps fun _ hp _ htarget q hq => h q (.property hp htarget hq)
  | .withDefault _ p _, h => Pattern.Clear.findThis? (p := p) fun q hq => h q (.target hq)
  | .rest _ p, h => Pattern.Clear.findThis? (p := p) fun q hq => h q (.rest hq)

theorem elements_clear : ∀ es : List (Option Pattern), (∀ p, some p ∈ es → p.Clear) → elementsFindThis? es = none
  | [], _ => rfl
  | none :: es, h => elements_clear es fun p hp => h p (List.mem_cons_of_mem _ hp)
  | some p :: es, h => by
    rw [elementsFindThis?, Pattern.Clear.findThis? (h p List.mem_cons_self), Option.none_or]
    exact elements_clear es fun p hp => h p (List.mem_cons_of_mem _ hp)

theorem properties_clear : ∀ ps : List PatternProp, (∀ p ∈ ps, ∀ q, p.target? = some q → q.Clear) →
    propertiesFindThis? ps = none
  | [], _ => rfl
  | .keyValue _ p :: ps, h => by
    rw [propertiesFindThis?, Pattern.Clear.findThis? (h _ List.mem_cons_self p rfl), Option.none_or]
    exact properties_clear ps fun p hp => h p (List.mem_cons_of_mem _ hp)
  | .shorthand _ _ :: ps, h => properties_clear ps fun p hp => h p (List.mem_cons_of_mem _ hp)
  | .rest p :: ps, h => by
    rw [propertiesFindThis?, Pattern.Clear.findThis? (h _ List.mem_cons_self p rfl), Option.none_or]
    exact properties_clear ps fun p hp => h p (List.mem_cons_of_mem _ hp)

end

/-- The search finds a receiver wherever it has its place. -/
theorem Pattern.findThis?_eq_none_iff {p : Pattern} : p.findThis? = none ↔ p.Clear := by
  refine ⟨fun h q hq => ?_, Clear.findThis?⟩
  have hnone := hq.findThis? h
  cases q with
  | this => cases hnone
  | _ => rfl

instance (p : Pattern) : Decidable p.Clear := decidable_of_iff _ Pattern.findThis?_eq_none_iff

/-! ### Parameter lists -/

/-- The place of a receiver, or one with a default value, which is refused. -/
def Pattern.isReceiver : Pattern → Bool
  | .this _ _ | .withDefault _ (.this _ _) _ => true
  | _ => false

/-- A parameter that is no receiver stays, unless a receiver is hidden in it. -/
theorem takeReceiver_cons {p : Pattern} (h : p.isReceiver = false) (seen : Option Demand) (ps : List Pattern) :
    Label.takeReceiver seen (p :: ps) =
      match p.findThis? with
      | some span => .error ⟨.receiverInsidePattern, span⟩
      | none => do
        let (d, params) ← Label.takeReceiver seen ps
        return (d, p :: params) := by
  cases p with
  | this => cases h
  | withDefault s t e =>
    cases t with
    | this => cases h
    | _ => rfl
  | _ => rfl

namespace Label

variable {ps qs : List Pattern} {seen d : Option Demand}

/-- A receiver has its place in the list at most once, and as a parameter of its own: not below a
    default value, not inside a pattern and not behind dots. -/
structure WellPlaced (ps : List Pattern) : Prop where
  once : (ps.filter Pattern.isThis).length ≤ 1
  apart : ∀ p ∈ ps, p.isThis = false → p.Clear

/-- The parameters besides the receiver, in their order. -/
def ownParams (ps : List Pattern) : List Pattern := ps.filter (!·.isThis)

/-- What the list asks of the receiver. -/
def listed? (ps : List Pattern) : Option Demand := ps.findSome? Pattern.receiver?

instance (ps : List Pattern) : Decidable (WellPlaced ps) :=
  decidable_of_iff ((ps.filter Pattern.isThis).length ≤ 1 ∧ ∀ p ∈ ps, p.isThis = false → p.Clear)
    ⟨fun h => ⟨h.1, h.2⟩, fun h => ⟨h.1, h.2⟩⟩

theorem listed?_eq_none_iff : listed? ps = none ↔ ps.filter Pattern.isThis = [] := by
  simp [listed?, Pattern.isThis, List.findSome?_eq_none_iff, List.filter_eq_nil_iff]

theorem wellPlaced_nil : WellPlaced [] := ⟨Nat.zero_le 1, nofun⟩

theorem wellPlaced_this {s : Span} {d : Demand} : WellPlaced (.this s d :: ps) ↔ WellPlaced ps ∧ listed? ps = none := by
  have hfilter : (Pattern.this s d :: ps).filter Pattern.isThis = .this s d :: ps.filter Pattern.isThis := rfl
  rw [listed?_eq_none_iff]
  constructor
  · rintro ⟨honce, hapart⟩
    have hnone : ps.filter Pattern.isThis = [] := by
      rw [hfilter, List.length_cons] at honce
      exact List.length_eq_zero_iff.mp (by omega)
    exact ⟨⟨by simp [hnone], fun p hp => hapart p (List.mem_cons_of_mem _ hp)⟩, hnone⟩
  · rintro ⟨⟨-, hapart⟩, hnone⟩
    exact ⟨by rw [hfilter, hnone]; exact Nat.le_refl 1, List.forall_mem_cons.mpr ⟨nofun, hapart⟩⟩

theorem wellPlaced_cons {p : Pattern} (hp : p.isThis = false) : WellPlaced (p :: ps) ↔ p.Clear ∧ WellPlaced ps := by
  refine ⟨fun h => ?_, fun ⟨hclear, h⟩ => ⟨by simpa [hp] using h.once, ?_⟩⟩
  · obtain ⟨hclear, hrest⟩ := List.forall_mem_cons.mp h.apart
    exact ⟨hclear hp, by simpa [hp] using h.once, hrest⟩
  · rw [List.forall_mem_cons]
    exact ⟨fun _ => hclear, h.apart⟩

/-- A parameter other than a receiver stays, unless it has one inside. -/
theorem takeReceiver_cons_eq_ok {p : Pattern} (hp : p.isThis = false) :
    takeReceiver seen (p :: ps) = .ok (d, qs) ↔
      p.Clear ∧ ∃ own, takeReceiver seen ps = .ok (d, own) ∧ qs = p :: own := by
  rw [← Pattern.findThis?_eq_none_iff]
  cases hreceiver : p.isReceiver with
  | true =>
    -- a receiver with a default value
    cases p with
    | this => cases hp
    | withDefault s t e =>
      cases t with
      | this => exact iff_of_false nofun fun h => nomatch h.1
      | _ => cases hreceiver
    | _ => cases hreceiver
  | false =>
    rw [takeReceiver_cons hreceiver]
    split
    · next hfind => simp [hfind]
    · next hfind =>
      cases htake : takeReceiver seen ps with
      | error e => exact iff_of_false nofun fun ⟨_, _, h, _⟩ => nomatch h
      | ok found =>
        obtain ⟨d', own⟩ := found
        constructor
        · rintro ⟨⟩
          exact ⟨hfind, own, rfl, rfl⟩
        · rintro ⟨-, _, ⟨⟩, rfl⟩
          rfl

/-- Taking the receiver out succeeds if its place is right, and gives what the list asks of it and the
    other parameters. With a receiver found before there may be none in the list. -/
theorem takeReceiver_eq_ok_iff :
    takeReceiver seen ps = .ok (d, qs) ↔
      WellPlaced ps ∧ (seen.isSome = true → listed? ps = none) ∧ d = seen.or (listed? ps) ∧ qs = ownParams ps := by
  induction ps generalizing seen d qs with
  | nil =>
    constructor
    · rintro ⟨⟩
      exact ⟨wellPlaced_nil, fun _ => rfl, (Option.or_none).symm, rfl⟩
    · rintro ⟨-, -, rfl, rfl⟩
      rw [listed?, List.findSome?_nil, Option.or_none]
      rfl
  | cons p ps ih =>
    cases hp : p.isThis with
    | true =>
      cases p with
      | this s x =>
        have hlisted : listed? (.this s x :: ps) = some x := rfl
        have hown : ownParams (.this s x :: ps) = ownParams ps := rfl
        rw [wellPlaced_this, hlisted, hown, takeReceiver]
        cases seen with
        | some _ => exact iff_of_false nofun fun h => nomatch h.2.1 rfl
        | none =>
          rw [if_neg (by simp), ih]
          constructor
          · rintro ⟨hplaced, hnone, rfl, rfl⟩
            exact ⟨⟨hplaced, hnone rfl⟩, nofun, by rw [hnone rfl]; rfl, rfl⟩
          · rintro ⟨⟨hplaced, hnone⟩, -, rfl, rfl⟩
            exact ⟨hplaced, fun _ => hnone, by rw [hnone]; rfl, rfl⟩
      | _ => cases hp
    | false =>
      have hlisted : listed? (p :: ps) = listed? ps := by
        have hnone : p.receiver? = none := by simpa [Pattern.isThis] using hp
        simp [listed?, hnone]
      have hown : ownParams (p :: ps) = p :: ownParams ps := List.filter_cons_of_pos (by simp [hp])
      rw [takeReceiver_cons_eq_ok hp, wellPlaced_cons hp, hlisted, hown]
      constructor
      · rintro ⟨hclear, own, htake, rfl⟩
        obtain ⟨hplaced, hseen, hd, rfl⟩ := ih.mp htake
        exact ⟨⟨hclear, hplaced⟩, hseen, hd, rfl⟩
      · rintro ⟨⟨hclear, hplaced⟩, hseen, hd, rfl⟩
        exact ⟨hclear, _, ih.mpr ⟨hplaced, hseen, hd, rfl⟩, rfl⟩

/-- What is left when the receiver is taken out holds no place for one. -/
theorem findThis?_of_takeReceiver (h : takeReceiver seen ps = .ok (d, qs)) : ∀ q ∈ qs, q.findThis? = none := by
  obtain ⟨hplaced, -, -, rfl⟩ := takeReceiver_eq_ok_iff.mp h
  intro q hq
  obtain ⟨hmem, hthis⟩ := List.mem_filter.mp hq
  exact Pattern.findThis?_eq_none_iff.mpr (hplaced.apart q hmem (by simpa using hthis))

end Label

end LabelWeaver
