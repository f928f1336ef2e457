import LabelWeaver.Proofs.Grammar.Recovers.Atoms

/-! Keys of properties and binding patterns. In the head of a loop they are read as elsewhere, except
    that `in` is no operator in them; so they, too, may expose one. -/

namespace LabelWeaver

open Layout Parse

/-! ### Keys -/

/-- The text stands for the key of a property. -/
structure ReadableKey (exposes : Bool) (lo hi : Nat) (ks : Text) (key : PropKey) : Prop where
  starts : ∃ k ks', ks = some k :: ks' ∧ (k = .punct .lbracket ∨ ∀ p, k ≠ .punct p)
  balanced : Balanced ks
  reads : ∀ {b}, (b = true → exposes = false) → Calling b (fun _ => True) lo hi ks Grammar.propKey (·.bare = key)

namespace ReadableKey

variable {exposes calls : Bool} {lo hi : Nat} {ks : Text} {k : Token.Kind} {x : String} {e : Expr} {key : PropKey}

theorem first_ne {p : Punct} (h : ReadableKey exposes lo hi ks key) (hp : p ≠ .lbracket) (rest : Text) :
    first (ks ++ rest) ≠ .punct p := by
  obtain ⟨k, ks', rfl, rfl | hk⟩ := h.starts
  · intro heq
    exact hp (Token.Kind.punct.inj heq).symm
  · exact hk p

theorem step_of_propertyText? (hk : k.propertyText? = some x) (depth : Nat) : step depth (some k) = some depth := by
  cases k with
  | punct | eof => cases hk
  | _ => rfl

theorem ne_punct_of_propertyText? (hk : k.propertyText? = some x) (p : Punct) : k ≠ .punct p := by
  rintro rfl
  cases hk

theorem name (hk : k.propertyText? = some x) : ReadableKey false lo lo [some k] (.name ⟨.zero, x⟩) where
  starts := ⟨k, [], rfl, .inr (ne_punct_of_propertyText? hk)⟩
  balanced := Balanced.nil.token (step_of_propertyText? hk)
  reads _ _ _ _ _ _ _ _ _ hc := by
    refine .advance hc (by rintro rfl; cases hk) fun t c₁ ht h₁ => ?_
    rw [ht]
    cases k with
    | reserved | contextual | ident => cases hk; exact .pure ⟨h₁, rfl⟩
    | _ => cases hk

theorem string (value : String) : ReadableKey false lo lo [some (.string value)] (.string value) where
  starts := ⟨_, [], rfl, .inr fun _ => nofun⟩
  balanced := Balanced.nil.token fun _ => rfl
  reads _ _ _ _ _ _ _ _ _ hc := by
    refine .advance hc nofun fun t c₁ ht h₁ => ?_
    rw [ht]
    exact .pure ⟨h₁, rfl⟩

theorem number (text : String) : ReadableKey false lo lo [some (.number text)] (.number text) where
  starts := ⟨_, [], rfl, .inr fun _ => nofun⟩
  balanced := Balanced.nil.token fun _ => rfl
  reads _ _ _ _ _ _ _ _ _ hc := by
    refine .advance hc nofun fun t c₁ ht h₁ => ?_
    rw [ht]
    exact .pure ⟨h₁, rfl⟩

theorem computed (h : Readable .assign exposes calls lo hi ks e) :
    ReadableKey exposes lo hi (some (.punct .lbracket) :: (ks ++ [some (Token.Kind.punct .rbracket)])) (.computed e) where
  starts := ⟨_, _, rfl, .inl rfl⟩
  balanced := .enclosed isPair_brackets h.balanced .nil
  reads hb d m hm c line rest hcount _ hc := by
    rw [List.cons_append, List.append_assoc, List.singleton_append] at hc hcount
    rw [count_some] at hcount
    refine .advance hc nofun fun t c₁ ht h₁ => ?_
    rw [ht]
    refine (h.callAssign hb hm (by omega) (ends_of_none rfl) h₁).andThen fun a c₂ h₂ => ?_
    exact .expect h₂.1 nofun fun _ c₃ _ h₃ => .pure ⟨h₃, congrArg PropKey.computed h₂.2⟩

end ReadableKey

/-! ### Patterns -/

/-- The token starts a pattern without dots. -/
def Token.Kind.startsBinding : Token.Kind → Bool
  | ident _ | punct .lbracket | punct .lbrace => true
  | _ => false

/-- The text stands for a pattern. Only one without a default value and without dots is read as a
    target of its own. -/
structure ReadablePattern (exposes : Bool) (lo hi : Nat) (ks : Text) (p : Pattern) : Prop where
  starts : ∃ k ks', ks = some k :: ks' ∧ if p.isRest then k = .punct .ellipsis else k.startsBinding = true
  balanced : Balanced ks
  binding : p.isBinding = true → ∀ {b}, (b = true → exposes = false) →
    Reading b (fun _ => True) lo hi ks (Grammar.binding []) (·.bare = p)
  element : p.isRest = false → ∀ {b}, (b = true → exposes = false) →
    Calling b (Ends false .assign) lo hi ks (fun r => Grammar.bindingElement r.binding r) (·.bare = p)
  dots : p.isRest = true → ∀ {b}, (b = true → exposes = false) →
    Calling b (fun _ => True) lo hi ks Grammar.restElement (·.bare = p)

namespace ReadablePattern

variable {exposes exposes' calls b : Bool} {lo mid hi : Nat} {k : Token.Kind} {ks ks' : Text} {x : String} {e : Expr}
  {p : Pattern}

theorem first_ne {k : Token.Kind} (h : ReadablePattern exposes lo hi ks p) (hk : k ≠ .punct .ellipsis)
    (hstart : k.startsBinding = false) (rest : Text) : first (ks ++ rest) ≠ k := by
  obtain ⟨k', ks', rfl, hk'⟩ := h.starts
  split at hk'
  · rw [hk']
    exact hk.symm
  · rintro rfl
    cases hstart.symm.trans hk'

theorem callBinding (h : ReadablePattern exposes lo hi ks p) (hp : p.isBinding = true) (hb : b = true → exposes = false) :
    Calling b (fun _ => True) lo hi ks Rules.binding (·.bare = p) :=
  (h.binding hp hb).calling fun _ _ => rfl

/-- Any pattern is an element of a list. -/
theorem item (h : ReadablePattern exposes lo hi ks p) (hb : b = true → exposes = false) :
    Calling b (Ends false .assign) lo hi ks Grammar.listElement (·.bare = p) := by
  intro d m hm c line rest hcount hrest hc
  obtain ⟨k, ks', rfl, hk⟩ := h.starts
  refine .isAt hc ?_
  rw [List.cons_append, first_some]
  split at hk
  · next hp =>
    rw [hk]
    exact h.dots hp hb hm hcount trivial hc
  · next hp =>
    have hdots : k.sameSort (.punct .ellipsis) = false := by
      cases k with
      | punct p => cases p <;> first | rfl | cases hk
      | _ => rfl
    rw [hdots]
    exact h.element (eq_false_of_ne_true hp) hb hm hcount hrest hc

/-- A pattern without a default value. -/
theorem ofBinding (hk : k.startsBinding = true) (hp : p.isBinding = true) (hbalanced : Balanced (some k :: ks))
    (h : ∀ {b}, (b = true → exposes = false) →
      Reading b (fun _ => True) lo hi (some k :: ks) (Grammar.baseBinding) (·.bare = p)) :
    ReadablePattern exposes lo hi (some k :: ks) p := by
  have hrest : p.isRest = false := by cases p <;> first | rfl | cases hp
  refine ⟨⟨k, ks, rfl, by rw [hrest]; exact hk⟩, hbalanced, fun _ => h, fun _ b hb => ?_, fun hdots => ?_⟩
  · intro d m hm c line rest hcount hrest hc
    have hcalling := (h hb).calling (q := Rules.binding) fun _ _ => rfl
    refine (hcalling hm hcount trivial hc).andThen fun a c₁ h₁ => .pass h₁.1 ?_ (.pure h₁)
    simpa using hrest.ne (.punct .eq) rfl (by decide)
  · cases hrest.symm.trans hdots

theorem name (x : String) :
    ReadablePattern false lo lo [some (.ident x)] (.name ⟨.zero, ⟨.zero, x⟩, .none⟩) := by
  refine ofBinding rfl rfl (Balanced.nil.token fun _ => rfl) fun {b} _ d c line rest hcount _ hc => ?_
  refine .kind? hc (.expectIdent hc fun name c₁ hname h₁ => .pure ⟨h₁, ?_⟩)
  change Pattern.name ⟨.zero, name.bare, Demand.none.bare⟩ = _
  rw [Name.bare_eq hname]
  rfl

theorem withDefault (h : ReadablePattern exposes lo mid ks p) (hp : p.isBinding = true)
    (h' : Readable .assign exposes' calls mid hi ks' e) :
    ReadablePattern (exposes || exposes') lo hi (ks ++ some (Token.Kind.punct .eq) :: ks') (.withDefault .zero p e) where
  starts := by
    obtain ⟨k, ks₀, rfl, hk⟩ := h.starts
    have hrest : p.isRest = false := by cases p <;> first | rfl | cases hp
    rw [hrest] at hk
    exact ⟨k, _, rfl, hk⟩
  balanced := h.balanced.append (h'.balanced.token fun _ => rfl)
  binding := nofun
  element _ b hb d m hm c line rest hcount hrest hc := by
    rw [List.append_assoc, List.cons_append] at hc hcount
    have hexposes : b = true → exposes = false ∧ exposes' = false := by simpa using hb
    have htarget := h.callBinding hp (fun hb' => (hexposes hb').1) hm hcount trivial hc
    refine htarget.andThen fun a c₁ h₁ => .eat h₁.1 rfl fun c₂ h₂ => ?_
    rw [count_append, count_some] at hcount
    have hvalue := h'.callAssign (fun hb' => (hexposes hb').2) hm (by omega) hrest h₂
    exact hvalue.andThen fun a' c₃ h₃ => .pure ⟨h₃.1, congrArg₂ (Pattern.withDefault .zero) h₁.2 h₃.2⟩
  dots := nofun

theorem rest (h : ReadablePattern exposes lo hi ks p) (hp : p.isBinding = true) :
    ReadablePattern exposes lo hi (some (.punct .ellipsis) :: ks) (.rest .zero p) where
  starts := ⟨_, _, rfl, rfl⟩
  balanced := h.balanced.token fun _ => rfl
  binding := nofun
  element := nofun
  dots _ b hb d m hm c line rest hcount _ hc := by
    rw [List.cons_append, count_some] at hcount
    refine .expect hc nofun fun _ c₁ _ h₁ => ?_
    refine (h.callBinding hp hb hm (by omega) trivial h₁).andThen fun a c₂ h₂ => .pure ⟨h₂.1, ?_⟩
    exact congrArg (Pattern.rest .zero) h₂.2

section
variable {ι : Type} {t : ι → Text} {f : ι → Pattern}

theorem array {xs : List (Option ι)}
    (hrun : Run (Maybe fun lo hi x => ReadablePattern exposes lo hi (t x) (f x)) lo hi xs) :
    ReadablePattern exposes lo hi
      (some (.punct .lbracket) :: (elementTexts (xs.map (Option.map t)) ++ [some (Token.Kind.punct .rbracket)]))
      (.array .zero (xs.map (Option.map f))) := by
  have hbalanced : Balanced (elementTexts (xs.map (Option.map t))) := by
    refine .elementTexts fun ks hks => ?_
    obtain ⟨x, hx, hxks⟩ := List.mem_map.mp hks
    obtain ⟨x, rfl, rfl⟩ := Option.map_eq_some_iff.mp hxks
    obtain ⟨_, _, hitem⟩ := hrun.mem hx
    exact ReadablePattern.balanced hitem
  refine ofBinding rfl rfl (.enclosed isPair_brackets hbalanced .nil) fun {b} hb d c line rest hcount hrest hc => ?_
  rw [List.cons_append, List.append_assoc, List.singleton_append] at hc hcount
  rw [count_some] at hcount
  refine .kind? hc (.expect hc nofun fun _ c₁ _ h₁ => ?_)
  have helements : Gives c₁ (elements (.punct .rbracket) (Grammar.listElement (Grammar.rules [] d)))
      fun ps c' => c'.Ready false b hi (some (.punct .rbracket) :: rest) ∧
        List.Forall₂ (Option.Rel fun x (p : Pattern) => p.bare = f x) xs ps :=
    .elements (by decide) (fun hx => hx.item hb (Nat.lt_of_succ_le hcount))
      (fun hx ks => ⟨hx.first_ne (by decide) rfl ks, hx.first_ne (by decide) rfl ks⟩) ⟨ends_comma, ends_of_none rfl⟩ hrun
      rfl (Nat.le_refl _) h₁
  refine helements.andThen fun ps c₂ h₂ => .expect h₂.1 nofun fun _ c₃ _ h₃ => .pure ⟨h₃, ?_⟩
  change Pattern.array .zero (Bare.patternElements ps) = _
  rw [Bare.patternElements_eq, map_eq_of_forall₂_rel h₂.2]

end

end ReadablePattern

/-! ### Properties of patterns -/

/-- What follows a property. -/
def EndsProperty (k : Token.Kind) : Prop := k = .punct .comma ∨ k = .punct .rbrace

theorem EndsProperty.assign {k : Token.Kind} (h : EndsProperty k) : Ends false .assign k := by
  rcases h with rfl | rfl
  · exact ends_comma
  · exact ends_of_none rfl

theorem EndsProperty.sameSort {k : Token.Kind} {p : Punct} (h : EndsProperty k) (hp : p ≠ .comma ∧ p ≠ .rbrace) :
    k.sameSort (.punct p) = false := by
  rcases h with rfl | rfl
  · simpa using hp.1.symm
  · simpa using hp.2.symm

/-- The text stands for a property of an object pattern. -/
structure ReadablePatternProp (exposes : Bool) (lo hi : Nat) (ks : Text) (p : PatternProp) : Prop where
  starts : ∀ rest, first (ks ++ rest) ≠ .punct .rbrace
  balanced : Balanced ks
  reads : ∀ {b}, (b = true → exposes = false) → Calling b EndsProperty lo hi ks Grammar.patternProp (·.bare = p)

namespace ReadablePatternProp

variable {exposes exposes' calls : Bool} {lo mid hi : Nat} {k : Token.Kind} {ks ks' : Text} {x : String} {e : Expr}
  {p : Pattern} {key : PropKey}

theorem keyValue (h : ReadableKey exposes lo mid ks key) (h' : ReadablePattern exposes' mid hi ks' p)
    (hp : p.isRest = false) :
    ReadablePatternProp (exposes || exposes') lo hi (ks ++ some (Token.Kind.punct .colon) :: ks') (.keyValue key p) where
  starts rest := by
    rw [List.append_assoc]
    exact h.first_ne (by decide) _
  balanced := h.balanced.append (h'.balanced.token fun _ => rfl)
  reads {b} hb d m hm c line rest hcount hrest hc := by
    rw [List.append_assoc, List.cons_append] at hc hcount
    have hexposes : b = true → exposes = false ∧ exposes' = false := by simpa using hb
    have hdots := h.first_ne (p := .ellipsis) (by decide) (some (.punct .colon) :: (ks' ++ rest))
    refine .isAt hc ?_
    rw [Token.Kind.sameSort_punct, beq_eq_false_iff_ne.mpr hdots]
    refine (h.reads (fun hb' => (hexposes hb').1) hm hcount trivial hc).andThen fun a c₁ h₁ => ?_
    rw [count_append, count_some] at hcount
    refine .eat h₁.1 rfl fun c₂ h₂ => ?_
    have helement := h'.element hp (fun hb' => (hexposes hb').2) hm (by omega) hrest.assign h₂
    exact helement.andThen fun a' c₃ h₃ => .pure ⟨h₃.1, congrArg₂ PatternProp.keyValue h₁.2 h₃.2⟩

theorem eq_name_of_bare {key : PropKey} {name : Name} (h : key.bare = .name name) :
    ∃ n, key = .name n ∧ n.bare = name := by
  cases key with
  | name n => exact ⟨n, rfl, PropKey.name.inj h⟩
  | _ => cases h

theorem shorthand (hk : k.propertyText? = some x) :
    ReadablePatternProp false lo lo [some k] (.shorthand ⟨.zero, ⟨.zero, x⟩, .none⟩ none) where
  starts _ := ReadableKey.ne_punct_of_propertyText? hk _
  balanced := Balanced.nil.token (ReadableKey.step_of_propertyText? hk)
  reads hb d m hm c line rest hcount hrest hc := by
    refine .isAt hc ?_
    rw [List.singleton_append, first_some, Token.Kind.sameSort_punct,
      beq_eq_false_iff_ne.mpr (ReadableKey.ne_punct_of_propertyText? hk _)]
    refine ((ReadableKey.name hk).reads hb hm hcount trivial hc).andThen fun key c₁ h₁ => ?_
    obtain ⟨name, rfl, hname⟩ := eq_name_of_bare h₁.2
    refine .pass h₁.1 (hrest.sameSort (by decide)) (.pass h₁.1 (hrest.sameSort (by decide)) (.pure ⟨h₁.1, ?_⟩))
    change PatternProp.shorthand ⟨.zero, name.bare, Demand.none.bare⟩ none = _
    rw [hname]
    rfl

theorem shorthandDefault (hk : k.propertyText? = some x) (h : Readable .assign exposes calls lo hi ks e) :
    ReadablePatternProp exposes lo hi (some k :: some (.punct .eq) :: ks)
      (.shorthand ⟨.zero, ⟨.zero, x⟩, .none⟩ (some e)) where
  starts _ := ReadableKey.ne_punct_of_propertyText? hk _
  balanced := (h.balanced.token fun _ => rfl).token (ReadableKey.step_of_propertyText? hk)
  reads {b} hb d m hm c line rest hcount hrest hc := by
    refine .isAt hc ?_
    rw [List.cons_append, first_some, Token.Kind.sameSort_punct,
      beq_eq_false_iff_ne.mpr (ReadableKey.ne_punct_of_propertyText? hk _)]
    refine ((ReadableKey.name hk).reads (b := b) (fun _ => rfl) hm hcount trivial hc).andThen fun key c₁ h₁ => ?_
    obtain ⟨name, rfl, hname⟩ := eq_name_of_bare h₁.2
    refine .pass h₁.1 rfl (.eat h₁.1 rfl fun c₂ h₂ => ?_)
    rw [List.cons_append, List.cons_append, count_some, count_some] at hcount
    have hvalue := h.callAssign hb hm (by omega) hrest.assign h₂
    refine .andThen (P := fun o c' => c'.Ready false b hi rest ∧ o.map Expr.bare = some e) ?_ fun o c₃ h₃ => ?_
    · exact .map (hvalue.imp fun a c₃ h₃ => ⟨h₃.1, congrArg some h₃.2⟩)
    · obtain ⟨a, rfl, ha⟩ := Option.map_eq_some_iff.mp h₃.2
      refine .pure ⟨h₃.1, ?_⟩
      change PatternProp.shorthand ⟨.zero, name.bare, Demand.none.bare⟩ (some a.bare) = _
      rw [hname, ha]
      rfl

theorem rest (h : ReadablePattern exposes lo hi ks p) (hp : p.isRest = true) :
    ReadablePatternProp exposes lo hi ks (.rest p) where
  starts _ := h.first_ne (by decide) rfl _
  balanced := h.balanced
  reads hb d m hm c line rest hcount hrest hc := by
    obtain ⟨k, ks', rfl, hk⟩ := h.starts
    rw [hp] at hk
    cases hk
    refine .isAt hc ((h.dots hp hb hm hcount trivial hc).andThen fun a c₁ h₁ => .pure ⟨h₁.1, ?_⟩)
    exact congrArg PatternProp.rest h₁.2

end ReadablePatternProp

theorem ReadablePattern.object {ι : Type} {t : ι → Text} {f : ι → PatternProp} {exposes : Bool} {lo hi : Nat}
    {xs : List ι} (hrun : Run (fun lo hi x => ReadablePatternProp exposes lo hi (t x) (f x)) lo hi xs) :
    ReadablePattern exposes lo hi (some (.punct .lbrace) :: (commaTexts (xs.map t) ++ [some (Token.Kind.punct .rbrace)]))
      (.object .zero (xs.map f)) := by
  have hbalanced : Balanced (commaTexts (xs.map t)) := by
    refine .commaTexts fun ks hks => ?_
    obtain ⟨x, hx, rfl⟩ := List.mem_map.mp hks
    obtain ⟨_, _, hitem⟩ := hrun.mem hx
    exact hitem.balanced
  refine ofBinding rfl rfl (.enclosed isPair_braces hbalanced .nil) fun {b} hb d c line rest hcount hrest hc => ?_
  rw [List.cons_append, List.append_assoc, List.singleton_append] at hc hcount
  rw [count_some] at hcount
  refine .kind? hc (.expect hc nofun fun _ c₁ _ h₁ => ?_)
  refine .andThen (.separated (A := fun x (p : PatternProp) => p.bare = f x) (by decide)
    (fun hx => hx.reads hb (Nat.lt_of_succ_le hcount)) (fun hx => hx.starts) ⟨.inl rfl, .inr rfl⟩ hrun rfl
    (Nat.le_refl _) h₁) fun ps c₂ h₂ => .expect h₂.1 nofun fun _ c₃ _ h₃ => .pure ⟨h₃, ?_⟩
  change Pattern.object .zero (Bare.patternProps ps) = _
  rw [Bare.patternProps_eq, map_eq_of_forall₂ h₂.2]

end LabelWeaver
