import LabelWeaver.Proofs.Grammar.Recovers.Operators

/-! Atoms: names, literals, parentheses and arrays. -/

namespace LabelWeaver

open Layout Parse

section
variable {line b : Bool} {n depth depth' : Nat} {ks rest : Text} {c : Cursor} {k : Token.Kind}

/-! ### Parentheses with an arrow behind them -/

/-- Where a text leaves as many brackets open as before, the search for the arrow goes on behind it. -/
theorem arrowFollows_append {ts : List Token} (hks : ks.foldlM step depth = some depth') (hts : Fits line ts (ks ++ rest)) :
    ∃ line' ts', Fits line' ts' rest ∧
      Grammar.arrowFollows (depth + 1) ts = Grammar.arrowFollows (depth' + 1) ts' := by
  induction ks generalizing line ts depth with
  | nil =>
    cases hks
    exact ⟨line, ts, hts, rfl⟩
  | cons o ks ih =>
    rw [List.foldlM_cons] at hks
    obtain ⟨depth₁, hstep, hrun⟩ := Option.bind_eq_some_iff.mp hks
    clear hks
    cases o with
    | none =>
      cases hstep
      exact ih hrun hts.of_none
    | some k =>
      obtain ⟨t, ts₁, rfl, ht, -, hts₁⟩ := hts.of_some
      obtain ⟨line', ts', hfits, heq⟩ := ih hrun hts₁
      refine ⟨line', ts', hfits, Eq.trans ?_ heq⟩
      rw [Grammar.arrowFollows, ht]
      cases k with
      | eof => cases hstep
      | punct p =>
        cases p with
        | rparen | rbracket | rbrace =>
          cases depth with
          | zero => cases hstep
          | succ depth => cases hstep; rfl
        | _ => cases hstep; rfl
      | _ => cases hstep; rfl

/-- No arrow follows the parentheses if none is behind them. -/
theorem arrowFollows_eq_false (hks : Balanced ks) (hrest : first rest ≠ .punct .arrow)
    (hc : c.Ready line b n (some (.punct .lparen) :: (ks ++ some (Token.Kind.punct .rparen) :: rest))) :
    Grammar.arrowFollows 0 c.rest = false := by
  obtain ⟨t, ts, hts, ht, -, hpast⟩ := hc.of_some
  obtain ⟨_, ts₁, hfits, hfollows⟩ := arrowFollows_append (hks 0) hpast.fits
  obtain ⟨t₂, ts₂, rfl, ht₂, -, hfits₂⟩ := hfits.of_some
  obtain ⟨t₃, ts₃, rfl, ht₃⟩ := hfits₂.exists_cons
  have hclose : Grammar.arrowFollows 1 (t₂ :: t₃ :: ts₃) = false := by
    rw [Grammar.arrowFollows, ht₂]
    simp [ht₃, hrest]
  rw [hts, Grammar.arrowFollows, ht]
  exact hfollows.trans hclose

theorem arrowFollows_eq_true (hks : Balanced ks)
    (hc : c.Ready line b n (some (.punct .lparen) :: (ks ++ some (Token.Kind.punct .rparen) :: some (.punct .arrow) :: rest))) :
    Grammar.arrowFollows 0 c.rest = true := by
  obtain ⟨t, ts, hts, ht, -, hpast⟩ := hc.of_some
  obtain ⟨_, ts₁, hfits, hfollows⟩ := arrowFollows_append (hks 0) hpast.fits
  obtain ⟨t₂, ts₂, rfl, ht₂, -, hfits₂⟩ := hfits.of_some
  obtain ⟨t₃, ts₃, rfl, ht₃, hline, -⟩ := hfits₂.of_some
  have hclose : Grammar.arrowFollows 1 (t₂ :: t₃ :: ts₃) = true := by
    rw [Grammar.arrowFollows, ht₂]
    simpa [ht₃] using hline
  rw [hts, Grammar.arrowFollows, ht]
  exact hfollows.trans hclose

end

/-! ### Single tokens -/

namespace Readable

variable {level : Prec} {exposes calls : Bool} {lo hi : Nat} {k : Token.Kind} {ks : Text} {e : Expr}

theorem ofAtom (hk : k.startsOperand = true) (hnew : k ≠ .reserved .kwNew) (hbalanced : Balanced (some k :: ks))
    (h : ∀ {b}, Reading b (Ends b .primary) lo hi (some k :: ks) (Grammar.baseAtom []) (·.bare = e)) :
    Readable .primary false false lo hi (some k :: ks) e := by
  refine ofChain (by decide) hk hbalanced fun {b allowCall m d} hm hcall => Recovers.leads ?_
  intro c line rest hcount hrest hc
  refine .isAt hc ?_
  rw [List.cons_append, first_some, Token.Kind.sameSort_reserved, beq_eq_false_iff_ne.mpr hnew]
  exact h d (Nat.le_trans hcount hm) hrest hc

/-- A token that is an expression by itself. -/
theorem literal (hk : k.startsOperand = true) (hnew : k ≠ .reserved .kwNew) (hident : k.identText? = none)
    (hstep : ∀ depth, step depth (some k) = some depth)
    (h : ∀ t : Token, t.kind = k → ∃ a, Grammar.literal? t = some a ∧ a.bare = e) :
    Readable .primary false false lo lo [some k] e := by
  refine ofAtom hk hnew (Balanced.nil.token hstep) fun {b} d c line rest hcount hrest hc => ?_
  obtain ⟨t, ts, hts, ht, -, hpast⟩ := hc.of_some
  obtain ⟨a, ha, hbare⟩ := h t ht
  have hpeek : c.peek? = some t := by rw [Cursor.peek?, hts]; rfl
  refine .look ?_
  rw [hpeek]
  dsimp only
  rw [ht, hident, ha]
  exact .advance hc (by rintro rfl; cases hk) fun _ c₁ _ h₁ => .pure ⟨h₁, hbare⟩

theorem ident (x : String) : Readable .primary false false lo lo [some (.ident x)] (.ident .zero x) := by
  refine ofAtom rfl (fun h => by cases h) (Balanced.nil.token fun _ => rfl) fun {b} d c line rest hcount hrest hc => ?_
  obtain ⟨t, ts, hts, ht, -, hpast⟩ := hc.of_some
  obtain ⟨t', ts', rfl, ht'⟩ := hpast.fits.exists_cons
  have hpeek : c.peek? = some t := by rw [Cursor.peek?, hts]; rfl
  have harrow : t'.kind ≠ .punct .arrow := by
    rw [ht']
    exact hrest.ne _ rfl (Nat.le_refl _)
  have hahead : (c.rest[1]?.any fun t => t.kind == .punct .arrow && !t.newlineBefore) = false := by
    simp [hts, harrow]
  refine .look ?_
  rw [hpeek]
  dsimp only
  rw [ht]
  refine .look ?_
  rw [hahead]
  exact .advance hc (fun h => by cases h) fun _ c₁ _ h₁ => .pure ⟨h₁, rfl⟩

end Readable

/-! ### Brackets -/

/-- The production of the atoms that start with a token and go on with others. -/
def Grammar.compound? (r : Rules) : Token.Kind → Option (Parse Expr)
  | .punct .lparen => some (parenthesized [] r)
  | .punct .lbracket => some (arrayLiteral r)
  | .punct .lbrace => some (objectLiteral r)
  | .reserved .kwFunction => some (functionExpr [] r)
  | _ => none

theorem Gives.compound {line b : Bool} {n : Nat} {c : Cursor} {k : Token.Kind} {ks : Text} {r : Rules}
    {p : Parse Expr} {Q : Expr → Cursor → Prop} (hc : c.Ready line b n (some k :: ks))
    (hk : Grammar.compound? r k = some p) (h : Gives c p Q) : Gives c (Grammar.baseAtom [] r) Q := by
  obtain ⟨t, ts, hts, ht, -, -⟩ := hc.of_some
  have hpeek : c.peek? = some t := by rw [Cursor.peek?, hts]; rfl
  refine .look ?_
  rw [hpeek]
  unfold Grammar.compound? at hk
  split at hk <;> cases hk <;> simpa only [ht, Token.Kind.identText?, Grammar.literal?] using h

namespace Readable

variable {level : Prec} {exposes calls : Bool} {lo hi : Nat} {ks : Text} {e : Expr}

/-- What is readable at any level is an atom in parentheses. -/
theorem paren (h : Readable level exposes calls lo hi ks e) :
    Readable .primary false false lo hi (some (.punct .lparen) :: (ks ++ [some (Token.Kind.punct .rparen)])) e := by
  refine ofAtom rfl nofun (.enclosed isPair_parens h.balanced .nil) fun {b} d c line rest hcount hrest hc => ?_
  rw [List.cons_append, List.append_assoc, List.singleton_append] at hc hcount
  rw [count_some] at hcount
  have harrow := arrowFollows_eq_false h.balanced (hrest.ne _ rfl (Nat.le_refl _)) hc
  have hinner := (h.callExpr (b := false) nofun (Nat.lt_of_succ_le hcount)).withNoIn (b := b)
  refine .compound hc rfl (.look ?_)
  rw [harrow]
  refine .advance hc nofun fun _ c₁ _ h₁ => ?_
  refine (hinner (Nat.le_refl _) (ends_of_none rfl) h₁).andThen fun a c₂ h₂ => ?_
  exact .expect h₂.1 nofun fun _ c₃ _ h₃ => .pure ⟨h₃, h₂.2⟩

theorem array {ι : Type} {t : ι → Text} {f : ι → Expr} {xs : List (Option ι)}
    (hrun : Run (Maybe fun lo hi x => ReadableItem lo hi (t x) (f x)) lo hi xs) :
    Readable .primary false false lo hi
      (some (.punct .lbracket) :: (elementTexts (xs.map (Option.map t)) ++ [some (Token.Kind.punct .rbracket)]))
      (.array .zero (xs.map (Option.map f))) := by
  have hbalanced : Balanced (elementTexts (xs.map (Option.map t))) := by
    refine .elementTexts fun ks hks => ?_
    obtain ⟨x, hx, hxks⟩ := List.mem_map.mp hks
    obtain ⟨x, rfl, rfl⟩ := Option.map_eq_some_iff.mp hxks
    obtain ⟨_, _, hitem⟩ := hrun.mem hx
    exact ReadableItem.balanced hitem
  refine ofAtom rfl nofun (.enclosed isPair_brackets hbalanced .nil) fun {b} d c line rest hcount hrest hc => ?_
  rw [List.cons_append, List.append_assoc, List.singleton_append] at hc hcount
  rw [count_some] at hcount
  refine .compound hc rfl (.expect hc nofun fun _ c₁ _ h₁ => ?_)
  have helements : Gives c₁ (withNoIn false (elements (.punct .rbracket) (Grammar.spreadOrAssign (Grammar.rules [] d))))
      fun es c' => c'.Ready false b hi (some (.punct .rbracket) :: rest) ∧
        List.Forall₂ (Option.Rel fun x (e : Expr) => e.bare = f x) xs es :=
    .underNoIn h₁ fun c₂ h₂ => .elements (by decide) (fun hx => hx.reads (Nat.lt_of_succ_le hcount))
      (fun hx ks => ⟨hx.first_ne (by decide) rfl ks, hx.first_ne (by decide) rfl ks⟩) ⟨ends_comma, ends_of_none rfl⟩ hrun
      rfl (Nat.le_refl _) h₂
  refine helements.andThen fun es c₂ h₂ => .expect h₂.1 nofun fun _ c₃ _ h₃ => .pure ⟨h₃, ?_⟩
  change Expr.array .zero (Bare.elements es) = _
  rw [Bare.elements_eq, map_eq_of_forall₂_rel h₂.2]

end Readable

end LabelWeaver
