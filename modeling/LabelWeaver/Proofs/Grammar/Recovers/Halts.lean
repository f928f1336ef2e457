import LabelWeaver.Proofs.Grammar.Recovers.Control

/-! Texts that are not recovered in the head of a loop. The readers of expressions stop there in front of
    the operator `in`, and whatever reads around them fails at that word or stops there as well. -/

namespace LabelWeaver

open Layout Parse
open Making (Dies)

/-- The cursor is on the word `in`, in the head of a loop. -/
def Cursor.AtIn (c : Cursor) : Prop := ∃ n rest, c.Ready false true n (some (.reserved .kwIn) :: rest)

theorem Cursor.AtIn.isAt {c : Cursor} (h : c.AtIn) (k : Token.Kind) :
    c.isAt k = (Token.Kind.reserved .kwIn).sameSort k := by
  obtain ⟨n, rest, hc⟩ := h
  exact hc.isAt k

/-! ### Readers that get stuck -/

section
variable {α β : Type} {D E : Cursor → Prop} {c : Cursor} {p : Parse α} {P : α → Cursor → Prop} {f : α → Parse β}

theorem Making.Dies.andThen (hp : Gives c p P) (hf : ∀ a c', P a c' → Dies E c' (f a)) : Dies E c (p >>= f) := by
  obtain ⟨a, c₁, hpc, ha⟩ := hp
  intro b c' h
  rw [Parse.bind_ok hpc] at h
  exact hf a c₁ ha h

theorem Making.Dies.goOn (hp : Dies D c p) (hf : ∀ a c', D c' → Dies E c' (f a)) : Dies E c (p >>= f) := by
  intro b c' h
  obtain ⟨a, c₁, hpc, hfc⟩ := Parse.bind_eq_ok h
  exact hf a c₁ (hp hpc) hfc

theorem Making.Dies.map {g : α → β} (hp : Dies E c p) : Dies E c (g <$> p) := by
  rw [map_eq_pure_bind]
  exact hp.goOn fun _ _ hc' => .pure hc'

theorem Making.Dies.of_never (hp : Dies Cursor.Never c p) : Dies E c p := fun _ _ h => (hp h).elim

theorem Making.Dies.passIn {f : Bool → Parse β} {k : Token.Kind} (hc : c.AtIn)
    (hk : (Token.Kind.reserved .kwIn).sameSort k = false) (hf : Dies E c (f false)) :
    Dies E c (Parse.eat k >>= f) := by
  intro b c' h
  rw [Parse.bind_ok (Parse.eat_eq_false ((hc.isAt k).trans hk))] at h
  exact hf h

theorem Making.Dies.expectIn {f : Token → Parse β} {k : Token.Kind} (hc : c.AtIn)
    (hk : (Token.Kind.reserved .kwIn).sameSort k = false) : Dies E c (Parse.expect k >>= f) :=
  .expectOther ((hc.isAt k).trans hk)

end

section
variable {line b : Bool} {n : Nat} {ks : Text} {k : Token.Kind} {c : Cursor}

theorem Gives.next (hc : c.Ready line b n (some k :: ks)) (hk : k ≠ .eof) :
    Gives c Parse.advance fun t c' => t.kind = k ∧ c'.Ready false b n ks := by
  have h := Gives.advance (f := Pure.pure) (Q := fun t c' => t.kind = k ∧ c'.Ready false b n ks) hc hk
    fun t c' ht hc' => .pure ⟨ht, hc'⟩
  rwa [bind_pure] at h

theorem Gives.expected (hc : c.Ready line b n (some k :: ks)) (hk : k ≠ .eof) :
    Gives c (Parse.expect k) fun t c' => t.kind = k ∧ c'.Ready false b n ks := by
  have h := Gives.expect (f := Pure.pure) (Q := fun t c' => t.kind = k ∧ c'.Ready false b n ks) hc hk
    fun t c' ht hc' => .pure ⟨ht, hc'⟩
  rwa [bind_pure] at h

theorem Gives.eaten (hc : c.Ready line b n (some k :: ks)) :
    Gives c (Parse.eat k) fun found c' => found = true ∧ c'.Ready false b n ks := by
  have h := Gives.eat (f := Pure.pure) (Q := fun found c' => found = true ∧ c'.Ready false b n ks) hc
    (Token.Kind.sameSort_self k) fun c' hc' => .pure ⟨rfl, hc'⟩
  rwa [bind_pure] at h

theorem Gives.passed (hc : c.Ready line b n ks) (hk : (first ks).sameSort k = false) :
    Gives c (Parse.eat k) fun found c' => found = false ∧ c' = c :=
  ⟨false, c, Parse.eat_eq_false (hc.isAt k ▸ hk), rfl, rfl⟩

end

/-! ### Texts at which readers get stuck -/

section
variable {α : Type} {E : Cursor → Prop} {m lo : Nat} {ks ks' : Text}

/-- Where the text `ks` starts in the head of a loop, the reader fails or stops where `E` holds. -/
def Halts (E : Cursor → Prop) (m lo : Nat) (ks : Text) (p : Parse α) : Prop :=
  ∀ ⦃c : Cursor⦄ ⦃line : Bool⦄ ⦃rest : Text⦄, count (ks ++ rest) ≤ m → c.Ready line true lo (ks ++ rest) → Dies E c p

theorem Halts.append {p : Parse α} (h : Halts E m lo ks p) (ks' : Text) : Halts E m lo (ks ++ ks') p := by
  intro c line rest hm hc
  rw [List.append_assoc] at hm hc
  exact h hm hc

theorem Halts.of_never {p : Parse α} (h : Halts Cursor.Never m lo ks p) : Halts E m lo ks p :=
  fun _ _ _ hm hc => (h hm hc).of_never

/-- The production gets stuck at the text where others call it, after they read a token. -/
def CallHalts (E : Cursor → Prop) (lo : Nat) (ks : Text) (p : Rules → Parse α) : Prop :=
  ∀ ⦃d m⦄, m < d → Halts E m lo ks (p (Grammar.rules [] d))

theorem CallHalts.of {p q : Rules → Parse α} (h : ∀ d, Halts E d lo ks (p (Grammar.rules [] d)))
    (hq : ∀ d c, q (Grammar.rules [] (d + 1)) c = p (Grammar.rules [] d) c) : CallHalts E lo ks q := by
  intro d m hm
  obtain ⟨d, rfl⟩ : ∃ n, d = n + 1 := ⟨d - 1, by omega⟩
  intro c line rest hcount hc a c' hrun
  rw [hq] at hrun
  exact h d (by omega) hc hrun

end

/-! ### Lists -/

section
variable {α ι : Type} {m : Nat} {ok : Token.Kind → Prop} {R : Nat → Nat → ι → Prop} {t : ι → Text} {exposes : ι → Bool}
  {item : Parse α} {A : ι → α → Prop} {lo hi : Nat} {rest : Text} {line : Bool} {c : Cursor}

theorem Making.Dies.commaList {xs : List ι}
    (hitem : ∀ {lo hi x}, R lo hi x → exposes x = false → Recovers m true ok lo hi (t x) item (A x))
    (hhalts : ∀ {lo hi x}, R lo hi x → exposes x = true → Halts Cursor.AtIn m lo (t x) item) (hok : ok (.punct .comma))
    (hrun : Run R lo hi xs) (hany : xs.any exposes = true) (hm : count (commaTexts (xs.map t) ++ rest) ≤ m)
    (hc : c.Ready line true lo (commaTexts (xs.map t) ++ rest)) : Dies Cursor.AtIn c (Parse.commaList item) := by
  suffices hloop : ∀ size, Dies Cursor.AtIn c (commaListFrom item size) from hloop _
  induction hrun generalizing c line with
  | nil => cases hany
  | @cons lo _ _ x xs hx hxs ih =>
    intro size
    cases size with
    | zero => rintro _ _ ⟨⟩
    | succ size =>
      obtain ⟨ks, htext⟩ : ∃ ks, commaTexts ((x :: xs).map t) ++ rest = t x ++ ks := by
        cases xs with
        | nil => exact ⟨rest, rfl⟩
        | cons y ys => exact ⟨_, by rw [List.map_cons, List.map_cons, commaTexts_cons_cons, List.append_assoc]⟩
      cases hexposes : exposes x with
      | true =>
        rw [htext] at hm hc
        exact (hhalts hx hexposes hm hc).goOn fun _ _ hin => .passIn hin rfl (.pure hin)
      | false =>
        rw [List.any_cons, hexposes, Bool.false_or] at hany
        cases hxs with
        | nil => cases hany
        | @cons _ _ _ y ys hy hys =>
          rw [List.map_cons, List.map_cons, commaTexts_cons_cons, List.append_assoc, List.cons_append] at hm hc
          have hcount := hm
          rw [count_append, count_some] at hcount
          refine .andThen (hitem hx hexposes hm hok hc) fun a c₁ h₁ => .andThen (.eaten h₁.1) ?_
          rintro _ c₂ ⟨rfl, h₂⟩
          refine (ih hany ?_ h₂ size).goOn fun _ _ hin => .pure hin
          rw [List.map_cons]
          omega

theorem Making.Dies.separated {xs : List ι} {close : Punct}
    (hitem : ∀ {lo hi x}, R lo hi x → exposes x = false → Recovers m true ok lo hi (t x) item (A x))
    (hhalts : ∀ {lo hi x}, R lo hi x → exposes x = true → Halts Cursor.AtIn m lo (t x) item)
    (hfirst : ∀ {lo hi x}, R lo hi x → ∀ ks, first (t x ++ ks) ≠ .punct close) (hok : ok (.punct .comma))
    (hrun : Run R lo hi xs) (hany : xs.any exposes = true) (hm : count (commaTexts (xs.map t) ++ rest) ≤ m)
    (hc : c.Ready line true lo (commaTexts (xs.map t) ++ rest)) :
    Dies Cursor.AtIn c (Parse.separated (.punct close) item) := by
  suffices hloop : ∀ size, Dies Cursor.AtIn c (separatedFrom (.punct close) item size) from hloop _
  induction hrun generalizing c line with
  | nil => cases hany
  | @cons lo _ _ x xs hx hxs ih =>
    intro size
    cases size with
    | zero => rintro _ _ ⟨⟩
    | succ size =>
      obtain ⟨ks, htext⟩ : ∃ ks, commaTexts ((x :: xs).map t) ++ rest = t x ++ ks := by
        cases xs with
        | nil => exact ⟨rest, rfl⟩
        | cons y ys => exact ⟨_, by rw [List.map_cons, List.map_cons, commaTexts_cons_cons, List.append_assoc]⟩
      have hopen : c.isAt (.punct close) = false := by
        rw [hc.isAt, htext]
        simpa using hfirst hx ks
      refine .look ?_
      rw [hopen]
      cases hexposes : exposes x with
      | true =>
        rw [htext] at hm hc
        exact (hhalts hx hexposes hm hc).goOn fun _ _ hin => .passIn hin rfl (.pure hin)
      | false =>
        rw [List.any_cons, hexposes, Bool.false_or] at hany
        cases hxs with
        | nil => cases hany
        | @cons _ _ _ y ys hy hys =>
          rw [List.map_cons, List.map_cons, commaTexts_cons_cons, List.append_assoc, List.cons_append] at hm hc
          have hcount := hm
          rw [count_append, count_some] at hcount
          refine .andThen (hitem hx hexposes hm hok hc) fun a c₁ h₁ => .andThen (.eaten h₁.1) ?_
          rintro _ c₂ ⟨rfl, h₂⟩
          refine (ih hany ?_ h₂ size).goOn fun _ _ hin => .pure hin
          rw [List.map_cons]
          omega

theorem Making.Dies.elements {xs : List (Option ι)} {close : Punct} (hclose : close ≠ .comma)
    (hitem : ∀ {lo hi x}, R lo hi x → exposes x = false → Recovers m true ok lo hi (t x) item (A x))
    (hhalts : ∀ {lo hi x}, R lo hi x → exposes x = true → Halts Cursor.AtIn m lo (t x) item)
    (hfirst : ∀ {lo hi x}, R lo hi x → ∀ ks, first (t x ++ ks) ≠ .punct close ∧ first (t x ++ ks) ≠ .punct .comma)
    (hok : ok (.punct .comma)) (hrun : Run (Maybe R) lo hi xs) (hany : (xs.filterMap id).any exposes = true)
    (hm : count (elementTexts (xs.map (Option.map t)) ++ rest) ≤ m)
    (hc : c.Ready line true lo (elementTexts (xs.map (Option.map t)) ++ rest)) :
    Dies Cursor.AtIn c (Parse.elements (.punct close) item) := by
  suffices hloop : ∀ size, Dies Cursor.AtIn c (elementsFrom (.punct close) item size) from hloop _
  induction hrun generalizing c line with
  | nil => cases hany
  | @cons lo _ _ x xs hx hxs ih =>
    intro size
    cases size with
    | zero => rintro _ _ ⟨⟩
    | succ size =>
      cases x with
      | none =>
        cases hx
        have hc : c.Ready line true lo (some (.punct .comma) :: (elementTexts (xs.map (Option.map t)) ++ rest)) := hc
        have hm : count (elementTexts (xs.map (Option.map t)) ++ rest) + 1 ≤ m := hm
        have hopen : c.isAt (.punct close) = false := by
          rw [hc.isAt]
          simpa using hclose.symm
        refine .look ?_
        rw [hopen]
        refine .andThen (.eaten hc) ?_
        rintro _ c₁ ⟨rfl, h₁⟩
        exact (ih hany (Nat.le_of_succ_le hm) h₁ size).goOn fun _ _ hin => .pure hin
      | some x =>
        have hx : R _ _ x := hx
        obtain ⟨ks, htext⟩ : ∃ ks, elementTexts ((some x :: xs).map (Option.map t)) ++ rest = t x ++ ks := by
          cases xs with
          | nil => exact ⟨rest, rfl⟩
          | cons y ys =>
            exact ⟨_, by rw [List.map_cons, List.map_cons, Option.map_some, elementTexts_some_cons, List.append_assoc]⟩
        have hopen : c.isAt (.punct close) = false := by
          rw [hc.isAt, htext]
          simpa using (hfirst hx ks).1
        have hcomma : (first (t x ++ ks)).sameSort (.punct .comma) = false := by simpa using (hfirst hx ks).2
        refine .look ?_
        rw [hopen]
        rw [← htext] at hcomma
        refine .andThen (.passed hc hcomma) ?_
        rintro _ _ ⟨rfl, rfl⟩
        cases hexposes : exposes x with
        | true =>
          rw [htext] at hm hc
          exact (hhalts hx hexposes hm hc).goOn fun _ _ hin => .passIn hin rfl (.pure hin)
        | false =>
          rw [List.filterMap_cons, id_eq, List.any_cons, hexposes, Bool.false_or] at hany
          cases hxs with
          | nil => cases hany
          | @cons _ _ _ y ys hy hys =>
            rw [List.map_cons, List.map_cons, Option.map_some, elementTexts_some_cons, List.append_assoc,
              List.cons_append] at hm hc
            have hcount := hm
            rw [count_append, count_some] at hcount
            refine .andThen (hitem hx hexposes hm hok hc) fun a c₁ h₁ => .andThen (.eaten h₁.1) ?_
            rintro _ c₂ ⟨rfl, h₂⟩
            refine (ih hany ?_ h₂ size).goOn fun _ _ hin => .pure hin
            rw [List.map_cons]
            omega

end

/-! ### Expressions -/

/-- The text has the operator `in` outside brackets, so that readers get stuck at it; it holds together as
    tightly as `level`. -/
structure Halting (level : Prec) (lo : Nat) (ks : Text) : Prop where
  binary : .or ≤ level → ∀ {least d c line rest}, least ≤ level → count (ks ++ rest) ≤ d →
    c.Ready line true lo (ks ++ rest) → Gives c (Grammar.binary [] (Grammar.rules [] d) least) fun _ c' => c'.AtIn
  assign : .assign ≤ level → ∀ d, Halts Cursor.AtIn d lo ks (Grammar.assign [] (Grammar.rules [] d))
  expr : ∀ d, Halts Cursor.AtIn d lo ks (Grammar.expr [] (Grammar.rules [] d))

section
variable {c : Cursor} (hc : c.AtIn)
include hc

theorem assign_in {r : Rules} {e : Expr} : Dies Cursor.AtIn c (do
    match (← kind?).bind AssignOp.ofToken? with
    | none => return e
    | some op =>
      if !e.isTarget then failAt .invalidAssignTarget e.span
      let _ ← advance
      let value ← r.assign
      return .assign (e.span.join value.span) op e value) := by
  obtain ⟨n, rest, hready⟩ := id hc
  refine .look ?_
  rw [hready.kind?]
  exact .pure hc

theorem binaryStep_in {least : Prec} {r : Rules} {e : Expr} :
    Gives c (Grammar.binaryStep r least e) fun o c' => o = none ∧ c' = c := by
  obtain ⟨n, rest, hready⟩ := hc
  refine binaryStep_stop hready fun op hop hin => ?_
  cases hop
  exact absurd ⟨rfl, rfl⟩ hin

end

namespace Halting

variable {level level' : Prec} {exposes calls calls' : Bool} {lo mid : Nat} {ks ks' : Text} {e e' : Expr}

theorem ofExpr (h : ∀ d, Halts Cursor.AtIn d lo ks (Grammar.expr [] (Grammar.rules [] d))) :
    Halting .sequence lo ks where
  binary hle := absurd hle (by decide)
  assign hle := absurd hle (by decide)
  expr := h

theorem ofAssign (hlevel : level < .or)
    (h : ∀ d, Halts Cursor.AtIn d lo ks (Grammar.assign [] (Grammar.rules [] d))) : Halting level lo ks where
  binary hle := absurd hlevel (Nat.not_lt.mpr hle)
  assign _ := h
  expr d _ _ _ hm hc := (h d hm hc).goOn fun _ _ hin => .passIn hin rfl (.pure hin)

theorem ofBinary
    (h : ∀ {least d c line rest}, least ≤ level → count (ks ++ rest) ≤ d → Cursor.Ready line true lo (ks ++ rest) c →
      Gives c (Grammar.binary [] (Grammar.rules [] d) least) fun _ c' => c'.AtIn) : Halting level lo ks := by
  have hassign : ∀ d, Halts Cursor.AtIn d lo ks (Grammar.assign [] (Grammar.rules [] d)) := by
    intro d c line rest hm hc
    refine Dies.goOn (.andThen (h (Nat.zero_le _) hm hc) fun _ _ hin => .passIn hin rfl (.pure hin)) ?_
    exact fun _ _ hin => assign_in hin
  exact
    { binary := fun _ => h
      assign := fun _ => hassign
      expr := fun d _ _ _ hm hc => (hassign d hm hc).goOn fun _ _ hin => .passIn hin rfl (.pure hin) }

/-- What is behind the operator does not matter. -/
theorem append (h : Halting level lo ks) (hle : level' ≤ level) (ks' : Text) : Halting level' lo (ks ++ ks') where
  binary hor _ _ _ _ _ hleast hm hc := by
    rw [List.append_assoc] at hm hc
    exact h.binary (Nat.le_trans hor hle) (Nat.le_trans hleast hle) hm hc
  assign hassign d := (h.assign (Nat.le_trans hassign hle) d).append ks'
  expr d := (h.expr d).append ks'

theorem weaken (h : Halting level lo ks) (hle : level' ≤ level) : Halting level' lo ks := by
  have happend := h.append hle []
  rwa [List.append_nil] at happend

theorem callAssign (h : Halting .assign lo ks) : CallHalts Cursor.AtIn lo ks Rules.assign :=
  .of (h.assign (Nat.le_refl _)) fun _ _ => rfl

theorem callExpr (h : Halting level lo ks) : CallHalts Cursor.AtIn lo ks Rules.expr :=
  .of h.expr fun _ _ => rfl

/-- The operator itself. -/
theorem inOp (h : Readable .relational false calls lo mid ks e) :
    Halting .relational lo (ks ++ some (Token.Kind.reserved .kwIn) :: ks') := by
  refine ofBinary fun {least d c line rest} hleast hm hc => ?_
  rw [List.append_assoc, List.cons_append] at hm hc
  have hread : Recovers d true (fun k => Ends true Prec.relational.behind k ∧ Ends true .sequence k) lo mid ks
      (Grammar.binary [] (Grammar.rules [] d) least) (·.bare = e) :=
    h.operand (by decide) (fun _ => rfl) hleast fun op hop => absurd hop (by cases op <;> decide)
  exact (hread hm ⟨ends_of_none rfl, ends_of_none rfl⟩ hc).imp fun _ _ h₁ => ⟨_, _, h₁.1⟩

/-- An operator with an exposed `in` to its right. -/
theorem right (op : BinaryOp) (hop : op ≠ .in) {left : Prec} (hleft : left = if op = .pow then .update else op.prec)
    (h : Readable left false calls lo mid ks e) (h' : Halting op.rightPrec mid ks') :
    Halting op.prec lo (ks ++ some op.token :: ks') := by
  have hlevel : .or ≤ left ∧ op.prec ≤ left ∧ op.prec < left.behind := by
    rw [hleft]
    cases op <;> decide
  refine ofBinary fun {least d c line rest} hleast hm hc => ?_
  rw [List.append_assoc, List.cons_append] at hm hc
  have hlead : Leads d true (Ends true left.behind) lo mid ks (Grammar.binary [] (Grammar.rules [] d) least)
      (Grammar.binaryStep (Grammar.rules [] d) least) (·.bare = e) :=
    h.binary hlevel.1 (fun _ => rfl) (Nat.le_trans hleast hlevel.2.1)
  refine hlead hm (ends_binaryOp op hlevel.2.2) hc fun a c₁ size h₁ hsize _ => ?_
  rw [count_append, count_some] at hm
  rw [count_some] at hsize
  obtain ⟨size, rfl⟩ : ∃ n, size = n + 2 := ⟨size - 2, by omega⟩
  have hfound : Grammar.binaryOp? c₁ = some op := by
    unfold Grammar.binaryOp?
    rw [h₁.kind?, h₁.noIn, first_some, Option.bind_some, BinaryOp.ofToken?_token]
    exact if_neg fun hin => hop hin.1
  -- one round reads the operator and what is right of it; the next one stops
  refine .andThen (P := fun o c' => o.isSome = true ∧ c'.AtIn) (.look ?_) fun o c₂ h₂ => ?_
  · have htight : ¬op.prec < least := Nat.not_lt.mpr hleast
    rw [hfound]
    dsimp only
    rw [if_neg htight]
    refine .advance h₁ (by cases op <;> nofun) fun tok c₂ _ h₂ => ?_
    obtain ⟨d, rfl⟩ : ∃ n, d = n + 1 := ⟨d - 1, by omega⟩
    have hright : Gives c₂ (Grammar.binary [] (Grammar.rules [] d) op.rightPrec) fun _ c' => c'.AtIn :=
      h'.binary (by cases op <;> decide) (Nat.le_refl _) (by omega) h₂
    have hcall : Gives c₂ ((Grammar.rules [] (d + 1)).binary op.rightPrec) fun _ c' => c'.AtIn := hright
    exact hcall.andThen fun a' c₃ h₃ => .pure ⟨rfl, h₃⟩
  · obtain ⟨a', rfl⟩ := Option.isSome_iff_exists.mp h₂.1
    refine (binaryStep_in h₂.2).andThen fun o c₃ h₃ => ?_
    obtain ⟨rfl, rfl⟩ := h₃
    exact .pure h₂.2

theorem assigned (op : AssignOp) (h : Readable .call false calls lo mid ks e) (he : e.isTarget = true)
    (h' : Halting .assign mid ks') : Halting .assign lo (ks ++ some (Token.Kind.punct op.sign) :: ks') := by
  refine ofAssign (by decide) fun d c line rest hm hc => ?_
  rw [List.append_assoc, List.cons_append] at hm hc
  refine .andThen (h.condition (b := true) (by decide) (fun _ => rfl) d hm (ends_assignOp op) hc) fun a c₁ h₁ => .look ?_
  rw [h₁.1.kind?, first_some, Option.bind_some, AssignOp.ofToken?_sign]
  dsimp only
  rw [Readable.isTarget_of_bare h₁.2 he]
  refine .andThen (.next h₁.1 nofun) fun _ c₂ h₂ => ?_
  rw [count_append, count_some] at hm
  exact (h'.callAssign (m := count (ks' ++ rest)) (by omega) (Nat.le_refl _) h₂.2).goOn fun _ _ hin => .pure hin

theorem alternate {mid₂ : Nat} {ks₂ : Text} (h : Readable .or false calls lo mid ks e)
    (h' : Readable .assign exposes calls' mid mid₂ ks' e') (h₂ : Halting .assign mid₂ ks₂) :
    Halting .conditional lo (ks ++ some (Token.Kind.punct .question) :: (ks' ++ some (Token.Kind.punct .colon) :: ks₂)) := by
  refine ofAssign (by decide) fun d c line rest hm hc => ?_
  have hc : c.Ready line true lo (ks ++ some (Token.Kind.punct .question) :: (ks' ++ some (Token.Kind.punct .colon) :: (ks₂ ++ rest))) := by
    simpa using hc
  have hm : count (ks ++ some (Token.Kind.punct .question) :: (ks' ++ some (Token.Kind.punct .colon) :: (ks₂ ++ rest))) ≤ d := by
    simpa using hm
  have htest : Recovers d true (Ends true .or) lo mid ks (Grammar.binary [] (Grammar.rules [] d) .sequence)
      (·.bare = e) :=
    (h.operand (Nat.le_refl _) (fun _ => rfl) (by decide) fun op => by cases op <;> decide).follow
      fun k hk => ⟨hk.mono (by decide), hk⟩
  refine Dies.goOn (D := Cursor.AtIn) ?_ fun _ _ hin => assign_in hin
  refine .andThen (htest hm ends_question hc) fun a c₁ h₁ => .andThen (.eaten h₁.1) ?_
  rintro _ c₂ ⟨rfl, hc₂⟩
  rw [count_append, count_some] at hm
  have hlt : count (ks' ++ some (Token.Kind.punct .colon) :: (ks₂ ++ rest)) < d := by omega
  have hconsequent := (h'.callAssign (b := false) nofun hlt).withNoIn (b := true)
  refine .andThen (hconsequent (Nat.le_refl _) (ends_of_none rfl) hc₂) fun a' c₃ h₃ => ?_
  refine .andThen (.expected h₃.1 nofun) fun _ c₄ h₄ => ?_
  rw [count_append, count_some] at hlt
  exact (h₂.callAssign (m := count (ks₂ ++ rest)) (by omega) (Nat.le_refl _) h₄.2).goOn fun _ _ hin => .pure hin

theorem sequence {ι : Type} {t : ι → Text} {f : ι → Expr} (exposes calls : ι → Bool) {xs : List ι} {x : ι} {hi : Nat}
    (hx : Readable .assign false calls' lo mid (t x) e)
    (hrun : Run (fun lo hi x => Readable .assign (exposes x) (calls x) lo hi (t x) (f x) ∧
      (exposes x = true → Halting .assign lo (t x))) mid hi xs) (hany : xs.any exposes = true) :
    Halting .sequence lo (commaTexts ((x :: xs).map t)) := by
  refine ofExpr fun d c line rest hm hc => ?_
  cases xs with
  | nil => cases hany
  | cons y ys =>
    rw [List.map_cons, List.map_cons, commaTexts_cons_cons, List.append_assoc, List.cons_append, ← List.map_cons] at hm hc
    refine .andThen (hx.assign (by decide) (b := true) (fun _ => rfl) d hm ends_comma hc) fun a c₁ h₁ => ?_
    refine .andThen (.eaten h₁.1) ?_
    rintro _ c₂ ⟨rfl, h₂⟩
    rw [count_append, count_some] at hm
    have hlt : count (commaTexts ((y :: ys).map t) ++ rest) < d := by omega
    have hitems : Dies Cursor.AtIn c₂ (commaList (Grammar.rules [] d).assign) :=
      .commaList (A := fun z a => a.bare = f z) (fun hz hclear => hz.1.callAssign (b := true) (fun _ => hclear) hlt)
        (fun hz hin => (hz.2 hin).callAssign hlt) ends_comma hrun hany (Nat.le_refl _) h₂
    exact hitems.goOn fun _ _ hin => .pure hin

end Halting

/-! ### Patterns -/

section
variable {exposes exposes' calls : Bool} {lo mid hi : Nat} {ks ks' : Text} {e : Expr} {p : Pattern}

theorem CallHalts.computed (h : Halting .assign lo ks) :
    CallHalts Cursor.Never lo (some (.punct .lbracket) :: (ks ++ ks')) Grammar.propKey := by
  intro d m hm c line rest hcount hc
  rw [List.cons_append, List.append_assoc] at hc hcount
  rw [count_some] at hcount
  refine .andThen (.next hc nofun) fun t c₁ h₁ => ?_
  rw [h₁.1]
  exact (h.callAssign hm (Nat.le_of_succ_le hcount) h₁.2).goOn fun _ _ hin => .expectIn hin rfl

/-- The text of a pattern has the operator `in` where the head of a loop does not allow it. No reader goes
    beyond it unless it is in the default value of the whole pattern. -/
structure HaltingPattern (lo : Nat) (ks : Text) (p : Pattern) : Prop where
  binding : p.isBinding = true → ∀ d, Halts Cursor.Never d lo ks (Grammar.binding [] (Grammar.rules [] d))
  element : p.isRest = false → CallHalts Cursor.AtIn lo ks fun r => Grammar.bindingElement r.binding r
  dots : p.isRest = true → CallHalts Cursor.AtIn lo ks Grammar.restElement

namespace HaltingPattern

theorem callBinding (h : HaltingPattern lo ks p) (hp : p.isBinding = true) :
    CallHalts Cursor.Never lo ks Rules.binding :=
  .of (h.binding hp) fun _ _ => rfl

theorem ofBinding (hp : p.isBinding = true)
    (h : ∀ d, Halts Cursor.Never d lo ks (Grammar.baseBinding (Grammar.rules [] d))) : HaltingPattern lo ks p where
  binding _ := h
  element _ _ _ hm _ _ _ hcount hc := by
    have hcall : CallHalts Cursor.Never lo ks Rules.binding := .of h fun _ _ => rfl
    exact .bind (hcall hm hcount hc)
  dots hrest := by
    have hno : p.isRest = false := by cases p <;> first | rfl | cases hp
    cases hno.symm.trans hrest

theorem item (h : HaltingPattern lo ks p) (hread : ReadablePattern exposes lo hi ks p) :
    CallHalts Cursor.AtIn lo ks Grammar.listElement := by
  intro d m hm c line rest hcount hc
  obtain ⟨k, ks', rfl, hk⟩ := hread.starts
  refine .look ?_
  rw [hc.isAt, List.cons_append, first_some]
  split at hk
  · next hp =>
    rw [hk]
    exact h.dots hp hm hcount hc
  · next hp =>
    have hdots : k.sameSort (.punct .ellipsis) = false := by
      cases k with
      | punct p => cases p <;> first | rfl | cases hk
      | _ => rfl
    rw [hdots]
    exact h.element (eq_false_of_ne_true hp) hm hcount hc

theorem target (h : HaltingPattern lo ks p) (hp : p.isBinding = true) (e : Expr) :
    HaltingPattern lo (ks ++ ks') (.withDefault .zero p e) where
  binding := nofun
  element _ _ _ hm _ _ _ hcount hc := by
    rw [List.append_assoc] at hcount hc
    exact .bind (h.callBinding hp hm hcount hc)
  dots := nofun

theorem value (h : ReadablePattern false lo mid ks p) (hp : p.isBinding = true) (h' : Halting .assign mid ks') (e : Expr) :
    HaltingPattern lo (ks ++ some (Token.Kind.punct .eq) :: ks') (.withDefault .zero p e) where
  binding := nofun
  element _ d m hm c line rest hcount hc := by
    rw [List.append_assoc, List.cons_append] at hcount hc
    refine .andThen (h.callBinding hp (b := true) (fun _ => rfl) hm hcount trivial hc) fun a c₁ h₁ => ?_
    refine .andThen (.eaten h₁.1) ?_
    rintro _ c₂ ⟨rfl, h₂⟩
    rw [count_append, count_some] at hcount
    exact (h'.callAssign (m := count (ks' ++ rest)) (by omega) (Nat.le_refl _) h₂).goOn fun _ _ hin => .pure hin
  dots := nofun

theorem rest (h : HaltingPattern lo ks p) (hp : p.isBinding = true) :
    HaltingPattern lo (some (.punct .ellipsis) :: ks) (.rest .zero p) where
  binding := nofun
  element := nofun
  dots _ d m hm c line rest hcount hc := by
    rw [List.cons_append, count_some] at hcount
    refine .andThen (.expected hc nofun) fun _ c₁ h₁ => ?_
    exact .bind (h.callBinding hp hm (Nat.le_of_succ_le hcount) h₁.2)

theorem array {ι : Type} {t : ι → Text} {f : ι → Pattern} (exposes : ι → Bool) {xs : List (Option ι)}
    (hrun : Run (Maybe fun lo hi x => ReadablePattern (exposes x) lo hi (t x) (f x) ∧
      (exposes x = true → HaltingPattern lo (t x) (f x))) lo hi xs) (hany : (xs.filterMap id).any exposes = true)
    (ps : List (Option Pattern)) :
    HaltingPattern lo (some (.punct .lbracket) :: (elementTexts (xs.map (Option.map t)) ++ ks')) (.array .zero ps) := by
  refine ofBinding rfl fun d c line rest hcount hc => ?_
  rw [List.cons_append, List.append_assoc] at hc hcount
  rw [count_some] at hcount
  refine .look ?_
  rw [hc.kind?]
  refine .andThen (.expected hc nofun) fun _ c₁ h₁ => ?_
  have helements : Dies Cursor.AtIn c₁ (elements (.punct .rbracket) (Grammar.listElement (Grammar.rules [] d))) :=
    .elements (A := fun x (p : Pattern) => p.bare = f x) (by decide)
      (fun hx hclear => hx.1.item (b := true) (fun _ => hclear) (Nat.lt_of_succ_le hcount))
      (fun hx hin => (hx.2 hin).item hx.1 (Nat.lt_of_succ_le hcount))
      (fun hx ks => ⟨hx.1.first_ne (by decide) rfl ks, hx.1.first_ne (by decide) rfl ks⟩) ends_comma hrun hany
      (Nat.le_refl _) h₁.2
  exact helements.goOn fun _ _ hin => .expectIn hin rfl

theorem object {ι : Type} {t : ι → Text} {f : ι → PatternProp} (exposes : ι → Bool) {xs : List ι}
    (hrun : Run (fun lo hi x => ReadablePatternProp (exposes x) lo hi (t x) (f x) ∧
      (exposes x = true → CallHalts Cursor.AtIn lo (t x) Grammar.patternProp)) lo hi xs)
    (hany : xs.any exposes = true) (ps : List PatternProp) :
    HaltingPattern lo (some (.punct .lbrace) :: (commaTexts (xs.map t) ++ ks')) (.object .zero ps) := by
  refine ofBinding rfl fun d c line rest hcount hc => ?_
  rw [List.cons_append, List.append_assoc] at hc hcount
  rw [count_some] at hcount
  refine .look ?_
  rw [hc.kind?]
  refine .andThen (.expected hc nofun) fun _ c₁ h₁ => ?_
  have hprops : Dies Cursor.AtIn c₁ (separated (.punct .rbrace) (Grammar.patternProp (Grammar.rules [] d))) :=
    .separated (A := fun x (p : PatternProp) => p.bare = f x)
      (fun hx hclear => hx.1.reads (b := true) (fun _ => hclear) (Nat.lt_of_succ_le hcount))
      (fun hx hin => hx.2 hin (Nat.lt_of_succ_le hcount)) (fun hx => hx.1.starts) (.inl rfl) hrun hany
      (Nat.le_refl _) h₁.2
  exact hprops.goOn fun _ _ hin => .expectIn hin rfl

end HaltingPattern

/-! ### Properties of patterns -/

namespace CallHalts

theorem patternKey {key : PropKey} (hread : ReadableKey exposes lo hi ks key)
    (h : CallHalts Cursor.Never lo ks Grammar.propKey) : CallHalts Cursor.AtIn lo (ks ++ ks') Grammar.patternProp := by
  intro d m hm c line rest hcount hc
  rw [List.append_assoc] at hc hcount
  have hdots := hread.first_ne (p := .ellipsis) (by decide) (ks' ++ rest)
  refine .look ?_
  rw [hc.isAt, Token.Kind.sameSort_punct, beq_eq_false_iff_ne.mpr hdots]
  exact .bind (h hm hcount hc)

theorem patternValue {key : PropKey} (hread : ReadableKey false lo mid ks key) (h : HaltingPattern mid ks' p)
    (hp : p.isRest = false) :
    CallHalts Cursor.AtIn lo (ks ++ some (Token.Kind.punct .colon) :: ks') Grammar.patternProp := by
  intro d m hm c line rest hcount hc
  rw [List.append_assoc, List.cons_append] at hc hcount
  have hdots := hread.first_ne (p := .ellipsis) (by decide) (some (.punct .colon) :: (ks' ++ rest))
  refine .look ?_
  rw [hc.isAt, Token.Kind.sameSort_punct, beq_eq_false_iff_ne.mpr hdots]
  refine .andThen (hread.reads (b := true) (fun _ => rfl) hm hcount trivial hc) fun a c₁ h₁ => .andThen (.eaten h₁.1) ?_
  rintro _ c₂ ⟨rfl, h₂⟩
  rw [count_append, count_some] at hcount
  exact (h.element hp hm (by omega) h₂).goOn fun _ _ hin => .pure hin

theorem shorthand {k : Token.Kind} {x : String} (hk : k.propertyText? = some x) (h : Halting .assign lo ks) :
    CallHalts Cursor.AtIn lo (some k :: some (.punct .eq) :: ks) Grammar.patternProp := by
  intro d m hm c line rest hcount hc
  rw [List.cons_append, List.cons_append] at hc hcount
  refine .look ?_
  rw [hc.isAt, first_some, Token.Kind.sameSort_punct,
    beq_eq_false_iff_ne.mpr (ReadableKey.ne_punct_of_propertyText? hk _)]
  refine .andThen ((ReadableKey.name hk).reads (b := true) (fun _ => rfl) hm hcount trivial hc) fun key c₁ h₁ => ?_
  obtain ⟨name, rfl, -⟩ := ReadablePatternProp.eq_name_of_bare h₁.2
  refine .andThen (.passed h₁.1 rfl) ?_
  rintro _ _ ⟨rfl, rfl⟩
  simp only [Bool.false_eq_true, if_false]
  refine .andThen (.eaten h₁.1) ?_
  rintro _ c₂ ⟨rfl, h₂⟩
  rw [count_some, count_some] at hcount
  exact (h.callAssign hm (by omega) h₂).map.goOn fun _ _ hin => .pure hin

theorem patternRest (hread : ReadablePattern exposes lo hi ks p) (hp : p.isRest = true) (h : HaltingPattern lo ks p) :
    CallHalts Cursor.AtIn lo ks Grammar.patternProp := by
  intro d m hm c line rest hcount hc
  obtain ⟨k, ks', rfl, hk⟩ := hread.starts
  rw [hp] at hk
  cases hk
  refine .look ?_
  rw [hc.isAt]
  exact (h.dots hp hm hcount hc).goOn fun _ _ hin => .pure hin

/-! ### Declarations -/

theorem declTarget (h : HaltingPattern lo ks p) (hp : p.isBinding = true) :
    CallHalts Cursor.Never lo (ks ++ ks') Grammar.declarator := by
  intro d m hm c line rest hcount hc
  rw [List.append_assoc] at hcount hc
  exact .bind (h.callBinding hp hm hcount hc)

theorem declInit (hread : ReadablePattern false lo mid ks p) (hp : p.isBinding = true) (h : Halting .assign mid ks') :
    CallHalts Cursor.AtIn lo (ks ++ some (Token.Kind.punct .eq) :: ks') Grammar.declarator := by
  intro d m hm c line rest hcount hc
  rw [List.append_assoc, List.cons_append] at hcount hc
  refine .andThen (hread.callBinding hp (b := true) (fun _ => rfl) hm hcount trivial hc) fun a c₁ h₁ => ?_
  unfold Grammar.rejectReceiver
  split
  · exact .failAt_bind
  rw [pure_bind]
  refine .andThen (.eaten h₁.1) ?_
  rintro _ c₂ ⟨rfl, h₂⟩
  rw [count_append, count_some] at hcount
  exact (h.callAssign (m := count (ks' ++ rest)) (by omega) (Nat.le_refl _) h₂).goOn fun _ _ hin => .pure hin

end CallHalts

theorem Halts.declaration {ι : Type} {t : ι → Text} {f : ι → Declarator} (exposes : ι → Bool) {xs : List ι}
    (kind : VarKind) (hrun : Run (fun lo hi x => ReadableDeclarator (exposes x) lo hi (t x) (f x) ∧
      (exposes x = true → CallHalts Cursor.AtIn lo (t x) Grammar.declarator)) lo hi xs)
    (hany : xs.any exposes = true) (d : Nat) :
    Halts Cursor.AtIn d lo (some (.reserved kind.word) :: commaTexts (xs.map t))
      (Grammar.declaration (Grammar.rules [] d)) := by
  intro c line rest hcount hc
  rw [List.cons_append] at hc hcount
  rw [count_some] at hcount
  refine .andThen (.next hc nofun) fun word c₁ h₁ => ?_
  have hdecls : Dies Cursor.AtIn c₁ (commaList (Grammar.declarator (Grammar.rules [] d))) :=
    .commaList (A := fun x (d : Declarator) => d.bare = f x)
      (fun hx hclear => hx.1.reads (b := true) (fun _ => hclear) (Nat.lt_of_succ_le hcount))
      (fun hx hin => hx.2 hin (Nat.lt_of_succ_le hcount)) ends_comma hrun hany (Nat.le_refl _) h₁.2
  exact hdecls.goOn fun _ _ hin => .look (.pure hin)

/-- The target of a loop is declared without a value. -/
theorem Halts.eachTarget (kind : VarKind) (h : HaltingPattern lo ks p) (hp : p.isBinding = true) (d : Nat) :
    Halts Cursor.Never d lo (some (.reserved kind.word) :: ks) (Grammar.declaration (Grammar.rules [] d)) := by
  intro c line rest hcount hc
  rw [List.cons_append] at hc hcount
  rw [count_some] at hcount
  refine .andThen (.next hc nofun) fun word c₁ h₁ => ?_
  have htarget := h.callBinding hp (Nat.lt_of_succ_le hcount) (Nat.le_refl _) h₁.2
  have hdecls : Dies Cursor.Never c₁ (commaList (Grammar.declarator (Grammar.rules [] d))) := by
    refine fun _ _ hrun => Dies.bind (Dies.bind htarget) hrun
  exact .bind hdecls

end

/-! ### Heads of loops -/

def Stmt.isEach : Stmt → Bool
  | forEach .. => true
  | _ => false

section
variable {b line : Bool} {lo d : Nat} {ks rest : Text} {c c' : Cursor} {span : Span} {s : Stmt} {r : Rules}

theorem Making.Dies.headOf {α : Type} {p : Parse α} (h : Dies Cursor.AtIn { c with noIn := true } p) :
    Dies (fun c' => c'.kind? = some (.reserved .kwIn)) c (Parse.withNoIn true p) := by
  intro a c' hrun
  unfold Parse.withNoIn at hrun
  split at hrun
  · next hp =>
    cases hrun
    obtain ⟨n, rest, hready⟩ := h hp
    exact hready.kind?
  · cases hrun

theorem isEach_of_forEachRest {target : ForTarget} (h : Grammar.forEachRest r span target c = .ok s c') :
    s.isEach = true := by
  obtain ⟨_, _, -, h⟩ := Parse.bind_eq_ok h
  obtain ⟨_, _, -, h⟩ := Parse.bind_eq_ok h
  dsimp only at h
  split at h
  all_goals
    obtain ⟨_, _, -, h⟩ := Parse.bind_eq_ok h
    obtain ⟨_, _, -, h⟩ := Parse.bind_eq_ok h
    obtain ⟨_, _, -, h⟩ := Parse.bind_eq_ok h
    cases h
    rfl

/-- No counting loop goes on with `in`. -/
theorem forLoopRest_in {init : ForInit} (hc : c.kind? = some (.reserved .kwIn)) :
    Dies Cursor.Never c (Grammar.forLoopRest r span init) :=
  .expectOther (by rw [Cursor.isAt, hc]; rfl)

/-- The head of a loop that starts with the word of a declaration. -/
theorem forHead_declaration (kind : VarKind) (hstarts : first ks = .reserved kind.word) (hc : c.Ready line b lo ks)
    (hrun : Grammar.forHead r span c = .ok s c') :
    ∃ decl c₁, Parse.withNoIn true (Grammar.declaration r) c = .ok decl c₁ ∧
      (s.isEach = true ∨ Grammar.forLoopRest r span (.var decl) c₁ = .ok s c') := by
  have hsemi : c.isAt (.punct .semi) = false := by rw [hc.isAt, hstarts]; rfl
  have hdecl : Grammar.isAtDeclaration c = true := by
    rw [hc.isAtDeclaration, hstarts]
    cases kind <;> rfl
  change (if c.isAt (.punct .semi) = true then _ else (Parse.look Grammar.isAtDeclaration >>= _)) c = _ at hrun
  rw [hsemi, if_neg Bool.false_ne_true] at hrun
  change (if Grammar.isAtDeclaration c = true then (_ : Parse Stmt) else _) c = _ at hrun
  rw [hdecl, if_pos rfl] at hrun
  obtain ⟨decl, c₁, hread, hrun⟩ := Parse.bind_eq_ok hrun
  refine ⟨decl, c₁, hread, ?_⟩
  change (if Grammar.isAtEach c₁ = true then (_ : Parse Stmt) else _) c₁ = _ at hrun
  split at hrun
  · -- only a single name or pattern without a value is looped over
    rcases decl with ⟨_, _, _ | ⟨⟨_, _, _ | _⟩, _ | _⟩⟩
    case isTrue.cons.none.nil => exact .inl (isEach_of_forEachRest hrun)
    all_goals exact .inr hrun
  · exact .inr hrun

/-- The head of a loop that starts with an expression. -/
theorem forHead_expression (hstarts : (first ks).startsExpr = true) (hc : c.Ready line b lo ks)
    (hrun : Grammar.forHead r span c = .ok s c') :
    ∃ e c₁, Parse.withNoIn true r.expr c = .ok e c₁ ∧
      (s.isEach = true ∨ Grammar.forLoopRest r span (.expr e) c₁ = .ok s c') := by
  have hne : ∀ k : Token.Kind, k.startsExpr = false → first ks ≠ k := fun k => Token.Kind.ne_of_startsExpr hstarts
  have hsemi : c.isAt (.punct .semi) = false := by
    rw [hc.isAt]
    simpa using hne (.punct .semi) rfl
  have hdecl : Grammar.isAtDeclaration c = false := by
    rw [hc.isAtDeclaration]
    simp [hne (.reserved .kwVar) rfl, hne (.reserved .kwLet) rfl, hne (.reserved .kwConst) rfl]
  change (if c.isAt (.punct .semi) = true then _ else (Parse.look Grammar.isAtDeclaration >>= _)) c = _ at hrun
  rw [hsemi, if_neg Bool.false_ne_true] at hrun
  change (if Grammar.isAtDeclaration c = true then (_ : Parse Stmt) else _) c = _ at hrun
  rw [hdecl, if_neg Bool.false_ne_true] at hrun
  obtain ⟨e, c₁, hread, hrun⟩ := Parse.bind_eq_ok hrun
  refine ⟨e, c₁, hread, ?_⟩
  change (if Grammar.isAtEach c₁ = true then (_ : Parse Stmt) else _) c₁ = _ at hrun
  split at hrun
  · dsimp only at hrun
    split at hrun
    · cases hrun
    · exact .inl (isEach_of_forEachRest hrun)
  · exact .inr hrun

/-- A head that starts with an exposed declaration is read as that of a loop over keys, or not at all. -/
theorem isEach_of_declaration (h : Halts Cursor.AtIn d lo ks (Grammar.declaration (Grammar.rules [] d)))
    (kind : VarKind) (hstarts : first (ks ++ rest) = .reserved kind.word) (hcount : count (ks ++ rest) ≤ d)
    (hc : c.Ready line b lo (ks ++ rest)) (hrun : Grammar.forHead (Grammar.rules [] d) span c = .ok s c') :
    s.isEach = true := by
  obtain ⟨decl, c₁, hread, heach | hrest⟩ := forHead_declaration kind hstarts hc hrun
  · exact heach
  · exact (forLoopRest_in ((h hcount (hc.withNoIn true)).headOf hread) hrest).elim

theorem isEach_of_expression (h : CallHalts Cursor.AtIn lo ks Rules.expr)
    (hstarts : (first (ks ++ rest)).startsExpr = true) (hcount : count (ks ++ rest) < d)
    (hc : c.Ready line b lo (ks ++ rest)) (hrun : Grammar.forHead (Grammar.rules [] d) span c = .ok s c') :
    s.isEach = true := by
  obtain ⟨e, c₁, hread, heach | hrest⟩ := forHead_expression hstarts hc hrun
  · exact heach
  · exact (forLoopRest_in ((h hcount (Nat.le_refl _) (hc.withNoIn true)).headOf hread) hrest).elim

/-- A head that starts with an exposed target is not read at all. -/
theorem forHead_dies (h : Halts Cursor.Never d lo ks (Grammar.declaration (Grammar.rules [] d)))
    (kind : VarKind) (hstarts : first (ks ++ rest) = .reserved kind.word) (hcount : count (ks ++ rest) ≤ d)
    (hc : c.Ready line b lo (ks ++ rest)) : Dies Cursor.Never c (Grammar.forHead (Grammar.rules [] d) span) := by
  intro s c' hrun
  obtain ⟨decl, c₁, hread, -⟩ := forHead_declaration kind hstarts hc hrun
  unfold Parse.withNoIn at hread
  split at hread
  · next hp => exact (h hcount (hc.withNoIn true) hp).elim
  · cases hread

theorem forStmt_head (hc : c.Ready line b lo (some (.reserved .kwFor) :: some (.punct .lparen) :: ks))
    (hrun : Grammar.forStmt r c = .ok s c') :
    ∃ span c₁, c₁.Ready false b lo ks ∧ Grammar.forHead r span c₁ = .ok s c' := by
  obtain ⟨word, c₁, hword, hrun⟩ := Parse.bind_eq_ok hrun
  obtain ⟨_, _, hword', -, h₁⟩ := Gives.expected hc nofun
  cases hword.symm.trans hword'
  obtain ⟨_, c₂, hparen, hrun⟩ := Parse.bind_eq_ok hrun
  obtain ⟨_, _, hparen', -, h₂⟩ := Gives.expected h₁ nofun
  cases hparen.symm.trans hparen'
  exact ⟨word.span, c₂, h₂, hrun⟩

end

end LabelWeaver
