import LabelWeaver.Proofs.Grammar.Recovers.Basic
import LabelWeaver.Proofs.Tree.Bare

/-! Texts of expressions. A text holds together as tightly as the loosest operator in it that is not
    in parentheses; `Readable` says by which productions such a text is recovered and what may stand
    behind it. A text that is readable at one level is readable at all looser ones. -/

namespace LabelWeaver

open Layout Parse

/-! ### What an expression goes on with -/

/-- How tightly the operator of a token holds together, if an expression goes on with the token. In the
    head of a loop, where `b` holds, none goes on with `in`. -/
def Token.Kind.grip (b : Bool) (k : Token.Kind) : Option Prec :=
  match k with
  | .punct .arrow => some .primary
  | .punct .dot | .punct .lbracket | .punct .lparen => some .call
  | .punct .plusPlus | .punct .minusMinus => some .update
  | .punct .question => some .conditional
  | .punct .comma => some .sequence
  | k =>
    match BinaryOp.ofToken? k with
    | some op => if op = .in ∧ b then none else some op.prec
    | none => if (AssignOp.ofToken? k).isSome then some .assign else none

/-- The token ends an expression that holds together as tightly as `least`. -/
def Ends (b : Bool) (least : Prec) (k : Token.Kind) : Prop := ∀ p ∈ k.grip b, p < least

section
variable {b : Bool} {least least' : Prec} {k : Token.Kind}

theorem Ends.mono (h : Ends b least k) (hle : least ≤ least') : Ends b least' k :=
  fun p hp => Nat.lt_of_lt_of_le (h p hp) hle

theorem ends_of_none (h : k.grip b = none) : Ends b least k := by
  rw [Ends, h]
  nofun

/-- What ends an expression anywhere does so in the head of a loop. -/
theorem Ends.any (h : Ends false least k) : Ends b least k := by
  have hgrip : k.grip b = k.grip false ∨ k.grip b = none := by
    cases b with
    | false => exact .inl rfl
    | true =>
      cases k with
      | reserved w => cases w <;> first | exact .inl rfl | exact .inr rfl
      | punct p => cases p <;> exact .inl rfl
      | _ => exact .inl rfl
  rcases hgrip with hgrip | hgrip
  · rwa [Ends, hgrip]
  · exact ends_of_none hgrip

theorem Ends.ne (h : Ends b least k) {p : Prec} (k' : Token.Kind) (hgrip : k'.grip b = some p) (hp : least ≤ p) :
    k ≠ k' := by
  rintro rfl
  exact Nat.not_lt.mpr hp (h p hgrip)

theorem grip_binaryOp (op : BinaryOp) : op.token.grip b = if op = .in ∧ b then none else some op.prec := by
  cases op <;> rfl

theorem grip_assignOp (op : AssignOp) : (Token.Kind.punct op.sign).grip b = some .assign := by
  cases op <;> rfl

theorem ends_comma : Ends b .assign (.punct .comma) := by
  rintro p ⟨⟩
  decide

theorem ends_question : Ends b .or (.punct .question) := by
  rintro p ⟨⟩
  decide

theorem ends_assignOp (op : AssignOp) : Ends b .conditional (.punct op.sign) := by
  rw [Ends, grip_assignOp]
  rintro p ⟨⟩
  decide

theorem ends_binaryOp (op : BinaryOp) (h : op.prec < least) : Ends b least op.token := by
  rw [Ends, grip_binaryOp]
  split
  · nofun
  · rintro p ⟨⟩
    exact h

theorem eq_of_binaryOp {op : BinaryOp} (h : BinaryOp.ofToken? k = some op) : k = op.token := by
  unfold BinaryOp.ofToken? at h
  split at h <;> cases h <;> rfl

theorem eq_of_assignOp {op : AssignOp} (h : AssignOp.ofToken? k = some op) : k = .punct op.sign := by
  unfold AssignOp.ofToken? at h
  split at h <;> cases h <;> rfl

theorem eq_of_updateOp {op : UpdateOp} (h : UpdateOp.ofToken? k = some op) : k = .punct op.sign := by
  unfold UpdateOp.ofToken? at h
  split at h <;> cases h <;> rfl

end

/-! ### What an expression starts with -/

/-- The token starts an expression without an operator in front. -/
def Token.Kind.startsOperand : Token.Kind → Bool
  | ident _ | number _ | string _ | regex _ _ => true
  | reserved w =>
    match w with
    | .kwThis | .kwNull | .kwTrue | .kwFalse | .kwFunction | .kwNew => true
    | _ => false
  | punct .lparen | punct .lbracket | punct .lbrace => true
  | _ => false

/-- The token starts an expression. -/
def Token.Kind.startsExpr (k : Token.Kind) : Bool :=
  k.startsOperand || (UnaryOp.ofToken? k).isSome || (UpdateOp.ofToken? k).isSome

theorem Token.Kind.ofToken?_of_startsOperand {k : Token.Kind} (h : k.startsOperand = true) :
    UnaryOp.ofToken? k = none ∧ UpdateOp.ofToken? k = none := by
  cases k with
  | reserved w => cases w <;> first | exact ⟨rfl, rfl⟩ | cases h
  | punct p => cases p <;> first | exact ⟨rfl, rfl⟩ | cases h
  | _ => exact ⟨rfl, rfl⟩

/-! ### Accesses and calls -/

namespace Grammar

/-- What accesses and calls start with. Behind `new`, where no calls are allowed, another `new` is
    read by a production of its own. -/
def chainHead (allowCall : Bool) (r : Rules) : Parse Expr := do
  if ← isAt (.reserved .kwNew) then if allowCall then new [] r else r.new
  else atom [] r

/-- Accesses, and calls if allowed. -/
def chain (allowCall : Bool) (r : Rules) : Parse Expr := chainHead allowCall r >>= memberTail r allowCall

theorem leftHandSide_eq (r : Rules) : leftHandSide [] r = chain true r := by
  funext c
  unfold leftHandSide chain chainHead
  rw [bind_assoc]
  simp only [if_true, apply_ite (· >>= memberTail r true)]

theorem new_eq (r : Rules) :
    new [] r = do
      let word ← expect (.reserved .kwNew)
      let callee ← chain false r
      let args ← if ← eat (.punct .lparen) then exprList r (.punct .rparen) else pure []
      return .new (word.span.join (← prevSpan)) callee args := by
  unfold new chain chainHead
  simp only [bind_assoc, Bool.false_eq_true, if_false]
  congr 1
  funext word
  congr 1
  funext isNew
  cases isNew <;> simp only [Bool.false_eq_true, if_false, if_true]

end Grammar

/-! ### From one level to the next -/

section
variable {d m : Nat} {b : Bool} {ok ok' : Token.Kind → Prop} {lo hi : Nat} {ks : Text} {A : Expr → Prop}

theorem memberStep_stop {allowCall : Bool} {r : Rules} {e : Expr} {c : Cursor} {line : Bool} {n : Nat} {rest : Text}
    (hc : c.Ready line b n rest) (hdot : first rest ≠ .punct .dot) (hbracket : first rest ≠ .punct .lbracket)
    (hparen : allowCall = true → first rest ≠ .punct .lparen) :
    Gives c (Grammar.memberStep r allowCall e) fun o c' => o = none ∧ c' = c := by
  refine .pass hc (by simpa using hdot) (.pass hc (by simpa using hbracket) ?_)
  cases allowCall with
  | true => exact .pass hc (by simpa using hparen rfl) (.pure ⟨rfl, rfl⟩)
  | false => exact .pure ⟨rfl, rfl⟩

theorem baseTrailing_stop {e : Expr} {c : Cursor} {line : Bool} {n : Nat} {rest : Text} (hc : c.Ready line b n rest)
    (h : UpdateOp.ofToken? (first rest) = none) :
    Gives c (Grammar.baseTrailing e) fun a c' => a = e ∧ c' = c := by
  refine .kind? hc ?_
  rw [Option.bind_some, h]
  exact .pure ⟨rfl, rfl⟩

/-- An operator that ends an expression binds less tightly. -/
theorem Ends.ofBinary {least : Prec} {k : Token.Kind} {op : BinaryOp} (h : Ends b least k)
    (hop : BinaryOp.ofToken? k = some op) (hin : ¬(op = .in ∧ b = true)) : op.prec < least := by
  rw [eq_of_binaryOp hop, Ends, grip_binaryOp, if_neg hin] at h
  exact h op.prec rfl

theorem binaryStep_stop {least : Prec} {r : Rules} {e : Expr} {c : Cursor} {line : Bool} {n : Nat} {rest : Text}
    (hc : c.Ready line b n rest)
    (h : ∀ op, BinaryOp.ofToken? (first rest) = some op → ¬(op = .in ∧ b = true) → op.prec < least) :
    Gives c (Grammar.binaryStep r least e) fun o c' => o = none ∧ c' = c := by
  refine .look ?_
  unfold Grammar.binaryOp?
  rw [hc.kind?, hc.noIn, Option.bind_some]
  cases hop : BinaryOp.ofToken? (first rest) with
  | none => exact .pure ⟨rfl, rfl⟩
  | some op =>
    by_cases hin : op = .in ∧ b = true
    · simp only [hin, and_self, if_true]
      exact .pure ⟨rfl, rfl⟩
    · simp only [hin, if_false, h op hop hin, if_true]
      exact .pure ⟨rfl, rfl⟩

theorem Ends.ofUpdate (h : Ends b .unary (first ks)) : UpdateOp.ofToken? (first ks) = none := by
  cases hop : UpdateOp.ofToken? (first ks) with
  | none => rfl
  | some op =>
    rw [eq_of_updateOp hop] at h
    cases op <;> exact absurd (h .update rfl) (by decide)

/-- Accesses and calls are operands. -/
theorem Leads.unary {k : Token.Kind} (hk : k.startsOperand = true)
    (h : Leads d b ok lo hi (some k :: ks) (Grammar.chain true (Grammar.rules [] d))
      (Grammar.memberStep (Grammar.rules [] d) true) A) (hok : ∀ k, ok' k → ok k ∧ Ends b .unary k) :
    Recovers d b ok' lo hi (some k :: ks) (Grammar.unary [] (Grammar.rules [] d)) A := by
  have hchain : Recovers d b ok' lo hi (some k :: ks) (Grammar.chain true (Grammar.rules [] d)) A := by
    refine h.stop (fun k hk => (hok k hk).1) fun a c line n rest hc hrest => ?_
    have hends := (hok _ hrest).2
    exact memberStep_stop hc (hends.ne _ rfl (by decide)) (hends.ne _ rfl (by decide))
      fun _ => hends.ne _ rfl (by decide)
  intro c line rest hm hrest hc
  obtain ⟨hunary, hupdate⟩ := Token.Kind.ofToken?_of_startsOperand hk
  refine .kind? hc ?_
  rw [List.cons_append, first_some, Option.bind_some, Option.bind_some, hunary, hupdate]
  dsimp only
  rw [Grammar.leftHandSide_eq]
  refine (hchain hm hrest hc).andThen fun a c' h' => ?_
  refine (baseTrailing_stop h'.1 (hok _ hrest).2.ofUpdate).imp fun e c'' he => ?_
  obtain ⟨rfl, rfl⟩ := he
  exact h'

/-- Chains of operators are conditions. -/
theorem Leads.conditional
    (h : Leads d b ok lo hi ks (Grammar.binary [] (Grammar.rules [] d) .sequence)
      (Grammar.binaryStep (Grammar.rules [] d) .sequence) A) (hok : ∀ k, ok' k → ok k ∧ Ends b .conditional k) :
    Recovers d b ok' lo hi ks (Grammar.conditional [] (Grammar.rules [] d)) A := by
  have hbinary : Recovers d b ok' lo hi ks (Grammar.binary [] (Grammar.rules [] d) .sequence) A := by
    refine h.stop (fun k hk => (hok k hk).1) fun a c line n rest hc hrest => binaryStep_stop hc fun op hop hin => ?_
    have hlt := (hok _ hrest).2.ofBinary hop hin
    exact absurd hlt (by cases op <;> decide)
  intro c line rest hm hrest hc
  refine (hbinary hm hrest hc).andThen fun a c' h' => ?_
  refine .pass h'.1 ?_ (.pure h')
  simpa using (hok _ hrest).2.ne (.punct .question) rfl (by decide)

/-- Conditions are assignments. -/
theorem Recovers.assign (h : Recovers d b ok lo hi ks (Grammar.conditional [] (Grammar.rules [] d)) A)
    (hok : ∀ k, ok' k → ok k ∧ Ends b .assign k) :
    Recovers d b ok' lo hi ks (Grammar.assign [] (Grammar.rules [] d)) A := by
  intro c line rest hm hrest hc
  refine (h hm (hok _ hrest).1 hc).andThen fun a c' h' => .kind? h'.1 ?_
  rw [Option.bind_some]
  cases hop : AssignOp.ofToken? (first rest) with
  | none => exact .pure h'
  | some op =>
    have hends := (hok _ hrest).2
    rw [eq_of_assignOp hop, Ends, grip_assignOp] at hends
    exact absurd (hends .assign rfl) (by decide)

/-- Assignments are expressions. -/
theorem Recovers.expr (h : Recovers d b ok lo hi ks (Grammar.assign [] (Grammar.rules [] d)) A)
    (hok : ∀ k, ok' k → ok k ∧ Ends b .sequence k) :
    Recovers d b ok' lo hi ks (Grammar.expr [] (Grammar.rules [] d)) A := by
  intro c line rest hm hrest hc
  refine (h hm (hok _ hrest).1 hc).andThen fun a c' h' => .pass h'.1 ?_ (.pure h')
  simpa using (hok _ hrest).2.ne (.punct .comma) rfl (by decide)

end

/-! ### Readable texts -/

/-- What may stand behind a text in a chain of operators binds less tightly than this. -/
def Prec.behind (level : Prec) : Prec :=
  if level = .exponent then .exponent else if level < .unary then level.tighter else .unary

theorem Prec.assign_le_behind (level : Prec) : .assign ≤ level.behind := by
  cases level <;> decide

theorem Prec.behind_of_unary {level : Prec} (h : .unary ≤ level) : level.behind = .unary := by
  cases level <;> first | rfl | exact absurd h (by decide)

theorem Prec.behind_mono {level level' : Prec} (h : level ≤ level') : level.behind ≤ level'.behind := by
  revert h
  cases level <;> cases level' <;> decide

/-- The text stands for the expression `e` without its spans, and holds together as tightly as `level`.
    If not `exposes`, it has no operator `in` outside brackets, and if not `calls`, it is read as a
    whole behind `new`. -/
structure Readable (level : Prec) (exposes calls : Bool) (lo hi : Nat) (ks : Text) (e : Expr) : Prop where
  starts : ∃ k ks', ks = some k :: ks' ∧ k.startsExpr = true ∧ (.update ≤ level → k.startsOperand = true)
  balanced : Balanced ks
  chain : .call ≤ level → ∀ {b allowCall m d}, m ≤ d → (allowCall = false → m < d ∧ calls = false) →
    Leads m b (Ends b .primary) lo hi ks (Grammar.chain allowCall (Grammar.rules [] d))
      (Grammar.memberStep (Grammar.rules [] d) allowCall) (·.bare = e)
  unary : .unary ≤ level → ∀ {b}, Reading b (Ends b .unary) lo hi ks (Grammar.unary []) (·.bare = e)
  binary : .or ≤ level → ∀ {b least d}, (b = true → exposes = false) → least ≤ level →
    Leads d b (Ends b level.behind) lo hi ks (Grammar.binary [] (Grammar.rules [] d) least)
      (Grammar.binaryStep (Grammar.rules [] d) least) (·.bare = e)
  assign : .assign ≤ level → ∀ {b}, (b = true → exposes = false) →
    Reading b (Ends false .assign) lo hi ks (Grammar.assign []) (·.bare = e)
  expr : ∀ {b}, (b = true → exposes = false) →
    Reading b (Ends false .sequence) lo hi ks (Grammar.expr []) (·.bare = e)

namespace Readable

variable {level level' : Prec} {exposes exposes' calls calls' : Bool} {lo hi : Nat} {k : Token.Kind} {ks : Text}
  {e : Expr}

theorem ofExpr (hk : k.startsExpr = true) (hbalanced : Balanced (some k :: ks))
    (h : ∀ {b}, (b = true → exposes = false) →
      Reading b (Ends false .sequence) lo hi (some k :: ks) (Grammar.expr []) (·.bare = e)) :
    Readable .sequence exposes calls lo hi (some k :: ks) e where
  starts := ⟨k, ks, rfl, hk, fun hle => absurd hle (by decide)⟩
  balanced := hbalanced
  chain hle := absurd hle (by decide)
  unary hle := absurd hle (by decide)
  binary hle := absurd hle (by decide)
  assign hle := absurd hle (by decide)
  expr := h

theorem ofAssign (hlevel : level < .or) (hk : k.startsExpr = true) (hbalanced : Balanced (some k :: ks))
    (h : ∀ {b}, (b = true → exposes = false) →
      Reading b (Ends false .assign) lo hi (some k :: ks) (Grammar.assign []) (·.bare = e)) :
    Readable level exposes calls lo hi (some k :: ks) e where
  starts := ⟨k, ks, rfl, hk, fun hle => absurd (Nat.lt_of_lt_of_le hlevel (by decide)) (Nat.not_lt.mpr hle)⟩
  balanced := hbalanced
  chain hle := absurd (Nat.lt_of_lt_of_le hlevel (by decide)) (Nat.not_lt.mpr hle)
  unary hle := absurd (Nat.lt_of_lt_of_le hlevel (by decide)) (Nat.not_lt.mpr hle)
  binary hle := absurd hlevel (Nat.not_lt.mpr hle)
  assign _ := h
  expr hb d := (h hb d).expr fun k hk => ⟨hk.mono (by decide), hk.any⟩

theorem ofBinary (hlevel : level < .unary) (hk : k.startsExpr = true) (hbalanced : Balanced (some k :: ks))
    (h : ∀ {b least d}, (b = true → exposes = false) → least ≤ level →
      Leads d b (Ends b level.behind) lo hi (some k :: ks) (Grammar.binary [] (Grammar.rules [] d) least)
        (Grammar.binaryStep (Grammar.rules [] d) least) (·.bare = e)) :
    Readable level exposes calls lo hi (some k :: ks) e := by
  have hassign : ∀ {b}, (b = true → exposes = false) →
      Reading b (Ends false .assign) lo hi (some k :: ks) (Grammar.assign []) (·.bare = e) := fun hb d =>
    ((h hb (Nat.zero_le _)).conditional fun k hk => ⟨hk.any.mono level.assign_le_behind, hk.any.mono (by decide)⟩).assign
      fun k hk => ⟨hk, hk.any⟩
  exact
    { starts := ⟨k, ks, rfl, hk, fun hle => absurd (Nat.lt_of_lt_of_le hlevel (by decide)) (Nat.not_lt.mpr hle)⟩
      balanced := hbalanced
      chain := fun hle => absurd (Nat.lt_of_lt_of_le hlevel (by decide)) (Nat.not_lt.mpr hle)
      unary := fun hle => absurd hlevel (Nat.not_lt.mpr hle)
      binary := fun _ => h
      assign := fun _ => hassign
      expr := fun hb d => (hassign hb d).expr fun k hk => ⟨hk.mono (by decide), hk.any⟩ }

theorem ofUnary (hunary : .unary ≤ level) (hlevel : level < .call) (hk : k.startsExpr = true)
    (hoperand : .update ≤ level → k.startsOperand = true) (hbalanced : Balanced (some k :: ks))
    (h : ∀ {b}, Reading b (Ends b .unary) lo hi (some k :: ks) (Grammar.unary []) (·.bare = e)) :
    Readable level false calls lo hi (some k :: ks) e := by
  have hbinary : Readable .exponent false calls lo hi (some k :: ks) e :=
    ofBinary (by decide) hk hbalanced fun {b least d} _ _ => (h d).leads.follow fun k hk => hk.mono (by decide)
  exact
    { starts := ⟨k, ks, rfl, hk, hoperand⟩
      balanced := hbalanced
      chain := fun hle => absurd hlevel (Nat.not_lt.mpr hle)
      unary := fun _ => h
      binary := fun _ {b least d} _ _ => Prec.behind_of_unary hunary ▸ (h d).leads
      assign := fun _ => hbinary.assign (by decide)
      expr := hbinary.expr }

theorem ofChain (hlevel : .call ≤ level) (hk : k.startsOperand = true) (hbalanced : Balanced (some k :: ks))
    (h : ∀ {b allowCall m d}, m ≤ d → (allowCall = false → m < d ∧ calls = false) →
      Leads m b (Ends b .primary) lo hi (some k :: ks) (Grammar.chain allowCall (Grammar.rules [] d))
        (Grammar.memberStep (Grammar.rules [] d) allowCall) (·.bare = e)) :
    Readable level false calls lo hi (some k :: ks) e := by
  have hstarts : k.startsExpr = true := by rw [Token.Kind.startsExpr, hk, Bool.true_or, Bool.true_or]
  have hunary : Readable .unary false calls lo hi (some k :: ks) e :=
    ofUnary (by decide) (by decide) hstarts (fun _ => hk) hbalanced fun {b} d => by
      have hchain : Leads d b (Ends b .primary) lo hi (some k :: ks) (Grammar.chain true (Grammar.rules [] d))
          (Grammar.memberStep (Grammar.rules [] d) true) (·.bare = e) := h (Nat.le_refl d) nofun
      exact hchain.unary hk fun k hk => ⟨hk.mono (by decide), hk⟩
  have hbehind : level.behind = .unary := Prec.behind_of_unary (Nat.le_trans (by decide) hlevel)
  exact
    { starts := ⟨k, ks, rfl, hstarts, fun _ => hk⟩
      balanced := hbalanced
      chain := fun _ => h
      unary := fun _ => hunary.unary (by decide)
      binary := fun _ {b least d} _ _ => hbehind ▸ (hunary.unary (by decide) d).leads
      assign := fun _ => hunary.assign (by decide)
      expr := hunary.expr }

/-- What is readable is so at looser levels. -/
theorem weaken (h : Readable level exposes calls lo hi ks e) (hlevel : level' ≤ level)
    (hexposes : exposes = true → exposes' = true) (hcalls : calls = true → calls' = true) :
    Readable level' exposes' calls' lo hi ks e := by
  have hin : ∀ {b : Bool}, (b = true → exposes' = false) → b = true → exposes = false := by
    intro b hb hb'
    cases exposes with
    | false => rfl
    | true => cases (hexposes rfl).symm.trans (hb hb')
  exact
    { starts := by
        obtain ⟨k, ks', hks, hk, hoperand⟩ := h.starts
        exact ⟨k, ks', hks, hk, fun hle => hoperand (Nat.le_trans hle hlevel)⟩
      balanced := h.balanced
      chain := fun hle {b allowCall m d} hm hcall => by
        refine h.chain (Nat.le_trans hle hlevel) hm fun hfalse => ⟨(hcall hfalse).1, ?_⟩
        cases calls with
        | false => rfl
        | true => cases (hcalls rfl).symm.trans (hcall hfalse).2
      unary := fun hle => h.unary (Nat.le_trans hle hlevel)
      binary := fun hle {b least d} hb hleast =>
        (h.binary (Nat.le_trans hle hlevel) (hin hb) (Nat.le_trans hleast hlevel)).follow fun k hk =>
          hk.mono (Prec.behind_mono hlevel)
      assign := fun hle {b} hb => h.assign (Nat.le_trans hle hlevel) (hin hb)
      expr := fun hb => h.expr (hin hb) }

end Readable

end LabelWeaver
