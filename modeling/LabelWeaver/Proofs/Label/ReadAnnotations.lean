import LabelWeaver.Proofs.Grammar.Reads
import LabelWeaver.Proofs.Label.Annotated

/-! Readers of annotations on the tokens of annotations: labels, contracts, suffixes, parameters with
    suffixes and operators. Expressions are read by the rules; all that annotations need of the rules
    is in `ReadsOperands`. -/

namespace LabelWeaver.Annotated

open Parse Grammar

variable {names : RuntimeNames} {r : Rules} {k : Token.Kind} {ks : List Token.Kind}

/-! ### Labels -/

theorem reads_memberTail {allowCall : Bool} {e : Expr}
    (hk : ([Punct.dot, .lbracket, .lparen].all fun p => !k.sameSort (.punct p)) = true) :
    Reads (memberTail r allowCall e) (k :: ks) (k :: ks) (· = e) := by
  simp only [List.all_cons, List.all_nil, Bool.and_true, Bool.and_eq_true, Bool.not_eq_true'] at hk
  obtain ⟨hdot, hbracket, hparen⟩ := hk
  refine .stop (.pass hdot (.pass hbracket ?_))
  cases allowCall with
  | true => exact .pass hparen (.pure rfl)
  | false => exact .pure rfl

theorem reads_label {q : Parse (List Label)} {x : String} (hk : k = .punct .star ∨ k = .marker .labelClose) :
    Reads (Label.label r q) (.ident x :: k :: ks) (k :: ks) fun _ => True := by
  refine .firstTwo fun s s' ts prev noIn n hts => ?_
  rcases hk with rfl | rfl
  · exact ⟨_, _, rfl, hts.cons s', rfl, trivial⟩
  · exact ⟨_, _, rfl, hts.cons s', rfl, trivial⟩

theorem reads_labels (x : BaseName) (xs : List BaseName) :
    Reads (Label.labels r) (.ident x.text ::
      ((xs.flatMap fun y => [.punct .star, .ident y.text]) ++ .marker .labelClose :: ks)) ks fun _ => True := by
  have hloop : ∀ (xs : List BaseName) (x : BaseName) (size : Nat), xs.length < size →
      Reads (Label.labelsFrom r size) (.ident x.text ::
        ((xs.flatMap fun y => [.punct .star, .ident y.text]) ++ .marker .labelClose :: ks)) ks fun _ => True := by
    intro xs
    induction xs with
    | nil =>
      intro x size hsize
      obtain ⟨size, rfl⟩ : ∃ n, size = n + 1 := ⟨size - 1, by simp at hsize; omega⟩
      refine (reads_label (.inr rfl)).bind fun _ _ => ?_
      exact .pass rfl (.eat rfl (.pure trivial))
    | cons y ys ih =>
      intro x size hsize
      rw [List.length_cons] at hsize
      obtain ⟨size, rfl⟩ : ∃ n, size = n + 1 := ⟨size - 1, by omega⟩
      refine (reads_label (.inl rfl)).bind fun _ _ => ?_
      refine .eat rfl ?_
      exact (ih y size (by omega)).bind fun _ _ => .pure trivial
  have hcount : xs.length ≤ (xs.flatMap fun y => [Token.Kind.punct .star, .ident y.text]).length :=
    length_le_flatMap (by simp) xs
  refine .sized (hloop xs x _ ?_)
  rw [List.length_cons, List.length_append]
  omega

theorem reads_labelContract (l : Labels) :
    Reads (Label.labelContract r) (l.kinds ++ ks) ks fun _ => True := by
  rw [l.kinds_append]
  refine .expect (by simp) fun _ _ => ?_
  refine (reads_labels l.first l.rest).bind fun _ _ => ?_
  exact .prevSpan fun _ => .pure trivial

/-- What the readers of annotations ask of the rules: operands in front of label lists and commas. -/
structure ReadsOperands (r : Rules) : Prop where
  conditional : ∀ x ks, Reads r.conditional (.ident x :: .marker .labelOpen :: ks) (.marker .labelOpen :: ks)
    fun _ => True
  string : ∀ v ks, Reads r.assign (.string v :: .punct .comma :: ks) (.punct .comma :: ks) fun _ => True
  number : ∀ m ks, Reads r.assign (.number m :: .punct .comma :: ks) (.punct .comma :: ks) fun _ => True

/-- A contract ends in front of anything but a condition. -/
def endsContract (ks : List Token.Kind) : Prop := ∃ k ks', ks = k :: ks' ∧ k.sameSort (.contextual .kwWhere) = false

/-- The labels of a contract, with no condition behind them. -/
theorem reads_contractEnd {l : Labels} {allowCondition : Bool} {start : Span} {base : Option Expr}
    (h : endsContract ks) :
    Reads (do
      let labels ← if ← eat (.marker .labelOpen) then Label.labels r
        else if base.isNone then failHere .expectedContract
        else pure []
      let condition ← if allowCondition then do
          if ← eat (.contextual .kwWhere) then some <$> r.conditional else pure none
        else pure none
      return (⟨start.join (← prevSpan), base, labels, condition⟩ : Contract)) (l.kinds ++ ks) ks fun _ => True := by
  obtain ⟨k, ks, rfl, hk⟩ := h
  rw [l.kinds_append]
  refine .eat rfl ?_
  refine (reads_labels l.first l.rest).bind fun _ _ => ?_
  cases allowCondition with
  | true =>
    refine .pass hk ?_
    rw [if_neg Bool.false_ne_true]
    exact .pure_bind (.prevSpan fun _ => .pure trivial)
  | false =>
    dsimp only
    rw [if_neg Bool.false_ne_true]
    exact .pure_bind (.prevSpan fun _ => .pure trivial)

theorem reads_contract_labels (l : Labels) (allowCondition : Bool) (h : endsContract ks) :
    Reads (Label.contract allowCondition r) (l.kinds ++ ks) ks fun _ => True := by
  refine .here fun _ => ?_
  rw [l.kinds_append]
  refine .kind? (.pure_bind ?_)
  rw [← l.kinds_append]
  exact reads_contractEnd h

theorem reads_contract_typed (hr : ReadsOperands r) (x : String) (l : Labels) (allowCondition : Bool)
    (h : endsContract ks) :
    Reads (Label.contract allowCondition r) (.ident x :: (l.kinds ++ ks)) ks fun _ => True := by
  have hoperand : Reads (some <$> r.conditional) (.ident x :: (l.kinds ++ ks)) (l.kinds ++ ks) fun _ => True := by
    rw [l.kinds_append]
    exact .map (hr.conditional x _) fun _ _ => trivial
  refine .here fun _ => .kind? ?_
  exact hoperand.bind fun _ _ => reads_contractEnd h

/-! ### Suffixes -/

/-- The first token of a suffix ends a contract before it. -/
theorem Suffix.exists_kinds (s : Suffix) : ∃ k ks, s.kinds = k :: ks ∧
    k.sameSort (.contextual .kwWhere) = false ∧ ∀ c : Cursor, c.kind? = some k → Label.isAtSuffix c = true := by
  cases s with
  | labels l => exact ⟨_, _, rfl, rfl, fun c hc => by rw [Label.isAtSuffix, hc]⟩
  | typed base l =>
    rw [Suffix.kinds]
    by_cases hbase : base.text = "A"
    · rw [if_pos hbase]
      exact ⟨_, _, rfl, rfl, fun c hc => by rw [Label.isAtSuffix, hc]⟩
    · rw [if_neg hbase]
      exact ⟨_, _, rfl, rfl, fun c hc => by rw [Label.isAtSuffix, hc]⟩
  | every l => exact ⟨_, _, rfl, rfl, fun c hc => by rw [Label.isAtSuffix, hc]⟩
  | named key l => exact ⟨_, _, rfl, rfl, fun c hc => by rw [Label.isAtSuffix, hc]⟩
  | atLeast count l => exact ⟨_, _, rfl, rfl, fun c hc => by rw [Label.isAtSuffix, hc]⟩

theorem reads_shapeArgs {key : Token.Kind} (l : Labels)
    (hkey : ∀ ks, Reads r.assign (key :: .punct .comma :: ks) (.punct .comma :: ks) fun _ => True) :
    Reads (Label.shapeArgs r) (.punct .lbracket :: key :: .punct .comma :: (l.kinds ++ .punct .rbracket :: ks)) ks
      fun _ => True := by
  refine .expect (by simp) fun _ _ => ?_
  refine (hkey _).bind fun _ _ => ?_
  refine .expect (by simp) fun _ _ => ?_
  refine (reads_contract_labels l true ⟨_, _, rfl, rfl⟩).bind fun _ _ => ?_
  exact .expect (by simp) fun _ _ => .pure trivial

theorem reads_every (l : Labels) (d : Demand) (h : endsContract ks) :
    Reads (Label.suffix r d) (.marker .shapeEvery :: (l.kinds ++ ks)) ks fun o => ∃ d', o = some d' ∧ True := by
  refine .kind? (.advance (by simp) fun _ _ => ?_)
  exact (reads_contract_labels l true h).bind fun _ _ => .pure ⟨_, rfl, trivial⟩

theorem reads_suffix (hr : ReadsOperands r) (s : Suffix) (d : Demand) (h : endsContract ks) :
    Reads (Label.suffix r d) (s.kinds ++ ks) ks fun o => ∃ d', o = some d' ∧ True := by
  cases s with
  | labels l =>
    refine .kind? (.advance (by simp) fun _ _ => ?_)
    exact (reads_contract_labels l true h).bind fun _ _ => .pure ⟨_, rfl, trivial⟩
  | typed base l =>
    rw [Suffix.kinds]
    by_cases hbase : base.text = "A"
    · rw [if_pos hbase]
      exact reads_every l d h
    · rw [if_neg hbase]
      refine .kind? (.advance (by simp) fun _ _ => ?_)
      exact (reads_contract_typed hr base.text l true h).bind fun _ _ => .pure ⟨_, rfl, trivial⟩
  | every l => exact reads_every l d h
  | named key l =>
    rw [Suffix.named_kinds_append]
    refine .kind? (.advance (by simp) fun _ _ => ?_)
    exact (reads_shapeArgs l (hr.string key.text)).bind fun _ _ => .pure ⟨_, rfl, trivial⟩
  | atLeast count l =>
    rw [Suffix.atLeast_kinds_append]
    refine .kind? (.advance (by simp) fun _ _ => ?_)
    exact (reads_shapeArgs l (hr.number count.text)).bind fun _ _ => .pure ⟨_, rfl, trivial⟩

/-- What follows a binding with its suffixes. -/
inductive EndsBinding : Token.Kind → Prop
  | comma : EndsBinding (.punct .comma)
  | rparen : EndsBinding (.punct .rparen)
  | eq : EndsBinding (.punct .eq)

theorem EndsBinding.endsContract (hk : EndsBinding k) (ks : List Token.Kind) : endsContract (k :: ks) := by
  cases hk <;> exact ⟨_, _, rfl, rfl⟩

theorem reads_suffixes (hr : ReadsOperands r) (ss : List Suffix) (d : Demand) (hk : EndsBinding k) :
    Reads (Label.suffixes r d) (ss.flatMap Suffix.kinds ++ k :: ks) (k :: ks) fun _ => True := by
  refine .extend (fun s rest d h _ => reads_suffix hr s d h) ?_ ?_ (hk.endsContract ks) ?_ ss trivial
  · intro s rest _
    obtain ⟨k', ks', hs, hwhere, -⟩ := s.exists_kinds
    exact ⟨k', ks' ++ rest, by rw [hs, List.cons_append], hwhere⟩
  · intro s
    obtain ⟨k', ks', hs, -⟩ := s.exists_kinds
    rw [hs]
    exact Nat.succ_pos _
  · intro d _
    cases hk <;> exact .kind? (.pure rfl)

theorem reads_baseBinding {x : String} :
    Reads (baseBinding r) (.ident x :: ks) ks fun p => ∃ b, p = .name b ∧ b.name.text = x :=
  .kind? (.expectIdent fun n hn => .pure ⟨⟨n.span, n, .none⟩, rfl, hn⟩)

/-- A name with suffixes is the same binding as the name alone, but for what is demanded. -/
theorem reads_binding (hr : ReadsOperands r) (x : String) (ss : List Suffix) (hk : EndsBinding k) :
    Reads (Label.binding r (baseBinding r)) (.ident x :: (ss.flatMap Suffix.kinds ++ k :: ks)) (k :: ks)
      fun p => ∃ b, p = .name b ∧ b.name.text = x := by
  refine .lookFirst false (fun _ _ _ _ _ => rfl) ?_
  refine reads_baseBinding.bind ?_
  rintro _ ⟨b, rfl, hb⟩
  cases ss with
  | nil =>
    refine .lookFirst false (fun _ _ _ _ _ => ?_) (.pure ⟨b, rfl, hb⟩)
    cases hk <;> rfl
  | cons s ss =>
    obtain ⟨k', ks', hs, -, hat⟩ := s.exists_kinds
    have hsuffixes : Reads _ ((s :: ss).flatMap Suffix.kinds ++ k :: ks) _ _ :=
      reads_suffixes hr (s :: ss) b.demand hk
    rw [List.flatMap_cons, hs, List.cons_append, List.cons_append] at hsuffixes ⊢
    refine .lookFirst true (fun _ _ _ _ _ => hat _ rfl) ?_
    refine hsuffixes.bind fun d _ => .prevSpan fun s => ?_
    exact .pure ⟨⟨b.span.join s, b.name, d⟩, rfl, hb⟩

/-! ### Parameters -/

/-- Parameters that are names, those from the place `i` on. -/
def IsParams (i n : Nat) (ps : List Pattern) : Prop :=
  ∃ bs : List Binding, ps = bs.map .name ∧ bs.map (·.name.text) = (List.range' i n).map paramText

theorem IsParams.cons {i n : Nat} {b : Binding} {ps : List Pattern} (hb : b.name.text = paramText i)
    (h : IsParams (i + 1) n ps) : IsParams i (n + 1) (.name b :: ps) := by
  obtain ⟨bs, rfl, hbs⟩ := h
  refine ⟨b :: bs, rfl, ?_⟩
  rw [List.map_cons, hb, hbs, List.range'_succ, List.map_cons]

/-- None of the parameters is the place of a receiver. -/
theorem IsParams.takeReceiver {i n : Nat} {ps : List Pattern} (h : IsParams i n ps) :
    Label.takeReceiver none ps = .ok (none, ps) := by
  obtain ⟨bs, rfl, -⟩ := h
  induction bs with
  | nil => rfl
  | cons b bs ih =>
    rw [List.map_cons, Label.takeReceiver]
    · simp only [Pattern.findThis?]
      rw [ih]
      rfl
    all_goals simp

/-- The rules read names with suffixes as bindings. -/
def ReadsBindings (r : Rules) : Prop :=
  ∀ (x : String) (ss : List Suffix) (k : Token.Kind) (ks : List Token.Kind), EndsBinding k →
    Reads r.binding (.ident x :: (ss.flatMap Suffix.kinds ++ k :: ks)) (k :: ks) fun p =>
      ∃ b, p = .name b ∧ b.name.text = x

theorem reads_listElement (hr : ReadsBindings r) (i : Nat) (ss : List Suffix)
    (hk : k = .punct .comma ∨ k = .punct .rparen) :
    Reads (listElement r) (paramKinds i ss ++ k :: ks) (k :: ks)
      fun p => ∃ b, p = .name b ∧ b.name.text = paramText i := by
  refine .isAt ?_
  rcases hk with rfl | rfl
  · exact (hr (paramText i) ss _ ks .comma).bind fun p hp => .pass rfl (.pure hp)
  · exact (hr (paramText i) ss _ ks .rparen).bind fun p hp => .pass rfl (.pure hp)

theorem reads_separatedFrom (hr : ReadsBindings r) (i : Nat) (params : List (List Suffix)) (size : Nat)
    (hsize : params.length < size) :
    Reads (separatedFrom (.punct .rparen) (listElement r) size) (paramsKinds i params ++ .punct .rparen :: ks)
      (.punct .rparen :: ks) (IsParams i params.length) := by
  obtain ⟨size, rfl⟩ : ∃ n, size = n + 1 := ⟨size - 1, by omega⟩
  fun_induction paramsKinds i params generalizing size with
  | case1 => exact .isAt (.pure ⟨[], rfl, rfl⟩)
  | case2 i ss =>
    refine .isAt ((reads_listElement hr i ss (.inr rfl)).bind ?_)
    rintro _ ⟨b, rfl, hb⟩
    exact .pass rfl (.pure (.cons hb ⟨[], rfl, rfl⟩))
  | case3 i ss rest hrest ih =>
    rw [List.length_cons] at hsize
    obtain ⟨size, rfl⟩ : ∃ n, size = n + 1 := ⟨size - 1, by omega⟩
    rw [List.append_assoc]
    refine .isAt ((reads_listElement hr i ss (.inl rfl)).bind ?_)
    rintro _ ⟨b, rfl, hb⟩
    refine .eat rfl ((ih size (by omega)).bind fun ps hps => ?_)
    exact .pure (.cons hb hps)

theorem length_le_paramsKinds (i : Nat) (params : List (List Suffix)) :
    params.length ≤ (paramsKinds i params).length := by
  fun_induction paramsKinds i params with
  | case1 => exact Nat.le_refl _
  | case2 i ss => simp [paramKinds]
  | case3 i ss rest hrest ih =>
    rw [List.length_cons, List.length_append, List.length_cons]
    omega

theorem reads_baseParams (hr : ReadsBindings r) (params : List (List Suffix)) (start : Span) (name : Option Name) :
    Reads (baseParams r (.blank start name false))
      (.punct .lparen :: (paramsKinds 0 params ++ .punct .rparen :: ks)) ks
      fun fn => fn.name = name ∧ fn.isArrow = false ∧ IsParams 0 params.length fn.params := by
  have hcount := length_le_paramsKinds 0 params
  refine .expect (by simp) fun _ _ => ?_
  have hparams : Reads (separated (.punct .rparen) (listElement r)) (paramsKinds 0 params ++ .punct .rparen :: ks)
      (.punct .rparen :: ks) (IsParams 0 params.length) := by
    refine .sized (reads_separatedFrom hr 0 params _ ?_)
    rw [List.length_append]
    omega
  refine hparams.bind fun ps hps => ?_
  exact .expect (by simp) fun _ _ => .pure ⟨rfl, rfl, hps⟩

/-- The signature behind the parameters changes none of them. -/
theorem reads_params (hr : ReadsBindings r) (params : List (List Suffix)) (returns : Option Labels) (start : Span)
    (name : Option Name) :
    Reads (Label.params r (baseParams r) (.blank start name false))
      (.punct .lparen :: (paramsKinds 0 params ++ .punct .rparen :: (returnsKinds returns ++ .punct .lbrace :: ks)))
      (.punct .lbrace :: ks)
      fun fn => fn.name = name ∧ fn.isArrow = false ∧ IsParams 0 params.length fn.params := by
  refine (reads_baseParams hr params start name).bind ?_
  rintro ⟨_, _, ps, _, _, _, _, _, _, _⟩ ⟨rfl, rfl, hps⟩
  dsimp only at hps ⊢
  rw [hps.takeReceiver]
  dsimp only
  rw [if_neg Bool.false_ne_true]
  cases returns with
  | none =>
    refine Reads.bind (A := fun _ => True) (.isAt (.pure trivial)) fun _ _ => ?_
    refine .pass rfl (.pure_bind ?_)
    refine .pass rfl (.pure_bind ?_)
    exact .pure ⟨rfl, rfl, hps⟩
  | some l =>
    refine Reads.bind (A := fun _ => True) (.isAt (.pure trivial)) fun _ _ => ?_
    refine .eat rfl ?_
    refine Reads.bind (A := fun _ => True) (.map (reads_contract_labels l false ?_) fun _ _ => trivial) fun _ _ => ?_
    · exact ⟨_, _, rfl, rfl⟩
    refine .pass rfl (.pure_bind ?_)
    exact .pure ⟨rfl, rfl, hps⟩

/-! ### Operators -/

theorem reads_labelOp (op : Operator) (e : Expr) :
    Reads (Label.labelOp ⟨false, names⟩ r e) (op.kinds ++ ks) ks fun o => ∃ e', o = some e' ∧ e' = e := by
  have hkinds : op.kinds ++ ks = .contextual (if op.dropping then .kwDrop else .kwAs) :: (op.labels.kinds ++ ks) := rfl
  rw [hkinds, op.labels.kinds_append]
  refine .lookFirst op.dropping (fun _ _ _ _ _ => ?_) ?_
  · cases op.dropping <;> rfl
  refine .lookTwo true (fun _ _ _ _ _ _ => ?_) ?_
  · cases op.dropping <;> rfl
  rw [← op.labels.kinds_append]
  refine .advance (by simp) fun _ _ => ?_
  exact (reads_labelContract op.labels).bind fun _ _ => .pure ⟨e, rfl, rfl⟩

/-- Where checks are not wanted, label operators leave their operand as it is. -/
theorem reads_labelOps (ops : List Operator) (e : Expr) (hk : k.sameSort (.contextual .kwDrop) = false)
    (hk' : k.sameSort (.contextual .kwAs) = false) :
    Reads (Label.labelOps ⟨false, names⟩ r e) (ops.flatMap Operator.kinds ++ k :: ks) (k :: ks) (· = e) := by
  refine .extend (fun op _ e' (_ : True) (he : e' = e) => ?_) (fun _ _ _ => trivial) (fun _ => ?_) trivial ?_ ops rfl
  · rw [← he]
    exact reads_labelOp op e'
  · exact Nat.succ_pos _
  · rintro e' rfl
    refine .lookFirst false (fun _ _ _ _ _ => hk) ?_
    refine .lookFirst false (fun _ _ _ _ _ => ?_) (.pure rfl)
    change ((false || k.sameSort (.contextual .kwAs)) && _ && _) = false
    rw [hk']
    rfl

end LabelWeaver.Annotated
