import LabelWeaver.Label.Layer
import LabelWeaver.Grammar.Rules
import LabelWeaver.Proofs.Grammar.Consumes
import LabelWeaver.Proofs.Token.Words
import LabelWeaver.Proofs.Tree.Bare

/-! Label lists as trees. A tree is written down as a text, the text is read as tokens, and from the tokens
    the labels of the tree are read, with nothing behind the list touched. -/

namespace LabelWeaver

open Parse Grammar

/-! ### Values of one token -/

/-- The expression that a token is by itself, without its place. -/
inductive Token.Kind.Denotes : Token.Kind → Expr → Prop
  | name {k : Token.Kind} {x : String} (h : k.identText? = some x) : Denotes k (.ident .zero x)
  | number (x : String) : Denotes (.number x) (.number .zero x)

/-- The token ends a value in a list or between brackets. -/
inductive Token.Kind.EndsItem : Token.Kind → Prop
  | comma : EndsItem (.punct .comma)
  | rparen : EndsItem (.punct .rparen)
  | rbracket : EndsItem (.punct .rbracket)

section
variable {settings : Settings} {r : Rules} {t k : Token.Kind} {ks : List Token.Kind} {e : Expr}

theorem Cursor.Facing.kindAhead? {c : Cursor} {more : List Token} (h : c.Facing (t :: k :: ks) more) :
    c.kindAhead? 1 = some k := by
  obtain ⟨t', ts, hrest, -, hpast⟩ := h.exists_cons
  obtain ⟨k', ts', hrest', hk, -⟩ := hpast.exists_cons
  have hts : ts = k' :: ts' := hrest'
  rw [Cursor.kindAhead?, hrest, hts]
  exact congrArg some hk

/-- No arrow stands behind the value. -/
theorem Token.Kind.EndsItem.not_arrow (hk : k.EndsItem) : (k == .punct .arrow) = false := by
  cases hk <;> rfl

theorem Token.Kind.Denotes.ne_eof (ht : t.Denotes e) : t ≠ .eof := by
  rintro rfl
  cases ht with
  | name h => cases h

theorem Token.Kind.Denotes.not_punct (ht : t.Denotes e) (p : Punct) : t.sameSort (.punct p) = false := by
  cases ht with
  | name h => cases t <;> first | rfl | cases h
  | number => rfl

theorem Token.Kind.Denotes.not_reserved (ht : t.Denotes e) (w : Reserved) : t.sameSort (.reserved w) = false := by
  cases ht with
  | name h => cases t <;> first | rfl | cases h
  | number => rfl

theorem consumes_baseAtom {g : Grammar} (ht : t.Denotes e) (hk : k.EndsItem) :
    Consumes (baseAtom g r) (t :: k :: ks) (k :: ks) (·.bare = e) := by
  intro c more hc
  have hahead := hc.kindAhead?
  obtain ⟨⟨kind, span, newline⟩, ts, hrest, rfl, hpast⟩ := hc.exists_cons
  have harrow : (c.rest[1]?.any fun t => t.kind == .punct .arrow && !t.newlineBefore) = false := by
    rw [Cursor.kindAhead?, Option.map_eq_some_iff] at hahead
    obtain ⟨k', hk', rfl⟩ := hahead
    rw [hk', Option.any_some, hk.not_arrow, Bool.false_and]
  have hadvance : ∀ e' : Expr, (Parse.advance >>= fun _ => pure e' : Parse Expr) c = .ok e' _ :=
    fun e' => Parse.bind_ok (Parse.advance_eq_ok hrest ht.ne_eof)
  have hrun : ∃ e', baseAtom g r c = .ok e' (c.past ⟨kind, span, newline⟩ ts) ∧ e'.bare = e := by
    unfold baseAtom
    rw [Parse.bind_ok (show Parse.look Cursor.peek? c = .ok (some ⟨kind, span, newline⟩) c by
      rw [Parse.look, Cursor.peek?, hrest, List.head?_cons])]
    dsimp only
    cases ht with
    | name h =>
      refine ⟨.ident span _, ?_, rfl⟩
      rw [h]
      change (if (c.rest[1]?.any fun t => t.kind == .punct .arrow && !t.newlineBefore) then _ else _ : Parse Expr) c = _
      rw [harrow, if_neg Bool.false_ne_true]
      exact hadvance _
    | number x => exact ⟨.number span x, hadvance _, rfl⟩
  obtain ⟨e', hrun, he⟩ := hrun
  exact ⟨e', _, hrun, hpast, rfl, he⟩

/-- The value is neither a symbolic value nor a call of the function that copies labels. -/
theorem consumes_atom (ht : t.Denotes e) (hk : k.EndsItem) :
    Consumes (Grammar.atom (.labels settings) r) (t :: k :: ks) (k :: ks) (·.bare = e) := by
  have hbase : Consumes (baseAtom (.labels settings) r) (t :: k :: ks) (k :: ks) (·.bare = e) := consumes_baseAtom ht hk
  refine .kind? (.look (some k) (fun _ _ hc => hc.kindAhead?) ?_)
  split
  · rename_i hnext
    cases hnext
    cases hk
  · rename_i hnext
    cases hnext
    cases hk
  · exact hbase

theorem consumes_memberTail {allowCall : Bool} (hk : k.EndsItem) (e : Expr) :
    Consumes (memberTail r allowCall e) (k :: ks) (k :: ks) (· = e) := by
  refine .stop ?_
  cases hk with
  | _ =>
    refine .pass rfl (.pass rfl ?_)
    cases allowCall with
    | true => exact .pass rfl (.pure rfl)
    | false => exact .pure rfl

theorem consumes_labelOps (hk : k.EndsItem) (e : Expr) :
    Consumes (Label.labelOps settings r e) (k :: ks) (k :: ks) (· = e) := by
  refine .stop ?_
  cases hk with
  | _ =>
    refine .look false (fun _ _ hc => hc.isAt _) ?_
    refine .look false (fun c _ hc => ?_) (.pure rfl)
    rw [hc.isAt]
    rfl

theorem consumes_trailing (hk : k.EndsItem) (e : Expr) :
    Consumes (Grammar.trailing (.labels settings) r e) (k :: ks) (k :: ks) (· = e) := by
  have hbase : Consumes (baseTrailing e) (k :: ks) (k :: ks) (· = e) := by
    cases hk <;> exact .kind? (.pure rfl)
  refine (consumes_labelOps hk e).bind ?_
  rintro _ rfl
  refine hbase.bind ?_
  rintro _ rfl
  exact consumes_labelOps hk _

theorem consumes_unary (ht : t.Denotes e) (hk : k.EndsItem) :
    Consumes (unary (.labels settings) r) (t :: k :: ks) (k :: ks) (·.bare = e) := by
  have hleft : Consumes (leftHandSide (.labels settings) r) (t :: k :: ks) (k :: ks) (·.bare = e) := by
    refine .isAt ?_
    rw [ht.not_reserved]
    refine (consumes_atom ht hk).bind fun e' he => (consumes_memberTail hk e').imp ?_
    rintro _ rfl
    exact he
  have hvalue : Consumes (leftHandSide (.labels settings) r >>= Grammar.trailing (.labels settings) r) (t :: k :: ks)
      (k :: ks) (·.bare = e) := by
    refine hleft.bind fun e' he => (consumes_trailing hk e').imp ?_
    rintro _ rfl
    exact he
  refine .kind? ?_
  cases ht with
  | name h => cases t <;> first | exact hvalue | cases h
  | number => exact hvalue

theorem consumes_assign (ht : t.Denotes e) (hk : k.EndsItem) :
    Consumes (assign (.labels settings) r) (t :: k :: ks) (k :: ks) (·.bare = e) := by
  have hbinary : Consumes (binary (.labels settings) r .sequence) (t :: k :: ks) (k :: ks) (·.bare = e) := by
    refine (consumes_unary ht hk).bind fun e' he => ?_
    have hstop : Consumes (binaryStep r .sequence e') (k :: ks) (k :: ks) (· = none) := by
      refine .look none (fun c _ hc => ?_) (.pure rfl)
      rw [binaryOp?, hc.kind?]
      cases hk <;> rfl
    refine hstop.stop.imp ?_
    rintro _ rfl
    exact he
  have hconditional : Consumes (conditional (.labels settings) r) (t :: k :: ks) (k :: ks) (·.bare = e) := by
    refine hbinary.bind fun e' he => ?_
    cases hk <;> exact .pass rfl (.pure he)
  refine hconditional.bind fun e' he => ?_
  cases hk <;> exact .kind? (.pure he)

theorem consumes_expr (ht : t.Denotes e) :
    Consumes (expr (.labels settings) r) (t :: .punct .rbracket :: ks) (.punct .rbracket :: ks) (·.bare = e) :=
  (consumes_assign ht .rbracket).bind fun _ he => .pass rfl (.pure he)

end

/-- What the readers of labels ask of the rules: values of one token, in brackets and in lists. -/
structure Rules.TakesValues (r : Rules) : Prop where
  expr : ∀ {t e ks}, Token.Kind.Denotes t e →
    Consumes r.expr (t :: .punct .rbracket :: ks) (.punct .rbracket :: ks) (·.bare = e)
  assign : ∀ {t k e ks}, Token.Kind.Denotes t e → Token.Kind.EndsItem k →
    Consumes r.assign (t :: k :: ks) (k :: ks) (·.bare = e)

theorem takesValues (settings : Settings) (depth : Nat) : ((Grammar.labels settings).rules (depth + 1)).TakesValues where
  expr ht := consumes_expr ht
  assign ht hk := consumes_assign ht hk

namespace LabelTree

/-! ### Trees -/

/-- A word that is not reserved. -/
structure Ident where
  text : String
  nameText : NameText text.toList
  notReserved : Reserved.ofText? text = none

/-- A word. -/
structure Word where
  text : String
  nameText : NameText text.toList

structure Numeral where
  text : String
  numberText : NumberText text.toList

/-- What a path starts with. -/
inductive Root where
  | this
  | name (x : Ident) (h : x.text ≠ Contextual.kwPtrait.text)

inductive Access where
  | member (x : Word)
  | index (x : Ident)

/-- A name or the receiver with accesses to members. -/
structure Path where
  root : Root
  accesses : List Access

/-- A value that a label depends on. -/
inductive Dependant where
  | name (x : Ident)
  | number (m : Numeral)

end LabelTree

open LabelTree in
/-- Labels as they are written. A label without parameters or dependants has no brackets for them. -/
inductive LabelTree where
  | ref (path : Path)
  | named (path : Path) (parameters : List LabelTree) (dependants : List Dependant)

namespace LabelTree

/-! ### What is read -/

def Root.expr : Root → Expr
  | this => .this .zero
  | name x _ => .ident .zero x.text

def Access.expr (e : Expr) : Access → Expr
  | member x => .member .zero e ⟨.zero, x.text⟩
  | index x => .index .zero e (.ident .zero x.text)

def Path.expr (p : Path) : Expr := p.accesses.foldl Access.expr p.root.expr

def Dependant.expr : Dependant → Expr
  | name x => .ident .zero x.text
  | number m => .number .zero m.text

mutual

/-- The label that the tree stands for, without its place. -/
def label : LabelTree → Label
  | .ref p => .ref .zero p.expr
  | .named p ls ds => .named .zero p.expr (labels ls) (ds.map Dependant.expr)

def labels : List LabelTree → List Label
  | [] => []
  | l :: ls => l.label :: labels ls

end

/-! ### Tokens -/

def Root.kind : Root → Token.Kind
  | this => .reserved .kwThis
  | name x _ => Label.wordKind x.text

def Access.kinds : Access → List Token.Kind
  | member x => [.punct .dot, Label.wordKind x.text]
  | index x => [.punct .lbracket, Label.wordKind x.text, .punct .rbracket]

def Path.kinds (p : Path) : List Token.Kind := p.root.kind :: p.accesses.flatMap Access.kinds

def Dependant.kind : Dependant → Token.Kind
  | name x => Label.wordKind x.text
  | number m => .number m.text

/-- The dependants behind the first one. -/
def moreDependantKinds : List Dependant → List Token.Kind
  | [] => [.punct .rparen]
  | d :: ds => .punct .comma :: d.kind :: moreDependantKinds ds

def dependantKinds : List Dependant → List Token.Kind
  | [] => []
  | d :: ds => .punct .lparen :: d.kind :: moreDependantKinds ds

mutual

def kinds : LabelTree → List Token.Kind
  | .ref p => .contextual .kwPtrait :: p.kinds
  | .named p ls ds => p.kinds ++ listKinds ls ++ dependantKinds ds

/-- The labels behind the first one. -/
def moreKinds : List LabelTree → List Token.Kind
  | [] => [.marker .labelClose]
  | l :: ls => .punct .star :: (l.kinds ++ moreKinds ls)

/-- The tokens of a list between its signs; an empty list has none. -/
def listKinds : List LabelTree → List Token.Kind
  | [] => []
  | l :: ls => .marker .labelOpen :: (l.kinds ++ moreKinds ls)

end

/-! ### Texts -/

/-- The blanks of a text: `inner` inside of the signs of a list and behind commas, `star` around stars,
    `outer` in front of a list. -/
structure Blanks where
  inner : Nat
  star : Nat
  outer : Nat

def blanks (n : Nat) : List Char := List.replicate n ' '

def Root.text : Root → List Char
  | this => Reserved.kwThis.text.toList
  | name x _ => x.text.toList

def Access.text : Access → List Char
  | member x => '.' :: x.text.toList
  | index x => '[' :: (x.text.toList ++ [']'])

def Path.text (p : Path) : List Char := p.root.text ++ p.accesses.flatMap Access.text

def Dependant.text : Dependant → List Char
  | name x => x.text.toList
  | number m => m.text.toList

def moreDependantText (b : Blanks) : List Dependant → List Char
  | [] => blanks b.inner ++ [')']
  | d :: ds => ',' :: (blanks b.inner ++ (d.text ++ moreDependantText b ds))

def dependantText (b : Blanks) : List Dependant → List Char
  | [] => []
  | d :: ds => blanks b.outer ++ '(' :: (blanks b.inner ++ (d.text ++ moreDependantText b ds))

mutual

def text (b : Blanks) : LabelTree → List Char
  | .ref p => Contextual.kwPtrait.text.toList ++ (blanks (b.outer + 1) ++ p.text)
  | .named p ls ds => p.text ++ (listText b ls ++ dependantText b ds)

def moreText (b : Blanks) : List LabelTree → List Char
  | [] => blanks b.inner ++ ['!', '>']
  | l :: ls => blanks b.star ++ '*' :: (blanks b.star ++ (text b l ++ moreText b ls))

def listText (b : Blanks) : List LabelTree → List Char
  | [] => []
  | l :: ls => blanks b.outer ++ '<' :: '!' :: (blanks b.inner ++ (text b l ++ moreText b ls))

end

example : String.ofList (listText ⟨1, 1, 0⟩
    [.named ⟨.name ⟨"Tainted", by decide, by decide⟩ (by decide), [.member ⟨"in", by decide⟩]⟩
      [.ref ⟨.this, [.index ⟨"as", by decide, by decide⟩]⟩, .named ⟨.this, []⟩ [] []]
      [.name ⟨"x", by decide, by decide⟩, .name ⟨"drop", by decide, by decide⟩]]) =
    "<! Tainted.in<! ptrait this[as] * this !>( x, drop ) !>" := by
  decide

/-! ### From texts to tokens -/

/-- The text does not continue a word before it. -/
def Breaks (cs : List Char) : Prop := cs.head?.any isWordPart = false

section
variable {cs : List Char} {ks : List Token.Kind} {b : Blanks}

theorem breaks_blanks (n : Nat) (h : Breaks cs) : Breaks (blanks n ++ cs) := by
  cases n with
  | zero => exact h
  | succ n => rfl

/-- Signs in front of a word, with or without blanks between them. -/
theorem continues_blanks {p : Punct} {c : Char} (hp : p.continues ' ' = false) (hc : Lexeme.isIdentPart c = true) (n : Nat)
    (cs : List Char) : ∀ d ∈ (blanks n ++ c :: cs).head?, p.continues d = false := by
  intro d hd
  cases n with
  | zero =>
    cases hd
    exact p.continues_of_isIdentPart hc
  | succ n =>
    cases hd
    exact hp

theorem NameText.exists_cons {cs : List Char} (h : NameText cs) : ∃ c ds, cs = c :: ds ∧ Lexeme.isIdentStart c = true := by
  cases cs with
  | nil => exact h.elim
  | cons c ds => exact ⟨c, ds, rfl, h.1⟩

theorem Access.breaks (a : Access) (cs : List Char) : Breaks (a.text ++ cs) := by
  cases a <;> rfl

theorem Access.readAs (a : Access) (hcs : Breaks cs) (h : ReadAs cs ks) : ReadAs (a.text ++ cs) (a.kinds ++ ks) := by
  cases a with
  | member x =>
    have hword := ReadAs.word x.nameText hcs h
    obtain ⟨c, ds, hx, hc⟩ := NameText.exists_cons x.nameText
    have hpart := isIdentPart_of_isIdentStart hc
    change ReadAs ('.' :: (x.text.toList ++ cs)) (.punct .dot :: Label.wordKind x.text :: ks)
    rw [hx, List.cons_append] at hword ⊢
    refine .punct rfl rfl ⟨rfl, by decide, by decide, by decide⟩ (by decide) (fun d hd => ?_) (fun _ => ?_) hword
    · cases hd
      exact Punct.continues_of_isIdentPart hpart _
    · rw [List.head?_cons, Option.any_some]
      cases hdigit : c.isDigit with
      | true => rw [isIdentStart_of_isDigit hdigit] at hc; cases hc
      | false => rfl
  | index x =>
    have hword : ReadAs (x.text.toList ++ ']' :: cs) (Label.wordKind x.text :: .punct .rbracket :: ks) :=
      .word x.nameText rfl (.sign rfl (fun _ _ _ => rfl) h)
    have hchars : (Access.index x).text ++ cs = '[' :: (x.text.toList ++ ']' :: cs) := by simp [Access.text]
    rw [hchars]
    exact .sign rfl (fun _ _ _ => rfl) hword

theorem readAs_accesses (as : List Access) (hcs : Breaks cs) (h : ReadAs cs ks) :
    ReadAs (as.flatMap Access.text ++ cs) (as.flatMap Access.kinds ++ ks) ∧ Breaks (as.flatMap Access.text ++ cs) := by
  induction as with
  | nil => exact ⟨h, hcs⟩
  | cons a as ih =>
    rw [List.flatMap_cons, List.flatMap_cons, List.append_assoc, List.append_assoc]
    exact ⟨a.readAs ih.2 ih.1, a.breaks _⟩

theorem Path.readAs (p : Path) (hcs : Breaks cs) (h : ReadAs cs ks) : ReadAs (p.text ++ cs) (p.kinds ++ ks) := by
  obtain ⟨root, as⟩ := p
  obtain ⟨has, hbreaks⟩ := readAs_accesses as hcs h
  rw [Path.text, Path.kinds, List.append_assoc]
  cases root with
  | this => exact .word Reserved.kwThis.nameText hbreaks has
  | name x => exact .word x.nameText hbreaks has

/-- Paths start as names do. -/
theorem Path.exists_cons (p : Path) : ∃ c ds, p.text = c :: ds ∧ Lexeme.isIdentPart c = true := by
  obtain ⟨root, as⟩ := p
  cases root with
  | this => exact ⟨_, _, rfl, rfl⟩
  | name x =>
    obtain ⟨c, ds, hx, hc⟩ := NameText.exists_cons x.nameText
    exact ⟨c, ds ++ as.flatMap Access.text, by rw [Path.text, Root.text, hx]; rfl, isIdentPart_of_isIdentStart hc⟩

theorem Dependant.readAs (d : Dependant) (hcs : Breaks cs) (hdot : cs.head? ≠ some '.') (h : ReadAs cs ks) :
    ReadAs (d.text ++ cs) (d.kind :: ks) := by
  cases d with
  | name x => exact .word x.nameText hcs h
  | number m => exact .numeral m.numberText (any_isIdentPart_of_isWordPart hcs) hdot h

theorem breaks_moreDependants (b : Blanks) (ds : List Dependant) (cs : List Char) :
    Breaks (moreDependantText b ds ++ cs) ∧ (moreDependantText b ds ++ cs).head? ≠ some '.' := by
  cases ds with
  | nil =>
    rw [moreDependantText]
    cases b.inner with
    | zero => exact ⟨rfl, nofun⟩
    | succ n => exact ⟨rfl, nofun⟩
  | cons d ds => exact ⟨rfl, nofun⟩

theorem readAs_moreDependants (ds : List Dependant) (h : ReadAs cs ks) :
    ReadAs (moreDependantText b ds ++ cs) (moreDependantKinds ds ++ ks) := by
  induction ds with
  | nil =>
    rw [moreDependantText, List.append_assoc]
    exact .blanks _ (.sign rfl (fun _ _ _ => rfl) h)
  | cons d ds ih =>
    obtain ⟨hbreaks, hdot⟩ := breaks_moreDependants b ds cs
    rw [moreDependantText, List.cons_append, List.append_assoc, List.append_assoc]
    exact .sign rfl (fun _ _ _ => rfl) (.blanks _ (d.readAs hbreaks hdot ih))

theorem readAs_dependants (ds : List Dependant) (h : ReadAs cs ks) :
    ReadAs (dependantText b ds ++ cs) (dependantKinds ds ++ ks) := by
  cases ds with
  | nil => exact h
  | cons d ds =>
    obtain ⟨hbreaks, hdot⟩ := breaks_moreDependants b ds cs
    rw [dependantText, List.append_assoc, List.cons_append, List.append_assoc, List.append_assoc]
    exact .blanks _ (.sign rfl (fun _ _ _ => rfl) (.blanks _ (d.readAs hbreaks hdot (readAs_moreDependants ds h))))

theorem breaks_dependants (ds : List Dependant) (hcs : Breaks cs) : Breaks (dependantText b ds ++ cs) := by
  cases ds with
  | nil => exact hcs
  | cons d ds =>
    rw [dependantText, List.append_assoc]
    exact breaks_blanks _ rfl

theorem breaks_list (ls : List LabelTree) (hcs : Breaks cs) : Breaks (listText b ls ++ cs) := by
  cases ls with
  | nil => exact hcs
  | cons l ls =>
    rw [listText, List.append_assoc]
    exact breaks_blanks _ rfl

theorem breaks_more (ls : List LabelTree) : Breaks (moreText b ls ++ cs) := by
  cases ls with
  | nil =>
    rw [moreText, List.append_assoc]
    exact breaks_blanks _ rfl
  | cons l ls =>
    rw [moreText, List.append_assoc]
    exact breaks_blanks _ rfl

/-- Labels start as names do. -/
theorem exists_cons (l : LabelTree) : ∃ c ds, text b l = c :: ds ∧ Lexeme.isIdentPart c = true := by
  cases l with
  | ref p => exact ⟨_, _, rfl, rfl⟩
  | named p ls ds =>
    obtain ⟨c, cs, hp, hc⟩ := p.exists_cons
    exact ⟨c, _, by rw [text, hp, List.cons_append], hc⟩

mutual

theorem readAs : ∀ (l : LabelTree) {cs : List Char} {ks : List Token.Kind}, Breaks cs → ReadAs cs ks →
    ReadAs (text b l ++ cs) (l.kinds ++ ks)
  | .ref p, cs, ks, hcs, h => by
    rw [text, kinds, List.append_assoc, List.append_assoc]
    exact .word Contextual.kwPtrait.nameText rfl (.blanks _ (p.readAs hcs h))
  | .named p ls ds, cs, ks, hcs, h => by
    rw [text, kinds, List.append_assoc, List.append_assoc, List.append_assoc, List.append_assoc]
    exact p.readAs (breaks_list ls (breaks_dependants ds hcs)) (readAs_list ls (readAs_dependants ds h))

theorem readAs_more : ∀ (ls : List LabelTree) {cs : List Char} {ks : List Token.Kind}, ReadAs cs ks →
    ReadAs (moreText b ls ++ cs) (moreKinds ls ++ ks)
  | [], cs, ks, h => by
    rw [moreText, List.append_assoc]
    exact .blanks _ (.token (w := ['>']) rfl (fun _ _ _ => rfl) h)
  | l :: ls, cs, ks, h => by
    have hlabel : ReadAs _ _ := l.readAs (breaks_more ls) (readAs_more ls h)
    obtain ⟨c, ds, hl, hc⟩ := exists_cons (b := b) l
    rw [moreText, moreKinds, List.append_assoc, List.cons_append, List.append_assoc, List.append_assoc, List.cons_append,
      List.append_assoc]
    refine .blanks _ (.punct rfl rfl ⟨rfl, by decide, by decide, by decide⟩ (by decide) ?_ nofun (.blanks _ hlabel))
    rw [hl, List.cons_append]
    exact continues_blanks rfl hc _ _

theorem readAs_list : ∀ (ls : List LabelTree) {cs : List Char} {ks : List Token.Kind}, ReadAs cs ks →
    ReadAs (listText b ls ++ cs) (listKinds ls ++ ks)
  | [], cs, ks, h => h
  | l :: ls, cs, ks, h => by
    have hlabel : ReadAs _ _ := l.readAs (breaks_more ls) (readAs_more ls h)
    rw [listText, listKinds, List.append_assoc, List.cons_append, List.cons_append, List.append_assoc, List.append_assoc,
      List.cons_append, List.append_assoc]
    exact .blanks _ (.token (w := ['!']) rfl (fun _ _ _ => rfl) (.blanks _ hlabel))

end

end

/-! ### From tokens to labels -/

section
variable {r : Rules} {k : Token.Kind} {ks : List Token.Kind}

/-- The token does not continue a path. -/
def EndsPath (k : Token.Kind) : Prop := k.sameSort (.punct .dot) = false ∧ k.sameSort (.punct .lbracket) = false

theorem consumes_memberStep (hr : r.TakesValues) (a : Access) {e e' : Expr} (he : e.bare = e') :
    Consumes (memberStep r false e) (a.kinds ++ ks) ks fun o => ∃ f, o = some f ∧ f.bare = a.expr e' := by
  cases a with
  | member x =>
    refine .eat rfl (.expectPropertyName (Label.propertyText?_wordKind x.text) fun n hn => .pure ⟨_, rfl, ?_⟩)
    rw [Expr.bare, he, Name.bare_eq hn]
    rfl
  | index x =>
    refine .pass rfl (.eat rfl ?_)
    refine (Consumes.withNoIn (hr.expr (.name (Label.identText?_wordKind x.notReserved)))).bind fun p hp => ?_
    refine .expect (by simp) fun _ _ => .pure ⟨_, rfl, ?_⟩
    rw [Expr.bare, he, hp]
    rfl

theorem consumes_memberTail (hr : r.TakesValues) (as : List Access) (hk : EndsPath k) {e e' : Expr} (he : e.bare = e') :
    Consumes (memberTail r false e) (as.flatMap Access.kinds ++ k :: ks) (k :: ks) (·.bare = as.foldl Access.expr e') := by
  have hloop : ∀ (size : Nat) (e e' : Expr), as.length < size → e.bare = e' →
      Consumes (extendFrom (memberStep r false) size e) (as.flatMap Access.kinds ++ k :: ks) (k :: ks)
        (·.bare = as.foldl Access.expr e') := by
    induction as with
    | nil =>
      intro size e e' hsize he
      obtain ⟨size, rfl⟩ : ∃ n, size = n + 1 := ⟨size - 1, by omega⟩
      have hstop : Consumes (memberStep r false e) (k :: ks) (k :: ks) (· = none) :=
        .pass hk.1 (.pass hk.2 (.pure rfl))
      refine hstop.bind ?_
      rintro _ rfl
      exact .pure he
    | cons a as ih =>
      intro size e e' hsize he
      rw [List.length_cons] at hsize
      obtain ⟨size, rfl⟩ : ∃ n, size = n + 1 := ⟨size - 1, by omega⟩
      rw [List.flatMap_cons, List.append_assoc]
      refine (consumes_memberStep hr a he).bind ?_
      rintro _ ⟨f, rfl, hf⟩
      exact ih size f (a.expr e') (by omega) hf
  have hcount : as.length ≤ (as.flatMap Access.kinds).length :=
    length_le_flatMap (fun a => by cases a <;> exact Nat.succ_pos _) as
  refine .sized fun size hsize => hloop size e e' ?_ he
  rw [List.length_append] at hsize
  omega

theorem consumes_labelName (hr : r.TakesValues) (p : Path) (hk : EndsPath k) :
    Consumes (Label.labelName r) (p.kinds ++ k :: ks) (k :: ks) (·.bare = p.expr) := by
  obtain ⟨root, as⟩ := p
  cases root with
  | this => exact .isAt (.advance nofun fun t _ => consumes_memberTail hr as hk rfl)
  | name x h =>
    have htext := Label.identText?_wordKind x.notReserved
    refine .isAt ?_
    change Consumes (if (Label.wordKind x.text).sameSort (.reserved .kwThis) then _ else _ : Parse Expr) _ _ _
    rw [(Token.Kind.Denotes.name htext).not_reserved, if_neg Bool.false_ne_true]
    refine .look true (fun c _ hc => ?_) (.expectIdent htext fun n hn => ?_)
    · rw [Cursor.isAtIdent, hc.kind?]
      change (Label.wordKind x.text).identText?.isSome = true
      rw [htext]
      rfl
    · refine consumes_memberTail hr as hk ?_
      rw [Expr.bare, hn]
      rfl

theorem Dependant.denotes (d : Dependant) : d.kind.Denotes d.expr := by
  cases d with
  | name x => exact .name (Label.identText?_wordKind x.notReserved)
  | number m => exact .number m.text

theorem consumes_item (hr : r.TakesValues) (d : Dependant) (hk : k.EndsItem) :
    Consumes (spreadOrAssign r) (d.kind :: k :: ks) (k :: ks) (·.bare = d.expr) := by
  refine .isAt ?_
  rw [d.denotes.not_punct]
  exact hr.assign d.denotes hk

theorem consumes_dependants (hr : r.TakesValues) (d : Dependant) (ds : List Dependant) :
    Consumes (exprList r (.punct .rparen)) (d.kind :: (moreDependantKinds ds ++ ks)) ks
      (Bare.exprs · = (d :: ds).map Dependant.expr) := by
  have hloop : ∀ (ds : List Dependant) (d : Dependant) (size : Nat), ds.length < size →
      Consumes (separatedFrom (.punct .rparen) (spreadOrAssign r) size) (d.kind :: (moreDependantKinds ds ++ ks))
        (.punct .rparen :: ks) (Bare.exprs · = (d :: ds).map Dependant.expr) := by
    intro ds
    induction ds with
    | nil =>
      intro d size hsize
      obtain ⟨size, rfl⟩ : ∃ n, size = n + 1 := ⟨size - 1, by omega⟩
      refine .isAt ?_
      rw [d.denotes.not_punct]
      refine (consumes_item hr d .rparen).bind fun e he => .pass rfl (.pure ?_)
      rw [Bare.exprs, he]
      rfl
    | cons d' ds ih =>
      intro d size hsize
      rw [List.length_cons] at hsize
      obtain ⟨size, rfl⟩ : ∃ n, size = n + 1 := ⟨size - 1, by omega⟩
      refine .isAt ?_
      rw [d.denotes.not_punct]
      refine (consumes_item hr d .comma).bind fun e he => .eat rfl ?_
      refine (ih d' size (by omega)).bind fun es hes => .pure ?_
      rw [Bare.exprs, he, hes]
      rfl
  have hcount : ∀ ds : List Dependant, ds.length < (moreDependantKinds ds).length := by
    intro ds
    induction ds with
    | nil => exact Nat.zero_lt_one
    | cons d ds ih =>
      rw [moreDependantKinds, List.length_cons, List.length_cons, List.length_cons]
      omega
  refine .withNoIn ?_
  have hitems : Consumes (separated (.punct .rparen) (spreadOrAssign r)) (d.kind :: (moreDependantKinds ds ++ ks))
      (.punct .rparen :: ks) (Bare.exprs · = (d :: ds).map Dependant.expr) := by
    refine .sized fun size hsize => hloop ds d size ?_
    have := hcount ds
    rw [List.length_cons, List.length_append] at hsize
    omega
  exact hitems.bind fun es hes => .expect (by simp) fun _ _ => .pure hes

/-- The token behind a label. -/
def EndsLabel (k : Token.Kind) : Prop := k = .punct .star ∨ k = .marker .labelClose

theorem EndsLabel.endsPath (hk : EndsLabel k) : EndsPath k := by
  rcases hk with rfl | rfl <;> exact ⟨rfl, rfl⟩

theorem exists_moreKinds (ls : List LabelTree) (ks : List Token.Kind) :
    ∃ k ks', moreKinds ls ++ ks = k :: ks' ∧ EndsLabel k := by
  cases ls with
  | nil => exact ⟨_, _, rfl, .inr rfl⟩
  | cons l ls => exact ⟨_, _, rfl, .inl rfl⟩

/-- What stands behind the path of a label. -/
theorem exists_endsPath (ls : List LabelTree) (ds : List Dependant) (hk : EndsLabel k) (ks : List Token.Kind) :
    ∃ k' ks', listKinds ls ++ (dependantKinds ds ++ k :: ks) = k' :: ks' ∧ EndsPath k' := by
  cases ls with
  | cons l ls => exact ⟨_, _, rfl, rfl, rfl⟩
  | nil =>
    cases ds with
    | cons d ds => exact ⟨_, _, rfl, rfl, rfl⟩
    | nil => exact ⟨k, ks, rfl, hk.endsPath⟩

/-- The name of a label is not taken for a reference. -/
theorem Root.not_ptrait (x : Root) : x.kind.sameSort (.contextual .kwPtrait) = false := by
  cases x with
  | this => rfl
  | name x h =>
    rw [Token.Kind.sameSort_contextual, beq_eq_false_iff_ne]
    intro hkind
    have htext := Label.identText?_wordKind x.notReserved
    rw [show Label.wordKind x.text = .contextual .kwPtrait from hkind] at htext
    exact h (Option.some.inj htext).symm

/-- What a label is made of once its name and its parameters are read. -/
theorem consumes_labelEnd (hr : r.TakesValues) (p : Path) (ls : List LabelTree) (ds : List Dependant) (hk : EndsLabel k)
    (start : Span) {name : Expr} (hname : name.bare = p.expr) (parameters : List Label)
    (hparameters : Bare.labels parameters = labels ls) :
    Consumes (do
      let dependants ← if ← eat (.punct .lparen) then exprList r (.punct .rparen) else pure []
      return Label.named (start.join (← prevSpan)) name parameters dependants) (dependantKinds ds ++ k :: ks) (k :: ks)
      (·.bare = (LabelTree.named p ls ds).label) := by
  have hlabel : ∀ es, Bare.exprs es = ds.map Dependant.expr → Consumes (do
      let s ← prevSpan
      return Label.named (start.join s) name parameters es) (k :: ks) (k :: ks)
      (·.bare = (LabelTree.named p ls ds).label) := by
    intro es hes
    refine .prevSpan fun s => .pure ?_
    rw [Label.bare, hname, hparameters, hes, label]
  cases ds with
  | nil =>
    refine .pass ?_ (hlabel [] rfl)
    rcases hk with rfl | rfl <;> rfl
  | cons d ds => exact .eat rfl ((consumes_dependants hr d ds).bind hlabel)

/-- A label with a name, if its parameters are read. -/
theorem consumes_named (hr : r.TakesValues) (p : Path) (ls : List LabelTree) (ds : List Dependant) (hk : EndsLabel k)
    {q : Parse (List Label)} (hq : ∀ l ls' ks, ls = l :: ls' →
      Consumes q (l.kinds ++ (moreKinds ls' ++ ks)) ks (Bare.labels · = labels ls)) :
    Consumes (Label.label r q) ((LabelTree.named p ls ds).kinds ++ k :: ks) (k :: ks)
      (·.bare = (LabelTree.named p ls ds).label) := by
  have hkinds : (LabelTree.named p ls ds).kinds ++ k :: ks =
      p.root.kind :: (p.accesses.flatMap Access.kinds ++ (listKinds ls ++ (dependantKinds ds ++ k :: ks))) := by
    simp [kinds, Path.kinds]
  have hname : Consumes (Label.labelName r) (p.kinds ++ (listKinds ls ++ (dependantKinds ds ++ k :: ks)))
      (listKinds ls ++ (dependantKinds ds ++ k :: ks)) (·.bare = p.expr) := by
    obtain ⟨k', ks', hks, hk'⟩ := exists_endsPath ls ds hk ks
    rw [hks]
    exact consumes_labelName hr p hk'
  rw [hkinds]
  refine .here fun start => .pass p.root.not_ptrait (hname.bind fun name hbare => ?_)
  cases ls with
  | nil =>
    have hnone : ∃ k' ks', dependantKinds ds ++ k :: ks = k' :: ks' ∧ k'.sameSort (.marker .labelOpen) = false := by
      cases ds with
      | nil => exact ⟨k, ks, rfl, by rcases hk with rfl | rfl <;> rfl⟩
      | cons d ds => exact ⟨_, _, rfl, rfl⟩
    have hend : Consumes _ (dependantKinds ds ++ k :: ks) _ _ := consumes_labelEnd hr p [] ds hk start hbare [] rfl
    obtain ⟨k', ks', hks, hk'⟩ := hnone
    rw [listKinds, List.nil_append]
    rw [hks] at hend ⊢
    exact .pass hk' hend
  | cons l ls =>
    rw [listKinds, List.cons_append, List.append_assoc]
    exact .eat rfl ((hq l ls _ rfl).bind fun parameters hparameters => consumes_labelEnd hr p (l :: ls) ds hk start hbare _ hparameters)

/-- Labels that follow each other: the first one is read, and the others are there. -/
theorem consumes_labelsFrom {l : LabelTree} {ls : List LabelTree} {size : Nat}
    (hlabel : ∀ k ks, EndsLabel k →
      Consumes (Label.label r (Label.labelsFrom r size)) (l.kinds ++ k :: ks) (k :: ks) (·.bare = l.label))
    (hmore : ∀ first : Label, Consumes (do
      if ← eat (.punct .star) then return first :: (← Label.labelsFrom r size)
      if ← eat (.marker .labelClose) then return [first]
      failHere .unclosedLabels) (moreKinds ls ++ ks) ks fun ls' => ∃ tail, ls' = first :: tail ∧ Bare.labels tail = labels ls) :
    Consumes (Label.labelsFrom r (size + 1)) (l.kinds ++ (moreKinds ls ++ ks)) ks (Bare.labels · = labels (l :: ls)) := by
  have hfirst : Consumes (Label.label r (Label.labelsFrom r size)) (l.kinds ++ (moreKinds ls ++ ks)) (moreKinds ls ++ ks)
      (·.bare = l.label) := by
    obtain ⟨k, ks', hks, hk⟩ := exists_moreKinds ls ks
    rw [hks]
    exact hlabel k ks' hk
  refine hfirst.bind fun first hfirst => (hmore first).imp ?_
  rintro _ ⟨tail, rfl, htail⟩
  rw [Bare.labels, hfirst, htail, labels]

mutual

theorem consumes_label (hr : r.TakesValues) : ∀ (l : LabelTree) {size : Nat} {k : Token.Kind} {ks : List Token.Kind},
    l.kinds.length ≤ size → EndsLabel k →
    Consumes (Label.label r (Label.labelsFrom r size)) (l.kinds ++ k :: ks) (k :: ks) (·.bare = l.label)
  | .ref p, size, k, ks, _, hk => by
    refine .here fun s => .eat rfl ((consumes_labelName hr p hk.endsPath).bind fun e he => .pure ?_)
    rw [Label.bare, he]
    rfl
  | .named p [] ds, size, k, ks, _, hk => consumes_named hr p [] ds hk nofun
  | .named p (l :: ls) ds, size, k, ks, hsize, hk => by
    have hlength : l.kinds.length + (moreKinds ls).length < size := by
      simp only [kinds, listKinds, List.length_append, List.length_cons] at hsize
      omega
    obtain ⟨size, rfl⟩ : ∃ n, size = n + 1 := ⟨size - 1, by omega⟩
    refine consumes_named hr p (l :: ls) ds hk ?_
    rintro _ _ ks' ⟨⟩
    refine consumes_labelsFrom (fun k ks hk => ?_) fun first => ?_
    · exact consumes_label hr l (by omega) hk
    · exact consumes_moreLabels hr ls first (by omega)

theorem consumes_moreLabels (hr : r.TakesValues) : ∀ (ls : List LabelTree) {size : Nat} {ks : List Token.Kind}
    (first : Label), (moreKinds ls).length ≤ size + 1 → Consumes (do
      if ← eat (.punct .star) then return first :: (← Label.labelsFrom r size)
      if ← eat (.marker .labelClose) then return [first]
      failHere .unclosedLabels) (moreKinds ls ++ ks) ks fun ls' => ∃ tail, ls' = first :: tail ∧ Bare.labels tail = labels ls
  | [], size, ks, first, _ => .pass rfl (.eat rfl (.pure ⟨[], rfl, rfl⟩))
  | l :: ls, size, ks, first, hsize => by
    rw [moreKinds, List.length_cons, List.length_append] at hsize
    have hpos : 0 < (moreKinds ls).length := by
      obtain ⟨k, ks', hks, -⟩ := exists_moreKinds ls []
      rw [List.append_nil] at hks
      rw [hks]
      exact Nat.succ_pos _
    obtain ⟨size, rfl⟩ : ∃ n, size = n + 1 := ⟨size - 1, by omega⟩
    rw [moreKinds, List.cons_append, List.append_assoc]
    refine .eat rfl (Consumes.bind (consumes_labelsFrom (fun k ks hk => ?_) fun first => ?_) fun tail htail => ?_)
    · exact consumes_label hr l (by omega) hk
    · exact consumes_moreLabels hr ls first (by omega)
    · exact .pure ⟨tail, rfl, htail⟩

end

theorem consumes_labels (hr : r.TakesValues) (l : LabelTree) (ls : List LabelTree) :
    Consumes (Label.labels r) (l.kinds ++ (moreKinds ls ++ ks)) ks (Bare.labels · = labels (l :: ls)) := by
  refine .sized fun size hsize => ?_
  rw [List.length_append, List.length_append] at hsize
  obtain ⟨size, rfl⟩ : ∃ n, size = n + 1 := ⟨size - 1, by omega⟩
  refine consumes_labelsFrom (fun k ks hk => ?_) fun first => ?_
  · exact consumes_label hr l (by omega) hk
  · exact consumes_moreLabels hr ls first (by omega)

theorem consumes_labelContract (hr : r.TakesValues) (l : LabelTree) (ls : List LabelTree) :
    Consumes (Label.labelContract r) (listKinds (l :: ls)) []
      fun k => k.base = none ∧ Bare.labels k.labels = labels (l :: ls) ∧ k.condition = none := by
  have hlabels : Consumes (Label.labels r) (l.kinds ++ moreKinds ls) [] (Bare.labels · = labels (l :: ls)) := by
    have h : Consumes _ _ [] _ := consumes_labels hr l ls
    rwa [List.append_nil] at h
  exact .expect (by simp) fun _ _ => hlabels.bind fun _ h => .prevSpan fun _ => .pure ⟨rfl, h, rfl⟩

end

/-! ### Whole texts -/

/-- A list ends with its closing sign. -/
theorem getLast?_moreKinds (ls : List LabelTree) : (moreKinds ls).getLast? = some (.marker .labelClose) := by
  induction ls with
  | nil => rfl
  | cons l ls ih =>
    rw [moreKinds, ← List.cons_append, List.getLast?_append, ih]
    rfl

theorem getLast?_listKinds (l : LabelTree) (ls : List LabelTree) :
    (listKinds (l :: ls)).getLast? = some (.marker .labelClose) := by
  rw [listKinds, ← List.cons_append, List.getLast?_append, getLast?_moreKinds]
  rfl

/-- The tokens of a list, up to the end of the text. -/
theorem read_listText (settings : Settings) (b : Blanks) (ls : List LabelTree) :
    ∃ ts last, (Grammar.labels settings).read (String.ofList (listText b ls)) = .ok ⟨ts ++ [last], []⟩ ∧
      ts.map Token.kind = listKinds ls ∧ last.kind = .eof := by
  have hsize : (listText b ls ++ []).length ≤ (String.ofList (listText b ls)).length := by simp
  obtain ⟨tokens, hread, hkinds⟩ := readAs_list (b := b) ls .nil _ 0 none none hsize
  obtain ⟨ts, last, rfl, hts, hlast⟩ := List.map_eq_append_iff.mp (hkinds.trans (List.map_append ..))
  obtain ⟨last, rest, rfl, hlast, hrest⟩ := List.map_eq_cons_iff.mp hlast
  refine ⟨ts, last, ?_, ?_, (Prod.mk.inj hlast).1⟩
  · rw [Grammar.read_labels, Lexed.read, String.toList_ofList]
    rw [List.append_nil] at hread
    rw [hread, List.map_eq_nil_iff.mp hrest]
    rfl
  · have hfst := congrArg (List.map Prod.fst) hts
    simpa [Function.comp_def] using hfst

/-- A label list is read back from its text: the reader gives the labels of the trees and stops behind
    the closing sign of the list, whatever tokens follow there. -/
theorem labelContract_listText (settings : Settings) (b : Blanks) (l : LabelTree) (ls : List LabelTree) :
    ∃ ts last, (Grammar.labels settings).read (String.ofList (listText b (l :: ls))) = .ok ⟨ts ++ [last], []⟩ ∧
      ts.getLast?.map Token.kind = some (.marker .labelClose) ∧ last.kind = .eof ∧
      ∀ (more : List Token) (prev : Span) (noIn : Bool) (site : Nat), ∃ k c',
        (Grammar.labels settings).run Label.labelContract ⟨ts ++ more, prev, noIn, site⟩ = .ok k c' ∧ c'.rest = more ∧
          k.base = none ∧ Bare.labels k.labels = labels (l :: ls) ∧ k.condition = none := by
  obtain ⟨ts, last, hread, hkinds, hlast⟩ := read_listText settings b (l :: ls)
  refine ⟨ts, last, hread, ?_, hlast, fun more prev noIn site => ?_⟩
  · rw [← List.getLast?_map, hkinds, getLast?_listKinds]
  · obtain ⟨k, c', hrun, hc', -, hk⟩ :=
      consumes_labelContract (takesValues settings _) l ls ⟨ts ++ more, prev, noIn, site⟩ more ⟨ts, rfl, hkinds⟩
    exact ⟨k, c', hrun, hc'.rest_eq, hk⟩

end LabelTree

end LabelWeaver
