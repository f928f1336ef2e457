import LabelWeaver.Proofs.Label.Transparent
import LabelWeaver.Proofs.Label.Trees
import LabelWeaver.Proofs.Instrument.Exact

/-! The order of labels. The labels of a list are declared, asserted and added or removed one by one, in
    the order in which they are written, and none of them is left out; operators are applied from left
    to right. -/

namespace LabelWeaver

variable {xs : List String} {ns : List DottedName} {x : String}

open Parse Grammar

/-! ### Names with dots -/

structure DottedName where
  first : BaseName
  rest : List BaseName

namespace DottedName

def text (n : DottedName) : String := ".".intercalate (n.first.text :: n.rest.map BaseName.text)

/-- The names as they are written in a list. -/
def listText (ns : List DottedName) : String := " * ".intercalate (ns.map text)

end DottedName

theorem BaseName.nameText (x : BaseName) : NameText x.text.toList := nameText_iff.mpr x.ident

/-- The label with a name. -/
def DottedName.tree (n : DottedName) : LabelTree :=
  .named ⟨.name ⟨n.first.text, n.first.nameText, n.first.notReserved⟩ fun h => n.first.notContextual _ h.symm,
    n.rest.map fun x => .member ⟨x.text, x.nameText⟩⟩ [] []

/-- The blanks of a list that is written as in `listText`. -/
def starBlanks : LabelTree.Blanks := ⟨0, 1, 0⟩

namespace DottedName

theorem text_tree (n : DottedName) : n.tree.text starBlanks = n.text.toList := by
  obtain ⟨first, rest⟩ := n
  have hrest : ∀ (x : BaseName) (xs : List BaseName), List.intercalate ['.'] ((x :: xs).map fun x => x.text.toList) =
      x.text.toList ++ xs.flatMap fun x => '.' :: x.text.toList := by
    intro x xs
    induction xs generalizing x with
    | nil => simp [List.intercalate]
    | cons y xs ih =>
      have := ih y
      simp only [List.intercalate, List.map_cons, List.flatMap_cons] at this ⊢
      rw [List.intersperse_cons_cons, List.flatten_cons, List.flatten_cons, this]
      simp
  have htext : (DottedName.mk first rest).text.toList = List.intercalate ['.'] ((first :: rest).map fun x => x.text.toList) := by
    rw [text, String.toList_intercalate]
    simp [Function.comp_def]
  rw [htext, hrest]
  simp [tree, LabelTree.text, LabelTree.Path.text, LabelTree.Root.text, LabelTree.listText, LabelTree.dependantText,
    LabelTree.Access.text, List.flatMap_map]

theorem listText_trees (n : DottedName) (ns : List DottedName) :
    LabelTree.listText starBlanks ((n :: ns).map tree) = '<' :: '!' :: ((listText (n :: ns)).toList ++ ['!', '>']) := by
  have hmore : ∀ (n : DottedName) (ns : List DottedName), n.tree.text starBlanks ++ LabelTree.moreText starBlanks (ns.map tree) =
      (listText (n :: ns)).toList ++ ['!', '>'] := by
    intro n ns
    induction ns generalizing n with
    | nil =>
      rw [text_tree]
      simp [LabelTree.moreText, listText, LabelTree.blanks, starBlanks]
    | cons m ns ih =>
      have hm := ih m
      rw [List.map_cons, LabelTree.moreText, hm, text_tree]
      simp [listText, String.intercalate_cons_cons, LabelTree.blanks, starBlanks]
  rw [List.map_cons, LabelTree.listText, hmore]
  rfl

end DottedName

/-! ### Printing -/

/-- The character is written as itself in a string. -/
def Literal.isVisible (c : Char) : Bool := 0x20 ≤ c.toNat && c.toNat < 0x7f && c != '"' && c != '\\'

namespace Literal

theorem escapeChar_of_isVisible {c : Char} (hc : isVisible c = true) (next : Option Char) : escapeChar c next = [c] := by
  unfold escapeChar
  split
  case h_11 =>
    simp only [isVisible, Bool.and_eq_true, decide_eq_true_eq, bne_iff_ne] at hc
    have hnul : (c == '\x00') = false := by
      rw [beq_eq_false_iff_ne]
      rintro rfl
      exact absurd hc.1.1.1 (by decide)
    have hdel : (c == '\x7f') = false := by
      rw [beq_eq_false_iff_ne]
      rintro rfl
      exact absurd hc.1.1.2 (by decide)
    have hlow : decide (c.toNat < 0x20) = false := decide_eq_false (Nat.not_lt.mpr hc.1.1.1)
    simp [hnul, hdel, hlow]
  all_goals exact absurd hc (by decide)

theorem quote_of_isVisible {x : String} (hx : ∀ c ∈ x.toList, isVisible c = true) : quote x = "\"" ++ x ++ "\"" := by
  have hescape : ∀ cs : List Char, (∀ c ∈ cs, isVisible c = true) → escape cs = cs := by
    intro cs hcs
    induction cs with
    | nil => rfl
    | cons c cs ih =>
      obtain ⟨hc, hcs⟩ := List.forall_mem_cons.mp hcs
      rw [escape, escapeChar_of_isVisible hc, ih hcs]
      rfl
  rw [← String.toList_inj, quote, hescape _ hx]
  simp

end Literal

theorem isVisible_of_isIdentPart {c : Char} (hc : Lexeme.isIdentPart c = true) : Literal.isVisible c = true := by
  have hall : ∀ n < 0x80, Lexeme.isIdentPart (Char.ofNat n) = true → Literal.isVisible (Char.ofNat n) = true := by
    decide +kernel
  have h := hall c.toNat (toNat_lt_of_isIdentPart hc)
  rw [Char.ofNat_toNat] at h
  exact h hc

theorem isVisible_intercalate {sep : String} (hsep : ∀ c ∈ sep.toList, Literal.isVisible c = true)
    (hxs : ∀ x ∈ xs, ∀ c ∈ x.toList, Literal.isVisible c = true) :
    ∀ c ∈ (sep.intercalate xs).toList, Literal.isVisible c = true := by
  induction xs with
  | nil => simp
  | cons x xs ih =>
    obtain ⟨hx, hxs⟩ := List.forall_mem_cons.mp hxs
    cases xs with
    | nil => simpa using hx
    | cons y ys =>
      intro c hc
      rw [String.intercalate_cons_cons, String.toList_append, String.toList_append, List.mem_append, List.mem_append] at hc
      rcases hc with (hc | hc) | hc
      · exact hx c hc
      · exact hsep c hc
      · exact ih hxs c hc

namespace DottedName

theorem isVisible_text (n : DottedName) : ∀ c ∈ n.text.toList, Literal.isVisible c = true := by
  refine isVisible_intercalate (List.all_eq_true.mp (by decide)) fun x hx c hc => ?_
  rw [← List.map_cons, List.mem_map] at hx
  obtain ⟨b, -, rfl⟩ := hx
  exact isVisible_of_isIdentPart (b.isIdentPart_text c hc)

theorem isVisible_listText (ns : List DottedName) : ∀ c ∈ (listText ns).toList, Literal.isVisible c = true := by
  refine isVisible_intercalate (List.all_eq_true.mp (by decide)) fun x hx => ?_
  obtain ⟨n, -, rfl⟩ := List.mem_map.mp hx
  exact n.isVisible_text

end DottedName

/-- The expression is printed as `x` wherever a call or an argument may stand. -/
structure Expr.Prints (e : Expr) (x : String) : Prop where
  render : ∀ depth, Layout.render [] (e.layout depth) = x
  prec : e.prec = .call ∨ e.prec = .primary
  startsLikeStatement : e.startsLikeStatement = false
  isBareInteger : e.isBareInteger = false

namespace Expr.Prints

open Layout Annotated

variable {e : Expr}

theorem ident (s : Span) (x : String) : (Expr.ident s x).Prints x where
  render depth := by simp [Expr.layout, Layout.render, weave, Token.Kind.spelling, commentLines]
  prec := .inr rfl
  startsLikeStatement := rfl
  isBareInteger := rfl

theorem string (s : Span) (x : String) : (Expr.string s x).Prints (Literal.quote x) where
  render depth := by simp [Expr.layout, Layout.render, weave, Token.Kind.spelling, commentLines]
  prec := .inr rfl
  startsLikeStatement := rfl
  isBareInteger := rfl

theorem fit (h : e.Prints x) {least : Prec} (hleast : least = .call ∨ least = .assign) (depth : Nat) :
    Layout.render [] (fit least e (e.layout depth)) = x := by
  have hfit : ¬e.prec < least := by
    rcases h.prec with hp | hp <;> rcases hleast with rfl | rfl <;> rw [hp] <;> decide
  rw [Layout.fit, decide_eq_false hfit]
  exact h.render depth

theorem member (h : e.Prints x) (s : Span) (n : Name) : (Expr.member s e n).Prints (x ++ "." ++ n.text) where
  render depth := by
    rw [Expr.layout, h.isBareInteger, if_neg Bool.false_ne_true, render_append, render_append, h.fit (.inl rfl)]
    simp [Layout.render, weave, Token.Kind.spelling, commentLines, Punct.spelling]
  prec := .inl rfl
  startsLikeStatement := h.startsLikeStatement
  isBareInteger := rfl

/-- A call with arguments. -/
theorem call (h : e.Prints x) (s : Span) {args : List Expr} {xs : List String} (hargs : List.Forall₂ Prints args xs) :
    (Expr.call s e args).Prints (x ++ "(" ++ ", ".intercalate xs ++ ")") where
  render depth := by
    have hlist : Layout.render [] (commaSep (Layout.args depth args)) = ", ".intercalate xs := by
      induction hargs with
      | nil => rfl
      | @cons a y as ys ha has ih =>
        cases has with
        | nil =>
          rw [Layout.args, Layout.args, commaSep, ha.fit (.inr rfl)]
          simp
        | cons hb hbs =>
          rw [Layout.args] at ih ⊢
          rw [Layout.args, commaSep, render_append, render_append, ha.fit (.inr rfl), ih, String.intercalate_cons_cons]
          · rfl
          · simp
    rw [Expr.layout, render_append, h.fit (.inl rfl), paren, render_append, render_append, hlist]
    simp [Layout.render, weave, Token.Kind.spelling, commentLines, Punct.spelling, String.append_assoc]
  prec := .inl rfl
  startsLikeStatement := h.startsLikeStatement
  isBareInteger := rfl

end Expr.Prints

namespace DottedName

/-- Accesses to members print behind what they are accesses to. -/
theorem prints_foldl (xs : List BaseName) {b : Expr} {t : String} (hb : ∀ e : Expr, e.bare = b → e.Prints t) (e : Expr)
    (he : e.bare = (xs.map fun x => LabelTree.Access.member ⟨x.text, x.nameText⟩).foldl LabelTree.Access.expr b) :
    e.Prints (xs.foldl (fun t x => t ++ "." ++ x.text) t) := by
  induction xs generalizing b t with
  | nil => exact hb e he
  | cons x xs ih =>
    refine ih (fun e he => ?_) he
    cases e with
    | member s obj n =>
      obtain ⟨-, hobj, hn⟩ := Expr.member.inj he
      have hx : n.text = x.text := (Name.mk.inj hn).2
      dsimp only
      rw [← hx]
      exact (hb obj hobj).member s n
    | _ => cases he

theorem text_eq_foldl (n : DottedName) : n.text = n.rest.foldl (fun t x => t ++ "." ++ x.text) n.first.text := by
  have hfold : ∀ (xs : List BaseName) (t u : String), xs.foldl (fun t x => t ++ "." ++ x.text) (t ++ u) =
      t ++ xs.foldl (fun t x => t ++ "." ++ x.text) u := by
    intro xs
    induction xs with
    | nil => exact fun t u => rfl
    | cons x xs ih =>
      intro t u
      rw [List.foldl_cons, List.foldl_cons, String.append_assoc, String.append_assoc, ih, String.append_assoc]
  obtain ⟨first, rest⟩ := n
  rw [text]
  induction rest generalizing first with
  | nil => simp
  | cons x xs ih =>
    rw [List.map_cons, String.intercalate_cons_cons, ih x, List.foldl_cons, hfold]

/-- The name of a label is printed as it is written. -/
theorem prints {n : DottedName} {l : Label} (h : l.bare = n.tree.label) :
    ∃ s e, l = .named s e [] [] ∧ e.Prints n.text := by
  cases l with
  | ref => cases h
  | named s e ls ds =>
    obtain ⟨-, he, hls, hds⟩ := Label.named.inj h
    have hprints := prints_foldl n.rest (b := .ident .zero n.first.text) (t := n.first.text) (fun e he => ?_) e he
    · cases ls with
      | cons => cases hls
      | nil =>
        cases ds with
        | cons => cases hds
        | nil => exact ⟨s, e, rfl, n.text_eq_foldl ▸ hprints⟩
    · cases e with
      | ident s x =>
        cases he
        exact .ident s _
      | _ => cases he

/-- The labels that are read for a list of names. -/
def Denote (ns : List DottedName) (ls : List Label) : Prop :=
  List.Forall₂ (fun n l => ∃ s e, l = Label.named s e [] [] ∧ e.Prints n.text) ns ls

theorem denote_of_bare {ns : List DottedName} {ls : List Label} (h : Bare.labels ls = LabelTree.labels (ns.map tree)) :
    Denote ns ls := by
  induction ns generalizing ls with
  | nil =>
    cases ls with
    | nil => exact .nil
    | cons => cases h
  | cons n ns ih =>
    cases ls with
    | nil => cases h
    | cons l ls =>
      obtain ⟨hl, hls⟩ := List.cons.inj h
      exact .cons (prints hl) (ih hls)

theorem Denote.listText_eq {ns : List DottedName} {ls : List Label} (h : Denote ns ls) : Label.listText ls = listText ns := by
  have htexts : ls.map Label.text = ns.map text := by
    induction h with
    | nil => rfl
    | cons hl _ ih =>
      obtain ⟨s, e, rfl, he⟩ := hl
      rw [List.map_cons, List.map_cons, ih, Label.text, Expr.print, he.render]
  rw [Label.listText, htexts, listText]

end DottedName

/-! ### Calls of the run-time library -/

/-- The text of a call of the run-time library. -/
def RuntimeNames.callText (names : RuntimeNames) (method : String) (args : List String) : String :=
  names.runtime ++ "." ++ method ++ "(" ++ ", ".intercalate args ++ ")"

/-- A text between quotes. -/
def quoted (x : String) : String := "\"" ++ x ++ "\""

theorem Emitter.prints_runtimeCall (e : Emitter) (method : String) {args : List Expr}
    (h : List.Forall₂ Expr.Prints args xs) : (e.runtimeCall method args).Prints (e.names.callText method xs) :=
  ((Expr.Prints.ident e.anchor e.names.runtime).member e.anchor ⟨e.anchor, method⟩).call e.anchor h

theorem DottedName.prints_string (n : DottedName) (s : Span) : (Expr.string s n.text).Prints (quoted n.text) := by
  rw [quoted, ← Literal.quote_of_isVisible n.isVisible_text]
  exact .string s n.text

/-- A label as an argument is the string with its name. -/
theorem DottedName.prints_labelArg {n : DottedName} {l : Label} (h : ∃ s e, l = Label.named s e [] [] ∧ e.Prints n.text)
    (e : Emitter) : (e.labelArg l).Prints (quoted n.text) := by
  obtain ⟨s, name, rfl, hname⟩ := h
  rw [Emitter.labelArg, Expr.print, hname.render]
  exact n.prints_string e.anchor

/-- The text of a value with labels added or removed one after the other. -/
def RuntimeNames.chainText (names : RuntimeNames) (dropping : Bool) (value : String) (ns : List DottedName) : String :=
  ns.foldl (fun value n => names.callText (if dropping then "drop" else "as") [value, quoted n.text]) value

theorem DottedName.Denote.prints_foldl {ls : List Label} (h : Denote ns ls) (e : Emitter) (dropping : Bool)
    {value : Expr} (hvalue : value.Prints x) :
    (ls.foldl (if dropping then e.drop else e.assume) value).Prints (e.names.chainText dropping x ns) := by
  induction h generalizing value x with
  | nil => exact hvalue
  | @cons n l ns ls hl _ ih =>
    refine ih ?_
    have hargs : List.Forall₂ Expr.Prints [value, e.labelArg l] [x, quoted n.text] :=
      .cons hvalue (.cons (prints_labelArg hl e) .nil)
    cases dropping with
    | true => exact e.prints_runtimeCall "drop" hargs
    | false => exact e.prints_runtimeCall "as" hargs

/-! ### Statements -/

/-- The statement is printed as an expression and a semicolon. -/
def Stmt.Prints (s : Stmt) (x : String) : Prop := ∃ span e, s = .expr span e ∧ e.Prints x

theorem Emitter.prints_stmt (e : Emitter) (method : String) {args : List Expr} (h : List.Forall₂ Expr.Prints args xs) :
    (e.stmt (e.runtimeCall method args)).Prints (e.names.callText method xs) :=
  ⟨_, _, rfl, e.prints_runtimeCall method h⟩

theorem DottedName.Denote.prints_declare {ls : List Label} (h : Denote ns ls) (e : Emitter) :
    (e.stmt (e.declare ls)).Prints (e.names.callText "declare" [quoted (listText ns)]) := by
  have harg : (Expr.string e.anchor (Label.listText ls)).Prints (quoted (listText ns)) := by
    rw [h.listText_eq, quoted, ← Literal.quote_of_isVisible (isVisible_listText ns)]
    exact .string _ _
  exact e.prints_stmt "declare" (.cons harg .nil)

/-- One assertion for each label, in their order. -/
theorem DottedName.Denote.prints_expectation {c : Contract} (h : Denote ns c.labels) (hbase : c.base = none)
    (hcondition : c.condition = none) (e : Emitter) {value : Expr} (hvalue : value.Prints x) :
    List.Forall₂ Stmt.Prints (e.expectation value c) (ns.map fun n => e.names.callText "assert" [x, quoted n.text]) := by
  have hlabels : e.expectation value c = c.labels.map fun l => e.stmt (e.assert value (e.labelArg l)) := by
    rw [Emitter.expectation, hbase, hcondition]
    simp
  rw [hlabels]
  generalize c.labels = ls at h
  induction h with
  | nil => exact .nil
  | cons hl _ ih => exact .cons (e.prints_stmt "assert" (.cons hvalue (.cons (prints_labelArg hl e) .nil))) ih

open Layout Annotated in
theorem Stmt.Prints.render {ss : List Stmt} (h : List.Forall₂ Stmt.Prints ss xs) (depth : Nat) :
    Layout.render [] (Layout.stmts depth ss) = String.join (xs.map fun x => indentation depth ++ x ++ ";\n") := by
  induction h with
  | nil => rfl
  | @cons s x ss xs hs _ ih =>
    obtain ⟨span, e, rfl, he⟩ := hs
    have hstmt : Layout.render [] ((Stmt.expr span e).layout depth) = x ++ ";" := by
      rw [Stmt.layout, he.startsLikeStatement, parenIf, if_neg Bool.false_ne_true, render_append, he.render]
      rfl
    have hlead : Layout.render [] (lead depth (.expr span e)) = indentation depth := by
      simp [lead, Layout.render, weave, due, notDue, commentLines]
    rw [Layout.stmts, render_append, render_append, render_append, hstmt, hlead, ih, List.map_cons, String.join_cons]
    simp [Layout.render, weave, commentLines, String.append_assoc]

theorem Stmt.Prints.print {s : Stmt} (h : s.Prints x) : Program.print ⟨[s], []⟩ = x ++ ";\n" := by
  rw [Program.print, Stmt.Prints.render (.cons h .nil)]
  simp [Layout.indentation]

/-! ### Reading -/

namespace DottedName

/-- An operator that adds or removes labels. -/
structure LabelOp where
  dropping : Bool
  first : DottedName
  rest : List DottedName

namespace LabelOp

def labels (op : LabelOp) : List DottedName := op.first :: op.rest

def text (op : LabelOp) : String :=
  (if op.dropping then "drop" else "as") ++ " <!" ++ listText op.labels ++ "!>"

def kinds (op : LabelOp) : List Token.Kind :=
  .contextual (if op.dropping then .kwDrop else .kwAs) :: LabelTree.listKinds (op.labels.map tree)

/-- The text of a value with the labels of an operator added or removed. -/
def applyText (names : RuntimeNames) (value : String) (op : LabelOp) : String :=
  names.chainText op.dropping value op.labels

example (names : RuntimeNames) (n m : DottedName) : applyText names "x" ⟨false, n, [m]⟩ =
    names.callText "as" [names.callText "as" ["x", quoted n.text], quoted m.text] :=
  rfl

/-- The tokens of a name, operators on it, and a semicolon. -/
abbrev chainKinds (x : String) (ops : List LabelOp) (ks : List Token.Kind) : List Token.Kind :=
  .ident x :: (ops.flatMap kinds ++ .punct .semi :: ks)

end LabelOp

section
variable {value : Expr} {names : RuntimeNames} {r : Rules} {k : Token.Kind} {ks : List Token.Kind}

/-- The tokens of a list of names. -/
abbrev kinds (n : DottedName) (ns : List DottedName) : List Token.Kind := LabelTree.listKinds ((n :: ns).map tree)

theorem kinds_append (n : DottedName) (ns : List DottedName) (ks : List Token.Kind) :
    kinds n ns ++ ks = .marker .labelOpen :: (n.tree.kinds ++ LabelTree.moreKinds (ns.map tree) ++ ks) := rfl

theorem reads_labels (hr : r.TakesValues) (n : DottedName) (ns : List DottedName) :
    Reads (Label.labels r) (n.tree.kinds ++ LabelTree.moreKinds (ns.map tree) ++ ks) ks (Denote (n :: ns)) := by
  have h : Consumes (Label.labels r) (n.tree.kinds ++ (LabelTree.moreKinds (ns.map tree) ++ [])) [] _ :=
    LabelTree.consumes_labels hr n.tree (ns.map tree)
  rw [List.append_nil] at h
  exact (h.imp fun _ hls => denote_of_bare hls).reads

theorem wordKind_text (x : BaseName) : Label.wordKind x.text = .ident x.text := by
  rw [Label.wordKind_of_ne x.notContextual, Lexeme.word, x.notReserved]

theorem reads_declaration (hr : r.TakesValues) (n : DottedName) (ns : List DottedName) :
    Reads (Label.declaration ⟨true, names⟩ r) (.contextual .kwSecAnn :: (kinds n ns ++ .punct .semi :: ks)) ks
      fun s => s.Prints (names.callText "declare" [quoted (listText (n :: ns))]) := by
  have hlist : Reads (Label.labelsOrNone r) (n.tree.kinds ++ LabelTree.moreKinds (ns.map tree) ++ .punct .semi :: ks)
      (.punct .semi :: ks) (Denote (n :: ns)) := by
    have hlabels : Reads (Label.labels r) _ (.punct .semi :: ks) _ := reads_labels hr n ns
    have hfirst : (Label.wordKind n.first.text).sameSort (.marker .labelClose) = false := by
      rw [wordKind_text]
      rfl
    exact .pass hfirst hlabels
  rw [kinds_append]
  refine .advance (by simp) fun word _ => .expect (by simp) fun _ _ => hlist.bind fun ls hls => ?_
  refine .pass rfl (.consumeSemicolon (.prevSpan fun s => ?_))
  cases hls with
  | cons hl hls => exact .pure (Denote.prints_declare (.cons hl hls) _)

theorem reads_declarations (names : RuntimeNames) (depth : Nat) (n : DottedName) (ns : List DottedName) :
    Reads (program ((Grammar.labels ⟨true, names⟩).rules (depth + 2)))
      (.contextual .kwSecAnn :: (kinds n ns ++ [.punct .semi, .eof])) [.eof]
      fun ss => Program.print ⟨ss, []⟩ = names.callText "declare" [quoted (listText (n :: ns))] ++ ";\n" := by
  have hstatement : Reads (statement (.labels ⟨true, names⟩) ((Grammar.labels ⟨true, names⟩).rules (depth + 1)))
      (.contextual .kwSecAnn :: (kinds n ns ++ [.punct .semi, .eof])) [.eof]
      fun s => s.Prints (names.callText "declare" [quoted (listText (n :: ns))]) :=
    .lookTwo false (fun _ _ _ _ _ _ => rfl) (.kind? (reads_declaration (takesValues _ depth) n ns))
  refine (Reads.sized (.manyFrom_cons rfl hstatement (.manyFrom_nil rfl))).imp ?_
  rintro _ ⟨s, _, rfl, hs, rfl⟩
  exact hs.print

/-! ### Contracts of parameters -/

/-- A contract of these labels only. -/
structure IsContract (ns : List DottedName) (c : Contract) : Prop where
  base : c.base = none
  labels : Denote ns c.labels
  condition : c.condition = none

theorem reads_contract (hr : r.TakesValues) (n : DottedName) (ns : List DottedName)
    (hk : k.sameSort (.contextual .kwWhere) = false) :
    Reads (Label.contract true r) (kinds n ns ++ k :: ks) (k :: ks) (IsContract (n :: ns)) := by
  rw [kinds_append]
  refine .here fun _ => .kind? (.pure_bind (.eat rfl ?_))
  refine (reads_labels hr n ns).bind fun ls hls => .pass hk ?_
  rw [if_neg Bool.false_ne_true]
  exact .pure_bind (.prevSpan fun _ => .pure ⟨rfl, hls, rfl⟩)

theorem reads_suffixes (hr : r.TakesValues) (n : DottedName) (ns : List DottedName) :
    Reads (Label.suffixes r .none) (.punct .colon :: (kinds n ns ++ .punct .rparen :: ks)) (.punct .rparen :: ks)
      fun d => ∃ c, d = ⟨some c, []⟩ ∧ IsContract (n :: ns) c := by
  have hstep : Reads (Label.suffix r .none) (.punct .colon :: (kinds n ns ++ .punct .rparen :: ks)) (.punct .rparen :: ks)
      fun o => ∃ c, o = some ⟨some c, []⟩ ∧ IsContract (n :: ns) c := by
    refine .kind? (.advance (by simp) fun _ _ => ?_)
    exact (reads_contract hr n ns rfl).bind fun c hc => .pure ⟨c, rfl, hc⟩
  have hstop : ∀ d, Reads (Label.suffix r d) (.punct .rparen :: ks) (.punct .rparen :: ks) (· = none) :=
    fun d => .kind? (.pure rfl)
  refine Reads.sized (p := (extendFrom (Label.suffix r) · .none)) ?_
  rw [List.length_cons]
  refine hstep.bind ?_
  rintro _ ⟨c, rfl, hc⟩
  refine (hstop _).bind ?_
  rintro _ rfl
  exact .pure ⟨c, rfl, hc⟩

/-- The parameter `x` with a contract of these labels. -/
def IsParam (x : String) (ns : List DottedName) (p : Pattern) : Prop :=
  ∃ span n c, p = .name ⟨span, n, ⟨some c, []⟩⟩ ∧ n.text = x ∧ IsContract ns c

theorem reads_binding (hr : r.TakesValues) (x : String) (n : DottedName) (ns : List DottedName) :
    Reads (Label.binding r (baseBinding r)) (.ident x :: .punct .colon :: (kinds n ns ++ .punct .rparen :: ks))
      (.punct .rparen :: ks) (IsParam x (n :: ns)) := by
  have hname : ∀ ks, Reads (baseBinding r) (.ident x :: ks) ks fun p => ∃ s n, p = .name ⟨s, n, .none⟩ ∧ n.text = x :=
    fun ks => .kind? (.expectIdent fun n hn => .pure ⟨n.span, n, rfl, hn⟩)
  refine .lookFirst false (fun _ _ _ _ _ => rfl) ((hname _).bind ?_)
  rintro _ ⟨s, name, rfl, hx⟩
  refine .lookFirst true (fun _ _ _ _ _ => rfl) ((reads_suffixes hr n ns).bind ?_)
  rintro _ ⟨c, rfl, hc⟩
  exact .prevSpan fun _ => .pure ⟨_, name, c, rfl, hx, hc⟩

/-- A function with this one parameter and nothing else but an empty body. -/
structure IsSigned (f x : String) (ns : List DottedName) (fn : Function) : Prop where
  name : ∃ s, fn.name = some ⟨s, f⟩
  isArrow : fn.isArrow = false
  params : ∃ p, fn.params = [p] ∧ IsParam x ns p
  receiver : fn.receiver = none
  returns : fn.returns = none
  condition : fn.condition = none
  instrumented : fn.instrumented = false

section
variable {fn : Function} {f : String} {n : DottedName}

theorem reads_params (hbinding : ∀ ks, Reads r.binding
      (.ident x :: .punct .colon :: (kinds n ns ++ .punct .rparen :: ks)) (.punct .rparen :: ks) (IsParam x (n :: ns)))
    (start : Span) {name : Name} (hname : name.text = f) :
    Reads (Label.params r (baseParams r) (.blank start (some name) false))
      (.punct .lparen :: .ident x :: .punct .colon :: (kinds n ns ++ .punct .rparen :: .punct .lbrace :: ks))
      (.punct .lbrace :: ks) (IsSigned f x (n :: ns)) := by
  have hitem : ∀ ks, Reads (listElement r) (.ident x :: .punct .colon :: (kinds n ns ++ .punct .rparen :: ks))
      (.punct .rparen :: ks) (IsParam x (n :: ns)) :=
    fun ks => .isAt ((hbinding ks).bind fun p hp => .pass rfl (.pure hp))
  have hbase : Reads (baseParams r (.blank start (some name) false))
      (.punct .lparen :: .ident x :: .punct .colon :: (kinds n ns ++ .punct .rparen :: .punct .lbrace :: ks))
      (.punct .lbrace :: ks)
      fun fn => ∃ p, fn = { Function.blank start (some name) false with params := [p] } ∧ IsParam x (n :: ns) p := by
    have hlist : Reads (separated (.punct .rparen) (listElement r))
        (.ident x :: .punct .colon :: (kinds n ns ++ .punct .rparen :: .punct .lbrace :: ks))
        (.punct .rparen :: .punct .lbrace :: ks) fun ps => ∃ p, ps = [p] ∧ IsParam x (n :: ns) p :=
      .sized (.isAt ((hitem _).bind fun p hp => .pass rfl (.pure ⟨p, rfl, hp⟩)))
    refine .expect (by simp) fun _ _ => hlist.bind ?_
    rintro _ ⟨p, rfl, hp⟩
    exact .expect (by simp) fun _ _ => .pure ⟨p, rfl, hp⟩
  refine hbase.bind ?_
  rintro _ ⟨p, rfl, hp⟩
  have hreceiver : Label.takeReceiver none [p] = .ok (none, [p]) := by
    obtain ⟨span, m, c, rfl, -, -⟩ := hp
    rfl
  dsimp only
  rw [hreceiver]
  dsimp only
  refine Reads.bind (A := (· = none)) (.isAt (.pure rfl)) ?_
  rintro _ rfl
  refine .pass rfl (.pure_bind (.pass rfl (.pure_bind (.pure ?_))))
  exact ⟨⟨name.span, by rw [← hname]; rfl⟩, rfl, ⟨p, rfl, hp⟩, rfl, rfl, rfl, rfl⟩

/-- The checks of the parameter are all that the body holds. -/
theorem IsSigned.instrument {span : Span} (h : IsSigned f x (n :: ns) fn) (hbody : fn.body = .block ⟨span, []⟩)
    (names : RuntimeNames) :
    fn.needsChecks = true ∧ ∃ stmts, (fn.instrument names).1.body = .block ⟨span, stmts⟩ ∧
      List.Forall₂ Stmt.Prints stmts ((n :: ns).map fun n => names.callText "assert" [x, quoted n.text]) := by
  obtain ⟨-, -, ⟨_, hparams, s, m, c, rfl, rfl, hc⟩, hreceiver, hreturns, hcondition, hfresh⟩ := h
  have hbindings : fn.params.flatMap Pattern.bindings = [⟨s, m, ⟨some c, []⟩⟩] := by
    rw [hparams]
    rfl
  have hpre : Instrument.preconditions (.startingAt names span) fn =
      (Emitter.startingAt names span).expectation ((Emitter.startingAt names span).reference m.text) c := by
    rw [Instrument.preconditions, hbindings, hcondition, hreceiver]
    simp [Emitter.demand, Demand.every?, Demand.named, Demand.counted]
  have hnone : Instrument.returnContract? fn = none := by
    rw [Instrument.returnContract?, hreturns]
    rfl
  refine ⟨?_, (Emitter.startingAt names span).expectation ((Emitter.startingAt names span).reference m.text) c, ?_,
    hc.labels.prints_expectation hc.base hc.condition _ (.ident _ m.text)⟩
  · rw [Function.needsChecks, hbindings]
    simp [Demand.isEmpty]
  · rw [instrument_of_none hbody hfresh hnone, hpre]
    simp

/-- A function with one parameter, and with the checks of it in its body. -/
structure IsChecked (names : RuntimeNames) (f x : String) (ns : List DottedName) (fn : Function) : Prop where
  name : ∃ s, fn.name = some ⟨s, f⟩
  isArrow : fn.isArrow = false
  params : ∃ p, fn.params = [p] ∧ IsParam x ns p
  body : ∃ span stmts, fn.body = .block ⟨span, stmts⟩ ∧
    List.Forall₂ Stmt.Prints stmts (ns.map fun n => names.callText "assert" [x, quoted n.text])

theorem reads_body (h : IsSigned f x (n :: ns) fn) :
    Reads (body (.labels ⟨true, names⟩) r fn) (.punct .lbrace :: .punct .rbrace :: ks) ks
      (IsChecked names f x (n :: ns)) := by
  have hblock : Reads (block r) (.punct .lbrace :: .punct .rbrace :: ks) ks fun b => ∃ span, b = ⟨span, []⟩ := by
    refine .expect (by simp) fun _ _ => (Reads.sized (.manyFrom_nil rfl)).bind ?_
    rintro _ rfl
    exact .expect (by simp) fun _ _ => .pure ⟨_, rfl⟩
  have hbase : Reads (baseBody r fn) (.punct .lbrace :: .punct .rbrace :: ks) ks
      fun fn' => ∃ span, fn' = { fn with body := .block ⟨span, []⟩ } := by
    refine .isAt ?_
    rw [h.isArrow]
    refine hblock.bind ?_
    rintro _ ⟨span, rfl⟩
    exact .pure ⟨span, rfl⟩
  refine hbase.bind ?_
  rintro _ ⟨span, rfl⟩
  have hsigned : IsSigned f x (n :: ns) { fn with body := .block ⟨span, []⟩ } :=
    ⟨h.name, h.isArrow, h.params, h.receiver, h.returns, h.condition, h.instrumented⟩
  obtain ⟨hneeds, stmts, hbody, hstmts⟩ := hsigned.instrument rfl names
  dsimp only
  rw [hneeds]
  obtain ⟨hname, harrow, hparams, -⟩ := instrument_head names { fn with body := .block ⟨span, []⟩ }
  refine .pure ⟨?_, ?_, ?_, span, stmts, hbody, hstmts⟩
  · rw [hname]
    exact h.name
  · rw [harrow]
    exact h.isArrow
  · rw [hparams]
    exact h.params

theorem reads_function {depth : Nat} (start : Span) {name : Name} (hname : name.text = f) :
    Reads (function (.labels ⟨true, names⟩) ((Grammar.labels ⟨true, names⟩).rules (depth + 2)) start (some name) false)
      (.punct .lparen :: .ident x :: .punct .colon ::
        (kinds n ns ++ .punct .rparen :: .punct .lbrace :: .punct .rbrace :: ks))
      ks (IsChecked names f x (n :: ns)) := by
  have hbinding : ∀ ks, Reads ((Grammar.labels ⟨true, names⟩).rules (depth + 2)).binding
      (.ident x :: .punct .colon :: (kinds n ns ++ .punct .rparen :: ks)) (.punct .rparen :: ks) (IsParam x (n :: ns)) :=
    fun _ => reads_binding (takesValues ⟨true, names⟩ depth) x n ns
  have hparts : Reads (params (.labels ⟨true, names⟩) ((Grammar.labels ⟨true, names⟩).rules (depth + 2))
      (.blank start (some name) false) >>= body (.labels ⟨true, names⟩) ((Grammar.labels ⟨true, names⟩).rules (depth + 2)))
      _ ks _ := (reads_params hbinding start hname).bind fun fn hfn => reads_body hfn
  refine (Reads.withNoIn hparts).bind fun fn hfn => ?_
  exact .prevSpan fun _ => .pure ⟨hfn.name, hfn.isArrow, hfn.params, hfn.body⟩

theorem IsChecked.print (h : IsChecked names f x (n :: ns) fn) :
    Program.print ⟨[.function fn], []⟩ = "function " ++ f ++ "(" ++ x ++ ") \x7b\n" ++
      String.join ((n :: ns).map fun n => "    " ++ names.callText "assert" [x, quoted n.text] ++ ";\n") ++
      "\x7d\n" := by
  obtain ⟨⟨s, hname⟩, harrow, ⟨_, hparams, s', m, c, rfl, rfl, -⟩, span, stmts, hbody, hstmts⟩ := h
  obtain ⟨_, _, ps, _, _, _, _, _, _, _⟩ := fn
  dsimp only at hname harrow hparams hbody
  subst hname harrow hbody hparams
  have hblock : Layout.render [] (Block.layout 0 ⟨span, stmts⟩) = "\x7b\n" ++
      String.join ((n :: ns).map fun n => "    " ++ names.callText "assert" [m.text, quoted n.text] ++ ";\n") ++
      "\x7d" := by
    have hlayout : Block.layout 0 ⟨span, stmts⟩ =
        Layout.braces 0 (Layout.stmts 1 stmts ++ [.comments span.stop 1]) := by
      cases hstmts
      rfl
    rw [hlayout, Layout.braces]
    simp only [Annotated.render_append, Stmt.Prints.render hstmts]
    change "\x7b" ++ "\n" ++ (_ ++ "") ++ "" ++ "\x7d" = _
    rw [List.map_map, ← String.toList_inj]
    simp [Layout.indentation, Function.comp_def]
  change Layout.render [] (Layout.lead 0 _ ++ (Layout.keyword .kwFunction ++ Layout.space ++ Layout.name f ++
    (Layout.sign .lparen ++ Layout.name m.text ++ Layout.sign .rparen) ++ Layout.space ++
    Block.layout 0 ⟨span, stmts⟩) ++ Layout.newline ++ []) = _
  simp only [Annotated.render_append, hblock]
  change "" ++ ("function" ++ " " ++ Layout.render [] (Layout.name f) ++ ("(" ++ Layout.render [] (Layout.name m.text) ++
    ")") ++ " " ++ _) ++ "\n" ++ "" = _
  rw [← String.toList_inj]
  simp [Layout.render, Layout.weave, Token.Kind.spelling, Layout.commentLines]

end

/-! ### Operators on labels -/

theorem reads_labelOp (hr : r.TakesValues) (op : LabelOp) (hvalue : value.Prints x) :
    Reads (Label.labelOp ⟨true, names⟩ r value) (op.kinds ++ ks) ks
      fun o => ∃ e, o = some e ∧ e.Prints (op.applyText names x) := by
  have hkinds : op.kinds ++ ks = .contextual (if op.dropping then .kwDrop else .kwAs) ::
      (kinds op.first op.rest ++ ks) := rfl
  rw [hkinds, kinds_append]
  refine .lookFirst op.dropping (fun _ _ _ _ _ => ?_) ?_
  · cases op.dropping <;> rfl
  refine .lookTwo true (fun _ _ _ _ _ _ => ?_) ?_
  · cases op.dropping <;> rfl
  rw [← kinds_append]
  have hcontract : Reads (Label.labelContract r) (kinds op.first op.rest ++ ks) ks (Denote op.labels ·.labels) :=
    ((LabelTree.consumes_labelContract hr op.first.tree (op.rest.map tree)).imp
      fun _ hc => denote_of_bare hc.2.1).reads
  refine .advance (by simp) fun _ _ => hcontract.bind fun c hc => .pure ⟨_, rfl, ?_⟩
  exact hc.prints_foldl _ _ hvalue

theorem reads_labelOps (hr : r.TakesValues) (ops : List LabelOp) (hvalue : value.Prints x) :
    Reads (Label.labelOps ⟨true, names⟩ r value) (ops.flatMap LabelOp.kinds ++ .punct .semi :: ks) (.punct .semi :: ks)
      (Expr.Prints · (ops.foldl (LabelOp.applyText names) x)) := by
  refine .extend_foldl (A := fun x (e : Expr) => e.Prints x) (LabelOp.applyText names)
    (fun op _ _ _ (_ : True) he => reads_labelOp hr op he) (fun _ _ _ => trivial) (fun _ => ?_) trivial
    (fun _ _ _ => ?_) ops hvalue
  · exact Nat.succ_pos _
  refine .lookFirst false (fun _ _ _ _ _ => rfl) ?_
  exact .lookFirst false (fun _ _ _ _ _ => rfl) (.pure rfl)

theorem reads_trailing (hr : r.TakesValues) (ops : List LabelOp) (hvalue : value.Prints x) :
    Reads (trailing (.labels ⟨true, names⟩) r value) (ops.flatMap LabelOp.kinds ++ .punct .semi :: ks)
      (.punct .semi :: ks) (Expr.Prints · (ops.foldl (LabelOp.applyText names) x)) := by
  refine (reads_labelOps hr ops hvalue).bind fun e he => ?_
  have hbase : Reads (baseTrailing e) (.punct .semi :: ks) (.punct .semi :: ks) (· = e) := .kind? (.pure rfl)
  refine Reads.bind hbase ?_
  rintro _ rfl
  exact reads_labelOps hr [] he

/-- The sign behind the operand of operators. -/
theorem exists_labelOps (ops : List LabelOp) (ks : List Token.Kind) :
    ∃ k ks', ops.flatMap LabelOp.kinds ++ .punct .semi :: ks = k :: ks' ∧ Annotated.EndsOperand k := by
  cases ops with
  | nil => exact ⟨_, _, rfl, .value .semi⟩
  | cons op ops =>
    refine ⟨.contextual (if op.dropping then .kwDrop else .kwAs), _, rfl, ?_⟩
    cases op.dropping with
    | true => exact .drop
    | false => exact .as

theorem reads_chain (hr : r.TakesValues) (x : String) (ops : List LabelOp) :
    Reads (expr (.labels ⟨true, names⟩) r) (LabelOp.chainKinds x ops ks) (.punct .semi :: ks)
      (Expr.Prints · (ops.foldl (LabelOp.applyText names) x)) := by
  have hleft : Reads (leftHandSide (.labels ⟨true, names⟩) r) (LabelOp.chainKinds x ops ks)
      (ops.flatMap LabelOp.kinds ++ .punct .semi :: ks) (Expr.Prints · x) := by
    obtain ⟨k, ks', hrest, hk⟩ := exists_labelOps ops ks
    rw [LabelOp.chainKinds, hrest]
    refine (Annotated.reads_leftHandSide (.ident x) hk).imp fun e he => ?_
    obtain ⟨s, rfl⟩ := he x rfl
    exact .ident s x
  have hunary : Reads (unary (.labels ⟨true, names⟩) r) (LabelOp.chainKinds x ops ks) (.punct .semi :: ks)
      (Expr.Prints · (ops.foldl (LabelOp.applyText names) x)) :=
    .kind? (hleft.bind fun _ he => reads_trailing hr ops he)
  have hbinary : Reads (binary (.labels ⟨true, names⟩) r .sequence) (LabelOp.chainKinds x ops ks) (.punct .semi :: ks)
      (Expr.Prints · (ops.foldl (LabelOp.applyText names) x)) := by
    refine hunary.bind fun e he => ?_
    have hstop : Reads (binaryStep r .sequence e) (.punct .semi :: ks) (.punct .semi :: ks) (· = none) :=
      .lookFirst none (fun _ _ _ _ _ => rfl) (.pure rfl)
    refine hstop.stop.imp ?_
    rintro _ rfl
    exact he
  have hassign : Reads (assign (.labels ⟨true, names⟩) r) (LabelOp.chainKinds x ops ks) (.punct .semi :: ks)
      (Expr.Prints · (ops.foldl (LabelOp.applyText names) x)) :=
    Reads.bind (hbinary.bind fun _ he => .pass rfl (.pure he)) fun _ he => .kind? (.pure he)
  exact hassign.bind fun _ he => .pass rfl (.pure he)

theorem reads_chainStmt (hr : r.TakesValues) (x : String) (ops : List LabelOp) :
    Reads (statement (.labels ⟨true, names⟩) r) (LabelOp.chainKinds x ops ks) ks
      (Stmt.Prints · (ops.foldl (LabelOp.applyText names) x)) := by
  have hstmt : Reads (exprStmt (.labels ⟨true, names⟩) r) (LabelOp.chainKinds x ops ks) ks
      (Stmt.Prints · (ops.foldl (LabelOp.applyText names) x)) :=
    (reads_chain hr x ops).bind fun e he => .consumeSemicolon (.prevSpan fun _ => .pure ⟨_, e, rfl, he⟩)
  have hbase : Reads (baseStatement (.labels ⟨true, names⟩) r) (LabelOp.chainKinds x ops ks) ks
      (Stmt.Prints · (ops.foldl (LabelOp.applyText names) x)) := .kind? hstmt
  obtain ⟨k, ks', hrest, hk⟩ := exists_labelOps ops ks
  rw [LabelOp.chainKinds, hrest] at hbase ⊢
  refine .lookTwo false (fun _ _ _ _ _ _ => ?_) (.kind? hbase)
  cases hk with
  | value hk => cases hk <;> rfl
  | drop => rfl
  | as => rfl

end

/-! ### Texts -/

section
variable {cs : List Char} {ks : List Token.Kind}

theorem readAs_names (n : DottedName) (ns : List DottedName) (h : ReadAs cs ks) :
    ReadAs ('<' :: '!' :: ((listText (n :: ns)).toList ++ '!' :: '>' :: cs)) (kinds n ns ++ ks) := by
  have hlist : ReadAs _ _ := LabelTree.readAs_list (b := starBlanks) ((n :: ns).map tree) h
  rw [listText_trees, List.cons_append, List.cons_append, List.append_assoc] at hlist
  exact hlist

theorem LabelOp.readAs (op : LabelOp) (h : ReadAs cs ks) : ReadAs (op.text.toList ++ cs) (op.kinds ++ ks) := by
  have hlabels := readAs_names op.first op.rest h
  obtain ⟨dropping, n, ns⟩ := op
  cases dropping with
  | true =>
    have hchars : (LabelOp.mk true n ns).text.toList ++ cs =
        'd' :: 'r' :: 'o' :: 'p' :: ' ' :: '<' :: '!' :: ((listText (n :: ns)).toList ++ '!' :: '>' :: cs) := by
      simp [LabelOp.text, LabelOp.labels]
    rw [hchars]
    exact .token (w := ['r', 'o', 'p']) rfl (fun _ _ _ => rfl) (.blank hlabels)
  | false =>
    have hchars : (LabelOp.mk false n ns).text.toList ++ cs =
        'a' :: 's' :: ' ' :: '<' :: '!' :: ((listText (n :: ns)).toList ++ '!' :: '>' :: cs) := by
      simp [LabelOp.text, LabelOp.labels]
    rw [hchars]
    exact .token (w := ['s']) rfl (fun _ _ _ => rfl) (.blank hlabels)

theorem readAs_ops (ops : List LabelOp) (hcs : cs.head?.any isWordPart = false) (h : ReadAs cs ks) :
    ReadAs ((ops.flatMap fun op => ' ' :: op.text.toList) ++ cs) (ops.flatMap LabelOp.kinds ++ ks) ∧
      ((ops.flatMap fun op => ' ' :: op.text.toList) ++ cs).head?.any isWordPart = false := by
  induction ops with
  | nil => exact ⟨h, hcs⟩
  | cons op ops ih =>
    rw [List.flatMap_cons, List.flatMap_cons, List.append_assoc, List.append_assoc]
    exact ⟨.blank (op.readAs ih.1), rfl⟩

end

theorem readAs_declaration (n : DottedName) (ns : List DottedName) :
    ReadAs ("SecAnn <!" ++ listText (n :: ns) ++ "!>;").toList
      (.contextual .kwSecAnn :: (kinds n ns ++ [.punct .semi, .eof])) := by
  have hlabels := readAs_names n ns (.sign (c := ';') rfl (fun _ _ _ => rfl) .nil)
  have hchars : ("SecAnn <!" ++ listText (n :: ns) ++ "!>;").toList =
      'S' :: 'e' :: 'c' :: 'A' :: 'n' :: 'n' :: ' ' :: '<' :: '!' :: ((listText (n :: ns)).toList ++ ['!', '>', ';']) := by
    simp
  rw [hchars]
  exact .token (w := ['e', 'c', 'A', 'n', 'n']) rfl (fun _ _ _ => rfl) (.blank hlabels)

theorem readAs_function (f x : BaseName) (n : DottedName) (ns : List DottedName) :
    ReadAs ("function " ++ f.text ++ "(" ++ x.text ++ " :<!" ++ listText (n :: ns) ++ "!>) \x7b\x7d").toList
      (.reserved .kwFunction :: .ident f.text :: .punct .lparen :: .ident x.text :: .punct .colon ::
        (kinds n ns ++ [.punct .rparen, .punct .lbrace, .punct .rbrace, .eof])) := by
  have hbody : ReadAs [')', ' ', '\x7b', '\x7d'] [.punct .rparen, .punct .lbrace, .punct .rbrace, .eof] :=
    .sign rfl (fun _ _ _ => rfl) (.blank (.sign rfl (fun _ _ _ => rfl) (.sign rfl (fun _ _ _ => rfl) .nil)))
  have hparam : ReadAs (x.text.toList ++ ' ' :: ':' :: '<' :: '!' :: _) (.ident x.text :: .punct .colon :: _) :=
    .name x rfl (.blank (.sign rfl (fun _ _ _ => rfl) (readAs_names n ns hbody)))
  have hname : ReadAs (f.text.toList ++ '(' :: _) (.ident f.text :: .punct .lparen :: _) :=
    .name f rfl (.sign rfl (fun _ _ _ => rfl) hparam)
  have hchars : ("function " ++ f.text ++ "(" ++ x.text ++ " :<!" ++ listText (n :: ns) ++ "!>) \x7b\x7d").toList =
      'f' :: 'u' :: 'n' :: 'c' :: 't' :: 'i' :: 'o' :: 'n' :: ' ' :: (f.text.toList ++ '(' :: (x.text.toList ++
        ' ' :: ':' :: '<' :: '!' :: ((listText (n :: ns)).toList ++ ['!', '>', ')', ' ', '\x7b', '\x7d']))) := by
    simp
  rw [hchars]
  exact .token (w := ['u', 'n', 'c', 't', 'i', 'o', 'n']) rfl (fun _ _ _ => rfl) (.blank hname)

theorem readAs_chain (x : BaseName) (ops : List LabelOp) :
    ReadAs (x.text ++ String.join (ops.map (" " ++ ·.text)) ++ ";").toList (LabelOp.chainKinds x.text ops [.eof]) := by
  obtain ⟨hops, hhead⟩ := readAs_ops ops rfl (.sign (c := ';') rfl (fun _ _ _ => rfl) .nil)
  have hchars : (x.text ++ String.join (ops.map (" " ++ ·.text)) ++ ";").toList =
      x.text.toList ++ ((ops.flatMap fun op => ' ' :: op.text.toList) ++ [';']) := by
    simp [List.flatMap_map]
  rw [hchars]
  exact .name x hhead hops

/-! ### Order -/

theorem reads_functionProgram (names : RuntimeNames) (depth : Nat) (f x : String) (n : DottedName) (ns : List DottedName) :
    Reads (program ((Grammar.labels ⟨true, names⟩).rules (depth + 3)))
      (.reserved .kwFunction :: .ident f :: .punct .lparen :: .ident x :: .punct .colon ::
        (kinds n ns ++ [.punct .rparen, .punct .lbrace, .punct .rbrace, .eof])) [.eof]
      fun ss => ∃ fn, ss = [.function fn] ∧ IsChecked names f x (n :: ns) fn := by
  have hstatement : Reads (statement (.labels ⟨true, names⟩) ((Grammar.labels ⟨true, names⟩).rules (depth + 2)))
      (.reserved .kwFunction :: .ident f :: .punct .lparen :: .ident x :: .punct .colon ::
        (kinds n ns ++ [.punct .rparen, .punct .lbrace, .punct .rbrace, .eof])) [.eof]
      fun s => ∃ fn, s = .function fn ∧ IsChecked names f x (n :: ns) fn := by
    refine .lookTwo false (fun _ _ _ _ _ _ => rfl) (.kind? (.kind? ?_))
    refine .expect (by simp) fun word _ => .expectIdent fun name hname => ?_
    exact (reads_function word.span hname).bind fun fn hfn => .pure ⟨fn, rfl, hfn⟩
  refine (Reads.sized (.manyFrom_cons rfl hstatement (.manyFrom_nil rfl))).imp ?_
  rintro _ ⟨_, _, rfl, ⟨fn, rfl, hfn⟩, rfl⟩
  exact ⟨fn, rfl, hfn⟩

theorem reads_chainProgram (names : RuntimeNames) (depth : Nat) (x : String) (ops : List LabelOp) :
    Reads (program ((Grammar.labels ⟨true, names⟩).rules (depth + 2))) (LabelOp.chainKinds x ops [.eof]) [.eof]
      fun ss => Program.print ⟨ss, []⟩ = ops.foldl (LabelOp.applyText names) x ++ ";\n" := by
  have hstatement : Reads (statement (.labels ⟨true, names⟩) ((Grammar.labels ⟨true, names⟩).rules (depth + 1)))
      (LabelOp.chainKinds x ops [.eof]) [.eof] (Stmt.Prints · (ops.foldl (LabelOp.applyText names) x)) :=
    reads_chainStmt (takesValues ⟨true, names⟩ depth) x ops
  refine (Reads.sized (.manyFrom_cons rfl hstatement (.manyFrom_nil rfl))).imp ?_
  rintro _ ⟨s, _, rfl, hs, rfl⟩
  exact hs.print

/-- Labels keep their order, and none is lost or written twice: in a declaration, in the checks of a
    parameter, and where operators add or remove them. -/
theorem compile_keeps_order (names : RuntimeNames) (n : DottedName) (ns : List DottedName) (f a x : BaseName)
    (ops : List LabelOp) (unit : String) :
    compile ⟨true, names⟩ none ⟨unit, "SecAnn <!" ++ listText (n :: ns) ++ "!>;"⟩ =
        .ok (names.callText "declare" [quoted (listText (n :: ns))] ++ ";\n") ∧
      compile ⟨true, names⟩ none
          ⟨unit, "function " ++ f.text ++ "(" ++ a.text ++ " :<!" ++ listText (n :: ns) ++ "!>) \x7b\x7d"⟩ =
        .ok ("function " ++ f.text ++ "(" ++ a.text ++ ") \x7b\n" ++
          String.join ((n :: ns).map fun n => "    " ++ names.callText "assert" [a.text, quoted n.text] ++ ";\n") ++
          "\x7d\n") ∧
      compile ⟨true, names⟩ none ⟨unit, x.text ++ String.join (ops.map (" " ++ ·.text)) ++ ";"⟩ =
        .ok (ops.foldl (LabelOp.applyText names) x.text ++ ";\n") := by
  refine ⟨?_, ?_, ?_⟩
  · exact Annotated.compile_of_reads 2 (by simp) (readAs_declaration n ns) (reads_declarations names · n ns) unit
  · refine Annotated.compile_of_reads 3 (by simp) (readAs_function f a n ns) (fun depth => ?_) unit
    refine (reads_functionProgram names depth f.text a.text n ns).imp ?_
    rintro _ ⟨fn, rfl, hfn⟩
    exact hfn.print
  · exact Annotated.compile_of_reads 2 (by simp) (readAs_chain x ops) (reads_chainProgram names · x.text ops) unit

end DottedName

end LabelWeaver
