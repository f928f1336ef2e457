import LabelWeaver.Proofs.Token.ReadAs
import Mathlib.Data.List.Basic

/-! Functions with annotations as they are written, and the tokens that their texts are read as. -/

namespace LabelWeaver.Annotated

/-! ### Texts -/

/-- Labels between signs, with stars between them. -/
structure Labels where
  first : BaseName
  rest : List BaseName

/-- The labels behind the first one. -/
def starred : List BaseName → String
  | [] => ""
  | x :: xs => " * " ++ x.text ++ starred xs

def Labels.text (l : Labels) : String := "<!" ++ l.first.text ++ starred l.rest ++ "!>"

/-- What may follow the name of a parameter. -/
inductive Suffix where
  | labels (l : Labels)
  | typed (base : BaseName) (l : Labels)
  | every (l : Labels)
  | named (key : BaseName) (l : Labels)
  | atLeast (count : Digits) (l : Labels)

def Suffix.text : Suffix → String
  | labels l => " :" ++ l.text
  | typed base l => " :" ++ base.text ++ " " ++ l.text
  | every l => " :A " ++ l.text
  | named key l => " :S['" ++ key.text ++ "', " ++ l.text ++ "]"
  | atLeast count l => " :E[" ++ count.text ++ ", " ++ l.text ++ "]"

/-- An operator that adds or removes labels. -/
structure Operator where
  dropping : Bool
  labels : Labels

def Operator.text (op : Operator) : String := (if op.dropping then " drop " else " as ") ++ op.labels.text

/-- A function with annotations: the suffixes of its parameters, the labels of its returned value and
    the operators behind the value that it stores and returns. -/
structure Source where
  params : List (List Suffix)
  returns : Option Labels
  ops : List Operator

/-- The same function without annotations. -/
def Source.plain (f : Source) : Source := ⟨f.params.map fun _ => [], none, []⟩

def suffixesText : List Suffix → String
  | [] => ""
  | s :: ss => s.text ++ suffixesText ss

def operatorsText : List Operator → String
  | [] => ""
  | op :: ops => op.text ++ operatorsText ops

/-- The name of the parameter at a place. -/
def paramText (i : Nat) : String := "p" ++ toString i

/-- Parameters with commas between them, from the place `i` on. -/
def paramsText : (i : Nat) → List (List Suffix) → String
  | _, [] => ""
  | i, [ss] => paramText i ++ suffixesText ss
  | i, ss :: rest => paramText i ++ suffixesText ss ++ ", " ++ paramsText (i + 1) rest

def Source.text (f : Source) : String :=
  "function f(" ++ paramsText 0 f.params ++ ")" ++ (f.returns.elim "" fun l => " :" ++ l.text) ++
    " \x7b var t = p0" ++ operatorsText f.ops ++ "; return t; \x7d"

/-! ### Tokens -/

def Labels.kinds (l : Labels) : List Token.Kind :=
  .marker .labelOpen :: .ident l.first.text ::
    (l.rest.flatMap fun x => [.punct .star, .ident x.text]) ++ [.marker .labelClose]

/-- A base type with the name of a marker is read as the marker. -/
def Suffix.kinds : Suffix → List Token.Kind
  | labels l => .punct .colon :: l.kinds
  | typed base l => if base.text = "A" then .marker .shapeEvery :: l.kinds
    else .punct .colon :: .ident base.text :: l.kinds
  | every l => .marker .shapeEvery :: l.kinds
  | named key l => .marker .shapeNamed :: .punct .lbracket :: .string key.text :: .punct .comma ::
      l.kinds ++ [.punct .rbracket]
  | atLeast count l => .marker .shapeCount :: .punct .lbracket :: .number count.text :: .punct .comma ::
      l.kinds ++ [.punct .rbracket]

def Operator.kinds (op : Operator) : List Token.Kind :=
  .contextual (if op.dropping then .kwDrop else .kwAs) :: op.labels.kinds

def paramKinds (i : Nat) (ss : List Suffix) : List Token.Kind := .ident (paramText i) :: ss.flatMap Suffix.kinds

def paramsKinds : (i : Nat) → List (List Suffix) → List Token.Kind
  | _, [] => []
  | i, [ss] => paramKinds i ss
  | i, ss :: rest => paramKinds i ss ++ .punct .comma :: paramsKinds (i + 1) rest

/-- The tokens between the parameter list and the body. -/
def returnsKinds (returns : Option Labels) : List Token.Kind :=
  returns.elim [] fun l => .punct .colon :: l.kinds

/-- The tokens of the body. -/
def bodyKinds (ops : List Operator) : List Token.Kind :=
  .punct .lbrace :: .reserved .kwVar :: .ident "t" :: .punct .eq :: .ident (paramText 0) ::
    (ops.flatMap Operator.kinds ++ [.punct .semi, .reserved .kwReturn, .ident "t", .punct .semi, .punct .rbrace])

def Source.kinds (f : Source) : List Token.Kind :=
  .reserved .kwFunction :: .ident "f" :: .punct .lparen :: (paramsKinds 0 f.params ++ .punct .rparen ::
    (returnsKinds f.returns ++ (bodyKinds f.ops ++ [.eof])))

theorem Labels.kinds_append (l : Labels) (ks : List Token.Kind) :
    l.kinds ++ ks = .marker .labelOpen :: .ident l.first.text ::
      ((l.rest.flatMap fun x => [.punct .star, .ident x.text]) ++ .marker .labelClose :: ks) := by
  simp [Labels.kinds]

theorem Suffix.named_kinds_append (key : BaseName) (l : Labels) (ks : List Token.Kind) :
    (named key l).kinds ++ ks = .marker .shapeNamed :: .punct .lbracket :: .string key.text :: .punct .comma ::
      (l.kinds ++ .punct .rbracket :: ks) := by
  simp [Suffix.kinds]

theorem Suffix.atLeast_kinds_append (count : Digits) (l : Labels) (ks : List Token.Kind) :
    (atLeast count l).kinds ++ ks = .marker .shapeCount :: .punct .lbracket :: .number count.text :: .punct .comma ::
      (l.kinds ++ .punct .rbracket :: ks) := by
  simp [Suffix.kinds]

theorem bodyKinds_append (ops : List Operator) (ks : List Token.Kind) :
    bodyKinds ops ++ ks = .punct .lbrace :: .reserved .kwVar :: .ident "t" :: .punct .eq :: .ident (paramText 0) ::
      (ops.flatMap Operator.kinds ++
        .punct .semi :: .reserved .kwReturn :: .ident "t" :: .punct .semi :: .punct .rbrace :: ks) := by
  simp [bodyKinds]

/-! ### Reading -/

variable {cs : List Char} {ks : List Token.Kind}

theorem readAs_starred (xs : List BaseName) (hcs : cs.head?.any isWordPart = false) (h : ReadAs cs ks) :
    ReadAs ((starred xs).toList ++ cs) ((xs.flatMap fun x => [.punct .star, .ident x.text]) ++ ks) ∧
      ((starred xs).toList ++ cs).head?.any isWordPart = false := by
  induction xs with
  | nil => exact ⟨h, hcs⟩
  | cons x xs ih =>
    have hchars : (starred (x :: xs)).toList ++ cs =
        ' ' :: '*' :: ' ' :: (x.text.toList ++ ((starred xs).toList ++ cs)) := by
      simp [starred]
    rw [hchars]
    refine ⟨.blank (.sign rfl (fun _ _ _ => rfl) (.blank (.name x ih.2 ih.1))), rfl⟩

theorem Labels.readAs (l : Labels) (h : ReadAs cs ks) : ReadAs (l.text.toList ++ cs) (l.kinds ++ ks) := by
  have hclose : ReadAs ('!' :: '>' :: cs) (.marker .labelClose :: ks) :=
    .token (w := ['>']) rfl (fun _ _ _ => rfl) h
  obtain ⟨hrest, hhead⟩ := readAs_starred l.rest rfl hclose
  have hchars : l.text.toList ++ cs =
      '<' :: '!' :: (l.first.text.toList ++ ((starred l.rest).toList ++ '!' :: '>' :: cs)) := by
    simp [Labels.text]
  rw [hchars, l.kinds_append]
  exact .token (w := ['!']) rfl (fun _ _ _ => rfl) (.name l.first hhead hrest)

/-- What stands behind the name of a parameter does not continue it. -/
theorem head_suffix (s : Suffix) (cs : List Char) : (s.text.toList ++ cs).head? = some ' ' := by
  cases s <;> simp [Suffix.text]

theorem Labels.exists_text (l : Labels) (cs : List Char) : ∃ rest, l.text.toList ++ cs = '<' :: '!' :: rest :=
  ⟨_, by simp [Labels.text]; rfl⟩

/-- A label list between a comma and a closing bracket. -/
theorem Labels.readAs_arg (l : Labels) (h : ReadAs cs ks) :
    ReadAs (',' :: ' ' :: (l.text.toList ++ ']' :: cs)) (.punct .comma :: (l.kinds ++ .punct .rbracket :: ks)) :=
  .sign rfl (fun _ _ _ => rfl) (.blank (l.readAs (.sign rfl (fun _ _ _ => rfl) h)))

theorem Suffix.readAs (s : Suffix) (h : ReadAs cs ks) : ReadAs (s.text.toList ++ cs) (s.kinds ++ ks) := by
  cases s with
  | labels l =>
    obtain ⟨rest, hrest⟩ := l.exists_text cs
    have hchars : (Suffix.labels l).text.toList ++ cs = ' ' :: ':' :: (l.text.toList ++ cs) := by
      simp [Suffix.text]
    have hl := l.readAs h
    rw [hchars, hrest]
    rw [hrest] at hl
    exact .blank (.sign rfl (fun _ _ _ => rfl) hl)
  | every l =>
    obtain ⟨rest, hrest⟩ := l.exists_text cs
    have hchars : (Suffix.every l).text.toList ++ cs = ' ' :: ':' :: 'A' :: ' ' :: (l.text.toList ++ cs) := by
      simp [Suffix.text]
    have hl := l.readAs h
    rw [hchars, hrest]
    rw [hrest] at hl
    exact .blank (.token (w := ['A']) rfl (fun _ _ _ => rfl) (.blank hl))
  | typed base l =>
    obtain ⟨rest, hrest⟩ := l.exists_text cs
    have hchars : (Suffix.typed base l).text.toList ++ cs =
        ' ' :: ':' :: (base.text.toList ++ ' ' :: (l.text.toList ++ cs)) := by
      simp [Suffix.text]
    have hl := l.readAs h
    rw [hchars, hrest]
    rw [hrest] at hl
    rw [Suffix.kinds]
    by_cases hbase : base.text = "A"
    · rw [if_pos hbase, hbase]
      exact .blank (.token (w := ['A']) rfl (fun _ _ _ => rfl) (.blank hl))
    · rw [if_neg hbase]
      exact .blank (.colon base hbase (.name base rfl (.blank hl)))
  | named key l =>
    have hchars : (Suffix.named key l).text.toList ++ cs =
        ' ' :: ':' :: 'S' :: '[' :: '\'' :: (key.text.toList ++ '\'' :: ',' :: ' ' :: (l.text.toList ++ ']' :: cs)) := by
      simp [Suffix.text]
    rw [hchars, named_kinds_append]
    exact .blank (.token (w := ['S']) rfl (fun _ _ _ => rfl)
      (.sign rfl (fun _ _ _ => rfl) (.quoted key (l.readAs_arg h))))
  | atLeast count l =>
    have hchars : (Suffix.atLeast count l).text.toList ++ cs =
        ' ' :: ':' :: 'E' :: '[' :: (count.text.toList ++ ',' :: ' ' :: (l.text.toList ++ ']' :: cs)) := by
      simp [Suffix.text]
    rw [hchars, atLeast_kinds_append]
    exact .blank (.token (w := ['E']) rfl (fun _ _ _ => rfl)
      (.sign rfl (fun _ _ _ => rfl) (.number count (l.readAs_arg h))))

theorem suffixesText_cons (s : Suffix) (ss : List Suffix) (cs : List Char) :
    (suffixesText (s :: ss)).toList ++ cs = s.text.toList ++ ((suffixesText ss).toList ++ cs) := by
  simp [suffixesText]

theorem readAs_suffixes (ss : List Suffix) (h : ReadAs cs ks) :
    ReadAs ((suffixesText ss).toList ++ cs) (ss.flatMap Suffix.kinds ++ ks) := by
  induction ss with
  | nil => exact h
  | cons s ss ih =>
    rw [suffixesText_cons, List.flatMap_cons, List.append_assoc]
    exact s.readAs ih

theorem Operator.readAs (op : Operator) (h : ReadAs cs ks) : ReadAs (op.text.toList ++ cs) (op.kinds ++ ks) := by
  obtain ⟨dropping, l⟩ := op
  cases dropping with
  | true =>
    have hchars : (Operator.mk true l).text.toList ++ cs =
        ' ' :: 'd' :: 'r' :: 'o' :: 'p' :: ' ' :: (l.text.toList ++ cs) := by
      simp [Operator.text]
    rw [hchars]
    exact .blank (.token (w := ['r', 'o', 'p']) rfl (fun _ _ _ => rfl) (.blank (l.readAs h)))
  | false =>
    have hchars : (Operator.mk false l).text.toList ++ cs = ' ' :: 'a' :: 's' :: ' ' :: (l.text.toList ++ cs) := by
      simp [Operator.text]
    rw [hchars]
    exact .blank (.token (w := ['s']) rfl (fun _ _ _ => rfl) (.blank (l.readAs h)))

theorem readAs_operators (ops : List Operator) (h : ReadAs cs ks) :
    ReadAs ((operatorsText ops).toList ++ cs) (ops.flatMap Operator.kinds ++ ks) := by
  induction ops with
  | nil => exact h
  | cons op ops ih =>
    have hchars : (operatorsText (op :: ops)).toList ++ cs = op.text.toList ++ ((operatorsText ops).toList ++ cs) := by
      simp [operatorsText]
    rw [hchars, List.flatMap_cons, List.append_assoc]
    exact op.readAs ih

/-! ### Parameters -/

theorem paramText_toList (i : Nat) : (paramText i).toList = 'p' :: Nat.toDigits 10 i := by
  rw [paramText, Nat.toString_eq_ofList_toDigits]
  simp

theorem isDigit_toDigits (i : Nat) : ∀ c ∈ Nat.toDigits 10 i, c.isDigit = true :=
  fun _ hc => Nat.isDigit_of_mem_toDigits (by decide) (by decide) hc

/-- The name of a parameter is no word: it has a digit. -/
theorem paramText_ne {i : Nat} {w : String} (hw : w.toList.all (!·.isDigit) = true) : w ≠ paramText i := by
  rintro rfl
  obtain ⟨c, hc⟩ := List.exists_mem_of_ne_nil _ (Nat.toDigits_ne_nil (n := i) (b := 10))
  have hfalse := List.all_eq_true.mp hw c (by rw [paramText_toList]; exact List.mem_cons_of_mem _ hc)
  rw [isDigit_toDigits i c hc] at hfalse
  cases hfalse

/-- The name of the parameter at a place. -/
def param (i : Nat) : BaseName where
  text := paramText i
  ident := by
    rw [paramText_toList, isIdent, Bool.and_eq_true, List.all_eq_true]
    exact ⟨rfl, fun c hc => isIdentPart_of_isDigit (isDigit_toDigits i c hc)⟩
  notReserved := by
    rw [Reserved.ofText?, List.find?_eq_none]
    intro w _ hw
    refine paramText_ne (w := w.text) ?_ (beq_iff_eq.mp hw)
    cases w <;> rfl
  notContextual w := paramText_ne w.not_isDigit_text

theorem readAs_param (i : Nat) (ss : List Suffix) (hcs : cs.head?.any isWordPart = false) (h : ReadAs cs ks) :
    ReadAs ((paramText i).toList ++ ((suffixesText ss).toList ++ cs)) (paramKinds i ss ++ ks) := by
  refine .name (param i) ?_ (readAs_suffixes ss h)
  cases ss with
  | nil => exact hcs
  | cons s ss =>
    rw [suffixesText_cons, head_suffix]
    rfl

theorem readAs_params (i : Nat) (params : List (List Suffix)) (hcs : cs.head?.any isWordPart = false)
    (h : ReadAs cs ks) : ReadAs ((paramsText i params).toList ++ cs) (paramsKinds i params ++ ks) := by
  fun_induction paramsText i params with
  | case1 => exact h
  | case2 i ss =>
    have hchars : (paramText i ++ suffixesText ss).toList ++ cs =
        (paramText i).toList ++ ((suffixesText ss).toList ++ cs) := by
      simp
    rw [hchars]
    exact readAs_param i ss hcs h
  | case3 i ss rest hrest ih =>
    have hchars : (paramText i ++ suffixesText ss ++ ", " ++ paramsText (i + 1) rest).toList ++ cs =
        (paramText i).toList ++ ((suffixesText ss).toList ++ ',' :: ' ' :: ((paramsText (i + 1) rest).toList ++ cs)) := by
      simp
    have hkinds : paramsKinds i (ss :: rest) ++ ks =
        paramKinds i ss ++ .punct .comma :: (paramsKinds (i + 1) rest ++ ks) := by
      rw [paramsKinds, List.append_assoc]
      · rfl
      · exact hrest
    rw [hchars, hkinds]
    exact readAs_param i ss rfl (.sign rfl (fun _ _ _ => rfl) (.blank ih))

/-! ### Sources -/

/-- The end of a source, from the operators on. -/
theorem readAs_end (ops : List Operator) :
    ReadAs ((operatorsText ops).toList ++ "; return t; \x7d".toList)
      (ops.flatMap Operator.kinds ++
        [.punct .semi, .reserved .kwReturn, .ident "t", .punct .semi, .punct .rbrace, .eof]) := by
  refine readAs_operators ops ?_
  have hbrace : ReadAs ['\x7d'] [.punct .rbrace, .eof] := .sign rfl (fun _ _ _ => rfl) .nil
  have hvalue : ReadAs ('t' :: ';' :: ' ' :: ['\x7d']) [.ident "t", .punct .semi, .punct .rbrace, .eof] :=
    .sign rfl (fun _ _ _ => rfl) (.sign rfl (fun _ _ _ => rfl) (.blank hbrace))
  have hreturn : ReadAs ('r' :: ['e', 't', 'u', 'r', 'n'] ++ ' ' :: 't' :: ';' :: ' ' :: ['\x7d'])
      (.reserved .kwReturn :: [.ident "t", .punct .semi, .punct .rbrace, .eof]) :=
    .token rfl (fun _ _ _ => rfl) (.blank hvalue)
  exact .sign rfl (fun _ _ _ => rfl) (.blank hreturn)

theorem readAs_body (ops : List Operator) :
    ReadAs (" \x7b var t = p0".toList ++ ((operatorsText ops).toList ++ "; return t; \x7d".toList))
      (bodyKinds ops ++ [.eof]) := by
  have hhead : ((operatorsText ops).toList ++ "; return t; \x7d".toList).head?.any isWordPart = false := by
    cases ops with
    | nil => rfl
    | cons op ops =>
      obtain ⟨dropping, l⟩ := op
      cases dropping <;> simp [operatorsText, Operator.text] <;> rfl
  have hvalue : ReadAs ((param 0).text.toList ++ ((operatorsText ops).toList ++ "; return t; \x7d".toList))
      (.ident (paramText 0) :: _) := .name (param 0) hhead (readAs_end ops)
  have hassign : ReadAs ('t' :: ' ' :: '=' :: ' ' ::
      ((param 0).text.toList ++ ((operatorsText ops).toList ++ "; return t; \x7d".toList)))
      (.ident "t" :: .punct .eq :: .ident (paramText 0) :: _) :=
    .sign rfl (fun _ _ _ => rfl) (.blank (.sign rfl (fun _ _ _ => rfl) (.blank hvalue)))
  rw [bodyKinds_append]
  exact .blank (.sign rfl (fun _ _ _ => rfl)
    (.blank (.token (w := ['a', 'r']) rfl (fun _ _ _ => rfl) (.blank hassign))))

theorem Source.readAs (f : Source) : ReadAs f.text.toList f.kinds := by
  have hreturns : ReadAs ((f.returns.elim "" fun l => " :" ++ l.text).toList ++
      (" \x7b var t = p0".toList ++ ((operatorsText f.ops).toList ++ "; return t; \x7d".toList)))
      (returnsKinds f.returns ++ (bodyKinds f.ops ++ [.eof])) := by
    cases f.returns with
    | none => exact readAs_body f.ops
    | some l => exact (Suffix.labels l).readAs (readAs_body f.ops)
  have hparams := readAs_params 0 f.params rfl (.sign (c := ')') rfl (fun _ _ _ => rfl) hreturns)
  have hname : ReadAs ('f' :: '(' :: _) (.ident "f" :: .punct .lparen :: _) :=
    .sign rfl (fun _ _ _ => rfl) (.sign rfl (fun _ _ _ => rfl) hparams)
  have hsource : ReadAs ('f' :: ['u', 'n', 'c', 't', 'i', 'o', 'n'] ++ ' ' :: 'f' :: '(' :: _) f.kinds :=
    .token rfl (fun _ _ _ => rfl) (.blank hname)
  delta Source.text
  simp only [String.toList_append, List.append_assoc]
  exact hsource

example : (Source.mk [[.labels ⟨param 1, []⟩, .typed (param 2) ⟨param 3, [param 4]⟩], [.named (param 5) ⟨param 6, []⟩]]
    (some ⟨param 7, []⟩) [⟨true, ⟨param 8, []⟩⟩]).text =
    "function f(p0 :<!p1!> :p2 <!p3 * p4!>, p1 :S['p5', <!p6!>]) :<!p7!> \x7b var t = p0 drop <!p8!>; return t; \x7d" :=
  rfl

end LabelWeaver.Annotated
