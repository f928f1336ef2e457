import LabelWeaver.Proofs.Text.Literal
import LabelWeaver.Proofs.Token.ReadAs
import LabelWeaver.Proofs.Layout.Text

/-! How tokens are written, and that they are read as they are written. What is written directly behind a
    token must not be read as a part of it; `stopsAt` says behind which characters a token ends. -/

namespace LabelWeaver

/-! ### Signs -/

namespace Punct

/-- A longer sign starts with `p` and `c`. -/
def continues (p : Punct) (c : Char) : Bool := all.any fun q => (p.spelling.toList ++ [c]).isPrefixOf q.spelling.toList

theorem spelling_inj {p q : Punct} (h : p.spelling.toList = q.spelling.toList) : p = q := by
  have hall : ∀ p ∈ all, ∀ q ∈ all, p.spelling.toList = q.spelling.toList → p = q := by decide +kernel
  exact hall p p.mem_all q q.mem_all h

/-- A sign is read as the longest one, so it is read as itself unless it is continued. -/
theorem scan_spelling {p : Punct} {rest : List Char} (h : ∀ c ∈ rest.head?, p.continues c = false) :
    scan (p.spelling.toList ++ rest) = some p := by
  have hsome : (scan (p.spelling.toList ++ rest)).isSome = true := by
    rw [scan, List.find?_isSome]
    exact ⟨p, p.mem_all, List.isPrefixOf_iff_prefix.mpr (List.prefix_append _ _)⟩
  obtain ⟨q, hq⟩ := Option.isSome_iff_exists.mp hsome
  obtain ⟨hstart, before, behind, hsplit, hbefore⟩ := List.find?_eq_some_iff_append.mp hq
  rw [ List.isPrefixOf_iff_prefix] at hstart
  -- the sign that is found is not shorter, since longer ones come first
  have hlength : p.spelling.toList.length ≤ q.spelling.toList.length := by
    have hmem := hsplit ▸ p.mem_all
    rcases List.mem_append.mp hmem with hmem | hmem
    · have hne := hbefore p hmem
      rw [ List.isPrefixOf_iff_prefix.mpr (List.prefix_append _ _)] at hne
      cases hne
    · rcases List.mem_cons.mp hmem with rfl | hmem
      · exact Nat.le_refl _
      · have hsorted := hsplit ▸ all_sorted
        exact (List.pairwise_cons.mp (List.pairwise_append.mp hsorted).2.1).1 p hmem
  obtain ⟨tail, htail⟩ := List.prefix_of_prefix_length_le (List.prefix_append _ _) hstart hlength
  cases tail with
  | nil =>
    rw [List.append_nil] at htail
    rw [hq, spelling_inj htail]
  | cons c tail =>
    rw [← htail, List.prefix_append_right_inj] at hstart
    obtain ⟨more, rfl⟩ := hstart
    have hcontinues : p.continues c = true := by
      refine List.any_eq_true.mpr ⟨q, q.mem_all, List.isPrefixOf_iff_prefix.mpr ⟨tail, ?_⟩⟩
      rw [← htail, List.append_assoc]
      rfl
    rw [h c rfl] at hcontinues
    cases hcontinues

end Punct

open Lexeme

/-! ### Numbers -/

section
variable {rest : List Char} (hrest : rest.head?.any isIdentPart = false)
include hrest

/-- No character of a name follows, so none of a part of the names. -/
theorem any_head_of_isIdentPart {p : Char → Bool} (hp : ∀ c, p c = true → isIdentPart c = true) :
    rest.head?.any p = false := by
  cases rest with
  | nil => rfl
  | cons c rest =>
    simp only [List.head?_cons, Option.any_some] at hrest ⊢
    by_contra hc
    rw [hp c (by simpa using hc)] at hrest
    cases hrest

theorem runLength_digits {ds : List Char} (hds : ∀ d ∈ ds, d.isDigit = true) :
    runLength Char.isDigit (ds ++ rest) = ds.length :=
  runLength_append hds (any_head_of_isIdentPart hrest fun _ => isIdentPart_of_isDigit)

theorem exponentLength_append {ex : List Char} (hex : ExponentText ex) : exponentLength (ex ++ rest) = ex.length := by
  cases hex with
  | none =>
    cases rest with
    | nil => rfl
    | cons c rest =>
      have hc : (c == 'e' || c == 'E') = false := by
        by_contra he
        rw [Bool.not_eq_false, Bool.or_eq_true, beq_iff_eq, beq_iff_eq] at he
        rcases he with rfl | rfl <;> cases hrest
      simp [exponentLength, hc]
  | @plain e ds he hds =>
    have hrun := runLength_digits hrest hds.2
    have hne : ds.length ≠ 0 := fun h => hds.1 (List.length_eq_zero_iff.mp h)
    have hmark : (e == 'e' || e == 'E') = true := by
      rw [Bool.or_eq_true, beq_iff_eq, beq_iff_eq]
      exact he
    -- the digits do not start with a sign
    have hsign : ∀ s more, s.isDigit = false → ds ++ rest ≠ s :: more := by
      intro s more hs heq
      cases ds with
      | nil => exact absurd rfl hds.1
      | cons d ds =>
        rw [← (List.cons.inj heq).1, hds.2 d List.mem_cons_self] at hs
        cases hs
    rw [List.cons_append, exponentLength, if_pos hmark, hrun, if_neg hne, List.length_cons, Nat.add_comm]
    · exact fun more => hsign '+' more rfl
    · exact fun more => hsign '-' more rfl
  | @signed e s ds he hs hds =>
    have hrun := runLength_digits hrest hds.2
    have hne : ds.length ≠ 0 := fun h => hds.1 (List.length_eq_zero_iff.mp h)
    have hmark : (e == 'e' || e == 'E') = true := by
      rw [Bool.or_eq_true, beq_iff_eq, beq_iff_eq]
      exact he
    rcases hs with rfl | rfl
    all_goals
      rw [List.cons_append, List.cons_append, exponentLength, if_pos hmark, hrun, if_neg hne, List.length_cons,
        List.length_cons, Nat.add_comm]

/-- The digits before an exponent end there. -/
theorem any_head_exponent {ex : List Char} (hex : ExponentText ex) : (ex ++ rest).head?.any Char.isDigit = false := by
  cases hex with
  | none => exact any_head_of_isIdentPart hrest fun _ => isIdentPart_of_isDigit
  | plain he => rcases he with rfl | rfl <;> rfl
  | signed he => rcases he with rfl | rfl <;> rfl

theorem decimalLength_whole {ds ex : List Char} (hds : DigitText ds) (hex : ExponentText ex)
    (hdot : ex = [] → rest.head? ≠ some '.') : decimalLength (ds ++ (ex ++ rest)) = (ds ++ ex).length := by
  have hrun : runLength Char.isDigit (ds ++ (ex ++ rest)) = ds.length :=
    runLength_append hds.2 (any_head_exponent hrest hex)
  rw [decimalLength, hrun, List.drop_left, List.length_append]
  split
  · next more heq =>
    exfalso
    cases hex with
    | none =>
      rw [List.nil_append] at heq
      exact hdot rfl (by rw [heq]; rfl)
    | plain he => rcases he with rfl | rfl <;> cases heq
    | signed he => rcases he with rfl | rfl <;> cases heq
  · rw [exponentLength_append hrest hex]

theorem decimalLength_fraction {ds fs ex : List Char} (hds : DigitText ds) (hfs : ∀ d ∈ fs, d.isDigit = true)
    (hex : ExponentText ex) : decimalLength (ds ++ '.' :: (fs ++ (ex ++ rest))) = (ds ++ '.' :: (fs ++ ex)).length := by
  have hrun : runLength Char.isDigit (ds ++ '.' :: (fs ++ (ex ++ rest))) = ds.length := runLength_append hds.2 rfl
  have hfraction : runLength Char.isDigit (fs ++ (ex ++ rest)) = fs.length :=
    runLength_append hfs (any_head_exponent hrest hex)
  have hsplit : ds ++ '.' :: (fs ++ (ex ++ rest)) = (ds ++ '.' :: fs) ++ (ex ++ rest) := by simp
  have hwidth : ds.length + 1 + fs.length = (ds ++ '.' :: fs).length := by
    simp [Nat.add_comm, Nat.add_left_comm]
  rw [decimalLength, hrun, List.drop_left]
  change ds.length + 1 + runLength Char.isDigit (fs ++ (ex ++ rest)) +
    exponentLength ((ds ++ '.' :: (fs ++ (ex ++ rest))).drop
      (ds.length + 1 + runLength Char.isDigit (fs ++ (ex ++ rest)))) = _
  rw [hfraction, hwidth, hsplit, List.drop_left, exponentLength_append hrest hex]
  simp only [List.length_append, List.length_cons]
  omega

omit hrest in
theorem numberLength_of_isDigit {c : Char} {cs : List Char} (hc : c.isDigit = true) (hx : cs.head? ≠ some 'x')
    (hX : cs.head? ≠ some 'X') : numberLength (c :: cs) = decimalLength (c :: cs) := by
  unfold numberLength
  split
  · next d ds heq =>
    have hd : cs.head? = some d := by rw [(List.cons.inj heq).2]; rfl
    rw [hd] at hx hX
    have hhex : (d == 'x' || d == 'X') = false := by
      rw [Bool.or_eq_false_iff, beq_eq_false_iff_ne, beq_eq_false_iff_ne]
      exact ⟨fun h => hx (by rw [h]), fun h => hX (by rw [h])⟩
    simp [hhex]
  · next heq => rw [(List.cons.inj heq).1] at hc; cases hc
  · next heq => rw [← (List.cons.inj heq).1, if_pos hc]
  · next heq => cases heq

omit hrest in
theorem isIdentPart_of_isHexDigit {c : Char} (h : isHexDigit c = true) : isIdentPart c = true := by
  have hpart : c.isAlpha = true → isIdentPart c = true := fun h => by simp [isIdentPart, Char.isAlphanum, h]
  rw [isHexDigit, Literal.hexValue?] at h
  split at h
  · next hdigit => exact isIdentPart_of_isDigit hdigit
  · split at h
    · next hlower =>
      refine hpart ?_
      delta Char.isAlpha Char.isUpper Char.isLower
      simp only [Bool.or_eq_true, Bool.and_eq_true, decide_eq_true_eq, ge_iff_le]
      exact .inr ⟨hlower.1, UInt32.le_trans hlower.2 (by decide)⟩
    · split at h
      · next hupper =>
        refine hpart ?_
        delta Char.isAlpha Char.isUpper Char.isLower
        simp only [Bool.or_eq_true, Bool.and_eq_true, decide_eq_true_eq, ge_iff_le]
        exact .inl ⟨hupper.1, UInt32.le_trans hupper.2 (by decide)⟩
      · cases h

/-- A number is read to its end. -/
theorem numberLength_append {cs : List Char} (h : NumberText cs)
    (hdot : cs.all Char.isDigit = true → rest.head? ≠ some '.') : numberLength (cs ++ rest) = cs.length := by
  have hx : ∀ d, isIdentPart d = true → rest.head? ≠ some d := by
    intro d hd hhead
    rw [hhead, Option.any_some, hd] at hrest
    cases hrest
  -- no mark of hexadecimal digits stands behind the first digit of other numbers
  have hmark : ∀ {ds ex : List Char} {d : Char}, (∀ c ∈ ds, c.isDigit = true) → ExponentText ex → d = 'x' ∨ d = 'X' →
      (ds ++ (ex ++ rest)).head? ≠ some d := by
    intro ds ex d hds hex hd heq
    have hrest := hx d (by rcases hd with rfl | rfl <;> rfl)
    cases ds with
    | nil =>
      cases hex with
      | none => exact hrest heq
      | plain he => rcases he with rfl | rfl <;> rcases hd with rfl | rfl <;> cases heq
      | signed he => rcases he with rfl | rfl <;> rcases hd with rfl | rfl <;> cases heq
    | cons c ds =>
      have hc := hds c List.mem_cons_self
      rw [List.cons_append, List.head?_cons, Option.some.injEq] at heq
      rw [heq] at hc
      rcases hd with rfl | rfl <;> cases hc
  cases h with
  | @hex x ds hx hne hds =>
    have hrun : runLength isHexDigit (ds ++ rest) = ds.length :=
      runLength_append hds (any_head_of_isIdentPart hrest fun _ => isIdentPart_of_isHexDigit)
    have hlength : ds.length ≠ 0 := fun h => hne (List.length_eq_zero_iff.mp h)
    have hmark : (x == 'x' || x == 'X') = true := by
      rw [Bool.or_eq_true, beq_iff_eq, beq_iff_eq]
      exact hx
    rw [List.cons_append, List.cons_append, numberLength, hrun, hmark, Bool.true_and, if_pos (by simpa using hlength)]
    simp only [List.length_cons]
    omega
  | @whole ds ex hds hex =>
    have hlength := decimalLength_whole hrest hds hex fun hnil => hdot (by simpa [hnil] using hds.2)
    cases ds with
    | nil => exact absurd rfl hds.1
    | cons d ds =>
      obtain ⟨hd, hds⟩ := List.forall_mem_cons.mp hds.2
      rw [List.append_assoc, ← hlength, List.cons_append]
      exact numberLength_of_isDigit hd (hmark hds hex (.inl rfl)) (hmark hds hex (.inr rfl))
  | @fraction ds fs ex hds hfs hex =>
    have hlength := decimalLength_fraction hrest hds hfs hex
    have hsplit : ds ++ '.' :: (fs ++ ex) ++ rest = ds ++ '.' :: (fs ++ (ex ++ rest)) := by simp
    cases ds with
    | nil => exact absurd rfl hds.1
    | cons d ds =>
      obtain ⟨hd, hds⟩ := List.forall_mem_cons.mp hds.2
      have hpoint : ∀ x : Char, x = 'x' ∨ x = 'X' → (ds ++ '.' :: (fs ++ (ex ++ rest))).head? ≠ some x := by
        intro x hx heq
        cases ds with
        | nil => rcases hx with rfl | rfl <;> cases heq
        | cons c ds =>
          have hc := hds c List.mem_cons_self
          rw [List.cons_append, List.head?_cons, Option.some.injEq] at heq
          rw [heq] at hc
          rcases hx with rfl | rfl <;> cases hc
      rw [hsplit, ← hlength, List.cons_append]
      exact numberLength_of_isDigit hd (hpoint 'x' (.inl rfl)) (hpoint 'X' (.inr rfl))
  | @point fs ex hfs hex =>
    have hrun : runLength Char.isDigit (fs ++ (ex ++ rest)) = fs.length :=
      runLength_append hfs.2 (any_head_exponent hrest hex)
    have hlength : fs.length ≠ 0 := fun h => hfs.1 (List.length_eq_zero_iff.mp h)
    rw [List.cons_append, List.append_assoc, numberLength, hrun, if_neg hlength, List.drop_left,
      exponentLength_append hrest hex]
    simp only [List.length_append, List.length_cons]
    omega

end

/-! ### Tokens -/

/-- A token that can be written. A name may be a reserved word, which is how it is read then. -/
def Token.Kind.Spelled : Token.Kind → Prop
  | reserved _ | punct _ | string _ => True
  | ident x => NameText x.toList
  | number x => NumberText x.toList
  | regex x y => RegexText x.toList ∧ ∀ c ∈ y.toList, isIdentPart c = true
  | contextual _ | marker _ | eof => False

/-- The token ends where the character follows. -/
def Token.Kind.stopsAt (k : Token.Kind) (c : Char) : Bool :=
  match k with
  | reserved _ | contextual _ | ident _ | regex _ _ => !isIdentPart c
  | number x => !isIdentPart c && !(x.toList.all Char.isDigit && c == '.')
  | punct p => !p.continues c && !(p == .dot && c.isDigit) && !(p == .slash && (c == '/' || c == '*'))
  | string _ | marker _ | eof => true

/-- Slashes have two meanings. -/
def Token.Kind.isSlash : Token.Kind → Bool
  | regex _ _ | punct .slash | punct .slashEq => true
  | _ => false

def Token.Kind.isRegex : Token.Kind → Bool
  | regex _ _ => true
  | _ => false

/-- A slash stands where it has its meaning. -/
def Token.Kind.standsAfter (before last : Option Token.Kind) (k : Token.Kind) : Prop :=
  k.isSlash = true → Token.regexAllowed before last = k.isRegex

section
variable {pos : Nat} {before last : Option Token.Kind} {rest : List Char} {k : Token.Kind}

theorem next_of_ne_slash {c : Char} {cs : List Char} (hc : c ≠ '/') :
    Lexed.next (fun _ => none) pos before last (c :: cs) = base pos (c :: cs) := by
  unfold Lexed.next
  dsimp only
  split
  · next heq => exact absurd (List.cons.inj heq).1 hc
  · rfl

/-- Every word is a name. -/
theorem Reserved.nameText (w : Reserved) : NameText w.text.toList := by
  have hident : isIdent w.text.toList = true := by cases w <;> decide
  cases hw : w.text.toList with
  | nil => rw [hw] at hident; cases hident
  | cons c cs =>
    rw [hw, isIdent, Bool.and_eq_true, List.all_eq_true] at hident
    exact hident

theorem next_name {x : String} (hx : NameText x.toList) (hrest : rest.head?.any isIdentPart = false) :
    Lexed.next (fun _ => none) pos before last (x.toList ++ rest) = .ok (word x, x.toList.length) := by
  cases hcs : x.toList with
  | nil => rw [hcs] at hx; exact hx.elim
  | cons c cs =>
    rw [hcs] at hx
    have hparts : ∀ d ∈ c :: cs, isIdentPart d = true :=
      List.forall_mem_cons.mpr ⟨isIdentPart_of_isIdentStart hx.1, hx.2⟩
    have hslash : c ≠ '/' := fun h => by rw [h] at hx; cases hx.1
    have htake := takeWhile_word hparts hrest
    rw [List.cons_append] at htake ⊢
    rw [next_of_ne_slash hslash, base, if_pos hx.1, htake, ← hcs]
    dsimp only
    rw [String.ofList_toList]

/-- Numbers start with a digit or a point. -/
theorem NumberText.exists_cons {ds : List Char} (h : NumberText ds) :
    ∃ c cs, ds = c :: cs ∧ (c.isDigit = true ∨ c = '.') := by
  cases h with
  | hex => exact ⟨_, _, rfl, .inl rfl⟩
  | @whole ds ex hds =>
    cases ds with
    | nil => exact absurd rfl hds.1
    | cons d ds => exact ⟨d, _, rfl, .inl (hds.2 d List.mem_cons_self)⟩
  | @fraction ds fs ex hds =>
    cases ds with
    | nil => exact absurd rfl hds.1
    | cons d ds => exact ⟨d, _, rfl, .inl (hds.2 d List.mem_cons_self)⟩
  | point => exact ⟨_, _, rfl, .inr rfl⟩

theorem next_number {x : String} (hx : NumberText x.toList) (hrest : rest.head?.any isIdentPart = false)
    (hdot : x.toList.all Char.isDigit = true → rest.head? ≠ some '.') :
    Lexed.next (fun _ => none) pos before last (x.toList ++ rest) = .ok (.number x, x.toList.length) := by
  have hlength := numberLength_append hrest hx hdot
  obtain ⟨c, cs, hcs, hc⟩ := hx.exists_cons
  have hident : isIdentStart c = false := by
    rcases hc with hc | rfl
    · exact isIdentStart_of_isDigit hc
    · rfl
  have hslash : c ≠ '/' := by
    rintro rfl
    rcases hc with hc | hc <;> cases hc
  have htake : (x.toList ++ rest).take x.toList.length = x.toList := List.take_left
  have hne : x.toList.length ≠ 0 := by rw [hcs]; exact Nat.succ_ne_zero _
  have hbase : base pos (x.toList ++ rest) = .ok (.number x, x.toList.length) := by
    rw [hcs] at hlength htake hne ⊢
    rw [List.cons_append] at hlength htake ⊢
    rw [base, hident, if_neg Bool.false_ne_true, hlength, if_pos hne]
    dsimp only
    rw [htake, ← hcs, String.ofList_toList]
  rw [← hbase, hcs, List.cons_append]
  exact next_of_ne_slash hslash

theorem next_string (x : String) :
    Lexed.next (fun _ => none) pos before last ((Literal.quote x).toList ++ rest) =
      .ok (.string x, (Literal.quote x).toList.length) := by
  have hquote : (Literal.quote x).toList ++ rest = '"' :: (Literal.escape x.toList ++ '"' :: rest) := by
    simp [Literal.quote]
  have hlength : (Literal.quote x).toList.length = (Literal.escape x.toList).length + 2 := by
    simp [Literal.quote]
  rw [hquote, hlength, next_of_ne_slash (by decide), base, if_neg (by decide), if_neg (by simp [numberLength]),
    if_pos (.inl rfl), Literal.stringBody?_escape]
  dsimp only
  rw [List.take_left, Literal.unescape_escape, String.ofList_toList]
  rfl

theorem next_regex {x y : String} (hx : RegexText x.toList) (hy : ∀ c ∈ y.toList, isIdentPart c = true)
    (hallowed : Token.regexAllowed before last = true) (hrest : rest.head?.any isIdentPart = false) :
    Lexed.next (fun _ => none) pos before last ('/' :: (x.toList ++ '/' :: (y.toList ++ rest))) =
      .ok (.regex x y, x.toList.length + 2 + y.toList.length) := by
  have hbody := hx.2.2 (y.toList ++ rest)
  have hdrop : (x.toList ++ '/' :: (y.toList ++ rest)).drop (x.toList.length + 1) = y.toList ++ rest := by simp
  have hflags := takeWhile_word hy hrest
  change (if Token.regexAllowed before last then regex pos (x.toList ++ '/' :: (y.toList ++ rest)) else _) = _
  rw [if_pos hallowed, regex, hbody]
  dsimp only
  rw [hdrop, hflags, List.take_left, String.ofList_toList, String.ofList_toList]

omit pos before last in
theorem numberLength_eq_zero {c : Char} {cs : List Char} (hc : c.isDigit = false)
    (hdot : c = '.' → cs.head?.any Char.isDigit = false) : numberLength (c :: cs) = 0 := by
  unfold numberLength
  split
  · next heq => rw [(List.cons.inj heq).1] at hc; cases hc
  · next ds heq =>
    obtain ⟨rfl, rfl⟩ := List.cons.inj heq
    have hrun : runLength Char.isDigit ([] ++ cs) = 0 := runLength_append (List.forall_mem_nil _) (hdot rfl)
    rw [List.nil_append] at hrun
    simp [hrun]
  · next heq => rw [← (List.cons.inj heq).1, hc, if_neg Bool.false_ne_true]
  · next heq => cases heq

/-- What signs start with. -/
theorem Punct.exists_cons (p : Punct) : ∃ c cs, p.spelling.toList = c :: cs ∧ isIdentStart c = false ∧
    c.isDigit = false ∧ ¬(c = '"' ∨ c = '\'') ∧ (c = '.' → p = .dot ∨ cs.head?.any Char.isDigit = false ∧ cs ≠ []) ∧
    (c = '/' → p = .slash ∨ p = .slashEq) := by
  cases p <;> exact ⟨_, _, rfl, by decide⟩

/-- A sign that is no slash, or a slash where none starts a regular expression. -/
theorem next_punct {p : Punct} (hp : ∀ c ∈ rest.head?, p.continues c = false)
    (hdot : p = .dot → rest.head?.any Char.isDigit = false)
    (hslash : p = .slash ∨ p = .slashEq → Token.regexAllowed before last = false) :
    Lexed.next (fun _ => none) pos before last (p.spelling.toList ++ rest) = .ok (.punct p, p.spelling.toList.length) := by
  have hscan := Punct.scan_spelling hp
  obtain ⟨c, cs, hcs, hident, hdigit, hquote, hpoint, hc⟩ := p.exists_cons
  have hnumber : numberLength (c :: (cs ++ rest)) = 0 := by
    refine numberLength_eq_zero hdigit fun heq => ?_
    rcases hpoint heq with rfl | ⟨hcs, hne⟩
    · cases hcs
      exact hdot rfl
    · cases cs with
      | nil => exact absurd rfl hne
      | cons d ds => exact hcs
  have hbase : base pos (c :: (cs ++ rest)) = .ok (.punct p, p.spelling.toList.length) := by
    rw [hcs, List.cons_append] at hscan
    rw [base, hident, if_neg Bool.false_ne_true, hnumber, if_neg (by simp), if_neg hquote, hscan]
    rfl
  rw [hcs, List.cons_append, ← hcs, ← hbase]
  by_cases heq : c = '/'
  · cases heq
    change (if Token.regexAllowed before last then _ else base pos _) = _
    rw [hslash (hc rfl), if_neg Bool.false_ne_true]
  · exact next_of_ne_slash heq

omit pos before last rest in
theorem Token.Kind.Spelled.exists_cons (hk : k.Spelled) : ∃ c cs, k.spelling.toList = c :: cs := by
  have hname : ∀ {cs}, NameText cs → ∃ c ds, cs = c :: ds := by
    intro cs hcs
    cases cs with
    | nil => exact hcs.elim
    | cons c cs => exact ⟨c, cs, rfl⟩
  cases k with
  | reserved w => exact hname w.nameText
  | ident x => exact hname hk
  | number x =>
    obtain ⟨c, cs, hcs, -⟩ := NumberText.exists_cons hk
    exact ⟨c, cs, hcs⟩
  | string x => exact ⟨'"', Literal.escape x.toList ++ ['"'], by simp [spelling, Literal.quote]⟩
  | regex x y => exact ⟨'/', x.toList ++ '/' :: y.toList, by simp [spelling]⟩
  | punct p =>
    obtain ⟨c, cs, hcs, -⟩ := p.exists_cons
    exact ⟨c, cs, hcs⟩
  | contextual => exact hk.elim
  | marker => exact hk.elim
  | eof => exact hk.elim

/-- A token is read as it is written, a name as the word that it is. -/
theorem Token.Kind.next_spelling (hk : k.Spelled) (hstops : ∀ c ∈ rest.head?, k.stopsAt c = true)
    (hstands : k.standsAfter before last) :
    Lexed.next (fun _ => none) pos before last (k.spelling.toList ++ rest) =
      .ok (k.asRead, k.spelling.toList.length) := by
  -- behind words, numbers and flags no character of a name follows
  have hword : (∀ c, k.stopsAt c = true → isIdentPart c = false) → rest.head?.any isIdentPart = false := by
    intro h
    cases rest with
    | nil => rfl
    | cons c rest => exact h c (hstops c rfl)
  cases k with
  | reserved w =>
    have hread : word w.text = .reserved w := by rw [word, Reserved.ofText?_text]
    have hnext := @next_name pos before last rest w.text w.nameText (hword fun c hc => by simpa [stopsAt] using hc)
    rw [hread] at hnext
    exact hnext
  | ident x => exact next_name hk (hword fun c hc => by simpa [stopsAt] using hc)
  | number x =>
    refine next_number hk (hword fun c hc => ?_) fun hall hhead => ?_
    · rw [stopsAt, Bool.and_eq_true, Bool.not_eq_true'] at hc
      exact hc.1
    · have hdot := hstops '.' hhead
      rw [stopsAt, show x.toList.all Char.isDigit = true from hall] at hdot
      cases hdot
  | string x => exact next_string x
  | regex x y =>
    have hspelling : (regex x y).spelling.toList ++ rest = '/' :: (x.toList ++ '/' :: (y.toList ++ rest)) := by
      simp [spelling]
    have hlength : (regex x y).spelling.toList.length = x.toList.length + 2 + y.toList.length := by
      simp [spelling]
      omega
    rw [hspelling, hlength]
    exact next_regex hk.1 hk.2 (hstands rfl) (hword fun c hc => by simpa [stopsAt] using hc)
  | punct p =>
    have hpunct : ∀ c ∈ rest.head?, (!p.continues c) = true ∧ (!(p == .dot && c.isDigit)) = true := by
      intro c hc
      have hc := hstops c hc
      rw [stopsAt, Bool.and_eq_true, Bool.and_eq_true] at hc
      exact hc.1
    refine next_punct (fun c hc => ?_) (fun hdot => ?_) fun hslash => ?_
    · exact Bool.not_eq_true' _ ▸ (hpunct c hc).1
    · cases rest with
      | nil => rfl
      | cons c rest =>
        have hc := (hpunct c rfl).2
        rw [hdot] at hc
        simpa using hc
    · rcases hslash with rfl | rfl
      · exact hstands rfl
      · exact hstands rfl
  | contextual => exact hk.elim
  | marker => exact hk.elim
  | eof => exact hk.elim

omit before last in
theorem skip_slash {cs : List Char} (hline : cs.head? ≠ some '/') (hblock : cs.head? ≠ some '*') :
    Gap.skip pos ('/' :: cs) = .ok ⟨[], false, pos, '/' :: cs⟩ := by
  unfold Gap.skip
  rw [List.length_cons, Gap.skipFrom]
  · rfl
  · exact fun ds _ hcs => hline (by rw [hcs]; rfl)
  · exact fun ds _ hcs => hblock (by rw [hcs]; rfl)

/-- Where a token is written, there is nothing to skip. -/
theorem Token.Kind.skip_spelling (hk : k.Spelled) (hstops : ∀ c ∈ rest.head?, k.stopsAt c = true) (pos : Nat) :
    Gap.skip pos (k.spelling.toList ++ rest) = .ok ⟨[], false, pos, k.spelling.toList ++ rest⟩ := by
  have hname : ∀ cs, NameText cs → Gap.skip pos (cs ++ rest) = .ok ⟨[], false, pos, cs ++ rest⟩ := by
    intro cs hcs
    cases cs with
    | nil => exact hcs.elim
    | cons c cs =>
      exact ReadAs.skip_of_startsToken (startsToken_of_isIdentPart (isIdentPart_of_isIdentStart hcs.1)) pos _
  cases k with
  | reserved w => exact hname _ w.nameText
  | ident x => exact hname _ hk
  | number x =>
    obtain ⟨c, cs, hcs, hc⟩ := NumberText.exists_cons hk
    have hspelling : (number x).spelling.toList ++ rest = c :: (cs ++ rest) := congrArg (· ++ rest) hcs
    rw [hspelling]
    refine ReadAs.skip_of_startsToken ?_ pos _
    rcases hc with hc | rfl
    · exact startsToken_of_isIdentPart (isIdentPart_of_isDigit hc)
    · rfl
  | string x =>
    have hquote : (Token.Kind.string x).spelling.toList ++ rest = '"' :: (Literal.escape x.toList ++ '"' :: rest) := by
      simp [spelling, Literal.quote]
    rw [hquote]
    exact ReadAs.skip_of_startsToken rfl pos _
  | regex x y =>
    have hspelling : (regex x y).spelling.toList ++ rest = '/' :: (x.toList ++ '/' :: (y.toList ++ rest)) := by
      simp [spelling]
    obtain ⟨⟨hne, hstar, hbody⟩, -⟩ := hk
    rw [hspelling]
    cases hx : x.toList with
    | nil => exact absurd hx hne
    | cons c cs =>
      rw [hx] at hstar hbody
      refine skip_slash (fun hc => ?_) hstar
      -- an expression that starts with a slash would be empty
      have hc : c = '/' := Option.some.inj hc
      rw [hc] at hbody
      cases hbody []
  | punct p =>
    by_cases hslash : p = .slash
    · have hcomment : ∀ c, c = '/' ∨ c = '*' → rest.head? ≠ some c := by
        intro c hc hhead
        have hstop := hstops c hhead
        rw [hslash] at hstop
        rcases hc with rfl | rfl <;> revert hstop <;> decide
      rw [hslash]
      exact skip_slash (hcomment '/' (.inl rfl)) (hcomment '*' (.inr rfl))
    · by_cases hslashEq : p = .slashEq
      · rw [hslashEq]
        exact skip_slash nofun nofun
      · have hstart : ∃ c cs, p.spelling.toList = c :: cs ∧ startsToken c = true := by
          cases p <;> first | exact absurd rfl hslash | exact absurd rfl hslashEq | exact ⟨_, _, rfl, rfl⟩
        obtain ⟨c, cs, hcs, hc⟩ := hstart
        have hspelling : (punct p).spelling.toList ++ rest = c :: (cs ++ rest) := congrArg (· ++ rest) hcs
        rw [hspelling]
        exact ReadAs.skip_of_startsToken hc pos _
  | contextual => exact hk.elim
  | marker => exact hk.elim
  | eof => exact hk.elim

end

end LabelWeaver
