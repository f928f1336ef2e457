import LabelWeaver.Label.Layer
import LabelWeaver.Proofs.Token.Legal
import Mathlib.Data.List.Basic

/-! Texts on one line and the tokens that they are read as. A text is put together from blanks and
    tokens; each token has to be told from what follows it. -/

namespace LabelWeaver

variable {c : Char} {w rest : List Char} {ks : List Token.Kind}

open Lexeme

/-- The tokens of a source do not depend on what is made of the annotations. -/
theorem Grammar.read_labels (settings : Settings) (source : String) :
    (Grammar.labels settings).read source = (Lexed.read Label.scan source).mapError .lex := by
  have hscan : (Grammar.labels settings).scan = Label.scan := by
    funext cs
    simp [Grammar.scan, Grammar.labels, Layer.labels]
  rw [Grammar.read, hscan]

/-- The tokens are of these kinds, and no line break stands before any of them. -/
def OnLine (ts : List Token) (ks : List Token.Kind) : Prop :=
  ts.map (fun t => (t.kind, t.newlineBefore)) = ks.map fun k => (k, false)

/-- The text is read as tokens of these kinds, without comments and line breaks, wherever it stands. -/
def ReadAs (cs : List Char) (ks : List Token.Kind) : Prop :=
  ∀ size pos before last, cs.length ≤ size →
    ∃ ts, Lexed.readFrom Label.scan size pos before last cs = .ok ⟨ts, []⟩ ∧ OnLine ts ks

/-- The character starts neither a blank nor a comment. -/
def startsToken (c : Char) : Bool := c != '/' && !Gap.isLineBreak c && !Gap.isBlank c

namespace ReadAs

variable {cs : List Char}

theorem nil : ReadAs [] [.eof] := by
  intro size pos before last _
  cases size with
  | zero => exact ⟨_, rfl, rfl⟩
  | succ size => exact ⟨_, rfl, rfl⟩

theorem blank (h : ReadAs cs ks) : ReadAs (' ' :: cs) ks := by
  intro size pos before last hsize
  rw [List.length_cons] at hsize
  obtain ⟨size, rfl⟩ : ∃ n, size = n + 1 := ⟨size - 1, by omega⟩
  exact h (size + 1) (pos + 1) before last (by omega)

theorem skip_of_startsToken (h : startsToken c = true) (pos : Nat) (cs : List Char) :
    Gap.skip pos (c :: cs) = .ok ⟨[], false, pos, c :: cs⟩ := by
  simp only [startsToken, Bool.and_eq_true, bne_iff_ne, ne_eq, Bool.not_eq_true'] at h
  obtain ⟨⟨hslash, hbreak⟩, hblank⟩ := h
  unfold Gap.skip
  rw [List.length_cons, Gap.skipFrom]
  · simp [hbreak, hblank]
  · exact fun _ h => absurd h hslash
  · exact fun _ h => absurd h hslash

/-- One token, followed by others. -/
theorem token {w : List Char} {k : Token.Kind} (hc : startsToken c = true)
    (hnext : ∀ pos before last, Lexed.next Label.scan pos before last (c :: w ++ rest) = .ok (k, w.length + 1))
    (h : ReadAs rest ks) : ReadAs (c :: w ++ rest) (k :: ks) := by
  intro size pos before last hsize
  rw [List.length_append, List.length_cons] at hsize
  obtain ⟨size, rfl⟩ : ∃ n, size = n + 1 := ⟨size - 1, by omega⟩
  obtain ⟨ts, hts, honline⟩ := h size (pos + byteLength (c :: w)) last (some k) (by omega)
  refine ⟨⟨k, ⟨pos, byteLength (c :: w)⟩, false⟩ :: ts, ?_, ?_⟩
  · have htake : (c :: w ++ rest).take (w.length + 1) = c :: w := by simp
    have hdrop : (c :: w ++ rest).drop (w.length + 1) = rest := by simp
    rw [Lexed.readFrom, List.cons_append, skip_of_startsToken hc, ← List.cons_append]
    change (Lexed.next Label.scan pos before last (c :: w ++ rest) >>= fun r => _) = _
    rw [hnext]
    change (Lexed.readFrom Label.scan size (pos + byteLength ((c :: w ++ rest).take (w.length + 1))) last (some k)
      ((c :: w ++ rest).drop (w.length + 1)) >>= fun r => _) = _
    rw [htake, hdrop, hts]
    rfl
  · rw [OnLine] at honline ⊢
    rw [List.map_cons, List.map_cons, honline]

/-- A token of one character, followed by others. -/
theorem sign {k : Token.Kind} (hc : startsToken c = true)
    (hnext : ∀ pos before last, Lexed.next Label.scan pos before last (c :: rest) = .ok (k, 1)) (h : ReadAs rest ks) :
    ReadAs (c :: rest) (k :: ks) :=
  token (w := []) hc hnext h

end ReadAs

/-! ### Words -/

/-- Letters lie between the first capital and the last small one. -/
theorem toNat_of_isAlpha (h : c.isAlpha = true) : 'A'.toNat ≤ c.toNat ∧ c.toNat ≤ 'z'.toNat := by
  delta Char.isAlpha Char.isUpper Char.isLower at h
  simp only [Bool.or_eq_true, Bool.and_eq_true, decide_eq_true_eq, ge_iff_le, UInt32.le_iff_toNat_le] at h
  rcases h with ⟨hlo, hhi⟩ | ⟨hlo, hhi⟩
  · exact ⟨hlo, Nat.le_trans hhi (by decide)⟩
  · exact ⟨Nat.le_trans (by decide) hlo, hhi⟩

theorem toNat_lt_of_isIdentPart (h : isIdentPart c = true) : c.toNat < 0x80 := by
  simp only [isIdentPart, Char.isAlphanum, Bool.or_eq_true, beq_iff_eq] at h
  rcases h with ((h | h) | rfl) | rfl
  · exact Nat.lt_of_le_of_lt (toNat_of_isAlpha h).2 (by decide)
  · exact Nat.lt_of_le_of_lt (Char.isDigit_iff_toNat.mp h).2 (by decide)
  · decide
  · decide

theorem isWordPart_of_isIdentPart (h : isIdentPart c = true) : isWordPart c = true := by
  have hlt := toNat_lt_of_isIdentPart h
  simp only [isIdentPart, Char.isAlphanum, Bool.or_eq_true] at h
  simp only [isWordPart, isLetter, isNumeral, hlt, if_true, Bool.or_eq_true]
  exact h

theorem startsToken_of_isIdentPart (h : isIdentPart c = true) : startsToken c = true := by
  by_contra hc
  simp only [startsToken, Gap.isLineBreak, Gap.isBlank, Bool.and_eq_true, bne_iff_ne, ne_eq,
    Bool.not_eq_true', Bool.or_eq_false_iff, beq_eq_false_iff_ne, not_and_or, not_not] at hc
  rcases hc with (rfl | (rfl | rfl) | rfl) | (((((rfl | rfl) | rfl) | rfl) | rfl) | rfl) | rfl <;>
    revert h <;> decide

theorem stripStart?_eq_some {cs : List Char} : Label.stripStart? w cs = some rest ↔ cs = w ++ rest := by
  induction w generalizing cs with
  | nil => simp [Label.stripStart?, eq_comm]
  | cons a w ih =>
    cases cs with
    | nil => simp [Label.stripStart?]
    | cons c cs =>
      rw [Label.stripStart?]
      split
      · next h => simp [ih, h]
      · next h => simp [Ne.symm h]

/-- The word at the start of a text that goes on with something else. -/
theorem takeWhile_word {p : Char → Bool} {r : List Char} (hw : ∀ c ∈ w, p c = true) (hr : r.head?.any p = false) :
    (w ++ r).takeWhile p = w := by
  rw [List.takeWhile_append_of_pos hw]
  cases r with
  | nil => simp
  | cons c r =>
    have hc : p c = false := by simpa using hr
    simp [hc]

theorem Contextual.isWordPart_text (w : Contextual) : ∀ c ∈ w.text.toList, isWordPart c = true := by
  refine List.all_eq_true.mp ?_
  cases w <;> rfl

/-- A word that is no annotation word is left to the base language. -/
theorem scanWord_eq_none (hw : ∀ c ∈ w, isWordPart c = true) (hrest : rest.head?.any isWordPart = false)
    (hne : ∀ v : Contextual, v.text.toList ≠ w) : Label.scanWord (w ++ rest) = none := by
  rw [Label.scanWord, List.findSome?_eq_none_iff]
  intro v _
  split
  · next s hs =>
    split
    · rfl
    · next hhead =>
      have hv := takeWhile_word v.isWordPart_text (r := s) (by simpa using hhead)
      rw [← stripStart?_eq_some.mp hs, takeWhile_word hw hrest] at hv
      exact absurd hv.symm (hne v)
  · rfl

/-- Words are no signs of the annotation language. -/
theorem scan_of_isIdentPart (h : isIdentPart c = true) (cs : List Char) :
    Label.scan (c :: cs) = Label.scanWord (c :: cs) := by
  unfold Label.scan
  split
  · next heq => rw [(List.cons.inj heq).1] at h; cases h
  · next heq => rw [(List.cons.inj heq).1] at h; cases h
  · next heq => rw [(List.cons.inj heq).1] at h; cases h
  · rfl

/-- What the annotation language has no token for is read by the base rules, unless it is a slash. -/
theorem next_of_scan_eq_none {cs : List Char} (hscan : Label.scan (c :: cs) = none) (hc : c ≠ '/') (pos : Nat)
    (before last : Option Token.Kind) : Lexed.next Label.scan pos before last (c :: cs) = base pos (c :: cs) := by
  unfold Lexed.next
  rw [hscan]
  dsimp only
  split
  · next heq => exact absurd (List.cons.inj heq).1 hc
  · rfl

/-- The characters of a name. -/
def isIdent : List Char → Bool
  | [] => false
  | c :: cs => isIdentStart c && cs.all isIdentPart

/-- A name of the base language that is neither a reserved word nor an annotation word. -/
structure BaseName where
  text : String
  ident : isIdent text.toList = true
  notReserved : Reserved.ofText? text = none
  notContextual : ∀ w : Contextual, w.text ≠ text

namespace BaseName

variable (x : BaseName)

theorem exists_cons : ∃ c cs, x.text.toList = c :: cs ∧ isIdentStart c = true ∧ ∀ d ∈ c :: cs, isIdentPart d = true := by
  have h := x.ident
  cases hx : x.text.toList with
  | nil => rw [hx] at h; cases h
  | cons c cs =>
    rw [hx, isIdent, Bool.and_eq_true, List.all_eq_true] at h
    exact ⟨c, cs, rfl, h.1, List.forall_mem_cons.mpr ⟨isIdentPart_of_isIdentStart h.1, h.2⟩⟩

theorem isIdentPart_text : ∀ c ∈ x.text.toList, isIdentPart c = true := by
  obtain ⟨c, cs, hx, -, h⟩ := x.exists_cons
  rw [hx]
  exact h

theorem scanWord_text {rest : List Char} (hrest : rest.head?.any isWordPart = false) :
    Label.scanWord (x.text.toList ++ rest) = none := by
  refine scanWord_eq_none (fun c hc => isWordPart_of_isIdentPart (x.isIdentPart_text c hc)) hrest fun v hv => ?_
  exact x.notContextual v (String.toList_inj.mp hv)

theorem next_text {rest : List Char} (hrest : rest.head?.any isWordPart = false) (pos : Nat)
    (before last : Option Token.Kind) :
    Lexed.next Label.scan pos before last (x.text.toList ++ rest) = .ok (.ident x.text, x.text.toList.length) := by
  obtain ⟨c, cs, hx, hc, hparts⟩ := x.exists_cons
  have hpart := hparts c List.mem_cons_self
  have hident : rest.head?.any isIdentPart = false := by
    cases rest with
    | nil => rfl
    | cons d rest =>
      simp only [List.head?_cons, Option.any_some] at hrest ⊢
      by_contra h
      rw [isWordPart_of_isIdentPart (by simpa using h)] at hrest
      cases hrest
  have htext := takeWhile_word x.isIdentPart_text hident
  have hword : word (String.ofList x.text.toList) = .ident x.text := by
    rw [String.ofList_toList, word, x.notReserved]
  have hscan := x.scanWord_text hrest
  rw [hx] at hscan htext hword ⊢
  have hslash : c ≠ '/' := fun h => by rw [h] at hc; cases hc
  rw [List.cons_append] at hscan htext ⊢
  rw [next_of_scan_eq_none ((scan_of_isIdentPart hpart _).trans hscan) hslash, base, if_pos hc, htext]
  dsimp only
  rw [hword]

end BaseName

/-- A name is read as one token in front of anything that does not continue it. -/
theorem ReadAs.name (x : BaseName) (hrest : rest.head?.any isWordPart = false) (h : ReadAs rest ks) :
    ReadAs (x.text.toList ++ rest) (.ident x.text :: ks) := by
  obtain ⟨c, cs, hx, -, hparts⟩ := x.exists_cons
  have hnext := x.next_text hrest
  rw [hx] at hnext ⊢
  exact .token (startsToken_of_isIdentPart (hparts c List.mem_cons_self)) hnext h

/-! ### Literals -/

/-- One digit or more. -/
structure Digits where
  text : String
  nonempty : text.toList ≠ []
  digits : ∀ c ∈ text.toList, c.isDigit = true

theorem isIdentPart_of_isDigit (h : c.isDigit = true) : isIdentPart c = true := by
  simp [isIdentPart, Char.isAlphanum, h]

theorem Contextual.not_isDigit_text (w : Contextual) : w.text.toList.all (!·.isDigit) = true := by
  cases w <;> rfl

theorem isIdentStart_of_isDigit (h : c.isDigit = true) : isIdentStart c = false := by
  have hdigit := Char.isDigit_iff_toNat.mp h
  by_contra hc
  rw [Bool.not_eq_false, isIdentStart, Bool.or_eq_true, Bool.or_eq_true, beq_iff_eq, beq_iff_eq] at hc
  rcases hc with (hc | rfl) | rfl
  · exact absurd (Nat.le_trans (toNat_of_isAlpha hc).1 hdigit.2) (by decide)
  · cases h
  · cases h

namespace Digits

variable (m : Digits) (rest : List Char)

theorem decimalLength_text : decimalLength (m.text.toList ++ ',' :: rest) = m.text.toList.length := by
  have hrun : runLength Char.isDigit (m.text.toList ++ ',' :: rest) = m.text.toList.length := by
    rw [runLength, takeWhile_word m.digits rfl]
  simp [decimalLength, hrun, exponentLength]

theorem numberLength_text : numberLength (m.text.toList ++ ',' :: rest) = m.text.toList.length := by
  have hdecimal := m.decimalLength_text rest
  have hdigits := m.digits
  cases hm : m.text.toList with
  | nil => exact absurd hm m.nonempty
  | cons c cs =>
    rw [hm] at hdecimal hdigits
    obtain ⟨hc, hcs⟩ := List.forall_mem_cons.mp hdigits
    unfold numberLength
    split
    · next x ds heq =>
      -- After a zero there is another digit or the comma, so the number is not hexadecimal.
      have hx : x.isDigit = true ∨ x = ',' := by
        cases cs with
        | nil => exact .inr (List.cons.inj (List.cons.inj heq).2).1.symm
        | cons d cs => exact .inl ((List.cons.inj (List.cons.inj heq).2).1 ▸ hcs d List.mem_cons_self)
      have hhex : (x == 'x' || x == 'X') = false := by
        rcases hx with hx | rfl
        · rw [Bool.or_eq_false_iff, beq_eq_false_iff_ne, beq_eq_false_iff_ne]
          constructor
          · rintro rfl
            cases hx
          · rintro rfl
            cases hx
        · rfl
      simp only [hhex, Bool.false_and, Bool.false_eq_true, if_false]
      exact hdecimal
    · next heq => rw [(List.cons.inj heq).1] at hc; cases hc
    · next heq =>
      rw [← (List.cons.inj heq).1, if_pos hc]
      exact hdecimal
    · next heq => cases heq

theorem next_text (pos : Nat) (before last : Option Token.Kind) :
    Lexed.next Label.scan pos before last (m.text.toList ++ ',' :: rest) =
      .ok (.number m.text, m.text.toList.length) := by
  have hnumber := m.numberLength_text rest
  have hscan : Label.scanWord (m.text.toList ++ ',' :: rest) = none := by
    refine scanWord_eq_none (fun c hc => ?_) rfl fun v hv => ?_
    · exact isWordPart_of_isIdentPart (isIdentPart_of_isDigit (m.digits c hc))
    · obtain ⟨c, hc⟩ := List.exists_mem_of_ne_nil _ m.nonempty
      have hfalse := List.all_eq_true.mp v.not_isDigit_text c (hv ▸ hc)
      rw [m.digits c hc] at hfalse
      cases hfalse
  have hdigits := m.digits
  have htext : String.ofList m.text.toList = m.text := String.ofList_toList
  cases hm : m.text.toList with
  | nil => exact absurd hm m.nonempty
  | cons c cs =>
    rw [hm] at hnumber hscan hdigits htext
    have hc := hdigits c List.mem_cons_self
    have hslash : c ≠ '/' := fun h => by rw [h] at hc; cases hc
    have htake : (c :: (cs ++ ',' :: rest)).take (c :: cs).length = c :: cs := by simp
    rw [List.cons_append] at hnumber hscan ⊢
    rw [next_of_scan_eq_none ((scan_of_isIdentPart (isIdentPart_of_isDigit hc) _).trans hscan) hslash, base,
      isIdentStart_of_isDigit hc, if_neg Bool.false_ne_true, hnumber, if_pos (by simp)]
    dsimp only
    rw [htake, htext]

end Digits

/-- A number in front of a comma. -/
theorem ReadAs.number (m : Digits) (h : ReadAs (',' :: rest) ks) :
    ReadAs (m.text.toList ++ ',' :: rest) (.number m.text :: ks) := by
  have hnext := m.next_text rest
  have hdigits := m.digits
  cases hm : m.text.toList with
  | nil => exact absurd hm m.nonempty
  | cons c cs =>
    rw [hm] at hnext hdigits
    exact .token (startsToken_of_isIdentPart (isIdentPart_of_isDigit (hdigits c List.mem_cons_self))) hnext h

theorem stringBody?_text (hw : ∀ c ∈ w, isIdentPart c = true) (rest : List Char) :
    stringBody? '\'' (w ++ '\'' :: rest) = some w.length := by
  induction w with
  | nil => rfl
  | cons c w ih =>
    obtain ⟨hc, hw⟩ := List.forall_mem_cons.mp hw
    have hne : ∀ d, isIdentPart d = false → c ≠ d := fun d hd h => by
      rw [h, hd] at hc
      cases hc
    rw [List.cons_append, stringBody?, if_neg (hne _ (by decide)), if_neg, ih hw]
    · rfl
    · rintro (h | h | h)
      · exact hne _ (by decide) h
      · exact hne _ (by decide) h
      · exact hne _ (by decide) h
    · exact fun _ h => absurd h (hne _ (by decide))
    · exact fun _ _ h => absurd h (hne _ (by decide))

theorem unescape_text (hw : ∀ c ∈ w, isIdentPart c = true) (offset : Nat) :
    Literal.unescape offset w = .ok (String.ofList w) := by
  have hfrom : Literal.unescapeFrom w.length offset w = .ok w := by
    induction w generalizing offset with
    | nil => rfl
    | cons c w ih =>
      obtain ⟨hc, hw⟩ := List.forall_mem_cons.mp hw
      rw [List.length_cons, Literal.unescapeFrom, ih hw]
      · rfl
      · exact fun h => by rw [h] at hc; cases hc
  rw [Literal.unescape, hfrom]
  rfl

/-- A name between single quotes. -/
theorem ReadAs.quoted (x : BaseName) (h : ReadAs rest ks) :
    ReadAs ('\'' :: x.text.toList ++ '\'' :: rest) (.string x.text :: ks) := by
  have hnext : ∀ pos before last, Lexed.next Label.scan pos before last
      ('\'' :: (x.text.toList ++ '\'' :: rest)) = .ok (.string x.text, x.text.toList.length + 2) := by
    intro pos before last
    have htake : (x.text.toList ++ '\'' :: rest).take x.text.toList.length = x.text.toList := by simp
    change base pos ('\'' :: (x.text.toList ++ '\'' :: rest)) = _
    rw [base, if_neg (by decide), if_neg (by simp [numberLength]), if_pos (.inr rfl),
      stringBody?_text x.isIdentPart_text]
    dsimp only
    rw [htake, unescape_text x.isIdentPart_text, String.ofList_toList]
    rfl
  have hsplit : '\'' :: x.text.toList ++ '\'' :: rest = '\'' :: (x.text.toList ++ ['\'']) ++ rest := by simp
  rw [hsplit]
  refine .token rfl (fun pos before last => ?_) h
  rw [← hsplit, List.length_append]
  exact hnext pos before last

/-! ### Colons -/

/-- No marker stands in front of the rest of a word. -/
theorem announces_eq_false (hc : isIdentPart c = true) (m : Marker) (cs : List Char) :
    Label.announces m (c :: cs) = false := by
  have hne : ∀ d, isIdentPart d = false → c ≠ d := fun d hd h => by
    rw [h, hd] at hc
    cases hc
  have hdrop : (c :: cs).dropWhile (fun c => c == ' ' || c == '\t') = c :: cs := by
    simp [hne ' ' (by decide), hne '\t' (by decide)]
  have hstrip : Label.stripStart? ['<', '!'] (c :: cs) = none := by
    rw [Label.stripStart?, if_neg (hne '<' (by decide)).symm]
  unfold Label.announces
  rw [hdrop]
  dsimp only
  rw [hstrip]
  cases m <;> simp [hne '[' (by decide)]

/-- A word at the start of a longer one. -/
theorem exists_of_append_eq {v r s : List Char} (hw : ∀ c ∈ w, isIdentPart c = true) (h : v ++ ' ' :: r = w ++ s) :
    ∃ a, v = w ++ a ∧ s = a ++ ' ' :: r := by
  rcases List.append_eq_append_iff.mp h with ⟨a, ha, hs⟩ | ⟨a, ha, hs⟩
  · cases a with
    | nil => exact ⟨[], by simpa using ha.symm, hs.symm⟩
    | cons c a =>
      rw [← (List.cons.inj hs).1] at ha
      exact absurd (hw ' ' (by rw [ha]; simp)) (by decide)
  · exact ⟨a, ha, hs⟩

/-- A colon in front of a base type; only `:A` is a marker there. -/
theorem scanMarker_eq_none (x : BaseName) (hx : x.text ≠ "A") (rest : List Char) :
    Label.scanMarker (':' :: (x.text.toList ++ ' ' :: '<' :: '!' :: rest)) = none := by
  -- What follows the marker: the rest of the word, or the blank behind it.
  have hcases : ∀ m w s, Label.stripStart? (':' :: w) (':' :: (x.text.toList ++ ' ' :: '<' :: '!' :: rest)) = some s →
      w.all isIdentPart = true → Label.announces m s = false ∨ x.text.toList = w ∧ s = ' ' :: '<' :: '!' :: rest := by
    intro m w s hs hw
    obtain ⟨a, ha, rfl⟩ := exists_of_append_eq (List.all_eq_true.mp hw) (List.cons.inj (stripStart?_eq_some.mp hs)).2
    cases a with
    | nil => exact .inr ⟨by simpa using ha, rfl⟩
    | cons c a => exact .inl (announces_eq_false (x.isIdentPart_text c (by simp [ha])) m _)
  have hnot : ∀ m ∈ [Marker.receiver, .shapeNamed, .shapeCount, .shapeEvery], ∀ s,
      Label.stripStart? m.spelling.toList (':' :: (x.text.toList ++ ' ' :: '<' :: '!' :: rest)) = some s →
      Label.announces m s = false := by
    intro m hm s hs
    simp only [List.mem_cons, List.not_mem_nil, or_false] at hm
    rcases hm with rfl | rfl | rfl | rfl
    · rcases hcases .receiver ['t', 'h', 'i', 's'] s hs rfl with h | ⟨h, -⟩
      · exact h
      · have hthis : x.text = "this" := String.toList_inj.mp h
        exact absurd (hthis ▸ x.notReserved) (by decide)
    · rcases hcases .shapeNamed ['S'] s hs rfl with h | ⟨-, rfl⟩
      · exact h
      · rfl
    · rcases hcases .shapeCount ['E'] s hs rfl with h | ⟨-, rfl⟩
      · exact h
      · rfl
    · rcases hcases .shapeEvery ['A'] s hs rfl with h | ⟨h, -⟩
      · exact h
      · exact absurd (String.toList_inj.mp h) hx
  rw [Label.scanMarker, List.findSome?_eq_none_iff]
  intro m hm
  split
  · next s hs =>
    rw [hnot m hm s hs]
    rfl
  · rfl

theorem ReadAs.colon (x : BaseName) (hx : x.text ≠ "A") (h : ReadAs (x.text.toList ++ ' ' :: '<' :: '!' :: rest) ks) :
    ReadAs (':' :: (x.text.toList ++ ' ' :: '<' :: '!' :: rest)) (.punct .colon :: ks) := by
  have hscan : Label.scan (':' :: (x.text.toList ++ ' ' :: '<' :: '!' :: rest)) = none := scanMarker_eq_none x hx rest
  refine .sign rfl (fun pos before last => ?_) h
  exact next_of_scan_eq_none hscan (by decide) pos before last

end LabelWeaver
