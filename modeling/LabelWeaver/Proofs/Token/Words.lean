import LabelWeaver.Proofs.Token.Spelling

/-! Words, numbers and signs as they are read where annotations are read too: a word is an annotation
    word if it is spelled like one, and what does not start an annotation token is read by the base
    rules. -/

namespace LabelWeaver

open Lexeme

/-! ### Annotation words -/

/-- The kind of token that a word is read as. -/
def Label.wordKind (x : String) : Token.Kind :=
  match Contextual.all.find? (·.text == x) with
  | some w => .contextual w
  | none => word x

theorem Label.wordKind_text (w : Contextual) : wordKind w.text = .contextual w := by
  cases w <;> decide +kernel

theorem Label.wordKind_of_ne {x : String} (h : ∀ w : Contextual, w.text ≠ x) : wordKind x = word x := by
  have hnone : Contextual.all.find? (·.text == x) = none := by
    rw [List.find?_eq_none]
    exact fun w _ hw => h w (beq_iff_eq.mp hw)
  rw [wordKind, hnone]

theorem Label.wordKind_cases (x : String) :
    (∃ w : Contextual, w.text = x ∧ wordKind x = .contextual w) ∨ wordKind x = word x := by
  by_cases h : ∃ w : Contextual, w.text = x
  · obtain ⟨w, rfl⟩ := h
    exact .inl ⟨w, rfl, wordKind_text w⟩
  · exact .inr (wordKind_of_ne fun w hw => h ⟨w, hw⟩)

/-- A word that is not reserved is a name. -/
theorem Label.identText?_wordKind {x : String} (h : Reserved.ofText? x = none) :
    (wordKind x).identText? = some x := by
  rcases wordKind_cases x with ⟨w, rfl, hw⟩ | hw
  · rw [hw]
    rfl
  · rw [hw, word, h]
    rfl

/-- Every word is the name of a property. -/
theorem Label.propertyText?_wordKind (x : String) : (wordKind x).propertyText? = some x := by
  rcases wordKind_cases x with ⟨w, rfl, hw⟩ | hw
  · rw [hw]
    rfl
  · rw [hw, word]
    split
    · next w hword => rw [← Reserved.text_of_ofText? hword]; rfl
    · rfl

/-- A word in front of something else is the annotation word with its spelling. -/
theorem findSome?_contextual (w : Contextual) {rest : List Char} (hrest : rest.head?.any isWordPart = false)
    {vs : List Contextual} (hmem : w ∈ vs) :
    (vs.findSome? fun v => match Label.stripStart? v.text.toList (w.text.toList ++ rest) with
      | some s => if s.head?.any isWordPart then none else some (Token.Kind.contextual v, v.text.length)
      | none => none) = some (.contextual w, w.text.toList.length) := by
  have hinj : ∀ v ∈ Contextual.all, ∀ w ∈ Contextual.all, w.text.toList = v.text.toList → v = w := by decide +kernel
  induction vs with
  | nil => cases hmem
  | cons v vs ih =>
    rw [List.findSome?_cons]
    by_cases hv : v = w
    · rw [hv, stripStart?_eq_some.mpr rfl]
      dsimp only
      rw [hrest, String.length_toList]
      rfl
    · have hrest' := ih ((List.mem_cons.mp hmem).resolve_left (Ne.symm hv))
      cases hs : Label.stripStart? v.text.toList (w.text.toList ++ rest) with
      | none => exact hrest'
      | some s =>
        cases hhead : s.head?.any isWordPart with
        | true => simpa [hhead] using hrest'
        | false =>
          -- both words are what the text starts with, as far as words go
          have htake := takeWhile_word v.isWordPart_text hhead
          rw [← stripStart?_eq_some.mp hs, takeWhile_word w.isWordPart_text hrest] at htake
          exact absurd (hinj v v.mem_all w w.mem_all htake) hv

theorem scanWord_contextual (w : Contextual) {rest : List Char} (hrest : rest.head?.any isWordPart = false) :
    Label.scanWord (w.text.toList ++ rest) = some (.contextual w, w.text.toList.length) :=
  findSome?_contextual w hrest w.mem_all

theorem nameText_iff {cs : List Char} : NameText cs ↔ isIdent cs = true := by
  cases cs with
  | nil => exact ⟨False.elim, nofun⟩
  | cons c cs => rw [isIdent, Bool.and_eq_true, List.all_eq_true]; rfl

instance : DecidablePred NameText := fun _ => decidable_of_iff _ nameText_iff.symm

theorem Contextual.nameText (w : Contextual) : NameText w.text.toList := by
  cases w <;> decide

/-! ### Other tokens -/

/-- Annotation words start as names do. -/
theorem scanWord_of_not_isIdentStart {c : Char} (hc : isIdentStart c = false) (cs : List Char) :
    Label.scanWord (c :: cs) = none := by
  rw [Label.scanWord, List.findSome?_eq_none_iff]
  intro v _
  have hstart : ∃ d ds, v.text.toList = d :: ds ∧ isIdentStart d = true := by
    cases v <;> exact ⟨_, _, rfl, rfl⟩
  obtain ⟨d, ds, hd, hstart⟩ := hstart
  have hne : d ≠ c := fun h => by rw [h, hc] at hstart; cases hstart
  rw [hd, Label.stripStart?, if_neg hne]

/-- What starts neither a word nor a sign of annotations is left to the base rules. -/
theorem Label.scan_eq_none {c : Char} (hc : isIdentStart c = false) (hopen : c ≠ '<') (hclose : c ≠ '!')
    (hcolon : c ≠ ':') (cs : List Char) : Label.scan (c :: cs) = none := by
  unfold Label.scan
  split
  · next heq => exact absurd (List.cons.inj heq).1 hopen
  · next heq => exact absurd (List.cons.inj heq).1 hclose
  · next heq => exact absurd (List.cons.inj heq).1 hcolon
  · exact scanWord_of_not_isIdentStart hc cs

theorem next_eq_of_scan_eq_none {cs : List Char} (h : Label.scan cs = none) (pos : Nat)
    (before last : Option Token.Kind) :
    Lexed.next Label.scan pos before last cs = Lexed.next (fun _ => none) pos before last cs := by
  unfold Lexed.next
  rw [h]

/-- No sign has a character of a name. -/
theorem Punct.continues_of_isIdentPart {c : Char} (hc : isIdentPart c = true) (p : Punct) : p.continues c = false := by
  by_contra hcontinues
  obtain ⟨q, hq, hstart⟩ := List.any_eq_true.mp (Bool.not_eq_false _ ▸ hcontinues)
  have hmem : c ∈ q.spelling.toList := ( List.isPrefixOf_iff_prefix.mp hstart).subset (by simp)
  have hall : ∀ q ∈ all, q.spelling.toList.all (!isIdentPart ·) = true := by decide +kernel
  have hnot := List.all_eq_true.mp (hall q hq) c hmem
  rw [hc] at hnot
  cases hnot

/-- What does not continue a word of annotations does not continue a name. -/
theorem any_isIdentPart_of_isWordPart {rest : List Char} (h : rest.head?.any isWordPart = false) :
    rest.head?.any isIdentPart = false := by
  cases rest with
  | nil => rfl
  | cons c rest =>
    by_contra hc
    have hpart : isWordPart c = true := isWordPart_of_isIdentPart (by simpa using hc)
    rw [List.head?_cons, Option.any_some, hpart] at h
    cases h

/-! ### Words at the start of a text -/

namespace Label

variable {cs rest : List Char} {w : Contextual} {n : Nat}

theorem scanWord_eq_some (h : scanWord cs = some (.contextual w, n)) :
    ∃ rest, cs = w.text.toList ++ rest ∧ rest.head?.any isWordPart = false ∧ n = w.text.length := by
  obtain ⟨v, -, hv⟩ := List.exists_of_findSome?_eq_some h
  split at hv
  · next rest hrest =>
    split at hv
    · cases hv
    · next hhead =>
      cases hv
      exact ⟨rest, stripStart?_eq_some.mp hrest, Bool.eq_false_iff.mpr hhead, rfl⟩
  · cases hv

/-- A sign of the annotation language is no word. -/
theorem scan_eq_scanWord (h : scan cs = some (.contextual w, n)) : scanWord cs = some (.contextual w, n) := by
  unfold scan at h
  split at h
  · cases h
  · cases h
  · obtain ⟨m, -, hm⟩ := List.exists_of_findSome?_eq_some h
    split at hm
    · split at hm <;> cases hm
    · cases hm
  · exact h

/-- What is left behind the longest word. -/
theorem exists_rest (p : Char → Bool) (cs : List Char) :
    ∃ rest, cs = cs.takeWhile p ++ rest ∧ rest.head?.any p = false := by
  refine ⟨cs.dropWhile p, List.takeWhile_append_dropWhile.symm, ?_⟩
  have hhead := List.head?_dropWhile_not p cs
  cases hrest : (cs.dropWhile p).head? with
  | none => rfl
  | some c => rw [hrest] at hhead; simpa using hhead

/-- An annotation word is read where the text starts with it and goes on with what cannot continue it. -/
theorem scan_contextual_iff :
    scan cs = some (.contextual w, n) ↔ cs.takeWhile isWordPart = w.text.toList ∧ n = w.text.length := by
  constructor
  · intro h
    obtain ⟨rest, rfl, hrest, hn⟩ := scanWord_eq_some (scan_eq_scanWord h)
    exact ⟨takeWhile_word w.isWordPart_text hrest, hn⟩
  · rintro ⟨hw, rfl⟩
    obtain ⟨rest, hcs, hrest⟩ := exists_rest isWordPart cs
    obtain ⟨c, ds, hds⟩ : ∃ c ds, w.text.toList = c :: ds := by cases w <;> exact ⟨_, _, rfl⟩
    have hname := w.nameText
    rw [hds] at hname
    rw [hw] at hcs
    have hword : scan (w.text.toList ++ rest) = scanWord (w.text.toList ++ rest) := by
      rw [hds]
      exact scan_of_isIdentPart (isIdentPart_of_isIdentStart hname.1) _
    rw [hcs, hword, scanWord_contextual w hrest, String.length_toList]

end Label

/-- On characters of one byte the two languages agree on what continues a word. -/
theorem isWordPart_eq_isIdentPart {c : Char} (hc : c.toNat < 0x80) : isWordPart c = isIdentPart c := by
  rw [isWordPart, isIdentPart, isLetter, isNumeral, if_pos hc, if_pos hc, Char.isAlphanum]

theorem takeWhile_isWordPart {cs : List Char} (h : ∀ c ∈ cs, c.toNat < 0x80) :
    cs.takeWhile isWordPart = cs.takeWhile isIdentPart := by
  induction cs with
  | nil => rfl
  | cons c cs ih =>
    obtain ⟨hc, hcs⟩ := List.forall_mem_cons.mp h
    rw [List.takeWhile_cons, List.takeWhile_cons, isWordPart_eq_isIdentPart hc, ih hcs]

theorem Contextual.word_text (w : Contextual) : word w.text = .ident w.text := by
  cases w <;> decide +kernel

section
variable {x : String} {cs : List Char} {n pos : Nat} {before last : Option Token.Kind}

theorem eq_of_word_eq_ident {text : String} (h : word text = .ident x) : text = x := by
  unfold word at h
  split at h <;> cases h
  rfl

theorem base_ident (h : base pos cs = .ok (.ident x, n)) : cs.takeWhile isIdentPart = x.toList ∧ n = x.length := by
  unfold base at h
  split at h
  · cases h
  · split at h
    · obtain ⟨hword, hn⟩ := Prod.mk.inj (Except.ok.inj h)
      rw [← eq_of_word_eq_ident hword, ← hn, String.toList_ofList, String.length_ofList]
      exact ⟨rfl, rfl⟩
    · split at h
      · cases h
      · split at h
        · split at h
          · cases h
          · obtain ⟨value, -, hk⟩ := Except.map_eq_ok h
            cases hk
        · split at h <;> cases h

/-- The base rules read a name where the text starts with it and goes on with what cannot continue it. -/
theorem next_ident_iff (hx : NameText x.toList) (hword : word x = .ident x) :
    Lexed.next (fun _ => none) pos before last cs = .ok (.ident x, n) ↔
      cs.takeWhile isIdentPart = x.toList ∧ n = x.length := by
  constructor
  · intro h
    unfold Lexed.next at h
    dsimp only at h
    split at h
    · split at h
      · unfold regex at h
        split at h <;> cases h
      · exact base_ident h
    · exact base_ident h
  · rintro ⟨htake, rfl⟩
    obtain ⟨rest, hcs, hrest⟩ := Label.exists_rest isIdentPart cs
    rw [hcs, htake, next_name hx hrest, hword, String.length_toList]

end

/-- An annotation word is read exactly where the longest word that the text starts with is that word. In a text of
    ASCII characters this is where the base rules read a name of the same spelling and length. -/
theorem Label.scan_word_exact (w : Contextual) (cs : List Char) (n : Nat) :
    (Label.scan cs = some (.contextual w, n) ↔ cs.takeWhile isWordPart = w.text.toList ∧ n = w.text.length) ∧
      ((∀ c ∈ cs, c.toNat < 0x80) → ∀ pos before last,
        (Label.scan cs = some (.contextual w, n) ↔
          Lexed.next (fun _ => none) pos before last cs = .ok (.ident w.text, n))) := by
  refine ⟨Label.scan_contextual_iff, fun hascii pos before last => ?_⟩
  rw [Label.scan_contextual_iff, next_ident_iff w.nameText w.word_text, takeWhile_isWordPart hascii]

/-- The text starts with a longer word than the first that fits. -/
theorem Label.scan_word_exact_assert :
    (∀ c ∈ "assert is".toList, c.toNat < 0x80) ∧ Label.scan "assert is".toList = some (.contextual .kwAssert, 6) ∧
      Label.scan "assert is".toList ≠ some (.contextual .kwAs, 2) ∧
      ∀ pos before last, Lexed.next (fun _ => none) pos before last "assert is".toList = .ok (.ident "assert", 6) := by
  have hall : "assert is".toList.all (·.toNat < 0x80) = true := by decide +kernel
  have hascii : ∀ c ∈ "assert is".toList, c.toNat < 0x80 := fun c hc => of_decide_eq_true (List.all_eq_true.mp hall c hc)
  have hscan := (Label.scan_word_exact .kwAssert "assert is".toList 6).1.mpr (by decide +kernel)
  have hnot := (Label.scan_word_exact .kwAs "assert is".toList 2).1
  have hbase := (Label.scan_word_exact .kwAssert "assert is".toList 6).2 hascii
  exact ⟨hascii, hscan, fun h => absurd (hnot.mp h).1 (by decide +kernel),
    fun pos before last => (hbase pos before last).mp hscan⟩

/-! ### Texts -/

namespace ReadAs

variable {rest : List Char} {ks : List Token.Kind}

theorem blanks (n : Nat) (h : ReadAs rest ks) : ReadAs (List.replicate n ' ' ++ rest) ks := by
  induction n with
  | zero => exact h
  | succ n ih => exact .blank ih

/-- A word in front of anything that does not continue it. -/
theorem word {x : String} (hx : NameText x.toList) (hrest : rest.head?.any isWordPart = false) (h : ReadAs rest ks) :
    ReadAs (x.toList ++ rest) (Label.wordKind x :: ks) := by
  obtain ⟨c, cs, hcs⟩ : ∃ c cs, x.toList = c :: cs := by
    cases hcs : x.toList with
    | nil => rw [hcs] at hx; exact hx.elim
    | cons c cs => exact ⟨c, cs, rfl⟩
  have hstart : isIdentStart c = true := by rw [hcs] at hx; exact hx.1
  have hpart := isIdentPart_of_isIdentStart hstart
  have hscan : Label.scan (x.toList ++ rest) = Label.scanWord (x.toList ++ rest) := by
    rw [hcs]
    exact scan_of_isIdentPart hpart _
  have hnext : ∀ pos before last, Lexed.next Label.scan pos before last (x.toList ++ rest) =
      .ok (Label.wordKind x, x.toList.length) := by
    intro pos before last
    by_cases hw : ∃ w : Contextual, w.text = x
    · obtain ⟨w, rfl⟩ := hw
      unfold Lexed.next
      rw [Label.wordKind_text, hscan, scanWord_contextual w hrest]
    · have hne : ∀ w : Contextual, w.text ≠ x := fun w h => hw ⟨w, h⟩
      have hnone : Label.scanWord (x.toList ++ rest) = none := by
        refine scanWord_eq_none (fun d hd => isWordPart_of_isIdentPart ?_) hrest fun v hv => ?_
        · rw [hcs] at hx hd
          rcases List.mem_cons.mp hd with rfl | hd
          · exact hpart
          · exact hx.2 d hd
        · exact hne v (String.toList_inj.mp hv)
      rw [Label.wordKind_of_ne hne, next_eq_of_scan_eq_none (hscan.trans hnone), next_name hx (any_isIdentPart_of_isWordPart hrest)]
  rw [hcs] at hnext ⊢
  exact .token (startsToken_of_isIdentPart hpart) hnext h

/-- A number in front of anything that does not continue it. -/
theorem numeral {x : String} (hx : NumberText x.toList) (hrest : rest.head?.any isIdentPart = false)
    (hdot : rest.head? ≠ some '.') (h : ReadAs rest ks) : ReadAs (x.toList ++ rest) (.number x :: ks) := by
  obtain ⟨c, cs, hcs, hc⟩ := hx.exists_cons
  have hstart : startsToken c = true := by
    rcases hc with hc | rfl
    · exact startsToken_of_isIdentPart (isIdentPart_of_isDigit hc)
    · rfl
  have hscan : Label.scan (x.toList ++ rest) = none := by
    rw [hcs]
    rcases hc with hc | rfl
    · refine Label.scan_eq_none (isIdentStart_of_isDigit hc) ?_ ?_ ?_ _ <;> rintro rfl <;> cases hc
    · exact Label.scan_eq_none rfl (by decide) (by decide) (by decide) _
  have hnext : ∀ pos before last, Lexed.next Label.scan pos before last (x.toList ++ rest) =
      .ok (.number x, x.toList.length) := fun pos before last =>
    (next_eq_of_scan_eq_none hscan pos before last).trans (next_number hx hrest fun _ => hdot)
  rw [hcs] at hnext ⊢
  exact .token hstart hnext h

/-- A sign of one character that is no slash and no sign of annotations. -/
theorem punct {p : Punct} {c : Char} (hp : p.spelling.toList = [c]) (hc : startsToken c = true)
    (hsign : isIdentStart c = false ∧ c ≠ '<' ∧ c ≠ '!' ∧ c ≠ ':') (hslash : p ≠ .slash)
    (hrest : ∀ d ∈ rest.head?, p.continues d = false) (hdot : p = .dot → rest.head?.any Char.isDigit = false)
    (h : ReadAs rest ks) : ReadAs (c :: rest) (.punct p :: ks) := by
  have hscan := Label.scan_eq_none hsign.1 hsign.2.1 hsign.2.2.1 hsign.2.2.2 rest
  refine .sign hc (fun pos before last => ?_) h
  have hnext := @next_punct pos before last rest p hrest hdot fun heq => by
    rcases heq with rfl | rfl
    · exact absurd rfl hslash
    · cases hp
  rw [hp] at hnext
  exact (next_eq_of_scan_eq_none hscan pos before last).trans hnext

end ReadAs

end LabelWeaver
