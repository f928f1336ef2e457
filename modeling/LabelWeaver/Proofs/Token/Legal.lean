import LabelWeaver.Grammar.Basic
import Mathlib.Data.List.TakeWhile

/-! What the reader of the base language makes of a source: how the texts of its names, numbers and
    regular expressions are spelled, and what a comment cannot contain. -/

namespace LabelWeaver

variable {c : Char} {cs : List Char} {n pos size : Nat} {k : Token.Kind} {before last : Option Token.Kind}
  {lexed : Lexed}

open Lexeme

/-! ### Spellings -/

/-- A name, reserved words included. -/
def NameText : List Char → Prop
  | [] => False
  | c :: cs => isIdentStart c = true ∧ ∀ d ∈ cs, isIdentPart d = true

def DigitText (cs : List Char) : Prop := cs ≠ [] ∧ ∀ d ∈ cs, d.isDigit = true

/-- An exponent, which may be missing. -/
inductive ExponentText : List Char → Prop where
  | none : ExponentText []
  | plain {e : Char} {ds : List Char} (he : e = 'e' ∨ e = 'E') (hds : DigitText ds) : ExponentText (e :: ds)
  | signed {e s : Char} {ds : List Char} (he : e = 'e' ∨ e = 'E') (hs : s = '+' ∨ s = '-') (hds : DigitText ds) :
      ExponentText (e :: s :: ds)

/-- A number. -/
inductive NumberText : List Char → Prop where
  | hex {x : Char} {ds : List Char} (hx : x = 'x' ∨ x = 'X') (hne : ds ≠ [])
      (hds : ∀ d ∈ ds, isHexDigit d = true) : NumberText ('0' :: x :: ds)
  | whole {ds ex : List Char} (hds : DigitText ds) (hex : ExponentText ex) : NumberText (ds ++ ex)
  | fraction {ds fs ex : List Char} (hds : DigitText ds) (hfs : ∀ d ∈ fs, d.isDigit = true)
      (hex : ExponentText ex) : NumberText (ds ++ '.' :: (fs ++ ex))
  | point {fs ex : List Char} (hfs : DigitText fs) (hex : ExponentText ex) : NumberText ('.' :: (fs ++ ex))

/-- The body of a regular expression: it is closed by the slash behind it, and its opening slash
    does not start a comment. -/
def RegexText (cs : List Char) : Prop :=
  cs ≠ [] ∧ cs.head? ≠ some '*' ∧ ∀ rest, regexBody? false false (cs ++ '/' :: rest) = some cs.length

/-- A token that the base language can have. -/
def Token.Kind.Legal : Token.Kind → Prop
  | contextual _ | marker _ => False
  | ident name => NameText name.toList ∧ Reserved.ofText? name = none
  | number text => NumberText text.toList
  | regex pattern flags => RegexText pattern.toList ∧ ∀ c ∈ flags.toList, isIdentPart c = true
  | _ => True

/-- A comment that its delimiters enclose. -/
def Comment.Legal (c : Comment) : Prop :=
  match c.kind with
  | .line => (∀ d ∈ c.text.toList, d ≠ '\n') ∧ c.text.toList.getLast? ≠ some '\r'
  | .block => ∀ rest, Gap.blockBody? (c.text.toList ++ '*' :: '/' :: rest) = some c.text.toList.length

/-! ### Runs of characters -/

/-- A run and what is left. -/
theorem exists_run (p : Char → Bool) (cs : List Char) :
    ∃ run rest, cs = run ++ rest ∧ run.length = runLength p cs ∧ (∀ c ∈ run, p c = true) ∧
      rest.head?.any p = false := by
  refine ⟨cs.takeWhile p, cs.dropWhile p, List.takeWhile_append_dropWhile.symm, rfl,
    fun c hc => List.mem_takeWhile_imp hc, ?_⟩
  cases h : cs.dropWhile p with
  | nil => rfl
  | cons d ds =>
    have hd := List.head_dropWhile_not p (w := by rw [h]; exact List.cons_ne_nil _ _)
    simp only [h, List.head_cons] at hd
    simp [hd]

/-- A run is as long as it can be. -/
theorem runLength_append {p : Char → Bool} {run rest : List Char} (hrun : ∀ c ∈ run, p c = true)
    (hrest : rest.head?.any p = false) : runLength p (run ++ rest) = run.length := by
  rw [runLength, List.takeWhile_append_of_pos hrun]
  cases rest with
  | nil => simp
  | cons c cs =>
    have hc : p c = false := by simpa using hrest
    simp [hc]

/-! ### Numbers -/

theorem exponentText_take (cs : List Char) : ExponentText (cs.take (exponentLength cs)) := by
  cases cs with
  | nil => exact .none
  | cons e cs =>
    unfold exponentLength
    dsimp only
    split
    · next he =>
      rw [Bool.or_eq_true, beq_iff_eq, beq_iff_eq] at he
      -- the digits behind the sign, if there are any
      have hdigits : ∀ ds : List Char, runLength Char.isDigit ds ≠ 0 →
          DigitText (ds.take (runLength Char.isDigit ds)) := by
        intro ds hne
        obtain ⟨run, rest, rfl, hlen, hrun, -⟩ := exists_run Char.isDigit ds
        rw [← hlen, List.take_left]
        rw [← hlen] at hne
        exact ⟨List.ne_nil_of_length_pos (Nat.pos_of_ne_zero hne), hrun⟩
      split
      · next ds =>
        split
        · exact .none
        · next hne =>
          rw [Nat.add_comm 2, List.take_succ_cons, List.take_succ_cons]
          exact .signed he (.inl rfl) (hdigits ds hne)
      · next ds =>
        split
        · exact .none
        · next hne =>
          rw [Nat.add_comm 2, List.take_succ_cons, List.take_succ_cons]
          exact .signed he (.inr rfl) (hdigits ds hne)
      · split
        · exact .none
        · next hne =>
          rw [Nat.add_comm 1, List.take_succ_cons]
          exact .plain he (hdigits cs hne)
    · exact .none

theorem numberText_of_decimal (hc : c.isDigit = true) : NumberText ((c :: cs).take (decimalLength (c :: cs))) := by
  obtain ⟨run, rest, hcs, hlen, hrun, -⟩ := exists_run Char.isDigit (c :: cs)
  have hdigits : DigitText run := by
    refine ⟨fun hnil => ?_, hrun⟩
    rw [hnil, runLength, List.takeWhile_cons_of_pos hc] at hlen
    cases hlen
  rw [hcs] at hlen ⊢
  rw [decimalLength, ← hlen, List.drop_left]
  split
  · next ds =>
    obtain ⟨fs, more, rfl, hflen, hfs, -⟩ := exists_run Char.isDigit ds
    have hsplit : run ++ '.' :: (fs ++ more) = (run ++ '.' :: fs) ++ more := by simp
    have hwidth : run.length + 1 + runLength Char.isDigit (fs ++ more) = (run ++ '.' :: fs).length := by
      rw [← hflen]
      simp [Nat.add_comm, Nat.add_left_comm]
    dsimp only
    rw [hwidth, hsplit, List.drop_left, List.take_length_add_append, List.append_assoc, List.cons_append]
    exact .fraction hdigits hfs (exponentText_take more)
  · rw [List.take_length_add_append]
    exact .whole hdigits (exponentText_take rest)

theorem numberText_take (h : numberLength cs ≠ 0) : NumberText (cs.take (numberLength cs)) := by
  unfold numberLength at h ⊢
  split at h
  · next x ds =>
    split
    · next hx =>
      rw [Bool.and_eq_true, Bool.or_eq_true, beq_iff_eq, beq_iff_eq, bne_iff_ne] at hx
      obtain ⟨run, rest, rfl, hlen, hrun, -⟩ := exists_run isHexDigit ds
      rw [← hlen] at hx ⊢
      rw [Nat.add_comm 2, List.take_succ_cons, List.take_succ_cons, List.take_left]
      exact .hex hx.1 (List.ne_nil_of_length_pos (Nat.pos_of_ne_zero hx.2)) hrun
    · exact numberText_of_decimal rfl
  · next ds =>
    obtain ⟨run, rest, rfl, hlen, hrun, -⟩ := exists_run Char.isDigit ds
    dsimp only at h ⊢
    rw [← hlen] at h ⊢
    split at h
    · exact absurd rfl h
    · next hne =>
      rw [if_neg hne, List.drop_left, Nat.add_comm 1, Nat.add_right_comm, List.take_succ_cons,
        List.take_length_add_append]
      exact .point ⟨List.ne_nil_of_length_pos (Nat.pos_of_ne_zero hne), hrun⟩ (exponentText_take rest)
  · next d ds _ _ =>
    split at h
    · next hd =>
      rw [if_pos hd]
      exact numberText_of_decimal hd
    · exact absurd rfl h
  · exact absurd rfl h

/-! ### Regular expressions and comments -/

theorem regexBody?_take {inClass escaped : Bool} (h : regexBody? inClass escaped cs = some n) (rest : List Char) :
    regexBody? inClass escaped (cs.take n ++ '/' :: rest) = some n := by
  induction cs generalizing inClass escaped n with
  | nil => cases h
  | cons c cs ih =>
    have hstep : ∀ {inClass escaped}, (regexBody? inClass escaped cs).map (· + 1) = some n →
        ∃ m, n = m + 1 ∧ regexBody? inClass escaped (cs.take m ++ '/' :: rest) = some m := by
      intro inClass escaped hmap
      obtain ⟨m, hm, rfl⟩ := Option.map_eq_some_iff.mp hmap
      exact ⟨m, rfl, ih hm⟩
    rw [regexBody?] at h
    split at h
    · cases h
    · next hbreak =>
      split at h
      · next hescaped =>
        obtain ⟨m, rfl, hm⟩ := hstep h
        simp [regexBody?, hbreak, hescaped, hm]
      · next hescaped =>
        split at h
        · next hback =>
          obtain ⟨m, rfl, hm⟩ := hstep h
          simp [regexBody?, hescaped, hback, hm]
        · next hback =>
          split at h
          · next hopen =>
            obtain ⟨m, rfl, hm⟩ := hstep h
            simp [regexBody?, hescaped, hopen, hm]
          · next hopen =>
            split at h
            · next hclose =>
              obtain ⟨m, rfl, hm⟩ := hstep h
              simp [regexBody?, hescaped, hclose, hm]
            · next hclose =>
              split at h
              · next hslash =>
                cases h
                have hclass : inClass = false := by simpa using hslash.2
                simp [regexBody?, hescaped, hclass]
              · next hslash =>
                obtain ⟨m, rfl, hm⟩ := hstep h
                simp only [List.take_succ_cons, List.cons_append, regexBody?]
                rw [if_neg hbreak, if_neg hescaped, if_neg hback, if_neg hopen, if_neg hclose,
                  if_neg hslash, hm]
                rfl

/-- A body ends at a slash. -/
theorem eq_of_regexBody? {inClass escaped : Bool} (h : regexBody? inClass escaped cs = some n) :
    cs = cs.take n ++ '/' :: cs.drop (n + 1) := by
  induction cs generalizing inClass escaped n with
  | nil => cases h
  | cons c cs ih =>
    have hstep : ∀ {inClass escaped}, (regexBody? inClass escaped cs).map (· + 1) = some n →
        c :: cs = (c :: cs).take n ++ '/' :: (c :: cs).drop (n + 1) := by
      intro inClass escaped hmap
      obtain ⟨m, hm, rfl⟩ := Option.map_eq_some_iff.mp hmap
      rw [List.take_succ_cons, List.drop_succ_cons, List.cons_append, ← ih hm]
    rw [regexBody?] at h
    split at h
    · cases h
    · split at h
      · exact hstep h
      · split at h
        · exact hstep h
        · split at h
          · exact hstep h
          · split at h
            · exact hstep h
            · split at h
              · next hslash =>
                cases h
                rw [hslash.1]
                rfl
              · exact hstep h

theorem blockBody?_take (h : Gap.blockBody? cs = some n) (rest : List Char) :
    Gap.blockBody? (cs.take n ++ '*' :: '/' :: rest) = some n := by
  induction cs generalizing n with
  | nil => cases h
  | cons c cs ih =>
    by_cases hend : c = '*' ∧ cs.head? = some '/'
    · obtain ⟨rfl, hhead⟩ := hend
      obtain ⟨ds, rfl⟩ : ∃ ds, cs = '/' :: ds := by
        cases cs with
        | nil => cases hhead
        | cons d ds => cases hhead; exact ⟨ds, rfl⟩
      cases h
      rfl
    · -- the comment does not end here, and no other text behind `c` makes it end here
      have hskip : ∀ ds : List Char, ¬(c = '*' ∧ ds.head? = some '/') →
          Gap.blockBody? (c :: ds) = (Gap.blockBody? ds).map (· + 1) := by
        intro ds hds
        rw [Gap.blockBody?]
        intro ds' hc hd
        exact hds ⟨hc, by rw [hd]; rfl⟩
      rw [hskip cs hend] at h
      obtain ⟨m, hm, rfl⟩ := Option.map_eq_some_iff.mp h
      rw [List.take_succ_cons, List.cons_append, hskip, ih hm]
      · rfl
      · rintro ⟨hc, hhead⟩
        cases m with
        | zero => cases hhead
        | succ m =>
          cases cs with
          | nil => cases hm
          | cons d ds => exact hend ⟨hc, hhead⟩

theorem eq_of_blockBody? (h : Gap.blockBody? cs = some n) : cs = cs.take n ++ '*' :: '/' :: cs.drop (n + 2) := by
  fun_induction Gap.blockBody? cs generalizing n with
  | case1 cs => cases h; rfl
  | case2 c cs _ ih =>
    obtain ⟨m, hm, rfl⟩ := Option.map_eq_some_iff.mp h
    rw [List.take_succ_cons, List.drop_succ_cons, List.cons_append, ← ih hm]
  | case3 => cases h

theorem lineComment_legal {body : List Char} (h : ∀ d ∈ body, d ≠ '\n') : (Gap.lineComment pos body).Legal := by
  refine ⟨fun d hd => ?_, fun hlast => ?_⟩
  · rw [Gap.lineComment, String.toList_ofList, List.mem_reverse] at hd
    exact h d (List.mem_reverse.mp ((List.dropWhile_sublist _).mem hd))
  · rw [Gap.lineComment, String.toList_ofList, List.getLast?_reverse] at hlast
    have hnot := List.head?_dropWhile_not (· == '\r') body.reverse
    rw [hlast] at hnot
    cases hnot

/-- What is known about the text behind blanks and comments: it starts with no blank and with no
    comment, and the comments that were skipped are legal. -/
structure Gap.Exact (pos : Nat) (cs : List Char) (gap : Gap) : Prop where
  text : ∃ skipped, cs = skipped ++ gap.rest ∧ gap.pos = pos + byteLength skipped
  comments : ∀ c ∈ gap.comments, c.Legal
  line : ∀ ds, gap.rest ≠ '/' :: '/' :: ds
  block : ∀ ds, gap.rest ≠ '/' :: '*' :: ds

theorem Gap.Exact.after {width : Nat} {gap : Gap} (h : Gap.Exact (pos + width) cs gap) (skipped : List Char)
    (found : List Comment) (newline : Bool) (hwidth : width = byteLength skipped) (hfound : ∀ c ∈ found, c.Legal) :
    Gap.Exact pos (skipped ++ cs) (Gap.after found newline gap) := by
  obtain ⟨⟨more, hcs, hpos⟩, hcomments, hline, hblock⟩ := h
  refine ⟨⟨skipped ++ more, ?_, ?_⟩, ?_, hline, hblock⟩
  · rw [hcs, List.append_assoc]
    rfl
  · rw [byteLength_append, ← hwidth, ← Nat.add_assoc]
    exact hpos
  · intro c hc
    rcases List.mem_append.mp hc with hc | hc
    · exact hfound c hc
    · exact hcomments c hc

theorem Except.map_eq_ok {ε α β : Type} {r : Except ε α} {f : α → β} {b : β} (h : r.map f = .ok b) :
    ∃ a, r = .ok a ∧ f a = b := by
  cases r with
  | error => cases h
  | ok a => cases h; exact ⟨a, rfl, rfl⟩

theorem Gap.exact_of_skipFrom {gap : Gap} (hsize : cs.length ≤ size) (h : Gap.skipFrom size pos cs = .ok gap) :
    Gap.Exact pos cs gap := by
  fun_induction Gap.skipFrom size pos cs generalizing gap with
  | case1 pos cs =>
    cases List.length_eq_zero_iff.mp (Nat.le_zero.mp hsize)
    cases h
    exact ⟨⟨[], rfl, rfl⟩, nofun, nofun, nofun⟩
  | case2 size pos cs body =>
    rename_i ih
    obtain ⟨g, hg, rfl⟩ := Except.map_eq_ok h
    have htake : cs.take body.length = body := (List.prefix_iff_eq_take.mp (List.takeWhile_prefix _)).symm
    have hcs : '/' :: '/' :: cs = ('/' :: '/' :: body) ++ cs.drop body.length := by
      rw [List.cons_append, List.cons_append, ← htake, List.length_take_of_le, List.take_append_drop]
      exact (List.takeWhile_prefix _).length_le
    have hexact := ih (by simp at hsize ⊢; omega) hg
    rw [Nat.add_assoc] at hexact
    rw [hcs]
    refine hexact.after _ _ _ ?_ fun c hc => ?_
    · have hslash : '/'.utf8Size = 1 := rfl
      simp only [byteLength_cons, hslash]
      omega
    · cases List.mem_singleton.mp hc
      exact lineComment_legal fun d hd => by simpa using List.mem_takeWhile_imp hd
  | case3 size pos cs hnone => cases h
  | case4 size pos cs n hn body =>
    rename_i ih
    obtain ⟨g, hg, rfl⟩ := Except.map_eq_ok h
    have hcs : '/' :: '*' :: cs = ('/' :: '*' :: (body ++ ['*', '/'])) ++ cs.drop (n + 2) := by
      simpa using eq_of_blockBody? hn
    have hexact := ih (by simp at hsize ⊢; omega) hg
    rw [Nat.add_assoc] at hexact
    rw [hcs]
    refine hexact.after _ _ _ ?_ fun c hc => ?_
    · have hslash : '/'.utf8Size = 1 := rfl
      have hstar : '*'.utf8Size = 1 := rfl
      simp only [byteLength_cons, byteLength_append, byteLength_nil, hslash, hstar]
      omega
    · cases List.mem_singleton.mp hc
      intro rest
      have hlen : body.length = n := by
        rw [List.length_take_of_le]
        have := congrArg List.length (eq_of_blockBody? hn)
        simp at this
        omega
      rw [Gap.blockComment, String.toList_ofList, blockBody?_take hn, hlen]
  | case5 size pos c cs _ _ _ ih =>
    obtain ⟨g, hg, rfl⟩ := Except.map_eq_ok h
    exact (ih (by simpa using hsize) hg).after [c] [] true (by simp) nofun
  | case6 size pos c cs _ _ _ _ ih =>
    exact (ih (by simpa using hsize) h).after [c] [] false (by simp) nofun
  | case7 size pos c cs hline hblock =>
    cases h
    exact ⟨⟨[], rfl, rfl⟩, nofun, fun ds hds => hline ds (List.cons.inj hds).1 (List.cons.inj hds).2,
      fun ds hds => hblock ds (List.cons.inj hds).1 (List.cons.inj hds).2⟩
  | case8 =>
    cases h
    exact ⟨⟨[], rfl, rfl⟩, nofun, nofun, nofun⟩

/-! ### Tokens -/

theorem isIdentPart_of_isIdentStart (h : isIdentStart c = true) : isIdentPart c = true := by
  simp only [isIdentStart, isIdentPart, Char.isAlphanum, Bool.or_eq_true] at h ⊢
  exact h.imp_left (Or.imp_left .inl)

theorem nameText_takeWhile (hc : isIdentStart c = true) : NameText ((c :: cs).takeWhile isIdentPart) := by
  rw [List.takeWhile_cons_of_pos (isIdentPart_of_isIdentStart hc)]
  exact ⟨hc, fun d hd => List.mem_takeWhile_imp hd⟩

theorem word_legal {text : String} (h : NameText text.toList) : (word text).Legal := by
  unfold word
  split
  · trivial
  · next hnone => exact ⟨h, hnone⟩

theorem base_legal (h : base pos cs = .ok (k, n)) : k.Legal := by
  unfold base at h
  split at h
  · cases h
    trivial
  · next c cs =>
    split at h
    · next hc =>
      cases h
      exact word_legal (by rw [String.toList_ofList]; exact nameText_takeWhile hc)
    · split at h
      · next hn =>
        cases h
        rw [Token.Kind.Legal, String.toList_ofList]
        exact numberText_take hn
      · split at h
        · split at h
          · cases h
          · obtain ⟨value, -, hk⟩ := Except.map_eq_ok h
            cases hk
            trivial
        · split at h
          · cases h
            trivial
          · cases h

theorem regex_legal (hline : cs.head? ≠ some '/') (hblock : cs.head? ≠ some '*') (h : regex pos cs = .ok (k, n)) :
    k.Legal := by
  unfold regex at h
  split at h
  · cases h
  · next m hm =>
    cases h
    have hcs := eq_of_regexBody? hm
    have hlen : (cs.take m).length = m := by
      have := congrArg List.length hcs
      simp only [List.length_append, List.length_take, List.length_cons, List.length_drop] at this ⊢
      omega
    refine ⟨⟨?_, ?_, fun rest => ?_⟩, fun d hd => ?_⟩
    · -- an empty body would make a comment of the two slashes
      rw [String.toList_ofList]
      intro hnil
      rw [hnil] at hcs
      exact hline (by rw [hcs]; rfl)
    · rw [String.toList_ofList]
      intro hstar
      apply hblock
      cases cs with
      | nil => cases hm
      | cons c cs =>
        cases m with
        | zero => cases hstar
        | succ m => exact hstar
    · rw [String.toList_ofList, regexBody?_take hm, hlen]
    · rw [String.toList_ofList] at hd
      exact List.mem_takeWhile_imp hd

theorem next_legal (hline : ∀ ds, cs ≠ '/' :: '/' :: ds) (hblock : ∀ ds, cs ≠ '/' :: '*' :: ds)
    (h : Lexed.next (fun _ => none) pos before last cs = .ok (k, n)) : k.Legal := by
  unfold Lexed.next at h
  dsimp only at h
  split at h
  · next rest =>
    split at h
    · refine regex_legal (fun hhead => ?_) (fun hhead => ?_) h
      · cases rest with
        | nil => cases hhead
        | cons d ds => cases hhead; exact hline ds rfl
      · cases rest with
        | nil => cases hhead
        | cons d ds => cases hhead; exact hblock ds rfl
    · exact base_legal h
  · exact base_legal h

/-- What reading on does: it skips blanks and comments, then it is at the end or reads a token. -/
theorem Lexed.readFrom_succ_eq_ok {scan : Scanner} :
    Lexed.readFrom scan (size + 1) pos before last cs = .ok lexed ↔ ∃ gap, Gap.skip pos cs = .ok gap ∧
      (gap.rest = [] ∧ lexed = ⟨[⟨.eof, ⟨gap.pos, 0⟩, gap.newline⟩], gap.comments⟩ ∨
      gap.rest ≠ [] ∧ ∃ k n more, Lexed.next scan gap.pos before last gap.rest = .ok (k, n) ∧
        Lexed.readFrom scan size (gap.pos + byteLength (gap.rest.take n)) last (some k) (gap.rest.drop n) = .ok more ∧
        lexed = ⟨⟨k, ⟨gap.pos, byteLength (gap.rest.take n)⟩, gap.newline⟩ :: more.tokens,
          gap.comments ++ more.comments⟩) := by
  rw [Lexed.readFrom]
  cases hskip : Gap.skip pos cs with
  | error e => exact ⟨nofun, nofun⟩
  | ok gap =>
    change (if gap.rest.isEmpty then Except.ok _ else (Lexed.next scan gap.pos before last gap.rest >>= _)) = _ ↔ _
    cases hrest : gap.rest with
    | nil =>
      constructor
      · intro h
        cases h
        exact ⟨gap, rfl, .inl ⟨hrest, rfl⟩⟩
      · rintro ⟨_, ⟨⟩, ⟨-, rfl⟩ | ⟨hne, -⟩⟩
        · rfl
        · exact absurd hrest hne
    | cons c ds =>
      constructor
      · intro h
        change (Lexed.next scan gap.pos before last (c :: ds) >>= _) = _ at h
        cases hnext : Lexed.next scan gap.pos before last (c :: ds) with
        | error e => rw [hnext] at h; cases h
        | ok r =>
          obtain ⟨k, n⟩ := r
          rw [hnext] at h
          change (Lexed.readFrom scan size (gap.pos + byteLength ((c :: ds).take n)) last (some k)
            ((c :: ds).drop n) >>= _) = _ at h
          cases hmore : Lexed.readFrom scan size (gap.pos + byteLength ((c :: ds).take n)) last (some k)
            ((c :: ds).drop n) with
          | error e => rw [hmore] at h; cases h
          | ok more =>
            rw [hmore] at h
            cases h
            refine ⟨gap, rfl, .inr ⟨by simp [hrest], k, n, more, ?_, ?_, ?_⟩⟩
            · rw [hrest, hnext]
            · rw [hrest, hmore]
            · rw [hrest]
      · rintro ⟨_, ⟨⟩, ⟨hnil, -⟩ | ⟨-, k, n, more, hnext, hmore, rfl⟩⟩
        · rw [hrest] at hnil
          cases hnil
        · rw [hrest] at hnext hmore ⊢
          change (Lexed.next scan gap.pos before last (c :: ds) >>= _) = _
          rw [hnext]
          change (Lexed.readFrom scan size (gap.pos + byteLength ((c :: ds).take n)) last (some k)
            ((c :: ds).drop n) >>= _) = _
          rw [hmore]
          rfl

/-- All that is read of a source is legal. -/
structure Lexed.Legal (lexed : Lexed) : Prop where
  tokens : ∀ t ∈ lexed.tokens, t.kind.Legal
  comments : ∀ c ∈ lexed.comments, c.Legal

/-- Comments are legal whatever the tokens between them are. -/
theorem Lexed.comments_legal {scan : Scanner} (h : Lexed.readFrom scan size pos before last cs = .ok lexed) :
    ∀ c ∈ lexed.comments, c.Legal := by
  induction size generalizing pos before last cs lexed with
  | zero =>
    cases h
    exact nofun
  | succ size ih =>
    obtain ⟨gap, hskip, ⟨-, rfl⟩ | ⟨-, k, n, more, -, hmore, rfl⟩⟩ := Lexed.readFrom_succ_eq_ok.mp h
    · exact (Gap.exact_of_skipFrom (Nat.le_refl _) hskip).comments
    · exact List.forall_mem_append.mpr ⟨(Gap.exact_of_skipFrom (Nat.le_refl _) hskip).comments, ih hmore⟩

theorem Lexed.tokens_legal (h : Lexed.readFrom (fun _ => none) size pos before last cs = .ok lexed) :
    ∀ t ∈ lexed.tokens, t.kind.Legal := by
  induction size generalizing pos before last cs lexed with
  | zero =>
    cases h
    simp [Token.Kind.Legal]
  | succ size ih =>
    obtain ⟨gap, hskip, ⟨-, rfl⟩ | ⟨-, k, n, more, hnext, hmore, rfl⟩⟩ := Lexed.readFrom_succ_eq_ok.mp h
    · simp [Token.Kind.Legal]
    · have hgap := Gap.exact_of_skipFrom (Nat.le_refl _) hskip
      exact List.forall_mem_cons.mpr ⟨next_legal hgap.line hgap.block hnext, ih hmore⟩

theorem Lexed.legal_of_readFrom (h : Lexed.readFrom (fun _ => none) size pos before last cs = .ok lexed) :
    lexed.Legal :=
  ⟨Lexed.tokens_legal h, Lexed.comments_legal h⟩

theorem Grammar.read_nil_eq_ok {source : String} :
    Grammar.read [] source = .ok lexed ↔ Lexed.read (fun _ => none) source = .ok lexed := by
  have hscan : Grammar.scan [] = fun _ => none := rfl
  rw [Grammar.read, hscan]
  cases Lexed.read (fun _ => none) source <;> simp [Except.mapError]

theorem Lexed.legal_of_read {source : String} (h : Grammar.read [] source = .ok lexed) : lexed.Legal :=
  Lexed.legal_of_readFrom (Grammar.read_nil_eq_ok.mp h)

end LabelWeaver
