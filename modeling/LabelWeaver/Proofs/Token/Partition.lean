import LabelWeaver.Label.Scan
import LabelWeaver.Proofs.Token.Legal

/-! Reading a source as tokens and comments loses nothing of it. The text is cut into blanks, comments
    and tokens, one behind the other; where each of them lies, what stands between them and where a
    line ends are read off that cut. No loop of the reader stops because its bound is reached. -/

namespace LabelWeaver

variable {size pos n size' lo hi : Nat} {cs : List Char} {k : Token.Kind} {before last : Option Token.Kind}

/-! ### Places in a text -/

/-- In a text that begins at byte `pos`, the character `c` begins at byte `p`. -/
def CharAt (pos : Nat) (cs : List Char) (p : Nat) (c : Char) : Prop :=
  ∃ before after, cs = before ++ c :: after ∧ p = pos + byteLength before

/-- In a text that begins at byte `pos`, byte `p` lies between two characters or at an end. -/
def Boundary (pos : Nat) (cs : List Char) (p : Nat) : Prop :=
  ∃ before after, cs = before ++ after ∧ p = pos + byteLength before

/-- The byte lies in the span. -/
def Span.Covers (s : Span) (p : Nat) : Prop := s.offset ≤ p ∧ p < s.stop

section Places

variable {p : Nat} {c : Char} {a b : List Char}

theorem charAt_cons {d : Char} {cs : List Char} :
    CharAt pos (d :: cs) p c ↔ p = pos ∧ c = d ∨ CharAt (pos + d.utf8Size) cs p c := by
  constructor
  · rintro ⟨before, after, hcs, rfl⟩
    cases before with
    | nil =>
      cases hcs
      exact .inl ⟨rfl, rfl⟩
    | cons e before =>
      cases hcs
      exact .inr ⟨before, after, rfl, by simp [Nat.add_assoc]⟩
  · rintro (⟨rfl, rfl⟩ | ⟨before, after, rfl, rfl⟩)
    · exact ⟨[], cs, rfl, rfl⟩
    · exact ⟨d :: before, after, rfl, by simp [Nat.add_assoc]⟩

theorem charAt_append : CharAt pos (a ++ b) p c ↔ CharAt pos a p c ∨ CharAt (pos + byteLength a) b p c := by
  induction a generalizing pos with
  | nil => simp [CharAt]
  | cons d a ih => rw [List.cons_append, charAt_cons, charAt_cons, ih, or_assoc, byteLength_cons, Nat.add_assoc]

theorem CharAt.bounds (h : CharAt pos a p c) : pos ≤ p ∧ p < pos + byteLength a := by
  obtain ⟨before, after, rfl, rfl⟩ := h
  have := c.utf8Size_pos
  simp only [byteLength_append, byteLength_cons]
  omega

theorem CharAt.mem (h : CharAt pos a p c) : c ∈ a := by
  obtain ⟨before, after, rfl, -⟩ := h
  simp

theorem exists_charAt (pos : Nat) (h : c ∈ a) : ∃ p, CharAt pos a p c := by
  obtain ⟨before, after, rfl⟩ := List.append_of_mem h
  exact ⟨_, before, after, rfl, rfl⟩

theorem Boundary.start : Boundary pos a pos := ⟨[], a, rfl, rfl⟩

theorem Boundary.append_left (h : Boundary pos a p) (b : List Char) : Boundary pos (a ++ b) p := by
  obtain ⟨before, after, rfl, rfl⟩ := h
  exact ⟨before, after ++ b, List.append_assoc .., rfl⟩

theorem Boundary.append_right (h : Boundary (pos + byteLength a) b p) : Boundary pos (a ++ b) p := by
  obtain ⟨before, after, rfl, rfl⟩ := h
  exact ⟨a ++ before, after, (List.append_assoc ..).symm, by rw [byteLength_append, Nat.add_assoc]⟩

theorem Boundary.stop : Boundary pos a (pos + byteLength a) := ⟨a, [], (List.append_nil a).symm, rfl⟩

theorem byteLength_pos (h : a ≠ []) : 0 < byteLength a := by
  have := length_le_byteLength a
  have := List.length_pos_iff.mpr h
  omega

end Places

/-! ### The cut -/

/-- A text between two tokens, with its comments and whether it ends a line: blanks, line breaks and
    comments one behind the other. A comment that goes over several lines ends a line. -/
inductive Gap.Cut : Nat → List Char → List Comment → Bool → Prop where
  | nil {pos : Nat} : Cut pos [] [] false
  | blank {pos : Nat} {c : Char} {cs : List Char} {found : List Comment} {newline : Bool}
      (hc : isBlank c = true) (h : Cut (pos + c.utf8Size) cs found newline) : Cut pos (c :: cs) found newline
  | lineBreak {pos : Nat} {c : Char} {cs : List Char} {found : List Comment} {newline : Bool}
      (hc : isLineBreak c = true) (h : Cut (pos + c.utf8Size) cs found newline) : Cut pos (c :: cs) found true
  | comment {pos : Nat} {c : Comment} {text cs : List Char} {found : List Comment} {newline : Bool}
      (hspan : c.span = ⟨pos, byteLength text⟩) (htext : text ≠ [])
      (h : Cut (pos + byteLength text) cs found newline) :
      Cut pos (text ++ cs) (c :: found) (text.contains '\n' || newline)

/-- A text with its tokens and comments: gaps and tokens in turn, the end of input last. -/
inductive Lexed.Cut : Nat → List Char → Lexed → Prop where
  | last {pos : Nat} {cs : List Char} {found : List Comment} {newline : Bool}
      (h : Gap.Cut pos cs found newline) : Cut pos cs ⟨[⟨.eof, ⟨pos + byteLength cs, 0⟩, newline⟩], found⟩
  | token {pos : Nat} {gap text rest : List Char} {found : List Comment} {newline : Bool} {k : Token.Kind}
      {more : Lexed} (hgap : Gap.Cut pos gap found newline) (htext : text ≠ []) (hk : k ≠ .eof)
      (h : Cut (pos + byteLength gap + byteLength text) rest more) :
      Cut pos (gap ++ (text ++ rest))
        ⟨⟨k, ⟨pos + byteLength gap, byteLength text⟩, newline⟩ :: more.tokens, found ++ more.comments⟩

theorem Gap.cut_of_skipFrom {gap : Gap} (h : Gap.skipFrom size pos cs = .ok gap) :
    ∃ skipped, cs = skipped ++ gap.rest ∧ gap.pos = pos + byteLength skipped ∧
      Gap.Cut pos skipped gap.comments gap.newline := by
  fun_induction Gap.skipFrom size pos cs generalizing gap with
  | case1 pos cs =>
    cases h
    exact ⟨[], rfl, rfl, .nil⟩
  | case2 size pos cs body =>
    rename_i ih
    obtain ⟨g, hg, rfl⟩ := Except.map_eq_ok h
    obtain ⟨skipped, hcs, hpos, hcut⟩ := ih hg
    have hbody : cs = body ++ cs.drop body.length :=
      (List.prefix_iff_eq_append.mp (List.takeWhile_prefix _)).symm
    have hwidth : byteLength ('/' :: '/' :: body) = 2 + byteLength body := by
      have hslash : '/'.utf8Size = 1 := rfl
      simp only [byteLength_cons, hslash]
      omega
    have hlines : ('/' :: '/' :: body).contains '\n' = false := by
      have hall : ∀ d ∈ body, d ≠ '\n' := fun d hd => by simpa using List.mem_takeWhile_imp hd
      simpa using fun hd => hall _ hd rfl
    refine ⟨'/' :: '/' :: body ++ skipped, ?_, ?_, ?_⟩
    · rw [List.append_assoc]
      exact congrArg (fun ds => '/' :: '/' :: ds) (hbody.trans (congrArg (body ++ ·) hcs))
    · rw [byteLength_append, hwidth]
      exact hpos.trans (by omega)
    · have := @Gap.Cut.comment pos (lineComment pos body) ('/' :: '/' :: body) skipped _ _
        (by rw [hwidth]; rfl) (List.cons_ne_nil _ _) (by rw [hwidth, ← Nat.add_assoc]; exact hcut)
      rwa [hlines] at this
  | case3 size pos cs hnone => cases h
  | case4 size pos cs n hn body =>
    rename_i ih
    obtain ⟨g, hg, rfl⟩ := Except.map_eq_ok h
    obtain ⟨skipped, hcs, hpos, hcut⟩ := ih hg
    have hwidth : byteLength ('/' :: '*' :: (body ++ ['*', '/'])) = 4 + byteLength body := by
      have hslash : '/'.utf8Size = 1 := rfl
      have hstar : '*'.utf8Size = 1 := rfl
      simp only [byteLength_cons, byteLength_append, byteLength_nil, hslash, hstar]
      omega
    have hlines : ('/' :: '*' :: (body ++ ['*', '/'])).contains '\n' = body.contains '\n' := by
      simp
    refine ⟨'/' :: '*' :: (body ++ ['*', '/']) ++ skipped, ?_, ?_, ?_⟩
    · have hrest : cs = body ++ '*' :: '/' :: (skipped ++ g.rest) := hcs ▸ eq_of_blockBody? hn
      rw [hrest]
      simp [after]
    · rw [byteLength_append, hwidth]
      exact hpos.trans (by omega)
    · have := @Gap.Cut.comment pos (blockComment pos body) ('/' :: '*' :: (body ++ ['*', '/'])) skipped _ _
        (by rw [hwidth]; rfl) (List.cons_ne_nil _ _) (by rw [hwidth, ← Nat.add_assoc]; exact hcut)
      rwa [hlines] at this
  | case5 size pos c cs _ _ hc ih =>
    obtain ⟨g, hg, rfl⟩ := Except.map_eq_ok h
    obtain ⟨skipped, hcs, hpos, hcut⟩ := ih hg
    refine ⟨c :: skipped, congrArg (c :: ·) hcs, ?_, .lineBreak hc hcut⟩
    rw [byteLength_cons, ← Nat.add_assoc]
    exact hpos
  | case6 size pos c cs _ _ _ hc ih =>
    obtain ⟨skipped, hcs, hpos, hcut⟩ := ih h
    refine ⟨c :: skipped, congrArg (c :: ·) hcs, ?_, .blank hc hcut⟩
    rw [byteLength_cons, ← Nat.add_assoc]
    exact hpos
  | case7 size pos c cs =>
    cases h
    exact ⟨[], rfl, rfl, .nil⟩
  | case8 =>
    cases h
    exact ⟨[], rfl, rfl, .nil⟩

/-! ### Progress -/

/-- What a scanner finds is a token of at least one character, and not the end of input. -/
def Scanner.Progresses (scan : Scanner) : Prop := ∀ cs k n, scan cs = some (k, n) → 0 < n ∧ k ≠ .eof

theorem Scanner.progresses_none : Scanner.Progresses fun _ => none := nofun

theorem Label.scanWord_progresses (h : Label.scanWord cs = some (k, n)) : 0 < n ∧ k ≠ .eof := by
  obtain ⟨w, -, hw⟩ := List.exists_of_findSome?_eq_some h
  split at hw
  · split at hw
    · cases hw
    · cases hw
      exact ⟨by cases w <;> decide, nofun⟩
  · cases hw

theorem Label.scanMarker_progresses (h : Label.scanMarker cs = some (k, n)) : 0 < n ∧ k ≠ .eof := by
  obtain ⟨m, -, hm⟩ := List.exists_of_findSome?_eq_some h
  split at hm
  · split at hm
    · cases hm
      exact ⟨by cases m <;> decide, nofun⟩
    · cases hm
  · cases hm

theorem Label.scan_progresses : Scanner.Progresses Label.scan := by
  intro cs k n h
  unfold Label.scan at h
  split at h
  · cases h
    exact ⟨Nat.succ_pos _, nofun⟩
  · cases h
    exact ⟨Nat.succ_pos _, nofun⟩
  · exact Label.scanMarker_progresses h
  · exact Label.scanWord_progresses h

theorem Lexeme.word_ne_eof (text : String) : Lexeme.word text ≠ .eof := by
  unfold Lexeme.word
  split <;> nofun

theorem Lexeme.base_progresses (hne : cs ≠ []) (h : Lexeme.base pos cs = .ok (k, n)) : 0 < n ∧ k ≠ .eof := by
  unfold Lexeme.base at h
  split at h
  · exact absurd rfl hne
  · split at h
    · next hc =>
      cases h
      rw [List.takeWhile_cons_of_pos (isIdentPart_of_isIdentStart hc)]
      exact ⟨Nat.succ_pos _, Lexeme.word_ne_eof _⟩
    · split at h
      · next hn =>
        cases h
        exact ⟨Nat.pos_of_ne_zero hn, nofun⟩
      · split at h
        · split at h
          · cases h
          · obtain ⟨value, -, hk⟩ := Except.map_eq_ok h
            cases hk
            exact ⟨Nat.succ_pos _, nofun⟩
        · split at h
          · next p _ =>
            cases h
            exact ⟨by cases p <;> decide, nofun⟩
          · cases h

theorem Lexeme.regex_progresses (h : Lexeme.regex pos cs = .ok (k, n)) : 0 < n ∧ k ≠ .eof := by
  unfold Lexeme.regex at h
  split at h
  · cases h
  · cases h
    exact ⟨by omega, nofun⟩

variable {scan : Scanner}

theorem Lexed.next_progresses (hscan : scan.Progresses) (hne : cs ≠ [])
    (h : Lexed.next scan pos before last cs = .ok (k, n)) : 0 < n ∧ k ≠ .eof := by
  unfold Lexed.next at h
  split at h
  · next hit hfound =>
    cases h
    exact hscan _ _ _ hfound
  · split at h
    · split at h
      · exact Lexeme.regex_progresses h
      · exact Lexeme.base_progresses hne h
    · exact Lexeme.base_progresses hne h

theorem Gap.length_rest_le {gap : Gap} (h : Gap.skip pos cs = .ok gap) : gap.rest.length ≤ cs.length := by
  obtain ⟨skipped, hcs, -⟩ := Gap.cut_of_skipFrom h
  rw [hcs, List.length_append]
  omega

theorem Lexed.cut_of_readFrom (hscan : scan.Progresses) {lexed : Lexed} (hsize : cs.length ≤ size)
    (h : Lexed.readFrom scan size pos before last cs = .ok lexed) : Lexed.Cut pos cs lexed := by
  induction size generalizing pos before last cs lexed with
  | zero =>
    cases List.length_eq_zero_iff.mp (Nat.le_zero.mp hsize)
    cases h
    exact .last .nil
  | succ size ih =>
    obtain ⟨gap, hskip, hread⟩ := Lexed.readFrom_succ_eq_ok.mp h
    obtain ⟨skipped, hcs, hpos, hcut⟩ := Gap.cut_of_skipFrom hskip
    rcases hread with ⟨hnil, rfl⟩ | ⟨hne, k, n, more, hnext, hmore, rfl⟩
    · rw [hnil, List.append_nil] at hcs
      rw [hpos, hcs]
      exact .last hcut
    · obtain ⟨hn, hk⟩ := Lexed.next_progresses hscan hne hnext
      have hlen := Gap.length_rest_le hskip
      have htext : gap.rest.take n ≠ [] := by
        rw [Ne, List.take_eq_nil_iff]
        rintro (h0 | hnil)
        · omega
        · exact hne hnil
      have hshort : (gap.rest.drop n).length ≤ size := by
        rw [List.length_drop]
        have := List.length_pos_iff.mpr hne
        omega
      have hrest := ih hshort hmore
      rw [hpos] at hrest
      have htoken := Lexed.Cut.token hcut htext hk hrest
      rw [List.take_append_drop, ← hcs, ← hpos] at htoken
      exact htoken

/-! ### The bounds of the loops -/

theorem Gap.skipFrom_eq (hsize : cs.length ≤ size) (hsize' : cs.length ≤ size') :
    Gap.skipFrom size pos cs = Gap.skipFrom size' pos cs := by
  fun_induction Gap.skipFrom size pos cs generalizing size' with
  | case1 pos cs =>
    cases List.length_eq_zero_iff.mp (Nat.le_zero.mp hsize)
    cases size' <;> rfl
  | case8 => cases size' <;> rfl
  | case2 size pos cs body =>
    rename_i ih
    obtain ⟨size', rfl⟩ := Nat.exists_eq_add_one_of_ne_zero (Nat.ne_zero_of_lt hsize')
    have hmore : Gap.skipFrom size _ _ = Gap.skipFrom size' _ _ :=
      ih (by simp at hsize ⊢; omega) (by simp at hsize' ⊢; omega)
    rw [Gap.skipFrom, hmore]
  | case3 size pos cs hnone =>
    obtain ⟨size', rfl⟩ := Nat.exists_eq_add_one_of_ne_zero (Nat.ne_zero_of_lt hsize')
    rw [Gap.skipFrom, hnone]
  | case4 size pos cs n hn body =>
    rename_i ih
    obtain ⟨size', rfl⟩ := Nat.exists_eq_add_one_of_ne_zero (Nat.ne_zero_of_lt hsize')
    have hmore : Gap.skipFrom size _ _ = Gap.skipFrom size' _ _ :=
      ih (by simp at hsize ⊢; omega) (by simp at hsize' ⊢; omega)
    rw [Gap.skipFrom, hn, hmore]
  | case5 size pos c cs hline hblock hc ih =>
    obtain ⟨size', rfl⟩ := Nat.exists_eq_add_one_of_ne_zero (Nat.ne_zero_of_lt hsize')
    rw [Gap.skipFrom, if_pos hc, ih (by simpa using hsize) (by simpa using hsize')]
    · exact hline
    · exact hblock
  | case6 size pos c cs hline hblock hc hc' ih =>
    obtain ⟨size', rfl⟩ := Nat.exists_eq_add_one_of_ne_zero (Nat.ne_zero_of_lt hsize')
    rw [Gap.skipFrom, if_neg hc, if_pos hc', ih (by simpa using hsize) (by simpa using hsize')]
    · exact hline
    · exact hblock
  | case7 size pos c cs hline hblock hc hc' =>
    obtain ⟨size', rfl⟩ := Nat.exists_eq_add_one_of_ne_zero (Nat.ne_zero_of_lt hsize')
    rw [Gap.skipFrom, if_neg hc, if_neg hc']
    · exact hline
    · exact hblock

theorem Literal.unescapeFrom_eq {offset : Nat} (hsize : cs.length ≤ size) (hsize' : cs.length ≤ size') :
    Literal.unescapeFrom size offset cs = Literal.unescapeFrom size' offset cs := by
  fun_induction Literal.unescapeFrom size offset cs generalizing size' with
  | case1 offset cs =>
    cases List.length_eq_zero_iff.mp (Nat.le_zero.mp hsize)
    cases size' <;> rfl
  | case2 => cases size' <;> rfl
  | case3 size offset cs fault width herror =>
    obtain ⟨size', rfl⟩ := Nat.exists_eq_add_one_of_ne_zero (Nat.ne_zero_of_lt hsize')
    rw [Literal.unescapeFrom, herror]
  | case4 size offset cs c n hok ih =>
    obtain ⟨size', rfl⟩ := Nat.exists_eq_add_one_of_ne_zero (Nat.ne_zero_of_lt hsize')
    have hmore : Literal.unescapeFrom size _ _ = Literal.unescapeFrom size' _ _ :=
      ih (by simp at hsize ⊢; omega) (by simp at hsize' ⊢; omega)
    rw [Literal.unescapeFrom, hok, hmore]
  | case5 size offset c cs hc ih =>
    obtain ⟨size', rfl⟩ := Nat.exists_eq_add_one_of_ne_zero (Nat.ne_zero_of_lt hsize')
    rw [Literal.unescapeFrom, ih (by simpa using hsize) (by simpa using hsize')]
    exact hc

theorem Lexed.readFrom_eq (hscan : scan.Progresses) (hsize : cs.length ≤ size) (hsize' : cs.length ≤ size') :
    Lexed.readFrom scan size pos before last cs = Lexed.readFrom scan size' pos before last cs := by
  induction size generalizing size' pos before last cs with
  | zero =>
    cases List.length_eq_zero_iff.mp (Nat.le_zero.mp hsize)
    cases size' <;> rfl
  | succ size ih =>
    cases size' with
    | zero =>
      cases List.length_eq_zero_iff.mp (Nat.le_zero.mp hsize')
      rfl
    | succ size' =>
      rw [Lexed.readFrom, Lexed.readFrom]
      cases hskip : Gap.skip pos cs with
      | error e => rfl
      | ok gap =>
        change (if gap.rest.isEmpty then Except.ok _ else _) = (if gap.rest.isEmpty then Except.ok _ else _)
        split
        · rfl
        · next hne =>
          have hrest : gap.rest ≠ [] := by simpa using hne
          have hlen := Gap.length_rest_le hskip
          have hpos := List.length_pos_iff.mpr hrest
          change (Lexed.next scan gap.pos before last gap.rest >>= _) = (Lexed.next scan gap.pos before last gap.rest >>= _)
          cases hnext : Lexed.next scan gap.pos before last gap.rest with
          | error e => rfl
          | ok r =>
            obtain ⟨k, n⟩ := r
            have hn := (Lexed.next_progresses hscan hrest hnext).1
            have hmore : Lexed.readFrom scan size (gap.pos + byteLength (gap.rest.take n)) last (some k) (gap.rest.drop n) =
                Lexed.readFrom scan size' (gap.pos + byteLength (gap.rest.take n)) last (some k) (gap.rest.drop n) :=
              ih (by rw [List.length_drop]; omega) (by rw [List.length_drop]; omega)
            exact congrArg (· >>= fun more : Lexed => Except.ok
              (⟨⟨k, ⟨gap.pos, byteLength (gap.rest.take n)⟩, gap.newline⟩ :: more.tokens,
                gap.comments ++ more.comments⟩ : Lexed)) hmore

/-! ### Where tokens and comments lie -/

/-- The ranges of the tokens, the end of input apart, and of the comments, merged by where they begin. -/
def Lexed.segments (lexed : Lexed) : List Span :=
  List.merge ((lexed.tokens.filter (·.kind != .eof)).map Token.span) (lexed.comments.map Comment.span)
    fun a b => decide (a.offset ≤ b.offset)

/-- The spans are not empty and lie one behind the other between two bytes. -/
def InOrder (lo hi : Nat) : List Span → Prop
  | [] => lo ≤ hi
  | s :: ss => lo ≤ s.offset ∧ 0 < s.length ∧ InOrder s.stop hi ss

theorem InOrder.append {mid : Nat} {a b : List Span} (ha : InOrder lo mid a) (hb : InOrder mid hi b) :
    InOrder lo hi (a ++ b) := by
  induction a generalizing lo with
  | nil =>
    cases b with
    | nil => exact Nat.le_trans ha hb
    | cons s ss => exact ⟨Nat.le_trans ha hb.1, hb.2⟩
  | cons s a ih => exact ⟨ha.1, ha.2.1, ih ha.2.2⟩

theorem InOrder.bounds {ss : List Span} (h : InOrder lo hi ss) :
    ∀ s ∈ ss, lo ≤ s.offset ∧ 0 < s.length ∧ s.stop ≤ hi := by
  induction ss generalizing lo with
  | nil => nofun
  | cons s ss ih =>
    obtain ⟨hlo, hpos, hrest⟩ := h
    have htail := ih hrest
    refine List.forall_mem_cons.mpr ⟨⟨hlo, hpos, ?_⟩, fun r hr => ?_⟩
    · cases ss with
      | nil => exact hrest
      | cons r ss =>
        have := htail r List.mem_cons_self
        have := r.offset_le_stop
        omega
    · have := htail r hr
      have := s.offset_le_stop
      omega

theorem InOrder.pairwise {ss : List Span} (h : InOrder lo hi ss) : ss.Pairwise fun a b => a.stop ≤ b.offset := by
  induction ss generalizing lo with
  | nil => exact .nil
  | cons s ss ih => exact .cons (fun r hr => (h.2.2.bounds r hr).1) (ih h.2.2)

theorem merge_append_of_lt {found ts cs : List Span} (h : ∀ a ∈ found, ∀ b ∈ ts, a.offset < b.offset) :
    List.merge ts (found ++ cs) (fun a b => decide (a.offset ≤ b.offset)) =
      found ++ List.merge ts cs fun a b => decide (a.offset ≤ b.offset) := by
  induction found with
  | nil => rfl
  | cons a found ih =>
    cases ts with
    | nil => simp
    | cons t ts =>
      have hlt := h a List.mem_cons_self t List.mem_cons_self
      rw [List.cons_append, List.cons_merge_cons, if_neg (by simpa using hlt),
        ih fun b hb => h b (List.mem_cons_of_mem _ hb)]
      rfl

theorem merge_cons_of_le {t : Span} {ts cs : List Span} (h : ∀ b ∈ cs, t.offset ≤ b.offset) :
    List.merge (t :: ts) cs (fun a b => decide (a.offset ≤ b.offset)) =
      t :: List.merge ts cs fun a b => decide (a.offset ≤ b.offset) := by
  cases cs with
  | nil => simp
  | cons c cs => rw [List.cons_merge_cons, if_pos (by simpa using h c List.mem_cons_self)]

section Cut
variable {c : Char} {found : List Comment} {newline : Bool} {lexed : Lexed}

theorem Gap.Cut.inOrder (h : Gap.Cut pos cs found newline) :
    InOrder pos (pos + byteLength cs) (found.map Comment.span) := by
  induction h with
  | nil => exact Nat.le_refl _
  | @blank pos c cs found newline hc h ih | @lineBreak pos c cs found newline hc h ih =>
    rw [byteLength_cons, ← Nat.add_assoc]
    exact InOrder.append (a := []) (Nat.le_add_right _ _) ih
  | @comment pos c text cs found newline hspan htext h ih =>
    rw [List.map_cons, hspan, byteLength_append, ← Nat.add_assoc]
    exact ⟨Nat.le_refl _, byteLength_pos htext, ih⟩

/-- Nothing lies before the text. -/
theorem Lexed.Cut.le_offset (h : Lexed.Cut pos cs lexed) :
    (∀ t ∈ lexed.tokens, pos ≤ t.span.offset) ∧ ∀ c ∈ lexed.comments, pos ≤ c.span.offset := by
  induction h with
  | @last pos cs found newline h =>
    refine ⟨fun t ht => ?_, fun c hc => (h.inOrder.bounds _ (List.mem_map_of_mem hc)).1⟩
    cases List.mem_singleton.mp ht
    exact Nat.le_add_right _ _
  | @token pos gap text rest found newline k more hgap htext hk h ih =>
    constructor
    · refine List.forall_mem_cons.mpr ⟨Nat.le_add_right _ _, fun t ht => ?_⟩
      have := ih.1 t ht
      omega
    · intro c hc
      rcases List.mem_append.mp hc with hc | hc
      · exact (hgap.inOrder.bounds _ (List.mem_map_of_mem hc)).1
      · have := ih.2 c hc
        omega

theorem Lexed.segments_last {eof : Token} (h : eof.kind = .eof) :
    Lexed.segments ⟨[eof], found⟩ = found.map Comment.span := by
  simp [Lexed.segments, h]

theorem Lexed.segments_token {t : Token} {more : Lexed} (ht : t.kind ≠ .eof)
    (hfound : InOrder pos t.span.offset (found.map Comment.span)) (hmore : Lexed.Cut t.span.stop cs more) :
    Lexed.segments ⟨t :: more.tokens, found ++ more.comments⟩ =
      found.map Comment.span ++ t.span :: more.segments := by
  have hstop := t.span.offset_le_stop
  rw [Lexed.segments, List.filter_cons_of_pos (by simpa using ht), List.map_cons, List.map_append,
    merge_append_of_lt, merge_cons_of_le]
  · rfl
  · rintro _ hb
    obtain ⟨c, hc, rfl⟩ := List.mem_map.mp hb
    exact Nat.le_trans hstop (hmore.le_offset.2 c hc)
  · intro a ha b hb
    have hbefore := hfound.bounds a ha
    have hlt : a.offset < t.span.offset := by
      have : a.stop = a.offset + a.length := rfl
      omega
    rcases List.mem_cons.mp hb with rfl | hb
    · exact hlt
    · obtain ⟨u, hu, rfl⟩ := List.mem_map.mp hb
      have := hmore.le_offset.1 u (List.mem_filter.mp hu).1
      omega

theorem Lexed.Cut.inOrder (h : Lexed.Cut pos cs lexed) : InOrder pos (pos + byteLength cs) lexed.segments := by
  induction h with
  | last h =>
    rw [Lexed.segments_last rfl]
    exact h.inOrder
  | @token pos gap text rest found newline k more hgap htext hk h ih =>
    rw [Lexed.segments_token (t := ⟨k, ⟨pos + byteLength gap, byteLength text⟩, newline⟩) hk hgap.inOrder h,
      byteLength_append, byteLength_append, ← Nat.add_assoc, ← Nat.add_assoc]
    exact hgap.inOrder.append ⟨Nat.le_refl _, byteLength_pos htext, ih⟩

theorem Gap.Cut.boundary (h : Gap.Cut pos cs found newline) :
    ∀ c ∈ found, Boundary pos cs c.span.offset ∧ Boundary pos cs c.span.stop := by
  induction h with
  | nil => nofun
  | @blank pos c cs found newline hc h ih | @lineBreak pos c cs found newline hc h ih =>
    intro k hk
    have hshift : ∀ p, Boundary (pos + c.utf8Size) cs p → Boundary pos (c :: cs) p := fun p hp =>
      Boundary.append_right (a := [c]) (by simpa using hp)
    exact (ih k hk).imp (hshift _) (hshift _)
  | @comment pos c text cs found newline hspan htext h ih =>
    refine List.forall_mem_cons.mpr ⟨?_, fun k hk => (ih k hk).imp .append_right .append_right⟩
    rw [hspan]
    exact ⟨.start, .append_left .stop cs⟩

theorem Lexed.Cut.boundary (h : Lexed.Cut pos cs lexed) :
    ∀ s ∈ lexed.segments, Boundary pos cs s.offset ∧ Boundary pos cs s.stop := by
  induction h with
  | last h =>
    rw [Lexed.segments_last rfl]
    exact List.forall_mem_map.mpr h.boundary
  | @token pos gap text rest found newline k more hgap htext hk h ih =>
    rw [Lexed.segments_token (t := ⟨k, ⟨pos + byteLength gap, byteLength text⟩, newline⟩) hk hgap.inOrder h]
    intro s hs
    rcases List.mem_append.mp hs with hs | hs
    · obtain ⟨c, hc, rfl⟩ := List.mem_map.mp hs
      exact (hgap.boundary c hc).imp (·.append_left _) (·.append_left _)
    · rcases List.mem_cons.mp hs with rfl | hs
      · exact ⟨.append_left .stop _, .append_right (.append_left .stop _)⟩
      · exact (ih s hs).imp (.append_right ∘ .append_right) (.append_right ∘ .append_right)

/-! ### What stands between them -/

/-- The characters that separate tokens and comments. -/
def blanks : List Char :=
  [' ', '\t', '\r', '\n', '\x0b', '\x0c', '\u00a0', '\ufeff', '\u2028', '\u2029']

theorem mem_blanks_of_isBlank (h : Gap.isBlank c = true) : c ∈ blanks := by
  simp only [Gap.isBlank, Bool.or_eq_true, beq_iff_eq] at h
  rcases h with (((((rfl | rfl) | rfl) | rfl) | rfl) | rfl) | rfl <;> decide

theorem Gap.isLineBreak_iff : Gap.isLineBreak c = true ↔ c = '\n' ∨ c = '\u2028' ∨ c = '\u2029' := by
  simp [Gap.isLineBreak, or_assoc]

theorem mem_blanks_of_isLineBreak (h : Gap.isLineBreak c = true) : c ∈ blanks := by
  rcases Gap.isLineBreak_iff.mp h with rfl | rfl | rfl <;> decide

theorem Gap.Cut.blank_or_covered (h : Gap.Cut pos cs found newline) {p : Nat} (hc : CharAt pos cs p c) :
    c ∈ blanks ∨ ∃ k ∈ found, k.span.Covers p := by
  induction h with
  | nil => exact absurd hc.mem List.not_mem_nil
  | blank hblank h ih =>
    rcases charAt_cons.mp hc with ⟨-, rfl⟩ | hc
    · exact .inl (mem_blanks_of_isBlank hblank)
    · exact ih hc
  | lineBreak hbreak h ih =>
    rcases charAt_cons.mp hc with ⟨-, rfl⟩ | hc
    · exact .inl (mem_blanks_of_isLineBreak hbreak)
    · exact ih hc
  | @comment pos k text cs found newline hspan htext h ih =>
    rcases charAt_append.mp hc with hc | hc
    · refine .inr ⟨k, List.mem_cons_self, ?_⟩
      rw [hspan]
      exact hc.bounds
    · exact (ih hc).imp_right fun ⟨k, hk, hcovers⟩ => ⟨k, List.mem_cons_of_mem _ hk, hcovers⟩

theorem Lexed.Cut.blank_or_covered (h : Lexed.Cut pos cs lexed) {p : Nat} (hc : CharAt pos cs p c) :
    c ∈ blanks ∨ ∃ s ∈ lexed.segments, s.Covers p := by
  induction h with
  | last h =>
    rw [Lexed.segments_last rfl]
    simpa using h.blank_or_covered hc
  | @token pos gap text rest found newline k more hgap htext hk h ih =>
    rw [Lexed.segments_token (t := ⟨k, ⟨pos + byteLength gap, byteLength text⟩, newline⟩) hk hgap.inOrder h]
    rcases charAt_append.mp hc with hc | hc
    · refine (hgap.blank_or_covered hc).imp_right fun ⟨k, hk, hcovers⟩ => ?_
      exact ⟨k.span, List.mem_append_left _ (List.mem_map_of_mem hk), hcovers⟩
    · rcases charAt_append.mp hc with hc | hc
      · exact .inr ⟨_, List.mem_append_right _ List.mem_cons_self, hc.bounds⟩
      · refine (ih hc).imp_right fun ⟨s, hs, hcovers⟩ => ?_
        exact ⟨s, List.mem_append_right _ (List.mem_cons_of_mem _ hs), hcovers⟩

/-! ### Line breaks -/

/-- The character ends a line: a line feed does so wherever it stands, the separators of Unicode only
    outside comments. -/
def EndsLine (comments : List Comment) (p : Nat) (c : Char) : Prop :=
  c = '\n' ∨ (c = '\u2028' ∨ c = '\u2029') ∧ ∀ k ∈ comments, ¬k.span.Covers p

theorem Gap.Cut.newline_iff (h : Gap.Cut pos cs found newline) :
    newline = true ↔ ∃ p c, CharAt pos cs p c ∧ EndsLine found p c := by
  induction h with
  | nil =>
    refine ⟨nofun, ?_⟩
    rintro ⟨p, c, hc, -⟩
    exact absurd hc.mem List.not_mem_nil
  | @blank pos c cs found newline hblank h ih =>
    rw [ih]
    constructor
    · rintro ⟨p, d, hd, hends⟩
      exact ⟨p, d, charAt_cons.mpr (.inr hd), hends⟩
    · rintro ⟨p, d, hd, hends⟩
      rcases charAt_cons.mp hd with ⟨-, rfl⟩ | hd
      · have hbreak : Gap.isLineBreak d = true := Gap.isLineBreak_iff.mpr (hends.imp_right And.left)
        rcases Gap.isLineBreak_iff.mp hbreak with rfl | rfl | rfl <;> cases hblank
      · exact ⟨p, d, hd, hends⟩
  | @lineBreak pos c cs found newline hbreak h ih =>
    refine iff_of_true rfl ⟨pos, c, charAt_cons.mpr (.inl ⟨rfl, rfl⟩), ?_⟩
    refine (Gap.isLineBreak_iff.mp hbreak).imp_right fun hc => ⟨hc, fun k hk hcovers => ?_⟩
    have hlo := (h.inOrder.bounds _ (List.mem_map_of_mem hk)).1
    have hpos := c.utf8Size_pos
    have hle := hcovers.1
    omega
  | @comment pos k text cs found newline hspan htext h ih =>
    have hcovers : ∀ p, k.span.Covers p ↔ pos ≤ p ∧ p < pos + byteLength text := fun p => by
      rw [hspan]
      rfl
    rw [Bool.or_eq_true, ih, List.contains_iff_mem]
    constructor
    · rintro (hmem | ⟨p, c, hc, hends⟩)
      · obtain ⟨p, hp⟩ := exists_charAt pos hmem
        exact ⟨p, '\n', charAt_append.mpr (.inl hp), .inl rfl⟩
      · refine ⟨p, c, charAt_append.mpr (.inr hc), hends.imp_right fun ⟨hsep, hout⟩ => ⟨hsep, ?_⟩⟩
        refine List.forall_mem_cons.mpr ⟨fun hin => ?_, hout⟩
        have hlo := hc.bounds.1
        have hhi := ((hcovers p).mp hin).2
        omega
    · rintro ⟨p, c, hc, hends⟩
      rcases charAt_append.mp hc with hc | hc
      · rcases hends with rfl | ⟨-, hout⟩
        · exact .inl hc.mem
        · exact absurd ((hcovers p).mpr hc.bounds) (hout k List.mem_cons_self)
      · refine .inr ⟨p, c, hc, hends.imp_right fun ⟨hsep, hout⟩ => ⟨hsep, fun k hk => ?_⟩⟩
        exact hout k (List.mem_cons_of_mem _ hk)

/-- Where the last of the tokens ends, or `pos` if there is none. -/
def stopOf (pos : Nat) (before : List Token) : Nat := (before.getLast?.map (·.span.stop)).getD pos

theorem stopOf_cons (pos : Nat) (t : Token) (before : List Token) :
    stopOf pos (t :: before) = stopOf t.span.stop before := by
  cases before with
  | nil => rfl
  | cons u before =>
    rw [stopOf, List.getLast?_cons_cons, stopOf, List.getLast?_cons]
    rfl

theorem le_stopOf {before : List Token} (h : ∀ t ∈ before, pos ≤ t.span.offset) : pos ≤ stopOf pos before := by
  cases hlast : before.getLast? with
  | none => simp [stopOf, hlast]
  | some t =>
    have := h t (List.mem_of_getLast? hlast)
    have := t.span.offset_le_stop
    simp only [stopOf, hlast, Option.map_some, Option.getD_some]
    omega

theorem Lexed.Cut.newline_iff (h : Lexed.Cut pos cs lexed) {before after : List Token} {t : Token}
    (htokens : lexed.tokens = before ++ t :: after) :
    t.newlineBefore = true ↔ ∃ p c, CharAt pos cs p c ∧ stopOf pos before ≤ p ∧ p < t.span.offset ∧
      EndsLine lexed.comments p c := by
  induction h generalizing before with
  | @last pos cs found newline h =>
    obtain ⟨rfl, rfl, -⟩ : before = [] ∧ t = ⟨.eof, ⟨pos + byteLength cs, 0⟩, newline⟩ ∧ after = [] := by
      cases before with
      | nil =>
        cases htokens
        exact ⟨rfl, rfl, rfl⟩
      | cons u before => simp at htokens
    refine h.newline_iff.trans (exists_congr fun p => exists_congr fun c => and_congr_right fun hc => ?_)
    exact ⟨fun hends => ⟨hc.bounds.1, hc.bounds.2, hends⟩, fun hends => hends.2.2⟩
  | @token pos gap text rest found newline k more hgap htext hk h ih =>
    have hwidth := byteLength_pos htext
    cases before with
    | nil =>
      cases htokens
      refine hgap.newline_iff.trans (exists_congr fun p => exists_congr fun c => ?_)
      constructor
      · rintro ⟨hc, hends⟩
        refine ⟨charAt_append.mpr (.inl hc), hc.bounds.1, hc.bounds.2, ?_⟩
        refine hends.imp_right fun ⟨hsep, hout⟩ => ⟨hsep, List.forall_mem_append.mpr ⟨hout, fun k hk hin => ?_⟩⟩
        have hlo := h.le_offset.2 k hk
        have hle := hin.1
        have hhi := hc.bounds.2
        omega
      · rintro ⟨hc, -, hhi, hends⟩
        rcases charAt_append.mp hc with hc | hc
        · exact ⟨hc, hends.imp_right fun ⟨hsep, hout⟩ => ⟨hsep, (List.forall_mem_append.mp hout).1⟩⟩
        · have hlo := hc.bounds.1
          simp only at hhi
          omega
    | cons u before =>
      obtain ⟨rfl, hmore⟩ : _ = u ∧ more.tokens = before ++ t :: after := List.cons.inj htokens
      rw [ih hmore, stopOf_cons]
      have hstop : pos + byteLength gap + byteLength text ≤ stopOf (pos + byteLength gap + byteLength text) before :=
        le_stopOf fun u hu => h.le_offset.1 u (hmore ▸ List.mem_append_left _ hu)
      refine exists_congr fun p => exists_congr fun c => ?_
      constructor
      · rintro ⟨hc, hle, hlt, hends⟩
        refine ⟨charAt_append.mpr (.inr (charAt_append.mpr (.inr hc))), hle, hlt, ?_⟩
        refine hends.imp_right fun ⟨hsep, hout⟩ => ⟨hsep, List.forall_mem_append.mpr ⟨fun k hk hin => ?_, hout⟩⟩
        have hhi := (hgap.inOrder.bounds _ (List.mem_map_of_mem hk)).2.2
        have hin := hin.2
        omega
      · rintro ⟨hc, hle, hlt, hends⟩
        have hstart : pos + byteLength gap + byteLength text ≤ p := Nat.le_trans hstop hle
        refine ⟨?_, hle, hlt, hends.imp_right fun ⟨hsep, hout⟩ => ⟨hsep, (List.forall_mem_append.mp hout).2⟩⟩
        rcases charAt_append.mp hc with hc | hc
        · have := hc.bounds.2
          omega
        · rcases charAt_append.mp hc with hc | hc
          · have := hc.bounds.2
            omega
          · exact hc

theorem Lexed.Cut.tokens_eq (h : Lexed.Cut pos cs lexed) :
    ∃ ts newline, lexed.tokens = ts ++ [⟨.eof, ⟨pos + byteLength cs, 0⟩, newline⟩] ∧ ∀ t ∈ ts, t.kind ≠ .eof := by
  induction h with
  | last h => exact ⟨[], _, rfl, nofun⟩
  | @token pos gap text rest found newline k more hgap htext hk h ih =>
    obtain ⟨ts, newline', htokens, hts⟩ := ih
    refine ⟨⟨k, ⟨pos + byteLength gap, byteLength text⟩, newline⟩ :: ts, newline', ?_,
      List.forall_mem_cons.mpr ⟨hk, hts⟩⟩
    rw [htokens, byteLength_append, byteLength_append, ← Nat.add_assoc, ← Nat.add_assoc]
    rfl

end Cut

/-! ### Whole sources -/

/-- All of a source is accounted for by its tokens and comments. -/
structure Lexed.Accounts (source : String) (lexed : Lexed) : Prop where
  nonempty : ∀ s ∈ lexed.segments, 0 < s.length
  increasing : lexed.segments.Pairwise fun a b => a.stop ≤ b.offset
  boundary : ∀ s ∈ lexed.segments, Boundary 0 source.toList s.offset ∧ Boundary 0 source.toList s.stop
  /-- What no token and no comment covers is blank. -/
  blank : ∀ p c, CharAt 0 source.toList p c → (∀ s ∈ lexed.segments, ¬s.Covers p) → c ∈ blanks
  /-- The end of input comes last, and only there. -/
  last : ∃ ts newline, lexed.tokens = ts ++ [⟨.eof, ⟨byteLength source.toList, 0⟩, newline⟩] ∧
    ∀ t ∈ ts, t.kind ≠ .eof
  /-- A line break stands before a token if one of the characters since the token before it ends a
      line. -/
  newline : ∀ before t after, lexed.tokens = before ++ t :: after →
    (t.newlineBefore = true ↔ ∃ p c, CharAt 0 source.toList p c ∧ stopOf 0 before ≤ p ∧ p < t.span.offset ∧
      EndsLine lexed.comments p c)

theorem Lexed.accounts_of_read (hscan : scan.Progresses) {source : String} {lexed : Lexed}
    (h : Lexed.read scan source = .ok lexed) : lexed.Accounts source := by
  have hcut : Lexed.Cut 0 source.toList lexed := Lexed.cut_of_readFrom hscan (Nat.le_of_eq String.length_toList) h
  refine ⟨fun s hs => (hcut.inOrder.bounds s hs).2.1, hcut.inOrder.pairwise, hcut.boundary, fun p c hc hout => ?_, ?_,
    fun before t after htokens => hcut.newline_iff htokens⟩
  · refine (hcut.blank_or_covered hc).resolve_right ?_
    rintro ⟨s, hs, hcovers⟩
    exact hout s hs hcovers
  · simpa using hcut.tokens_eq

/-- Reading a source ends by itself, in the base language and in the annotation language, and loses
    nothing of it. -/
theorem Lexed.read_total_and_lossless {scan : Scanner} (hscan : scan = (fun _ => none) ∨ scan = Label.scan)
    (source : String) :
    (∀ size, source.length ≤ size →
      Lexed.readFrom scan size 0 none none source.toList = Lexed.read scan source) ∧
    (∀ size pos cs, cs.length ≤ size → Gap.skipFrom size pos cs = Gap.skip pos cs) ∧
    (∀ size offset body, body.length ≤ size →
      Literal.unescapeFrom size offset body = Literal.unescapeFrom body.length offset body) ∧
    ∀ lexed, Lexed.read scan source = .ok lexed → lexed.Accounts source := by
  have hprogress : scan.Progresses := by
    rcases hscan with rfl | rfl
    · exact Scanner.progresses_none
    · exact Label.scan_progresses
  refine ⟨fun size hsize => ?_, fun size pos cs hsize => ?_, fun size offset body hsize => ?_, fun lexed h => ?_⟩
  · exact Lexed.readFrom_eq hprogress (by rwa [String.length_toList]) (Nat.le_of_eq String.length_toList)
  · exact Gap.skipFrom_eq hsize (Nat.le_refl _)
  · exact Literal.unescapeFrom_eq hsize (Nat.le_refl _)
  · exact Lexed.accounts_of_read hprogress h

/-- Two comments, one over two lines, a label list, and characters of more than one byte. -/
theorem Lexed.read_lossless_labelled :
    ∃ lexed, Lexed.read Label.scan "x /* a\n b */ = 'é';\u2028f(y :<!A!>) // end" = .ok lexed ∧
      lexed.tokens.length = 13 ∧ lexed.comments.length = 2 ∧
      lexed.Accounts "x /* a\n b */ = 'é';\u2028f(y :<!A!>) // end" := by
  generalize hsource : "x /* a\n b */ = 'é';\u2028f(y :<!A!>) // end" = source
  have hread : ((Lexed.read Label.scan source).toOption.any fun lexed =>
      lexed.tokens.length == 13 && lexed.comments.length == 2) = true := by
    rw [← hsource]
    decide +kernel
  cases h : Lexed.read Label.scan source with
  | error e => rw [h] at hread; cases hread
  | ok lexed =>
    rw [h] at hread
    have hcounts : lexed.tokens.length = 13 ∧ lexed.comments.length = 2 := by
      simpa [Except.toOption] using hread
    exact ⟨lexed, rfl, hcounts.1, hcounts.2, (Lexed.read_total_and_lossless (.inr rfl) source).2.2.2 lexed h⟩

end LabelWeaver
