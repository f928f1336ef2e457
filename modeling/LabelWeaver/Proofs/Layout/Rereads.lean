import LabelWeaver.Proofs.Token.Partition
import LabelWeaver.Proofs.Token.Spelling
import LabelWeaver.Layout.Render

/-! Written texts are read again. A text of tokens, blanks and comments is read as its tokens, provided that
    every slash in it stands where it has its meaning; otherwise the first slash that does not is read
    with the other meaning, if the text can be read at all. -/

namespace LabelWeaver

open Layout Lexeme

/-! ### Slashes -/

/-- The slashes of a text, in order. -/
def Layout.slashes (ks : Text) : List Token.Kind := (ks.filterMap id).filter Token.Kind.isSlash

/-- Every slash of the text stands where it has its meaning. -/
def Layout.SlashesStand : (before last : Option Token.Kind) → Text → Prop
  | _, _, [] => True
  | before, last, none :: ks => SlashesStand before last ks
  | before, last, some k :: ks => k.standsAfter before last ∧ SlashesStand last (some k) ks

instance (before last : Option Token.Kind) (k : Token.Kind) : Decidable (k.standsAfter before last) :=
  inferInstanceAs (Decidable (_ → _))

instance Layout.decidableSlashesStand (before last : Option Token.Kind) : (ks : Text) → Decidable (SlashesStand before last ks)
  | [] => isTrue trivial
  | none :: ks => decidableSlashesStand before last ks
  | some k :: ks => @instDecidableAnd _ _ _ (decidableSlashesStand last (some k) ks)

section
variable {k : Token.Kind} {ks ks' : Text}

@[simp] theorem Layout.slashes_nil : slashes [] = [] := rfl

@[simp] theorem Layout.slashes_none : slashes (none :: ks) = slashes ks := rfl

@[simp] theorem Layout.slashes_some : slashes (some k :: ks) = if k.isSlash then k :: slashes ks else slashes ks :=
  List.filter_cons

@[simp] theorem Layout.slashes_append : slashes (ks ++ ks') = slashes ks ++ slashes ks' := by
  simp [slashes]

/-- Where no slashes are, all of them stand where they should. -/
theorem Layout.slashesStand_of_nil (h : slashes ks = []) (before last : Option Token.Kind) : SlashesStand before last ks := by
  induction ks generalizing before last with
  | nil => trivial
  | cons k ks ih =>
    cases k with
    | none => exact ih h before last
    | some k =>
      rw [slashes_some] at h
      cases hk : k.isSlash with
      | true => rw [hk] at h; cases h
      | false =>
        rw [hk] at h
        exact ⟨fun hslash => absurd (hk.symm.trans hslash) Bool.false_ne_true, ih h last (some k)⟩

end

/-- The slashes among tokens. -/
def Token.slashes (ts : List Token) : List Token.Kind := (ts.map Token.kind).filter Token.Kind.isSlash

theorem Layout.Fits.slashes {line : Bool} {ts : List Token} {ks : Text} (h : Fits line ts ks) :
    Token.slashes ts = Layout.slashes ks := by
  induction h with
  | eof ht => simp [Token.slashes, ht, Token.Kind.isSlash]
  | line _ ih => exact ih
  | @token _ t ts ks _ _ ih =>
    rw [slashes_some, ← ih]
    exact List.filter_cons

namespace Token.Kind

variable (k : Token.Kind)

theorem asRead_of_isSlash (h : k.isSlash = true) : k.asRead = k := by
  cases k with
  | ident => cases h
  | _ => rfl

theorem isSlash_asRead : k.asRead.isSlash = k.isSlash := by
  cases k with
  | ident x =>
    rw [asRead, word]
    split <;> rfl
  | _ => rfl

theorem standsAfter_asRead {before last : Option Token.Kind} :
    k.asRead.standsAfter before last ↔ k.standsAfter before last := by
  cases hk : k.isSlash with
  | true => rw [asRead_of_isSlash k hk]
  | false => simp [standsAfter, isSlash_asRead, hk]

end Token.Kind

/-! ### One step -/

/-- The tokens behind blanks and comments: the first one may be on a new line. -/
def Lexed.behind (found : List Comment) (newline : Bool) (lexed : Lexed) : Lexed where
  tokens := match lexed.tokens with
    | [] => []
    | t :: ts => { t with newlineBefore := newline || t.newlineBefore } :: ts
  comments := found ++ lexed.comments

section
variable {size pos pos' : Nat} {before last : Option Token.Kind} {cs cs' rest : List Char}

/-- Blanks and comments in front of a text do not change how it is read. -/
theorem Lexed.readFrom_gap {scan : Scanner} {found : List Comment} {newline : Bool}
    (h : Gap.skip pos cs = (Gap.skip pos' cs').map (Gap.after found newline)) :
    Lexed.readFrom scan (size + 1) pos before last cs =
      (Lexed.readFrom scan (size + 1) pos' before last cs').map (Lexed.behind found newline) := by
  rw [Lexed.readFrom, Lexed.readFrom, h]
  cases Gap.skip pos' cs' with
  | error e => rfl
  | ok gap =>
    change (if gap.rest.isEmpty then Except.ok _ else (Lexed.next scan gap.pos before last gap.rest >>= _)) =
      Except.map _ (if gap.rest.isEmpty then Except.ok _ else (Lexed.next scan gap.pos before last gap.rest >>= _))
    cases hrest : gap.rest.isEmpty with
    | true => rfl
    | false =>
      simp only [Bool.false_eq_true, if_false]
      cases Lexed.next scan gap.pos before last gap.rest with
      | error e => rfl
      | ok r =>
        obtain ⟨k, n⟩ := r
        change (Lexed.readFrom scan size (gap.pos + byteLength (gap.rest.take n)) last (some k) (gap.rest.drop n) >>= _) =
          Except.map _ (Lexed.readFrom scan size (gap.pos + byteLength (gap.rest.take n)) last (some k)
            (gap.rest.drop n) >>= _)
        cases Lexed.readFrom scan size (gap.pos + byteLength (gap.rest.take n)) last (some k) (gap.rest.drop n) with
        | error e => rfl
        | ok more =>
          change Except.ok _ = Except.ok _
          simp [Lexed.behind, Gap.after]

/-- One token, followed by others. -/
theorem Lexed.readFrom_token {k : Token.Kind} (hk : k.Spelled) (hstops : ∀ c ∈ rest.head?, k.stopsAt c = true)
    (hstands : k.standsAfter before last) :
    Lexed.readFrom (fun _ => none) (size + 1) pos before last (k.spelling.toList ++ rest) =
      (Lexed.readFrom (fun _ => none) size (pos + byteLength k.spelling.toList) last (some k.asRead) rest).map fun more =>
        ⟨⟨k.asRead, ⟨pos, byteLength k.spelling.toList⟩, false⟩ :: more.tokens, more.comments⟩ := by
  have htake : (k.spelling.toList ++ rest).take k.spelling.toList.length = k.spelling.toList := List.take_left
  have hdrop : (k.spelling.toList ++ rest).drop k.spelling.toList.length = rest := List.drop_left
  have hne : (k.spelling.toList ++ rest).isEmpty = false := by
    obtain ⟨c, cs, hcs⟩ := hk.exists_cons
    rw [hcs]
    rfl
  rw [Lexed.readFrom, Token.Kind.skip_spelling hk hstops]
  change (if (k.spelling.toList ++ rest).isEmpty then Except.ok _ else
    (Lexed.next (fun _ => none) pos before last (k.spelling.toList ++ rest) >>= _)) = _
  rw [hne, if_neg Bool.false_ne_true, Token.Kind.next_spelling hk hstops hstands]
  change (Lexed.readFrom (fun _ => none) size (pos + byteLength ((k.spelling.toList ++ rest).take k.spelling.toList.length))
    last (some k.asRead) ((k.spelling.toList ++ rest).drop k.spelling.toList.length) >>= _) = _
  rw [htake, hdrop]
  cases Lexed.readFrom (fun _ => none) size (pos + byteLength k.spelling.toList) last (some k.asRead) rest <;> rfl

/-- What a slash is read as depends on the tokens before it. -/
theorem next_slash {k : Token.Kind} {n : Nat} (h : Lexed.next (fun _ => none) pos before last ('/' :: cs) = .ok (k, n)) :
    k.isSlash = true ∧ k.isRegex = Token.regexAllowed before last := by
  change (if Token.regexAllowed before last then regex pos cs else base pos ('/' :: cs)) = _ at h
  cases hallowed : Token.regexAllowed before last with
  | true =>
    rw [hallowed, if_pos rfl, regex] at h
    split at h
    · cases h
    · cases h
      exact ⟨rfl, rfl⟩
  | false =>
    have hnumber : numberLength ('/' :: cs) = 0 := numberLength_eq_zero rfl fun h => absurd h (by decide)
    rw [hallowed, if_neg Bool.false_ne_true, base, if_neg (by decide), hnumber, if_neg (by decide),
      if_neg (by decide)] at h
    split at h
    · next p hp =>
      cases h
      obtain ⟨c, ds, hds, -, -, -, -, hslash⟩ := p.exists_cons
      have hstart := List.find?_some hp
      rw [hds, List.isPrefixOf, Bool.and_eq_true, beq_iff_eq] at hstart
      rcases hslash hstart.1 with rfl | rfl <;> exact ⟨rfl, rfl⟩
    · cases h

/-- A slash that does not stand where it has its meaning is read with the other one. -/
theorem Lexed.slashes_ne_of_misplaced {k : Token.Kind} {lexed : Lexed} {kinds : List Token.Kind} (hk : k.Spelled)
    (hslash : k.isSlash = true) (hstops : ∀ c ∈ rest.head?, k.stopsAt c = true)
    (hallowed : Token.regexAllowed before last ≠ k.isRegex)
    (h : Lexed.readFrom (fun _ => none) (size + 1) pos before last (k.spelling.toList ++ rest) = .ok lexed) :
    Token.slashes lexed.tokens ≠ k :: kinds := by
  obtain ⟨cs, hcs⟩ : ∃ cs, k.spelling.toList ++ rest = '/' :: cs := by
    cases k with
    | regex x y => exact ⟨x.toList ++ '/' :: y.toList ++ rest, by simp [Token.Kind.spelling]⟩
    | punct p =>
      rcases (show p = .slash ∨ p = .slashEq by cases p <;> simp_all [Token.Kind.isSlash]) with rfl | rfl <;> exact ⟨_, rfl⟩
    | _ => cases hslash
  obtain ⟨gap, hskip, hlexed⟩ := Lexed.readFrom_succ_eq_ok.mp h
  rw [Token.Kind.skip_spelling hk hstops, hcs] at hskip
  cases hskip
  rcases hlexed with ⟨hnil, -⟩ | ⟨-, k', n, more, hnext, -, rfl⟩
  · cases hnil
  · obtain ⟨hk', hregex⟩ := next_slash hnext
    intro heq
    rw [Token.slashes, List.map_cons, List.filter_cons, if_pos hk'] at heq
    have hkinds : k' = k := (List.cons.inj heq).1
    rw [← hregex, hkinds] at hallowed
    exact hallowed rfl

end

/-! ### Texts that are read again -/

/-- The first token may be on a new line. -/
theorem Layout.Fits.behind {line newline : Bool} {found : List Comment} {lexed : Lexed} {ks : Text}
    (h : Fits line lexed.tokens ks) (hline : newline = true → line = true) :
    Fits line (Lexed.behind found newline lexed).tokens ks := by
  obtain ⟨tokens, comments⟩ := lexed
  dsimp only at h
  induction h with
  | eof ht => exact .eof ht
  | line h ih => exact .line (ih fun _ => rfl)
  | @token line t ts ks ht h =>
    refine @Fits.token line { t with newlineBefore := newline || t.newlineBefore } ts ks ?_ h
    intro hnew
    rcases Bool.or_eq_true_iff.mp hnew with hnew | hnew
    · exact hline hnew
    · exact ht hnew

/-- The characters are read as the text, if its slashes stand where they should, and otherwise not with the
    slashes of the text. -/
def Layout.Rereads (before last : Option Token.Kind) (line : Bool) (cs : List Char) (ks : Text) : Prop :=
  ∀ size pos, cs.length ≤ size →
    (SlashesStand before last ks →
      ∃ lexed, Lexed.readFrom (fun _ => none) size pos before last cs = .ok lexed ∧ Fits line lexed.tokens ks) ∧
    (¬SlashesStand before last ks → ∀ lexed, Lexed.readFrom (fun _ => none) size pos before last cs = .ok lexed →
      Token.slashes lexed.tokens ≠ slashes ks)

/-- A comment without its place. -/
def Comment.note (c : Comment) : CommentKind × String := (c.kind, c.text)

/-- The characters are read as the text and the comments, if the slashes of the text stand where they should, and
    otherwise not with the slashes of the text. -/
def Layout.Restores (before last : Option Token.Kind) (line : Bool) (cs : List Char) (ks : Text)
    (notes : List (CommentKind × String)) : Prop :=
  ∀ size pos, cs.length ≤ size →
    (SlashesStand before last ks →
      ∃ lexed, Lexed.readFrom (fun _ => none) size pos before last cs = .ok lexed ∧ Fits line lexed.tokens ks ∧
        lexed.comments.map Comment.note = notes) ∧
    (¬SlashesStand before last ks → ∀ lexed, Lexed.readFrom (fun _ => none) size pos before last cs = .ok lexed →
      Token.slashes lexed.tokens ≠ slashes ks)

namespace Layout.Restores

variable {before last : Option Token.Kind} {line : Bool} {cs cs' : List Char} {ks : Text} {notes : List (CommentKind × String)}

theorem rereads (h : Restores before last line cs ks notes) : Rereads before last line cs ks := by
  intro size pos hsize
  obtain ⟨hgood, hbad⟩ := h size pos hsize
  refine ⟨fun hstand => ?_, hbad⟩
  obtain ⟨lexed, hread, hfits, -⟩ := hgood hstand
  exact ⟨lexed, hread, hfits⟩

theorem nil (before last : Option Token.Kind) (line : Bool) : Restores before last line [] [] [] := by
  intro size pos _
  refine ⟨fun _ => ?_, fun h => absurd trivial h⟩
  cases size with
  | zero => exact ⟨_, rfl, .eof rfl, rfl⟩
  | succ size => exact ⟨_, rfl, .eof rfl, rfl⟩

theorem lineEnd (h : Restores before last true cs ks notes) : Restores before last line cs (none :: ks) notes := by
  intro size pos hsize
  obtain ⟨hgood, hbad⟩ := h size pos hsize
  refine ⟨fun hstand => ?_, hbad⟩
  obtain ⟨lexed, hread, hfits, hnotes⟩ := hgood hstand
  exact ⟨lexed, hread, .line hfits, hnotes⟩

/-- Where no token comes first, it does not matter whether a line ends. -/
theorem anyLine (hks : ∀ k ∈ ks.head?, k = none) (h : Restores before last true cs ks notes) :
    Restores before last line cs ks notes := by
  intro size pos hsize
  obtain ⟨hgood, hbad⟩ := h size pos hsize
  refine ⟨fun hstand => ?_, hbad⟩
  obtain ⟨⟨tokens, comments⟩, hread, hfits, hnotes⟩ := hgood hstand
  refine ⟨_, hread, ?_, hnotes⟩
  cases hfits with
  | eof ht => exact .eof ht
  | line hfits => exact .line hfits
  | token => cases hks _ rfl

/-- Blanks and comments do not matter. -/
theorem gap (newline : Bool) (skipped : List (CommentKind × String)) (h : Restores before last line cs' ks notes)
    (hline : newline = true → line = true) (hlength : cs'.length < cs.length)
    (hskip : ∀ pos, ∃ pos' found, Gap.skip pos cs = (Gap.skip pos' cs').map (Gap.after found newline) ∧
      found.map Comment.note = skipped) :
    Restores before last line cs ks (skipped ++ notes) := by
  intro size pos hsize
  obtain ⟨size, rfl⟩ := Nat.exists_eq_add_one_of_ne_zero (show size ≠ 0 by omega)
  obtain ⟨pos', found, hskip, hfound⟩ := hskip pos
  rw [Lexed.readFrom_gap hskip]
  obtain ⟨hgood, hbad⟩ := h (size + 1) pos' (by omega)
  constructor
  · intro hstand
    obtain ⟨lexed, hread, hfits, hnotes⟩ := hgood hstand
    refine ⟨Lexed.behind found newline lexed, by rw [hread]; rfl, hfits.behind hline, ?_⟩
    rw [Lexed.behind, List.map_append, hfound, hnotes]
  · intro hstand lexed hlexed
    obtain ⟨lexed, hread, rfl⟩ := Except.map_eq_ok hlexed
    have hslashes : Token.slashes (Lexed.behind found newline lexed).tokens = Token.slashes lexed.tokens := by
      obtain ⟨tokens, comments⟩ := lexed
      cases tokens <;> rfl
    rw [hslashes]
    exact hbad hstand lexed hread

/-- One token, followed by others. If it is a slash that is taken for the other one, it is the first one that is. -/
theorem token {k : Token.Kind} (hk : k.Spelled) (hstops : ∀ c ∈ cs.head?, k.stopsAt c = true)
    (h : Restores last (some k.asRead) false cs ks notes) :
    Restores before last line (k.spelling.toList ++ cs) (some k.asRead :: ks) notes := by
  intro size pos hsize
  obtain ⟨c, ds, hcs⟩ := hk.exists_cons
  rw [List.length_append, hcs, List.length_cons] at hsize
  obtain ⟨size, rfl⟩ := Nat.exists_eq_add_one_of_ne_zero (show size ≠ 0 by omega)
  by_cases hstands : k.standsAfter before last
  · obtain ⟨hgood, hbad⟩ := h size (pos + byteLength k.spelling.toList) (by omega)
    rw [Lexed.readFrom_token hk hstops hstands]
    constructor
    · intro hstand
      obtain ⟨lexed, hread, hfits, hnotes⟩ := hgood hstand.2
      exact ⟨⟨_ :: lexed.tokens, lexed.comments⟩, by rw [hread]; rfl, .token (fun h => absurd h Bool.false_ne_true) hfits, hnotes⟩
    · intro hstand lexed hlexed
      obtain ⟨more, hread, rfl⟩ := Except.map_eq_ok hlexed
      have hmore := hbad (fun h => hstand ⟨k.standsAfter_asRead.mpr hstands, h⟩) more hread
      rw [slashes_some, Token.slashes, List.map_cons, List.filter_cons]
      split
      · exact fun heq => hmore (List.cons.inj heq).2
      · exact hmore
  · obtain ⟨hslash, hallowed⟩ := Classical.not_imp.mp hstands
    constructor
    · exact fun hstand => absurd (k.standsAfter_asRead.mp hstand.1) hstands
    · intro _ lexed hlexed
      rw [slashes_some, k.isSlash_asRead, hslash, if_pos rfl, k.asRead_of_isSlash hslash]
      exact Lexed.slashes_ne_of_misplaced hk hslash hstops hallowed hlexed

/-! Blanks, line breaks and comments. -/

theorem blank (h : Restores before last line cs ks notes) : Restores before last line (' ' :: cs) ks notes := by
  refine h.gap false [] nofun (Nat.lt_succ_self _) fun pos => ⟨pos + 1, [], ?_, rfl⟩
  change Gap.skip (pos + 1) cs = _
  cases Gap.skip (pos + 1) cs <;> rfl

theorem newline (h : Restores before last true cs ks notes) : Restores before last true ('\n' :: cs) ks notes :=
  h.gap true [] (fun _ => rfl) (Nat.lt_succ_self _) fun pos => ⟨pos + 1, [], rfl, rfl⟩

theorem indentation (depth : Nat) (h : Restores before last line cs ks notes) :
    Restores before last line ((Layout.indentation depth).toList ++ cs) ks notes := by
  induction depth with
  | zero => exact h
  | succ depth ih =>
    rw [Layout.indentation, String.toList_append, List.append_assoc]
    exact ih.blank.blank.blank.blank

theorem comment {c : Comment} (hc : c.Legal) (h : Restores before last true cs ks notes) :
    Restores before last true (c.spelling.toList ++ '\n' :: cs) ks (c.note :: notes) := by
  obtain ⟨span, kind, body⟩ := c
  cases kind with
  | line =>
    have htake : (body.toList ++ '\n' :: cs).takeWhile (· != '\n') = body.toList := by
      rw [List.takeWhile_append_of_pos fun d hd => by simpa using hc.1 d hd]
      simp
    refine h.newline.gap false [_] nofun ?_ fun pos => ?_
    · simp [Comment.spelling]
      omega
    · refine ⟨pos + 2 + byteLength body.toList, [Gap.lineComment pos body.toList], ?_, ?_⟩
      · have hspelling : (Comment.mk span .line body).spelling.toList ++ '\n' :: cs =
            '/' :: '/' :: (body.toList ++ '\n' :: cs) := by simp [Comment.spelling]
        rw [hspelling, Gap.skip, List.length_cons, Gap.skipFrom, htake]
        rw [List.drop_left, Gap.skip, Gap.skipFrom_eq]
        · simp
          omega
        · exact Nat.le_refl _
      · have htrim : body.toList.reverse.dropWhile (· == '\r') = body.toList.reverse := by
          rw [List.dropWhile_eq_self_iff]
          intro hpos hlast
          refine hc.2 ?_
          rw [← List.head?_reverse, List.head?_eq_getElem?, List.getElem?_eq_getElem hpos, beq_iff_eq.mp hlast]
        simp [Gap.lineComment, Comment.note, htrim]
  | block =>
    have hbody := hc ('\n' :: cs)
    refine h.newline.gap (body.toList.contains '\n') [_] (fun _ => rfl) ?_ fun pos => ?_
    · simp [Comment.spelling]
      omega
    · refine ⟨pos + 4 + byteLength body.toList, [Gap.blockComment pos body.toList], ?_, ?_⟩
      · have hspelling : (Comment.mk span .block body).spelling.toList ++ '\n' :: cs =
            '/' :: '*' :: (body.toList ++ '*' :: '/' :: '\n' :: cs) := by simp [Comment.spelling]
        have hdrop : (body.toList ++ '*' :: '/' :: '\n' :: cs).drop (body.toList.length + 2) = '\n' :: cs := by simp
        rw [hspelling, Gap.skip, List.length_cons, Gap.skipFrom, hbody]
        dsimp only
        rw [List.take_left, hdrop, Gap.skip, Gap.skipFrom_eq]
        · simp
          omega
        · exact Nat.le_refl _
      · simp [Gap.blockComment, Comment.note]

theorem commentLines {depth : Nat} {comments : List Comment} (hcomments : ∀ c ∈ comments, c.Legal)
    (h : Restores before last true cs ks notes) :
    Restores before last true ((String.join (Layout.commentLines depth comments)).toList ++ cs) ks
      (comments.map Comment.note ++ notes) := by
  induction comments with
  | nil => exact h
  | cons c comments ih =>
    obtain ⟨hc, hcomments⟩ := List.forall_mem_cons.mp hcomments
    have hjoin : (String.join (Layout.commentLines depth (c :: comments))).toList ++ cs =
        (Layout.indentation depth).toList ++ (c.spelling.toList ++ '\n' ::
          ((String.join (Layout.commentLines depth comments)).toList ++ cs)) := by
      simp [Layout.commentLines, String.toList_join]
    rw [hjoin]
    exact ((ih hcomments).comment hc).indentation depth

end Layout.Restores

/-! ### String literals -/

/-- A text that is written as a literal is the first token of what is read, and covers exactly the bytes of the
    literal; what follows is read behind it. -/
theorem Lexed.read_quote_append (s rest : String) :
    (∀ pos, base pos (Literal.quote s ++ rest).toList = .ok (.string s, (Literal.quote s).length)) ∧
      Lexed.read (fun _ => none) (Literal.quote s ++ rest) =
        (Lexed.readFrom (fun _ => none) rest.length (Literal.quote s).utf8ByteSize none (some (.string s))
          rest.toList).map fun more =>
            ⟨⟨.string s, ⟨0, (Literal.quote s).utf8ByteSize⟩, false⟩ :: more.tokens, more.comments⟩ := by
  have hquote : (Literal.quote s ++ rest).toList = '"' :: (Literal.escape s.toList ++ '"' :: rest.toList) := by
    simp [Literal.quote]
  constructor
  · intro pos
    have hnext : Lexed.next (fun _ => none) pos none none ((Literal.quote s).toList ++ rest.toList) = _ := next_string s
    rwa [← String.toList_append, hquote, next_of_ne_slash (by decide), ← hquote, String.length_toList] at hnext
  · obtain ⟨size, hsize⟩ : ∃ size, (Literal.quote s ++ rest).length = size + 1 :=
      ⟨_, by rw [← String.length_toList, hquote]; rfl⟩
    have hrest : rest.toList.length ≤ size := by
      rw [← String.length_toList, hquote] at hsize
      simp at hsize ⊢
      omega
    have hread : Lexed.readFrom (fun _ => none) (size + 1) 0 none none ((Literal.quote s).toList ++ rest.toList) = _ :=
      Lexed.readFrom_token (k := .string s) trivial (fun _ _ => rfl) (fun h => by cases h)
    rw [Nat.zero_add] at hread
    rw [Lexed.read, hsize, String.toList_append, hread, utf8ByteSize_eq,
      Lexed.readFrom_eq Scanner.progresses_none hrest (Nat.le_of_eq String.length_toList)]
    rfl

end LabelWeaver
