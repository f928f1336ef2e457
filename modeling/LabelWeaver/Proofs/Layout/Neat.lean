import LabelWeaver.Proofs.Layout.Rereads
import Mathlib.Data.List.Chain

/-! Layouts that can be read again: where two tokens stand side by side, the first one ends where the
    second one starts. The comments that are put in between do not change that. -/

namespace LabelWeaver

open Layout

/-! ### Side by side -/

/-- Every token ends before the character. -/
def Lexeme.endsTokens (c : Char) : Bool :=
  !isIdentPart c && c != '.' && c != '/' && c != '*' && Punct.all.all fun p => !p.spelling.toList.tail.contains c

/-- A longer sign has the character behind its first one. -/
theorem Punct.continues_eq_false {p : Punct} {c : Char} (h : (all.all fun q => !q.spelling.toList.tail.contains c) = true) :
    p.continues c = false := by
  by_contra hc
  obtain ⟨q, hq, hstart⟩ := List.any_eq_true.mp (Bool.not_eq_false _ ▸ hc)
  obtain ⟨more, hmore⟩ := List.isPrefixOf_iff_prefix.mp hstart
  obtain ⟨d, ds, hds, -⟩ := p.exists_cons
  have hmem : c ∈ q.spelling.toList.tail := by
    rw [← hmore, hds]
    simp
  have hall := List.all_eq_true.mp h q hq
  simp only [List.contains_eq_mem, hmem, decide_true, Bool.not_true, Bool.false_eq_true] at hall

/-- Signs that share no character with a longer one. -/
def Punct.standsAlone : Punct → Bool
  | lparen | rparen | lbrace | rbrace | lbracket | rbracket | semi | comma | colon | tilde => true
  | _ => false

/-- Signs with which no longer one starts. -/
def Punct.isComplete : Punct → Bool
  | ellipsis | plusPlus | minusMinus => true
  | p => p.standsAlone

namespace Piece

def Spelled : Piece → Prop
  | token k => k.Spelled
  | _ => True

/-- The piece belongs at the start of a line. -/
def startsLine : Piece → Bool
  | indent _ | comments _ _ => true
  | _ => false

/-- A line ends at the piece. -/
def endsLine : Piece → Bool
  | newline | comments _ _ => true
  | _ => false

/-- The piece is a place for comments on lines of their own. -/
def isComments : Piece → Bool
  | comments _ _ => true
  | _ => false

/-- `q` may be written directly behind `p`. -/
def Before (p q : Piece) : Prop :=
  match p with
  | token k => q.startsLine = false ∧ ∀ k', q = token k' → ∀ c ∈ k'.spelling.toList.head?, k.stopsAt c = true
  | p => p.endsLine = true ∨ q.isComments = false

/-- Whatever is written before the piece ends there. -/
def endsOthers : Piece → Bool
  | token (.punct p) => p.standsAlone
  | token _ => false
  | p => !p.startsLine

/-- Whatever is written behind the piece, it ends before that. -/
def isComplete : Piece → Bool
  | token (.punct p) => p.isComplete
  | token _ => false
  | _ => true

end Piece

theorem Token.Kind.stopsAt_of_endsTokens (k : Token.Kind) {c : Char} (h : Lexeme.endsTokens c = true) : k.stopsAt c = true := by
  simp only [Lexeme.endsTokens, Bool.and_eq_true, Bool.not_eq_true', bne_iff_ne] at h
  obtain ⟨⟨⟨⟨hident, hdot⟩, hslash⟩, hstar⟩, hcontinues⟩ := h
  cases k with
  | number x => simp [stopsAt, hident, hdot]
  | punct p =>
    have hp := Punct.continues_eq_false (p := p) hcontinues
    have hdigit : c.isDigit = false := by
      cases hdigit : c.isDigit with
      | true => rw [isIdentPart_of_isDigit hdigit] at hident; cases hident
      | false => rfl
    simp [stopsAt, hdigit, hslash, hstar, hp]
  | reserved => simp [stopsAt, hident]
  | contextual => simp [stopsAt, hident]
  | ident => simp [stopsAt, hident]
  | regex => simp [stopsAt, hident]
  | _ => rfl

theorem Punct.endsTokens_of_standsAlone {p : Punct} (h : p.standsAlone = true) :
    p.spelling.toList.head?.all Lexeme.endsTokens = true := by
  have hall : ∀ p ∈ all, p.standsAlone = true → p.spelling.toList.head?.all Lexeme.endsTokens = true := by
    decide +kernel
  exact hall p p.mem_all h

/-- The signs that start with a complete one. -/
theorem Punct.eq_of_isComplete {p q : Punct} (h : p.isComplete = true)
    (hstart : p.spelling.toList.isPrefixOf q.spelling.toList = true) : q = p := by
  have hall : ∀ p ∈ all, ∀ q ∈ all, p.isComplete = true → p.spelling.toList.isPrefixOf q.spelling.toList = true → q = p := by
    decide +kernel
  exact hall p p.mem_all q q.mem_all h hstart

theorem Punct.stopsAt_of_isComplete {p : Punct} (h : p.isComplete = true) (c : Char) :
    (Token.Kind.punct p).stopsAt c = true := by
  have hcontinues : p.continues c = false := by
    by_contra hc
    obtain ⟨q, hq, hstart⟩ := List.any_eq_true.mp (Bool.not_eq_false _ ▸ hc)
    rw [ List.isPrefixOf_iff_prefix] at hstart
    cases eq_of_isComplete h ( List.isPrefixOf_iff_prefix.mpr ((List.prefix_append _ _).trans hstart))
    have hlength := hstart.length_le
    rw [List.length_append, List.length_singleton] at hlength
    omega
  have hdot : p ≠ .dot := by rintro rfl; cases h
  have hslash : p ≠ .slash := by rintro rfl; cases h
  simp [Token.Kind.stopsAt, hcontinues, hdot, hslash]

namespace Piece

variable {p q : Piece}

theorem before_of_endsOthers (h : q.endsOthers = true) : p.Before q := by
  cases p with
  | token k =>
    refine ⟨?_, ?_⟩
    · cases q with
      | token => rfl
      | _ => simpa [endsOthers] using h
    · rintro k' rfl c hc
      cases k' with
      | punct p =>
        have hends := Punct.endsTokens_of_standsAlone h
        rw [show p.spelling.toList.head? = some c from hc] at hends
        exact k.stopsAt_of_endsTokens hends
      | _ => cases h
  | _ =>
    cases q with
    | comments => cases h
    | _ => exact .inr rfl

theorem before_of_isComplete (hp : p.isComplete = true) (hq : q.startsLine = false) : p.Before q := by
  cases p with
  | token k =>
    refine ⟨hq, fun k' _ c _ => ?_⟩
    cases k with
    | punct p => exact Punct.stopsAt_of_isComplete hp c
    | _ => cases hp
  | _ =>
    cases q with
    | comments => cases hq
    | _ => exact .inr rfl

end Piece

/-! ### Neat layouts -/

/-- Every token can be written, and what is written behind it does not run into it. -/
structure Layout.Neat (ps : List Piece) : Prop where
  spelled : ∀ p ∈ ps, p.Spelled
  chain : ps.IsChain Piece.Before

/-- A neat layout that can follow a token on the same line. -/
structure Layout.Inline (ps : List Piece) : Prop extends Neat ps where
  sameLine : ps.head?.all (!·.startsLine) = true

namespace Layout

variable {ps qs : List Piece} {pending : List Comment} {k : Token.Kind}

theorem Neat.nil : Neat [] := ⟨nofun, .nil⟩

theorem Neat.singleton {p : Piece} (h : p.Spelled) : Neat [p] := ⟨by simpa using h, .singleton _⟩

theorem Neat.append (hps : Neat ps) (hqs : Neat qs) (h : ∀ p ∈ ps.getLast?, ∀ q ∈ qs.head?, p.Before q) :
    Neat (ps ++ qs) := by
  refine ⟨List.forall_mem_append.mpr ⟨hps.spelled, hqs.spelled⟩, ?_⟩
  exact List.isChain_append.mpr ⟨hps.chain, hqs.chain, h⟩

/-! ### Writing them -/

/-- What is written behind a token in a neat layout ends the token. -/
theorem Neat.stopsAt (h : Neat (.token k :: ps)) (hend : ps ≠ []) (cs : List Char) :
    ∀ c ∈ ((String.join (weave pending ps)).toList ++ cs).head?, k.stopsAt c = true := by
  intro c hc
  cases ps with
  | nil => exact absurd rfl hend
  | cons q ps =>
    obtain ⟨hline, hbefore⟩ := (List.isChain_cons_cons.mp h.chain).1
    rw [String.toList_join] at hc
    cases q with
    | token k' =>
      obtain ⟨d, ds, hds⟩ := Token.Kind.Spelled.exists_cons (h.spelled (.token k') (by simp))
      refine hbefore k' rfl c ?_
      simpa [weave, hds] using hc
    | space =>
      cases Option.some.inj (show some ' ' = some c from hc)
      exact k.stopsAt_of_endsTokens (by decide)
    | newline =>
      cases Option.some.inj (show some '\n' = some c from hc)
      exact k.stopsAt_of_endsTokens (by decide)
    | emptyBlock stop depth =>
      have hbrace : some '\x7b' = some c := by
        rw [weave] at hc
        split at hc <;> exact hc
      cases Option.some.inj hbrace
      exact k.stopsAt_of_endsTokens (by decide)
    | indent => cases hline
    | comments => cases hline

theorem mem_due {pending : List Comment} {before : Nat} {c : Comment} (h : c ∈ due before pending) : c ∈ pending :=
  (List.takeWhile_sublist _).mem h

theorem mem_notDue {pending : List Comment} {before : Nat} {c : Comment} (h : c ∈ notDue before pending) : c ∈ pending :=
  (List.dropWhile_sublist _).mem h

section
variable {before last : Option Token.Kind} {line : Bool} {cs : List Char} {ks : Text} {notes : List (CommentKind × String)}

theorem Restores.sign {p : Punct} (hp : p.isComplete = true) (h : Restores last (some (.punct p)) false cs ks notes) :
    Restores before last line (p.spelling.toList ++ cs) (some (.punct p) :: ks) notes :=
  Restores.token (k := .punct p) trivial (fun c _ => Punct.stopsAt_of_isComplete hp c) h

/-- A line ends at the last piece. -/
def Closed (ps : List Piece) : Prop := ∀ p ∈ ps.getLast?, p.endsLine = true

/-- A neat layout is read again, comments included, if no more is written on the line of its last token. -/
theorem Neat.restores_before (h : Neat ps) (hend : Closed ps ∨ pending = [] ∧ cs = []) (hpending : ∀ c ∈ pending, c.Legal)
    (hks : ∀ k ∈ ks.head?, k = none) (hrest : ∀ before last, Restores before last true cs ks notes)
    (before last : Option Token.Kind) (line : Bool) :
    Restores before last line ((String.join (weave pending ps)).toList ++ cs) (text ps ++ ks)
      (pending.map Comment.note ++ notes) := by
  induction ps generalizing pending before last line with
  | nil => exact ((hrest before last).commentLines hpending).anyLine hks
  | cons p ps ih =>
    have htail : Neat ps := ⟨fun q hq => h.spelled q (List.mem_cons_of_mem _ hq), h.chain.tail⟩
    have hclosed' : Closed (p :: ps) → Closed ps := by
      intro hclosed q hq
      cases ps with
      | nil => cases hq
      | cons q' ps => exact hclosed q (by rwa [List.getLast?_cons_cons])
    have hend' : Closed ps ∨ pending = [] ∧ cs = [] := hend.imp_left hclosed'
    have hendDue : ∀ before, Closed ps ∨ notDue before pending = [] ∧ cs = [] := by
      intro before
      refine hend'.imp_right fun hempty => ⟨?_, hempty.2⟩
      rw [hempty.1]
      rfl
    have hdue : ∀ before, ∀ c ∈ due before pending, c.Legal := fun before c hc => hpending c (mem_due hc)
    have hnotDue : ∀ before, ∀ c ∈ notDue before pending, c.Legal := fun before c hc => hpending c (mem_notDue hc)
    have hnotes : ∀ before, pending.map Comment.note ++ notes =
        (due before pending).map Comment.note ++ ((notDue before pending).map Comment.note ++ notes) := by
      intro before
      rw [← List.append_assoc, ← List.map_append, due, notDue, List.takeWhile_append_dropWhile]
    cases p with
    | token k =>
      have hstops : ∀ c ∈ ((String.join (weave pending ps)).toList ++ cs).head?, k.stopsAt c = true := by
        cases ps with
        | nil =>
          rcases hend with hclosed | ⟨rfl, rfl⟩
          · cases hclosed _ rfl
          · intro c hc
            cases hc
        | cons q ps => exact h.stopsAt (List.cons_ne_nil q ps) cs
      have htext : (String.join (weave pending (.token k :: ps))).toList ++ cs =
          k.spelling.toList ++ ((String.join (weave pending ps)).toList ++ cs) := by simp [weave, String.toList_join]
      rw [htext]
      exact Restores.token (h.spelled _ List.mem_cons_self) hstops (ih htail hend' hpending _ _ _)
    | space =>
      have htext : (String.join (weave pending (.space :: ps))).toList ++ cs =
          ' ' :: ((String.join (weave pending ps)).toList ++ cs) := by
        simp [weave, String.toList_join]
      rw [htext]
      exact (ih htail hend' hpending _ _ _).blank
    | newline =>
      have htext : (String.join (weave pending (.newline :: ps))).toList ++ cs =
          '\n' :: ((String.join (weave pending ps)).toList ++ cs) := by simp [weave, String.toList_join]
      rw [htext]
      exact (ih htail hend' hpending _ _ true).newline.lineEnd
    | indent depth =>
      have htext : (String.join (weave pending (.indent depth :: ps))).toList ++ cs =
          (indentation depth).toList ++ ((String.join (weave pending ps)).toList ++ cs) := by
        simp [weave, String.toList_join]
      rw [htext]
      exact (ih htail hend' hpending _ _ _).indentation depth
    | comments stop depth =>
      have htext : (String.join (weave pending (.comments stop depth :: ps))).toList ++ cs =
          (String.join (commentLines depth (due stop pending))).toList ++
            ((String.join (weave (notDue stop pending) ps)).toList ++ cs) := by simp [weave, String.toList_join]
      rw [htext, hnotes stop]
      exact ((ih htail (hendDue stop) (hnotDue stop) _ _ true).commentLines (hdue stop)).lineEnd
    | emptyBlock stop depth =>
      rw [weave]
      split
      · have htext : (String.join ("\x7b\x7d" :: weave pending ps)).toList ++ cs =
            '\x7b' :: '\x7d' :: ((String.join (weave pending ps)).toList ++ cs) := by simp [String.toList_join]
        rw [htext]
        exact ((ih htail hend' hpending _ _ false).sign (p := .rbrace) rfl).lineEnd.sign (p := .lbrace) rfl
      · have htext : (String.join ("\x7b\n" :: commentLines (depth + 1) (due stop pending) ++
              indentation depth :: "\x7d" :: weave (notDue stop pending) ps)).toList ++ cs =
            '\x7b' :: '\n' :: ((String.join (commentLines (depth + 1) (due stop pending))).toList ++
              ((indentation depth).toList ++ '\x7d' :: ((String.join (weave (notDue stop pending) ps)).toList ++ cs))) := by
          simp [String.toList_join]
        rw [htext, hnotes stop]
        have hclose : Restores last (some (.punct .lbrace)) true _ _ _ :=
          ((ih htail (hendDue stop) (hnotDue stop) _ _ false).sign (p := .rbrace) rfl).indentation depth
        exact (hclose.commentLines (hdue stop)).newline.lineEnd.sign (p := .lbrace) rfl

/-- A neat layout is read again, comments included, whatever is written behind it on lines of its own. -/
theorem Neat.restores (h : Neat ps) (hclosed : Closed ps) (hpending : ∀ c ∈ pending, c.Legal)
    (hks : ∀ k ∈ ks.head?, k = none) (hrest : ∀ before last, Restores before last true cs ks notes)
    (before last : Option Token.Kind) (line : Bool) :
    Restores before last line ((String.join (weave pending ps)).toList ++ cs) (text ps ++ ks)
      (pending.map Comment.note ++ notes) :=
  h.restores_before (.inl hclosed) hpending hks hrest before last line

/-- A neat layout behind which nothing is written. -/
theorem Neat.restores_alone (h : Neat ps) (hclosed : Closed ps) (hpending : ∀ c ∈ pending, c.Legal)
    (before last : Option Token.Kind) (line : Bool) :
    Restores before last line (String.join (weave pending ps)).toList (text ps) (pending.map Comment.note) := by
  have hnil : ∀ before last, Restores before last true [] [] [] := fun before last => .nil before last true
  have hhead : ∀ k ∈ ([] : Text).head?, k = none := nofun
  have hrestores := h.restores hclosed hpending hhead hnil before last line
  rwa [List.append_nil, List.append_nil, List.append_nil] at hrestores

theorem Neat.rereads (h : Neat ps) (hclosed : Closed ps) (hpending : ∀ c ∈ pending, c.Legal)
    (before last : Option Token.Kind) (line : Bool) :
    Rereads before last line (String.join (weave pending ps)).toList (text ps) :=
  (h.restores_alone hclosed hpending before last line).rereads

/-- A neat layout by itself: the last line need not end. -/
theorem Neat.rereads_line (h : Neat ps) (before last : Option Token.Kind) (line : Bool) :
    Rereads before last line (String.join (weave [] ps)).toList (text ps) := by
  have hnil : ∀ before last, Restores before last true [] [] [] := fun before last => .nil before last true
  have hhead : ∀ k ∈ ([] : Text).head?, k = none := fun k hk => absurd hk (by simp)
  have hpending : ∀ c ∈ ([] : List Comment), c.Legal := fun c hc => absurd hc List.not_mem_nil
  have hrestores := h.restores_before (.inr ⟨rfl, rfl⟩) hpending hhead hnil before last line
  rw [List.append_nil, List.append_nil] at hrestores
  exact hrestores.rereads

end

end Layout

end LabelWeaver
