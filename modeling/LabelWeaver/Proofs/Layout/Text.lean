import LabelWeaver.Layout.Render
import LabelWeaver.Grammar.Function

/-! What a layout is read as. Blanks and indentation do not matter to a reader, line breaks do in a
    few places; so a text is a list of kinds of tokens with marks where a line may end. -/

namespace LabelWeaver

/-- The kind of token that is read where `k` is written. A name is read as a reserved word if it is
    one. -/
def Token.Kind.asRead : Token.Kind → Token.Kind
  | ident name => Lexeme.word name
  | k => k

namespace Layout

/-- Kinds of tokens; `none` stands where a line may end. -/
abbrev Text := List (Option Token.Kind)

end Layout

open Layout

def Piece.text : Piece → Text
  | token k => [some k.asRead]
  | space | indent _ => []
  | newline | comments _ _ => [none]
  | emptyBlock _ _ => [some (.punct .lbrace), none, some (.punct .rbrace)]

namespace Layout

def text (ps : List Piece) : Text := ps.flatMap Piece.text

@[simp] theorem text_nil : text [] = [] := rfl

@[simp] theorem text_cons (p : Piece) (ps : List Piece) : text (p :: ps) = p.text ++ text ps := rfl

@[simp] theorem text_append (ps qs : List Piece) : text (ps ++ qs) = text ps ++ text qs :=
  List.flatMap_append

section
variable {ks ks' : Text} {k : Token.Kind}

/-- The kind of the first token; at the end that is the end of input. -/
def first : Text → Token.Kind
  | [] => .eof
  | none :: ks => first ks
  | some k :: _ => k

@[simp] theorem first_nil : first [] = .eof := rfl

@[simp] theorem first_none : first (none :: ks) = first ks := rfl

@[simp] theorem first_some : first (some k :: ks) = k := rfl

/-- The number of tokens. -/
def count (ks : Text) : Nat := (ks.filterMap id).length

@[simp] theorem count_nil : count [] = 0 := rfl

@[simp] theorem count_none : count (none :: ks) = count ks := rfl

@[simp] theorem count_some : count (some k :: ks) = count ks + 1 := rfl

@[simp] theorem count_append : count (ks ++ ks') = count ks + count ks' := by
  simp [count]

/-- What is behind a token has fewer tokens. -/
theorem count_lt {d : Nat} (h : count (ks ++ some k :: ks') < d) : count ks' < d := by
  rw [count_append, count_some] at h
  omega

/-- Texts with commas between them. -/
def commaTexts : List Text → Text
  | [] => []
  | [ks] => ks
  | ks :: rest => ks ++ some (Token.Kind.punct .comma) :: commaTexts rest

theorem commaTexts_cons_cons (ks' : Text) (rest : List Text) :
    commaTexts (ks :: ks' :: rest) = ks ++ some (Token.Kind.punct .comma) :: commaTexts (ks' :: rest) := rfl

theorem text_commaSep (items : List (List Piece)) : text (commaSep items) = commaTexts (items.map text) := by
  induction items with
  | nil => rfl
  | cons item items ih =>
    cases items with
    | nil => rfl
    | cons item' items =>
      rw [commaSep, text_append, text_append, ih, List.append_assoc]
      · rfl
      · exact List.cons_ne_nil _ _

end

/-- Texts with commas between them, where some are left out. One that is left out at the end has a
    comma of its own. -/
def elementTexts : List (Option Text) → Text
  | [] => []
  | [some ks] => ks
  | none :: rest => some (.punct .comma) :: elementTexts rest
  | some ks :: rest => ks ++ some (Token.Kind.punct .comma) :: elementTexts rest

theorem elementTexts_some_cons (ks : Text) (x : Option Text) (rest : List (Option Text)) :
    elementTexts (some ks :: x :: rest) = ks ++ some (Token.Kind.punct .comma) :: elementTexts (x :: rest) := rfl

/-- Texts on lines of their own. -/
def lines (texts : List Text) : Text := texts.flatMap fun ks => none :: (ks ++ [none])

@[simp] theorem lines_nil : lines [] = [] := rfl

theorem lines_cons_append (ks rest : Text) (texts : List Text) :
    lines (ks :: texts) ++ rest = none :: (ks ++ none :: (lines texts ++ rest)) := by
  simp [lines]

/-! ### Brackets -/

/-- What a token does to the number of open brackets. -/
def step (depth : Nat) : Option Token.Kind → Option Nat
  | some (.punct .lparen) | some (.punct .lbracket) | some (.punct .lbrace) => some (depth + 1)
  | some (.punct .rparen) | some (.punct .rbracket) | some (.punct .rbrace) =>
    match depth with
    | 0 => none
    | depth + 1 => some depth
  | some .eof => none
  | _ => some depth

/-- Every bracket is closed, and no other ones are. -/
def Balanced (ks : Text) : Prop := ∀ depth, ks.foldlM step depth = some depth

theorem Balanced.nil : Balanced [] := fun _ => rfl

section
variable {k : Token.Kind} {ks ks' : Text}

theorem Balanced.append (h : Balanced ks) (h' : Balanced ks') : Balanced (ks ++ ks') := by
  intro depth
  simp [List.foldlM_append, h depth, h' depth]

theorem Balanced.line (h : Balanced ks) : Balanced (none :: ks) := h

theorem Balanced.token (hk : ∀ depth, step depth (some k) = some depth) (h : Balanced ks) :
    Balanced (some k :: ks) := by
  intro depth
  simp [List.foldlM_cons, hk depth, h depth]

/-- The two signs are a pair of brackets. -/
def IsPair (opening closing : Punct) : Prop :=
  ∀ depth, step depth (some (.punct opening)) = some (depth + 1) ∧
    step (depth + 1) (some (.punct closing)) = some depth

theorem isPair_parens : IsPair .lparen .rparen := fun _ => ⟨rfl, rfl⟩

theorem isPair_brackets : IsPair .lbracket .rbracket := fun _ => ⟨rfl, rfl⟩

theorem isPair_braces : IsPair .lbrace .rbrace := fun _ => ⟨rfl, rfl⟩

theorem Balanced.enclosed {opening closing : Punct} (hpair : IsPair opening closing) (h : Balanced ks)
    (h' : Balanced ks') : Balanced (some (.punct opening) :: (ks ++ some (Token.Kind.punct closing) :: ks')) := by
  intro depth
  simp [List.foldlM_cons, List.foldlM_append, (hpair depth).1, (hpair depth).2, h (depth + 1), h' depth]

theorem Balanced.commaTexts {texts : List Text} (h : ∀ ks ∈ texts, Balanced ks) : Balanced (commaTexts texts) := by
  induction texts with
  | nil => exact .nil
  | cons ks texts ih =>
    obtain ⟨hks, htexts⟩ := List.forall_mem_cons.mp h
    cases texts with
    | nil => exact hks
    | cons => exact hks.append ((ih htexts).token fun _ => rfl)

theorem Balanced.lines {texts : List Text} (h : ∀ ks ∈ texts, Balanced ks) : Balanced (lines texts) := by
  induction texts with
  | nil => exact .nil
  | cons ks texts ih =>
    obtain ⟨hks, htexts⟩ := List.forall_mem_cons.mp h
    rw [← List.append_nil (Layout.lines _), lines_cons_append, List.append_nil]
    exact (hks.append (ih htexts).line).line

theorem Balanced.elementTexts {texts : List (Option Text)} (h : ∀ ks, some ks ∈ texts → Balanced ks) :
    Balanced (elementTexts texts) := by
  induction texts with
  | nil => exact .nil
  | cons x texts ih =>
    have htexts := ih fun ks hks => h ks (List.mem_cons_of_mem _ hks)
    cases x with
    | none => exact htexts.token fun _ => rfl
    | some ks =>
      have hks := h ks List.mem_cons_self
      cases texts with
      | nil => exact hks
      | cons => exact hks.append (htexts.token fun _ => rfl)

end

/-! ### Tokens -/

/-- The tokens are those of the text. A line break stands before a token only where a line may end;
    `line` says whether one may end before the first token. -/
inductive Fits : Bool → List Token → Text → Prop where
  | eof {line : Bool} {t : Token} (ht : t.kind = .eof) : Fits line [t] []
  | line {line : Bool} {ts : List Token} {ks : Text} (h : Fits true ts ks) : Fits line ts (none :: ks)
  | token {line : Bool} {t : Token} {ts : List Token} {ks : Text} (ht : t.newlineBefore = true → line = true)
      (h : Fits false ts ks) : Fits line (t :: ts) (some t.kind :: ks)

namespace Fits

variable {line : Bool} {ts : List Token} {k : Token.Kind} {ks : Text}

/-- A line may end before the end of input. -/
theorem concat_none (h : Fits line ts ks) : Fits line ts (ks ++ [none]) := by
  induction h with
  | eof ht => exact .line (.eof ht)
  | line _ ih => exact .line ih
  | token ht _ ih => exact .token ht ih

theorem exists_cons (h : Fits line ts ks) : ∃ t ts', ts = t :: ts' ∧ t.kind = first ks := by
  induction h with
  | eof ht => exact ⟨_, _, rfl, ht⟩
  | line _ ih => exact ih
  | token => exact ⟨_, _, rfl, rfl⟩

theorem length (h : Fits line ts ks) : ts.length = count ks + 1 := by
  induction h with
  | eof => rfl
  | line _ ih => exact ih
  | token _ _ ih => rw [List.length_cons, ih, count_some]

theorem of_some (h : Fits line ts (some k :: ks)) :
    ∃ t ts', ts = t :: ts' ∧ t.kind = k ∧ (t.newlineBefore = true → line = true) ∧ Fits false ts' ks := by
  cases h with
  | token ht h => exact ⟨_, _, rfl, rfl, ht, h⟩

theorem of_none (h : Fits line ts (none :: ks)) : Fits true ts ks := by
  cases h with
  | line h => exact h

end Fits

end Layout

end LabelWeaver
