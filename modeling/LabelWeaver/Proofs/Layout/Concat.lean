import LabelWeaver.Proofs.Layout.Alike
import LabelWeaver.Proofs.Layout.LoopHeads

/-! Printed programs one behind the other. What is printed ends where a line ends and a statement is closed, so that
    neither the reader of tokens nor the parser carries anything over from one printed program into the next. -/

namespace LabelWeaver

open Layout

/-! ### Line breaks at the end -/

namespace Layout

theorem weave_cons (pending : List Comment) (p : Piece) (ps : List Piece) :
    ∃ written pending', weave pending (p :: ps) = written ++ weave pending' ps := by
  cases p with
  | emptyBlock stop depth =>
    rw [weave]
    split
    · exact ⟨["\x7b\x7d"], pending, rfl⟩
    · exact ⟨"\x7b\n" :: commentLines (depth + 1) (due stop pending) ++ [indentation depth, "\x7d"], notDue stop pending,
        by simp⟩
  | comments before depth => exact ⟨commentLines depth (due before pending), notDue before pending, rfl⟩
  | _ => exact ⟨[_], pending, rfl⟩

/-- Comments on lines of their own, behind a line break. -/
theorem getLast?_commentLines (depth : Nat) (comments : List Comment) :
    ('\n' :: (String.join (commentLines depth comments)).toList).getLast? = some '\n' := by
  induction comments with
  | nil => rfl
  | cons c comments ih =>
    have hjoin : '\n' :: (String.join (commentLines depth (c :: comments))).toList =
        ('\n' :: (indentation depth).toList ++ c.spelling.toList) ++
          '\n' :: (String.join (commentLines depth comments)).toList := by
      simp [commentLines, String.toList_join]
    rw [hjoin, List.getLast?_append, ih]
    rfl

/-- What ends with a line break does so when comments are put in and when they are put behind it. -/
theorem getLast?_weave {ps : List Piece} (h : ps.getLast? = some .newline) (pending : List Comment) :
    (String.join (weave pending ps)).toList.getLast? = some '\n' := by
  induction ps generalizing pending with
  | nil => cases h
  | cons p ps ih =>
    cases ps with
    | nil =>
      cases h
      have hjoin : (String.join (weave pending [.newline])).toList =
          '\n' :: (String.join (commentLines 0 pending)).toList := by simp [weave, String.toList_join]
      rw [hjoin]
      exact getLast?_commentLines 0 pending
    | cons q ps =>
      obtain ⟨written, pending', hweave⟩ := weave_cons pending p (q :: ps)
      have hjoin : (String.join (weave pending (p :: q :: ps))).toList =
          (String.join written).toList ++ (String.join (weave pending' (q :: ps))).toList := by
        rw [hweave]
        simp [String.toList_join]
      rw [hjoin, List.getLast?_append, ih h]
      rfl

theorem getLast?_stmts (depth : Nat) {ss : List Stmt} (h : ss ≠ []) :
    (Layout.stmts depth ss).getLast? = some .newline := by
  induction ss with
  | nil => exact absurd rfl h
  | cons s ss ih =>
    rw [Layout.stmts, List.getLast?_append]
    cases ss with
    | nil => simp [Layout.stmts]
    | cons s' ss => rw [ih (List.cons_ne_nil _ _)]; rfl

end Layout

/-- What is printed is empty or ends with a line break. -/
theorem Program.getLast?_print (p : Program) : p.print = "" ∨ p.print.toList.getLast? = some '\n' := by
  obtain ⟨body, comments⟩ := p
  cases body with
  | nil =>
    have hlines := getLast?_commentLines 0 comments
    rw [List.getLast?_cons] at hlines
    cases hcs : (String.join (commentLines 0 comments)).toList.getLast? with
    | none => exact .inl (String.toList_eq_nil_iff.mp (List.getLast?_eq_none_iff.mp hcs))
    | some c =>
      rw [hcs] at hlines
      exact .inr (hcs.trans hlines)
  | cons s ss => exact .inr (getLast?_weave (getLast?_stmts 0 (List.cons_ne_nil s ss)) comments)

/-! ### Statements that are closed -/

/-- The signs that end statements. -/
def Token.Kind.closesStmt : Token.Kind → Bool
  | punct .semi | punct .rbrace => true
  | _ => false

/-- The last token of the text ends a statement. -/
def Layout.Closes (ks : Text) : Prop := ∃ ks' k, ks = ks' ++ [some k] ∧ k.closesStmt = true

theorem Layout.Closes.append {ks : Text} (h : Closes ks) (ks' : Text) : Closes (ks' ++ ks) := by
  obtain ⟨ks'', k, rfl, hk⟩ := h
  exact ⟨ks' ++ ks'', k, (List.append_assoc _ _ _).symm, hk⟩

theorem Layout.closes_semi (ps : List Piece) : Closes (text (ps ++ sign .semi)) :=
  ⟨text ps, .punct .semi, text_append _ _, rfl⟩

theorem Layout.closes_braces (depth : Nat) (ps : List Piece) : Closes (text (braces depth ps)) := by
  rw [text_braces]
  exact ⟨some (.punct .lbrace) :: none :: text ps, .punct .rbrace, rfl, rfl⟩

theorem Layout.Closes.clause {depth : Nat} {s : Stmt} (h : ∀ depth, Closes (text (s.layout depth))) (sameLine : Bool) :
    Closes (text (Layout.clause sameLine depth s (s.layout (clauseDepth sameLine depth)))) := by
  rw [text_clause]
  cases sameLine with
  | true => exact h _
  | false => exact (h _).append [none, none]

theorem Block.closes (b : Block) (depth : Nat) : Closes (text (b.layout depth)) := by
  obtain ⟨span, ss⟩ := b
  cases ss with
  | nil => exact ⟨[some (.punct .lbrace), none], .punct .rbrace, rfl, rfl⟩
  | cons s ss =>
    rw [Block.layout]
    · exact closes_braces depth _
    · exact List.cons_ne_nil _ _

theorem FunctionBody.closes (b : FunctionBody) (depth : Nat) : Closes (text (b.layout depth)) := by
  cases b with
  | block b => simpa [FunctionBody.layout] using b.closes depth
  | concise e =>
    rw [FunctionBody.layout]
    exact closes_braces depth _

theorem Handler.closes (k : Handler) (depth : Nat) : Closes (text (k.layout depth)) := by
  obtain ⟨span, param, b⟩ := k
  cases param <;> (rw [Handler.layout, text_append]; exact (b.closes depth).append _)

/-- A statement ends with a semicolon or a brace. -/
theorem Node.Made.closes {L : Lexis} {lo hi : Nat} {s : Stmt} (h : (Node.stmt s).Made L lo hi) (depth : Nat) :
    Closes (text (s.layout depth)) := by
  have hall : ∀ {lo hi : Nat} {n : Node}, n.Made L lo hi → ∀ s, n = .stmt s → ∀ depth, Closes (text (s.layout depth)) := by
    intro lo hi n hn
    refine hn.byParts (P := fun _ _ n => ∀ s, n = .stmt s → ∀ depth, Closes (text (s.layout depth))) nofun ?_
    rintro lo hi n - hproper - ih s rfl depth
    have hpart : ∀ {s'}, Node.stmt s' ∈ s.parts → ∀ depth, Closes (text (s'.layout depth)) := fun hs' => by
      obtain ⟨_, _, hs⟩ := ih.mem hs'
      exact hs _ rfl
    cases s with
    | function fn =>
      rw [Stmt.layout, Function.layout_of_not_arrow hproper.1, text_append]
      exact (fn.body.closes depth).append _
    | ifElse span test consequent alternate =>
      cases alternate with
      | none =>
        rw [Stmt.layout, List.append_nil, text_append]
        exact (Closes.clause (hpart (by simp [Stmt.parts])) _).append _
      | some s =>
        have hs : ∀ depth, Closes (text (s.layout depth)) := hpart (by simp [Stmt.parts])
        rw [Stmt.layout, text_append, text_append (_ ++ keyword .kwElse)]
        exact ((Closes.clause hs _).append _).append _
    | forLoop span init test update body =>
      have hpart : ∀ depth, Closes (text (body.layout depth)) := hpart (by simp [Stmt.parts])
      have hbody : Closes (text (clause (isBlock body) depth body _)) := Closes.clause hpart (isBlock body)
      cases test <;> cases update <;> (rw [Stmt.layout, text_append]; exact hbody.append _)
    | forEach span target values e body =>
      rw [Stmt.layout, text_append]
      exact (Closes.clause (hpart (by simp [Stmt.parts])) _).append _
    | «while» span test body =>
      rw [Stmt.layout, text_append]
      exact (Closes.clause (hpart (by simp [Stmt.parts])) _).append _
    | switch span subject cases =>
      rw [Stmt.layout, text_append]
      exact (closes_braces _ _).append _
    | tryCatch span body handler finalizer =>
      cases finalizer with
      | some b =>
        cases handler <;>
          (rw [Stmt.layout, text_append, text_append _ (b.layout depth)]; exact ((b.closes depth).append _).append _)
      | none =>
        cases handler with
        | none => exact absurd hproper (by simp [Node.Proper, Stmt.Proper])
        | some k =>
          rw [Stmt.layout, List.append_nil, text_append, text_append]
          exact ((k.closes depth).append _).append _
    | block b =>
      rw [Stmt.layout]
      exact b.closes depth
    | ret span e site => cases e <;> (rw [Stmt.layout]; exact closes_semi _)
    | empty => exact closes_semi []
    | _ => rw [Stmt.layout]; exact closes_semi _
  exact hall h s rfl depth

/-! ### Slashes behind a closed statement -/

section
variable {before last : Option Token.Kind} {k : Token.Kind} {ks ks' : Text}

/-- Two readers that agree on the next slash and on what comes behind any token read all slashes alike. -/
theorem Layout.slashesStand_congr {before' last' : Option Token.Kind}
    (hnext : Token.regexAllowed before last = Token.regexAllowed before' last')
    (hbehind : ∀ k, Token.regexAllowed last (some k) = Token.regexAllowed last' (some k)) :
    SlashesStand before last ks ↔ SlashesStand before' last' ks := by
  induction ks generalizing before last before' last' with
  | nil => exact Iff.rfl
  | cons k ks ih =>
    cases k with
    | none => exact ih hnext hbehind
    | some k =>
      refine and_congr ?_ (ih (hbehind k) fun _ => rfl)
      rw [Token.Kind.standsAfter, Token.Kind.standsAfter, hnext]

/-- Behind a closed statement slashes stand where they do at the start of a text. -/
theorem Layout.slashesStand_of_closesStmt (hk : k.closesStmt = true) (before : Option Token.Kind) :
    SlashesStand before (some k) ks ↔ SlashesStand none none ks := by
  obtain rfl | rfl : k = .punct .semi ∨ k = .punct .rbrace := by
    unfold Token.Kind.closesStmt at hk
    split at hk
    · exact .inl rfl
    · exact .inr rfl
    · cases hk
  all_goals
    refine slashesStand_congr rfl fun k => ?_
    cases k with
    | contextual word => cases word <;> rfl
    | _ => rfl

/-- A text behind closed statements. -/
theorem Layout.slashesStand_append (hks : ks = [] ∨ ∃ ks₀ k, ks = ks₀ ++ [some k, none] ∧ k.closesStmt = true) :
    SlashesStand none none (ks ++ ks') ↔ SlashesStand none none ks ∧ SlashesStand none none ks' := by
  have hsplit : ∀ (ks₀ : Text) before last k, k.closesStmt = true → (SlashesStand before last (ks₀ ++ some k :: none :: ks') ↔
      SlashesStand before last (ks₀ ++ [some k, none]) ∧ SlashesStand none none ks') := by
    intro ks₀
    induction ks₀ with
    | nil =>
      intro before last k hk
      exact and_congr (iff_of_eq (and_true _)).symm (slashesStand_of_closesStmt hk last)
    | cons k₀ ks₀ ih =>
      intro before last k hk
      cases k₀ with
      | none => exact ih before last k hk
      | some k₀ =>
        refine Iff.trans (and_congr_right fun _ => ih last (some k₀) k hk) ?_
        exact and_assoc.symm
  rcases hks with rfl | ⟨ks₀, k, rfl, hk⟩
  · exact (iff_of_eq (true_and _)).symm
  · rw [List.append_assoc]
    exact hsplit ks₀ none none k hk

end

/-! ### Statements behind statements -/

section
variable {α : Type} {stop : Cursor → Bool} {item : Parse α} {size size' : Nat} {c c' : Cursor} {as : List α}

/-- What one round of a loop does. -/
theorem Parse.manyFrom_succ_eq_ok : manyFrom stop item (size + 1) c = .ok as c' ↔
    stop c = true ∧ as = [] ∧ c' = c ∨
    stop c = false ∧ ∃ a c₁ rest, item c = .ok a c₁ ∧ manyFrom stop item size c₁ = .ok rest c' ∧ as = a :: rest := by
  constructor
  · intro h
    obtain ⟨_, _, hlook, h⟩ := Parse.bind_eq_ok h
    cases hlook
    cases hstop : stop c with
    | true =>
      rw [hstop] at h
      cases h
      exact .inl ⟨rfl, rfl, rfl⟩
    | false =>
      rw [hstop] at h
      obtain ⟨a, c₁, hitem, h⟩ := Parse.bind_eq_ok h
      obtain ⟨rest, c₂, hmore, h⟩ := Parse.bind_eq_ok h
      cases h
      exact .inr ⟨rfl, a, c₁, rest, hitem, hmore, rfl⟩
  · rintro (⟨hstop, rfl, rfl⟩ | ⟨hstop, a, c₁, rest, hitem, hmore, rfl⟩)
    · change (if stop c' = true then _ else _ : Parse (List α)) c' = _
      rw [hstop]
      rfl
    · change (if stop c = true then _ else _ : Parse (List α)) c = _
      rw [hstop]
      exact (Parse.bind_ok hitem).trans (Parse.bind_ok hmore)

/-- A loop that ends within some rounds ends alike within more. -/
theorem Parse.manyFrom_of_le (hle : size ≤ size') (h : manyFrom stop item size c = .ok as c') :
    manyFrom stop item size' c = .ok as c' := by
  induction size generalizing size' c as with
  | zero => cases h
  | succ size ih =>
    obtain ⟨size', rfl⟩ : ∃ n, size' = n + 1 := ⟨size' - 1, by omega⟩
    rw [Parse.manyFrom_succ_eq_ok] at h ⊢
    rcases h with h | ⟨hstop, a, c₁, rest, hitem, hmore, rfl⟩
    · exact .inl h
    · exact .inr ⟨hstop, a, c₁, rest, hitem, ih (Nat.le_of_succ_le_succ hle) hmore, rfl⟩

end

section
variable {ι : Type} {t : ι → Text} {f : ι → Stmt} {lo hi d : Nat} {xs : List ι} {rest : Text} {line : Bool} {c : Cursor}

/-- Statements on lines of their own are read, and what is behind them is read as if it stood alone. -/
theorem manyFrom_lines (hrun : Run (fun lo hi x => ReadableStmt lo hi (t x) (f x)) lo hi xs)
    (hends : (first rest).EndsStmts) (hcount : count (lines (xs.map t) ++ none :: rest) < d)
    (hc : c.Ready line false lo (lines (xs.map t) ++ none :: rest)) :
    ∃ ss c', c'.Ready false false hi (none :: rest) ∧ Bare.stmts ss = xs.map f ∧
      ∀ {as e}, (∀ size, count rest + 1 < size →
          Parse.manyFrom (·.isAt .eof) (Grammar.rules [] d).statement size c' = .ok as e) →
        ∀ size, count (lines (xs.map t) ++ none :: rest) + 1 < size →
          Parse.manyFrom (·.isAt .eof) (Grammar.rules [] d).statement size c = .ok (ss ++ as) e := by
  induction hrun generalizing c line with
  | nil => exact ⟨[], c, hc.of_none.none, rfl, fun h size hsize => h size hsize⟩
  | @cons _ _ _ x xs hx hxs ih =>
    rw [List.map_cons, lines_cons_append, count_none] at hcount
    rw [List.map_cons, lines_cons_append] at hc
    have hnext : (first (lines (xs.map t) ++ none :: rest)).EndsStmts := by
      cases hxs with
      | nil => exact hends
      | cons hy _ =>
        rw [List.map_cons, lines_cons_append]
        exact hy.endsStmts _
    obtain ⟨s, c₁, hs, hc₁, hbare⟩ := hx.callStatement (Nat.lt_of_succ_le hcount) (Nat.le_refl _) (hnext.leaves _) hc.of_none
    rw [count_append, count_none] at hcount
    obtain ⟨ss, c', hc', hss, hloop⟩ := ih (by omega) hc₁.of_none
    refine ⟨s :: ss, c', hc', ?_, fun h size hsize => ?_⟩
    · rw [Bare.stmts, hss, hbare, List.map_cons]
    · rw [List.map_cons, lines_cons_append, count_none, count_append, count_none] at hsize
      have hpos := hx.count_pos
      obtain ⟨size, rfl⟩ : ∃ n, size = n + 1 := ⟨size - 1, by omega⟩
      have hstop : c.isAt .eof = false := by
        rw [hc.isAt]
        simpa using hx.first_ne (k := .eof) rfl _
      exact Parse.manyFrom_succ_eq_ok.mpr (.inr ⟨hstop, s, c₁, ss ++ _, hs, hloop h size (by omega), rfl⟩)

theorem Layout.Fits.of_concat_none {ts : List Token} {ks : Text} (h : Fits line ts (ks ++ [none])) : Fits line ts ks := by
  induction ks generalizing line ts with
  | nil =>
    cases h with
    | line h =>
      cases h with
      | eof ht => exact .eof ht
  | cons k ks ih =>
    cases h with
    | line h => exact .line (ih h)
    | token ht h => exact .token ht (ih h)

theorem Grammar.parse_eq_ok {α : Type} {g : Grammar} {p : Rules → Parse α} {tokens : List Token} {a : α} :
    g.parse p tokens = .ok a ↔ ∃ c, p (g.rules (tokens.length + 1)) (.start tokens) = .ok a c := by
  have hrun : g.run p (.start tokens) = p (g.rules (tokens.length + 1)) (.start tokens) := rfl
  rw [Grammar.parse, hrun]
  cases p (g.rules (tokens.length + 1)) (.start tokens) with
  | ok a' c => simp
  | error e c => simp

/-- Two programs one behind the other are read as both. The numbers of the return statements of the second one go
    on from those of the first, so it has the code of what is read where it stands alone. -/
theorem parse_lines_append {κ : Type} {u : κ → Text} {g : κ → Stmt} {hi' : Nat} {ys : List κ} {tokens : List Token}
    (hxs : Run (fun lo hi x => ReadableStmt lo hi (t x) (f x)) 0 hi xs)
    (hys : Run (fun lo hi y => ReadableStmt lo hi (u y) (g y)) 0 hi' ys)
    (hfits : Fits false tokens (lines (xs.map t) ++ lines (ys.map u))) :
    ∃ ss ss₁ ss₂, Grammar.parse [] Grammar.program tokens = .ok (ss ++ ss₂) ∧ Bare.stmts ss = xs.map f ∧
      Bare.stmts ss₁ = ys.map g ∧ List.Forall₂ Node.SameCode (ss₁.map .stmt) (ss₂.map .stmt) := by
  obtain ⟨rest, hrest, hends⟩ : ∃ rest, lines (ys.map u) ++ [none] = none :: rest ∧ (first rest).EndsStmts := by
    cases hys with
    | nil => exact ⟨[], rfl, nofun, nofun⟩
    | cons hy _ =>
      rw [List.map_cons, lines_cons_append]
      exact ⟨_, rfl, hy.endsStmts _⟩
  have hc : (Cursor.start tokens).Ready false false 0 (lines (xs.map t) ++ none :: rest) := by
    rw [← hrest, ← List.append_assoc]
    exact ⟨hfits.concat_none, rfl, rfl⟩
  have hlength : tokens.length = count (lines (xs.map t) ++ none :: rest) + 1 := hc.length
  obtain ⟨ss, c', hc', hss, hloop⟩ := manyFrom_lines (d := tokens.length + 1) hxs hends (by omega) hc
  -- what is behind the first program is a program of its own
  obtain ⟨ss₁, hparse, hss₁⟩ := parse_program hys (Fits.of_concat_none (hrest ▸ hc'.fits))
  obtain ⟨e, hrun⟩ := Grammar.parse_eq_ok.mp hparse
  have hbeside : (Cursor.start c'.rest).Beside c' := ⟨rfl, hc'.noIn.symm⟩
  have hlength' : c'.rest.length = count rest + 1 := hc'.length
  have hle : c'.rest.length + 1 ≤ tokens.length + 1 := by
    rw [count_append, count_none] at hlength
    omega
  obtain ⟨ss₂, e', hrun', hcode⟩ := Grammar.program_elsewhere hle hbeside hrun
  refine ⟨ss, ss₁, ss₂, Grammar.parse_eq_ok.mpr ⟨e', ?_⟩, hss, hss₁, hcode⟩
  exact hloop (fun size hsize => Parse.manyFrom_of_le (by omega) hrun') (tokens.length + 1) (by omega)

end

/-! ### Layouts of other places -/

namespace Piece

theorem text_outline (p : Piece) : p.outline.text = p.text := by cases p <;> rfl

theorem spelled_outline {p : Piece} : p.outline.Spelled ↔ p.Spelled := by cases p <;> exact Iff.rfl

theorem startsLine_outline (p : Piece) : p.outline.startsLine = p.startsLine := by cases p <;> rfl

theorem endsLine_outline (p : Piece) : p.outline.endsLine = p.endsLine := by cases p <;> rfl

theorem isComments_outline (p : Piece) : p.outline.isComments = p.isComments := by cases p <;> rfl

theorem outline_eq_token {p : Piece} {k : Token.Kind} : p.outline = token k ↔ p = token k := by
  cases p with
  | token => exact Iff.rfl
  | _ => exact ⟨nofun, nofun⟩

theorem before_outline {p q : Piece} : p.outline.Before q.outline ↔ p.Before q := by
  cases p with
  | token k =>
    refine and_congr (by rw [startsLine_outline]) (forall_congr' fun k' => ?_)
    rw [outline_eq_token]
  | _ => exact or_congr Iff.rfl (by rw [isComments_outline])

end Piece

namespace Layout

variable {ps qs : List Piece}

theorem text_outline (ps : List Piece) : text (outline ps) = text ps := by
  rw [text, outline, List.flatMap_map]
  exact List.flatMap_congr fun p _ => p.text_outline

theorem lines_outline : Lines (outline ps) ↔ Lines ps := by
  have hspelled : (∀ p ∈ outline ps, p.Spelled) ↔ ∀ p ∈ ps, p.Spelled := by
    simp [outline, Piece.spelled_outline]
  have hchain : (outline ps).IsChain Piece.Before ↔ ps.IsChain Piece.Before := by
    simp only [outline, List.isChain_map, Piece.before_outline]
  have hclosed : Closed (outline ps) ↔ Closed ps := by
    simp [Closed, outline, Piece.endsLine_outline]
  constructor
  · intro h
    exact ⟨⟨hspelled.mp h.spelled, hchain.mp h.chain⟩, hclosed.mp h.closed⟩
  · intro h
    exact ⟨⟨hspelled.mpr h.spelled, hchain.mpr h.chain⟩, hclosed.mpr h.closed⟩

end Layout

/-! ### Printed programs -/

theorem Program.comments_legal {g : Grammar} {source : String} {p : Program} (h : g.parseProgram source = .ok p) :
    ∀ c ∈ p.comments, c.Legal := by
  obtain ⟨lexed, stmts, hread, -, rfl⟩ := Grammar.parseProgram_eq_ok.mp h
  rw [Grammar.read] at hread
  cases hlexed : Lexed.read g.scan source with
  | error e =>
    rw [hlexed] at hread
    cases hread
  | ok lexed' =>
    rw [hlexed] at hread
    cases hread
    exact Lexed.comments_legal hlexed

section
variable {p q : Program}

/-- A printed program that is read again as it was. -/
structure Program.Reprinted (p q : Program) : Prop where
  lines : Lines (Layout.stmts 0 p.body)
  text : p.text = q.text
  slashes : SlashesStand none none q.text
  notes : q.comments.map Comment.note = p.comments.map Comment.note
  readable : ∃ hi, Run (fun lo hi s => ReadableStmt lo hi (Layout.text (s.layout 0)) s.bare) 0 hi q.body

theorem Program.reprinted (hlegal : ∀ c ∈ p.comments, c.Legal) (hq : Grammar.parseProgram [] p.print = .ok q)
    (hcode : List.Forall₂ Node.SameCode q.nodes p.nodes) : Program.Reprinted p q := by
  obtain ⟨hi, hmade⟩ := Program.made_of_parse hq
  -- it is laid out as what is read
  have houtline := Layout.outline_program hcode 0
  have hlines : Lines (Layout.stmts 0 p.body) := by
    rw [← lines_outline, ← houtline, lines_outline]
    refine lines_stmts fun s hs => ?_
    obtain ⟨_, _, hs⟩ := hmade.mem hs
    exact hs.spaced 0
  have htext : p.text = q.text := by
    rw [Program.text, Program.text, ← text_outline (Layout.stmts 0 p.body), ← houtline, text_outline]
  -- so its tokens and comments are those of what is read
  obtain ⟨lexed, hread, hcomments⟩ : ∃ lexed, Grammar.read [] p.print = .ok lexed ∧ q.comments = lexed.comments := by
    obtain ⟨lexed, stmts, hread, -, rfl⟩ := Grammar.parseProgram_eq_ok.mp hq
    exact ⟨lexed, hread, rfl⟩
  have hrestores : Restores none none false p.print.toList p.text (p.comments.map Comment.note) :=
    hlines.restores_alone hlines.closed hlegal none none false
  rw [htext] at hrestores
  obtain ⟨hgood, hbad⟩ := hrestores p.print.length 0 (Nat.le_of_eq String.length_toList)
  have hslashes : SlashesStand none none q.text := by
    by_contra hstand
    refine hbad hstand lexed (Grammar.read_nil_eq_ok.mp hread) ?_
    rw [Program.slashes_of_parse hq hread, Program.slashes_text hq]
  obtain ⟨lexed', hread', hfits, hnotes⟩ := hgood hslashes
  cases (Grammar.read_nil_eq_ok.mp hread).symm.trans hread'
  have hheads := Program.exposedHeads_of_fits hmade hq hread (List.forall₂_same.mpr fun n _ => Node.SameCode.refl n) hfits
  refine ⟨hlines, htext, hslashes, hcomments ▸ hnotes, hi, hmade.imp fun s hs _ _ hs' => ?_⟩
  exact hs'.recovered (hs'.all_clearHead (List.flatMap_eq_nil_iff.mp hheads s hs)) 0

/-- The text of a program is empty, or its last token closes a statement. -/
theorem Program.text_closes {source : String} (hq : Grammar.parseProgram [] source = .ok q) :
    q.text = [] ∨ ∃ ks k, q.text = ks ++ [some k, none] ∧ k.closesStmt = true := by
  obtain ⟨hi, hmade⟩ := Program.made_of_parse hq
  rw [Program.text, text_stmts]
  rcases List.eq_nil_or_concat q.body with hbody | ⟨ss, s, hbody⟩
  · rw [hbody]
    exact .inl rfl
  · obtain ⟨_, _, hs⟩ := hmade.mem (a := s) (by simp [hbody])
    obtain ⟨ks, k, hks, hk⟩ := hs.closes 0
    refine .inr ⟨lines (ss.map fun s => Layout.text (s.layout 0)) ++ none :: ks, k, ?_, hk⟩
    simp [hbody, lines, hks]

theorem Program.text_head (q : Program) : ∀ k ∈ q.text.head?, k = none := by
  intro k hk
  rw [Program.text, text_stmts] at hk
  cases hbody : q.body with
  | nil =>
    rw [hbody] at hk
    cases hk
  | cons s ss =>
    rw [hbody] at hk
    cases hk
    rfl

end

/-- Printed programs one behind the other are read as one program, which has the statements of both and their
    comments, if each of them is read again as it was. -/
theorem parseProgram_print_append {g₁ g₂ : Grammar} {source₁ source₂ : String} {p₁ p₂ q₁ q₂ : Program}
    (hp₁ : g₁.parseProgram source₁ = .ok p₁) (hp₂ : g₂.parseProgram source₂ = .ok p₂)
    (hq₁ : Grammar.parseProgram [] p₁.print = .ok q₁) (hq₂ : Grammar.parseProgram [] p₂.print = .ok q₂)
    (hcode₁ : List.Forall₂ Node.SameCode q₁.nodes p₁.nodes) (hcode₂ : List.Forall₂ Node.SameCode q₂.nodes p₂.nodes) :
    (p₁.print = "" ∨ p₁.print.toList.getLast? = some '\n') ∧
    ∃ r, Grammar.parseProgram [] (p₁.print ++ p₂.print) = .ok r ∧
      List.Forall₂ Node.SameCode r.nodes (q₁.nodes ++ q₂.nodes) ∧
      r.comments.map Comment.note = q₁.comments.map Comment.note ++ q₂.comments.map Comment.note := by
  refine ⟨p₁.getLast?_print, ?_⟩
  have hlegal₁ := Program.comments_legal hp₁
  have hlegal₂ := Program.comments_legal hp₂
  have h₁ := Program.reprinted hlegal₁ hq₁ hcode₁
  have h₂ := Program.reprinted hlegal₂ hq₂ hcode₂
  -- the tokens and comments
  have hboth : Restores none none false (p₁.print.toList ++ p₂.print.toList) (p₁.text ++ p₂.text)
      (p₁.comments.map Comment.note ++ p₂.comments.map Comment.note) :=
    h₁.lines.restores h₁.lines.closed hlegal₁ p₂.text_head
      (fun before last => h₂.lines.restores_alone h₂.lines.closed hlegal₂ before last true) none none false
  rw [← String.toList_append, h₁.text, h₂.text] at hboth
  have hstand : SlashesStand none none (q₁.text ++ q₂.text) :=
    (slashesStand_append (Program.text_closes hq₁)).mpr ⟨h₁.slashes, h₂.slashes⟩
  obtain ⟨lexed, hread, hfits, hnotes⟩ :=
    (hboth (p₁.print ++ p₂.print).length 0 (Nat.le_of_eq String.length_toList)).1 hstand
  -- the statements
  obtain ⟨hi₁, hrun₁⟩ := h₁.readable
  obtain ⟨hi₂, hrun₂⟩ := h₂.readable
  rw [Program.text, Program.text, text_stmts, text_stmts] at hfits
  obtain ⟨ss, ss₁, ss₂, hparse, hss, hss₁, hcode⟩ := parse_lines_append hrun₁ hrun₂ hfits
  rw [← Bare.stmts_eq] at hss hss₁
  refine ⟨⟨ss ++ ss₂, lexed.comments⟩, ?_, ?_, ?_⟩
  · exact Grammar.parseProgram_eq_ok.mpr ⟨lexed, _, Grammar.read_nil_eq_ok.mpr hread, hparse, rfl⟩
  · have hbehind : List.Forall₂ Node.SameCode q₂.nodes (ss₂.map .stmt) :=
      forall₂_comp (R := Node.SameCode) (S := Node.SameCode) (fun _ _ _ => Node.SameCode.trans)
        (Node.SameCode.stmts_of_bare hss₁.symm) hcode
    rw [Program.nodes, List.map_append]
    exact List.rel_append (Node.SameCode.stmts_of_bare hss) (hbehind.imp fun _ _ => Node.SameCode.symm).flip
  · rw [hnotes, h₁.notes, h₂.notes]

/-- Behind a branch without `else` and a comment, a regular expression starts a statement. -/
theorem parseProgram_print_append_branch : ∃ p₁ p₂ q₁ q₂ r, Grammar.parseProgram [] "if (a) b // end" = .ok p₁ ∧
    Grammar.parseProgram [] "/re/.test(c) /* all */" = .ok p₂ ∧
    p₁.print = "if (a)\n    b;\n// end\n" ∧ p₂.print = "/re/.test(c);\n/* all */\n" ∧
    Grammar.parseProgram [] p₁.print = .ok q₁ ∧ Grammar.parseProgram [] p₂.print = .ok q₂ ∧
    Grammar.parseProgram [] (p₁.print ++ p₂.print) = .ok r ∧ List.Forall₂ Node.SameCode r.nodes (q₁.nodes ++ q₂.nodes) ∧
    r.comments.map Comment.note = q₁.comments.map Comment.note ++ q₂.comments.map Comment.note := by
  have hread₁ : (Grammar.parseProgram [] "if (a) b // end").toOption.any (fun p => p.headIns.isEmpty &&
      decide (SlashesStand none none p.text) && p.print == "if (a)\n    b;\n// end\n") = true := by
    decide +kernel
  have hread₂ : (Grammar.parseProgram [] "/re/.test(c) /* all */").toOption.any (fun p => p.headIns.isEmpty &&
      decide (SlashesStand none none p.text) && p.print == "/re/.test(c);\n/* all */\n") = true := by
    decide +kernel
  obtain ⟨p₁, hp₁, hprint₁⟩ := Except.exists_of_any hread₁
  obtain ⟨p₂, hp₂, hprint₂⟩ := Except.exists_of_any hread₂
  simp only [Bool.and_eq_true, List.isEmpty_iff, decide_eq_true_eq, beq_iff_eq] at hprint₁ hprint₂
  obtain ⟨q₁, hq₁, hbare₁⟩ := Program.reparse hp₁ hprint₁.1.2 hprint₁.1.1
  obtain ⟨q₂, hq₂, hbare₂⟩ := Program.reparse hp₂ hprint₂.1.2 hprint₂.1.1
  obtain ⟨-, r, hr, hcode, hnotes⟩ := parseProgram_print_append hp₁ hp₂ hq₁ hq₂ (Node.SameCode.stmts_of_bare hbare₁)
    (Node.SameCode.stmts_of_bare hbare₂)
  exact ⟨p₁, p₂, q₁, q₂, r, hp₁, hp₂, hprint₁.2, hprint₂.2, hq₁, hq₂, hr, hcode, hnotes⟩

end LabelWeaver
