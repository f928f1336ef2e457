import LabelWeaver.Proofs.Grammar.Statements
import LabelWeaver.Proofs.Layout.Lays
import LabelWeaver.Proofs.Layout.Readable.Statements
import LabelWeaver.Proofs.Layout.Spacing

/-! Printed programs are read again. The slashes of a program are the one thing that printing can
    spoil: the reader tells a division from a regular expression by the token before it, and printing drops
    the parentheses that told them apart. All other tokens are read as they are printed, and what is read
    is the program again, unless the operator `in` stands in the head of a loop. -/

namespace LabelWeaver

open Layout

/-! ### Finding nothing in a tree -/

/-- Trees of the base language have nothing but their parts, so where nothing is found in them, nothing is
    found at any node inside. -/
theorem Node.Made.all_of_gather {α : Type} {f : Node → List α} {W : Node → Prop} {L : Lexis} {lo hi : Nat} {n : Node}
    (h : n.Made L lo hi) (hn : n.gather f = [])
    (hnode : ∀ {lo hi m}, m.Made L lo hi → f m = [] → W m) (hdemand : W (.demand .none)) : n.All W := by
  revert hn
  refine h.byParts (P := fun _ _ n => n.gather f = [] → n.All W) ?_ ?_
  · intro site hn m hm
    rcases Node.contains_iff.mp hm with rfl | ⟨k, hk, -⟩
    · exact hnode (.site site) (Node.gather_eq_nil_iff.mp hn).1
    · cases hk
  · intro lo hi n hsite hproper hmade ih hn m hm
    obtain ⟨hself, hparts⟩ := Node.gather_eq_nil_iff.mp hn
    rcases Node.contains_iff.mp hm with rfl | ⟨k, hk, hkm⟩
    · exact hnode (.node hsite hproper hmade) hself
    · rcases List.mem_append.mp hk with hk | hk
      · obtain ⟨lo', hi', hall⟩ := ih.mem hk
        exact hall (hparts k hk) m hkm
      · -- there are no annotations
        cases n with
        | binding b =>
          cases List.mem_singleton.mp hk
          rw [show b.demand = .none from hproper] at hkm
          rcases Node.contains_iff.mp hkm with rfl | ⟨k', hk', -⟩
          · exact hdemand
          · cases hk'
        | function fn =>
          rw [Node.metadata, hproper.receiver, hproper.returns, hproper.condition] at hk
          cases hk
        | pattern p =>
          cases p with
          | this => exact hproper.elim
          | _ => cases hk
        | _ => cases hk

/-- The operator `in`. -/
def Node.inSpan : Node → List Span
  | expr (.binary span .in _ _) => [span]
  | _ => []

/-- The operators `in` before the first semicolon of the head of a loop, or before its `of` or `in`. -/
def Node.headIns : Node → List Span
  | stmt (.forLoop _ init _ _ _) => (forInit init).gather inSpan
  | stmt (.forEach _ target _ _ _) => (forTarget target).gather inSpan
  | _ => []

/-- The operators `in` of a program that stand in the heads of loops. -/
def Program.headIns (p : Program) : List Span := p.body.flatMap fun s => (Node.stmt s).gather Node.headIns

section
variable {L : Lexis} {lo hi : Nat} {n : Node}

theorem Node.Made.withoutIn (h : n.Made L lo hi) (hn : n.gather Node.inSpan = []) : n.WithoutIn := by
  refine h.all_of_gather hn (fun {_ _ m} _ hm => ?_) trivial
  unfold Node.NotIn
  split
  · cases hm
  · trivial

theorem Node.Made.clearHead (h : n.Made L lo hi) (hn : n.gather Node.headIns = []) : n.All Node.ClearHead := by
  refine h.all_of_gather hn (fun {_ _ m} hmade hm => ?_) trivial
  unfold Node.ClearHead
  split
  · next span init test update body =>
    obtain ⟨_, _, hinit⟩ := (hmade.parts rfl).mem (a := .forInit init) List.mem_cons_self
    exact ForInit.exposesIn_eq_false (hinit.withoutIn hm)
  · next span target values e body =>
    obtain ⟨_, _, htarget⟩ := (hmade.parts rfl).mem (a := .forTarget target) List.mem_cons_self
    exact ForTarget.exposesIn_eq_false (htarget.withoutIn hm)
  · trivial

end

/-! ### Printed programs -/

/-- What is printed for a program. -/
def Program.text (p : Program) : Text := Layout.text (Layout.stmts 0 p.body)

section
variable {source : String} {p : Program}

theorem Program.made_of_parse (h : Grammar.parseProgram [] source = .ok p) :
    ∃ hi, Run (fun lo hi s => (Node.stmt s).Made (.of Token.Kind.Legal) lo hi) 0 hi p.body := by
  obtain ⟨lexed, stmts, hread, hparse, rfl⟩ := Grammar.parseProgram_eq_ok.mp h
  exact Grammar.made_of_parse (Lexed.legal_of_read hread).tokens hparse

theorem Program.comments_of_parse (h : Grammar.parseProgram [] source = .ok p) : ∀ c ∈ p.comments, c.Legal := by
  obtain ⟨lexed, stmts, hread, hparse, rfl⟩ := Grammar.parseProgram_eq_ok.mp h
  exact (Lexed.legal_of_read hread).comments

theorem Program.rereads (h : Grammar.parseProgram [] source = .ok p) : Rereads none none false p.print.toList p.text := by
  obtain ⟨hi, hmade⟩ := made_of_parse h
  have hlines : Lines (Layout.stmts 0 p.body) := lines_stmts fun s hs => by
    obtain ⟨lo', hi', hs⟩ := hmade.mem hs
    exact hs.spaced 0
  exact hlines.rereads hlines.closed (comments_of_parse h) none none false

theorem Program.slashes_text (h : Grammar.parseProgram [] source = .ok p) : Layout.slashes p.text = p.slashes := by
  obtain ⟨hi, hmade⟩ := made_of_parse h
  have hlays : Lays ((p.body.map Node.stmt).map .node) (Layout.stmts 0 p.body) := .stmts <| List.forall_mem_map.mpr fun s hs => by
    obtain ⟨lo', hi', hs⟩ := hmade.mem hs
    exact hs.laid
  rw [text, hlays.slashes, salientOf_nodes, List.flatMap_map, List.filter_flatMap, slashes]
  exact List.flatMap_congr fun s _ => (Node.stmt s).filter_salient

/-- Printing is undone by reading, if no slash of the printed text is taken for another one and no head of a
    loop exposes `in`. -/
theorem Program.reparse_of_clear (h : Grammar.parseProgram [] source = .ok p) (hslashes : SlashesStand none none p.text)
    (hclear : ∀ s ∈ p.body, (Node.stmt s).All Node.ClearHead) :
    ∃ p', Grammar.parseProgram [] p.print = .ok p' ∧ Bare.stmts p'.body = Bare.stmts p.body := by
  obtain ⟨hi, hmade⟩ := made_of_parse h
  obtain ⟨lexed, hread, hfits⟩ := (rereads h p.print.length 0 (Nat.le_of_eq String.length_toList)).1 hslashes
  have hrun : Run (fun lo hi s => ReadableStmt lo hi (Layout.text (s.layout 0)) s.bare) 0 hi p.body :=
    hmade.imp fun s hs _ _ hmade => hmade.recovered (hclear s hs) 0
  rw [text, text_stmts] at hfits
  obtain ⟨ss, hparse, hss⟩ := parse_program hrun hfits
  refine ⟨⟨ss, lexed.comments⟩, ?_, ?_⟩
  · exact Grammar.parseProgram_eq_ok.mpr ⟨lexed, ss, Grammar.read_nil_eq_ok.mpr hread, hparse, rfl⟩
  · rw [hss, Bare.stmts_eq]

theorem Program.reparse (h : Grammar.parseProgram [] source = .ok p) (hslashes : SlashesStand none none p.text)
    (hin : p.headIns = []) :
    ∃ p', Grammar.parseProgram [] p.print = .ok p' ∧ Bare.stmts p'.body = Bare.stmts p.body := by
  obtain ⟨hi, hmade⟩ := made_of_parse h
  refine reparse_of_clear h hslashes fun s hs => ?_
  obtain ⟨_, _, hs'⟩ := hmade.mem hs
  exact hs'.clearHead (List.flatMap_eq_nil_iff.mp hin s hs)

/-- Printing is undone by reading: what is read is the program, places apart. -/
theorem parseProgram_print (h : Grammar.parseProgram [] source = .ok p) (hslashes : p.slashes = []) (hin : p.headIns = []) :
    ∃ p', Grammar.parseProgram [] p.print = .ok p' ∧ Bare.stmts p'.body = Bare.stmts p.body :=
  Program.reparse h (slashesStand_of_nil ((Program.slashes_text h).trans hslashes) none none) hin

/-- Parentheses, signs, numbers and comments are read as they are printed. -/
theorem parseProgram_print_signs : ∃ p p',
    Grammar.parseProgram [] "a = - -(1).b; // c\nif (x) (function () \x7b\x7d)(); else (\x7b\x7d.y)" = .ok p ∧
    p.print = "a = -(-(1).b);\n// c\nif (x)\n    (function () \x7b\x7d());\nelse\n    (\x7b\x7d.y);\n" ∧
    Grammar.parseProgram [] p.print = .ok p' ∧ Bare.stmts p'.body = Bare.stmts p.body := by
  have hread : (Grammar.parseProgram [] "a = - -(1).b; // c\nif (x) (function () \x7b\x7d)(); else (\x7b\x7d.y)").toOption.any
      (fun p => p.slashes.isEmpty && p.headIns.isEmpty &&
        p.print == "a = -(-(1).b);\n// c\nif (x)\n    (function () \x7b\x7d());\nelse\n    (\x7b\x7d.y);\n") = true := by
    decide +kernel
  obtain ⟨p, hp, hprint⟩ := Except.exists_of_any hread
  simp only [Bool.and_eq_true, List.isEmpty_iff, beq_iff_eq] at hprint
  obtain ⟨⟨hslashes, hin⟩, hprint⟩ := hprint
  obtain ⟨p', hp', hbare⟩ := parseProgram_print hp hslashes hin
  exact ⟨p, p', hp, hprint, hp', hbare⟩

/-- Printed slashes keep their meaning if and only if each of them stands where the reader expects one of its
    kind. -/
theorem read_print_slashes_iff (h : Grammar.parseProgram [] source = .ok p) :
    (∃ lexed, Grammar.read [] p.print = .ok lexed ∧ Token.slashes lexed.tokens = p.slashes) ↔
      SlashesStand none none p.text := by
  obtain ⟨hgood, hbad⟩ := Program.rereads h p.print.length 0 (Nat.le_of_eq String.length_toList)
  constructor
  · rintro ⟨lexed, hread, hslashes⟩
    by_contra hstand
    exact hbad hstand lexed (Grammar.read_nil_eq_ok.mp hread) (hslashes.trans (Program.slashes_text h).symm)
  · intro hstand
    obtain ⟨lexed, hread, hfits⟩ := hgood hstand
    exact ⟨lexed, Grammar.read_nil_eq_ok.mpr hread, hfits.slashes.trans (Program.slashes_text h)⟩

/-- Divisions, regular expressions and assignments of quotients are read as they are printed. -/
theorem read_print_slashes_kinds : ∃ p lexed, Grammar.parseProgram [] "x = a / 2; y = /=/g; (b) /= c" = .ok p ∧
    Grammar.read [] p.print = .ok lexed ∧ Token.slashes lexed.tokens = p.slashes ∧
    p.slashes = [.punct .slash, .regex "=" "g", .punct .slashEq] := by
  have hread : (Grammar.parseProgram [] "x = a / 2; y = /=/g; (b) /= c").toOption.any
      (fun p => decide (SlashesStand none none p.text) && p.slashes == [.punct .slash, .regex "=" "g", .punct .slashEq]) =
        true := by
    decide +kernel
  obtain ⟨p, hp, hstand⟩ := Except.exists_of_any hread
  rw [Bool.and_eq_true, decide_eq_true_eq, beq_iff_eq] at hstand
  obtain ⟨lexed, hlexed, hslashes⟩ := (read_print_slashes_iff hp).mpr hstand.1
  exact ⟨p, lexed, hp, hlexed, hslashes, hstand.2⟩

/-- Printing drops the parentheses around an object before a division, and the printed text cannot be read. -/
theorem read_print_division_fails : ∃ p e, Grammar.parseProgram [] "x = (\x7b\x7d) / 2;" = .ok p ∧
    p.print = "x = \x7b\x7d / 2;\n" ∧ Grammar.read [] p.print = .error e := by
  have hread : (Grammar.parseProgram [] "x = (\x7b\x7d) / 2;").toOption.any (fun p => p.print == "x = \x7b\x7d / 2;\n") =
      true := by
    decide +kernel
  have hagain : (Grammar.read [] "x = \x7b\x7d / 2;\n").toOption.isNone = true := by decide +kernel
  obtain ⟨p, hp, hprint⟩ := Except.exists_of_any hread
  rw [beq_iff_eq] at hprint
  cases he : Grammar.read [] "x = \x7b\x7d / 2;\n" with
  | ok lexed => rw [he] at hagain; cases hagain
  | error e => exact ⟨p, e, hp, hprint, hprint ▸ he⟩

end

end LabelWeaver
