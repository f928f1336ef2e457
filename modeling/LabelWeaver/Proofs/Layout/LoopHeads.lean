import LabelWeaver.Proofs.Grammar.Elsewhere
import LabelWeaver.Proofs.Layout.Aligned
import LabelWeaver.Proofs.Layout.Halting

/-! Heads of loops. A program without slashes survives being printed if and only if no loop has a head whose
    layout exposes the operator `in`: the parentheses that hid the operator in the source are not
    printed, and without them the reader stops at it. -/

namespace LabelWeaver

open Layout

/-! ### Loops with exposed heads -/

/-- A loop whose head is laid out with `in` outside brackets. -/
def Node.exposedHead : Node → List Span
  | stmt (.forLoop span init _ _ _) => if init.exposesIn then [span] else []
  | stmt (.forEach span target _ _ _) => if target.exposesIn then [span] else []
  | _ => []

/-- The loops of a program whose heads are laid out with `in` outside brackets. -/
def Program.exposedHeads (p : Program) : List Span := p.body.flatMap fun s => (Node.stmt s).gather Node.exposedHead

theorem Node.clearHead_of_exposedHead {n : Node} (h : n.exposedHead = []) : n.ClearHead := by
  unfold Node.ClearHead
  split
  · simpa [exposedHead] using h
  · simpa [exposedHead] using h
  · trivial

theorem Node.exposedHead_of_clearHead {n : Node} (h : n.ClearHead) : n.exposedHead = [] := by
  unfold exposedHead
  split
  · rw [if_neg (by simpa [ClearHead] using h)]
  · rw [if_neg (by simpa [ClearHead] using h)]
  · rfl

theorem Node.Made.all_clearHead {lo hi : Nat} {n : Node} {L : Lexis} (h : n.Made L lo hi)
    (hn : n.gather Node.exposedHead = []) : n.All Node.ClearHead :=
  h.all_of_gather hn (fun _ hm => Node.clearHead_of_exposedHead hm) trivial

/-! ### Loops that are read from their own layouts -/

theorem Stmt.isEach_skeleton (s : Stmt) : s.skeleton.isEach = s.isEach := by cases s <;> rfl

section
variable {lo hi : Nat} {s s' : Stmt} {ts : List Token} {ks : Text} {line : Bool}

/-- Where a loop was read, it is read however deep productions may call each other and whatever the number of
    the next return statement is. -/
theorem Node.Ran.again (hran : (Node.stmt s).Ran ts) (hloop : s.isLoop = true)
    (hfits : Fits line ts (some (.reserved .kwFor) :: some (.punct .lparen) :: ks)) (site : Nat) :
    ∃ d b span c s' c', count ks < d ∧ c.Ready false b site ks ∧
      Grammar.forHead (Grammar.rules [] d) span c = .ok s' c' ∧ s'.isEach = s.isEach := by
  obtain ⟨depth, c, c', rfl, hrun⟩ : ∃ depth c c', c.rest = ts ∧ Grammar.forStmt (Grammar.rules [] depth) c = .ok s c' := by
    cases s with
    | forLoop => exact hran
    | forEach => exact hran
    | _ => cases hloop
  have hbeside : c.Beside { c with nextSite := site } := ⟨rfl, rfl⟩
  obtain ⟨s', e', hrun', hcode⟩ := Grammar.forStmt_elsewhere (Nat.le_max_left depth (count ks + 1)) hbeside hrun
  have hready : Cursor.Ready line c.noIn site (some (.reserved .kwFor) :: some (.punct .lparen) :: ks)
      { c with nextSite := site } := ⟨hfits, rfl, rfl⟩
  obtain ⟨span, c₁, hready, hhead⟩ := forStmt_head hready hrun'
  refine ⟨_, _, span, c₁, s', e', Nat.lt_of_succ_le (Nat.le_max_right _ _), hready, hhead, ?_⟩
  obtain ⟨_, hs, hskeleton⟩ := hcode.exists_stmt
  cases hs
  rw [← s'.isEach_skeleton, ← hskeleton, s.isEach_skeleton]

/-- The first part of the head of a counting loop that is read from its own layout. -/
theorem ForInit.clear_of_forHead {init : ForInit} {depth d : Nat} {b : Bool} {span : Span} {c c' : Cursor}
    (hmade : (Node.forInit init).Made (.of Token.Kind.Legal) lo hi) (hclear : (Node.forInit init).All Node.ClearHead)
    (hcount : count (text (init.layout depth) ++ ks) < d) (hc : c.Ready false b lo (text (init.layout depth) ++ ks))
    (hrun : Grammar.forHead (Grammar.rules [] d) span c = .ok s c') (hs : s.isEach = false) : init.exposesIn = false := by
  by_contra hin
  have hin : init.exposesIn = true := Bool.not_eq_false _ ▸ hin
  have hparts := hmade.parts rfl
  suffices heach : s.isEach = true by cases hs.symm.trans heach
  cases init with
  | none => cases hin
  | var decl =>
    have htold := (run_singleton_iff.mp hparts).told (hclear.part List.mem_cons_self)
    obtain ⟨ks', hstarts⟩ := (htold.1 depth).starts
    have hfirst : first (text (decl.layout depth) ++ ks) = .reserved decl.bare.kind.word := by rw [hstarts]; rfl
    exact isEach_of_declaration (htold.2 hin depth d) _ hfirst (Nat.le_of_lt hcount) hc hrun
  | expr e =>
    have htold := (run_singleton_iff.mp hparts).told (hclear.part List.mem_cons_self)
    obtain ⟨k, ks', hstarts, hk, -⟩ := (htold.1.readable depth).starts
    have hfirst : (first (text (e.layout depth) ++ ks)).startsExpr = true := by rw [hstarts]; exact hk
    exact isEach_of_expression (htold.2 hin depth).callExpr hfirst hcount hc hrun

theorem ForTarget.clear_of_forHead {target : ForTarget} {depth d : Nat} {b : Bool} {span : Span} {c c' : Cursor}
    (hmade : (Node.forTarget target).Made (.of Token.Kind.Legal) lo hi)
    (hclear : (Node.forTarget target).All Node.ClearHead) (hcount : count (text (target.layout depth) ++ ks) < d)
    (hc : c.Ready false b lo (text (target.layout depth) ++ ks))
    (hrun : Grammar.forHead (Grammar.rules [] d) span c = .ok s c') : target.exposesIn = false := by
  by_contra hin
  have hin : target.exposesIn = true := Bool.not_eq_false _ ▸ hin
  cases target with
  | var kind p =>
    have hproper : p.isDeclared = true := hmade.proper
    have htold := (run_singleton_iff.mp (hmade.parts rfl)).told (hclear.part List.mem_cons_self)
    have hlayout : text ((ForTarget.var kind p).layout depth) = some (.reserved kind.word) :: text (p.layout depth) := by
      simp [ForTarget.layout]
    have hhalts := Halts.eachTarget kind (htold.2 hin depth) (by rw [p.isBinding_bare]; exact (Pattern.isDeclared_iff.mp hproper).1) d
    rw [hlayout] at hcount hc
    exact forHead_dies hhalts kind rfl (Nat.le_of_lt hcount) hc hrun
  | expr e => cases hin

/-- The head of a loop that is read from its own layout exposes nothing. -/
theorem Stmt.clearHead_of_reread (hmade : (Node.stmt s).Made (.of Token.Kind.Legal) lo hi)
    (hparts : ∀ m ∈ s.parts, m.All Node.ClearHead) (h : (Node.stmt s).Reread) : (Node.stmt s).ClearHead := by
  have hrun := hmade.parts rfl
  cases s with
  | forLoop span init test update body =>
    obtain ⟨s', depth, line, ts, rest, hcode, hran, hfits⟩ := h rfl
    obtain ⟨mid, hinit, -⟩ := run_cons_iff.mp hrun
    obtain ⟨_, hs', hskeleton⟩ := hcode.exists_stmt
    cases hs'
    have hloop : s'.isLoop = true ∧ s'.isEach = false := by
      rw [← s'.isLoop_skeleton, ← s'.isEach_skeleton, hskeleton]
      exact ⟨rfl, rfl⟩
    rw [Stmt.text_forLoop, List.cons_append, List.cons_append, List.append_assoc] at hfits
    obtain ⟨d, b, span', c, s₁, c', hcount, hready, hhead, heach⟩ := hran.again hloop.1 hfits lo
    exact ForInit.clear_of_forHead hinit (hparts _ List.mem_cons_self) hcount hready hhead (heach.trans hloop.2)
  | forEach span target values e body =>
    obtain ⟨s', depth, line, ts, rest, hcode, hran, hfits⟩ := h rfl
    obtain ⟨mid, htarget, -⟩ := run_cons_iff.mp hrun
    obtain ⟨_, hs', hskeleton⟩ := hcode.exists_stmt
    cases hs'
    have hloop : s'.isLoop = true := by
      rw [← s'.isLoop_skeleton, hskeleton]
      rfl
    rw [Stmt.text_forEach, List.cons_append, List.cons_append, List.append_assoc] at hfits
    obtain ⟨d, b, span', c, s₁, c', hcount, hready, hhead, -⟩ := hran.again hloop hfits lo
    exact ForTarget.clear_of_forHead htarget (hparts _ List.mem_cons_self) hcount hready hhead
  | _ => trivial

/-- No head inside a tree is exposed if all loops are read from their own layouts. -/
theorem Node.Made.exposedHead_of_every {n : Node} (h : n.Made (.of Token.Kind.Legal) lo hi)
    (hevery : n.Every Node.Reread) : n.gather Node.exposedHead = [] := by
  revert hevery
  refine h.byParts (P := fun _ _ n => n.Every Node.Reread → n.gather Node.exposedHead = []) (fun site _ => ?_) ?_
  · rw [Node.gather_eq_nil_iff]
    exact ⟨rfl, nofun⟩
  · intro lo hi n hn hproper hmade ih hevery
    obtain ⟨hself, hbelow⟩ := hevery
    have hparts : ∀ m ∈ n.parts, m.gather Node.exposedHead = [] := fun m hm => by
      obtain ⟨_, _, hm'⟩ := ih.mem hm
      exact hm' (hbelow m hm)
    rw [Node.gather_eq_nil_iff]
    refine ⟨?_, hparts⟩
    cases n with
    | stmt s =>
      refine Node.exposedHead_of_clearHead (Stmt.clearHead_of_reread (.node hn hproper hmade) (fun m hm => ?_) hself)
      obtain ⟨_, _, hm'⟩ := hmade.mem hm
      exact hm'.all_clearHead (hparts m hm)
    | _ => rfl

end

/-! ### Printed programs -/

section
variable {source : String} {p q : Program} {lexed : Lexed}

/-- The printed text of a program exposes no head if a program with the same code is read from it. -/
theorem Program.exposedHeads_of_fits {hi : Nat}
    (hmade : Run (fun lo hi s => (Node.stmt s).Made (.of Token.Kind.Legal) lo hi) 0 hi p.body)
    (hq : Grammar.parseProgram [] source = .ok q) (hread : Grammar.read [] source = .ok lexed)
    (hcode : List.Forall₂ Node.SameCode q.nodes p.nodes) (hfits : Fits false lexed.tokens p.text) :
    p.exposedHeads = [] := by
  obtain ⟨b, hspells, -⟩ := Program.spells hq hread
  have hlays : Lays (p.nodes.map .node) (Layout.stmts 0 p.body) := .stmts fun m hm => by
    obtain ⟨s, hs, rfl⟩ := List.mem_map.mp hm
    obtain ⟨_, _, hs⟩ := hmade.mem hs
    exact hs.laid
  have hfits : Fits false lexed.tokens (Layout.text (Layout.stmts 0 p.body) ++ []) := by rwa [List.append_nil]
  obtain ⟨hevery, -⟩ := hspells.reread hlays (Constituent.same_nodes hcode) hfits (.refl _)
  refine List.flatMap_eq_nil_iff.mpr fun s hs => ?_
  obtain ⟨_, _, hs'⟩ := hmade.mem hs
  refine hs'.exposedHead_of_every (hevery _ ?_)
  rw [nodesOf_nodes]
  exact List.mem_map_of_mem hs

/-- A program without slashes survives being printed if and only if no loop has an exposed head. -/
theorem parseProgram_print_iff (h : Grammar.parseProgram [] source = .ok p) (hslashes : p.slashes = []) :
    (∃ p', Grammar.parseProgram [] p.print = .ok p' ∧ Bare.stmts p'.body = Bare.stmts p.body) ↔ p.exposedHeads = [] := by
  obtain ⟨hi, hmade⟩ := Program.made_of_parse h
  have hstand : SlashesStand none none p.text := slashesStand_of_nil ((Program.slashes_text h).trans hslashes) none none
  constructor
  · rintro ⟨p', hp', hbare⟩
    obtain ⟨lexed, hread, hfits⟩ := (Program.rereads h p.print.length 0 (Nat.le_of_eq String.length_toList)).1 hstand
    exact Program.exposedHeads_of_fits hmade hp' (Grammar.read_nil_eq_ok.mpr hread)
      (Node.SameCode.stmts_of_bare hbare) hfits
  · intro hheads
    refine Program.reparse_of_clear h hstand fun s hs => ?_
    obtain ⟨_, _, hs'⟩ := hmade.mem hs
    exact hs'.all_clearHead (List.flatMap_eq_nil_iff.mp hheads s hs)

/-- In arguments, between `?` and `:` and in a function the operator is not exposed. -/
theorem parseProgram_print_sheltered : ∃ p p',
    Grammar.parseProgram [] "for (var x = f(a in b) ? c in d : () => (a in b);;) ; for (y[a in b] of c) ;" = .ok p ∧
    p.print = "for (var x = f(a in b) ? c in d : () => a in b;;)\n    ;\nfor (y[a in b] of c)\n    ;\n" ∧
    Grammar.parseProgram [] p.print = .ok p' ∧ Bare.stmts p'.body = Bare.stmts p.body := by
  have hread : (Grammar.parseProgram []
      "for (var x = f(a in b) ? c in d : () => (a in b);;) ; for (y[a in b] of c) ;").toOption.any
      (fun p => p.slashes.isEmpty && p.exposedHeads.isEmpty &&
        p.print == "for (var x = f(a in b) ? c in d : () => a in b;;)\n    ;\nfor (y[a in b] of c)\n    ;\n") = true := by
    decide +kernel
  obtain ⟨p, hp, hprint⟩ := Except.exists_of_any hread
  simp only [Bool.and_eq_true, List.isEmpty_iff, beq_iff_eq] at hprint
  obtain ⟨⟨hslashes, hheads⟩, hprint⟩ := hprint
  obtain ⟨p', hp', hbare⟩ := (parseProgram_print_iff hp hslashes).mpr hheads
  exact ⟨p, p', hp, hprint, hp', hbare⟩

/-- The parentheses around the operator are not printed, and the printed text cannot be read. -/
theorem parseProgram_print_in_fails : ∃ p e, Grammar.parseProgram [] "for (var x = (a in b);;) ;" = .ok p ∧
    p.print = "for (var x = a in b;;)\n    ;\n" ∧ Grammar.parseProgram [] p.print = .error e := by
  have hread : (Grammar.parseProgram [] "for (var x = (a in b);;) ;").toOption.any
      (fun p => p.print == "for (var x = a in b;;)\n    ;\n") = true := by
    decide +kernel
  have hagain : (Grammar.parseProgram [] "for (var x = a in b;;)\n    ;\n").toOption.isNone = true := by decide +kernel
  obtain ⟨p, hp, hprint⟩ := Except.exists_of_any hread
  rw [beq_iff_eq] at hprint
  cases he : Grammar.parseProgram [] "for (var x = a in b;;)\n    ;\n" with
  | ok p' => rw [he] at hagain; cases hagain
  | error e => exact ⟨p, e, hp, hprint, hprint ▸ he⟩

end

end LabelWeaver
