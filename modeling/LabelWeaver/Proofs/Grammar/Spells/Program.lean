import LabelWeaver.Proofs.Grammar.Spells.Statements
import LabelWeaver.Proofs.Layout.RoundTrip
import LabelWeaver.Proofs.Token.Partition

/-! Whole programs. The tokens of a source follow each other up to the end of input, and a program is read from
    all of them: its salient tokens are those of the source, and the places that it gives are in order. -/

namespace LabelWeaver

/-! ### The tokens of a source -/

theorem Lexed.Cut.tokensInOrder {pos : Nat} {cs : List Char} {lexed : Lexed} (h : Lexed.Cut pos cs lexed) :
    Token.InOrder pos lexed.tokens := by
  induction h with
  | last => exact ⟨Nat.le_add_right _ _, trivial⟩
  | token _ _ _ _ ih => exact ⟨Nat.le_add_right _ _, ih⟩

theorem Token.Kind.Legal.ne_for {k : Token.Kind} (h : k.Legal) : k ≠ .ident "for" := by
  rintro rfl
  exact absurd h.2 (by decide)

theorem Lexed.lawful_of_read {source : String} {lexed : Lexed} (h : Grammar.read [] source = .ok lexed) :
    Place.Lawful ⟨.zero, lexed.tokens⟩ := by
  have hcut : Lexed.Cut 0 source.toList lexed :=
    Lexed.cut_of_readFrom Scanner.progresses_none (Nat.le_of_eq String.length_toList) (Grammar.read_nil_eq_ok.mp h)
  exact ⟨hcut.tokensInOrder, fun t ht => ((Lexed.legal_of_read h).tokens t ht).ne_for⟩

theorem Lexed.tokens_of_read {source : String} {lexed : Lexed} (h : Grammar.read [] source = .ok lexed) :
    ∃ ts eof, lexed.tokens = ts ++ [eof] ∧ eof.kind = .eof ∧ ∀ t ∈ ts, t.kind ≠ .eof := by
  obtain ⟨ts, newline, htokens, hts⟩ :=
    (Lexed.accounts_of_read Scanner.progresses_none (Grammar.read_nil_eq_ok.mp h)).last
  exact ⟨ts, _, htokens, rfl, hts⟩

/-! ### Programs -/

/-- A loop over items ends where it has to stop. -/
theorem Parse.stop_of_many {α : Type} {stop : Cursor → Bool} {item : Parse α} {c c' : Cursor} {as : List α}
    (h : Parse.many stop item c = .ok as c') : stop c' = true := by
  have hloop : ∀ size {c as}, Parse.manyFrom stop item size c = .ok as c' → stop c' = true := by
    intro size
    induction size with
    | zero => rintro c as ⟨⟩
    | succ size ih =>
      intro c as h
      obtain ⟨b, c₁, hlook, h⟩ := Parse.bind_eq_ok h
      cases hlook
      split at h
      · cases h
        assumption
      · obtain ⟨x, c₂, -, h⟩ := Parse.bind_eq_ok h
        obtain ⟨xs, c₃, hmore, h⟩ := Parse.bind_eq_ok h
        cases h
        exact ih hmore
  exact hloop _ h

/-- The tokens that are read have the salient ones of what they spell. -/
theorem Spells.consumes {ks : List Constituent} {a b : Place} (h : Spells ks a b) :
    ∃ ts, a.rest = ts ++ b.rest ∧ (ts.map Token.kind).filter Token.Kind.isSalient = salientOf ks := by
  induction h with
  | nil => exact ⟨[], rfl, rfl⟩
  | @quiet ks a b t ts hrest hk _ ih =>
    obtain ⟨us, hus, hsalient⟩ := ih
    exact ⟨t :: us, by rw [hrest, List.cons_append, ← hus], by simp [hk, hsalient]⟩
  | @token ks a b t ts hrest hk _ ih =>
    obtain ⟨us, hus, hsalient⟩ := ih
    exact ⟨t :: us, by rw [hrest, List.cons_append, ← hus], by simp [hk, hsalient]⟩
  | mark o _ ih => exact ih
  | @node ks a b c n _ _ _ _ ihown ih =>
    obtain ⟨us, hus, hsalient⟩ := ihown
    obtain ⟨us', hus', hsalient'⟩ := ih
    refine ⟨us ++ us', by rw [hus, hus', List.append_assoc], ?_⟩
    rw [List.map_append, List.filter_append, hsalient, hsalient', salientOf_node, n.salient_eq]

/-- The statements of a program. -/
def Program.nodes (p : Program) : List Node := p.body.map .stmt

section
variable {source : String} {lexed : Lexed} {p : Program}

/-- A program is read from all the tokens of its source. -/
theorem Program.spells (h : Grammar.parseProgram [] source = .ok p) (hread : Grammar.read [] source = .ok lexed) :
    ∃ b, Spells (p.nodes.map .node) ⟨.zero, lexed.tokens⟩ b ∧ ∃ eof, b.rest = [eof] ∧ eof.kind = .eof := by
  obtain ⟨lexed', stmts, hread', hparse, rfl⟩ := Grammar.parseProgram_eq_ok.mp h
  cases hread.symm.trans hread'
  unfold Grammar.parse at hparse
  split at hparse
  · next stmts' c' hrun =>
    cases hparse
    have hstart : (Cursor.start lexed.tokens).place = ⟨.zero, lexed.tokens⟩ := rfl
    have hmany : Takes (.start lexed.tokens) (Parse.many (·.isAt .eof)
        (Grammar.rules [] (lexed.tokens.length + 1)).statement) fun b ss =>
          Spells ((ss.map .stmt).map .node) ⟨.zero, lexed.tokens⟩ b :=
      .many (Spelling.rules _).statement _
    obtain ⟨-, hspells⟩ := hmany (hstart ▸ Lexed.lawful_of_read hread) hrun
    refine ⟨_, hspells, ?_⟩
    obtain ⟨us, hus, -⟩ := hspells.consumes
    obtain ⟨ts, eof, htokens, heof, hts⟩ := Lexed.tokens_of_read hread
    have hstop : c'.isAt .eof = true := Parse.stop_of_many hrun
    -- only the last token is the end of input
    cases hrest : c'.rest with
    | nil => simp [Cursor.isAt, Cursor.kind?, Cursor.peek?, hrest] at hstop
    | cons t rest =>
      have ht : t.kind = .eof := by
        rw [Cursor.isAt, Cursor.kind?_of_rest hrest] at hstop
        simpa using hstop
      rcases List.eq_nil_or_concat rest with rfl | ⟨more, last, rfl⟩
      · exact ⟨t, hrest, ht⟩
      · exfalso
        have hlist : ts ++ [eof] = us ++ t :: more ++ [last] := by
          rw [← htokens]
          simpa [Cursor.place, hrest] using hus
        obtain ⟨rfl, -⟩ := List.append_inj' hlist rfl
        exact hts t (by simp) ht
  · cases hparse

/-- The slashes of a source are those of the tree. -/
theorem Program.slashes_of_parse (h : Grammar.parseProgram [] source = .ok p)
    (hread : Grammar.read [] source = .ok lexed) : Token.slashes lexed.tokens = p.slashes := by
  obtain ⟨b, hspells, eof, hb, heof⟩ := Program.spells h hread
  obtain ⟨ts, hts, hsalient⟩ := hspells.consumes
  have htokens : lexed.tokens = ts ++ [eof] := hb ▸ hts
  have hslash : ∀ ks : List Token.Kind, ks.filter Token.Kind.isSlash =
      (ks.filter Token.Kind.isSalient).filter Token.Kind.isSlash := by
    intro ks
    rw [List.filter_filter]
    refine List.filter_congr fun k _ => ?_
    cases hk : k.isSlash <;> simp [Token.Kind.isSalient, hk]
  have hlast : [eof.kind].filter Token.Kind.isSlash = [] := by rw [heof]; rfl
  rw [Token.slashes, htokens, List.map_append, List.filter_append, List.map_singleton, hlast, List.append_nil, hslash,
    hsalient, salientOf_nodes, List.filter_flatMap, Program.nodes, List.flatMap_map]
  exact List.flatMap_congr fun s _ => (Node.stmt s).filter_salient

/-- The places that a program gives are in order. -/
theorem Program.marks_sorted (h : Grammar.parseProgram [] source = .ok p) :
    (p.nodes.flatMap Node.marks).Pairwise (· ≤ ·) := by
  obtain ⟨lexed, stmts, hread, -, -⟩ := Grammar.parseProgram_eq_ok.mp h
  obtain ⟨b, hspells, -⟩ := Program.spells h hread
  have hsorted := (hspells.ranged (Lexed.lawful_of_read hread)).sorted
  rwa [nodesOf_nodes] at hsorted

end

end LabelWeaver
