import LabelWeaver.Label.Layer
import LabelWeaver.Proofs.Grammar.Spans.Productions
import LabelWeaver.Proofs.Token.Faults

/-! Diagnostics point into the source. What is wrong with the order of tokens is reported at a span that
    is made of theirs, in the annotation language as in the base language; what is wrong with the
    text itself is reported where it stands, except that the length of a hexadecimal escape is
    taken from its form. -/

namespace LabelWeaver

namespace SpanSet

open Keeps Label

variable {S : SpanSet} {settings : Settings} {r : Rules}

/-! ### Contracts and suffixes -/

section
variable (hr : S.KeepsRules r)

include hr

theorem labelName : S.Keeps (labelName r) (·.span ∈ S) := by
  refine .see fun _ => .ite ?_ (.see fun _ => .ite ?_ .failHere)
  · exact advance.bind fun _ ht => memberTail hr false ht
  · exact expectIdent.bind fun _ hn => memberTail hr false hn

theorem label {parameters : Parse (List Label)} (h : S.Keeps parameters fun _ => True) :
    S.Keeps (label r parameters) fun _ => True := by
  refine here.bind fun _ _ => eat.bind fun _ _ => .ite ?_ ?_
  · exact (labelName hr).bind fun _ _ => .pure trivial
  · refine (labelName hr).bind fun _ _ => eat.bind fun _ _ => .either h (.pure trivial) fun _ _ => eat.bind fun _ _ => ?_
    refine .either (A := fun _ => True) ((exprList hr _).imp fun _ _ => trivial) (.pure trivial) fun _ _ => ?_
    exact .see fun _ => .pure trivial

theorem labels : S.Keeps (labels r) fun _ => True := by
  refine sized fun size => ?_
  induction size with
  | zero => exact .failHere
  | succ size ih =>
    refine (label hr ih).bind fun _ _ => eat.bind fun _ _ => .ite (ih.bind fun _ _ => .pure trivial) ?_
    exact eat.bind fun _ _ => .ite (.pure trivial) .failHere

theorem labelsOrNone : S.Keeps (labelsOrNone r) fun _ => True :=
  eat.bind fun _ _ => .ite (.pure trivial) (labels hr)

theorem contract (allowCondition : Bool) : S.Keeps (contract allowCondition r) (·.span ∈ S) := by
  refine here.bind fun start hstart => .see fun _ => ?_
  extract_lets labelled
  have hlabelled (base : Option Expr) : S.Keeps (labelled base) (·.span ∈ S) := by
    refine eat.bind fun _ _ => ?_
    extract_lets conditioned
    have hconditioned (ls : List Label) : S.Keeps (conditioned ls) (·.span ∈ S) := by
      unfold conditioned
      extract_lets done
      have hdone (condition : Option Expr) : S.Keeps (done condition) (·.span ∈ S) :=
        prevSpan.bind fun _ hs => .pure (join_mem hstart hs)
      refine .ite (eat.bind fun _ _ => .ite ?_ (hdone none)) (hdone none)
      exact (hr.conditional.map (B := fun _ => True) fun _ _ => trivial).bind fun _ _ => hdone _
    exact .ite ((labels hr).bind fun ls _ => hconditioned ls) (.ite .failHere_bind (hconditioned []))
  split
  · exact (hr.conditional.map (B := fun _ => True) fun _ _ => trivial).bind fun _ _ => hlabelled _
  · exact hlabelled none

theorem labelContract : S.Keeps (labelContract r) (·.span ∈ S) :=
  expect.bind fun _ ht => (labels hr).bind fun _ _ => prevSpan.bind fun _ hs => .pure (join_mem ht hs)

theorem shapeArgs : S.Keeps (shapeArgs r) fun _ => True :=
  expect.bind fun _ _ => hr.assign.bind fun _ _ => expect.bind fun _ _ => (contract hr _).bind fun _ _ =>
    expect.bind fun _ _ => .pure trivial

theorem suffixes (d : Demand) : S.Keeps (suffixes r d) fun _ => True := by
  refine extend (A := fun _ => True) (fun d _ => .see fun _ => ?_) trivial
  split
  · exact advance.bind fun _ _ => (contract hr _).bind fun _ _ => .pure fun _ _ => trivial
  · exact advance.bind fun _ _ => (contract hr _).bind fun _ _ => .pure fun _ _ => trivial
  · exact advance.bind fun _ _ => (shapeArgs hr).bind fun _ _ => .pure fun _ _ => trivial
  · exact advance.bind fun _ _ => (shapeArgs hr).bind fun _ _ => .pure fun _ _ => trivial
  · exact .pure nofun

/-! ### Bindings and functions -/

theorem labelBinding {inner : Parse Pattern} (h : S.Keeps inner S.HasPattern) :
    S.Keeps (Label.binding r inner) S.HasPattern := by
  refine .see fun _ => .ite ?_ (h.bind fun p hp => ?_)
  · refine here.bind fun _ hstart => (suffixes hr _).bind fun _ _ => prevSpan.bind fun _ hs => .pure ?_
    refine ⟨join_mem hstart hs, ?_⟩
    rintro _ ⟨⟩
    exact join_mem hstart hs
  · split
    · refine .see fun _ => .ite ?_ (.pure hp)
      exact (suffixes hr _).bind fun _ _ => prevSpan.bind fun _ hs => .pure ⟨join_mem hp.1 hs, nofun⟩
    · exact .pure hp

omit hr in
theorem takeReceiver (seen : Option Demand) {ps : List Pattern} (h : ∀ p ∈ ps, S.HasPattern p) :
    match Label.takeReceiver seen ps with
    | .ok (_, qs) => ∀ p ∈ qs, S.HasPattern p
    | .error e => e.span ∈ S := by
  fun_induction Label.takeReceiver seen ps with
  | case1 => exact nofun
  | case2 seen span d rest hseen => exact (h _ List.mem_cons_self).1
  | case3 seen span d rest hseen ih => exact ih fun p hp => h p (List.mem_cons_of_mem _ hp)
  | case4 seen span => exact (h _ List.mem_cons_self).1
  | case5 seen p rest _ _ span hthis => exact (h p List.mem_cons_self).2 span hthis
  | case6 seen p rest _ _ hthis ih =>
    have hrest := ih fun q hq => h q (List.mem_cons_of_mem _ hq)
    cases htake : Label.takeReceiver seen rest with
    | error e =>
      rw [htake] at hrest
      exact hrest
    | ok r =>
      rw [htake] at hrest
      exact List.forall_mem_cons.mpr ⟨h p List.mem_cons_self, hrest⟩

theorem receiverContract (inParams : Option Demand) : S.Keeps (receiverContract r inParams) fun _ => True := by
  refine .see fun _ => .ite ?_ (.pure trivial)
  exact advance.bind fun _ ht => .ite (.failAt_bind ht) ((contract hr _).bind fun _ _ => .pure trivial)

theorem labelParams {inner : Function → Parse Function} (h : ∀ fn, S.HasParams fn → S.Keeps (inner fn) S.HasParams)
    (fn : Function) (hfn : S.HasParams fn) : S.Keeps (Label.params r inner fn) S.HasParams := by
  refine (h fn hfn).bind fun fn hfn => ?_
  have htake := takeReceiver none hfn
  split
  · next e he =>
    rw [he] at htake
    exact .failAt htake
  · next receiver ps hps =>
    rw [hps] at htake
    refine .ite (.pure htake) ((receiverContract hr _).bind fun _ _ => eat.bind fun _ _ => ?_)
    refine .either (A := fun _ => True) ((contract hr _).map fun _ _ => trivial) (.pure trivial) fun _ _ => ?_
    refine eat.bind fun _ _ => .either (A := fun _ => True) (hr.expr.map fun _ _ => trivial) (.pure trivial) fun _ _ => ?_
    exact .pure htake

omit hr in
theorem labelBody {inner : Function → Parse Function} (h : ∀ fn, S.HasParams fn → S.Keeps (inner fn) fun _ => True)
    (fn : Function) (hfn : S.HasParams fn) : S.Keeps (Label.body settings inner fn) fun _ => True := by
  refine (h fn hfn).bind fun fn _ => .ite (.pure trivial) ?_
  split
  · exact freshSite.bind fun _ _ => .pure trivial
  · exact .pure trivial

/-! ### Statements -/

theorem labelDeclaration : S.Keeps (Label.declaration settings r) (·.span ∈ S) := by
  refine advance.bind fun _ ht => expect.bind fun _ _ => (labelsOrNone hr).bind fun ls _ => eat.bind fun _ _ => ?_
  extract_lets rest
  have hrest (parents : Option (List Label)) : S.Keeps (rest parents) (·.span ∈ S) := by
    refine consumeSemicolon.bind fun _ _ => prevSpan.bind fun _ hs => .ite (.pure (join_mem ht hs)) ?_
    dsimp only
    split
    · exact .pure (anchor_mem (join_mem ht hs))
    · exact .pure (anchor_mem (join_mem ht hs))
  refine .ite (expect.bind fun _ _ => ?_) (hrest none)
  exact ((labelsOrNone hr).map (B := fun _ => True) fun _ _ => trivial).bind fun parents _ => hrest parents

theorem traitRule : S.Keeps (Label.traitRule settings r) (·.span ∈ S) := by
  refine advance.bind fun _ ht => hr.expr.bind fun _ _ => expectIdent.bind fun _ _ => here.bind fun _ hstart => ?_
  refine eat.bind fun _ _ => (hr.function _ _ hstart).bind fun _ _ => consumeSemicolon.bind fun _ _ => ?_
  refine prevSpan.bind fun _ hs => .ite (.pure (join_mem ht hs)) (.pure (anchor_mem (join_mem ht hs)))

theorem assertion : S.Keeps (Label.assertion settings r) (·.span ∈ S) := by
  refine advance.bind fun _ ht => hr.expr.bind fun _ _ => eat.bind fun _ _ => .optional (contract hr _) fun c => ?_
  refine consumeSemicolon.bind fun _ _ => prevSpan.bind fun _ hs => .ite (.pure (join_mem ht hs)) ?_
  split
  · exact .pure (anchor_mem (join_mem ht hs))
  · exact .pure (anchor_mem (join_mem ht hs))

theorem labelStatement {inner : Parse Stmt} (h : S.Keeps inner (·.span ∈ S)) :
    S.Keeps (Label.statement settings r inner) (·.span ∈ S) := by
  refine .see fun _ => .ite h (.see fun _ => ?_)
  split
  · exact labelDeclaration hr
  · exact traitRule hr
  · exact assertion hr
  · exact h

/-! ### Operators -/

theorem labelAtom {inner : Parse Expr} (h : S.Keeps inner (·.span ∈ S)) :
    S.Keeps (Label.atom settings r inner) (·.span ∈ S) := by
  refine .see fun _ => .see fun _ => ?_
  split
  · refine advance.bind fun _ ht => expectIdent.bind fun _ _ => hr.conditional.bind fun _ he => ?_
    exact .ite (.pure he) (.pure (anchor_mem ht))
  · refine advance.bind fun _ ht => .ite (.pure (anchor_mem ht)) (expect.bind fun _ _ => ?_)
    refine (exprList hr _).bind fun args _ => prevSpan.bind fun _ hs => ?_
    split
    · exact .failAt_bind (join_mem ht hs)
    · exact .pure (join_mem ht hs)
  · exact h

omit hr in
/-- Labels that are added or removed move the value to where they stand. -/
theorem foldl_span_mem {f : Expr → Label → Expr} {s : Span} (hs : s ∈ S) (hf : ∀ e l, (f e l).span = s) {e : Expr}
    (he : e.span ∈ S) (ls : List Label) : (ls.foldl f e).span ∈ S := by
  induction ls generalizing e with
  | nil => exact he
  | cons l ls ih => exact ih (by rw [hf]; exact hs)

theorem labelOps {e : Expr} (he : e.span ∈ S) : S.Keeps (Label.labelOps settings r e) (·.span ∈ S) := by
  refine extend (fun _ he => .see fun dropping => .see fun _ => .ite (.pure nofun) ?_) he
  refine advance.bind fun _ _ => (labelContract hr).bind fun c hc => .ite (.pure fun b hb => ?_) (.pure fun b hb => ?_)
  · cases hb
    exact he
  · cases hb
    refine foldl_span_mem (anchor_mem hc) (fun _ _ => ?_) he _
    split <;> rfl

end

theorem KeepsLayer.labels (settings : Settings) : S.KeepsLayer (.labels settings) where
  statement hr h := labelStatement hr h
  binding hr h := labelBinding hr h
  atom hr h := labelAtom hr h
  trailing hr h _ he := (labelOps hr he).bind fun e he => (h e he).bind fun _ he => labelOps hr he
  params hr h := labelParams hr h
  body _ h := labelBody h

/-- The spans that lie in a text, with both ends between two characters. -/
def within (text : List Char) : SpanSet where
  mem s := s.Within text
  join {a b} ha hb := by
    refine ⟨?_, ?_, ?_⟩
    · rw [Span.stop_join]
      exact Nat.max_le.mpr ⟨ha.stop_le, hb.stop_le⟩
    · rw [Span.offset_join]
      rcases Nat.le_total a.offset b.offset with h | h
      · rw [Nat.min_eq_left h]
        exact ha.start
      · rw [Nat.min_eq_right h]
        exact hb.start
    · rw [Span.stop_join]
      rcases Nat.le_total a.stop b.stop with h | h
      · rw [Nat.max_eq_right h]
        exact hb.stop
      · rw [Nat.max_eq_left h]
        exact ha.stop
  anchor {a} ha := ⟨Nat.le_trans a.offset_le_stop ha.stop_le, ha.start, ha.start⟩

theorem zero_mem_within (text : List Char) : Span.zero ∈ within text :=
  ⟨Nat.zero_le _, .start, .start⟩

end SpanSet

/-! ### Whole sources -/

theorem Lexed.Cut.span_within {text : List Char} {lexed : Lexed} (h : Lexed.Cut 0 text lexed) :
    ∀ t ∈ lexed.tokens, t.span ∈ SpanSet.within text := by
  obtain ⟨ts, newline, htokens, hts⟩ := h.tokens_eq
  intro t ht
  rw [htokens] at ht
  rcases List.mem_append.mp ht with ht | ht
  · have hseg : t.span ∈ lexed.segments := by
      refine List.mem_merge.mpr (.inl (List.mem_map_of_mem (List.mem_filter.mpr ⟨?_, by simpa using hts t ht⟩)))
      rw [htokens]
      exact List.mem_append_left _ ht
    obtain ⟨hstart, hstop⟩ := h.boundary _ hseg
    exact ⟨by simpa using (h.inOrder.bounds _ hseg).2.2, hstart, hstop⟩
  · cases List.mem_singleton.mp ht
    exact ⟨by simp [Span.stop], .stop, .stop⟩

/-- The grammar is made of layers of annotations and of layers that change nothing. -/
def Grammar.Annotated (g : Grammar) : Prop := ∀ layer ∈ g, layer = .plain ∨ ∃ settings, layer = .labels settings

namespace Grammar.Annotated

variable {g : Grammar} (hg : g.Annotated)

include hg

theorem scan_progresses : g.scan.Progresses := by
  intro cs k n h
  obtain ⟨layer, hlayer, hscan⟩ := List.exists_of_findSome?_eq_some h
  rcases hg layer hlayer with rfl | ⟨settings, rfl⟩
  · cases hscan
  · exact Label.scan_progresses cs k n hscan

theorem keepsLayer (S : SpanSet) : ∀ layer ∈ g, S.KeepsLayer layer := by
  intro layer hlayer
  rcases hg layer hlayer with rfl | ⟨settings, rfl⟩
  · exact .plain
  · exact .labels settings

theorem parse_error_within {α : Type} {p : Rules → Parse α} {A : α → Prop}
    (hp : ∀ (S : SpanSet) {r}, S.KeepsRules r → S.Keeps (p r) A) {source : String} {lexed : Lexed} {e : SourceError}
    (hread : Lexed.read g.scan source = .ok lexed) (h : g.parse p lexed.tokens = .error e) :
    e.span.Within source.toList := by
  have hcut : Lexed.Cut 0 source.toList lexed :=
    Lexed.cut_of_readFrom hg.scan_progresses (Nat.le_of_eq String.length_toList) hread
  exact SpanSet.span_mem_of_parse (hg.keepsLayer _) (hp _) (SpanSet.zero_mem_within _) hcut.span_within h

end Grammar.Annotated

/-- Either a source has no tokens, or its tokens cannot be read as what is asked for. -/
theorem Grammar.error_cases {g : Grammar} {source : String} {e : SourceError}
    (h : g.read source = .error e ∨ g.parseProgram source = .error e ∨ g.parseExpr source = .error e) :
    (∃ fault, Lexed.read g.scan source = .error fault ∧ e = .lex fault) ∨
      ∃ lexed, Lexed.read g.scan source = .ok lexed ∧
        (g.parse program lexed.tokens = .error e ∨ g.parse wholeExpr lexed.tokens = .error e) := by
  unfold parseProgram parseExpr at h
  have hread : g.read source = (Lexed.read g.scan source).mapError .lex := rfl
  cases hlexed : Lexed.read g.scan source with
  | error fault =>
    refine .inl ⟨fault, rfl, ?_⟩
    rw [hread, hlexed] at h
    rcases h with h | h | h <;> cases h <;> rfl
  | ok lexed =>
    refine .inr ⟨lexed, rfl, ?_⟩
    rw [hread, hlexed] at h
    rcases h with h | h | h
    · cases h
    · left
      change (g.parse program lexed.tokens >>= fun stmts => _) = _ at h
      cases hparse : g.parse program lexed.tokens <;> rw [hparse] at h <;> cases h
      rfl
    · exact .inr h

/-- Whatever is wrong with a source, it is reported at a place in the source; only the length of a
    hexadecimal escape that is no character does not come from the source. -/
theorem Grammar.error_within_source {g : Grammar} (hg : g.Annotated) {source : String} {e : SourceError}
    (h : g.read source = .error e ∨ g.parseProgram source = .error e ∨ g.parseExpr source = .error e) :
    e.span.Within source.toList ∨
      ∃ fault before after, e = .lex fault ∧ fault.fault = .invalidHexEscape ∧ source.toList = before ++ after ∧
        fault.span.offset = byteLength before ∧ HexEscape after fault.span.length := by
  rcases Grammar.error_cases h with ⟨fault, hread, rfl⟩ | ⟨lexed, hread, hparse | hparse⟩
  · refine (Lexed.read_error hread).imp_right ?_
    rintro ⟨hfault, before, after, hsource, hoffset, hescape⟩
    exact ⟨fault, before, after, rfl, hfault, hsource, hoffset, hescape⟩
  · exact .inl (hg.parse_error_within (fun _ _ hr => SpanSet.program hr) hread hparse)
  · exact .inl (hg.parse_error_within (fun _ _ hr => SpanSet.wholeExpr hr) hread hparse)

/-- A label list that is not closed, behind a character of two bytes. -/
theorem Grammar.error_within_unclosed :
    ∃ e, Grammar.parseProgram [.plain, .labels ⟨true, {}⟩] "'é'; f(x :<!A" = .error e ∧
      (e.span.Within "'é'; f(x :<!A".toList ∨
        ∃ fault before after, e = .lex fault ∧ fault.fault = .invalidHexEscape ∧
          "'é'; f(x :<!A".toList = before ++ after ∧ fault.span.offset = byteLength before ∧
          HexEscape after fault.span.length) := by
  have hg : Grammar.Annotated [.plain, .labels ⟨true, {}⟩] :=
    List.forall_mem_cons.mpr ⟨.inl rfl, List.forall_mem_singleton.mpr (.inr ⟨_, rfl⟩)⟩
  have hread : (Grammar.parseProgram [.plain, .labels ⟨true, {}⟩] "'é'; f(x :<!A").isOk = false := by
    decide +kernel
  cases h : Grammar.parseProgram [.plain, .labels ⟨true, {}⟩] "'é'; f(x :<!A" with
  | ok program => rw [h] at hread; cases hread
  | error e => exact ⟨e, rfl, Grammar.error_within_source hg (.inr (.inl h))⟩

theorem Grammar.read_hexEscape : (match Grammar.parseProgram [] "\"\\x\"" with
    | .ok _ => false
    | .error e => byteLength "\"\\x\"".toList < e.span.stop) = true := by
  decide +kernel

/-- The report of an escape that lacks its digits ends behind the end of the source. -/
theorem Grammar.hexEscape_beyond_source :
    ∃ e, Grammar.parseProgram [] "\"\\x\"" = .error e ∧ byteLength "\"\\x\"".toList < e.span.stop := by
  have hread := Grammar.read_hexEscape
  split at hread
  · cases hread
  · next e h => exact ⟨e, h, of_decide_eq_true hread⟩

end LabelWeaver
