import LabelWeaver.Proofs.Grammar.Spells.Expressions

/-! From which tokens statements of the base language are read, and the productions tied together. -/

namespace LabelWeaver

namespace Spelling

open Grammar

variable {r : Rules} (hr : RulesSpell r)

/-! ### Declarations -/

theorem rejectReceiver {α : Type} {c : Cursor} {A : Place → α → Prop} {p : Pattern} {f : Unit → Parse α}
    (hf : Takes c (f ()) A) : Takes c (rejectReceiver p >>= f) A := by
  unfold Grammar.rejectReceiver
  split
  · exact .failAt_bind
  · exact hf

include hr

theorem declarator (c : Cursor) : Takes c (declarator r) (SpellsOne .declarator c.place) := by
  refine (hr.binding c).bind fun hp => rejectReceiver (.eat rfl (fun hq => ?_) ?_)
  · exact (hr.assign _).bind fun he => .pure (.plain (hp.append (.skip hq he)) rfl trivial)
  · exact .pure (.plain hp rfl trivial)

/-- A declaration; it starts with its word and ends with the last token that is read. -/
theorem declaration (c : Cursor) (hword : isAtDeclaration c = true) : Takes c (declaration r) fun b d =>
    ∃ t ts, c.Quiet t ts ∧ SpellsOne .decl ⟨t.span, ts⟩ b d ∧ d.span = t.span.join b.prev := by
  refine .advance fun {t ts} hrest => (Takes.commaList (f := .declarator) (declarator hr) _).bind fun hds => .look (.pure ?_)
  have hq : c.Quiet t ts := by
    simp only [isAtDeclaration, Bool.or_eq_true] at hword
    rcases hword with (hword | hword) | hword
    all_goals exact .of_isAt hrest hword rfl
  exact ⟨t, ts, hq, .plain hds.2 rfl trivial, rfl⟩

/-! ### Branches and loops -/

theorem parenExpr (c : Cursor) : Takes c (parenExpr r) (SpellsOne .expr c.place) :=
  .expect rfl fun hq => (hr.expr _).bind fun he => .expect rfl fun hq' => .pure (.skip hq (he.close hq'))

theorem ifStmt (c : Cursor) : Takes c (ifStmt r) (SpellsOne .stmt c.place) := by
  refine .intro fun hc => .expect rfl fun hq => (parenExpr hr _).bind fun htest => ?_
  refine (hr.statement _).bind fun {c₁ consequent} hthen => .eat rfl (fun hq' => ?_) (.pure ?_)
  · refine (hr.statement _).bind fun {c₂ alternate} helse => .pure ?_
    have htail := htest.append (hthen.append (.skip hq' helse))
    refine .single (.mark _ (.skip hq htail)) (.wordToPart (m := .stmt alternate) hc hq.rest htail rfl ?_ rfl rfl rfl) trivial
    simp
  · have htail := htest.append hthen
    refine .single (.mark _ (.skip hq htail)) (.wordToPart (m := .stmt consequent) hc hq.rest htail rfl ?_ rfl rfl rfl) trivial
    simp

/-- The result is a loop that is read from `a` on. -/
def SpellsLoop (a b : Place) (s : Stmt) : Prop := Spells (Node.stmt s).script a b ∧ (Node.stmt s).Placed a b

section
variable {a : Place} {c : Cursor} {t : Token} {ts : List Token} (ha : a.Lawful) (hrest : a.rest = t :: ts)
  (hword : t.kind = .reserved .kwFor)

include ha hrest hword

theorem forEachRest (heach : isAtEach c = true) {target : ForTarget} (ht : SpellsOne .forTarget ⟨t.span, ts⟩ c.place target) :
    Takes c (forEachRest r t.span target) (SpellsLoop a) := by
  have hquiet : ∀ {t' : Token} {ts' : List Token}, c.rest = t' :: ts' → c.Quiet t' ts' := by
    intro t' ts' hrest
    simp only [isAtEach, Bool.or_eq_true, beq_iff_eq] at heach
    rcases heach with hin | hof
    · exact .of_isAt hrest hin rfl
    · rw [Cursor.kind?_of_rest hrest] at hof
      exact ⟨hrest, by rw [Option.some.inj hof]; rfl⟩
  refine .look (.advance fun hrest' => .either (A := SpellsOne .expr _) (fun _ => hr.assign _) (fun _ => hr.expr _)
    fun he => .expect rfl fun hq => (hr.statement _).bind fun {c' body} hbody => .pure ?_)
  have htail := ht.append (.skip (hquiet hrest') (he.append (.skip hq hbody)))
  refine ⟨?_, .wordToPart (m := .stmt body) ha hrest htail rfl (by simp) rfl rfl rfl⟩
  have htoken := Spells.token hrest (by rw [hword]; rfl) htail
  rw [hword] at htoken
  exact .mark _ htoken

theorem forLoopRest {init : ForInit} (hinit : SpellsOne .forInit ⟨t.span, ts⟩ c.place init) :
    Takes c (forLoopRest r t.span init) (SpellsLoop a) := by
  refine .expect rfl fun hq => .look (.optionalUnless (g := .expr) (fun _ => hr.expr _) fun htest => .expect rfl fun hq' => ?_)
  refine .look (.optionalUnless (g := .expr) (fun _ => hr.expr _) fun hupdate => .expect rfl fun hq'' => ?_)
  refine (hr.statement _).bind fun {c' body} hbody => .pure ?_
  have htail := hinit.append (.skip hq (htest.append (.skip hq' (hupdate.append (.skip hq'' hbody)))))
  refine ⟨?_, .wordToPart (m := .stmt body) ha hrest htail ?_ (by simp) rfl rfl rfl⟩
  · have htoken := Spells.token hrest (by rw [hword]; rfl) htail
    rw [hword] at htoken
    refine .mark _ ?_
    simpa [Stmt.parts, Stmt.endMark, Node.signs] using htoken
  · simp [Node.parts, Stmt.parts, -List.map_map]

end

theorem forStmt (c : Cursor) : Takes c (forStmt r) (SpellsOne .stmt c.place) := by
  have hloop : Takes c (Grammar.forStmt r) (SpellsLoop c.place) := by
    refine .intro fun hc => .expectThat fun {t ts} hrest hword => ?_
    replace hword : t.kind = .reserved .kwFor := by simpa using hword
    refine .expect rfl fun hq => .look ?_
    split
    · exact forLoopRest hr hc hrest hword (.skip hq (.plain (.nil _) rfl trivial))
    · refine .look ?_
      split
      · next hdecl =>
        refine (Takes.withNoIn (declaration hr _ hdecl)).bind fun {c' d} hd => .look ?_
        obtain ⟨t', ts', hq', hd, -⟩ := hd
        have hinit : SpellsOne .forInit ⟨t.span, ts⟩ c'.place (.var d) := .skip hq (.plain (.skip ⟨hq'.rest, hq'.kind⟩ hd) rfl trivial)
        split
        · next heach =>
          split
          · next s target hdecls =>
            -- the one declarator is just a pattern
            have htarget : Spells ((d.decls.map Node.declarator).map .node) ⟨t'.span, ts'⟩ c'.place := hd.script
            rw [hdecls] at htarget
            refine forEachRest hr hc hrest hword heach ?_
            exact .skip hq (.plain (.skip ⟨hq'.rest, hq'.kind⟩ htarget.script) rfl trivial)
          · exact forLoopRest hr hc hrest hword hinit
        · exact forLoopRest hr hc hrest hword hinit
      · refine (Takes.withNoIn (hr.expr _)).bind fun {c' e} he => .look ?_
        split
        · next heach =>
          split
          · exact .failAt_bind
          · exact forEachRest hr hc hrest hword heach (.skip hq (.plain he rfl trivial))
        · exact forLoopRest hr hc hrest hword (.skip hq (.plain he rfl trivial))
  refine hloop.ran.imp ?_
  rintro b s ⟨⟨hscript, hplaced⟩, c', hrun⟩
  refine .single hscript hplaced ?_
  obtain ⟨depth, rfl⟩ := hr.depth
  cases s with
  | forLoop => exact ⟨depth, c, c', rfl, hrun⟩
  | forEach => exact ⟨depth, c, c', rfl, hrun⟩
  | _ => trivial

theorem whileStmt (c : Cursor) : Takes c (whileStmt r) (SpellsOne .stmt c.place) := by
  refine .intro fun hc => .expect rfl fun hq => (parenExpr hr _).bind fun htest => ?_
  refine (hr.statement _).bind fun {c' body} hbody => .pure ?_
  have htail := htest.append hbody
  exact .single (.mark _ (.skip hq htail)) (.wordToPart (m := .stmt body) hc hq.rest htail rfl (by simp) rfl rfl rfl) trivial

theorem doWhileStmt (c : Cursor) : Takes c (doWhileStmt r) (SpellsOne .stmt c.place) := by
  refine .intro fun hc => .expect rfl fun {t ts} hq => (hr.statement _).bind fun {_ body} hbody => .expect rfl fun hq' => ?_
  refine (parenExpr hr _).bind fun {c' test} htest => ?_
  have hdone : ∀ {c₁ : Cursor}, Spells [] c'.place c₁.place →
      SpellsOne .stmt c.place c₁.place (.doWhile (t.span.join c₁.prev) body test) := by
    intro c₁ hskip
    have htail := hbody.append (.skip hq' (htest.append hskip))
    exact .single (.mark _ (.skip hq htail)) (.wordToLast hc hq.rest htail rfl rfl) trivial
  exact .eat rfl (fun hq => .look (.pure (hdone (.skip hq (.nil _))))) (.look (.pure (hdone (.nil _))))

/-! ### Switch -/

theorem caseTest (seenDefault : Bool) (c : Cursor) : Takes c (caseTest r seenDefault) fun b test =>
    ∃ t ts, c.Quiet t ts ∧ Spells ((test.toList.map .expr).map .node) ⟨t.span, ts⟩ b := by
  refine .eat rfl (fun hq => ?_) (.look ?_)
  · exact (hr.expr _).bind fun he => .pure ⟨_, _, hq, he⟩
  · split
    · next hdefault =>
      refine .advance fun hrest => ?_
      split
      · exact .failAt_bind
      · exact .pure ⟨_, _, .of_isAt hrest hdefault rfl, .nil _⟩
    · exact .failHere

theorem casesFrom (size : Nat) (seenDefault : Bool) (c : Cursor) : Takes c (casesFrom r size seenDefault)
    fun b cases => Spells ((cases.map .case).map .node) c.place b := by
  induction size generalizing seenDefault c with
  | zero => exact .failHere
  | succ size ih =>
    refine .intro fun hc => .look ?_
    split
    · exact .pure (.nil _)
    · refine .look ((caseTest hr seenDefault c).bind fun {c' test} htest => .expect rfl fun hq => ?_)
      obtain ⟨t, ts, hq', htest⟩ := htest
      refine (Takes.many (f := .stmt) hr.statement _).bind fun {c₁ body} hbody => .look ((ih _ _).bind fun hrest => .pure ?_)
      have htail := htest.append (.skip hq hbody)
      have hcase : SpellsOne .case c.place c₁.place ⟨c.here.join c₁.prev, test, body⟩ := by
        refine .single (.mark _ (.skip hq' ?_)) (.wordToLast hc hq'.rest htail ?_ ?_) trivial
        · simpa [Node.parts] using htail
        · simp [Node.parts, -List.map_map]
        · rw [Cursor.here_of_rest hq'.rest]
          rfl
      exact hcase.append hrest

theorem switchStmt (c : Cursor) : Takes c (switchStmt r) (SpellsOne .stmt c.place) := by
  refine .intro fun hc => .expect rfl fun {t ts} hq => (parenExpr hr _).bind fun hsubject => .expect rfl fun {t₁ ts₁} hq' => ?_
  refine (Takes.sized (fun size => casesFrom hr size false _)).bind fun {c' cases} hcases => .expect rfl fun {t₂ ts₂} hq'' => .pure ?_
  have htail := hsubject.append (.skip hq' (hcases.append (.skip hq'' (.mark (t.span.join t₂.span).stop (.nil _)))))
  exact .single (.mark _ (.skip hq htail)) (.wordToLast hc hq.rest htail (by simp [Node.parts, Stmt.parts, -List.map_map]) rfl) trivial

/-! ### Exceptions -/

theorem handler (c : Cursor) : Takes c (handler r) (SpellsOne .handler c.place) := by
  refine .expect rfl fun {t ts} hq => .eat rfl (fun hq' => ?_) ?_
  · refine (hr.binding _).bind fun hp => rejectReceiver (.expect rfl fun hq'' => ?_)
    exact (block hr _).bind fun hb => .pure (.plain (.skip hq (.skip hq' (hp.append (.skip hq'' hb)))) rfl trivial)
  · exact (block hr _).bind fun hb => .pure (.plain (.skip hq hb) rfl trivial)

theorem tryStmt (c : Cursor) : Takes c (tryStmt r) (SpellsOne .stmt c.place) := by
  refine .intro fun hc => .expect rfl fun hq => (block hr _).bind fun hbody => .look ?_
  refine .optional (g := .handler) (fun _ => handler hr _) fun {c₁ h} hhandler => ?_
  refine .eatOptional (g := .block) rfl (fun _ => block hr _) fun {c₂ f} hfinalizer => ?_
  dsimp only
  split
  · exact .failHere_bind
  · refine .look (.pure ?_)
    have htail := hbody.append (hhandler.append hfinalizer)
    refine .single (.mark _ (.skip hq ?_)) (.wordToLast hc hq.rest htail ?_ rfl) trivial
    · simpa [Stmt.parts, Stmt.endMark, Node.signs] using htail
    · simp [Node.parts, Stmt.parts, -List.map_map]

theorem throwStmt (c : Cursor) : Takes c (throwStmt r) (SpellsOne .stmt c.place) := by
  refine .intro fun hc => .expect rfl fun hq => .look ?_
  split
  · exact .failHere_bind
  · refine (hr.expr _).bind fun he => .consumeSemicolon fun hskip => .look (.pure ?_)
    have htail := he.append hskip
    exact .single (.mark _ (.skip hq htail)) (.wordToLast hc hq.rest htail rfl rfl) trivial

/-! ### All statements -/

theorem returnStmt (c : Cursor) : Takes c (returnStmt r) (SpellsOne .stmt c.place) := by
  refine .intro fun hc => .expect rfl fun hq => .look (.optionalUnless (g := .expr) (fun _ => hr.expr _)
    fun {c₁ e} he => .consumeSemicolon fun {c₂} hskip => .look (.freshSite (.pure ?_)))
  have hsite : Spells [.node (.site c₂.nextSite)] c₂.place c₂.place := .plain (.nil _) rfl trivial
  have htail := he.append (hskip.append hsite)
  refine .single (.mark _ (.skip hq ?_)) (.wordToLast hc hq.rest htail ?_ rfl) trivial
  · change Spells _ _ c₂.place
    simpa [Stmt.parts, Stmt.endMark, Node.signs] using htail
  · simp [Node.parts, Stmt.parts, -List.map_map]

theorem varStmt (c : Cursor) (hword : isAtDeclaration c = true) : Takes c (varStmt r) (SpellsOne .stmt c.place) := by
  refine .intro fun hc => (declaration hr c hword).bind fun {c₁ d} hd => .consumeSemicolon fun {c₂} hskip => .look (.pure ?_)
  obtain ⟨t, ts, hq, hd, hspan⟩ := hd
  have hdecl : SpellsOne .decl ⟨t.span, ts⟩ c₁.place { d with span := d.span.join c₂.prev } := .plain hd.script rfl trivial
  have htail := hdecl.append hskip
  refine .single (.mark _ (.skip hq htail)) ?_ trivial
  have hnext := hc.past hq.rest
  have hbefore := hdecl.before hnext
  have hbefore' := hskip.before (hdecl.lawful hnext)
  have hoffset := hbefore.offset
  have hoffset' := hbefore'.offset
  have hstop := hbefore.stop
  have hstop' := hbefore'.stop
  refine .word (s := d.span.join c₂.prev) hc hq.rest htail rfl rfl ?_ ?_ nofun
  · rw [Span.offset_join, hspan, Span.offset_join]
    simp only [Cursor.place] at *
    omega
  · rw [Span.stop_join, hspan, Span.stop_join]
    simp only [Cursor.place] at *
    omega

omit hr in
theorem jumpStmt (make : Span → Stmt) (c : Cursor)
    (hmake : ∀ s, (make s).span = s ∧ (Node.stmt (make s)).script = [.mark s.offset] ∧ (make s).parts = [] ∧ (Node.stmt (make s)).Ran c.rest)
    (hquiet : ∀ {t ts}, c.rest = t :: ts → c.Quiet t ts) : Takes c (jumpStmt make) (SpellsOne .stmt c.place) := by
  refine .intro fun hc => .advance fun {t ts} hrest => .consumeSemicolon fun {c'} hskip => .look (.pure ?_)
  obtain ⟨hspan, hscript, hparts, hran⟩ := hmake (t.span.join c'.prev)
  refine .single ?_ (.wordToLast hc hrest hskip hparts.symm (congrArg some hspan)) hran
  rw [hscript]
  exact .mark _ (.skip (hquiet hrest) hskip)

theorem functionStmt (c : Cursor) : Takes c (functionStmt [] r) (SpellsOne .stmt c.place) := by
  refine .intro fun hc => .expect rfl fun hq => .expectIdent fun hq' _ => (function hr _ _ _ false).bind fun hf => .pure ?_
  have htail := Spells.skip hq' hf.spells
  exact .single (.mark _ (.skip hq htail)) (.wordToLast hc hq.rest htail rfl (congrArg some hf.2)) trivial

theorem exprStmt (c : Cursor) : Takes c (exprStmt [] r) (SpellsOne .stmt c.place) := by
  refine .intro fun hc => (sequence hr c).bind fun he => .consumeSemicolon fun hskip => .look (.pure ?_)
  exact .single (.mark _ (he.append hskip)) (.leftToLast hc he hskip rfl rfl rfl) trivial

theorem baseStatement (c : Cursor) : Takes c (baseStatement [] r) (SpellsOne .stmt c.place) := by
  refine .intro fun hc => .look ?_
  have hat : ∀ {k : Token.Kind}, c.kind? = some k → c.isAt k = true := by
    intro k hk
    rw [Cursor.isAt, hk]
    simp
  split
  · exact .failHere
  · exact (block hr c).bind fun hb => .pure (.single (.mark _ hb) (.ofBlock hc hb) trivial)
  · next hk =>
    refine .advance fun hrest => .pure ?_
    exact .single (.mark _ (.skip (.of_isAt hrest (hat hk) rfl) (.nil _))) (.single hc hrest rfl rfl) trivial
  · next w hk =>
    have hjump : ∀ {t ts}, w ≠ .kwFor → c.rest = t :: ts → c.Quiet t ts := by
      intro t ts hw hrest
      refine .of_isAt hrest (hat hk) ?_
      simpa [Token.Kind.isSalient, Token.Kind.isSlash] using hw
    split
    · exact varStmt hr c (by simp [isAtDeclaration, hat hk])
    · exact varStmt hr c (by simp [isAtDeclaration, hat hk])
    · exact varStmt hr c (by simp [isAtDeclaration, hat hk])
    · exact functionStmt hr c
    · exact returnStmt hr c
    · exact ifStmt hr c
    · exact forStmt hr c
    · exact whileStmt hr c
    · exact doWhileStmt hr c
    · exact switchStmt hr c
    · exact tryStmt hr c
    · exact throwStmt hr c
    · exact jumpStmt .break c (fun _ => ⟨rfl, rfl, rfl, trivial⟩) (hjump (by decide))
    · exact jumpStmt .continue c (fun _ => ⟨rfl, rfl, rfl, trivial⟩) (hjump (by decide))
    · exact exprStmt hr c
  · exact exprStmt hr c

omit hr in
/-- The productions tied together. -/
theorem rules (depth : Nat) : RulesSpell (rules [] depth) := by
  induction depth with
  | zero =>
    exact ⟨⟨0, rfl⟩, fun _ => .failHere, fun _ => .failHere, fun _ => .failHere, fun _ _ => .failHere, fun _ => .failHere,
      fun _ => .failHere, fun _ => .failHere, fun _ _ _ _ => .failHere⟩
  | succ depth ih =>
    exact ⟨⟨depth + 1, rfl⟩, baseStatement ih, sequence ih, assign ih, binary ih, unary ih, new ih, baseBinding ih, function ih⟩

end Spelling

end LabelWeaver
