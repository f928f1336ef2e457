import LabelWeaver.Proofs.Instrument.Exact

/-! Any number of runs over one function. Between the runs the annotations of the function may change
    and its mark may be taken away, so that checks in front and at the end are added again; the
    statements of the source stay together in the middle, and each return among them gets its check
    block in at most one of the runs. -/

namespace LabelWeaver

open Instrument

/-! ### Histories -/

/-- What may happen to a function. -/
inductive Edit where
  /-- Its annotations change. -/
  | annotate (params : List Pattern) (receiver : Option Demand) (returns : Option Contract)
      (condition : Option Expr)
  /-- It counts as not instrumented. -/
  | unmark
  | instrument (names : RuntimeNames)

def Edit.apply (fn : Function) : Edit → Function
  | annotate params receiver returns condition =>
    { fn with params := params, receiver := receiver, returns := returns, condition := condition }
  | unmark => { fn with instrumented := false }
  | instrument names => (fn.instrument names).1

/-- The body is a block with the statements in its middle, and owns no other returns. -/
def FunctionBody.Frames (span : Span) (stmts : List Stmt) (body : FunctionBody) : Prop :=
  ∃ front back, body = .block ⟨span, front ++ stmts ++ back⟩ ∧
    listReturns front = [] ∧ listReturns back = []

/-- No return is wrapped so far. -/
structure Function.Unwrapped (checked : List Nat) (span : Span) (stmts : List Stmt) (fn : Function) :
    Prop where
  frames : fn.body.Frames span stmts
  sites : fn.checkedSites = checked

/-- Every return is wrapped once, all of them for one contract, and counts as checked. -/
structure Function.WrappedOnce (span : Span) (stmts : List Stmt) (fn : Function) : Prop where
  frames : ∃ e c, fn.body.Frames span (listMapReturns (checkBlock e c) stmts)
  checked : ∀ site ∈ listSites stmts, site ∈ fn.checkedSites

/-! ### One run over framed statements -/

section
variable {fn : Function} {span : Span} {stmts : List Stmt}

theorem frames_of_mapReturns {front back : List Stmt} (f : Return → Stmt) (hfront : listReturns front = [])
    (hback : listReturns back = []) :
    listMapReturns f (front ++ stmts ++ back) = front ++ listMapReturns f stmts ++ back := by
  rw [listMapReturns_append, listMapReturns_append, listMapReturns_of_nil hfront,
    listMapReturns_of_nil hback]

theorem listSites_frames {front back : List Stmt} (hfront : listReturns front = [])
    (hback : listReturns back = []) : listSites (front ++ stmts ++ back) = listSites stmts := by
  rw [listSites_append, listSites_append, listSites_of_nil hfront, listSites_of_nil hback,
    List.nil_append, List.append_nil]

/-- A run puts its checks around the frame and wraps the returns that are not checked yet. -/
theorem instrument_frames (names : RuntimeNames) (hbody : fn.body.Frames span stmts)
    (hflag : fn.instrumented = false) (hnodup : (listSites stmts).Nodup) :
    ((fn.instrument names).1.body.Frames span stmts ∧
      (fn.instrument names).1.checkedSites = fn.checkedSites ∧
      (fn.instrument names).2.wrappedReturns = 0) ∨
    ∃ e c, (fn.instrument names).1.body.Frames span
        (listMapReturns (checkUnless fn.checkedSites e c) stmts) ∧
      (fn.instrument names).1.checkedSites = markSites fn.checkedSites (listSites stmts) ∧
      (fn.instrument names).2.wrappedReturns =
        (markSites fn.checkedSites (listSites stmts)).length - fn.checkedSites.length := by
  obtain ⟨front, back, hbody, hfront, hback⟩ := hbody
  let pre := preconditions (.startingAt names span) fn
  have hpre : listReturns (pre ++ front) = [] := by
    rw [listReturns_append, listReturns_preconditions, hfront, List.append_nil]
  cases hc : returnContract? fn with
  | none =>
    rw [instrument_of_none hbody hflag hc]
    refine .inl ⟨⟨pre ++ front, back, ?_, hpre, hback⟩, rfl, rfl⟩
    simp only [pre, List.append_assoc]
  | some c =>
    have hsites := @listSites_frames stmts front back hfront hback
    rw [instrument_of_some hbody hflag hc (hsites ▸ hnodup), hsites]
    refine .inr ⟨.startingAt names span, c,
      ⟨pre ++ front, back ++ tailChecks (.startingAt names span) span c, ?_, hpre, ?_⟩, rfl, rfl⟩
    · rw [frames_of_mapReturns _ hfront hback]
      simp only [pre, List.append_assoc]
    · rw [listReturns_append, hback, listReturns_tailChecks, List.append_nil]

end

/-! ### What every edit keeps -/

section
variable {checked : List Nat} {span : Span} {stmts : List Stmt} {fn : Function}

/-- Check blocks whose returns count as checked stay as they are. -/
theorem listMapReturns_checkUnless_of_mem {checked : List Nat} (e : Emitter) (c : Contract)
    {stmts : List Stmt} (h : ∀ site ∈ listSites stmts, site ∈ checked) :
    listMapReturns (checkUnless checked e c) stmts = stmts := by
  have hsame : listMapReturns (checkUnless checked e c) stmts = listMapReturns Return.stmt stmts :=
    listMapReturns_congr fun r hr => if_pos (h r.site (List.mem_map_of_mem hr))
  rw [hsame, listMapReturns_eq_self fun s _ => s.mapReturns_stmt]

theorem listMapReturns_checkUnless_of_fresh {checked : List Nat} (e : Emitter) (c : Contract)
    {stmts : List Stmt} (h : ∀ site ∈ listSites stmts, site ∉ checked) :
    listMapReturns (checkUnless checked e c) stmts = listMapReturns (checkBlock e c) stmts :=
  listMapReturns_congr fun r hr => if_neg (h r.site (List.mem_map_of_mem hr))

theorem Function.WrappedOnce.instrument (h : fn.WrappedOnce span stmts) (hnodup : (listSites stmts).Nodup)
    (names : RuntimeNames) :
    (fn.instrument names).1.WrappedOnce span stmts ∧ (fn.instrument names).2.wrappedReturns = 0 := by
  cases hflag : fn.instrumented with
  | true =>
    rw [instrument_of_instrumented hflag]
    exact ⟨h, rfl⟩
  | false =>
    obtain ⟨⟨e, c, hframes⟩, hchecked⟩ := h
    have hsites : listSites (listMapReturns (checkBlock e c) stmts) = listSites stmts :=
      listSites_listMapReturns fun s _ => s.sites_mapReturns (sites_checkBlock e c)
    rcases instrument_frames names hframes hflag (hsites.symm ▸ hnodup) with
      ⟨hb, hs, hw⟩ | ⟨e', c', hb, hs, hw⟩
    · exact ⟨⟨⟨e, c, hb⟩, hs ▸ hchecked⟩, hw⟩
    · -- every return in the frame counts as checked, so nothing is wrapped again
      rw [listMapReturns_checkUnless_of_mem e' c' (hsites.symm ▸ hchecked)] at hb
      rw [hsites, markSites_eq_self hchecked] at hs hw
      exact ⟨⟨⟨e, c, hb⟩, hs ▸ hchecked⟩, hw.trans (Nat.sub_self _)⟩

theorem Function.WrappedOnce.apply (h : fn.WrappedOnce span stmts) (hnodup : (listSites stmts).Nodup)
    (edit : Edit) : (edit.apply fn).WrappedOnce span stmts := by
  cases edit with
  | annotate | unmark => exact ⟨h.frames, h.checked⟩
  | instrument names => exact (h.instrument hnodup names).1

theorem Function.Unwrapped.apply (h : fn.Unwrapped checked span stmts)
    (hnodup : (listSites stmts).Nodup) (hfresh : ∀ site ∈ listSites stmts, site ∉ checked) (edit : Edit) :
    (edit.apply fn).Unwrapped checked span stmts ∨ (edit.apply fn).WrappedOnce span stmts := by
  cases edit with
  | annotate | unmark => exact .inl ⟨h.frames, h.sites⟩
  | instrument names =>
    obtain ⟨hframes, rfl⟩ := h
    cases hflag : fn.instrumented with
    | true =>
      simp only [Edit.apply, instrument_of_instrumented hflag]
      exact .inl ⟨hframes, rfl⟩
    | false =>
      rcases instrument_frames names hframes hflag hnodup with ⟨hb, hs, -⟩ | ⟨e, c, hb, hs, -⟩
      · exact .inl ⟨hb, hs⟩
      · rw [listMapReturns_checkUnless_of_fresh e c hfresh] at hb
        refine .inr ⟨⟨e, c, hb⟩, fun site hsite => ?_⟩
        rw [Edit.apply, hs]
        exact mem_markSites.mpr (.inl hsite)

theorem Function.WrappedOnce.foldl (h : fn.WrappedOnce span stmts) (hnodup : (listSites stmts).Nodup)
    (edits : List Edit) : (edits.foldl Edit.apply fn).WrappedOnce span stmts := by
  induction edits generalizing fn with
  | nil => exact h
  | cons edit rest ih => exact ih (h.apply hnodup edit)

theorem Function.Unwrapped.foldl (h : fn.Unwrapped checked span stmts) (hnodup : (listSites stmts).Nodup)
    (hfresh : ∀ site ∈ listSites stmts, site ∉ checked) (edits : List Edit) :
    (edits.foldl Edit.apply fn).Unwrapped checked span stmts ∨
      (edits.foldl Edit.apply fn).WrappedOnce span stmts := by
  induction edits generalizing fn with
  | nil => exact .inl h
  | cons edit rest ih =>
    rcases h.apply hnodup hfresh edit with h | h
    · exact ih h
    · exact .inr (h.foldl hnodup rest)

end

/-! ### The pass as a whole -/

theorem returnContract?_of_nonempty {fn : Function} {c : Contract} (h : fn.returns = some c)
    (hc : c.isEmpty = false) : returnContract? fn = some c := by
  rw [returnContract?, h]
  exact if_pos (by simp [hc])

theorem returnContract?_eq_none {fn : Function} (h : ∀ c, fn.returns = some c → c.isEmpty = true) :
    returnContract? fn = none := by
  rw [returnContract?, Option.filter_eq_none_iff]
  intro c hc
  simp [h c hc]

/-- What a value that is not simple becomes: it is stored once, and nothing behind depends on it. -/
theorem checkBlock_of_not_isSimple (e : Emitter) (c : Contract) (span : Span) (site : Nat) :
    ∃ rest, ∀ value : Expr, value.isSimple = false →
      checkBlock e c ⟨span, some value, site⟩ =
        .block ((e.moveTo span).block ((e.moveTo span).var returnVar value :: rest)) := by
  refine ⟨(e.moveTo span).expectation ((e.moveTo span).reference returnVar) c ++
    [.ret span (some ((e.moveTo span).reference returnVar)) site], fun value h => ?_⟩
  simp [checkBlock, storedValue, checkedValue, h]

theorem listUnwrap_checkBlocks (e : Emitter) (c : Contract) (stmts : List Stmt) :
    listUnwrap (listMapReturns (checkBlock e c) stmts) = stmts :=
  listUnwrap_of fun s _ => unwrap_mapReturns e c s

/-- The pass is exact: on a function with fresh return sites it puts the checks in front, replaces
    the owned returns by their check blocks, puts the checks of `undefined` at the end, and changes
    nothing else; whatever happens to the function, runs of the pass included, no return is wrapped
    twice. -/
theorem Function.instrument_exact (names : RuntimeNames) {fn : Function} {span : Span}
    {stmts : List Stmt} (hbody : fn.body = .block ⟨span, stmts⟩) (hflag : fn.instrumented = false)
    (hnodup : (listSites stmts).Nodup) (hfresh : ∀ site ∈ listSites stmts, site ∉ fn.checkedSites) :
    let e := Emitter.startingAt names span
    let pre := conditionChecks e fn ++ receiverChecks e fn ++ parameterChecks e fn
    let behind := e.moveTo ⟨max (span.stop - 1) span.offset, 0⟩
    -- a contract for the returned values that asks for something
    (∀ c, fn.returns = some c → c.isEmpty = false →
      let tail := behind.expectation behind.undefined c
      (∃ sites, fn.instrument names =
          ({ fn with
              body := .block ⟨span, pre ++ listMapReturns (checkBlock e c) stmts ++ tail⟩
              checkedSites := sites
              instrumented := true },
            ⟨pre.length, (listReturns stmts).length, tail.length⟩) ∧
        (∀ site, site ∈ sites ↔ site ∈ fn.checkedSites ∨ site ∈ listSites stmts) ∧
        (fn.checkedSites.Pairwise (· < ·) → sites.Pairwise (· < ·))) ∧
      listUnwrap (listMapReturns (checkBlock e c) stmts) = stmts ∧
      (∀ s site, ∃ rest, ∀ value : Expr, value.isSimple = false →
        checkBlock e c ⟨s, some value, site⟩ =
          .block ((e.moveTo s).block ((e.moveTo s).var returnVar value :: rest))) ∧
      -- later runs wrap nothing
      ∀ edits : List Edit, ((edits.foldl Edit.apply (fn.instrument names).1).WrappedOnce span stmts ∧
        ∀ again, ((edits.foldl Edit.apply (fn.instrument names).1).instrument again).2.wrappedReturns = 0)) ∧
    -- no such contract
    ((∀ c, fn.returns = some c → c.isEmpty = true) →
      fn.instrument names =
        ({ fn with body := .block ⟨span, pre ++ stmts⟩, instrumented := true }, ⟨pre.length, 0, 0⟩)) ∧
    -- runs without a change in between, and with any
    (∀ again, (fn.instrument names).1.instrument again = ((fn.instrument names).1, {})) ∧
    ∀ edits : List Edit, (edits.foldl Edit.apply fn).Unwrapped fn.checkedSites span stmts ∨
      (edits.foldl Edit.apply fn).WrappedOnce span stmts := by
  intro e pre behind
  have hpre : preconditions e fn = pre := preconditions_eq e fn
  have hstart : fn.Unwrapped fn.checkedSites span stmts :=
    ⟨⟨[], [], by rw [hbody, List.nil_append, List.append_nil], rfl, rfl⟩, rfl⟩
  refine ⟨fun c hc hne => ?_, fun hempty => ?_, fun again => ?_, hstart.foldl hnodup hfresh⟩
  · intro tail
    have hrun : fn.instrument names = _ :=
      instrument_of_some hbody hflag (returnContract?_of_nonempty hc hne) hnodup
    rw [listMapReturns_checkUnless_of_fresh _ c hfresh] at hrun
    have honce : (fn.instrument names).1.WrappedOnce span stmts := by
      rw [hrun]
      refine ⟨⟨e, c, preconditions e fn, tail, rfl, listReturns_preconditions e fn,
        listReturns_expectation _ _ c⟩, fun site hsite => mem_markSites.mpr (.inl hsite)⟩
    refine ⟨⟨markSites fn.checkedSites (listSites stmts), ?_, fun site => ?_, pairwise_markSites⟩,
      listUnwrap_checkBlocks e c stmts, checkBlock_of_not_isSimple e c, fun edits => ?_⟩
    · have hlength : (markSites fn.checkedSites (listSites stmts)).length - fn.checkedSites.length =
          (listReturns stmts).length := by
        rw [length_markSites hnodup hfresh, Nat.add_sub_cancel_left, listSites, List.length_map]
      rw [hrun, hlength, ← hpre]
      rfl
    · rw [mem_markSites, or_comm]
    · have hlater := honce.foldl hnodup edits
      exact ⟨hlater, fun again => (hlater.instrument hnodup again).2⟩
  · rw [instrument_of_none hbody hflag (returnContract?_eq_none hempty), ← hpre]
  · refine instrument_of_instrumented ?_
    cases hc : returnContract? fn with
    | none => rw [instrument_of_none hbody hflag hc]
    | some c => rw [instrument_of_some hbody hflag hc hnodup]

/-- A function with a return below a test and one at its end, the second of them without a value. -/
theorem instrument_exact_two_returns :
    let value : Expr := .call ⟨30, 4⟩ (.ident ⟨30, 1⟩ "g") [.ident ⟨32, 1⟩ "x"]
    let stmts : List Stmt :=
      [.ifElse ⟨22, 20⟩ (.ident ⟨26, 1⟩ "x") (.block ⟨⟨29, 12⟩, [.ret ⟨30, 10⟩ (some value) 3]⟩) none,
        .ret ⟨50, 7⟩ none 7]
    let secret : Contract := ⟨⟨10, 8⟩, none, [.named ⟨10, 6⟩ (.ident ⟨10, 6⟩ "secret") [] []], none⟩
    let fn : Function :=
      { Function.blank ⟨0, 60⟩ none false with
        body := .block ⟨⟨20, 40⟩, stmts⟩, returns := some secret, checkedSites := [5] }
    listSites stmts = [3, 7] ∧ (∀ site ∈ listSites stmts, site ∉ fn.checkedSites) ∧
      (fn.instrument {}).2 = ⟨0, 2, 1⟩ ∧
      (∀ site, site ∈ (fn.instrument {}).1.checkedSites ↔ site = 3 ∨ site = 5 ∨ site = 7) ∧
      ∀ (edits : List Edit) again,
        ((edits.foldl Edit.apply (fn.instrument {}).1).instrument again).2.wrappedReturns = 0 := by
  intro value stmts secret fn
  have hfresh : ∀ site ∈ listSites stmts, site ∉ fn.checkedSites := by decide
  obtain ⟨hsome, -, -, -⟩ := fn.instrument_exact {} rfl rfl (by decide) hfresh
  obtain ⟨⟨sites, hrun, hmem, -⟩, -, -, hlater⟩ := hsome secret rfl rfl
  refine ⟨rfl, hfresh, by rw [hrun]; rfl, fun site => ?_, fun edits again => (hlater edits).2 again⟩
  have hsite : site ∈ sites ↔ site ∈ [5] ∨ site ∈ [3, 7] := hmem site
  rw [hrun, hsite]
  simp only [List.mem_cons, List.not_mem_nil, or_false]
  omega

end LabelWeaver
