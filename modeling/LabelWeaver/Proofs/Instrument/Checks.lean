import LabelWeaver.Proofs.Instrument.Returns
import Mathlib.Data.List.Nodup

/-! What becomes of the return statements that a function owns. Each one whose number is not among
    the checked ones is replaced by its check block: a variable for its value unless the value is
    simple, the checks on that value, the return itself. The numbers of the replaced ones are added
    to the checked ones. Reading the check blocks back gives the statements as they were. -/

namespace LabelWeaver.Instrument

variable {site : Nat} {sites checked : List Nat}

/-! ### Check blocks -/

/-- The value that the checks of a return look at, and that is returned behind them. -/
def checkedValue (e : Emitter) : Option Expr → Expr
  | none => e.undefined
  | some value => if value.isSimple then value else e.reference returnVar

/-- The variable that holds the value of a return; a simple value needs none. -/
def storedValue (e : Emitter) : Option Expr → List Stmt
  | none => []
  | some value => if value.isSimple then [] else [e.var returnVar value]

/-- A return behind the checks on its value. -/
def checkBlock (e : Emitter) (c : Contract) (r : Return) : Stmt :=
  let e := e.moveTo r.span
  .block (e.block (storedValue e r.argument ++ e.expectation (checkedValue e r.argument) c ++
    [.ret r.span (r.argument.map fun _ => checkedValue e r.argument) r.site]))

theorem wrap_eq_checkBlock (e : Emitter) (c : Contract) (span : Span) (argument : Option Expr)
    (site : Nat) : wrap e c span argument site = checkBlock e c ⟨span, argument, site⟩ := by
  cases argument with
  | none => rfl
  | some value => by_cases h : value.isSimple <;> simp [wrap, checkBlock, storedValue, checkedValue, h]

/-- The checks of a contract are expression statements. -/
theorem eq_expr_of_mem_expectation {e : Emitter} {value : Expr} {c : Contract} {s : Stmt}
    (h : s ∈ e.expectation value c) : ∃ v, s = .expr e.anchor v := by
  simp only [Emitter.expectation, List.mem_append, List.mem_map, Emitter.stmt] at h
  rcases h with (⟨_, -, rfl⟩ | ⟨_, -, rfl⟩) | ⟨_, -, rfl⟩ <;> exact ⟨_, rfl⟩

theorem listReturns_eq_nil {stmts : List Stmt} (h : ∀ s ∈ stmts, s.returns = []) :
    listReturns stmts = [] := by
  rw [listReturns_eq]
  exact List.flatMap_eq_nil_iff.mpr h

@[simp] theorem listReturns_expectation (e : Emitter) (value : Expr) (c : Contract) :
    listReturns (e.expectation value c) = [] :=
  listReturns_eq_nil fun s hs => by
    obtain ⟨v, rfl⟩ := eq_expr_of_mem_expectation hs
    rfl

@[simp] theorem listReturns_storedValue (e : Emitter) (argument : Option Expr) :
    listReturns (storedValue e argument) = [] := by
  cases argument with
  | none => rfl
  | some value => by_cases h : value.isSimple <;> simp [storedValue, h, Emitter.var, Stmt.returns]

theorem sites_checkBlock (e : Emitter) (c : Contract) (r : Return) :
    (checkBlock e c r).sites = [r.site] := by
  simp [checkBlock, Stmt.sites, Stmt.returns, Emitter.block]

/-- What becomes of a return when the numbers in `checked` are checked already. -/
def checkUnless (checked : List Nat) (e : Emitter) (c : Contract) (r : Return) : Stmt :=
  if r.site ∈ checked then r.stmt else checkBlock e c r

/-! ### The checked numbers -/

/-- Adds a number unless it is there. -/
def markSite (checked : List Nat) (site : Nat) : List Nat :=
  if site ∈ checked then checked else insertSite site checked

/-- Adds numbers one after the other. -/
def markSites (checked sites : List Nat) : List Nat := sites.foldl markSite checked

theorem mem_insertSite {x : Nat} : x ∈ insertSite site sites ↔ x = site ∨ x ∈ sites := by
  induction sites with
  | nil => simp [insertSite]
  | cons s rest ih =>
    unfold insertSite
    split
    · simp
    · split
      · rename_i h
        subst h
        simp
      · simp only [List.mem_cons, ih]
        tauto

theorem length_insertSite (h : site ∉ sites) : (insertSite site sites).length = sites.length + 1 := by
  induction sites with
  | nil => rfl
  | cons s rest ih =>
    simp only [List.mem_cons, not_or] at h
    unfold insertSite
    split
    · rfl
    · rw [if_neg h.1, List.length_cons, ih h.2, List.length_cons]

/-- The checked numbers stay in ascending order. -/
theorem pairwise_insertSite (h : sites.Pairwise (· < ·)) : (insertSite site sites).Pairwise (· < ·) := by
  induction sites with
  | nil => simp [insertSite]
  | cons s rest ih =>
    obtain ⟨hs, hrest⟩ := List.pairwise_cons.mp h
    unfold insertSite
    split
    · rename_i hlt
      refine List.pairwise_cons.mpr ⟨fun x hx => ?_, h⟩
      rcases List.mem_cons.mp hx with rfl | hx
      · exact hlt
      · exact Nat.lt_trans hlt (hs x hx)
    · split
      · exact h
      · refine List.pairwise_cons.mpr ⟨fun x hx => ?_, ih hrest⟩
        rcases mem_insertSite.mp hx with rfl | hx
        · omega
        · exact hs x hx

theorem mem_markSites {x : Nat} : x ∈ markSites checked sites ↔ x ∈ sites ∨ x ∈ checked := by
  induction sites generalizing checked with
  | nil => simp [markSites]
  | cons s rest ih =>
    have hmark : x ∈ markSite checked s ↔ x = s ∨ x ∈ checked := by
      unfold markSite
      split
      · rename_i hs
        exact ⟨Or.inr, fun h => h.elim (fun h => h ▸ hs) id⟩
      · exact mem_insertSite
    have hrest := @ih (markSite checked s)
    simp only [markSites, List.foldl_cons, List.mem_cons] at hrest ⊢
    rw [hrest, hmark]
    tauto

theorem length_markSites (hnodup : sites.Nodup) (hfresh : ∀ s ∈ sites, s ∉ checked) :
    (markSites checked sites).length = checked.length + sites.length := by
  induction sites generalizing checked with
  | nil => rfl
  | cons s rest ih =>
    obtain ⟨hs, hrest⟩ := List.nodup_cons.mp hnodup
    have hs' : s ∉ checked := hfresh s List.mem_cons_self
    have hmark : markSite checked s = insertSite s checked := if_neg hs'
    have hfresh' : ∀ t ∈ rest, t ∉ insertSite s checked := fun t ht h => by
      rcases mem_insertSite.mp h with rfl | h
      · exact hs ht
      · exact hfresh t (List.mem_cons_of_mem _ ht) h
    have := ih hrest hfresh'
    simp only [markSites, List.foldl_cons, hmark, List.length_cons] at this ⊢
    rw [this, length_insertSite hs']
    omega

theorem pairwise_markSites (h : checked.Pairwise (· < ·)) : (markSites checked sites).Pairwise (· < ·) := by
  induction sites generalizing checked with
  | nil => exact h
  | cons s rest ih =>
    refine ih ?_
    unfold markSite
    split
    · exact h
    · exact pairwise_insertSite h

theorem markSites_append (checked a b : List Nat) :
    markSites checked (a ++ b) = markSites (markSites checked a) b :=
  List.foldl_append

/-- Numbers that are there already change nothing. -/
theorem markSites_eq_self (h : ∀ s ∈ sites, s ∈ checked) : markSites checked sites = checked := by
  induction sites with
  | nil => rfl
  | cons s rest ih =>
    have hs : markSite checked s = checked := if_pos (h s List.mem_cons_self)
    rw [markSites, List.foldl_cons, hs]
    exact ih fun t ht => h t (List.mem_cons_of_mem _ ht)

/-! ### The walk over a body -/

section
variable {e : Emitter} {c : Contract} (checked : List Nat) {stmts : List Stmt}

/-- Marking another number does not change what becomes of a return. -/
theorem checkUnless_markSites {r : Return} (h : r.site ∉ sites) :
    checkUnless (markSites checked sites) e c r = checkUnless checked e c r := by
  have hiff : r.site ∈ markSites checked sites ↔ r.site ∈ checked := by simp [mem_markSites, h]
  simp only [checkUnless, hiff]

theorem Stmt.mapReturns_markSites {s : Stmt} (h : ∀ n ∈ s.sites, n ∉ sites) :
    s.mapReturns (checkUnless (markSites checked sites) e c) = s.mapReturns (checkUnless checked e c) :=
  s.mapReturns_congr fun _ hr => checkUnless_markSites checked (h _ (List.mem_map_of_mem hr))

theorem listMapReturns_markSites (h : ∀ n ∈ listSites stmts, n ∉ sites) :
    listMapReturns (checkUnless (markSites checked sites) e c) stmts = listMapReturns (checkUnless checked e c) stmts :=
  listMapReturns_congr fun _ hr => checkUnless_markSites checked (h _ (List.mem_map_of_mem hr))

/-- What the walk does to one statement, for every set of checked numbers. -/
def WalksTo (e : Emitter) (c : Contract) (s : Stmt) : Prop :=
  ∀ checked, s.sites.Nodup → (wrapReturns e c s).run checked =
    pure (s.mapReturns (checkUnless checked e c), markSites checked s.sites)

theorem wrapList_run_of (ih : ∀ s ∈ stmts, WalksTo e c s) (hnodup : (listSites stmts).Nodup) :
    (wrapList e c stmts).run checked =
      pure (listMapReturns (checkUnless checked e c) stmts, markSites checked (listSites stmts)) := by
  induction stmts generalizing checked with
  | nil => rfl
  | cons s rest ih' =>
    rw [listSites_cons] at hnodup
    obtain ⟨hs, hrest, hdisj⟩ := List.nodup_append.mp hnodup
    have hkeep : listMapReturns (checkUnless (markSites checked s.sites) e c) rest =
        listMapReturns (checkUnless checked e c) rest :=
      listMapReturns_markSites checked fun n hn hn' => hdisj n hn' n hn rfl
    have hrest' := @ih' (markSites checked s.sites) (fun t ht => ih t (List.mem_cons_of_mem _ ht)) hrest
    rw [hkeep, ← markSites_append] at hrest'
    simp only [wrapList, StateT.run_bind, ih s List.mem_cons_self checked hs, pure_bind, hrest',
      StateT.run_pure, listMapReturns, listSites_cons]

/-- The walk over a list after other numbers were marked. -/
theorem wrapList_run_after (ih : ∀ s ∈ stmts, WalksTo e c s) (hnodup : (listSites stmts).Nodup)
    (hdisj : ∀ a ∈ sites, ∀ b ∈ listSites stmts, a ≠ b) :
    (wrapList e c stmts).run (markSites checked sites) =
      pure (listMapReturns (checkUnless checked e c) stmts,
        markSites checked (sites ++ listSites stmts)) := by
  rw [wrapList_run_of _ ih hnodup, markSites_append, listMapReturns_markSites]
  exact fun n hn hn' => hdisj n hn' n hn rfl

theorem wrapCases_run_of {cases : List Case} (ih : ∀ k ∈ cases, ∀ s ∈ k.body, WalksTo e c s)
    (hnodup : ((caseReturns cases).map (·.site)).Nodup) :
    (wrapCases e c cases).run checked = pure (caseMapReturns (checkUnless checked e c) cases,
      markSites checked ((caseReturns cases).map (·.site))) := by
  induction cases generalizing checked with
  | nil => rfl
  | cons k rest ih' =>
    obtain ⟨span, test, body⟩ := k
    simp only [caseReturns, List.map_append] at hnodup ⊢
    obtain ⟨hb, hrest, hdisj⟩ := List.nodup_append.mp hnodup
    have hb' := wrapList_run_of checked (ih _ List.mem_cons_self) hb
    have hrest' := @ih' (markSites checked (listSites body))
      (fun k hk => ih k (List.mem_cons_of_mem _ hk)) hrest
    have hkeep : caseMapReturns (checkUnless (markSites checked (listSites body)) e c) rest =
        caseMapReturns (checkUnless checked e c) rest := by
      rw [caseMapReturns_eq, caseMapReturns_eq, List.map_inj_left]
      intro k hk
      rw [← listMapReturns_eq, ← listMapReturns_eq, listMapReturns_markSites]
      intro n hn hn'
      refine hdisj n hn' n ?_ rfl
      obtain ⟨r, hr, rfl⟩ := List.mem_map.mp hn
      rw [caseReturns_eq]
      exact List.mem_map_of_mem (List.mem_flatMap.mpr ⟨k, hk, hr⟩)
    rw [hkeep, ← markSites_append] at hrest'
    simp only [wrapCases, StateT.run_bind, hb', pure_bind, hrest', StateT.run_pure, caseMapReturns]
    rfl

/-- The walk over a statement whose returns have different numbers. -/
theorem walksTo (s : Stmt) : WalksTo e c s := by
  induction s using Stmt.owned_induction with
  | ret span argument site =>
    intro checked _
    by_cases h : site ∈ checked <;>
      simp [wrapReturns, h, Stmt.mapReturns, checkUnless, Stmt.sites, Stmt.returns, markSites, markSite,
        Return.stmt, wrap_eq_checkBlock]
  | leaf s hs =>
    intro checked _
    rw [Stmt.mapReturns_of_isLeaf hs, Stmt.sites, Stmt.returns_of_isLeaf hs]
    cases s <;> first | rfl | cases hs
  | block span stmts ih =>
    intro checked hnodup
    simp only [wrapReturns, StateT.run_bind, wrapList_run_of checked ih hnodup, Stmt.mapReturns]
    rfl
  | ifElse span test consequent alternate ih ih' =>
    intro checked hnodup
    rw [Stmt.sites_ifElse] at hnodup ⊢
    obtain ⟨hc, ha, hdisj⟩ := List.nodup_append.mp hnodup
    cases alternate with
    | none =>
      simp only [wrapReturns, StateT.run_bind, ih checked hc, Stmt.mapReturns, pure_bind, StateT.run_pure,
        Option.toList_none, listSites_nil, List.append_nil]
    | some s =>
      simp only [Option.toList_some, listSites_cons, listSites_nil, List.append_nil] at ha hdisj ⊢
      have hs := ih' s rfl (markSites checked consequent.sites) ha
      rw [Stmt.mapReturns_markSites checked fun n hn hn' => hdisj n hn' n hn rfl, ← markSites_append] at hs
      simp only [wrapReturns, StateT.run_bind, ih checked hc, pure_bind, hs, StateT.run_pure,
        Stmt.mapReturns]
  | forLoop span init test update body ih | forEach span target values obj body ih
  | whileLoop span test body ih | doWhile span body test ih =>
    intro checked hnodup
    simp only [wrapReturns, StateT.run_bind, ih checked hnodup, Stmt.mapReturns]
    rfl
  | switch span subject cases ih =>
    intro checked hnodup
    simp only [wrapReturns, StateT.run_bind, wrapCases_run_of checked ih hnodup, Stmt.mapReturns]
    rfl
  | tryCatch span body handler finalizer ih ihh ihf =>
    intro checked hnodup
    rw [Stmt.sites_tryCatch] at hnodup ⊢
    obtain ⟨hbh, hf, hdisjf⟩ := List.nodup_append.mp hnodup
    obtain ⟨hb, hh, hdisjh⟩ := List.nodup_append.mp hbh
    obtain ⟨bodySpan, body⟩ := body
    have hb' := wrapList_run_of checked ih hb
    simp only at hb' hdisjh hdisjf
    rcases handler with _ | ⟨handlerSpan, param, blockSpan, stmts⟩
    · rcases finalizer with _ | ⟨finSpan, final⟩
      · simp [wrapReturns, hb', Stmt.mapReturns]
      · have hf' := wrapList_run_after checked (ihf _ rfl) hf
          (by simpa using hdisjf)
        simp [wrapReturns, hb', hf', Stmt.mapReturns]
    · have hh' := wrapList_run_after checked (ihh _ rfl) hh hdisjh
      rcases finalizer with _ | ⟨finSpan, final⟩
      · simp [wrapReturns, hb', hh', Stmt.mapReturns]
      · have hf' := wrapList_run_after checked (ihf _ rfl) hf hdisjf
        simp only [Option.elim_some] at hf'
        simp [wrapReturns, hb', hh', hf', Stmt.mapReturns]

/-- The walk over a list of statements whose returns have different numbers: each return that is not
    checked yet gets its check block, and its number is marked. -/
theorem wrapList_run (hnodup : (listSites stmts).Nodup) :
    (wrapList e c stmts).run checked =
      pure (listMapReturns (checkUnless checked e c) stmts, markSites checked (listSites stmts)) :=
  wrapList_run_of checked (fun s _ => walksTo s) hnodup

end

end LabelWeaver.Instrument
