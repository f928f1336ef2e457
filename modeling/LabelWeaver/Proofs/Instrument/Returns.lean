import LabelWeaver.Check.Instrument

/-! The return statements that a statement owns: those in it at any depth, but not those inside a
    function in it. `mapReturns` replaces them and keeps all else, and `Stmt.owned_induction` is the
    induction that follows them down: it stops at functions and expressions. -/

namespace LabelWeaver

/-- A return statement. -/
structure Return where
  span : Span
  argument : Option Expr
  site : Nat

def Return.stmt (r : Return) : Stmt := .ret r.span r.argument r.site

mutual

/-- The return statements that a statement owns, in source order. -/
def Stmt.returns : Stmt → List Return
  | .ret span argument site => [⟨span, argument, site⟩]
  | .block ⟨_, stmts⟩ => listReturns stmts
  | .ifElse _ _ consequent none => consequent.returns
  | .ifElse _ _ consequent (some alternate) => consequent.returns ++ alternate.returns
  | .forLoop _ _ _ _ body | .forEach _ _ _ _ body | .while _ _ body | .doWhile _ body _ =>
    body.returns
  | .switch _ _ cases => caseReturns cases
  | .tryCatch _ ⟨_, body⟩ handler finalizer =>
    listReturns body ++
      (match handler with
        | some ⟨_, _, ⟨_, stmts⟩⟩ => listReturns stmts
        | none => []) ++
      match finalizer with
        | some ⟨_, stmts⟩ => listReturns stmts
        | none => []
  | .expr _ _ | .var _ | .function _ | .throw _ _ | .break _ | .continue _ | .empty _ => []

def listReturns : List Stmt → List Return
  | [] => []
  | s :: rest => s.returns ++ listReturns rest

def caseReturns : List Case → List Return
  | [] => []
  | ⟨_, _, body⟩ :: rest => listReturns body ++ caseReturns rest

end

mutual

/-- Replaces the return statements that a statement owns. -/
def Stmt.mapReturns (f : Return → Stmt) : Stmt → Stmt
  | .ret span argument site => f ⟨span, argument, site⟩
  | .block ⟨span, stmts⟩ => .block ⟨span, listMapReturns f stmts⟩
  | .ifElse span test consequent none => .ifElse span test (consequent.mapReturns f) none
  | .ifElse span test consequent (some alternate) =>
    .ifElse span test (consequent.mapReturns f) (some (alternate.mapReturns f))
  | .forLoop span init test update body => .forLoop span init test update (body.mapReturns f)
  | .forEach span target values obj body => .forEach span target values obj (body.mapReturns f)
  | .while span test body => .while span test (body.mapReturns f)
  | .doWhile span body test => .doWhile span (body.mapReturns f) test
  | .switch span subject cases => .switch span subject (caseMapReturns f cases)
  | .tryCatch span ⟨bodySpan, body⟩ handler finalizer =>
    .tryCatch span ⟨bodySpan, listMapReturns f body⟩
      (match handler with
        | some ⟨handlerSpan, param, ⟨blockSpan, stmts⟩⟩ =>
          some ⟨handlerSpan, param, ⟨blockSpan, listMapReturns f stmts⟩⟩
        | none => none)
      (match finalizer with
        | some ⟨blockSpan, stmts⟩ => some ⟨blockSpan, listMapReturns f stmts⟩
        | none => none)
  | .expr span value => .expr span value
  | .var decl => .var decl
  | .function fn => .function fn
  | .throw span argument => .throw span argument
  | .break span => .break span
  | .continue span => .continue span
  | .empty span => .empty span

def listMapReturns (f : Return → Stmt) : List Stmt → List Stmt
  | [] => []
  | s :: rest => s.mapReturns f :: listMapReturns f rest

def caseMapReturns (f : Return → Stmt) : List Case → List Case
  | [] => []
  | ⟨span, test, body⟩ :: rest => ⟨span, test, listMapReturns f body⟩ :: caseMapReturns f rest

end

section
-- The lemmas below share the equations of these functions, which take long to make.
attribute [local simp] Stmt.returns listReturns caseReturns Stmt.mapReturns listMapReturns caseMapReturns
end

/-- The statement has no statements inside that belong to the same function. -/
def Stmt.isLeaf : Stmt → Bool
  | .expr _ _ | .var _ | .function _ | .throw _ _ | .break _ | .continue _ | .empty _ => true
  | _ => false

/-! ### Lists -/

theorem listReturns_eq (stmts : List Stmt) : listReturns stmts = stmts.flatMap Stmt.returns := by
  induction stmts with
  | nil => rfl
  | cons s rest ih => simp [listReturns, ih]

theorem caseReturns_eq (cases : List Case) :
    caseReturns cases = cases.flatMap fun k => listReturns k.body := by
  induction cases with
  | nil => rfl
  | cons k rest ih =>
    obtain ⟨span, test, body⟩ := k
    simp [caseReturns, ih]

theorem listMapReturns_eq (f : Return → Stmt) (stmts : List Stmt) :
    listMapReturns f stmts = stmts.map (Stmt.mapReturns f) := by
  induction stmts with
  | nil => rfl
  | cons s rest ih => simp [listMapReturns, ih]

theorem caseMapReturns_eq (f : Return → Stmt) (cases : List Case) :
    caseMapReturns f cases = cases.map fun k => { k with body := k.body.map (Stmt.mapReturns f) } := by
  induction cases with
  | nil => rfl
  | cons k rest ih =>
    obtain ⟨span, test, body⟩ := k
    simp [caseMapReturns, listMapReturns_eq, ih]

@[simp] theorem listReturns_nil : listReturns [] = [] := rfl

@[simp] theorem listReturns_cons (s : Stmt) (rest : List Stmt) :
    listReturns (s :: rest) = s.returns ++ listReturns rest := rfl

@[simp] theorem listReturns_append (a b : List Stmt) :
    listReturns (a ++ b) = listReturns a ++ listReturns b := by
  simp [listReturns_eq]

@[simp] theorem listMapReturns_append (f : Return → Stmt) (a b : List Stmt) :
    listMapReturns f (a ++ b) = listMapReturns f a ++ listMapReturns f b := by
  simp [listMapReturns_eq]

/-- The return statements of a list are those of its members. -/
theorem mem_listReturns {r : Return} {stmts : List Stmt} :
    r ∈ listReturns stmts ↔ ∃ s ∈ stmts, r ∈ s.returns := by
  rw [listReturns_eq, List.mem_flatMap]

/-! ### Induction -/

/-- Induction over the statements that belong to the same function. -/
@[elab_as_elim] theorem Stmt.owned_induction {motive : Stmt → Prop}
    (ret : ∀ span argument site, motive (.ret span argument site))
    (leaf : ∀ s : Stmt, s.isLeaf = true → motive s)
    (block : ∀ span stmts, (∀ s ∈ stmts, motive s) → motive (.block ⟨span, stmts⟩))
    (ifElse : ∀ span test consequent alternate, motive consequent → (∀ s ∈ alternate, motive s) →
      motive (.ifElse span test consequent alternate))
    (forLoop : ∀ span init test update body, motive body →
      motive (.forLoop span init test update body))
    (forEach : ∀ span target values obj body, motive body →
      motive (.forEach span target values obj body))
    (whileLoop : ∀ span test body, motive body → motive (.while span test body))
    (doWhile : ∀ span body test, motive body → motive (.doWhile span body test))
    (switch : ∀ span subject cases, (∀ k ∈ cases, ∀ s ∈ k.body, motive s) →
      motive (.switch span subject cases))
    (tryCatch : ∀ span body handler finalizer, (∀ s ∈ body.stmts, motive s) →
      (∀ h ∈ handler, ∀ s ∈ h.body.stmts, motive s) → (∀ b ∈ finalizer, ∀ s ∈ b.stmts, motive s) →
      motive (.tryCatch span body handler finalizer)) (s : Stmt) : motive s := by
  apply Stmt.returns.induct motive (fun cases => ∀ k ∈ cases, ∀ s ∈ k.body, motive s)
    (fun stmts => ∀ s ∈ stmts, motive s)
  case case1 => exact ret
  case case2 => exact block
  case case3 => exact fun span test consequent h => ifElse span test consequent none h nofun
  case case4 =>
    intro span test consequent alternate h h'
    exact ifElse span test consequent (some alternate) h (by simpa using h')
  case case5 => exact forLoop
  case case6 => exact forEach
  case case7 => exact whileLoop
  case case8 => exact doWhile
  case case9 => exact switch
  case case10 =>
    intro span bodySpan body handler finalizer hb hh hf
    refine tryCatch span ⟨bodySpan, body⟩ handler finalizer hb ?_ ?_
    · rintro ⟨_, _, ⟨_, stmts⟩⟩ rfl
      exact hh
    · rintro ⟨_, stmts⟩ rfl
      exact hf
  case case18 => nofun
  case case19 =>
    intro s rest h h' t ht
    rcases List.mem_cons.mp ht with rfl | ht
    · exact h
    · exact h' t ht
  case case20 => nofun
  case case21 =>
    intro span test body rest h h' k hk
    rcases List.mem_cons.mp hk with rfl | hk
    · exact h
    · exact h' k hk
  all_goals
    intros
    exact leaf _ rfl

/-! ### One statement at a time -/

theorem Stmt.returns_of_isLeaf {s : Stmt} (h : s.isLeaf = true) : s.returns = [] := by
  cases s <;> first | rfl | cases h

theorem Stmt.mapReturns_of_isLeaf {s : Stmt} (h : s.isLeaf = true) (f : Return → Stmt) :
    s.mapReturns f = s := by
  cases s <;> first | rfl | cases h

theorem Stmt.returns_ifElse (span : Span) (test : Expr) (consequent : Stmt) (alternate : Option Stmt) :
    (Stmt.ifElse span test consequent alternate).returns =
      consequent.returns ++ listReturns alternate.toList := by
  cases alternate <;> simp [Stmt.returns]

theorem Stmt.mapReturns_ifElse (f : Return → Stmt) (span : Span) (test : Expr) (consequent : Stmt)
    (alternate : Option Stmt) :
    (Stmt.ifElse span test consequent alternate).mapReturns f =
      .ifElse span test (consequent.mapReturns f) (alternate.map (Stmt.mapReturns f)) := by
  cases alternate <;> simp [Stmt.mapReturns]

theorem Stmt.returns_tryCatch (span : Span) (body : Block) (handler : Option Handler)
    (finalizer : Option Block) :
    (Stmt.tryCatch span body handler finalizer).returns =
      listReturns body.stmts ++ (handler.elim [] fun h => listReturns h.body.stmts) ++
        finalizer.elim [] fun b => listReturns b.stmts := by
  obtain ⟨bodySpan, stmts⟩ := body
  rcases handler with _ | ⟨_, _, _, _⟩ <;> rcases finalizer with _ | ⟨_, _⟩ <;> simp [Stmt.returns]

theorem Stmt.mapReturns_tryCatch (f : Return → Stmt) (span : Span) (body : Block)
    (handler : Option Handler) (finalizer : Option Block) :
    (Stmt.tryCatch span body handler finalizer).mapReturns f =
      .tryCatch span ⟨body.span, listMapReturns f body.stmts⟩
        (handler.map fun h => ⟨h.span, h.param, ⟨h.body.span, listMapReturns f h.body.stmts⟩⟩)
        (finalizer.map fun b => ⟨b.span, listMapReturns f b.stmts⟩) := by
  obtain ⟨bodySpan, stmts⟩ := body
  rcases handler with _ | ⟨_, _, _, _⟩ <;> rcases finalizer with _ | ⟨_, _⟩ <;> simp [Stmt.mapReturns]

/-! ### Replacing returns -/

theorem listMapReturns_congr_of {f g : Return → Stmt} {stmts : List Stmt}
    (ih : ∀ s ∈ stmts, (∀ r ∈ s.returns, f r = g r) → s.mapReturns f = s.mapReturns g)
    (h : ∀ r ∈ listReturns stmts, f r = g r) : listMapReturns f stmts = listMapReturns g stmts := by
  rw [listMapReturns_eq, listMapReturns_eq, List.map_inj_left]
  intro s hs
  exact ih s hs fun r hr => h r (mem_listReturns.mpr ⟨s, hs, hr⟩)

/-- Only what becomes of the returns that a statement owns matters. -/
theorem Stmt.mapReturns_congr {f g : Return → Stmt} (s : Stmt) (h : ∀ r ∈ s.returns, f r = g r) :
    s.mapReturns f = s.mapReturns g := by
  induction s using Stmt.owned_induction with
  | ret span argument site => exact h _ (List.mem_singleton_self _)
  | leaf s hs => rw [mapReturns_of_isLeaf hs, mapReturns_of_isLeaf hs]
  | block span stmts ih =>
    simp only [mapReturns, listMapReturns_congr_of ih h]
  | ifElse span test consequent alternate ih ih' =>
    rw [returns_ifElse] at h
    rw [mapReturns_ifElse, mapReturns_ifElse, ih fun r hr => h r (List.mem_append_left _ hr)]
    cases alternate with
    | none => rfl
    | some s =>
      have hs := ih' s rfl fun r hr => h r (List.mem_append_right _ (by simpa using hr))
      rw [Option.map_some, Option.map_some, hs]
  | forLoop span init test update body ih | forEach span target values obj body ih
  | whileLoop span test body ih | doWhile span body test ih => simp only [mapReturns, ih h]
  | switch span subject cases ih =>
    simp only [mapReturns, caseMapReturns_eq, Stmt.switch.injEq, true_and, List.map_inj_left]
    intro k hk
    have hk' : ∀ r ∈ listReturns k.body, f r = g r := fun r hr => h r (by
      rw [returns, caseReturns_eq, List.mem_flatMap]
      exact ⟨k, hk, hr⟩)
    rw [← listMapReturns_eq, ← listMapReturns_eq, listMapReturns_congr_of (ih k hk) hk']
  | tryCatch span body handler finalizer ih ihh ihf =>
    simp only [returns_tryCatch, List.mem_append] at h
    rw [mapReturns_tryCatch, mapReturns_tryCatch,
      listMapReturns_congr_of ih fun r hr => h r (Or.inl (Or.inl hr))]
    congr 1
    · cases handler with
      | none => rfl
      | some x => simp only [Option.map_some, listMapReturns_congr_of (ihh x rfl) fun r hr => h r (.inl (.inr hr))]
    · cases finalizer with
      | none => rfl
      | some x => simp only [Option.map_some, listMapReturns_congr_of (ihf x rfl) fun r hr => h r (.inr hr)]

theorem listMapReturns_congr {f g : Return → Stmt} {stmts : List Stmt}
    (h : ∀ r ∈ listReturns stmts, f r = g r) : listMapReturns f stmts = listMapReturns g stmts :=
  listMapReturns_congr_of (fun s _ => s.mapReturns_congr) h

theorem listMapReturns_eq_self {f : Return → Stmt} {stmts : List Stmt}
    (ih : ∀ s ∈ stmts, s.mapReturns f = s) : listMapReturns f stmts = stmts := by
  rw [listMapReturns_eq]
  exact (List.map_congr_left ih).trans (List.map_id' stmts)

/-- Returns that are put back as they were leave the statement as it was. -/
theorem Stmt.mapReturns_stmt (s : Stmt) : s.mapReturns Return.stmt = s := by
  induction s using Stmt.owned_induction with
  | ret span argument site => rfl
  | leaf s hs => exact mapReturns_of_isLeaf hs _
  | block span stmts ih => rw [mapReturns, listMapReturns_eq_self ih]
  | ifElse span test consequent alternate ih ih' =>
    rw [mapReturns_ifElse, ih]
    cases alternate with
    | none => rfl
    | some s => rw [Option.map_some, ih' s rfl]
  | forLoop span init test update body ih | forEach span target values obj body ih
  | whileLoop span test body ih | doWhile span body test ih => rw [mapReturns, ih]
  | switch span subject cases ih =>
    rw [mapReturns, caseMapReturns_eq]
    congr 1
    refine (List.map_congr_left fun k hk => ?_).trans (List.map_id' cases)
    obtain ⟨kspan, ktest, body⟩ := k
    rw [← listMapReturns_eq, listMapReturns_eq_self (ih _ hk)]
  | tryCatch span body handler finalizer ih ihh ihf =>
    rw [mapReturns_tryCatch, listMapReturns_eq_self ih]
    congr 1
    · cases body
      rfl
    · rcases handler with _ | ⟨hspan, param, hbody, stmts⟩
      · rfl
      · rw [Option.map_some, listMapReturns_eq_self (ihh _ rfl)]
    · rcases finalizer with _ | ⟨fspan, stmts⟩
      · rfl
      · rw [Option.map_some, listMapReturns_eq_self (ihf _ rfl)]

/-! ### Numbers -/

/-- The numbers of the return statements that a statement owns. -/
def Stmt.sites (s : Stmt) : List Nat := s.returns.map (·.site)

def listSites (stmts : List Stmt) : List Nat := (listReturns stmts).map (·.site)

@[simp] theorem listSites_nil : listSites [] = [] := rfl

@[simp] theorem listSites_cons (s : Stmt) (rest : List Stmt) :
    listSites (s :: rest) = s.sites ++ listSites rest := by
  simp [listSites, Stmt.sites]

@[simp] theorem listSites_append (a b : List Stmt) : listSites (a ++ b) = listSites a ++ listSites b := by
  simp [listSites]

theorem Stmt.sites_ifElse (span : Span) (test : Expr) (consequent : Stmt) (alternate : Option Stmt) :
    (Stmt.ifElse span test consequent alternate).sites =
      consequent.sites ++ listSites alternate.toList := by
  simp only [sites, listSites, returns_ifElse, List.map_append]

theorem Stmt.sites_tryCatch (span : Span) (body : Block) (handler : Option Handler)
    (finalizer : Option Block) :
    (Stmt.tryCatch span body handler finalizer).sites =
      listSites body.stmts ++ (handler.elim [] fun h => listSites h.body.stmts) ++
        finalizer.elim [] fun b => listSites b.stmts := by
  cases handler <;> cases finalizer <;> simp [sites, listSites, returns_tryCatch]

theorem listSites_listMapReturns {f : Return → Stmt} {stmts : List Stmt}
    (ih : ∀ s ∈ stmts, (s.mapReturns f).sites = s.sites) :
    listSites (listMapReturns f stmts) = listSites stmts := by
  induction stmts with
  | nil => rfl
  | cons s rest ih' =>
    rw [listMapReturns, listSites_cons, listSites_cons, ih s List.mem_cons_self,
      ih' fun t ht => ih t (List.mem_cons_of_mem _ ht)]

/-- If each return is replaced by a statement with the same number, the numbers stay. -/
theorem Stmt.sites_mapReturns {f : Return → Stmt} (hf : ∀ r, (f r).sites = [r.site]) (s : Stmt) :
    (s.mapReturns f).sites = s.sites := by
  induction s using Stmt.owned_induction with
  | ret span argument site => exact hf _
  | leaf s hs => rw [mapReturns_of_isLeaf hs]
  | block span stmts ih => exact listSites_listMapReturns ih
  | ifElse span test consequent alternate ih ih' =>
    rw [mapReturns_ifElse, sites_ifElse, sites_ifElse, ih]
    cases alternate with
    | none => rfl
    | some s => simp only [Option.map_some, Option.toList_some, listSites_cons, ih' s rfl]
  | forLoop span init test update body ih | forEach span target values obj body ih
  | whileLoop span test body ih | doWhile span body test ih => exact ih
  | switch span subject cases ih =>
    simp only [sites, mapReturns, returns]
    induction cases with
    | nil => rfl
    | cons k rest ih' =>
      obtain ⟨kspan, test, body⟩ := k
      have hk := listSites_listMapReturns (ih _ List.mem_cons_self)
      have hrest := ih' fun k hk => ih k (List.mem_cons_of_mem _ hk)
      simp only [listSites] at hk
      simp only [caseMapReturns, caseReturns, List.map_append, hk, hrest]
  | tryCatch span body handler finalizer ih ihh ihf =>
    rw [mapReturns_tryCatch, sites_tryCatch, sites_tryCatch]
    congr 1
    · congr 1
      · exact listSites_listMapReturns ih
      · cases handler with
        | none => rfl
        | some x => exact listSites_listMapReturns (ihh x rfl)
    · cases finalizer with
      | none => rfl
      | some x => exact listSites_listMapReturns (ihf x rfl)

end LabelWeaver
