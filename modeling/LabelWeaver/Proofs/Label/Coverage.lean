import LabelWeaver.Proofs.Instrument.Covered
import LabelWeaver.Proofs.Grammar.Sites
import LabelWeaver.Proofs.Label.Productions

/-! Every annotated function of a program has its checks, wherever it stands in the tree. The program
    is read beside itself: what is followed on the way is that the functions inside each node are
    covered and that the returns a node owns have numbers of their own. -/

namespace LabelWeaver

open Instrument Label

/-- The node is an expression that can be assigned to. -/
def Node.isTarget : Node → Bool
  | .expr e => e.isTarget
  | _ => false

theorem Node.isTarget_of_skeleton {n m : Node} (h : n.skeleton = m.skeleton) : n.isTarget = m.isTarget := by
  have hskeleton : ∀ n : Node, n.skeleton.isTarget = n.isTarget := by
    intro n
    cases n with
    | expr e => exact e.isTarget_skeleton
    | item e | key e | property e | body e | forInit e | forTarget e | patternProp e | shape e | label e =>
      cases e <;> rfl
    | _ => rfl
  rw [← hskeleton n, h, hskeleton m]

/-- What is followed while a program is read. -/
structure Node.CoveredIn (names : RuntimeNames) (lo hi : Nat) (n m : Node) : Prop where
  target : n.isTarget = true → m.isTarget = true
  each : n.Each (Function.Covered names)
  sites : n.SitesIn lo hi

section
variable {names : RuntimeNames} {lo hi : Nat}

/-- A node that owns no returns and cannot be assigned to. -/
theorem Node.CoveredIn.made {n m : Node} (htarget : n.isTarget = false) (hsites : n.ownedSites = [])
    (heach : n.Each (Function.Covered names)) (hle : lo ≤ hi) : n.CoveredIn names lo hi m where
  target h := by rw [htarget] at h; cases h
  each := heach
  sites := .of_nil hsites hle

theorem each_of_chain {ns ms : List Node} (h : Chain (Node.CoveredIn names) lo hi ns ms) :
    ∀ n ∈ ns, n.Each (Function.Covered names) := by
  induction h with
  | nil => exact fun _ h => by cases h
  | cons ha _ ih => exact List.forall_mem_cons.mpr ⟨ha.each, ih⟩

theorem each_of_forall₂ {ns ms : List Node}
    (h : List.Forall₂ (fun n m => ∃ lo hi, Node.CoveredIn names lo hi n m) ns ms) :
    ∀ n ∈ ns, n.Each (Function.Covered names) := by
  induction h with
  | nil => exact fun _ h => by cases h
  | cons ha _ ih =>
    obtain ⟨_, _, ha⟩ := ha
    exact List.forall_mem_cons.mpr ⟨ha.each, ih⟩

end

/-- Nodes with covered functions. -/
def covering (names : RuntimeNames) : Likeness where
  admits _ := True
  rel := Node.CoveredIn names
  admits_tail := id
  le h := h.sites.le
  mono h hlo hhi := ⟨h.target, h.each, h.sites.mono hlo hhi⟩
  node hn hskeleton hparts hmeta :=
    { target := fun h => Node.isTarget_of_skeleton hskeleton ▸ h
      each := (Node.each_of_plain hn).mpr
        (List.forall_mem_append.mpr ⟨each_of_chain hparts, each_of_forall₂ hmeta⟩)
      sites := .node Node.CoveredIn.sites hn hparts }
  demand {n m} hn hskeleton hparts := by
    have hplain : n.isPlain = true ∧ n.isTarget = false ∧ n.ownedSites = [] ∧ n.metadata = [] := by
      cases n <;> first | exact ⟨rfl, rfl, rfl, rfl⟩ | cases hn
    obtain ⟨hplain, htarget, hsites, hmeta⟩ := hplain
    refine ⟨0, 0, .made htarget hsites ((Node.each_of_plain hplain).mpr ?_) (Nat.le_refl _)⟩
    rw [Node.children, hmeta, List.append_nil]
    exact each_of_forall₂ hparts
  site n _ :=
    { target := fun h => by cases h
      each := Node.all_site
      sites := .site n }
  item h := .made rfl rfl h.each.item h.sites.le
  target h := h.target

/-! ### What is made of what was read -/

section
variable {names : RuntimeNames} {lo mid hi : Nat}

theorem covered_declared (hle : lo ≤ hi) (span : Span) (labels : List Label) (parents : Option (List Label))
    (m : Node) : Node.CoveredIn names lo hi (.stmt (declared ⟨true, names⟩ span labels parents)) m := by
  unfold declared
  split
  · exact .made rfl rfl ((Node.all_stmt rfl).mpr (by simp [Stmt.parts])) hle
  · cases parents with
    | none => exact .made rfl rfl (Emitter.all_stmt _ rfl (Emitter.all_runtimeCall _ _ (by simp))) hle
    | some parents => exact .made rfl rfl (Emitter.all_stmt _ rfl (Emitter.all_runtimeCall _ _ (by simp))) hle

theorem covered_ruled {e e' : Expr} {fn fn' : Function} (he : Node.CoveredIn names lo mid (.expr e) (.expr e'))
    (hfn : Node.CoveredIn names mid hi (.function fn) (.function fn')) (span : Span) (name : Name) (m : Node) :
    Node.CoveredIn names lo hi (.stmt (ruled ⟨true, names⟩ span e name fn)) m := by
  exact .made rfl rfl (Emitter.all_traitRule _ he.each hfn.each _) (Nat.le_trans he.sites.le hfn.sites.le)

theorem covered_asserted {e e' : Expr} {c c' : Option Contract}
    (he : Node.CoveredIn names lo mid (.expr e) (.expr e'))
    (hc : Optional ((covering names).on .contract) mid hi c c') (span : Span) (m : Node) :
    Node.CoveredIn names lo hi (.stmt (asserted ⟨true, names⟩ span e c)) m := by
  cases hc with
  | none => exact .made rfl rfl (Emitter.all_stmt _ rfl (Emitter.all_assertCondition _ he.each _)) he.sites.le
  | some hc =>
    refine .made rfl ?_ ?_ (Nat.le_trans he.sites.le hc.sites.le)
    · simp [asserted, Node.ownedSites, Stmt.sites, Stmt.returns, Emitter.block]
    · exact Emitter.all_block_stmt _ (Emitter.all_expectation _ he.each hc.each)

theorem covered_relabelled {e e' : Expr} {ls ls' : List Label}
    (he : Node.CoveredIn names lo mid (.expr e) (.expr e')) (hls : Chain ((covering names).on .label) mid hi ls ls')
    (span span' : Span) (dropping : Bool) :
    Node.CoveredIn names lo hi (.expr (relabelled ⟨true, names⟩ span dropping ls e))
      (.expr (relabelled ⟨true, names⟩ span' dropping ls' e')) := by
  unfold relabelled
  simp only [Bool.not_true, Bool.false_eq_true, if_false]
  induction hls generalizing e e' with
  | nil => exact he
  | cons hl _ ih =>
    refine ih ?_
    exact .made (by cases dropping <;> rfl) rfl (Emitter.all_relabel _ dropping he.each hl.each)
      (Nat.le_trans he.sites.le hl.sites.le)

theorem covered_finished {fn fn' : Function} {b b' : FunctionBody} (hfn : (covering names).HeadLike lo mid fn fn')
    (hb : (covering names).BodyLike mid hi b b') (site' : Nat) :
    (covering names).FunctionLike lo (if takesSite ⟨true, names⟩ { fn with body := b } then hi + 1 else hi)
      (finished ⟨true, names⟩ hi { fn with body := b }) (finished ⟨true, names⟩ site' { fn' with body := b' }) := by
  intro s s'
  have hle := hfn.le_takesSite hb ⟨true, names⟩
  have hchildren : ∀ m ∈ (Node.function { fn with span := s, body := b }).children,
      m.Each (Function.Covered names) :=
    List.forall_mem_append.mpr ⟨each_of_chain (hfn.parts hb), each_of_forall₂ (hfn.metadata s s' b b')⟩
  refine .made rfl rfl ?_ hle
  unfold finished
  cases hneeds : Function.needsChecks { fn with body := b } with
  | false =>
    have hflag := hfn.instrumented.1
    refine Node.each_function.mpr ⟨⟨?_, fun h => ?_⟩, hchildren⟩
    · exact ⟨fun h => absurd (hflag.symm.trans h) (by decide), fun h => absurd (hneeds.symm.trans h) (by decide)⟩
    · exact absurd (hneeds.symm.trans h) (by decide)
  | true =>
    obtain ⟨span, stmts, hblock, hnodup⟩ := hb.toBlock Node.CoveredIn.sites hi
    have hbody : (Node.body b).Each (Function.Covered names) := hchildren _ (by simp [Node.children, Node.parts])
    have hchildren' : ∀ m ∈ (Node.function { fn with span := s, body := b.toBlock hi }).children,
        m.Each (Function.Covered names) := by
      intro m hm
      simp only [Node.children, Node.parts, List.mem_append, List.mem_singleton] at hm hchildren
      rcases hm with (hm | rfl) | hm
      · exact hchildren m (.inl (.inl hm))
      · exact all_toBlock hi hbody
      · exact hchildren m (.inr hm)
    have hcovered := Function.covered_instrument names { fn with span := s, body := b.toBlock hi } hblock
      hfn.instrumented.1 hfn.sites.1 hnodup hneeds
    have heach := Function.all_instrument names { fn with span := s, body := b.toBlock hi } hblock
      hfn.instrumented.1 hfn.sites.1 hnodup hchildren' fun f hf => Node.function.inj hf ▸ hcovered
    rw [Function.instrument_span names { fn with body := b.toBlock hi }] at heach
    exact heach

/-- What the annotation language makes has covered functions only. -/
theorem covering_builds (names : RuntimeNames) :
    (covering names).BuildsLike ⟨true, names⟩ ⟨true, names⟩ where
  declared hle := covered_declared hle _ _ _ _
  ruled _ he hfn := covered_ruled he hfn _ _ _
  asserted he hc := covered_asserted he hc _ _
  symbolized _ he := .made rfl rfl (Emitter.all_symbol _ he.each _) he.sites.le
  relabelled he hls := covered_relabelled he hls _ _ _
  finished hfn hb site' := covered_finished hfn hb site'
  copied _ _ _ _ _ _ _ _ :=
    .advance fun _ _ _ => .pure ⟨fun _ => rfl, by simp [Emitter.copyLabels, Emitter.runtime],
      .of_nil rfl (Nat.le_refl _)⟩

end

/-- Every function of a program that was read with checks has them exactly if it asks for some. -/
theorem covered_of_parseProgram {names : RuntimeNames} {source : String} {program : Program}
    (h : (Grammar.labels ⟨true, names⟩).parseProgram source = .ok program) :
    ∀ s ∈ program.body, ∀ fn, (Node.stmt s).Contains (.function fn) → fn.Covered names := by
  obtain ⟨lexed, stmts, -, hstmts, rfl⟩ := Grammar.parseProgram_eq_ok.mp h
  obtain ⟨_, _, -, hchain⟩ := Likeness.program (Likeness.labels_hooks (covering_builds names)) trivial hstmts
  have hnodes := Likeness.nodes hchain
  intro s hs fn hfn
  exact each_of_chain hnodes (.stmt s) (List.mem_map_of_mem hs) _ hfn fn rfl

/-- A function with two returns and an annotated arrow as a default value. -/
theorem covered_of_parseProgram_nested :
    ∃ program, (Grammar.labels ⟨true, {}⟩).parseProgram
        "function f(a :<!S!>, g = (x :<!T!>) => x) :<!S!> { if (a) return g(a); return a; }" = .ok program ∧
      (program.body.any fun | .function fn => fn.instrumented | _ => false) = true ∧
      ∀ s ∈ program.body, ∀ fn, (Node.stmt s).Contains (.function fn) → fn.Covered {} := by
  have hread : (((Grammar.labels ⟨true, {}⟩).parseProgram
        "function f(a :<!S!>, g = (x :<!T!>) => x) :<!S!> { if (a) return g(a); return a; }").toOption.any fun program =>
      program.body.any fun | .function fn => fn.instrumented | _ => false) = true := by
    decide +kernel
  cases hparse : (Grammar.labels ⟨true, {}⟩).parseProgram
      "function f(a :<!S!>, g = (x :<!T!>) => x) :<!S!> { if (a) return g(a); return a; }" with
  | error e => rw [hparse] at hread; cases hread
  | ok program =>
    rw [hparse] at hread
    exact ⟨program, rfl, hread, covered_of_parseProgram hparse⟩

end LabelWeaver
