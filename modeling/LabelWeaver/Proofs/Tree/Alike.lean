import LabelWeaver.Proofs.Tree.Bare
import LabelWeaver.Proofs.Tree.Script
import Mathlib.Data.List.Forall2

/-! Trees with the same code. Two trees that differ in their spans, in the numbers of their return statements
    and in what they know about checks are written alike. -/

namespace LabelWeaver

/-! ### Nodes without their places -/

def Node.bare : Node → Node
  | expr e => expr e.bare
  | item e => item e.bare
  | key k => key k.bare
  | property p => property p.bare
  | function fn => function fn.bare
  | body b => body b.bare
  | block b => block b.bare
  | stmt s => stmt s.bare
  | decl d => decl d.bare
  | declarator d => declarator d.bare
  | forInit i => forInit i.bare
  | forTarget t => forTarget t.bare
  | case c => case c.bare
  | handler h => handler h.bare
  | pattern p => pattern p.bare
  | patternProp p => patternProp p.bare
  | binding b => binding b.bare
  | demand d => demand d.bare
  | shape s => shape s.bare
  | contract c => contract c.bare
  | label l => label l.bare
  | site n => site n

theorem Bare.shapes_eq (ss : List Shape) : Bare.shapes ss = ss.map Shape.bare := by
  induction ss with
  | nil => rfl
  | cons s ss ih => rw [Bare.shapes, ih, List.map_cons]

theorem Bare.labels_eq (ls : List Label) : Bare.labels ls = ls.map Label.bare := by
  induction ls with
  | nil => rfl
  | cons l ls ih => rw [Bare.labels, ih, List.map_cons]

section
open Bare
variable {α β : Type} {f : α → α} {xs bs : List α}

theorem filterMap_bare (f : α → β) (xs : List (Option α)) :
    (xs.map (Option.map f)).filterMap id = (xs.filterMap id).map f := by
  induction xs with
  | nil => rfl
  | cons x xs ih =>
    cases x with
    | none => exact ih
    | some x => exact congrArg (f x :: ·) ih

theorem map_bare {g : α → Node} (hbs : bs = xs.map f) (hg : ∀ x, g (f x) = (g x).bare) :
    bs.map g = (xs.map g).map Node.bare := by
  rw [hbs, List.map_map, List.map_map]
  exact List.map_congr_left fun x _ => hg x

theorem elements_bare {f : α → α} {g : α → Node} {xs bs : List (Option α)} (hbs : bs = xs.map (Option.map f))
    (hg : ∀ x, g (f x) = (g x).bare) : (bs.filterMap id).map g = ((xs.filterMap id).map g).map Node.bare := by
  refine map_bare ?_ hg
  rw [hbs, filterMap_bare]

/-- The parts of a node without its places are its parts without their places. -/
theorem Node.parts_bare (n : Node) : n.bare.parts = n.parts.map Node.bare := by
  cases n with
  | expr e =>
    cases e with
    | array span elements => exact elements_bare (elements_eq elements) fun _ => rfl
    | object span properties => exact map_bare (properties_eq properties) fun _ => rfl
    | call span callee args => exact congrArg (_ :: ·) (map_bare (exprs_eq args) fun _ => rfl)
    | new span callee args => exact congrArg (_ :: ·) (map_bare (exprs_eq args) fun _ => rfl)
    | sequence span items => exact map_bare (exprs_eq items) fun _ => rfl
    | _ => rfl
  | item e => cases e <;> rfl
  | key k => cases k <;> rfl
  | property p => cases p <;> rfl
  | function fn =>
    obtain ⟨span, name, params, body, isArrow, receiver, returns, condition, sites, instrumented⟩ := fn
    rw [parts, List.map_append]
    exact congrArg (· ++ _) (map_bare (patterns_eq params) fun _ => rfl)
  | body b => cases b <;> rfl
  | block b =>
    obtain ⟨span, stmts⟩ := b
    exact map_bare (stmts_eq stmts) fun _ => rfl
  | stmt s =>
    cases s with
    | ret span e site => cases e <;> rfl
    | ifElse span test consequent alternate => cases alternate <;> rfl
    | forLoop span init test update body => cases test <;> cases update <;> rfl
    | switch span subject cases => exact congrArg (_ :: ·) (map_bare (cases_eq cases) fun _ => rfl)
    | tryCatch span body handler finalizer => cases handler <;> cases finalizer <;> rfl
    | _ => rfl
  | decl d =>
    obtain ⟨span, kind, decls⟩ := d
    exact map_bare (declarators_eq decls) fun _ => rfl
  | declarator d =>
    obtain ⟨span, target, init⟩ := d
    cases init <;> rfl
  | forInit i => cases i <;> rfl
  | forTarget t => cases t <;> rfl
  | case c =>
    obtain ⟨span, test, body⟩ := c
    rw [parts, List.map_append]
    cases test <;> exact congrArg (_ ++ ·) (map_bare (stmts_eq body) fun _ => rfl)
  | handler k =>
    obtain ⟨span, param, body⟩ := k
    cases param <;> rfl
  | pattern p =>
    cases p with
    | array span elements => exact elements_bare (patternElements_eq elements) fun _ => rfl
    | object span properties => exact map_bare (patternProps_eq properties) fun _ => rfl
    | _ => rfl
  | patternProp p =>
    cases p with
    | shorthand b e => cases e <;> rfl
    | _ => rfl
  | binding => rfl
  | demand d =>
    obtain ⟨expected, shapes⟩ := d
    rw [parts, List.map_append]
    cases expected <;> exact congrArg (_ ++ ·) (map_bare (shapes_eq shapes) fun _ => rfl)
  | shape s => cases s <;> rfl
  | contract c =>
    obtain ⟨span, base, labels, condition⟩ := c
    rw [parts, List.map_append, List.map_append]
    cases base <;> cases condition <;>
      exact congrArg (_ ++ ·) (congrArg (· ++ _) (map_bare (labels_eq labels) fun _ => rfl))
  | label l =>
    cases l with
    | named span e parameters dependants =>
      rw [parts, List.map_cons, List.map_append]
      exact congrArg (_ :: ·) (congr (congrArg _ (map_bare (labels_eq parameters) fun _ => rfl))
        (map_bare (exprs_eq dependants) fun _ => rfl))
    | ref => rfl
  | site => rfl

/-- What holds the places of the parts does not depend on them. -/
theorem map_hole {c : β} (hbs : bs = xs.map f) : (bs.map fun _ => c) = xs.map fun _ => c := by
  rw [hbs, List.map_map]
  rfl

theorem elements_hole {c : β} {xs bs : List (Option α)} (hbs : bs = xs.map (Option.map f)) :
    bs.map (Option.map fun _ => c) = xs.map (Option.map fun _ => c) := by
  rw [hbs, List.map_map]
  exact List.map_congr_left fun x _ => by cases x <;> rfl

/-- A skeleton has no places. -/
theorem Node.skeleton_bare (n : Node) : n.bare.skeleton = n.skeleton := by
  cases n with
  | expr e =>
    cases e with
    | array span elements => exact congrArg (fun es => expr (.array .zero es)) (elements_hole (elements_eq elements))
    | object span properties => exact congrArg (fun ps => expr (.object .zero ps)) (map_hole (properties_eq properties))
    | call span callee args => exact congrArg (fun as => expr (.call .zero .hole as)) (map_hole (exprs_eq args))
    | new span callee args => exact congrArg (fun as => expr (.new .zero .hole as)) (map_hole (exprs_eq args))
    | sequence span items => exact congrArg (fun es => expr (.sequence .zero es)) (map_hole (exprs_eq items))
    | _ => rfl
  | item e => cases e <;> rfl
  | key k => cases k <;> rfl
  | property p => cases p <;> rfl
  | function fn =>
    obtain ⟨span, name, params, body, isArrow, receiver, returns, condition, sites, instrumented⟩ := fn
    have hparams := map_hole (c := Pattern.hole) (patterns_eq params)
    cases name <;> exact congrArg (fun ps => function { Function.hole with
      name := _, params := ps, isArrow := isArrow, instrumented := instrumented }) hparams
  | body b => cases b <;> rfl
  | block b =>
    obtain ⟨span, stmts⟩ := b
    exact congrArg (fun ss => block ⟨.zero, ss⟩) (map_hole (stmts_eq stmts))
  | stmt s =>
    cases s with
    | ret span e site => cases e <;> rfl
    | ifElse span test consequent alternate => cases alternate <;> rfl
    | forLoop span init test update body => cases test <;> cases update <;> rfl
    | switch span subject cases => exact congrArg (fun cs => stmt (.switch .zero .hole cs)) (map_hole (cases_eq cases))
    | tryCatch span body handler finalizer => cases handler <;> cases finalizer <;> rfl
    | _ => rfl
  | decl d =>
    obtain ⟨span, kind, decls⟩ := d
    exact congrArg (fun ds => decl ⟨.zero, kind, ds⟩) (map_hole (declarators_eq decls))
  | declarator d =>
    obtain ⟨span, target, init⟩ := d
    cases init <;> rfl
  | forInit i => cases i <;> rfl
  | forTarget t => cases t <;> rfl
  | case c =>
    obtain ⟨span, test, body⟩ := c
    cases test <;> exact congrArg (fun ss => case ⟨.zero, _, ss⟩) (map_hole (stmts_eq body))
  | handler k =>
    obtain ⟨span, param, body⟩ := k
    cases param <;> rfl
  | pattern p =>
    cases p with
    | array span elements =>
      exact congrArg (fun es => pattern (.array .zero es)) (elements_hole (patternElements_eq elements))
    | object span properties =>
      exact congrArg (fun ps => pattern (.object .zero ps)) (map_hole (patternProps_eq properties))
    | _ => rfl
  | patternProp p =>
    cases p with
    | shorthand b e => cases e <;> rfl
    | _ => rfl
  | binding b =>
    obtain ⟨span, name, demand⟩ := b
    rfl
  | demand d =>
    obtain ⟨expected, shapes⟩ := d
    cases expected <;> exact congrArg (fun ss => demand ⟨_, ss⟩) (map_hole (shapes_eq shapes))
  | shape s => cases s <;> rfl
  | contract c =>
    obtain ⟨span, base, labels, condition⟩ := c
    cases base <;> cases condition <;> exact congrArg (fun ls => contract ⟨.zero, _, ls, _⟩) (map_hole (labels_eq labels))
  | label l =>
    cases l with
    | named span e parameters dependants =>
      exact congrArg₂ (fun ps ds => label (.named .zero .hole ps ds)) (map_hole (labels_eq parameters))
        (map_hole (exprs_eq dependants))
    | ref => rfl
  | site => rfl

end

/-! ### The same code -/

theorem forall₂_comp {α β γ : Type} {R : α → β → Prop} {S : β → γ → Prop} {T : α → γ → Prop}
    (hRS : ∀ a b c, R a b → S b c → T a c) {as : List α} {bs : List β} {cs : List γ} (h : List.Forall₂ R as bs)
    (h' : List.Forall₂ S bs cs) : List.Forall₂ T as cs := by
  induction h generalizing cs with
  | nil =>
    cases h'
    exact .nil
  | cons hab _ ih =>
    cases h' with
    | cons hbc h' => exact .cons (hRS _ _ _ hab hbc) (ih h')

/-- What a node adds to its parts when it is written. -/
def Node.form (n : Node) : Node :=
  match n.skeleton with
  | function fn => function { fn with instrumented := false }
  | m => m

/-- The nodes are of the same form, and so are those below them. -/
inductive Node.SameCode : Node → Node → Prop where
  | mk {n m : Node} (hform : n.form = m.form) (hparts : List.Forall₂ SameCode n.parts m.parts) : SameCode n m

namespace Node.SameCode

variable {n m : Node}

theorem form (h : n.SameCode m) : n.form = m.form := by
  cases h with
  | mk hform => exact hform

theorem parts (h : n.SameCode m) : List.Forall₂ SameCode n.parts m.parts := by
  cases h with
  | mk _ hparts => exact hparts

/-- Trees that are the same without their places have the same code. -/
theorem of_bare (h : n.bare = m.bare) : n.SameCode m := by
  induction n using Node.byParts generalizing m with
  | h n ih =>
    refine ⟨?_, ?_⟩
    · rw [Node.form, Node.form, ← n.skeleton_bare, ← m.skeleton_bare, h]
    · have hmaps : n.parts.map Node.bare = m.parts.map Node.bare := by rw [← n.parts_bare, ← m.parts_bare, h]
      have hall : ∀ (ns ms : List Node), (∀ k ∈ ns, k ∈ n.parts) → ns.map Node.bare = ms.map Node.bare →
          List.Forall₂ SameCode ns ms := by
        intro ns
        induction ns with
        | nil =>
          intro ms _ hms
          rw [List.map_eq_nil_iff.mp hms.symm]
          exact .nil
        | cons k ns ihns =>
          intro ms hmem hms
          cases ms with
          | nil => cases hms
          | cons k' ms =>
            obtain ⟨hk, hns⟩ := List.cons.inj hms
            exact .cons (ih k (hmem k List.mem_cons_self) hk)
              (ihns ms (fun x hx => hmem x (List.mem_cons_of_mem _ hx)) hns)
      exact hall _ _ (fun _ h => h) hmaps

theorem refl (n : Node) : n.SameCode n := of_bare rfl

/-- What holds of nodes of the same form whenever it holds of their parts holds of nodes with the same code. -/
theorem byParts {P : Node → Node → Prop}
    (hP : ∀ {n m : Node}, n.form = m.form → List.Forall₂ (fun a b => SameCode a b ∧ P a b) n.parts m.parts → P n m)
    (h : n.SameCode m) : P n m := by
  induction n using Node.byParts generalizing m with
  | h n ih =>
    have hparts : ∀ {ns ms : List Node}, (∀ k ∈ ns, k ∈ n.parts) → List.Forall₂ SameCode ns ms →
        List.Forall₂ (fun a b => SameCode a b ∧ P a b) ns ms := by
      intro ns ms hmem hcode
      induction hcode with
      | nil => exact .nil
      | cons hk _ ihns =>
        exact .cons ⟨hk, ih _ (hmem _ List.mem_cons_self) hk⟩ (ihns fun x hx => hmem x (List.mem_cons_of_mem _ hx))
    exact hP h.form (hparts (fun _ => id) h.parts)

theorem symm (h : n.SameCode m) : m.SameCode n :=
  h.byParts (P := fun n m => m.SameCode n) fun hform hparts => ⟨hform.symm, (hparts.imp fun _ _ => And.right).flip⟩

theorem trans {k : Node} (hnm : n.SameCode m) (hmk : m.SameCode k) : n.SameCode k := by
  refine hnm.byParts (P := fun n m => ∀ k, m.SameCode k → n.SameCode k) (fun {n m} hform hparts k hk => ?_) k hmk
  exact ⟨hform.trans hk.form, forall₂_comp (fun _ _ _ hab hbc => hab.2 _ hbc) hparts hk.parts⟩

theorem stmts_of_bare {ss ss' : List Stmt} (h : Bare.stmts ss = Bare.stmts ss') :
    List.Forall₂ SameCode (ss.map .stmt) (ss'.map .stmt) := by
  induction ss generalizing ss' with
  | nil =>
    cases ss' with
    | nil => exact .nil
    | cons => cases h
  | cons s ss ih =>
    cases ss' with
    | nil => cases h
    | cons s' ss' =>
      obtain ⟨hs, hss⟩ := List.cons.inj h
      exact .cons (of_bare (congrArg Node.stmt hs)) (ih hss)

end Node.SameCode

/-! ### Scripts -/

/-- Constituents of nodes with the same code. -/
inductive Constituent.Same : Constituent → Constituent → Prop where
  | token (k : Token.Kind) : Same (token k) (token k)
  | mark (o o' : Nat) : Same (mark o) (mark o')
  | node {n m : Node} (h : n.SameCode m) : Same (node n) (node m)

theorem Constituent.same_nodes {ns ms : List Node} (h : List.Forall₂ Node.SameCode ns ms) :
    List.Forall₂ Constituent.Same (ns.map .node) (ms.map .node) := by
  induction h with
  | nil => exact .nil
  | cons h _ ih => exact .cons (.node h) ih

section
variable (n : Node)

theorem Node.openMark_form : n.form.openMark.length = n.openMark.length := by
  cases n <;> first | rfl | (rename_i x; cases x <;> rfl)

theorem Node.closeMark_form : n.form.closeMark.length = n.closeMark.length := by
  cases n <;> first | rfl | (rename_i x; cases x <;> rfl)

theorem Node.ahead_form : n.form.ahead = n.ahead := by
  cases n <;> first | rfl | (rename_i x; cases x <;> rfl)

end

theorem Node.signs_form (n : Node) : n.form.signs = n.signs := by
  cases n with
  | expr e =>
    cases e with
    | binary span op a b => cases op <;> rfl
    | assign span op a b => cases op <;> rfl
    | _ => rfl
  | _ => first | rfl | (rename_i x; cases x <;> rfl)

/-- The scripts of nodes with the same code. -/
theorem Node.SameCode.script {n m : Node} (h : n.SameCode m) : List.Forall₂ Constituent.Same n.script m.script := by
  have hmarks : ∀ {os os' : List Nat}, os.length = os'.length →
      List.Forall₂ Constituent.Same (os.map .mark) (os'.map .mark) := by
    intro os
    induction os with
    | nil =>
      intro os' hlength
      rw [List.eq_nil_of_length_eq_zero hlength.symm]
      exact .nil
    | cons o os ih =>
      intro os' hlength
      cases os' with
      | nil => cases hlength
      | cons o' os' => exact .cons (.mark o o') (ih (Nat.succ.inj hlength))
  have hsigns : n.signs = m.signs := by rw [← n.signs_form, ← m.signs_form, h.form]
  have htokens : List.Forall₂ Constituent.Same (n.signs.map .token) (m.signs.map .token) := by
    rw [hsigns]
    generalize m.signs = ks
    induction ks with
    | nil => exact .nil
    | cons k ks ih => exact .cons (.token k) ih
  have hahead : n.ahead = m.ahead := by rw [← n.ahead_form, ← m.ahead_form, h.form]
  have hopen : n.openMark.length = m.openMark.length := by rw [← n.openMark_form, ← m.openMark_form, h.form]
  have hclose : n.closeMark.length = m.closeMark.length := by rw [← n.closeMark_form, ← m.closeMark_form, h.form]
  rw [n.script_eq, m.script_eq, hahead]
  exact List.rel_append (hmarks hopen) (List.rel_append (Constituent.same_nodes (List.forall₂_take _ h.parts))
    (List.rel_append htokens (List.rel_append (Constituent.same_nodes (List.forall₂_drop _ h.parts)) (hmarks hclose))))

theorem Node.SameCode.exists_stmt {n : Node} {s : Stmt} (h : n.SameCode (.stmt s)) :
    ∃ s', n = .stmt s' ∧ s'.skeleton = s.skeleton := by
  have hform := h.form
  cases n with
  | stmt s' => exact ⟨s', rfl, Node.stmt.inj hform⟩
  | _ => first | cases hform | (rename_i x; cases x <;> cases hform)

end LabelWeaver
