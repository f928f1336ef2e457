import LabelWeaver.Proofs.Token.Spelling
import LabelWeaver.Proofs.Tree.Gather

/-! What a node is made of in the order in which it is written: the tokens that are followed one by one,
    its parts, and the places in the source that its span gives. -/

namespace LabelWeaver

/-- The tokens that are followed one by one: slashes of all kinds and the word that starts a loop. -/
def Token.Kind.isSalient (k : Token.Kind) : Bool := k.isSlash || k == .reserved .kwFor

theorem Token.Kind.eq_for_of_text {k : Token.Kind} (h : k.propertyText? = some "for") (hk : k ≠ .ident "for") :
    k = .reserved .kwFor := by
  cases k with
  | reserved w => cases w <;> first | rfl | exact absurd (Option.some.inj h) (by decide)
  | contextual w => cases w <;> exact absurd (Option.some.inj h) (by decide)
  | ident x => exact absurd (congrArg Token.Kind.ident (Option.some.inj h)) hk
  | _ => cases h

theorem Token.Kind.isSalient_of_text {k : Token.Kind} {x : String} (h : k.propertyText? = some x) (hx : x ≠ "for") :
    k.isSalient = false := by
  cases k with
  | reserved w =>
    cases w <;> first | rfl | exact absurd (Option.some.inj h).symm hx
  | contextual | ident => rfl
  | _ => cases h

/-- A piece of what a node is made of. -/
inductive Constituent where
  | token (k : Token.Kind)
  /-- A place in the source. -/
  | mark (offset : Nat)
  | node (n : Node)

/-! ### Scripts -/

/-- The name of a property may be the word that starts a loop. -/
def Name.loopWord (name : Name) : List Token.Kind := if name.text = "for" then [.reserved .kwFor] else []

/-- The salient tokens of a node itself. -/
def Node.signs : Node → List Token.Kind
  | expr (.regex _ x y) => [.regex x y]
  | expr (.binary _ .div _ _) => [.punct .slash]
  | expr (.assign _ .div _ _) => [.punct .slashEq]
  | expr (.member _ _ name) => name.loopWord
  | key (.name name) => name.loopWord
  | property (.shorthand name) => name.loopWord
  | binding b => b.name.loopWord
  | stmt (.forLoop _ _ _ _ _) | stmt (.forEach _ _ _ _ _) => [.reserved .kwFor]
  | _ => []

/-- The end of a switch is a place, since comments may stand there. -/
def Stmt.endMark : Stmt → List Constituent
  | switch span _ _ => [.mark span.stop]
  | _ => []

/-- A node as it is written. -/
def Node.script : Node → List Constituent
  | expr (.binary span op a b) =>
    .node (.expr a) :: ((expr (.binary span op a b)).signs.map .token ++ [.node (.expr b)])
  | expr (.assign span op a b) =>
    .node (.expr a) :: ((expr (.assign span op a b)).signs.map .token ++ [.node (.expr b)])
  | expr (.member _ a name) => .node (.expr a) :: name.loopWord.map .token
  | stmt s => .mark s.span.offset :: ((stmt s).signs.map .token ++ (s.parts.map .node ++ s.endMark))
  | block b => .mark b.span.offset :: ((b.stmts.map .stmt).map .node ++ [.mark b.span.stop])
  | case c => .mark c.span.offset :: (case c).parts.map .node
  | n => n.signs.map .token ++ n.parts.map .node

theorem Node.mem_parts_of_mem_script {n m : Node} (h : .node m ∈ n.script) : m ∈ n.parts := by
  unfold script at h
  split at h <;> simp_all [parts, Expr.parts, Stmt.endMark]
  split at h <;> simp_all

/-! ### Leaves -/

/-- The tokens and places of a node, those of its parts included. -/
def Node.leaves (n : Node) : List Constituent :=
  n.script.attach.flatMap fun
    | ⟨.node m, _⟩ => m.leaves
    | ⟨.token k, _⟩ => [.token k]
    | ⟨.mark o, _⟩ => [.mark o]
termination_by n.weight
decreasing_by exact n.weight_lt_of_mem_parts m (mem_parts_of_mem_script ‹_›)

def Constituent.leaves : Constituent → List Constituent
  | node n => n.leaves
  | token k => [token k]
  | mark o => [mark o]

theorem Node.leaves_eq (n : Node) : n.leaves = n.script.flatMap Constituent.leaves := by
  have hleaves : (n.script.attach.map fun k => k.val.leaves) = n.script.map Constituent.leaves := List.attach_map_val
  rw [leaves, List.flatMap_def, List.flatMap_def, ← hleaves]
  congr 1
  refine List.map_congr_left fun k _ => ?_
  obtain ⟨k, hk⟩ := k
  cases k <;> rfl

/-- What holds of the parts of a node holds of the node. -/
theorem Node.byParts {P : Node → Prop} (h : ∀ n : Node, (∀ m ∈ n.parts, P m) → P n) (n : Node) : P n :=
  h n fun m _ => Node.byParts h m
termination_by n.weight
decreasing_by exact n.weight_lt_of_mem_parts m ‹_›

/-! ### Slashes -/

/-- The slash that a node is written with. -/
def Node.slash : Node → List Token.Kind
  | expr (.regex _ x y) => [.regex x y]
  | expr (.binary _ .div _ _) => [.punct .slash]
  | expr (.assign _ .div _ _) => [.punct .slashEq]
  | _ => []

/-- The regular expressions, divisions and assignments of quotients of a program, as they are written. -/
def Program.slashes (p : Program) : List Token.Kind := p.body.flatMap fun s => (Node.stmt s).gather Node.slash

def Constituent.kind? : Constituent → Option Token.Kind
  | token k => some k
  | _ => none

/-- The salient tokens of a node, in the order in which they are written. -/
def Node.salient (n : Node) : List Token.Kind := n.leaves.filterMap Constituent.kind?

/-- The salient tokens of constituents. -/
def salientOf (ks : List Constituent) : List Token.Kind := ks.flatMap fun k => k.leaves.filterMap Constituent.kind?

theorem Node.salient_eq (n : Node) : n.salient = salientOf n.script := by
  rw [salient, leaves_eq, List.filterMap_flatMap]
  rfl

section
variable (k : Token.Kind) (n : Node) (o : Nat) (ks ks' : List Constituent)

@[simp] theorem salientOf_nil : salientOf [] = [] := rfl

@[simp] theorem salientOf_token : salientOf (.token k :: ks) = k :: salientOf ks := rfl

@[simp] theorem salientOf_mark : salientOf (.mark o :: ks) = salientOf ks := rfl

@[simp] theorem salientOf_node : salientOf (.node n :: ks) = n.salient ++ salientOf ks := rfl

@[simp] theorem salientOf_append : salientOf (ks ++ ks') = salientOf ks ++ salientOf ks' := List.flatMap_append

@[simp] theorem salientOf_tokens (signs : List Token.Kind) : salientOf (signs.map .token) = signs := by
  induction signs with
  | nil => rfl
  | cons k signs ih => rw [List.map_cons, salientOf_token, ih]

@[simp] theorem salientOf_nodes (ns : List Node) : salientOf (ns.map .node) = ns.flatMap Node.salient := by
  induction ns with
  | nil => rfl
  | cons n ns ih => rw [List.map_cons, salientOf_node, ih, List.flatMap_cons]

end

theorem Name.filter_loopWord (name : Name) : name.loopWord.filter Token.Kind.isSlash = [] := by
  unfold loopWord
  split <;> rfl

theorem Node.filter_signs (n : Node) : n.signs.filter Token.Kind.isSlash = n.slash := by
  unfold signs
  split <;> first | rfl | exact Name.filter_loopWord _ | skip
  rename_i hregex hdiv hassign _ _ _ _ _ _
  unfold slash
  split
  · exact absurd rfl (hregex _ _ _)
  · exact absurd rfl (hdiv _ _ _)
  · exact absurd rfl (hassign _ _ _)
  · rfl

/-- The slashes of a tree are among its salient tokens. -/
theorem Node.filter_salient (n : Node) : n.salient.filter Token.Kind.isSlash = n.gather Node.slash := by
  induction n using Node.byParts with
  | h n ih =>
    have hparts : ∀ ms : List Node, (∀ m ∈ ms, m ∈ n.parts) →
        (ms.flatMap salient).filter Token.Kind.isSlash = ms.flatMap (gather Node.slash) := by
      intro ms hms
      rw [List.filter_flatMap]
      exact List.flatMap_congr fun m hm => ih m (hms m hm)
    have hsigns := n.filter_signs
    rw [salient_eq, gather_eq]
    unfold script
    split
    · next span op a b =>
      have ha := ih (.expr a) List.mem_cons_self
      have hb := ih (.expr b) (List.mem_cons_of_mem _ List.mem_cons_self)
      simp [ha, hb, hsigns, parts, Expr.parts, leading]
    · next span op a b =>
      have ha := ih (.expr a) List.mem_cons_self
      have hb := ih (.expr b) (List.mem_cons_of_mem _ List.mem_cons_self)
      simp [ha, hb, hsigns, parts, Expr.parts, leading]
    · next span a name =>
      have ha := ih (.expr a) List.mem_cons_self
      simp [ha, name.filter_loopWord, parts, Expr.parts, leading, slash]
    · next s =>
      have hs := hparts s.parts fun _ h => h
      have hend : salientOf s.endMark = [] := by unfold Stmt.endMark; split <;> rfl
      simp [hs, hsigns, hend, parts, leading]
    · next b =>
      have hb := hparts (b.stmts.map .stmt) fun _ h => h
      rw [salientOf_mark, salientOf_append, salientOf_nodes]
      simp [hb, parts, leading, slash]
    · next c =>
      have hc := hparts (case c).parts fun _ h => h
      simp [hc, leading, slash]
    · next hbinary hassign _ _ _ _ =>
      have hleading : n.leading = 0 := by
        unfold leading
        split
        · exact absurd rfl (hbinary _ _ _ _)
        · exact absurd rfl (hassign _ _ _ _)
        · rfl
      have hn := hparts n.parts fun _ h => h
      simp [hn, hsigns, hleading]

/-! ### Places -/

def Constituent.offset? : Constituent → Option Nat
  | mark o => some o
  | _ => none

/-- The places that a node gives, in the order in which it is written. -/
def Node.marks (n : Node) : List Nat := n.leaves.filterMap Constituent.offset?

/-- The places that constituents give. -/
def marksOf (ks : List Constituent) : List Nat := ks.flatMap fun k => k.leaves.filterMap Constituent.offset?

theorem Node.marks_eq (n : Node) : n.marks = marksOf n.script := by
  rw [marks, leaves_eq, List.filterMap_flatMap]
  rfl

section
variable (k : Token.Kind) (n : Node) (o : Nat) (ks ks' : List Constituent)

@[simp] theorem marksOf_nil : marksOf [] = [] := rfl

@[simp] theorem marksOf_token : marksOf (.token k :: ks) = marksOf ks := rfl

@[simp] theorem marksOf_mark : marksOf (.mark o :: ks) = o :: marksOf ks := rfl

@[simp] theorem marksOf_node : marksOf (.node n :: ks) = n.marks ++ marksOf ks := rfl

@[simp] theorem marksOf_append : marksOf (ks ++ ks') = marksOf ks ++ marksOf ks' := List.flatMap_append

@[simp] theorem marksOf_tokens (signs : List Token.Kind) : marksOf (signs.map .token) = [] := by
  induction signs with
  | nil => rfl
  | cons k signs ih => rw [List.map_cons, marksOf_token, ih]

@[simp] theorem marksOf_nodes (ns : List Node) : marksOf (ns.map .node) = ns.flatMap Node.marks := by
  induction ns with
  | nil => rfl
  | cons n ns ih => rw [List.map_cons, marksOf_node, ih, List.flatMap_cons]

end

/-- The place where a node starts, if it is followed. -/
def Node.openMark : Node → List Nat
  | stmt s => [s.span.offset]
  | block b => [b.span.offset]
  | case c => [c.span.offset]
  | _ => []

/-- The place where a node ends, if it is followed. -/
def Node.closeMark : Node → List Nat
  | block b => [b.span.stop]
  | stmt (.switch span _ _) => [span.stop]
  | _ => []

/-- The places of a node are where it starts, those of its parts, and where it ends. -/
theorem Node.marks_parts (n : Node) : n.marks = n.openMark ++ (n.parts.flatMap marks ++ n.closeMark) := by
  rw [marks_eq]
  unfold script
  split
  · simp [openMark, closeMark, parts, Expr.parts]
  · simp [openMark, closeMark, parts, Expr.parts]
  · simp [openMark, closeMark, parts, Expr.parts]
  · next s => cases s <;> simp [openMark, closeMark, parts, Stmt.endMark, Stmt.span]
  · next b =>
    rw [marksOf_mark, marksOf_append, marksOf_nodes]
    rfl
  · next c => simp [openMark, closeMark]
  · next hstmt hblock hcase =>
    have hopen : n.openMark = [] := by
      cases n with
      | stmt s => exact absurd rfl (hstmt s)
      | block b => exact absurd rfl (hblock b)
      | case c => exact absurd rfl (hcase c)
      | _ => rfl
    have hclose : n.closeMark = [] := by
      cases n with
      | stmt s => exact absurd rfl (hstmt s)
      | block b => exact absurd rfl (hblock b)
      | _ => rfl
    simp [hopen, hclose]

theorem Node.marks_expr (e : Expr) : (expr e).marks = e.parts.flatMap marks :=
  (expr e).marks_parts.trans (List.append_nil _)

def Constituent.node? : Constituent → Option Node
  | node n => some n
  | _ => none

/-- The nodes among constituents. -/
def nodesOf (ks : List Constituent) : List Node := ks.filterMap Constituent.node?

section
variable (k : Token.Kind) (n : Node) (o : Nat) (ks ks' : List Constituent)

@[simp] theorem nodesOf_nil : nodesOf [] = [] := rfl

@[simp] theorem nodesOf_token : nodesOf (.token k :: ks) = nodesOf ks := rfl

@[simp] theorem nodesOf_mark : nodesOf (.mark o :: ks) = nodesOf ks := rfl

@[simp] theorem nodesOf_node : nodesOf (.node n :: ks) = n :: nodesOf ks := rfl

@[simp] theorem nodesOf_append : nodesOf (ks ++ ks') = nodesOf ks ++ nodesOf ks' := List.filterMap_append

@[simp] theorem nodesOf_tokens (signs : List Token.Kind) : nodesOf (signs.map .token) = [] := by
  induction signs with
  | nil => rfl
  | cons k signs ih => rw [List.map_cons, nodesOf_token, ih]

@[simp] theorem nodesOf_nodes (ns : List Node) : nodesOf (ns.map .node) = ns := by
  induction ns with
  | nil => rfl
  | cons n ns ih => rw [List.map_cons, nodesOf_node, ih]

end

theorem Node.nodesOf_script (n : Node) : nodesOf n.script = n.parts := by
  unfold script
  split
  · simp [parts, Expr.parts]
  · simp [parts, Expr.parts]
  · simp [parts, Expr.parts]
  · next s => cases s <;> simp [parts, Stmt.endMark]
  · next b =>
    rw [nodesOf_mark, nodesOf_append, nodesOf_nodes]
    exact List.append_nil _
  · simp
  · simp

/-- How many parts are written before the tokens of the node itself. -/
def Node.ahead : Node → Nat
  | expr (.binary _ _ _ _) | expr (.assign _ _ _ _) | expr (.member _ _ _) => 1
  | _ => 0

/-- All nodes are written in the same way: the place where they start, some parts, their own tokens, the other
    parts, and the place where they end. -/
theorem Node.script_eq (n : Node) :
    n.script = n.openMark.map .mark ++ ((n.parts.take n.ahead).map .node ++ (n.signs.map .token ++
      ((n.parts.drop n.ahead).map .node ++ n.closeMark.map .mark))) := by
  unfold script
  split
  · simp [openMark, closeMark, parts, Expr.parts, ahead]
  · simp [openMark, closeMark, parts, Expr.parts, ahead]
  · simp [openMark, closeMark, parts, Expr.parts, ahead, signs]
  · next s => cases s <;> simp [openMark, closeMark, parts, Stmt.endMark, ahead]
  · next b => simp [openMark, closeMark, parts, ahead, signs]
  · next c => simp [openMark, closeMark, ahead, signs]
  · next hbinary hassign hmember hstmt hblock hcase =>
    have hopen : n.openMark = [] := by
      cases n with
      | stmt s => exact absurd rfl (hstmt s)
      | block b => exact absurd rfl (hblock b)
      | case c => exact absurd rfl (hcase c)
      | _ => rfl
    have hclose : n.closeMark = [] := by
      cases n with
      | stmt s => exact absurd rfl (hstmt s)
      | block b => exact absurd rfl (hblock b)
      | _ => rfl
    have hahead : n.ahead = 0 := by
      unfold ahead
      split
      · exact absurd rfl (hbinary _ _ _ _)
      · exact absurd rfl (hassign _ _ _ _)
      · exact absurd rfl (hmember _ _ _)
      · rfl
    simp [hopen, hclose, hahead]

end LabelWeaver
