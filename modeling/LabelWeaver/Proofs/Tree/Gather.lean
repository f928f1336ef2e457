import LabelWeaver.Proofs.Tree.Each

/-! What is found in a tree, in the order in which the tree is written. -/

namespace LabelWeaver

/-! ### Parts are smaller -/

/-- A measure that is smaller for the parts of a node. An item is larger than the expression that it is. -/
noncomputable def Node.weight : Node → Nat
  | item e => 2 * sizeOf e + 3
  | n => 2 * sizeOf n

theorem Node.weight_le (n : Node) : n.weight ≤ 2 * sizeOf n + 1 := by
  cases n <;> simp [weight]
  omega

section
variable {α : Type} [SizeOf α] {f : α → Node} {bound : Nat}

theorem Node.weight_lt_of_sizeOf {a : α} {size : Nat} (hf : ∀ a, sizeOf (f a) = 1 + sizeOf a) (ha : sizeOf a < size)
    (hbound : 2 * size + 2 ≤ bound) : (f a).weight < bound := by
  have hle := (f a).weight_le
  rw [hf] at hle
  omega

theorem Node.weight_map_lt {as : List α} (hf : ∀ a, sizeOf (f a) = 1 + sizeOf a) (hbound : 2 * sizeOf as + 2 ≤ bound) :
    ∀ m ∈ as.map f, m.weight < bound := by
  refine List.forall_mem_map.mpr fun a ha => ?_
  exact Node.weight_lt_of_sizeOf hf (List.sizeOf_lt_of_mem ha) hbound

theorem Node.weight_filterMap_lt {as : List (Option α)} (hf : ∀ a, sizeOf (f a) = 1 + sizeOf a)
    (hbound : 2 * sizeOf as + 2 ≤ bound) : ∀ m ∈ (as.filterMap id).map f, m.weight < bound := by
  refine List.forall_mem_map.mpr fun a ha => ?_
  have hmem : some a ∈ as := by simpa using ha
  have hsize := List.sizeOf_lt_of_mem hmem
  rw [Option.some.sizeOf_spec] at hsize
  exact Node.weight_lt_of_sizeOf hf (by omega) hbound

theorem Node.weight_toList_lt {o : Option α} (hf : ∀ a, sizeOf (f a) = 1 + sizeOf a) (hbound : 2 * sizeOf o + 2 ≤ bound) :
    ∀ m ∈ o.toList.map f, m.weight < bound := by
  cases o with
  | none => exact nofun
  | some a =>
    refine List.forall_mem_singleton.mpr (Node.weight_lt_of_sizeOf hf ?_ hbound)
    rw [Option.some.sizeOf_spec]
    omega

end

section
attribute [local simp] Node.weight

theorem Expr.weight_lt_of_mem_parts (e : Expr) : ∀ m ∈ e.parts, m.weight < (Node.expr e).weight := by
  cases e with
  | array => exact Node.weight_filterMap_lt (fun _ => rfl) (by simp +arith)
  | object => exact Node.weight_map_lt (fun _ => rfl) (by simp +arith)
  | sequence => exact Node.weight_map_lt (fun _ => rfl) (by simp +arith)
  | call => exact List.forall_mem_cons.mpr ⟨by simp +arith, Node.weight_map_lt (fun _ => rfl) (by simp +arith)⟩
  | new => exact List.forall_mem_cons.mpr ⟨by simp +arith, Node.weight_map_lt (fun _ => rfl) (by simp +arith)⟩
  | _ => simp [parts] <;> omega

theorem Stmt.weight_lt_of_mem_parts (s : Stmt) : ∀ m ∈ s.parts, m.weight < (Node.stmt s).weight := by
  cases s with
  | ret =>
    refine List.forall_mem_append.mpr ⟨Node.weight_toList_lt (fun _ => rfl) (by simp +arith), ?_⟩
    exact List.forall_mem_singleton.mpr (by simp +arith)
  | ifElse =>
    refine List.forall_mem_cons.mpr ⟨by simp +arith, List.forall_mem_cons.mpr ⟨by simp +arith, ?_⟩⟩
    exact Node.weight_toList_lt (fun _ => rfl) (by simp +arith)
  | forLoop =>
    refine List.forall_mem_cons.mpr ⟨by simp +arith, List.forall_mem_append.mpr ⟨?_, List.forall_mem_append.mpr ⟨?_, ?_⟩⟩⟩
    · exact Node.weight_toList_lt (fun _ => rfl) (by simp +arith)
    · exact Node.weight_toList_lt (fun _ => rfl) (by simp +arith)
    · exact List.forall_mem_singleton.mpr (by simp +arith)
  | switch => exact List.forall_mem_cons.mpr ⟨by simp +arith, Node.weight_map_lt (fun _ => rfl) (by simp +arith)⟩
  | tryCatch =>
    refine List.forall_mem_cons.mpr ⟨by simp +arith, List.forall_mem_append.mpr ⟨?_, ?_⟩⟩
    · exact Node.weight_toList_lt (fun _ => rfl) (by simp +arith)
    · exact Node.weight_toList_lt (fun _ => rfl) (by simp +arith)
  | _ => simp [parts] <;> omega

theorem Pattern.weight_lt_of_mem_parts (p : Pattern) : ∀ m ∈ p.parts, m.weight < (Node.pattern p).weight := by
  cases p with
  | array => exact Node.weight_filterMap_lt (fun _ => rfl) (by simp +arith)
  | object => exact Node.weight_map_lt (fun _ => rfl) (by simp +arith)
  | _ => simp [parts] <;> omega

theorem Node.weight_lt_of_mem_parts (n : Node) : ∀ m ∈ n.parts, m.weight < n.weight := by
  cases n with
  | expr e => exact e.weight_lt_of_mem_parts
  | stmt s => exact s.weight_lt_of_mem_parts
  | pattern p => exact p.weight_lt_of_mem_parts
  | item e => cases e <;> simp [parts] <;> omega
  | function fn =>
    obtain ⟨span, name, params, body, isArrow, receiver, returns, condition, sites, instrumented⟩ := fn
    refine List.forall_mem_append.mpr ⟨Node.weight_map_lt (fun _ => rfl) (by simp +arith), ?_⟩
    exact List.forall_mem_singleton.mpr (by simp +arith)
  | block b =>
    obtain ⟨span, stmts⟩ := b
    exact Node.weight_map_lt (fun _ => rfl) (by simp +arith)
  | decl d =>
    obtain ⟨span, kind, decls⟩ := d
    exact Node.weight_map_lt (fun _ => rfl) (by simp +arith)
  | declarator d =>
    obtain ⟨span, target, init⟩ := d
    exact List.forall_mem_cons.mpr ⟨by simp +arith, Node.weight_toList_lt (fun _ => rfl) (by simp +arith)⟩
  | case k =>
    obtain ⟨span, test, body⟩ := k
    refine List.forall_mem_append.mpr ⟨Node.weight_toList_lt (fun _ => rfl) (by simp +arith), ?_⟩
    exact Node.weight_map_lt (fun _ => rfl) (by simp +arith)
  | handler k =>
    obtain ⟨span, param, body⟩ := k
    refine List.forall_mem_append.mpr ⟨Node.weight_toList_lt (fun _ => rfl) (by simp +arith), ?_⟩
    exact List.forall_mem_singleton.mpr (by simp +arith)
  | patternProp p =>
    cases p with
    | shorthand b e =>
      exact List.forall_mem_cons.mpr ⟨by simp +arith, Node.weight_toList_lt (fun _ => rfl) (by simp +arith)⟩
    | _ => simp [parts] <;> omega
  | demand d =>
    obtain ⟨expected, shapes⟩ := d
    refine List.forall_mem_append.mpr ⟨Node.weight_toList_lt (fun _ => rfl) (by simp +arith), ?_⟩
    exact Node.weight_map_lt (fun _ => rfl) (by simp +arith)
  | contract c =>
    obtain ⟨span, base, labels, condition⟩ := c
    refine List.forall_mem_append.mpr ⟨Node.weight_toList_lt (fun _ => rfl) (by simp +arith),
      List.forall_mem_append.mpr ⟨Node.weight_map_lt (fun _ => rfl) (by simp +arith), ?_⟩⟩
    exact Node.weight_toList_lt (fun _ => rfl) (by simp +arith)
  | label l =>
    cases l with
    | named =>
      refine List.forall_mem_cons.mpr ⟨by simp +arith, List.forall_mem_append.mpr ⟨?_, ?_⟩⟩
      · exact Node.weight_map_lt (fun _ => rfl) (by simp +arith)
      · exact Node.weight_map_lt (fun _ => rfl) (by simp +arith)
    | ref => simp +arith [parts]
  | key k => cases k <;> simp [parts]
  | property p => cases p <;> simp [parts] <;> omega
  | body b => cases b <;> simp [parts]
  | forInit i => cases i <;> simp [parts]
  | forTarget t => cases t <;> simp +arith [parts]
  | shape s =>
    cases s <;> simp [parts]
    all_goals omega
  | binding => exact nofun
  | site => exact nofun

end

/-! ### Gathering -/

/-- The number of parts that are written before the sign of the node itself. -/
def Node.leading : Node → Nat
  | expr (.binary _ _ _ _) | expr (.assign _ _ _ _) => 1
  | _ => 0

/-- What `f` finds at the node and at the nodes below it, in the order in which they are written. -/
def Node.gather {α : Type} (f : Node → List α) (n : Node) : List α :=
  let found := n.parts.attach.map fun m => m.val.gather f
  (found.take n.leading).flatten ++ f n ++ (found.drop n.leading).flatten
termination_by n.weight
decreasing_by exact n.weight_lt_of_mem_parts _ m.property

section
variable {α : Type} {f : Node → List α} {n : Node}

theorem Node.gather_eq (f : Node → List α) (n : Node) :
    n.gather f = (n.parts.take n.leading).flatMap (gather f) ++ f n ++ (n.parts.drop n.leading).flatMap (gather f) := by
  have hfound : (n.parts.attach.map fun m => m.val.gather f) = n.parts.map (gather f) := List.attach_map_val
  rw [gather, hfound, ← List.map_take, ← List.map_drop, List.flatMap_def, List.flatMap_def]

/-- Where nothing is found, nothing is found at the node and in its parts. -/
theorem Node.gather_eq_nil_iff : n.gather f = [] ↔ f n = [] ∧ ∀ m ∈ n.parts, m.gather f = [] := by
  rw [gather_eq]
  simp only [List.append_eq_nil_iff, List.flatMap_eq_nil_iff]
  constructor
  · rintro ⟨⟨htake, hself⟩, hdrop⟩
    refine ⟨hself, fun m hm => ?_⟩
    rw [← List.take_append_drop n.leading n.parts] at hm
    rcases List.mem_append.mp hm with hm | hm
    · exact htake m hm
    · exact hdrop m hm
  · rintro ⟨hself, hparts⟩
    exact ⟨⟨fun m hm => hparts m (List.mem_of_mem_take hm), hself⟩, fun m hm => hparts m (List.mem_of_mem_drop hm)⟩

end

end LabelWeaver
