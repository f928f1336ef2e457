import LabelWeaver.Proofs.Grammar.Functions
import Mathlib.Data.List.Nodup

/-! Return sites in the order of reading. The returns that a node owns have different numbers, and
    these lie between the numbers of the next return before and after the node was read. -/

namespace LabelWeaver

/-- The owned sites of a node that was read while the next number went from `lo` to `hi`. -/
structure Node.SitesIn (lo hi : Nat) (n : Node) : Prop where
  le : lo ≤ hi
  nodup : n.ownedSites.Nodup
  bound : ∀ site ∈ n.ownedSites, lo ≤ site ∧ site < hi

theorem Node.SitesIn.mono {lo hi lo' hi' : Nat} {n : Node} (h : n.SitesIn lo hi) (hlo : lo' ≤ lo)
    (hhi : hi ≤ hi') : n.SitesIn lo' hi' where
  le := Nat.le_trans hlo (Nat.le_trans h.le hhi)
  nodup := h.nodup
  bound site hsite := by
    have := h.bound site hsite
    omega

theorem Node.SitesIn.of_nil {lo hi : Nat} {n : Node} (h : n.ownedSites = []) (hle : lo ≤ hi) :
    n.SitesIn lo hi where
  le := hle
  nodup := by rw [h]; exact List.nodup_nil
  bound site hsite := by rw [h] at hsite; cases hsite

theorem Node.SitesIn.site (n : Nat) : (Node.site n).SitesIn n (n + 1) where
  le := Nat.le_succ n
  nodup := List.nodup_singleton n
  bound site hsite := by
    rw [List.mem_singleton.mp hsite]
    exact ⟨Nat.le_refl _, Nat.lt_succ_self _⟩

/-- What a chain of nodes owns. -/
theorem sitesIn_of_chain {rel : Nat → Nat → Node → Node → Prop}
    (hrel : ∀ {lo hi n m}, rel lo hi n m → n.SitesIn lo hi) {lo hi : Nat} {ns ms : List Node}
    (h : Chain rel lo hi ns ms) :
    lo ≤ hi ∧ (ns.flatMap Node.ownedSites).Nodup ∧
      ∀ site ∈ ns.flatMap Node.ownedSites, lo ≤ site ∧ site < hi := by
  induction h with
  | nil => exact ⟨Nat.le_refl _, List.nodup_nil, fun _ h => by cases h⟩
  | cons ha _ ih =>
    obtain ⟨hle, hnodup, hbound⟩ := hrel ha
    obtain ⟨hle', hnodup', hbound'⟩ := ih
    rw [List.flatMap_cons]
    refine ⟨Nat.le_trans hle hle', hnodup.append hnodup' fun site h h' => ?_, fun site h => ?_⟩
    · have := hbound site h
      have := hbound' site h'
      omega
    · rcases List.mem_append.mp h with h | h
      · have := hbound site h
        omega
      · have := hbound' site h
        omega

theorem Node.SitesIn.node {rel : Nat → Nat → Node → Node → Prop}
    (hrel : ∀ {lo hi n m}, rel lo hi n m → n.SitesIn lo hi) {lo hi : Nat} {n m : Node}
    (hn : n.isPlain = true) (h : Chain rel lo hi n.parts m.parts) : n.SitesIn lo hi := by
  obtain ⟨hle, hnodup, hbound⟩ := sitesIn_of_chain hrel h
  rw [← Node.ownedSites_eq hn] at hnodup hbound
  exact ⟨hle, hnodup, hbound⟩

/-- The sites of statements that were read one after the other. -/
theorem listSites_nodup {rel : Nat → Nat → Stmt → Stmt → Prop}
    (hrel : ∀ {lo hi s s'}, rel lo hi s s' → (Node.stmt s).SitesIn lo hi) {lo hi : Nat} {ss ss' : List Stmt}
    (h : Chain rel lo hi ss ss') : (listSites ss).Nodup := by
  have hnodes : Chain (fun lo hi (n _ : Node) => n.SitesIn lo hi) lo hi (ss.map Node.stmt) (ss'.map Node.stmt) :=
    h.map hrel
  rw [listSites_eq]
  exact (sitesIn_of_chain id hnodes).2.1

/-- The body becomes a block whose returns have numbers of their own. -/
theorem Likeness.BodyLike.toBlock {L : Likeness} (hrel : ∀ {lo hi n m}, L.rel lo hi n m → n.SitesIn lo hi)
    {lo hi : Nat} {b b' : FunctionBody} (h : L.BodyLike lo hi b b') (site : Nat) :
    ∃ span stmts, b.toBlock site = .block ⟨span, stmts⟩ ∧ (listSites stmts).Nodup := by
  cases h with
  | block h => exact ⟨_, _, rfl, listSites_nodup hrel h⟩
  | concise h => exact ⟨_, _, rfl, List.nodup_singleton site⟩

end LabelWeaver
