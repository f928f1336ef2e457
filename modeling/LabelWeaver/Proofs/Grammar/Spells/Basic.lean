import LabelWeaver.Proofs.Grammar.Yields.Basic
import LabelWeaver.Proofs.Tree.Script

/-! From which tokens trees are read. A node stands between two places among the tokens, and what it is made
    of stands there in the order in which it is written; the spans that it carries are those of the tokens
    between the places. -/

namespace LabelWeaver

variable {ks : List Constituent} {c : Cursor} {t : Token} {ts : List Token}

/-! ### Places among the tokens -/

/-- A place among the tokens: the span of the token before it and the tokens behind it. -/
structure Place where
  prev : Span
  rest : List Token

def Cursor.place (c : Cursor) : Place := ⟨c.prev, c.rest⟩

@[simp] theorem Cursor.place_past (c : Cursor) (t : Token) (ts : List Token) : (c.past t ts).place = ⟨t.span, ts⟩ := rfl

/-- The tokens follow each other, none of them before `lo`. -/
def Token.InOrder : (lo : Nat) → List Token → Prop
  | _, [] => True
  | lo, t :: ts => lo ≤ t.span.offset ∧ InOrder t.span.stop ts

namespace Place

variable {a b : Place}

/-- The offset of the next token. -/
def front (a : Place) : Nat := (a.rest.head?.map (·.span.offset)).getD a.prev.stop

/-- The tokens are in order, and reserved words are not taken for names. -/
structure Lawful (a : Place) : Prop where
  order : Token.InOrder a.prev.stop a.rest
  names : ∀ t ∈ a.rest, t.kind ≠ .ident "for"

theorem front_of_rest (h : a.rest = t :: ts) : a.front = t.span.offset := by
  rw [front, h]
  rfl

theorem Lawful.past (ha : a.Lawful) (h : a.rest = t :: ts) : Lawful ⟨t.span, ts⟩ := by
  obtain ⟨horder, hnames⟩ := ha
  rw [h] at horder hnames
  exact ⟨horder.2, fun t' ht' => hnames t' (List.mem_cons_of_mem _ ht')⟩

theorem Lawful.stop_le_front (ha : a.Lawful) : a.prev.stop ≤ a.front := by
  cases hrest : a.rest with
  | nil => simp [front, hrest]
  | cons t ts =>
    have horder := ha.order
    rw [hrest] at horder
    rw [front_of_rest hrest]
    exact horder.1

/-- The second place does not come before the first one. -/
structure Before (a b : Place) : Prop where
  offset : a.prev.offset ≤ b.prev.offset
  stop : a.prev.stop ≤ b.prev.stop
  front : a.front ≤ b.front

theorem Before.refl (a : Place) : a.Before a := ⟨Nat.le_refl _, Nat.le_refl _, Nat.le_refl _⟩

theorem Before.trans {c : Place} (h : a.Before b) (h' : b.Before c) : a.Before c :=
  ⟨Nat.le_trans h.offset h'.offset, Nat.le_trans h.stop h'.stop, Nat.le_trans h.front h'.front⟩

theorem Lawful.before_past (ha : a.Lawful) (h : a.rest = t :: ts) : a.Before ⟨t.span, ts⟩ := by
  have hle := ha.stop_le_front
  have hle' := (ha.past h).stop_le_front
  have hoffset := a.prev.offset_le_stop
  have hoffset' := t.span.offset_le_stop
  rw [front_of_rest h] at hle
  simp only at hle'
  refine ⟨?_, ?_, ?_⟩
  · simp only
    omega
  · simp only
    omega
  · rw [front_of_rest h]
    omega

end Place

/-! ### Spans -/

/-- The offsets are in order, none of them before `lo` or behind `hi`. -/
structure Ranged (lo hi : Nat) (os : List Nat) : Prop where
  sorted : os.Pairwise (· ≤ ·)
  bounds : ∀ o ∈ os, lo ≤ o ∧ o ≤ hi

theorem Ranged.nil (lo hi : Nat) : Ranged lo hi [] := ⟨.nil, nofun⟩

theorem Ranged.append {lo hi m m' : Nat} {os os' : List Nat} (h : Ranged lo m os) (h' : Ranged m' hi os')
    (hmid : m ≤ m') (hlo : lo ≤ m') (hhi : m ≤ hi) : Ranged lo hi (os ++ os') := by
  constructor
  · refine List.pairwise_append.mpr ⟨h.sorted, h'.sorted, fun o ho o' ho' => ?_⟩
    have hle := (h.bounds o ho).2
    have hle' := (h'.bounds o' ho').1
    omega
  · intro o ho
    rcases List.mem_append.mp ho with ho | ho
    · have hle := h.bounds o ho
      omega
    · have hle := h'.bounds o ho
      omega

/-- The span of a node that reports one. -/
def Node.span? : Node → Option Span
  | expr e => some e.span
  | stmt s => some s.span
  | block b => some b.span
  | case c => some c.span
  | _ => none

/-- The node ends with its last token. -/
def Node.isClosed : Node → Bool
  | block _ | stmt (.switch _ _ _) => true
  | _ => false

/-- The span of the node is that of tokens between the two places, and it starts before all that is inside. -/
structure Node.Placed (n : Node) (a b : Place) : Prop where
  front : ∀ s ∈ n.span?, a.front ≤ s.offset
  stop : ∀ s ∈ n.span?, s.stop ≤ b.prev.stop
  /-- At least one token is read. -/
  prev : ∀ s ∈ n.span?, a.front ≤ b.prev.offset
  below : ∀ s ∈ n.span?, ∀ m ∈ n.parts, ∀ o ∈ m.marks, s.offset ≤ o
  closed : ∀ s ∈ n.span?, n.isClosed = true → s.stop = b.prev.stop

/-- A loop was read from these tokens. -/
def Node.Ran (ts : List Token) : Node → Prop
  | stmt (.forLoop s i t u b) =>
    ∃ depth c c', c.rest = ts ∧ Grammar.forStmt (Grammar.rules [] depth) c = .ok (.forLoop s i t u b) c'
  | stmt (.forEach s t v e b) =>
    ∃ depth c c', c.rest = ts ∧ Grammar.forStmt (Grammar.rules [] depth) c = .ok (.forEach s t v e b) c'
  | _ => True

/-! ### Reading from one place to another -/

/-- The constituents stand between two places, one after the other. -/
inductive Spells : List Constituent → Place → Place → Prop where
  | nil (a : Place) : Spells [] a a
  | quiet {ks : List Constituent} {a b : Place} {t : Token} {ts : List Token} (hrest : a.rest = t :: ts)
      (hk : t.kind.isSalient = false) (h : Spells ks ⟨t.span, ts⟩ b) : Spells ks a b
  | token {ks : List Constituent} {a b : Place} {t : Token} {ts : List Token} (hrest : a.rest = t :: ts)
      (hk : t.kind.isSalient = true) (h : Spells ks ⟨t.span, ts⟩ b) : Spells (.token t.kind :: ks) a b
  | mark {ks : List Constituent} {a b : Place} (o : Nat) (h : Spells ks a b) : Spells (.mark o :: ks) a b
  | node {ks : List Constituent} {a b c : Place} {n : Node} (hown : Spells n.script a b) (hplaced : n.Placed a b)
      (hran : n.Ran a.rest) (h : Spells ks b c) : Spells (.node n :: ks) a c

namespace Spells

variable {ks' : List Constituent} {a b c : Place} {n : Node}

theorem append (h : Spells ks a b) (h' : Spells ks' b c) : Spells (ks ++ ks') a c := by
  induction h with
  | nil => exact h'
  | quiet hrest hk _ ih => exact .quiet hrest hk (ih h')
  | token hrest hk _ ih => exact .token hrest hk (ih h')
  | mark o _ ih => exact .mark o (ih h')
  | node hown hplaced hran _ _ ih => exact .node hown hplaced hran (ih h')

theorem single (hown : Spells n.script a b) (hplaced : n.Placed a b) (hran : n.Ran a.rest) : Spells [.node n] a b :=
  .node hown hplaced hran (.nil b)

/-- What a node is made of stands where the node stands. -/
theorem script (h : Spells [.node n] a b) : Spells n.script a b := by
  generalize hks : [Constituent.node n] = ks at h
  induction h with
  | nil => cases hks
  | quiet hrest hk _ ih => exact .quiet hrest hk (ih hks)
  | token => cases hks
  | mark => cases hks
  | node hown _ _ h _ _ =>
    cases hks
    simpa using hown.append h

/-- Reading goes on in the order of the tokens. -/
theorem advances (h : Spells ks a b) (ha : a.Lawful) : b.Lawful ∧ a.Before b := by
  have hpast : ∀ {a b : Place} {t : Token} {ts : List Token}, a.Lawful → a.rest = t :: ts →
      (Place.Lawful ⟨t.span, ts⟩ → b.Lawful ∧ Place.Before ⟨t.span, ts⟩ b) → b.Lawful ∧ a.Before b := by
    intro a b t ts ha hrest ih
    obtain ⟨hb, hbefore⟩ := ih (ha.past hrest)
    exact ⟨hb, (ha.before_past hrest).trans hbefore⟩
  induction h with
  | nil => exact ⟨ha, .refl _⟩
  | quiet hrest _ _ ih => exact hpast ha hrest ih
  | token hrest _ _ ih => exact hpast ha hrest ih
  | mark _ _ ih => exact ih ha
  | node _ _ _ _ ihown ih =>
    obtain ⟨hb, hbefore⟩ := ihown ha
    obtain ⟨hc, hbefore'⟩ := ih hb
    exact ⟨hc, hbefore.trans hbefore'⟩

theorem lawful (h : Spells ks a b) (ha : a.Lawful) : b.Lawful := (h.advances ha).1

theorem before (h : Spells ks a b) (ha : a.Lawful) : a.Before b := (h.advances ha).2

/-- The places of a node are in order if those of its parts are. -/
theorem ranged_marks (hplaced : n.Placed a b) (hparts : Ranged a.front b.prev.stop (n.parts.flatMap Node.marks)) :
    Ranged a.front b.prev.stop n.marks := by
  have hopen : ∀ o ∈ n.openMark, ∃ s ∈ n.span?, n.openMark = [o] ∧ o = s.offset := by
    intro o ho
    cases n <;> first | exact ⟨_, rfl, by rw [List.mem_singleton.mp ho]; exact ⟨rfl, rfl⟩⟩ | cases ho
  have hclose : ∀ o ∈ n.closeMark, ∃ s ∈ n.span?, n.closeMark = [o] ∧ o = s.stop ∧ n.isClosed = true := by
    intro o ho
    cases n with
    | block b => exact ⟨_, rfl, by rw [List.mem_singleton.mp ho]; exact ⟨rfl, rfl, rfl⟩⟩
    | stmt s =>
      cases s with
      | switch => exact ⟨_, rfl, by rw [List.mem_singleton.mp ho]; exact ⟨rfl, rfl, rfl⟩⟩
      | _ => cases ho
    | _ => cases ho
  rw [n.marks_parts]
  have hinside : Ranged a.front b.prev.stop (n.parts.flatMap Node.marks ++ n.closeMark) := by
    cases hmark : n.closeMark with
    | nil => rwa [List.append_nil]
    | cons o os =>
      obtain ⟨s, hs, hlist, rfl, hclosed⟩ := hclose o (by rw [hmark]; exact List.mem_cons_self)
      have hoffset := s.offset_le_stop
      have hfront := hplaced.front s hs
      have hstop := hplaced.closed s hs hclosed
      rw [← hmark, hlist]
      have hlast : Ranged b.prev.stop b.prev.stop [s.stop] := by
        refine ⟨List.pairwise_singleton _ _, fun o ho => ?_⟩
        rw [List.mem_singleton.mp ho]
        omega
      exact hparts.append hlast (Nat.le_refl _) (by omega) (Nat.le_refl _)
  cases hmark : n.openMark with
  | nil => exact hinside
  | cons o os =>
    obtain ⟨s, hs, hlist, rfl⟩ := hopen o (by rw [hmark]; exact List.mem_cons_self)
    have hoffset := s.offset_le_stop
    have hfront := hplaced.front s hs
    have hstop := hplaced.stop s hs
    rw [← hmark, hlist, List.singleton_append]
    constructor
    · refine List.pairwise_cons.mpr ⟨fun o ho => ?_, hinside.sorted⟩
      rcases List.mem_append.mp ho with ho | ho
      · obtain ⟨m, hm, ho⟩ := List.mem_flatMap.mp ho
        exact hplaced.below s hs m hm o ho
      · obtain ⟨s', hs', -, rfl, -⟩ := hclose o ho
        cases hs.symm.trans hs'
        exact hoffset
    · intro o ho
      rcases List.mem_cons.mp ho with rfl | ho
      · omega
      · exact hinside.bounds o ho

/-- The places of the nodes that are read are in the order of the tokens. -/
theorem ranged (h : Spells ks a b) (ha : a.Lawful) : Ranged a.front b.prev.stop ((nodesOf ks).flatMap Node.marks) := by
  have hpast : ∀ {a b : Place} {t : Token} {ts : List Token} {os : List Nat}, a.Lawful → a.rest = t :: ts →
      (Place.Lawful ⟨t.span, ts⟩ → Ranged (Place.front ⟨t.span, ts⟩) b.prev.stop os) → Ranged a.front b.prev.stop os := by
    intro a b t ts os ha hrest ih
    obtain ⟨hsorted, hbounds⟩ := ih (ha.past hrest)
    refine ⟨hsorted, fun o ho => ?_⟩
    exact ⟨Nat.le_trans (ha.before_past hrest).front (hbounds o ho).1, (hbounds o ho).2⟩
  induction h with
  | nil => exact .nil _ _
  | quiet hrest _ _ ih => exact hpast ha hrest ih
  | token hrest _ _ ih => exact hpast ha hrest ih
  | mark _ _ ih => exact ih ha
  | @node ks a b c n hown hplaced _ h ihown ih =>
    have hb := hown.lawful ha
    have hparts := ihown ha
    rw [n.nodesOf_script] at hparts
    rw [nodesOf_node, List.flatMap_cons]
    exact (ranged_marks hplaced hparts).append (ih hb) hb.stop_le_front (hown.before ha).front (h.before hb).stop

/-- What is known about the span of a node wherever it is read. -/
theorem span (h : Spells ks a b) (ha : a.Lawful) (hn : .node n ∈ ks) {s : Span} (hs : s ∈ n.span?) :
    a.front ≤ s.offset ∧ s.stop ≤ b.prev.stop ∧ a.front ≤ b.prev.offset ∧
      ∀ m ∈ n.parts, ∀ o ∈ m.marks, s.offset ≤ o := by
  induction h with
  | nil => cases hn
  | quiet hrest _ _ ih =>
    obtain ⟨hfront, hstop, hprev, hbelow⟩ := ih (ha.past hrest) hn
    have hle := (ha.before_past hrest).front
    exact ⟨Nat.le_trans hle hfront, hstop, Nat.le_trans hle hprev, hbelow⟩
  | token hrest _ _ ih =>
    obtain ⟨hfront, hstop, hprev, hbelow⟩ := ih (ha.past hrest) ((List.mem_cons.mp hn).resolve_left nofun)
    have hle := (ha.before_past hrest).front
    exact ⟨Nat.le_trans hle hfront, hstop, Nat.le_trans hle hprev, hbelow⟩
  | mark _ _ ih => exact ih ha ((List.mem_cons.mp hn).resolve_left nofun)
  | node hown hplaced _ h _ ih =>
    have hb := hown.lawful ha
    rcases List.mem_cons.mp hn with hn | hn
    · cases hn
      have hbefore := h.before hb
      exact ⟨hplaced.front s hs, Nat.le_trans (hplaced.stop s hs) hbefore.stop,
        Nat.le_trans (hplaced.prev s hs) hbefore.offset, hplaced.below s hs⟩
    · obtain ⟨hfront, hstop, hprev, hbelow⟩ := ih hb hn
      have hle := (hown.before ha).front
      exact ⟨Nat.le_trans hle hfront, hstop, Nat.le_trans hle hprev, hbelow⟩

end Spells

namespace Node.Placed

variable {e : Expr} {a b c : Place} {n : Node} {x : Span}

theorem of_none (h : n.span? = none) : n.Placed a b := by
  constructor <;> intro s hs <;> rw [h] at hs <;> cases hs

/-- A node that starts with a token. -/
theorem word {s : Span} (ha : a.Lawful) (hrest : a.rest = t :: ts) (htail : Spells ks ⟨t.span, ts⟩ b)
    (hks : nodesOf ks = n.parts) (hn : n.span? = some s) (hoffset : s.offset = t.span.offset) (hstop : s.stop ≤ b.prev.stop)
    (hclosed : n.isClosed = true → s.stop = b.prev.stop) : n.Placed a b := by
  have hnext := ha.past hrest
  have hbefore := (htail.before hnext).offset
  have hfront := Place.front_of_rest hrest
  simp only at hbefore
  constructor
  all_goals
    intro s' hs
    rw [hn] at hs
    cases hs
  · omega
  · exact hstop
  · omega
  · intro m hm o ho
    have hmarks := (htail.ranged hnext).bounds o (List.mem_flatMap.mpr ⟨m, hks ▸ hm, ho⟩)
    have hle := hnext.stop_le_front
    have hlength := t.span.offset_le_stop
    simp only at hle
    omega
  · exact hclosed

/-- A node that starts with a token and ends with the last token that is read. -/
theorem wordToLast (ha : a.Lawful) (hrest : a.rest = t :: ts) (htail : Spells ks ⟨t.span, ts⟩ b)
    (hks : nodesOf ks = n.parts) (hn : n.span? = some (t.span.join b.prev)) : n.Placed a b := by
  obtain ⟨hoffset, hstop, -⟩ := htail.before (ha.past hrest)
  have hend : (t.span.join b.prev).stop = b.prev.stop := (Span.stop_join _ _).trans (Nat.max_eq_right hstop)
  exact word ha hrest htail hks hn (Nat.min_eq_left hoffset) (Nat.le_of_eq hend) fun _ => hend

/-- A node that starts with a token and ends with one of its parts. -/
theorem wordToPart {m : Node} (ha : a.Lawful) (hrest : a.rest = t :: ts) (htail : Spells ks ⟨t.span, ts⟩ b)
    (hks : nodesOf ks = n.parts) (hm : .node m ∈ ks) (hx : x ∈ m.span?) (hn : n.span? = some (t.span.join x))
    (hopen : n.isClosed = false) : n.Placed a b := by
  have hnext := ha.past hrest
  obtain ⟨hfront, hstop, -⟩ := htail.span hnext hm hx
  have hle := hnext.stop_le_front
  have hlength := t.span.offset_le_stop
  have hbefore := (htail.before hnext).stop
  simp only at hle hbefore
  refine word ha hrest htail hks hn (Nat.min_eq_left (by omega)) ?_ (by rw [hopen]; nofun)
  rw [Span.stop_join]
  omega

/-- A node that is a single token. -/
theorem single (ha : a.Lawful) (hrest : a.rest = t :: ts) (hparts : n.parts = []) (hn : n.span? = some t.span) :
    n.Placed a ⟨t.span, ts⟩ := by
  have hself : t.span = t.span.join t.span := by simp [Span.join, Span.stop]
  have hnothing : Spells [] ⟨t.span, ts⟩ ⟨t.span, ts⟩ := .nil _
  exact wordToLast ha hrest hnothing hparts.symm (hn.trans (congrArg some hself))

/-- A node that starts with an expression. -/
theorem left (ha : a.Lawful) (he : Spells [.node (.expr e)] a b) (htail : Spells ks b c)
    (hparts : n.parts = .expr e :: nodesOf ks) (hn : n.span? = some (e.span.join x)) (hoffset : a.front ≤ x.offset)
    (hstop : x.stop ≤ c.prev.stop) (hopen : n.isClosed = false) : n.Placed a c := by
  obtain ⟨hfront, hend, hprev, hbelow⟩ := he.span ha List.mem_cons_self rfl
  have hb := he.lawful ha
  obtain ⟨hbefore, hbefore', -⟩ := htail.before hb
  constructor
  all_goals
    intro s hs
    rw [hn] at hs
    cases hs
  · rw [Span.offset_join]
    omega
  · rw [Span.stop_join]
    omega
  · omega
  · intro m hm o ho
    rw [Span.offset_join]
    rw [hparts] at hm
    rcases List.mem_cons.mp hm with rfl | hm
    · rw [Node.marks_expr] at ho
      obtain ⟨m, hm, ho⟩ := List.mem_flatMap.mp ho
      have hle := hbelow m hm o ho
      omega
    · have hmarks := (htail.ranged hb).bounds o (List.mem_flatMap.mpr ⟨m, hm, ho⟩)
      have hle := hb.stop_le_front
      have hlength := e.span.offset_le_stop
      omega
  · intro h
    rw [hopen] at h
    cases h

/-- A node that starts with an expression and ends with one of the parts behind it. -/
theorem leftToPart {m : Node} (ha : a.Lawful) (he : Spells [.node (.expr e)] a b) (htail : Spells ks b c)
    (hparts : n.parts = .expr e :: nodesOf ks) (hm : .node m ∈ ks) (hx : x ∈ m.span?)
    (hn : n.span? = some (e.span.join x)) (hopen : n.isClosed = false) : n.Placed a c := by
  obtain ⟨hfront, hstop, -⟩ := htail.span (he.lawful ha) hm hx
  exact left ha he htail hparts hn (Nat.le_trans (he.before ha).front hfront) hstop hopen

/-- A node that starts with an expression and ends with the last token that is read. -/
theorem leftToLast (ha : a.Lawful) (he : Spells [.node (.expr e)] a b) (htail : Spells ks b c)
    (hparts : n.parts = .expr e :: nodesOf ks) (hn : n.span? = some (e.span.join c.prev)) (hopen : n.isClosed = false) :
    n.Placed a c := by
  have hprev := (he.span ha List.mem_cons_self rfl).2.2.1
  have hbefore := (htail.before (he.lawful ha)).offset
  exact left ha he htail hparts hn (by omega) (Nat.le_refl _) hopen

/-- A block as a statement. -/
theorem ofBlock {body : Block} (ha : a.Lawful) (h : Spells [.node (.block body)] a b) :
    (Node.stmt (.block body)).Placed a b := by
  obtain ⟨hfront, hstop, hprev, -⟩ := h.span ha List.mem_cons_self rfl
  have hsorted := (h.ranged ha).sorted
  simp only [nodesOf_node, nodesOf_nil, List.flatMap_cons, List.flatMap_nil, List.append_nil, Node.marks_parts,
    Node.openMark, List.singleton_append] at hsorted
  constructor
  all_goals
    intro s hs
    cases hs
  · exact hfront
  · exact hstop
  · exact hprev
  · intro m hm o ho
    cases List.mem_singleton.mp hm
    simp only [Node.marks_parts, Node.openMark, List.singleton_append] at ho
    rcases List.mem_cons.mp ho with rfl | ho
    · exact Nat.le_refl _
    · exact List.rel_of_pairwise_cons hsorted ho
  · exact fun h => by cases h

end Node.Placed

/-! ### Readers -/

/-- A token that is no slash and starts no loop is not of a kind that is or does. -/
theorem Token.Kind.isSalient_of_sameSort {k k' : Token.Kind} (h : k.sameSort k' = true) (hk : k'.isSalient = false) :
    k.isSalient = false := by
  cases k' <;> cases k <;> simp_all [sameSort, isSalient, isSlash]

/-- The next token is not followed. -/
structure Cursor.Quiet (c : Cursor) (t : Token) (ts : List Token) : Prop where
  rest : c.rest = t :: ts
  kind : t.kind.isSalient = false

theorem Spells.skip {b : Place} (hc : c.Quiet t ts) (h : Spells ks ⟨t.span, ts⟩ b) : Spells ks c.place b :=
  .quiet hc.rest hc.kind h

theorem Cursor.Quiet.of_isAt {k : Token.Kind} (hrest : c.rest = t :: ts) (h : c.isAt k = true)
    (hk : k.isSalient = false) : c.Quiet t ts := by
  rw [Cursor.isAt, Cursor.kind?_of_rest hrest] at h
  exact ⟨hrest, Token.Kind.isSalient_of_sameSort h hk⟩

theorem Cursor.here_of_rest (h : c.rest = t :: ts) : c.here = t.span := by
  rw [Cursor.here, Cursor.peek?, h]
  rfl

theorem Spells.close {a : Place} (h : Spells ks a c.place) (hc : c.Quiet t ts) : Spells ks a ⟨t.span, ts⟩ := by
  simpa using h.append (.skip hc (.nil _))

/-- The name of a property. -/
theorem Spells.names {n : Name} (hc : c.place.Lawful) (hrest : c.rest = t :: ts)
    (hn : t.kind.propertyText? = some n.text) {b : Place} (h : Spells ks ⟨t.span, ts⟩ b) :
    Spells (n.loopWord.map .token ++ ks) c.place b := by
  unfold Name.loopWord
  split
  · next hfor =>
    have hname : t.kind ≠ .ident "for" := hc.names t (by rw [Cursor.place, hrest]; exact List.mem_cons_self)
    have hk := Token.Kind.eq_for_of_text (hfor ▸ hn) hname
    have htoken := Spells.token (a := c.place) hrest (by rw [hk]; rfl) h
    rwa [hk] at htoken
  · next hfor => exact .quiet hrest (Token.Kind.isSalient_of_text hn hfor) h


section
variable {α β : Type}

/-- Wherever the reader succeeds, its result satisfies `A` at the place that is reached. -/
def Takes (c : Cursor) (p : Parse α) (A : Place → α → Prop) : Prop :=
  c.place.Lawful → ∀ ⦃a : α⦄ ⦃c' : Cursor⦄, p c = .ok a c' → c'.place.Lawful ∧ A c'.place a

namespace Takes

variable {fault : SyntaxFault} {k : Token.Kind} {p p' : Parse α} {f : α → Parse β} {A A' : Place → α → Prop}
  {B : Place → β → Prop}

theorem intro (h : c.place.Lawful → Takes c p A) : Takes c p A := fun hc => h hc hc

theorem pure {a : α} (h : A c.place a) : Takes c (pure a) A := by
  rintro hc _ _ ⟨⟩
  exact ⟨hc, h⟩

theorem failAt {span : Span} : Takes c (Parse.failAt fault span) A := by
  rintro - _ _ ⟨⟩

theorem failHere : Takes c (Parse.failHere fault) A := by
  rintro - _ _ ⟨⟩

theorem failAt_bind {span : Span} : Takes c (Parse.failAt fault span >>= f) B := by
  rintro - _ _ ⟨⟩

theorem failHere_bind : Takes c (Parse.failHere fault >>= f) B := by
  rintro - _ _ ⟨⟩

theorem imp (h : Takes c p A) (hA : ∀ {b a}, A b a → A' b a) : Takes c p A' := by
  intro hc a c' hp
  obtain ⟨hc', ha⟩ := h hc hp
  exact ⟨hc', hA ha⟩

theorem bind (hp : Takes c p A) (hf : ∀ {c' a}, A c'.place a → Takes c' (f a) B) : Takes c (p >>= f) B := by
  intro hc b c'' h
  obtain ⟨a, c', hpc, hfc⟩ := Parse.bind_eq_ok h
  obtain ⟨hc', ha⟩ := hp hc hpc
  exact hf ha hc' hfc

theorem map {f : α → β} (hp : Takes c p A) (hf : ∀ {b a}, A b a → B b (f a)) : Takes c (f <$> p) B := by
  rw [map_eq_pure_bind]
  exact hp.bind fun ha => .pure (hf ha)

/-- What was read is known. -/
theorem ran (h : Takes c p A) : Takes c p fun b a => A b a ∧ ∃ c', p c = .ok a c' := by
  intro hc a c' hp
  obtain ⟨hc', ha⟩ := h hc hp
  exact ⟨hc', ha, c', hp⟩

/-- Two ways to a value. -/
theorem either {b : Bool} (hp : b = true → Takes c p A) (hp' : b = false → Takes c p' A)
    (hf : ∀ {c' a}, A c'.place a → Takes c' (f a) B) : Takes c (if b then p >>= f else p' >>= f) B := by
  cases b with
  | true => exact (hp rfl).bind hf
  | false => exact (hp' rfl).bind hf

/-! ### Single tokens -/

theorem look {h : Cursor → α} (hf : Takes c (f (h c)) B) : Takes c (Parse.look h >>= f) B := hf

theorem advance {f : Token → Parse β} (hf : ∀ {t ts}, c.rest = t :: ts → Takes (c.past t ts) (f t) B) :
    Takes c (Parse.advance >>= f) B := by
  intro hc b c' h
  obtain ⟨t, c₁, hadvance, -⟩ := Parse.bind_eq_ok h
  cases hrest : c.rest with
  | nil => simp [Parse.advance, hrest] at hadvance
  | cons t' ts =>
    by_cases hk : t'.kind = .eof
    · simp [Parse.advance, hrest, hk] at hadvance
    · rw [Parse.bind_ok (Parse.advance_eq_ok hrest hk)] at h
      exact hf hrest (hc.past hrest) h


theorem eat {f : Bool → Parse β} (hk : k.isSalient = false)
    (htrue : ∀ {t ts}, c.Quiet t ts → Takes (c.past t ts) (f true) B) (hfalse : Takes c (f false) B) :
    Takes c (Parse.eat k >>= f) B := by
  intro hc b c' h
  cases hat : c.isAt k with
  | false =>
    rw [Parse.bind_ok (Parse.eat_eq_false hat)] at h
    exact hfalse hc h
  | true =>
    cases hrest : c.rest with
    | nil => simp [Cursor.isAt, Cursor.kind?, Cursor.peek?, hrest] at hat
    | cons t ts =>
      have hsort : t.kind.sameSort k = true := by
        rw [Cursor.isAt, Cursor.kind?_of_rest hrest] at hat
        simpa using hat
      rw [Parse.bind_ok (Parse.eat_eq_true hrest hsort)] at h
      exact htrue ⟨hrest, Token.Kind.isSalient_of_sameSort hsort hk⟩ (hc.past hrest) h

theorem expectThat {f : Token → Parse β}
    (hf : ∀ {t ts}, c.rest = t :: ts → t.kind.sameSort k = true → Takes (c.past t ts) (f t) B) :
    Takes c (Parse.expect k >>= f) B := by
  simp only [Parse.expect, bind_assoc]
  refine advance fun hrest => ?_
  split
  · next hsort =>
    simp only [pure_bind]
    exact hf hrest hsort
  · exact failAt_bind

theorem expect {f : Token → Parse β} (hk : k.isSalient = false)
    (hf : ∀ {t ts}, c.Quiet t ts → Takes (c.past t ts) (f t) B) : Takes c (Parse.expect k >>= f) B :=
  expectThat fun hrest hsort => hf ⟨hrest, Token.Kind.isSalient_of_sameSort hsort hk⟩

theorem expectIdent {f : Name → Parse β}
    (hf : ∀ {t ts n}, c.Quiet t ts → t.kind.propertyText? = some n.text → Takes (c.past t ts) (f n) B) :
    Takes c (Parse.expectIdent >>= f) B := by
  simp only [Parse.expectIdent, bind_assoc]
  refine advance fun {t ts} hrest => ?_
  split
  · next hk =>
    simp only [pure_bind]
    refine hf ⟨hrest, ?_⟩ ?_ <;> cases hkind : t.kind <;> rw [hkind] at hk <;> first | rfl | exact hk | cases hk
  · exact failAt_bind

theorem expectPropertyName {f : Name → Parse β}
    (hf : ∀ {t ts n}, c.rest = t :: ts → n.span = t.span → t.kind.propertyText? = some n.text →
      Takes (c.past t ts) (f n) B) : Takes c (Parse.expectPropertyName >>= f) B := by
  simp only [Parse.expectPropertyName, bind_assoc]
  refine advance fun hrest => ?_
  split
  · next hk =>
    simp only [pure_bind]
    exact hf hrest rfl hk
  · exact failAt_bind

theorem consumeSemicolon {f : Unit → Parse β} (hf : ∀ {c'}, Spells [] c.place c'.place → Takes c' (f ()) B) :
    Takes c (Parse.consumeSemicolon >>= f) B := by
  simp only [Parse.consumeSemicolon, bind_assoc]
  refine eat rfl (fun hq => ?_) ?_
  · simp only [if_true, pure_bind]
    exact hf (.skip hq (.nil _))
  · simp only [Bool.false_eq_true, if_false, bind_assoc]
    refine look ?_
    split
    · simp only [pure_bind]
      exact hf (.nil _)
    · exact failHere_bind

theorem freshSite {f : Nat → Parse β} (hf : Takes { c with nextSite := c.nextSite + 1 } (f c.nextSite) B) :
    Takes c (Parse.freshSite >>= f) B := hf

theorem withNoIn {noIn : Bool} (h : Takes { c with noIn := noIn } p A) : Takes c (Parse.withNoIn noIn p) A := by
  intro hc a c' hp
  unfold Parse.withNoIn at hp
  split at hp
  · next a₁ c₁ hpc =>
    cases hp
    have hresult := h hc hpc
    exact hresult
  · cases hp

section
variable {b : Bool} {f : Option α → Parse β} {g : α → Node}

/-- What may be left out. -/
theorem optional (hp : b = true → Takes c p fun b x => Spells [.node (g x)] c.place b)
    (hf : ∀ {c' : Cursor} {o : Option α}, Spells ((o.toList.map g).map .node) c.place c'.place → Takes c' (f o) B) :
    Takes c (if b then some <$> p >>= f else Pure.pure none >>= f) B :=
  either (A := fun b o => Spells ((o.toList.map g).map .node) c.place b) (fun hb => (hp hb).map id)
    (fun _ => .pure (.nil _)) hf

theorem optionalUnless (hp : b = false → Takes c p fun b x => Spells [.node (g x)] c.place b)
    (hf : ∀ {c' : Cursor} {o : Option α}, Spells ((o.toList.map g).map .node) c.place c'.place → Takes c' (f o) B) :
    Takes c (if b then Pure.pure none >>= f else some <$> p >>= f) B :=
  either (A := fun b o => Spells ((o.toList.map g).map .node) c.place b) (fun _ => .pure (.nil _))
    (fun hb => (hp hb).map id) hf

/-- What stands behind a token that may be missing. -/
theorem eatOptional {k : Token.Kind} (hk : k.isSalient = false)
    (hp : ∀ {t ts}, c.Quiet t ts → Takes (c.past t ts) p fun b x => Spells [.node (g x)] ⟨t.span, ts⟩ b)
    (hf : ∀ {c' : Cursor} {o : Option α}, Spells ((o.toList.map g).map .node) c.place c'.place → Takes c' (f o) B) :
    Takes c (Parse.eat k >>= fun b => if b then some <$> p >>= f else Pure.pure none >>= f) B :=
  eat hk (fun hq => optional (g := g) (fun _ => hp hq) fun h => hf (.skip hq h))
    (optional (g := g) (fun h => by cases h) hf)

end

/-! ### Loops -/

theorem sized {p : Nat → Parse α} (h : ∀ size, Takes c (p size) A) : Takes c (Parse.sized p) A := h (c.rest.length + 1)

section
variable {item : Parse α} {f : α → Node} {close : Token.Kind}

theorem many {stop : Cursor → Bool} (hitem : ∀ c, Takes c item fun b x => Spells [.node (f x)] c.place b) (c : Cursor) :
    Takes c (Parse.many stop item) fun b xs => Spells ((xs.map f).map .node) c.place b := by
  suffices h : ∀ size c, Takes c (Parse.manyFrom stop item size) fun b xs => Spells ((xs.map f).map .node) c.place b from
    sized fun size => h size c
  intro size
  induction size with
  | zero => exact fun c => failHere
  | succ size ih =>
    intro c
    refine look ?_
    split
    · exact .pure (.nil _)
    · exact (hitem c).bind fun hx => (ih _).bind fun hxs => .pure (hx.append hxs)

theorem separated (hitem : ∀ c, Takes c item fun b x => Spells [.node (f x)] c.place b) (c : Cursor) :
    Takes c (Parse.separated close item) fun b xs => Spells ((xs.map f).map .node) c.place b := by
  suffices h : ∀ size c, Takes c (Parse.separatedFrom close item size)
      fun b xs => Spells ((xs.map f).map .node) c.place b from sized fun size => h size c
  intro size
  induction size with
  | zero => exact fun c => failHere
  | succ size ih =>
    intro c
    refine look ?_
    split
    · exact .pure (.nil _)
    · refine (hitem c).bind fun hx => eat rfl (fun hq => ?_) (.pure hx)
      exact (ih _).bind fun hxs => .pure (hx.append (.skip hq hxs))

theorem elements (hitem : ∀ c, Takes c item fun b x => Spells [.node (f x)] c.place b) (c : Cursor) :
    Takes c (Parse.elements close item) fun b xs => Spells (((xs.filterMap id).map f).map .node) c.place b := by
  suffices h : ∀ size c, Takes c (Parse.elementsFrom close item size)
      fun b xs => Spells (((xs.filterMap id).map f).map .node) c.place b from sized fun size => h size c
  intro size
  induction size with
  | zero => exact fun c => failHere
  | succ size ih =>
    intro c
    refine look ?_
    split
    · exact .pure (.nil _)
    · refine eat rfl (fun hq => ?_) ?_
      · exact (ih _).bind fun hxs => .pure (.skip hq hxs)
      · refine (hitem c).bind fun hx => eat rfl (fun hq => ?_) (.pure hx)
        exact (ih _).bind fun hxs => .pure (hx.append (.skip hq hxs))

theorem commaList (hitem : ∀ c, Takes c item fun b x => Spells [.node (f x)] c.place b) (c : Cursor) :
    Takes c (Parse.commaList item) fun b xs => xs ≠ [] ∧ Spells ((xs.map f).map .node) c.place b := by
  suffices h : ∀ size c, Takes c (Parse.commaListFrom item size)
      fun b xs => xs ≠ [] ∧ Spells ((xs.map f).map .node) c.place b from sized fun size => h size c
  intro size
  induction size with
  | zero => exact fun c => failHere
  | succ size ih =>
    intro c
    refine (hitem c).bind fun hx => eat rfl (fun hq => ?_) (.pure ⟨List.cons_ne_nil _ _, hx⟩)
    exact (ih _).bind fun hxs => .pure ⟨List.cons_ne_nil _ _, hx.append (.skip hq hxs.2)⟩

theorem extend {step : α → Parse (Option α)}
    (hstep : ∀ {c a}, A c.place a → Takes c (step a) fun b o => A b (o.getD a)) {a : α} (ha : A c.place a) : Takes c (Parse.extend step a) A := by
  suffices h : ∀ size {c a}, A c.place a → Takes c (Parse.extendFrom step size a) A from sized fun size => h size ha
  intro size
  induction size with
  | zero => exact fun _ => failHere
  | succ size ih =>
    intro c a ha
    refine (hstep ha).bind fun {c' o} ho => ?_
    cases o with
    | none => exact .pure ho
    | some a' => exact ih ho

end

end Takes

end

end LabelWeaver
