import LabelWeaver.Proofs.Grammar.Spells.Program
import LabelWeaver.Proofs.Layout.Lays

/-! Where comments are printed. A comment is printed at the first place of the layout that lies behind it in the
    source. The places of a layout are in source order, so a comment inside a block is printed inside it. -/

namespace LabelWeaver

open Layout

/-! ### Comments at the pieces of a layout -/

/-- Comments that stand in the order of the source. -/
def InSourceOrder (comments : List Comment) : Prop := comments.Pairwise fun a b => a.span.offset ≤ b.span.offset

/-- The place in the source up to which comments are printed at the piece. -/
def Piece.place? : Piece → Option Nat
  | comments before _ => some before
  | emptyBlock stop _ => some stop
  | _ => none

namespace Layout

/-- The places of a layout. -/
def places (ps : List Piece) : List Nat := ps.filterMap Piece.place?

/-- A piece of a layout with the comments that are printed at it. -/
structure Entry where
  piece : Piece
  comments : List Comment

/-- The entry without its comments. -/
def Entry.bare (e : Entry) : Entry := ⟨e.piece, []⟩

/-- What is written for an entry. The braces of an empty block are opened if there are comments. -/
def Entry.text : Entry → List String
  | ⟨.token k, _⟩ => [k.spelling]
  | ⟨.space, _⟩ => [" "]
  | ⟨.newline, _⟩ => ["\n"]
  | ⟨.indent depth, _⟩ => [indentation depth]
  | ⟨.comments _ depth, cs⟩ => commentLines depth cs
  | ⟨.emptyBlock _ _, []⟩ => ["\x7b\x7d"]
  | ⟨.emptyBlock _ depth, cs⟩ => "\x7b\n" :: commentLines (depth + 1) cs ++ [indentation depth, "\x7d"]

/-- The text of entries. -/
def output (es : List Entry) : String := String.join (es.flatMap Entry.text)

/-- The comments of entries. -/
def printed (es : List Entry) : List Comment := es.flatMap Entry.comments

/-- The comments that are printed at a piece. -/
def taken (pending : List Comment) (p : Piece) : List Comment := p.place?.elim [] (due · pending)

/-- The comments that a piece leaves. -/
def left (pending : List Comment) (p : Piece) : List Comment := p.place?.elim pending (notDue · pending)

/-- The pieces of a layout with the comments that are printed at them. -/
def entries : (pending : List Comment) → List Piece → List Entry
  | _, [] => []
  | pending, p :: ps => ⟨p, taken pending p⟩ :: entries (left pending p) ps

/-- The comments that the pieces leave. -/
def leftover (pending : List Comment) (ps : List Piece) : List Comment := ps.foldl left pending

section
variable {pending : List Comment} {ps qs : List Piece} {p : Piece} {c : Comment} {o : Nat}

@[simp] theorem places_cons (p : Piece) (ps : List Piece) : places (p :: ps) = p.place?.toList ++ places ps := by
  rw [places, List.filterMap_cons]
  cases p.place? <;> rfl

@[simp] theorem places_append (ps qs : List Piece) : places (ps ++ qs) = places ps ++ places qs := List.filterMap_append

theorem taken_append_left (pending : List Comment) (p : Piece) : taken pending p ++ left pending p = pending := by
  unfold taken left
  cases p.place? with
  | none => rfl
  | some o => exact List.takeWhile_append_dropWhile

theorem leftover_cons (pending : List Comment) (p : Piece) (ps : List Piece) :
    leftover pending (p :: ps) = leftover (left pending p) ps := rfl

theorem entries_append (pending : List Comment) (ps qs : List Piece) :
    entries pending (ps ++ qs) = entries pending ps ++ entries (leftover pending ps) qs := by
  induction ps generalizing pending with
  | nil => rfl
  | cons p ps ih => rw [List.cons_append, entries, ih, entries, List.cons_append, leftover_cons]

theorem map_piece_entries (pending : List Comment) (ps : List Piece) : (entries pending ps).map Entry.piece = ps := by
  induction ps generalizing pending with
  | nil => rfl
  | cons p ps ih => rw [entries, List.map_cons, ih]

/-- No comment is lost, printed twice or printed out of order. -/
theorem printed_append_leftover (pending : List Comment) (ps : List Piece) :
    printed (entries pending ps) ++ leftover pending ps = pending := by
  induction ps generalizing pending with
  | nil => rfl
  | cons p ps ih =>
    have hrest := ih (left pending p)
    rw [entries, printed, List.flatMap_cons, List.append_assoc, leftover_cons]
    exact (congrArg (taken pending p ++ ·) hrest).trans (taken_append_left pending p)

theorem weave_eq (pending : List Comment) (ps : List Piece) :
    weave pending ps = (entries pending ps).flatMap Entry.text ++ commentLines 0 (leftover pending ps) := by
  induction ps generalizing pending with
  | nil => rfl
  | cons p ps ih =>
    have hrest := ih (left pending p)
    rw [entries, List.flatMap_cons, List.append_assoc, leftover_cons, ← hrest]
    cases p with
    | emptyBlock stop depth =>
      have hall : due stop pending ++ notDue stop pending = pending := List.takeWhile_append_dropWhile
      rw [weave]
      cases hdue : due stop pending with
      | nil =>
        rw [hdue, List.nil_append] at hall
        simp [taken, left, Piece.place?, hdue, hall, Entry.text]
      | cons c cs => simp [taken, left, Piece.place?, hdue, Entry.text]
    | _ => rfl

/-! ### Which comments are printed where -/

theorem inSourceOrder_left (h : InSourceOrder pending) (p : Piece) : InSourceOrder (left pending p) := by
  unfold left
  cases p.place? with
  | none => exact h
  | some o => exact h.sublist (List.dropWhile_sublist _)

/-- In order, the comments that start before a place are those at the front. -/
theorem mem_notDue_iff (h : InSourceOrder pending) : c ∈ notDue o pending ↔ c ∈ pending ∧ o ≤ c.span.offset := by
  induction pending with
  | nil => simp [notDue]
  | cons d pending ih =>
    obtain ⟨hd, hpending⟩ := List.pairwise_cons.mp h
    by_cases hlt : d.span.offset < o
    · have hdrop : notDue o (d :: pending) = notDue o pending := List.dropWhile_cons_of_pos (by simpa using hlt)
      rw [hdrop, ih hpending, List.mem_cons]
      constructor
      · rintro ⟨hc, ho⟩
        exact ⟨.inr hc, ho⟩
      · rintro ⟨rfl | hc, ho⟩
        · omega
        · exact ⟨hc, ho⟩
    · have hdrop : notDue o (d :: pending) = d :: pending := List.dropWhile_cons_of_neg (by simpa using hlt)
      rw [hdrop]
      refine ⟨fun hc => ⟨hc, ?_⟩, And.left⟩
      rcases List.mem_cons.mp hc with rfl | hc
      · exact Nat.le_of_not_lt hlt
      · exact Nat.le_trans (Nat.le_of_not_lt hlt) (hd c hc)

theorem mem_taken (h : InSourceOrder pending) :
    c ∈ taken pending p ↔ c ∈ pending ∧ ∃ o ∈ p.place?, c.span.offset < o := by
  unfold taken
  cases p.place? with
  | none => simp
  | some o =>
    have hall : due o pending ++ notDue o pending = pending := List.takeWhile_append_dropWhile
    refine ⟨fun hc => ⟨mem_due hc, o, rfl, by simpa using List.mem_takeWhile_imp hc⟩, ?_⟩
    rintro ⟨hc, _, ⟨rfl⟩, ho⟩
    rw [← hall, List.mem_append] at hc
    refine hc.resolve_right fun hc => ?_
    have hle := ((mem_notDue_iff h).mp hc).2
    omega

theorem mem_left (h : InSourceOrder pending) :
    c ∈ left pending p ↔ c ∈ pending ∧ ∀ o ∈ p.place?, o ≤ c.span.offset := by
  unfold left
  cases p.place? with
  | none => simp
  | some o => simpa using mem_notDue_iff h

/-- The comments that are left start behind all places. -/
theorem mem_leftover (h : InSourceOrder pending) :
    c ∈ leftover pending ps ↔ c ∈ pending ∧ ∀ o ∈ places ps, o ≤ c.span.offset := by
  induction ps generalizing pending with
  | nil => simp [leftover, places]
  | cons p ps ih =>
    rw [leftover_cons, ih (inSourceOrder_left h p), mem_left h, places_cons, List.forall_mem_append]
    simp [and_assoc]

theorem inSourceOrder_leftover (h : InSourceOrder pending) (ps : List Piece) : InSourceOrder (leftover pending ps) := by
  induction ps generalizing pending with
  | nil => exact h
  | cons p ps ih => exact ih (inSourceOrder_left h p)

/-- A comment is printed at some of the pieces if it starts before one of their places. -/
theorem mem_printed (h : InSourceOrder pending) :
    c ∈ printed (entries pending ps) ↔ c ∈ pending ∧ ∃ o ∈ places ps, c.span.offset < o := by
  induction ps generalizing pending with
  | nil => simp [entries, printed, places]
  | cons p ps ih =>
    have hrest : c ∈ printed (entries pending (p :: ps)) ↔
        c ∈ taken pending p ∨ c ∈ printed (entries (left pending p) ps) := List.mem_append
    rw [hrest, ih (inSourceOrder_left h p), mem_taken h, mem_left h, places_cons]
    constructor
    · rintro (⟨hc, o, ho, hlt⟩ | ⟨⟨hc, -⟩, o, ho, hlt⟩)
      · exact ⟨hc, o, List.mem_append_left _ (Option.mem_toList.mpr ho), hlt⟩
      · exact ⟨hc, o, List.mem_append_right _ ho, hlt⟩
    · rintro ⟨hc, o, ho, hlt⟩
      by_cases hfirst : ∃ o ∈ p.place?, c.span.offset < o
      · exact .inl ⟨hc, hfirst⟩
      · push Not at hfirst
        rcases List.mem_append.mp ho with ho | ho
        · have hle := hfirst o (Option.mem_toList.mp ho)
          omega
        · exact .inr ⟨⟨hc, hfirst⟩, o, ho, hlt⟩

/-! ### Lines -/

/-- The text is empty or ends a line. -/
def AtLineStart (text : String) : Prop := ∀ c ∈ text.toList.getLast?, c = '\n'

theorem atLineStart_empty : AtLineStart "" := by
  intro c hc
  simp at hc

theorem atLineStart_append_newline (s : String) : AtLineStart (s ++ "\n") := by
  intro c hc
  simpa using hc.symm

theorem atLineStart_commentLines {s : String} (h : AtLineStart s) (depth : Nat) (comments : List Comment) :
    AtLineStart (s ++ String.join (commentLines depth comments)) := by
  induction comments generalizing s with
  | nil => simpa [commentLines] using h
  | cons c comments ih =>
    have hline := ih (atLineStart_append_newline (s ++ indentation depth ++ c.spelling))
    simpa [commentLines, String.append_assoc] using hline

theorem output_cons (e : Entry) (es : List Entry) : output (e :: es) = String.join e.text ++ output es := by
  rw [output, output, List.flatMap_cons, String.join_append]

/-- A piece behind which comments may stand ends the line. -/
theorem atLineStart_of_before {s : String} {q : Piece} (h : p.Before q) (hq : q.isComments = true)
    (hs : p.isComments = true → AtLineStart s) (cs : List Comment) : AtLineStart (s ++ String.join (Entry.text ⟨p, cs⟩)) := by
  cases p with
  | newline => simpa [Entry.text] using atLineStart_append_newline s
  | comments before depth => exact atLineStart_commentLines (hs rfl) depth cs
  | token k =>
    cases q with
    | comments => cases h.1
    | _ => cases hq
  | _ => exact (h.elim nofun fun h => nomatch hq.symm.trans h)

/-- In a layout whose pieces may stand one behind the other, the comments stand at the start of a line. -/
theorem atLineStart_of_chain {s : String} (h : ps.IsChain Piece.Before)
    (hs : ∀ p ∈ ps.head?, p.isComments = true → AtLineStart s) {before after : List Entry} {e : Entry}
    (hsplit : entries pending ps = before ++ e :: after) (he : e.piece.isComments = true) :
    AtLineStart (s ++ output before) := by
  induction ps generalizing pending s before with
  | nil => cases before <;> cases hsplit
  | cons p ps ih =>
    rw [entries] at hsplit
    cases before with
    | nil =>
      cases hsplit
      simpa [output] using hs p rfl he
    | cons e' before =>
      obtain ⟨rfl, hrest⟩ := List.cons.inj hsplit
      rw [output_cons, ← String.append_assoc]
      refine ih h.tail (fun q hq hcomments => ?_) hrest
      cases ps with
      | nil => cases hq
      | cons q' ps =>
        cases hq
        exact atLineStart_of_before h.rel hcomments (hs p rfl) _

/-- Comments are printed at places for them only. -/
theorem place_of_mem_entries {e : Entry} (he : e ∈ entries pending ps) (hcomments : e.comments ≠ []) :
    e.piece.place?.isSome = true := by
  induction ps generalizing pending with
  | nil => cases he
  | cons p ps ih =>
    rcases List.mem_cons.mp he with rfl | he
    · cases hplace : p.place? with
      | none => simp [taken, hplace] at hcomments
      | some o => rfl
    · exact ih he

end

end Layout

/-! ### The comments of a source -/

section
variable {pos : Nat} {cs : List Char} {lexed : Lexed}

theorem Lexed.Cut.inSourceOrder (h : Lexed.Cut pos cs lexed) : InSourceOrder lexed.comments := by
  have hgap : ∀ {pos cs found newline}, Gap.Cut pos cs found newline → InSourceOrder found := by
    intro pos cs found newline hfound
    refine (List.pairwise_map.mp hfound.inOrder.pairwise).imp fun {a b} hle => ?_
    exact Nat.le_trans a.span.offset_le_stop hle
  induction h with
  | last hfound => exact hgap hfound
  | @token pos gap text rest found newline k more hfound htext hk h ih =>
    refine List.pairwise_append.mpr ⟨hgap hfound, ih, fun a ha b hb => ?_⟩
    have hstop := (hfound.inOrder.bounds a.span (List.mem_map_of_mem ha)).2.2
    have hstart := h.le_offset.2 b hb
    have hle := a.span.offset_le_stop
    omega

end

/-! ### Places -/

namespace Lays

variable {ks : List Constituent} {ps : List Piece}

/-- The places of a layout are places that the constituents give. -/
theorem places_sublist (h : Lays ks ps) : (places ps).Sublist (marksOf ks) := by
  induction h with
  | nil => exact .slnil
  | @quiet ks ps p hp h ih =>
    have hplace : p.place? = none := by
      cases p with
      | comments => cases hp
      | emptyBlock => cases hp
      | _ => rfl
    rwa [places_cons, hplace]
  | token _ _ ih => exact ih
  | mark o _ ih => exact ih.cons o
  | comments o depth _ ih => exact ih.cons_cons o
  | emptyBlock o depth _ ih => exact ih.cons_cons o
  | @node ks n own ps hown hwritten h ihown ih =>
    rw [places_append, marksOf_node, n.marks_eq]
    exact ihown.append ih

end Lays

section
variable {α : Type} {f : Node → List α} {x : α} {n : Node}

theorem Node.mem_gather : x ∈ n.gather f ↔ x ∈ f n ∨ ∃ m ∈ n.parts, x ∈ m.gather f := by
  have hparts : (∃ m ∈ n.parts, x ∈ m.gather f) ↔
      x ∈ (n.parts.take n.leading).flatMap (gather f) ∨ x ∈ (n.parts.drop n.leading).flatMap (gather f) := by
    rw [← List.mem_append, ← List.flatMap_append, List.take_append_drop, List.mem_flatMap]
  rw [gather_eq, List.mem_append, List.mem_append, hparts]
  tauto

/-- Where in a layout a node below the constituents is laid out. -/
structure Lays.Locates (ks : List Constituent) (ps : List Piece) (m : Node) (before own after : List Piece) : Prop where
  split : ps = before ++ (own ++ after)
  lays : Lays m.script own
  written : m.Written own
  /-- The places before the node are places that come before it in the source. -/
  marks : ∃ a b, marksOf ks = a ++ (m.marks ++ b) ∧ (places before).Sublist a

section
variable {ks : List Constituent} {ps before own after : List Piece} {m : Node}

theorem Lays.Locates.behind (h : Locates ks ps m before own after) (ks' : List Constituent) (first : List Piece)
    (hfirst : (places first).Sublist (marksOf ks')) : Locates (ks' ++ ks) (first ++ ps) m (first ++ before) own after := by
  obtain ⟨a, b, hmarks, hbefore⟩ := h.marks
  refine ⟨by rw [h.split, List.append_assoc], h.lays, h.written, marksOf ks' ++ a, b, ?_, ?_⟩
  · rw [marksOf_append, hmarks, List.append_assoc]
  · rw [places_append]
    exact hfirst.append hbefore

theorem Lays.Locates.within (h : Locates n.script ps m before own after) (ks : List Constituent) (qs : List Piece) :
    Locates (.node n :: ks) (ps ++ qs) m before own (after ++ qs) := by
  obtain ⟨a, b, hmarks, hbefore⟩ := h.marks
  refine ⟨by rw [h.split, List.append_assoc, List.append_assoc], h.lays, h.written, a, b ++ marksOf ks, ?_, hbefore⟩
  rw [marksOf_node, n.marks_eq, hmarks, List.append_assoc, List.append_assoc]

theorem Piece.place?_of_isQuiet {p : Piece} (h : p.isQuiet = true) : p.place? = none := by
  cases p with
  | comments => cases h
  | emptyBlock => cases h
  | _ => rfl

/-- What is found below the constituents is found at a node that is laid out. -/
theorem Lays.locate (h : Lays ks ps) (hx : x ∈ (nodesOf ks).flatMap (Node.gather f)) :
    ∃ m before own after, x ∈ f m ∧ Locates ks ps m before own after := by
  induction h with
  | nil => cases hx
  | @quiet ks ps p hp h ih =>
    obtain ⟨m, before, own, after, hm, hlocates⟩ := ih hx
    refine ⟨m, _, own, after, hm, hlocates.behind [] [p] ?_⟩
    rw [places_cons, Piece.place?_of_isQuiet hp]
    exact .refl _
  | @token ks ps k hk h ih =>
    obtain ⟨m, before, own, after, hm, hlocates⟩ := ih hx
    exact ⟨m, _, own, after, hm, hlocates.behind [.token k.asRead] [.token k] (.refl _)⟩
  | @mark ks ps o h ih =>
    obtain ⟨m, before, own, after, hm, hlocates⟩ := ih hx
    exact ⟨m, _, own, after, hm, hlocates.behind [.mark o] [] (List.nil_sublist _)⟩
  | @comments ks ps o depth h ih =>
    obtain ⟨m, before, own, after, hm, hlocates⟩ := ih hx
    exact ⟨m, _, own, after, hm, hlocates.behind [.mark o] [.comments o depth] (.refl _)⟩
  | @emptyBlock ks ps o depth h ih =>
    obtain ⟨m, before, own, after, hm, hlocates⟩ := ih hx
    exact ⟨m, _, own, after, hm, hlocates.behind [.mark o] [.emptyBlock o depth] (.refl _)⟩
  | @node ks n own ps hown hwritten h ihown ih =>
    rw [nodesOf_node, List.flatMap_cons, List.mem_append] at hx
    rcases hx with hx | hx
    · rcases Node.mem_gather.mp hx with hx | ⟨m, hm, hx⟩
      · exact ⟨n, [], own, ps, hx, rfl, hown, hwritten, [], marksOf ks, rfl, .refl _⟩
      · rw [n.nodesOf_script] at ihown
        obtain ⟨m, before, own', after, hm, hlocates⟩ := ihown (List.mem_flatMap.mpr ⟨m, hm, hx⟩)
        exact ⟨m, before, own', _, hm, hlocates.within ks ps⟩
    · obtain ⟨m, before, own', after, hm, hlocates⟩ := ih hx
      exact ⟨m, _, own', after, hm, hlocates.behind [.node n] own (by simpa [n.marks_eq] using hown.places_sublist)⟩

end

end

/-! ### Blocks -/

def Node.ownBlocks : Node → List Block
  | block b => [b]
  | _ => []

/-- The blocks at and below a node. -/
def Node.blocks (n : Node) : List Block := n.gather Node.ownBlocks

def Node.ownSwitches : Node → List Stmt
  | stmt (.switch span subject cases) => [.switch span subject cases]
  | _ => []

/-- The blocks of a program. -/
def Program.blocks (p : Program) : List Block := p.nodes.flatMap Node.blocks

/-- The switches of a program. -/
def Program.switches (p : Program) : List Stmt := p.nodes.flatMap (Node.gather Node.ownSwitches)

/-- The node is a line of a block or of a switch. -/
def Node.isLine : Node → Bool
  | stmt _ | case _ => true
  | _ => false

theorem Node.isLine_parts {n : Node} (hn : n.isLine = false) (hblock : n.ownBlocks = []) :
    ∀ m ∈ n.parts, m.isLine = false := by
  cases n with
  | stmt => cases hn
  | case => cases hn
  | block => cases hblock
  | expr e => cases e <;> simp [parts, Expr.parts, isLine]
  | pattern p => cases p <;> simp [parts, Pattern.parts, isLine]
  | item e => cases e <;> simp [parts, isLine]
  | key k => cases k <;> simp [parts, isLine]
  | property p => cases p <;> simp [parts, isLine]
  | body b => cases b <;> simp [parts, isLine]
  | forInit i => cases i <;> simp [parts, isLine]
  | forTarget t => cases t <;> simp [parts, isLine]
  | patternProp p => cases p <;> simp [parts, isLine, or_imp, forall_and]
  | shape s => cases s <;> simp [parts, isLine]
  | label l => cases l <;> simp [parts, isLine, or_imp, forall_and]
  | _ => simp [parts, isLine, or_imp, forall_and]

/-- All places of a node that is no line lie in its blocks. -/
theorem Node.exists_block_of_mem_marks {n : Node} (hn : n.isLine = false) (hsorted : n.marks.Pairwise (· ≤ ·)) {o : Nat}
    (ho : o ∈ n.marks) : ∃ b ∈ n.blocks, o ≤ b.span.stop := by
  induction n using Node.byParts with
  | h n ih =>
    have hmarks := n.marks_parts
    cases hblock : n.ownBlocks with
    | cons b bs =>
      cases n with
      | block b =>
        refine ⟨b, Node.mem_gather.mpr (.inl List.mem_cons_self), ?_⟩
        rw [hmarks, openMark, closeMark, ← List.append_assoc] at hsorted ho
        rcases List.mem_append.mp ho with ho | ho
        · exact (List.pairwise_append.mp hsorted).2.2 o ho _ List.mem_cons_self
        · exact Nat.le_of_eq (List.mem_singleton.mp ho)
      | _ => cases hblock
    | nil =>
      have hown : n.marks = n.parts.flatMap marks := by
        rw [hmarks]
        cases n with
        | stmt => cases hn
        | case => cases hn
        | block => cases hblock
        | _ => exact List.append_nil _
      rw [hown] at ho hsorted
      obtain ⟨m, hm, ho⟩ := List.mem_flatMap.mp ho
      have hsub : m.marks.Sublist (n.parts.flatMap marks) := by
        rw [List.flatMap_def]
        exact List.sublist_flatten_of_mem (List.mem_map_of_mem hm)
      obtain ⟨b, hb, hle⟩ := ih m hm (Node.isLine_parts hn hblock m hm) (hsorted.sublist hsub) ho
      exact ⟨b, Node.mem_gather.mpr (.inr ⟨m, hm, hb⟩), hle⟩

theorem Node.Made.exists_of_mem_gather {α : Type} {f : Node → List α} {x : α} {L : Lexis} {lo hi : Nat} {n : Node}
    (h : n.Made L lo hi) (hx : x ∈ n.gather f) : ∃ m lo hi, x ∈ f m ∧ m.Made L lo hi := by
  revert hx
  refine h.byParts (P := fun _ _ n => x ∈ n.gather f → ∃ m lo hi, x ∈ f m ∧ m.Made L lo hi) ?_ ?_
  · intro site hx
    rcases Node.mem_gather.mp hx with hx | ⟨m, hm, -⟩
    · exact ⟨_, _, _, hx, .site site⟩
    · cases hm
  · intro lo hi n hn hproper hmade ih hx
    rcases Node.mem_gather.mp hx with hx | ⟨m, hm, hx⟩
    · exact ⟨n, lo, hi, hx, .node hn hproper hmade⟩
    · obtain ⟨_, _, hm⟩ := ih.mem hm
      exact hm hx

/-! ### Programs -/

/-- How a program is printed: the layout of its statements with the comments at their places, and the comments that
    are left behind it. -/
structure Program.PrintedAs (p : Program) (es : List Entry) (rest : List Comment) : Prop where
  layout : es.map Entry.piece = Layout.stmts 0 p.body
  text : p.print = output es ++ String.join (commentLines 0 rest)
  /-- Every comment is printed once, in the order of the source. -/
  comments : printed es ++ rest = p.comments
  /-- Without the comments, the text is that of the program without comments. -/
  code : Program.print ⟨p.body, []⟩ = output (es.map Entry.bare)
  /-- Comments stand on lines of their own, or in the braces of an empty block, which are opened for them. -/
  lines : ∀ before e after, es = before ++ e :: after → e.comments ≠ [] →
    e.piece.isComments = true ∧ AtLineStart (output before) ∨ ∃ stop depth, e.piece = .emptyBlock stop depth
  lastLines : AtLineStart (output es)
  /-- The comments in the range of a block are printed between its braces. -/
  blocks : ∀ b ∈ p.blocks, ∃ before inside after depth, es = before ++ (inside ++ after) ∧
    inside.map Entry.piece = b.layout depth ∧ ∀ c ∈ p.comments, b.span.Covers c.span.offset → c ∈ printed inside
  /-- So are those in the range of a switch, but for the ones that start before the end of a block in its subject,
      which are printed in the subject. -/
  switches : ∀ span subject cases, .switch span subject cases ∈ p.switches → ∃ before head inside after depth lines,
    es = before ++ (head ++ (inside ++ after)) ∧
    (head ++ inside).map Entry.piece = (Stmt.switch span subject cases).layout depth ∧
    inside.map Entry.piece = braces depth lines ∧
    ∀ c ∈ p.comments, span.Covers c.span.offset →
      (c ∈ printed inside ↔ ∀ b ∈ (Node.expr subject).blocks, b.span.stop ≤ c.span.offset) ∧
      (c ∈ printed head ↔ ∃ b ∈ (Node.expr subject).blocks, c.span.offset < b.span.stop)

theorem Layout.leftover_nil (ps : List Piece) : leftover [] ps = [] :=
  (List.append_eq_nil_iff.mp (printed_append_leftover [] ps)).2

/-- Without their comments, the entries are those of a program that has none. -/
theorem Layout.map_bare_entries (pending : List Comment) (ps : List Piece) :
    (entries pending ps).map Entry.bare = entries [] ps := by
  induction ps generalizing pending with
  | nil => rfl
  | cons p ps ih =>
    have hnil := List.append_eq_nil_iff.mp (taken_append_left [] p)
    rw [entries, entries, List.map_cons, ih, hnil.1, hnil.2]
    rfl

theorem Block.stop_mem_places (b : Block) (depth : Nat) : b.span.stop ∈ places (b.layout depth) := by
  obtain ⟨span, stmts⟩ := b
  cases stmts with
  | nil => exact List.mem_cons_self
  | cons s stmts =>
    rw [Block.layout]
    · simp [braces, Piece.place?]
    · exact List.cons_ne_nil _ _

/-- The layout of a switch: the places of its subject come before the braces, its end between them. -/
theorem Stmt.layout_switch (span : Span) (subject : Expr) (cases : List Case) (depth : Nat) :
    ∃ head lines, (Stmt.switch span subject cases).layout depth = head ++ braces depth lines ∧
      places head = places (subject.layout depth) ∧ span.stop ∈ places (braces depth lines) := by
  refine ⟨keyword .kwSwitch ++ space ++ paren (subject.layout depth) ++ space, _, rfl, ?_, ?_⟩
  · simp only [paren, keyword, space, sign, places_append, places_cons, Piece.place?]
    simp [places]
  · simp [braces, Piece.place?]

theorem Node.eq_block_of_mem {m : Node} {b : Block} (h : b ∈ m.ownBlocks) : m = .block b := by
  cases m with
  | block => rw [List.mem_singleton.mp h]
  | _ => cases h

theorem Node.eq_switch_of_mem {m : Node} {s : Stmt} (h : s ∈ m.ownSwitches) : m = .stmt s := by
  unfold ownSwitches at h
  split at h
  · rw [List.mem_singleton.mp h]
  · cases h

section
variable {ks : List Constituent} {ps before own after : List Piece} {m : Node} {o x : Nat}

/-- The places before a node lie before all places that it gives. -/
theorem Lays.Locates.le_of_mem (h : Locates ks ps m before own after) (hsorted : (marksOf ks).Pairwise (· ≤ ·))
    (ho : o ∈ places before) (hx : x ∈ m.marks) : o ≤ x := by
  obtain ⟨a, b, hmarks, hbefore⟩ := h.marks
  rw [hmarks] at hsorted
  exact (List.pairwise_append.mp hsorted).2.2 o (hbefore.mem ho) x (List.mem_append_left _ hx)

theorem Lays.Locates.sorted (h : Locates ks ps m before own after) (hsorted : (marksOf ks).Pairwise (· ≤ ·)) :
    m.marks.Pairwise (· ≤ ·) := by
  obtain ⟨a, b, hmarks, -⟩ := h.marks
  rw [hmarks] at hsorted
  exact (List.pairwise_append.mp (List.pairwise_append.mp hsorted).2.1).1

/-- A block that is laid out below the constituents. -/
theorem Lays.locate_block {b : Block} (h : Lays ks ps) (hb : b ∈ (nodesOf ks).flatMap Node.blocks)
    (hsorted : (marksOf ks).Pairwise (· ≤ ·)) :
    ∃ before after depth, ps = before ++ (b.layout depth ++ after) ∧ ∀ o ∈ places before, o ≤ b.span.offset := by
  obtain ⟨m, before, own, after, hm, hlocates⟩ := h.locate hb
  cases Node.eq_block_of_mem hm
  obtain ⟨depth, rfl⟩ := hlocates.written
  refine ⟨before, after, depth, hlocates.split, fun o ho => hlocates.le_of_mem hsorted ho ?_⟩
  rw [Node.marks_parts]
  exact List.mem_cons_self

/-- A statement that is laid out below the constituents. -/
theorem Lays.locate_switch {s : Stmt} (h : Lays ks ps) (hs : s ∈ (nodesOf ks).flatMap (Node.gather Node.ownSwitches))
    (hsorted : (marksOf ks).Pairwise (· ≤ ·)) :
    (Node.stmt s).marks.Pairwise (· ≤ ·) ∧ ∃ before after depth, ps = before ++ (s.layout depth ++ after) ∧
      ∀ o ∈ places before, o ≤ s.span.offset := by
  obtain ⟨m, before, own, after, hm, hlocates⟩ := h.locate hs
  cases Node.eq_switch_of_mem hm
  have hbefore : ∀ o ∈ places before, o ≤ s.span.offset := fun o ho => hlocates.le_of_mem hsorted ho (by
    rw [Node.marks_parts]
    exact List.mem_cons_self)
  refine ⟨hlocates.sorted hsorted, ?_⟩
  obtain ⟨depth, rfl | rfl⟩ := hlocates.written
  · exact ⟨before, after, depth, hlocates.split, hbefore⟩
  · refine ⟨before ++ lead depth s, after, depth, ?_, ?_⟩
    · rw [hlocates.split, List.append_assoc, List.append_assoc]
    · rw [places_append, List.forall_mem_append]
      refine ⟨hbefore, fun o ho => ?_⟩
      cases List.mem_singleton.mp ho
      exact Nat.le_refl _

/-- The last place in the layout of an expression is the end of a block. -/
theorem Expr.lt_place_iff {e : Expr} {depth : Nat} (h : Lays [.node (.expr e)] (e.layout depth))
    (hsorted : (Node.expr e).marks.Pairwise (· ≤ ·)) :
    (∃ o ∈ places (e.layout depth), x < o) ↔ ∃ b ∈ (Node.expr e).blocks, x < b.span.stop := by
  have hmarks : marksOf [.node (.expr e)] = (Node.expr e).marks := List.append_nil _
  constructor
  · rintro ⟨o, ho, hlt⟩
    obtain ⟨b, hb, hle⟩ := Node.exists_block_of_mem_marks rfl hsorted (hmarks ▸ h.places_sublist.mem ho)
    exact ⟨b, hb, Nat.lt_of_lt_of_le hlt hle⟩
  · rintro ⟨b, hb, hlt⟩
    obtain ⟨before, after, depth', hsplit, -⟩ := h.locate_block (b := b) (by simpa using hb) (hmarks ▸ hsorted)
    refine ⟨b.span.stop, ?_, hlt⟩
    rw [hsplit, places_append, places_append]
    exact List.mem_append_right _ (List.mem_append_left _ (b.stop_mem_places depth'))

end

section
variable {source : String} {p : Program} {lexed : Lexed}

theorem Program.inSourceOrder (h : Grammar.parseProgram [] source = .ok p) : InSourceOrder p.comments := by
  obtain ⟨lexed, stmts, hread, -, rfl⟩ := Grammar.parseProgram_eq_ok.mp h
  exact (Lexed.cut_of_readFrom Scanner.progresses_none (Nat.le_of_eq String.length_toList)
    (Grammar.read_nil_eq_ok.mp hread)).inSourceOrder

theorem Program.lays (h : Grammar.parseProgram [] source = .ok p) : Lays (p.nodes.map .node) (Layout.stmts 0 p.body) := by
  obtain ⟨hi, hmade⟩ := Program.made_of_parse h
  refine Lays.stmts fun m hm => ?_
  obtain ⟨s, hs, rfl⟩ := List.mem_map.mp hm
  obtain ⟨_, _, hs⟩ := hmade.mem hs
  exact hs.laid

theorem Program.lines_of_parse (h : Grammar.parseProgram [] source = .ok p) : Lines (Layout.stmts 0 p.body) := by
  obtain ⟨hi, hmade⟩ := Program.made_of_parse h
  refine lines_stmts fun s hs => ?_
  obtain ⟨_, _, hs⟩ := hmade.mem hs
  exact hs.spaced 0

theorem Program.printed_lines (h : Grammar.parseProgram [] source = .ok p) {before after : List Entry} {e : Entry}
    (hsplit : entries p.comments (Layout.stmts 0 p.body ++ [.comments 0 0]) = before ++ e :: after)
    (he : e.piece.isComments = true) : AtLineStart (output before) := by
  have hlines := Program.lines_of_parse h
  have hneat : Neat (Layout.stmts 0 p.body ++ [.comments 0 0]) := hlines.toNeat.below (.singleton trivial) hlines.closed
  have hstart : AtLineStart ("" ++ output before) := atLineStart_of_chain hneat.chain (fun _ _ _ => atLineStart_empty) hsplit he
  rwa [String.empty_append] at hstart

theorem Program.sorted_of_parse (h : Grammar.parseProgram [] source = .ok p) :
    (marksOf (p.nodes.map .node)).Pairwise (· ≤ ·) := by
  rw [marksOf_nodes]
  exact Program.marks_sorted h

/-- The comments in the range of a block are printed inside it. -/
theorem Program.printed_block (h : Grammar.parseProgram [] source = .ok p) {b : Block} (hb : b ∈ p.blocks) :
    ∃ before inside after depth, entries p.comments (Layout.stmts 0 p.body) = before ++ (inside ++ after) ∧
      inside.map Entry.piece = b.layout depth ∧
      ∀ c ∈ p.comments, b.span.Covers c.span.offset → c ∈ printed inside := by
  have horder := Program.inSourceOrder h
  obtain ⟨before, after, depth, hsplit, hbefore⟩ :=
    (Program.lays h).locate_block (b := b) (by rwa [nodesOf_nodes]) (Program.sorted_of_parse h)
  rw [hsplit, entries_append, entries_append]
  refine ⟨_, _, _, depth, rfl, map_piece_entries _ _, fun c hc hcovers => ?_⟩
  refine (mem_printed (inSourceOrder_leftover horder before)).mpr ⟨(mem_leftover horder).mpr ⟨hc, fun o ho => ?_⟩, ?_⟩
  · exact Nat.le_trans (hbefore o ho) hcovers.1
  · exact ⟨b.span.stop, b.stop_mem_places depth, hcovers.2⟩

/-- The comments in the range of a switch are printed in its subject or between its braces. -/
theorem Program.printed_switch (h : Grammar.parseProgram [] source = .ok p) {span : Span} {subject : Expr}
    {cases : List Case} (hs : .switch span subject cases ∈ p.switches) :
    ∃ before head inside after depth lines,
      entries p.comments (Layout.stmts 0 p.body) = before ++ (head ++ (inside ++ after)) ∧
      (head ++ inside).map Entry.piece = (Stmt.switch span subject cases).layout depth ∧
      inside.map Entry.piece = braces depth lines ∧
      ∀ c ∈ p.comments, span.Covers c.span.offset →
        (c ∈ printed inside ↔ ∀ b ∈ (Node.expr subject).blocks, b.span.stop ≤ c.span.offset) ∧
        (c ∈ printed head ↔ ∃ b ∈ (Node.expr subject).blocks, c.span.offset < b.span.stop) := by
  have horder := Program.inSourceOrder h
  obtain ⟨hsorted, before, after, depth, hsplit, hbefore⟩ :=
    (Program.lays h).locate_switch (by rwa [nodesOf_nodes]) (Program.sorted_of_parse h)
  -- the subject is laid out before the braces
  obtain ⟨s, hs', hgather⟩ := List.mem_flatMap.mp hs
  obtain ⟨s, hbody, rfl⟩ := List.mem_map.mp hs'
  obtain ⟨hi, hmade⟩ := Program.made_of_parse h
  obtain ⟨_, _, hstmt⟩ := hmade.mem hbody
  obtain ⟨m, _, _, hm, hswitch⟩ := hstmt.exists_of_mem_gather hgather
  cases Node.eq_switch_of_mem hm
  obtain ⟨_, _, hsubject⟩ := (hswitch.parts rfl).mem (a := .expr subject) List.mem_cons_self
  have hmarks : (Node.expr subject).marks.Pairwise (· ≤ ·) := by
    rw [Node.marks_parts] at hsorted
    have hparts := (List.pairwise_append.mp (List.pairwise_append.mp hsorted).2.1).1
    have hcons : (Node.stmt (.switch span subject cases)).parts = .expr subject :: cases.map .case := rfl
    rw [hcons, List.flatMap_cons] at hparts
    exact (List.pairwise_append.mp hparts).1
  have hplaces : ∀ x, (∃ o ∈ places (subject.layout depth), x < o) ↔
      ∃ b ∈ (Node.expr subject).blocks, x < b.span.stop := fun x =>
    Expr.lt_place_iff (hsubject.laid depth) hmarks
  obtain ⟨head, lines, hlayout, hhead, hstop⟩ := Stmt.layout_switch span subject cases depth
  rw [hsplit, hlayout, List.append_assoc, entries_append, entries_append, entries_append]
  refine ⟨_, _, _, _, depth, lines, rfl, ?_, map_piece_entries _ _, fun c hc hcovers => ?_⟩
  · rw [List.map_append, map_piece_entries, map_piece_entries, hlayout]
  · have hleft : c ∈ leftover p.comments before :=
      (mem_leftover horder).mpr ⟨hc, fun o ho => Nat.le_trans (hbefore o ho) hcovers.1⟩
    have horder' := inSourceOrder_leftover horder before
    rw [mem_printed horder', mem_printed (inSourceOrder_leftover horder' _), mem_leftover horder', hhead, hplaces]
    refine ⟨⟨?_, fun hle => ⟨⟨hleft, fun o ho => ?_⟩, span.stop, hstop, hcovers.2⟩⟩, and_iff_right hleft⟩
    · rintro ⟨⟨-, hle⟩, -⟩ b hb
      by_contra hlt
      obtain ⟨o, ho, hlt⟩ := (hplaces _).mpr ⟨b, hb, Nat.lt_of_not_le hlt⟩
      exact absurd (hle o ho) (Nat.not_le_of_lt hlt)
    · by_contra hlt
      obtain ⟨b, hb, hlt⟩ := (hplaces _).mp ⟨o, ho, Nat.lt_of_not_le hlt⟩
      exact absurd (hle b hb) (Nat.not_le_of_lt hlt)

/-- How a program that is read is printed. -/
theorem parseProgram_printedAs (h : Grammar.parseProgram [] source = .ok p) :
    ∃ lexed es rest, Grammar.read [] source = .ok lexed ∧ lexed.Accounts source ∧ p.comments = lexed.comments ∧
      p.PrintedAs es rest := by
  obtain ⟨lexed, stmts, hread, -, hp⟩ := Grammar.parseProgram_eq_ok.mp h
  refine ⟨lexed, entries p.comments (Layout.stmts 0 p.body), leftover p.comments (Layout.stmts 0 p.body), hread,
    Lexed.accounts_of_read Scanner.progresses_none (Grammar.read_nil_eq_ok.mp hread), by rw [hp], ?_⟩
  exact {
    layout := map_piece_entries _ _
    text := by rw [Program.print, render, weave_eq, String.join_append]; rfl
    comments := printed_append_leftover _ _
    code := by
      rw [map_bare_entries, Program.print, render, weave_eq, leftover_nil, String.join_append]
      simp [commentLines, output]
    lines := by
      intro before e after hsplit hcomments
      have hplace := place_of_mem_entries (hsplit ▸ List.mem_append_right _ List.mem_cons_self) hcomments
      cases hpiece : e.piece with
      | comments o depth =>
        have hentries := entries_append p.comments (Layout.stmts 0 p.body) [.comments 0 0]
        rw [hsplit, List.append_assoc, List.cons_append] at hentries
        exact .inl ⟨rfl, Program.printed_lines h hentries (by rw [hpiece]; rfl)⟩
      | emptyBlock stop depth => exact .inr ⟨stop, depth, rfl⟩
      | _ => rw [hpiece] at hplace; cases hplace
    lastLines := Program.printed_lines h (entries_append _ _ _) rfl
    blocks := fun b hb => Program.printed_block h hb
    switches := fun span subject cases hs => Program.printed_switch h hs }

end

/-- A function in the subject of a switch, with comments in both and behind them. -/
theorem parseProgram_printedAs_switch : ∃ p lexed es rest,
    Grammar.parseProgram [] "switch (f(function () \x7b /* a */ \x7d)) \x7b // b\n case 1: \x7d\n// end" = .ok p ∧
    p.print = "switch (f(function () \x7b\n    /* a */\n\x7d)) \x7b\n    // b\n    case 1:\n\x7d\n// end\n" ∧
    Grammar.read [] "switch (f(function () \x7b /* a */ \x7d)) \x7b // b\n case 1: \x7d\n// end" = .ok lexed ∧
    p.comments = lexed.comments ∧ p.PrintedAs es rest := by
  have hread : (Grammar.parseProgram [] "switch (f(function () \x7b /* a */ \x7d)) \x7b // b\n case 1: \x7d\n// end").toOption.any
      (fun p => p.print == "switch (f(function () \x7b\n    /* a */\n\x7d)) \x7b\n    // b\n    case 1:\n\x7d\n// end\n") = true := by
    decide +kernel
  obtain ⟨p, hp, hprint⟩ := Except.exists_of_any hread
  obtain ⟨lexed, es, rest, hlexed, -, hcomments, hprinted⟩ := parseProgram_printedAs hp
  exact ⟨p, lexed, es, rest, hp, by simpa using hprint, hlexed, hcomments, hprinted⟩

theorem read_switch_subject :
    (Grammar.parseProgram [] "switch (/*c*/ function () \x7b b; \x7d) \x7b \x7d").toOption.any (fun p =>
      (match p.body, p.comments with
        | [.switch span _ _], [c] => decide (span.offset ≤ c.span.offset) && decide (c.span.offset < span.stop) &&
            c.spelling == "/*c*/"
        | _, _ => false) &&
      p.print == "switch (function () \x7b\n    /*c*/\n    b;\n\x7d) \x7b\n\x7d\n") = true := by
  decide +kernel

/-- A comment in the range of a switch that is printed before its braces. -/
theorem switch_subject_takes_comment : ∃ p span subject cases c,
    Grammar.parseProgram [] "switch (/*c*/ function () \x7b b; \x7d) \x7b \x7d" = .ok p ∧ p.body = [.switch span subject cases] ∧
    p.comments = [c] ∧ span.Covers c.span.offset ∧ c.spelling = "/*c*/" ∧
    p.print = "switch (function () \x7b\n    /*c*/\n    b;\n\x7d) \x7b\n\x7d\n" := by
  obtain ⟨p, hp, hprint⟩ := Except.exists_of_any read_switch_subject
  simp only [Bool.and_eq_true, beq_iff_eq] at hprint
  obtain ⟨hbody, hprint⟩ := hprint
  split at hbody
  · next span subject cases c hstmts hcomments =>
    simp only [Bool.and_eq_true, decide_eq_true_eq, beq_iff_eq] at hbody
    exact ⟨p, span, subject, cases, c, hp, hstmts, hcomments, hbody.1, hbody.2, hprint⟩
  · cases hbody

end LabelWeaver
