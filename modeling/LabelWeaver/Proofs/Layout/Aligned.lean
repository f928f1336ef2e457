import LabelWeaver.Proofs.Grammar.Spells.Program
import LabelWeaver.Proofs.Layout.Lays
import LabelWeaver.Proofs.Tree.Alike

/-! Reading what was laid out. A tree that is read from the layout of a tree with the same code is read in the
    order in which the other one is laid out, so each loop is read from the layout of a loop. The salient
    tokens keep the two in step. -/

namespace LabelWeaver

open Layout

/-! ### Texts of layouts -/

/-- The text has no salient token. -/
def Layout.Calm (ks : Text) : Prop := ∀ k, some k ∈ ks → k.isSalient = false

/-- From the next salient token on, the tokens are the same. -/
def Aligned (us ts : List Token) : Prop :=
  us.dropWhile (!·.kind.isSalient) = ts.dropWhile (!·.kind.isSalient)

section
variable {us ts : List Token} {t u : Token}

theorem Aligned.refl (ts : List Token) : Aligned ts ts := rfl

theorem Aligned.trans {vs : List Token} (h : Aligned us ts) (h' : Aligned ts vs) : Aligned us vs := Eq.trans h h'

theorem aligned_cons (ht : t.kind.isSalient = false) : Aligned (t :: ts) ts := by
  rw [Aligned, List.dropWhile_cons_of_pos (by simp [ht])]

theorem Aligned.eq (h : Aligned (u :: us) (t :: ts)) (hu : u.kind.isSalient = true) (ht : t.kind.isSalient = true) :
    u :: us = t :: ts := by
  rwa [Aligned, List.dropWhile_cons_of_neg (by simp [hu]), List.dropWhile_cons_of_neg (by simp [ht])] at h

theorem Aligned.symm (h : Aligned us ts) : Aligned ts us := Eq.symm h

end

theorem Layout.Fits.skip {line : Bool} {ts : List Token} {ks rest : Text} (h : Fits line ts (ks ++ rest)) (hks : Calm ks) :
    ∃ line' ts', Fits line' ts' rest ∧ Aligned ts ts' := by
  induction ks generalizing line ts with
  | nil => exact ⟨line, ts, h, .refl ts⟩
  | cons k ks ih =>
    have hrest : Calm ks := fun k hk => hks k (List.mem_cons_of_mem _ hk)
    cases k with
    | none => exact ih h.of_none hrest
    | some k =>
      obtain ⟨t, ts', rfl, ht, -, h'⟩ := Fits.of_some h
      obtain ⟨line', us, hus, haligned⟩ := ih h' hrest
      exact ⟨line', us, hus, (aligned_cons (by rw [ht]; exact hks k List.mem_cons_self)).trans haligned⟩

section
variable {ks : List Constituent} {ps : List Piece} {p : Piece} {k : Token.Kind} {o : Nat} {n : Node}

theorem Piece.calm (h : p.isQuiet = true) : Calm p.text := by
  intro k hk
  cases p with
  | token k' =>
    cases List.mem_singleton.mp hk
    simpa [isQuiet] using h
  | _ => simp_all [isQuiet]

theorem Layout.Calm.append {ks ks' : Text} (h : Calm ks) (h' : Calm ks') : Calm (ks ++ ks') := fun k hk =>
  (List.mem_append.mp hk).elim (h k) (h' k)

namespace Lays

theorem calm (h : Lays [] ps) : Calm (text ps) := by
  generalize hks : ([] : List Constituent) = ks at h
  induction h with
  | nil => exact nofun
  | quiet hp _ ih => exact (Piece.calm hp).append (ih hks)
  | _ => cases hks

theorem of_token (h : Lays (.token k :: ks) ps) :
    ∃ pre post, text ps = pre ++ some k :: text post ∧ Calm pre ∧ Lays ks post := by
  generalize hks : Constituent.token k :: ks = ks' at h
  induction h with
  | @quiet _ ps p hp _ ih =>
    obtain ⟨pre, post, htext, hpre, hpost⟩ := ih hks
    exact ⟨p.text ++ pre, post, by rw [text_cons, htext, List.append_assoc], (Piece.calm hp).append hpre, hpost⟩
  | @token _ ps k' _ h _ =>
    cases hks
    exact ⟨[], ps, rfl, nofun, h⟩
  | _ => cases hks

theorem of_mark (h : Lays (.mark o :: ks) ps) : ∃ pre post, text ps = pre ++ text post ∧ Calm pre ∧ Lays ks post := by
  generalize hks : Constituent.mark o :: ks = ks' at h
  induction h with
  | @quiet _ ps p hp _ ih =>
    obtain ⟨pre, post, htext, hpre, hpost⟩ := ih hks
    exact ⟨p.text ++ pre, post, by rw [text_cons, htext, List.append_assoc], (Piece.calm hp).append hpre, hpost⟩
  | @mark _ ps _ h _ =>
    cases hks
    exact ⟨[], ps, rfl, nofun, h⟩
  | @comments _ ps o depth h _ =>
    cases hks
    refine ⟨_, ps, rfl, ?_, h⟩
    simp [Calm]
  | @emptyBlock _ ps o depth h _ =>
    cases hks
    refine ⟨_, ps, rfl, ?_, h⟩
    rintro k hk
    simp only [Piece.text, List.mem_cons, Option.some.injEq, reduceCtorEq, false_or, List.not_mem_nil, or_false] at hk
    rcases hk with rfl | rfl <;> rfl
  | _ => cases hks

theorem of_node (h : Lays (.node n :: ks) ps) :
    ∃ pre own post, text ps = pre ++ (text own ++ text post) ∧ Calm pre ∧ Lays n.script own ∧ n.Written own ∧
      Lays ks post := by
  generalize hks : Constituent.node n :: ks = ks' at h
  induction h with
  | @quiet _ ps p hp _ ih =>
    obtain ⟨pre, own, post, htext, hpre, hown, hwritten, hpost⟩ := ih hks
    exact ⟨p.text ++ pre, own, post, by rw [text_cons, htext, List.append_assoc], (Piece.calm hp).append hpre, hown,
      hwritten, hpost⟩
  | @node _ _ own ps hown hwritten h _ _ =>
    cases hks
    exact ⟨[], own, ps, text_append _ _, nofun, hown, hwritten, h⟩
  | _ => cases hks

end Lays

end

/-! ### Loops -/

/-- The property holds at the node and at all nodes below it. -/
inductive Node.Every (W : Node → Prop) : Node → Prop where
  | mk {n : Node} (h : W n) (hparts : ∀ m ∈ n.parts, Every W m) : Every W n

def Stmt.isLoop : Stmt → Bool
  | forLoop _ _ _ _ _ | forEach _ _ _ _ _ => true
  | _ => false

theorem Stmt.isLoop_skeleton (s : Stmt) : s.skeleton.isLoop = s.isLoop := by
  cases s <;> rfl

/-- A loop with the same code is read from the layout of the loop. -/
def Node.Reread : Node → Prop
  | stmt s => s.isLoop = true → ∃ s' depth line ts rest, (stmt s').SameCode (stmt s) ∧ (stmt s').Ran ts ∧
      Fits line ts (text (s.layout depth) ++ rest)
  | _ => True

theorem Stmt.exists_layout_of_isLoop {s : Stmt} (h : s.isLoop = true) (depth : Nat) :
    ∃ ks, text (s.layout depth) = some (.reserved .kwFor) :: ks := by
  refine ⟨(text (s.layout depth)).tail, ?_⟩
  cases s with
  | forLoop => rfl
  | forEach => rfl
  | _ => cases h

/-- A loop is read from its first word on. -/
theorem Node.Ran.exists_cons {s : Stmt} {ts : List Token} (h : (Node.stmt s).Ran ts) (hs : s.isLoop = true) :
    ∃ t ts', ts = t :: ts' ∧ t.kind.isSalient = true := by
  have hfor : ∀ {depth c s' c'}, c.rest = ts → Grammar.forStmt (Grammar.rules [] depth) c = .ok s' c' →
      ∃ t ts', ts = t :: ts' ∧ t.kind.isSalient = true := by
    intro depth c s' c' hrest hrun
    cases hword : c.isAt (.reserved .kwFor) with
    | false => exact (Making.Dies.expectOther (E := Cursor.Never) hword hrun).elim
    | true =>
      cases ts with
      | nil => simp [Cursor.isAt, Cursor.kind?, Cursor.peek?, hrest] at hword
      | cons t ts =>
        rw [Cursor.isAt, Cursor.kind?_of_rest hrest] at hword
        have hk : t.kind = .reserved .kwFor := by simpa using hword
        exact ⟨t, ts, rfl, by rw [hk]; rfl⟩
  cases s with
  | forLoop =>
    obtain ⟨depth, c, c', hrest, hrun⟩ := h
    exact hfor hrest hrun
  | forEach =>
    obtain ⟨depth, c, c', hrest, hrun⟩ := h
    exact hfor hrest hrun
  | _ => cases hs

/-- A tree is read from the layout of one with the same code loop by loop. -/
theorem Spells.reread {ks ks' : List Constituent} {a b : Place} {ps : List Piece} (h : Spells ks a b) (hlays : Lays ks' ps)
    (hsame : List.Forall₂ Constituent.Same ks ks') {line : Bool} {ts : List Token} {rest : Text}
    (hfits : Fits line ts (text ps ++ rest)) (haligned : Aligned a.rest ts) :
    (∀ n ∈ nodesOf ks', n.Every Node.Reread) ∧ ∃ line' ts', Fits line' ts' rest ∧ Aligned b.rest ts' := by
  induction h generalizing ks' ps line ts rest with
  | nil a =>
    cases hsame
    obtain ⟨line', ts', hfits', haligned'⟩ := hfits.skip hlays.calm
    exact ⟨nofun, line', ts', hfits', haligned.trans haligned'⟩
  | quiet hrest hk _ ih =>
    rw [hrest] at haligned
    exact ih hlays hsame hfits ((aligned_cons hk).symm.trans haligned)
  | @token _ a b t ts₁ hrest hk _ ih =>
    cases hsame with
    | cons htoken hsame =>
      cases htoken
      obtain ⟨pre, post, htext, hpre, hpost⟩ := hlays.of_token
      rw [htext, List.append_assoc] at hfits
      obtain ⟨line', ts', hfits', haligned'⟩ := hfits.skip hpre
      obtain ⟨t', ts'', rfl, ht', -, hfits''⟩ := Fits.of_some hfits'
      have heq := (hrest ▸ haligned.trans haligned').eq hk (by rw [ht']; exact hk)
      cases heq
      exact ih hpost hsame hfits'' (.refl _)
  | mark o _ ih =>
    cases hsame with
    | cons hmark hsame =>
      cases hmark
      obtain ⟨pre, post, htext, hpre, hpost⟩ := hlays.of_mark
      rw [htext, List.append_assoc] at hfits
      obtain ⟨line', ts', hfits', haligned'⟩ := hfits.skip hpre
      exact ih hpost hsame hfits' (haligned.trans haligned')
  | @node ks a b c n hown hplaced hran h ihown ih =>
    cases hsame with
    | cons hnode hsame =>
      cases hnode with
      | @node _ m hcode =>
        obtain ⟨pre, own, post, htext, hpre, hlaysOwn, hwritten, hpost⟩ := hlays.of_node
        rw [htext, List.append_assoc, List.append_assoc] at hfits
        obtain ⟨line₁, ts₁, hfits₁, haligned₁⟩ := hfits.skip hpre
        have hstart := haligned.trans haligned₁
        obtain ⟨hparts, line₂, ts₂, hfits₂, haligned₂⟩ := ihown hlaysOwn hcode.script hfits₁ hstart
        obtain ⟨hrest, hend⟩ := ih hpost hsame hfits₂ haligned₂
        refine ⟨List.forall_mem_cons.mpr ⟨⟨?_, by rwa [m.nodesOf_script] at hparts⟩, hrest⟩, hend⟩
        cases m with
        | stmt s =>
          intro hloop
          obtain ⟨s', rfl, hskeleton⟩ := hcode.exists_stmt
          obtain ⟨depth, hdepth⟩ := hwritten
          obtain ⟨ks₁, hks₁⟩ := s.exists_layout_of_isLoop hloop depth
          obtain ⟨line, hlayout⟩ : ∃ line, Fits line ts₁ (text (s.layout depth) ++ (text post ++ rest)) := by
            rcases hdepth with rfl | rfl
            · exact ⟨_, hfits₁⟩
            · exact ⟨_, Fits.of_none hfits₁⟩
          -- both the layout and what is read start with the word of the loop
          have hloop' : s'.isLoop = true := by rw [← s'.isLoop_skeleton, hskeleton, s.isLoop_skeleton, hloop]
          obtain ⟨u, us, hus, hu⟩ := hran.exists_cons hloop'
          obtain ⟨t, ts', hts', ht, -, -⟩ := Fits.of_some (hks₁ ▸ hlayout)
          have heq : a.rest = ts₁ := by
            rw [hus, hts'] at hstart ⊢
            exact hstart.eq hu (by rw [ht]; rfl)
          exact ⟨s', depth, line, ts₁, text post ++ rest, hcode, heq ▸ hran, hlayout⟩
        | _ => trivial

end LabelWeaver
