import LabelWeaver.Proofs.Token.Partition

/-! Where the faults of a text lie. The span of a fault begins where the part of the text begins that is
    no token, and ends between two characters of it; only for a hexadecimal escape in a string is its
    length taken from the form of the escape and not from the text. -/

namespace LabelWeaver

variable {cs : List Char} {size pos : Nat} {e : LexError} {scan : Scanner}

open Lexeme

/-- The span lies in the text, with both ends between two characters. -/
structure Span.Within (s : Span) (text : List Char) : Prop where
  stop_le : s.stop ≤ byteLength text
  start : Boundary 0 text s.offset
  stop : Boundary 0 text s.stop

/-- A hexadecimal escape, with the length that is reported when its digits are no character. -/
inductive HexEscape : List Char → Nat → Prop where
  | byte (rest : List Char) : HexEscape ('\\' :: 'x' :: rest) 4
  | braced (digits rest : List Char) :
      HexEscape ('\\' :: 'u' :: '\x7b' :: (digits ++ '\x7d' :: rest)) (byteLength digits + 2)

/-- The fault is reported at a place of the text that begins at byte `pos`: with a length that ends
    between two characters, or with the length of a hexadecimal escape. -/
def LexError.Placed (e : LexError) (pos : Nat) (cs : List Char) : Prop :=
  ∃ before after, cs = before ++ after ∧ e.span.offset = pos + byteLength before ∧
    (Boundary 0 after e.span.length ∨ e.fault = .invalidHexEscape ∧ HexEscape after e.span.length)

theorem HexEscape.append {n : Nat} (h : HexEscape cs n) (rest : List Char) : HexEscape (cs ++ rest) n := by
  cases h with
  | byte => exact .byte _
  | braced digits more =>
    have hsplit : digits ++ '\x7d' :: more ++ rest = digits ++ '\x7d' :: (more ++ rest) := by simp
    simp only [List.cons_append, hsplit]
    exact .braced _ _

namespace LexError.Placed

theorem append_left (h : e.Placed pos cs) (rest : List Char) : e.Placed pos (cs ++ rest) := by
  obtain ⟨before, after, rfl, hoffset, hlength⟩ := h
  refine ⟨before, after ++ rest, List.append_assoc .., hoffset, ?_⟩
  exact hlength.imp (·.append_left rest) (And.imp_right (·.append rest))

theorem append_right {a : List Char} (h : e.Placed (pos + byteLength a) cs) : e.Placed pos (a ++ cs) := by
  obtain ⟨before, after, rfl, hoffset, hlength⟩ := h
  refine ⟨a ++ before, after, (List.append_assoc ..).symm, ?_, hlength⟩
  rw [hoffset, byteLength_append, Nat.add_assoc]

/-- A fault at the start of the text that covers the characters `a`. -/
theorem front {fault : LexFault} {a rest : List Char} {n : Nat} (hn : n = byteLength a) :
    LexError.Placed ⟨fault, ⟨pos, n⟩⟩ pos (a ++ rest) :=
  ⟨[], a ++ rest, rfl, rfl, .inl ⟨a, rest, rfl, by rw [hn, Nat.zero_add]⟩⟩

end LexError.Placed

theorem Except.map_eq_error {ε α β : Type} {r : Except ε α} {f : α → β} {e : ε} (h : r.map f = .error e) :
    r = .error e := by
  cases r with
  | error => exact congrArg Except.error (Except.error.inj h)
  | ok a => cases h

/-! ### Escapes -/

theorem exists_takeWhile_ne (h : (cs.takeWhile (· != '\x7d')).length ≠ cs.length) :
    ∃ rest, cs = cs.takeWhile (· != '\x7d') ++ '\x7d' :: rest := by
  have hsplit : cs = cs.takeWhile (· != '\x7d') ++ cs.dropWhile (· != '\x7d') :=
    List.takeWhile_append_dropWhile.symm
  cases hdrop : cs.dropWhile (· != '\x7d') with
  | nil =>
    rw [hdrop, List.append_nil] at hsplit
    exact absurd (congrArg List.length hsplit.symm) h
  | cons c rest =>
    have hc := List.head_dropWhile_not (· != '\x7d') (w := by rw [hdrop]; exact List.cons_ne_nil _ _)
    simp only [hdrop, List.head_cons, bne_eq_false_iff_eq] at hc
    rw [hdrop, hc] at hsplit
    exact ⟨rest, hsplit⟩

theorem readEscape_error {fault : LexFault} {n : Nat} (h : Literal.readEscape cs = .error (fault, n)) :
    Boundary 0 ('\\' :: cs) n ∨ fault = .invalidHexEscape ∧ HexEscape ('\\' :: cs) n := by
  unfold Literal.readEscape at h
  split at h
  all_goals try cases h
  · next rest =>
    dsimp only at h
    split at h
    · cases h
    · cases h
      exact .inr ⟨rfl, .byte rest⟩
  · next rest =>
    dsimp only at h
    split at h
    · cases h
      exact .inl ⟨['\\', 'u'], _, rfl, rfl⟩
    · next hlen =>
      split at h
      · cases h
      · cases h
        obtain ⟨more, hmore⟩ := exists_takeWhile_ne hlen
        refine .inr ⟨rfl, ?_⟩
        have hbraced := HexEscape.braced (rest.takeWhile (· != '\x7d')) more
        rwa [← hmore] at hbraced
  · next rest _ =>
    dsimp only at h
    split at h
    · cases h
    · cases h
      refine .inl ⟨'\\' :: 'u' :: rest.take 4, rest.drop 4, ?_, ?_⟩
      · rw [List.cons_append, List.cons_append, List.take_append_drop]
      · have hback : '\\'.utf8Size = 1 := rfl
        have hu : 'u'.utf8Size = 1 := rfl
        simp only [byteLength_cons, hback, hu]
        omega

theorem unescapeFrom_error {offset : Nat} (h : Literal.unescapeFrom size offset cs = .error e) :
    e.Placed offset cs := by
  fun_induction Literal.unescapeFrom size offset cs with
  | case1 => cases h
  | case2 => cases h
  | case3 size offset cs fault width herror =>
    cases h
    exact ⟨[], _, rfl, rfl, readEscape_error herror⟩
  | case4 size offset cs c n hok ih =>
    have hmore := ih (Except.map_eq_error h)
    rw [Nat.add_assoc] at hmore
    have hplaced := LexError.Placed.append_right (a := '\\' :: cs.take n) hmore
    rwa [List.cons_append, List.take_append_drop] at hplaced
  | case5 size offset c cs hc ih =>
    have hmore := ih (Except.map_eq_error h)
    exact LexError.Placed.append_right (a := [c]) (by simpa using hmore)

/-! ### Tokens -/

theorem base_error (h : base pos cs = .error e) : e.Placed pos cs := by
  unfold base at h
  split at h
  · cases h
  · next c cs =>
    -- a fault that covers the first character
    have hfirst : ∀ fault, LexError.Placed ⟨fault, ⟨pos, c.utf8Size⟩⟩ pos (c :: cs) := fun fault =>
      .front (a := [c]) (by simp)
    split at h
    · cases h
    · split at h
      · cases h
      · split at h
        · next hquote =>
          split at h
          · cases h
            exact hfirst _
          · next n _ =>
            have hbody := unescapeFrom_error (Except.map_eq_error (Except.map_eq_error h))
            have hone : c.utf8Size = 1 := by
              rcases hquote with rfl | rfl <;> rfl
            have hplaced := hbody.append_left (cs.drop n)
            rw [List.take_append_drop] at hplaced
            exact LexError.Placed.append_right (a := [c]) (by simpa [hone] using hplaced)
        · split at h
          · cases h
          · cases h
            exact hfirst _

theorem next_error {before last : Option Token.Kind} (h : Lexed.next scan pos before last cs = .error e) :
    e.Placed pos cs := by
  unfold Lexed.next at h
  split at h
  · cases h
  · split at h
    · next rest =>
      split at h
      · unfold regex at h
        split at h
        · cases h
          exact .front (a := ['/']) rfl
        · cases h
      · exact base_error h
    · exact base_error h

theorem Gap.skipFrom_error (h : Gap.skipFrom size pos cs = .error e) : e.Placed pos cs := by
  fun_induction Gap.skipFrom size pos cs with
  | case1 => cases h
  | case2 size pos cs body =>
    rename_i ih
    have hmore := ih (Except.map_eq_error h)
    have hbody : body ++ cs.drop body.length = cs := List.prefix_iff_eq_append.mp (List.takeWhile_prefix _)
    have hplaced := LexError.Placed.append_right (a := '/' :: '/' :: body) (by
      have hslash : '/'.utf8Size = 1 := rfl
      rw [byteLength_cons, byteLength_cons, hslash, ← Nat.add_assoc, ← Nat.add_assoc]
      exact hmore)
    rwa [List.cons_append, List.cons_append, hbody] at hplaced
  | case3 size pos cs hnone =>
    cases h
    exact .front (a := ['/', '*']) rfl
  | case4 size pos cs n hn body =>
    rename_i ih
    have hmore := ih (Except.map_eq_error h)
    have hcs : '/' :: '*' :: (body ++ ['*', '/']) ++ cs.drop (n + 2) = '/' :: '*' :: cs := by
      simpa using (eq_of_blockBody? hn).symm
    rw [← hcs]
    refine LexError.Placed.append_right ?_
    have hwidth : byteLength ('/' :: '*' :: (body ++ ['*', '/'])) = 4 + byteLength body := by
      have hslash : '/'.utf8Size = 1 := rfl
      have hstar : '*'.utf8Size = 1 := rfl
      simp only [byteLength_cons, byteLength_append, byteLength_nil, hslash, hstar]
      omega
    rw [hwidth, ← Nat.add_assoc]
    exact hmore
  | case5 size pos c cs _ _ _ ih =>
    exact LexError.Placed.append_right (a := [c]) (by simpa using ih (Except.map_eq_error h))
  | case6 size pos c cs _ _ _ _ ih =>
    exact LexError.Placed.append_right (a := [c]) (by simpa using ih h)
  | case7 => cases h
  | case8 => cases h

/-! ### Sources -/

theorem Lexed.readFrom_error {before last : Option Token.Kind}
    (h : Lexed.readFrom scan size pos before last cs = .error e) : e.Placed pos cs := by
  induction size generalizing pos before last cs with
  | zero => cases h
  | succ size ih =>
    rw [Lexed.readFrom] at h
    cases hskip : Gap.skip pos cs with
    | error e' =>
      rw [hskip] at h
      cases h
      exact Gap.skipFrom_error hskip
    | ok gap =>
      obtain ⟨skipped, hcs, hpos, -⟩ := Gap.cut_of_skipFrom hskip
      rw [hskip] at h
      change (if gap.rest.isEmpty then Except.ok _ else _) = _ at h
      split at h
      · cases h
      · rw [hcs]
        refine LexError.Placed.append_right ?_
        rw [← hpos]
        change (Lexed.next scan gap.pos before last gap.rest >>= _) = _ at h
        cases hnext : Lexed.next scan gap.pos before last gap.rest with
        | error e' =>
          rw [hnext] at h
          cases h
          exact next_error hnext
        | ok r =>
          obtain ⟨k, n⟩ := r
          rw [hnext] at h
          change (Lexed.readFrom scan size (gap.pos + byteLength (gap.rest.take n)) last (some k)
            (gap.rest.drop n) >>= _) = _ at h
          cases hmore : Lexed.readFrom scan size (gap.pos + byteLength (gap.rest.take n)) last (some k)
            (gap.rest.drop n) with
          | ok more =>
            rw [hmore] at h
            cases h
          | error e' =>
            rw [hmore] at h
            cases h
            have hplaced := LexError.Placed.append_right (ih hmore)
            rwa [List.take_append_drop] at hplaced

/-- The fault of a source lies in it, except for the end of a hexadecimal escape. -/
theorem Lexed.read_error {source : String} (h : Lexed.read scan source = .error e) :
    e.span.Within source.toList ∨ e.fault = .invalidHexEscape ∧ ∃ before after,
      source.toList = before ++ after ∧ e.span.offset = byteLength before ∧ HexEscape after e.span.length := by
  obtain ⟨before, after, hsource, hoffset, hlength⟩ := Lexed.readFrom_error h
  rw [Nat.zero_add] at hoffset
  rcases hlength with ⟨covered, rest, hafter, hlength⟩ | ⟨hfault, hescape⟩
  · rw [Nat.zero_add] at hlength
    have hstop : e.span.stop = byteLength (before ++ covered) := by
      rw [byteLength_append, ← hoffset, ← hlength]
      rfl
    refine .inl ⟨?_, ⟨before, after, hsource, ?_⟩, ⟨before ++ covered, rest, ?_, ?_⟩⟩
    · rw [hstop, hsource, hafter, byteLength_append, byteLength_append, byteLength_append]
      omega
    · rw [Nat.zero_add, hoffset]
    · rw [hsource, hafter, List.append_assoc]
    · rw [Nat.zero_add, hstop]
  · exact .inr ⟨hfault, before, after, hsource, hoffset, hescape⟩

end LabelWeaver
