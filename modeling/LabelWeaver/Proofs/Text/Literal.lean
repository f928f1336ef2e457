import LabelWeaver.Token.Lexeme

/-! A text written as a literal is read as the text: the closing quote is the first one that ends the
    body, and every escape that is written is read as the character that it stands for. -/

namespace LabelWeaver.Literal

open Lexeme

/-- The character stands for itself between double quotes. -/
def isPlain (c : Char) : Bool := c != '"' && c != '\\' && c != '\n' && c != '\r'

theorem stringBody?_plain {c : Char} (h : isPlain c = true) (rest : List Char) :
    stringBody? '"' (c :: rest) = (stringBody? '"' rest).map (· + 1) := by
  simp only [isPlain, Bool.and_eq_true, bne_iff_ne] at h
  obtain ⟨⟨⟨hquote, hbackslash⟩, hnewline⟩, hreturn⟩ := h
  rw [stringBody?, if_neg hquote, if_neg]
  · rintro (hc | hc | hc)
    · exact hnewline hc
    · exact hreturn hc
    · exact hbackslash hc
  · exact fun _ hc => absurd hc hbackslash
  · exact fun _ _ hc => absurd hc hbackslash

/-- A backslash takes the next character along. -/
theorem stringBody?_backslash {c : Char} (hc : c ≠ '\r') (rest : List Char) :
    stringBody? '"' ('\\' :: c :: rest) = (stringBody? '"' rest).map (· + 2) := by
  rw [stringBody?]
  exact fun _ h => absurd h hc

/-- What is behind the backslash stands for the character `c`, whatever follows. -/
structure Escapes (c : Char) (e : List Char) : Prop where
  reads : ∀ rest, readEscape (e ++ rest) = .ok (some c, e.length)
  body : ∀ rest, stringBody? '"' ('\\' :: e ++ rest) = (stringBody? '"' rest).map (· + (e.length + 1))

namespace Escapes

variable {c d : Char}

theorem short (hd : d ≠ '\r') (h : ∀ rest, readEscape (d :: rest) = .ok (some c, 1)) : Escapes c [d] where
  reads := h
  body := stringBody?_backslash hd

/-- An escape that goes on with digits. -/
theorem long {ds : List Char} (hd : d ≠ '\r') (hds : ds.all isPlain = true)
    (h : ∀ rest, readEscape (d :: (ds ++ rest)) = .ok (some c, ds.length + 1)) : Escapes c (d :: ds) where
  reads := h
  body rest := by
    have hdigits : stringBody? '"' (ds ++ rest) = (stringBody? '"' rest).map (· + ds.length) := by
      clear h
      induction ds with
      | nil => simp
      | cons a ds ih =>
        simp only [List.all_cons, Bool.and_eq_true] at hds
        rw [List.cons_append, stringBody?_plain hds.1, ih hds.2, Option.map_map]
        rfl
    rw [List.cons_append, List.cons_append, stringBody?_backslash hd, hdigits, Option.map_map]
    rfl

end Escapes

/-- The characters that are written by their number in hexadecimal digits. -/
theorem hexChar?_hexDigit : ∀ n < 0x80, hexChar? [hexDigit (n / 16), hexDigit (n % 16)] = some (Char.ofNat n) := by
  decide

theorem isPlain_hexDigit : ∀ n < 0x10, isPlain (hexDigit n) = true := by
  decide

theorem Escapes.hex {c : Char} (hc : c.toNat < 0x80) :
    Escapes c ['x', hexDigit (c.toNat / 16), hexDigit (c.toNat % 16)] := by
  refine .long (by decide) ?_ fun rest => ?_
  · rw [List.all_cons, List.all_cons, isPlain_hexDigit _ (by omega), isPlain_hexDigit _ (by omega)]
    rfl
  · have hchar := hexChar?_hexDigit c.toNat hc
    rw [Char.ofNat_toNat] at hchar
    rw [List.cons_append, readEscape]
    simp only [List.cons_append, List.nil_append, List.take_succ_cons, List.take_zero, hchar]
    rfl

/-- A character is written as itself, or as an escape that stands for it. -/
theorem escapeChar_eq (c : Char) (next : Option Char) :
    (isPlain c = true ∧ escapeChar c next = [c]) ∨ ∃ e, Escapes c e ∧ escapeChar c next = '\\' :: e := by
  unfold escapeChar
  split
  · exact .inr ⟨_, .short (by decide) fun _ => rfl, rfl⟩
  · exact .inr ⟨_, .short (by decide) fun _ => rfl, rfl⟩
  · exact .inr ⟨_, .short (by decide) fun _ => rfl, rfl⟩
  · exact .inr ⟨_, .short (by decide) fun _ => rfl, rfl⟩
  · exact .inr ⟨_, .short (by decide) fun _ => rfl, rfl⟩
  · exact .inr ⟨_, .short (by decide) fun _ => rfl, rfl⟩
  · exact .inr ⟨_, .short (by decide) fun _ => rfl, rfl⟩
  · exact .inr ⟨_, .short (by decide) fun _ => rfl, rfl⟩
  · exact .inr ⟨_, .long (by decide) (by decide) fun _ => rfl, rfl⟩
  · exact .inr ⟨_, .long (by decide) (by decide) fun _ => rfl, rfl⟩
  · next hquote hbackslash hnewline hreturn _ _ _ _ _ _ =>
    split
    · next hnul =>
      have hc : c = '\x00' := by
        rw [Bool.and_eq_true, beq_iff_eq] at hnul
        exact hnul.1
      rw [hc]
      exact .inr ⟨_, .short (by decide) fun _ => rfl, rfl⟩
    · split
      · next hlow =>
        have hc : c.toNat < 0x80 := by
          rw [Bool.or_eq_true, decide_eq_true_eq, beq_iff_eq] at hlow
          rcases hlow with hlow | rfl
          · omega
          · decide
        exact .inr ⟨_, .hex hc, rfl⟩
      · refine .inl ⟨?_, rfl⟩
        simp only [isPlain, Bool.and_eq_true, bne_iff_ne]
        exact ⟨⟨⟨hquote, hbackslash⟩, hnewline⟩, hreturn⟩

/-- The body of a literal ends at the closing quote. -/
theorem stringBody?_escape (cs rest : List Char) :
    stringBody? '"' (escape cs ++ '"' :: rest) = some (escape cs).length := by
  induction cs with
  | nil => rfl
  | cons c cs ih =>
    rw [escape, List.append_assoc, List.length_append]
    rcases escapeChar_eq c cs.head? with ⟨hplain, hc⟩ | ⟨e, he, hc⟩
    · rw [hc, List.singleton_append, stringBody?_plain hplain, ih, Nat.add_comm]
      rfl
    · rw [hc, he.body, ih, List.length_cons, Nat.add_comm (e.length + 1)]
      rfl

theorem unescapeFrom_escape {size : Nat} (cs : List Char) (offset : Nat) (hsize : (escape cs).length ≤ size) :
    unescapeFrom size offset (escape cs) = .ok cs := by
  induction cs generalizing size offset with
  | nil => cases size <;> rfl
  | cons c cs ih =>
    rw [escape, List.length_append] at hsize
    rw [escape]
    rcases escapeChar_eq c cs.head? with ⟨hplain, hc⟩ | ⟨e, he, hc⟩
    · rw [hc, List.length_singleton] at hsize
      obtain ⟨size, rfl⟩ : ∃ n, size = n + 1 := ⟨size - 1, by omega⟩
      rw [hc, List.singleton_append, unescapeFrom, ih _ (by omega)]
      · rfl
      · rintro rfl
        cases hplain
    · rw [hc, List.length_cons] at hsize
      obtain ⟨size, rfl⟩ : ∃ n, size = n + 1 := ⟨size - 1, by omega⟩
      rw [hc, List.cons_append, unescapeFrom, he.reads]
      dsimp only
      rw [List.drop_left, ih _ (by omega)]
      rfl

/-- A literal is read as the text that it was written for. -/
theorem unescape_escape (offset : Nat) (cs : List Char) : unescape offset (escape cs) = .ok (String.ofList cs) := by
  rw [unescape, unescapeFrom_escape cs offset (Nat.le_refl _)]
  rfl

end LabelWeaver.Literal
