import Mathlib
import LabelWeaver.Proofs.Text.Literal

/-! What the escapes of a string literal mean in the host language, and how far the reading of a literal agrees
    with it. The language divides the body of a literal into characters and escapes. Each of them stands
    for at most one code, and the value of the literal is the sequence of the UTF-16 units of these codes. A text holds
    characters and not units, so a surrogate that is not paired is held as U+FFFD.

    Every body whose escapes are well formed is read, and it is read as its value unless two escapes make up a
    surrogate pair, an escape is octal, or an escaped line break is U+2028 or U+2029. -/

namespace LabelWeaver.Literal

variable {digits cs rest body : List Char} {c : Char} {size offset n : Nat}

/-! ### Surrogates -/

def isHigh (u : Nat) : Bool := 0xD800 ≤ u && u < 0xDC00

def isLow (u : Nat) : Bool := 0xDC00 ≤ u && u < 0xE000

/-- The UTF-16 units of a code. -/
def units (code : Nat) : List Nat :=
  if code < 0x10000 then [code] else [0xD800 + (code - 0x10000) / 0x400, 0xDC00 + (code - 0x10000) % 0x400]

/-- The text of a sequence of UTF-16 units. Surrogates that are not paired stand for U+FFFD. -/
def ofUnits : List Nat → List Char
  | [] => []
  | [u] => [charOfCode u]
  | u :: v :: us =>
    if isHigh u && isLow v then charOfCode (0x10000 + (u - 0xD800) * 0x400 + (v - 0xDC00)) :: ofUnits us
    else charOfCode u :: ofUnits (v :: us)

/-- A high surrogate is followed by a low one. -/
def IsPair (a b : Nat) : Prop := isHigh a = true ∧ isLow b = true

instance (a b : Nat) : Decidable (IsPair a b) := inferInstanceAs (Decidable (_ ∧ _))

theorem ofUnits_cons_of_not_isHigh {u : Nat} (hu : isHigh u = false) (us : List Nat) :
    ofUnits (u :: us) = charOfCode u :: ofUnits us := by
  cases us with
  | nil => rfl
  | cons v us => rw [ofUnits, hu, Bool.false_and, if_neg Bool.false_ne_true]

/-- A code that is no high surrogate stands for its character, whatever follows. -/
theorem ofUnits_units_append {a : Nat} (ha : a < 0x110000) (hhigh : isHigh a = false) (us : List Nat) :
    ofUnits (units a ++ us) = charOfCode a :: ofUnits us := by
  rw [units]
  split
  · exact ofUnits_cons_of_not_isHigh hhigh us
  · next hbig =>
    have hpair : (isHigh (0xD800 + (a - 0x10000) / 0x400) && isLow (0xDC00 + (a - 0x10000) % 0x400)) = true := by
      simp only [isHigh, isLow, Bool.and_eq_true, decide_eq_true_eq]
      omega
    have hcode : 0x10000 + (0xD800 + (a - 0x10000) / 0x400 - 0xD800) * 0x400 +
        (0xDC00 + (a - 0x10000) % 0x400 - 0xDC00) = a := by omega
    rw [List.cons_append, List.singleton_append, ofUnits, if_pos hpair, hcode]

theorem lt_of_isHigh {a : Nat} (h : isHigh a = true) : a < 0x10000 := by
  simp only [isHigh, Bool.and_eq_true, decide_eq_true_eq] at h
  omega

/-- The units of a code start with a low surrogate only if the code is one. -/
theorem units_eq_cons {b : Nat} (hb : b < 0x110000) :
    ∃ u us, units b = u :: us ∧ isLow u = isLow b ∧ (isLow b = true → u = b ∧ us = []) := by
  rw [units]
  split
  · exact ⟨b, [], rfl, rfl, fun _ => ⟨rfl, rfl⟩⟩
  · next hbig =>
    have hnot : isLow b = false := by
      simp only [isLow, Bool.and_eq_false_iff, decide_eq_false_iff_not]
      omega
    refine ⟨_, _, rfl, ?_, fun h => absurd h (by rw [hnot]; exact Bool.false_ne_true)⟩
    rw [hnot]
    simp only [isLow, Bool.and_eq_false_iff, decide_eq_false_iff_not]
    omega

/-- Codes stand for their characters one by one, except that a surrogate pair stands for one character. -/
theorem ofUnits_flatMap_units : ∀ {codes : List Nat}, (∀ a ∈ codes, a < 0x110000) →
    (codes.IsChain (fun a b => ¬ IsPair a b) ∧ ofUnits (codes.flatMap units) = codes.map charOfCode) ∨
      (¬ codes.IsChain (fun a b => ¬ IsPair a b) ∧ (ofUnits (codes.flatMap units)).length < codes.length)
  | [], _ => .inl ⟨.nil, rfl⟩
  | [a], h => by
    refine .inl ⟨.singleton a, ?_⟩
    have ha := h a List.mem_cons_self
    cases hhigh : isHigh a with
    | false => simpa [ofUnits] using ofUnits_units_append ha hhigh []
    | true => simp [units, lt_of_isHigh hhigh, ofUnits]
  | a :: b :: codes, h => by
    obtain ⟨ha, hcodes⟩ := List.forall_mem_cons.mp h
    obtain ⟨hb, hcodes'⟩ := List.forall_mem_cons.mp hcodes
    by_cases hpair : IsPair a b
    · refine .inr ⟨fun hchain => (List.isChain_cons_cons.mp hchain).1 hpair, ?_⟩
      obtain ⟨u, us, hus, -, hlow⟩ := units_eq_cons hb
      obtain ⟨rfl, rfl⟩ := hlow hpair.2
      have hlength : (ofUnits (codes.flatMap units)).length ≤ codes.length := by
        rcases ofUnits_flatMap_units hcodes' with ⟨-, heq⟩ | ⟨-, hlt⟩
        · simp [heq]
        · omega
      have hunits : units a = [a] := if_pos (lt_of_isHigh hpair.1)
      rw [List.flatMap_cons, List.flatMap_cons, hunits, hus, List.singleton_append, List.singleton_append, ofUnits,
        if_pos (by rw [hpair.1, hpair.2]; rfl)]
      simp only [List.length_cons]
      omega
    · have hcons : ofUnits ((a :: b :: codes).flatMap units) = charOfCode a :: ofUnits ((b :: codes).flatMap units) := by
        rw [List.flatMap_cons]
        cases hhigh : isHigh a with
        | false => exact ofUnits_units_append ha hhigh _
        | true =>
          obtain ⟨u, us, hus, hlow, -⟩ := units_eq_cons hb
          have hnot : isLow u = false := by
            rw [hlow]
            exact Bool.eq_false_iff.mpr fun h => hpair ⟨hhigh, h⟩
          have hunits : units a = [a] := if_pos (lt_of_isHigh hhigh)
          rw [hunits, List.flatMap_cons, hus, List.singleton_append, List.cons_append, ofUnits, hnot, Bool.and_false,
            if_neg Bool.false_ne_true]
      rw [hcons, List.isChain_cons_cons]
      rcases ofUnits_flatMap_units hcodes with ⟨hchain, heq⟩ | ⟨hchain, hlt⟩
      · exact .inl ⟨⟨hpair, hchain⟩, by rw [heq]; rfl⟩
      · refine .inr ⟨fun h => hchain h.2, ?_⟩
        simpa using hlt

/-! ### Hexadecimal numbers -/

/-- The hexadecimal digits in the order of their values. -/
def hexDigits : List Char := "0123456789abcdef".toList

/-- Digits may be written with capital letters. -/
def isHex (c : Char) : Bool := hexDigits.contains c.toLower

/-- The number that is written with hexadecimal digits. -/
def hexCode (digits : List Char) : Nat := digits.foldl (fun n c => 16 * n + hexDigits.idxOf c.toLower) 0

theorem hexValue?_eq (c : Char) : hexValue? c = if isHex c then some (hexDigits.idxOf c.toLower) else none := by
  have hascii : ∀ n < 128, hexValue? (Char.ofNat n) =
      if isHex (Char.ofNat n) then some (hexDigits.idxOf (Char.ofNat n).toLower) else none := by
    decide +kernel
  by_cases hc : c.toNat < 128
  · rw [← Char.ofNat_toNat c]
    exact hascii _ hc
  · have hlow : ∀ d : Char, d.toNat < 128 → ¬ c ≤ d := by
      intro d hd hle
      have : c.toNat ≤ d.toNat := hle
      omega
    have hdigit : c.isDigit = false := by
      rw [Char.isDigit, Bool.and_eq_false_iff, decide_eq_false_iff_not, decide_eq_false_iff_not]
      exact .inr (hlow '9' (by decide))
    have hlower : c.toLower = c := by
      rw [Char.toLower]
      exact dif_neg fun h => hlow 'Z' (by decide) h.2
    have hhex : isHex c = false := by
      rw [isHex, hlower, List.contains_eq_any_beq, List.any_eq_false]
      have hsmall : hexDigits.all (·.toNat < 128) = true := by decide
      intro d hd
      rw [beq_iff_eq]
      rintro rfl
      exact hc (of_decide_eq_true (List.all_eq_true.mp hsmall _ hd))
    rw [hexValue?, hdigit, hhex, if_neg Bool.false_ne_true, if_neg Bool.false_ne_true, if_neg, if_neg]
    · exact fun h => hlow 'F' (by decide) h.2
    · exact fun h => hlow 'f' (by decide) h.2

theorem hexNumber?_eq (digits : List Char) :
    hexNumber? digits = if digits.all isHex then some (hexCode digits) else none := by
  have hfrom : ∀ n, digits.foldlM (fun n c => (hexValue? c).map (16 * n + ·)) n =
      if digits.all isHex then some (digits.foldl (fun n c => 16 * n + hexDigits.idxOf c.toLower) n) else none := by
    induction digits with
    | nil => exact fun n => rfl
    | cons c digits ih =>
      intro n
      rw [List.foldlM_cons, hexValue?_eq, List.all_cons]
      cases hc : isHex c with
      | false => rfl
      | true => exact ih _
  exact hfrom 0

/-- A hexadecimal escape is read if it has digits, all of them hexadecimal, and a number of at most 32 bits. -/
theorem hexChar?_eq_some_iff :
    hexChar? digits = some c ↔
      digits ≠ [] ∧ digits.all isHex = true ∧ hexCode digits < Nat.pow 2 32 ∧ c = charOfCode (hexCode digits) := by
  cases digits with
  | nil => exact ⟨nofun, fun h => absurd rfl h.1⟩
  | cons d digits =>
    rw [hexChar?, hexNumber?_eq]
    · cases hhex : (d :: digits).all isHex with
      | false => exact ⟨nofun, fun h => absurd h.2.1 Bool.false_ne_true⟩
      | true =>
        by_cases hsize : hexCode (d :: digits) < Nat.pow 2 32
        · simp [hsize, eq_comm]
        · simp [hsize]
    · nofun

/-- A number with digits below a base is below the power of the base. -/
theorem foldl_digits_lt {base : Nat} {digit : Char → Nat} (h : ∀ d ∈ digits, digit d < base) :
    digits.foldl (fun n d => base * n + digit d) 0 < base ^ digits.length := by
  have hfrom : ∀ n, digits.foldl (fun n d => base * n + digit d) n < (n + 1) * base ^ digits.length := by
    induction digits with
    | nil => simp
    | cons d digits ih =>
      intro n
      obtain ⟨hd, hdigits⟩ := List.forall_mem_cons.mp h
      calc digits.foldl _ (base * n + digit d)
          < (base * n + digit d + 1) * base ^ digits.length := ih hdigits _
        _ ≤ (base * n + base) * base ^ digits.length := Nat.mul_le_mul_right _ (by omega)
        _ = (n + 1) * base ^ (digits.length + 1) := by
          rw [Nat.pow_succ, Nat.mul_comm (base ^ _) base, ← Nat.mul_assoc, Nat.add_mul n 1 base, Nat.mul_comm n base,
            Nat.one_mul]
  rw [← Nat.one_mul (base ^ digits.length)]
  exact hfrom 0

/-- The number of a few digits has at most 32 bits. -/
theorem hexCode_lt_of_length_le (h : digits.all isHex = true) (hlength : digits.length ≤ 4) :
    hexCode digits < 0x10000 :=
  Nat.lt_of_lt_of_le (foldl_digits_lt fun d hd =>
    List.idxOf_lt_length_of_mem (List.contains_iff_mem.mp (List.all_eq_true.mp h d hd)))
    (Nat.pow_le_pow_right (by decide) hlength)

/-! ### The parts of a body -/

/-- The parts of a body. Digits of an escape are what stands in their place. -/
inductive Part
  | char (c : Char)
  /-- A backslash and a character. -/
  | single (c : Char)
  /-- A backslash at the end of a line, and the last character of the line break. -/
  | lineBreak (c : Char)
  | octal (digits : List Char)
  /-- `\x` and the next two characters. -/
  | hex (digits : List Char)
  /-- `\u` and the next four characters. -/
  | unicode (digits : List Char)
  /-- `\u` and what stands between braces. -/
  | braced (digits : List Char)
  /-- `\u` and an opening brace that is not closed. -/
  | unclosed
  deriving DecidableEq, Repr

def isOctal (c : Char) : Bool := '0' ≤ c && c ≤ '7'

/-- The digits behind the first one of an octal escape. Its number is at most 377. -/
def octalTail (first : Char) (cs : List Char) : List Char :=
  (cs.takeWhile isOctal).take (if first ≤ '3' then 2 else 1)

def isLineEnd (c : Char) : Bool := c == '\n' || c == '\r' || c == '\u2028' || c == '\u2029'

/-- The characters and escapes of a body. -/
def parts : List Char → List Part
  | [] => []
  | '\\' :: '\r' :: '\n' :: cs => .lineBreak '\n' :: parts cs
  | '\\' :: 'x' :: cs => .hex (cs.take 2) :: parts (cs.drop 2)
  | '\\' :: 'u' :: '\x7b' :: cs =>
    if cs.contains '\x7d' then
      .braced (cs.takeWhile (· != '\x7d')) :: parts (cs.drop ((cs.takeWhile (· != '\x7d')).length + 1))
    else [.unclosed]
  | '\\' :: 'u' :: cs => .unicode (cs.take 4) :: parts (cs.drop 4)
  | '\\' :: c :: cs =>
    if isLineEnd c then .lineBreak c :: parts cs
    else if isOctal c then .octal (c :: octalTail c cs) :: parts (cs.drop (octalTail c cs).length)
    else .single c :: parts cs
  | ['\\'] => []
  | c :: cs => .char c :: parts cs
  termination_by cs => cs.length

namespace Part

/-- The code of a character behind a backslash. -/
def singleCode (c : Char) : Nat :=
  match c with
  | 'b' => 0x08
  | 't' => 0x09
  | 'n' => 0x0A
  | 'v' => 0x0B
  | 'f' => 0x0C
  | 'r' => 0x0D
  | c => c.toNat

/-- The code that a part stands for. -/
def code? : Part → Option Nat
  | char c => some c.toNat
  | single c => some (singleCode c)
  | octal digits => some (digits.foldl (fun n d => 8 * n + (d.toNat - 48)) 0)
  | hex digits | unicode digits | braced digits => some (hexCode digits)
  | lineBreak _ | unclosed => none

/-- Hexadecimal escapes have two digits, four, or any number between braces with a code that exists. -/
def WellFormed : Part → Prop
  | hex digits => digits.length = 2 ∧ digits.all isHex = true
  | unicode digits => digits.length = 4 ∧ digits.all isHex = true
  | braced digits => digits ≠ [] ∧ digits.all isHex = true ∧ hexCode digits ≤ 0x10FFFF
  | unclosed => False
  | _ => True

/-- Escapes that are read though they are not well formed: those that the end of the body cuts short, and codes
    that do not exist but have at most 32 bits. -/
def Tolerated : Part → Prop
  | hex digits => digits.length = 1 ∧ digits.all isHex = true
  | unicode digits => 0 < digits.length ∧ digits.length < 4 ∧ digits.all isHex = true
  | braced digits => digits.all isHex = true ∧ 0x10FFFF < hexCode digits ∧ hexCode digits < Nat.pow 2 32
  | _ => False

/-- Parts that are read as they are meant. -/
def Faithful : Part → Prop
  | lineBreak c => c ≠ '\u2028' ∧ c ≠ '\u2029'
  | octal digits => digits = ['0']
  | _ => True

/-- What a part is read as. -/
def read : Part → List Char
  | char c => [c]
  | single c => [charOfCode (singleCode c)]
  | octal [] => []
  | octal (d :: digits) => (if d = '0' then '\x00' else d) :: digits
  | hex digits | unicode digits | braced digits => [charOfCode (hexCode digits)]
  | lineBreak c => if c = '\u2028' ∨ c = '\u2029' then [c] else []
  | unclosed => []

def Accepted (p : Part) : Prop := p.WellFormed ∨ p.Tolerated

instance : DecidablePred WellFormed
  | hex _ | unicode _ => inferInstanceAs (Decidable (_ ∧ _))
  | braced _ => inferInstanceAs (Decidable (_ ∧ _ ∧ _))
  | unclosed => isFalse id
  | char _ | single _ | lineBreak _ | octal _ => isTrue trivial

instance : DecidablePred Faithful
  | lineBreak _ => inferInstanceAs (Decidable (_ ∧ _))
  | octal digits => inferInstanceAs (Decidable (digits = _))
  | char _ | single _ | hex _ | unicode _ | braced _ | unclosed => isTrue trivial

theorem accepted_hex_iff (hlength : digits.length ≤ 2) :
    hexChar? digits = some c ↔ (hex digits).Accepted ∧ c = charOfCode (hexCode digits) := by
  rw [hexChar?_eq_some_iff, ← List.length_pos_iff]
  constructor
  · rintro ⟨hpos, hhex, -, hc⟩
    rcases (by omega : digits.length = 2 ∨ digits.length = 1) with h | h
    · exact ⟨.inl ⟨h, hhex⟩, hc⟩
    · exact ⟨.inr ⟨h, hhex⟩, hc⟩
  · rintro ⟨⟨h, hhex⟩ | ⟨h, hhex⟩, hc⟩
    · exact ⟨by omega, hhex, Nat.lt_trans (hexCode_lt_of_length_le hhex (by omega)) (by decide), hc⟩
    · exact ⟨by omega, hhex, Nat.lt_trans (hexCode_lt_of_length_le hhex (by omega)) (by decide), hc⟩

theorem accepted_unicode_iff (hlength : digits.length ≤ 4) :
    hexChar? digits = some c ↔ (unicode digits).Accepted ∧ c = charOfCode (hexCode digits) := by
  rw [hexChar?_eq_some_iff, ← List.length_pos_iff]
  constructor
  · rintro ⟨hpos, hhex, -, hc⟩
    rcases (by omega : digits.length = 4 ∨ digits.length < 4) with h | h
    · exact ⟨.inl ⟨h, hhex⟩, hc⟩
    · exact ⟨.inr ⟨hpos, h, hhex⟩, hc⟩
  · rintro ⟨⟨h, hhex⟩ | ⟨hpos, h, hhex⟩, hc⟩
    · exact ⟨by omega, hhex, Nat.lt_trans (hexCode_lt_of_length_le hhex (by omega)) (by decide), hc⟩
    · exact ⟨hpos, hhex, Nat.lt_trans (hexCode_lt_of_length_le hhex (by omega)) (by decide), hc⟩

theorem accepted_braced_iff :
    hexChar? digits = some c ↔ (braced digits).Accepted ∧ c = charOfCode (hexCode digits) := by
  rw [hexChar?_eq_some_iff]
  constructor
  · rintro ⟨hne, hhex, hsize, hc⟩
    rcases Nat.lt_or_ge 0x10FFFF (hexCode digits) with h | h
    · exact ⟨.inr ⟨hhex, h, hsize⟩, hc⟩
    · exact ⟨.inl ⟨hne, hhex, h⟩, hc⟩
  · rintro ⟨⟨hne, hhex, h⟩ | ⟨hhex, h, hsize⟩, hc⟩
    · exact ⟨hne, hhex, Nat.lt_of_le_of_lt h (by decide), hc⟩
    · refine ⟨?_, hhex, hsize, hc⟩
      rintro rfl
      exact absurd h (by decide)

end Part

variable {p : Part}

/-! ### How parts are read -/

theorem charOfCode_toNat (c : Char) : charOfCode c.toNat = c := by
  rw [charOfCode, if_pos (show c.toNat.isValidChar from c.valid)]
  exact Char.ofNat_toNat c

/-- A backslash before a character that is neither the start of a number nor of a line break. -/
theorem readEscape_single (hx : c ≠ 'x') (hu : c ≠ 'u') (hn : c ≠ '\n') (hr : c ≠ '\r') :
    readEscape (c :: cs) = .ok (some (if c = '0' then '\x00' else charOfCode (Part.singleCode c)), 1) := by
  by_cases hc : c ∈ ['n', 't', 'r', 'b', 'f', 'v', '0']
  · simp only [List.mem_cons, List.not_mem_nil, or_false] at hc
    rcases hc with rfl | rfl | rfl | rfl | rfl | rfl | rfl <;> rfl
  · simp only [List.mem_cons, List.not_mem_nil, or_false, not_or] at hc
    have hcode : Part.singleCode c = c.toNat := by
      unfold Part.singleCode
      split <;> simp_all
    rw [if_neg hc.2.2.2.2.2.2, hcode, charOfCode_toNat]
    unfold readEscape
    split <;> simp_all

/-- A character that is no backslash stands for itself. -/
theorem unescapeFrom_char (hc : c ≠ '\\') :
    unescapeFrom (size + 1) offset (c :: cs) = (unescapeFrom size (offset + c.utf8Size) cs).map (c :: ·) := by
  rw [unescapeFrom]
  exact hc

theorem unescapeFrom_readEscape {c : Option Char} (h : readEscape cs = .ok (c, n)) :
    unescapeFrom (size + 1) offset ('\\' :: cs) =
      (unescapeFrom size (offset + 1 + byteLength (cs.take n)) (cs.drop n)).map (c.toList ++ ·) := by
  rw [unescapeFrom, h]

theorem unescapeFrom_plain {ds : List Char} (hds : ∀ d ∈ ds, d ≠ '\\') :
    unescapeFrom (size + ds.length) offset (ds ++ cs) =
      (unescapeFrom size (offset + byteLength ds) cs).map (ds ++ ·) := by
  induction ds generalizing offset with
  | nil =>
    change unescapeFrom size offset cs = (unescapeFrom size offset cs).map fun cs => cs
    cases unescapeFrom size offset cs <;> rfl
  | cons d ds ih =>
    obtain ⟨hd, hds⟩ := List.forall_mem_cons.mp hds
    rw [List.length_cons, ← Nat.add_assoc, List.cons_append, unescapeFrom_char hd, ih hds, byteLength_cons, Nat.add_assoc]
    cases unescapeFrom size (offset + (d.utf8Size + byteLength ds)) cs <;> rfl

/-- The body is read as its first part and what follows. -/
def Reads (p : Part) (rest body : List Char) : Prop :=
  ∀ size offset, body.length ≤ size →
    (p.Accepted → ∃ size' offset', rest.length ≤ size' ∧
      unescapeFrom size offset body = (unescapeFrom size' offset' rest).map (p.read ++ ·)) ∧
    (¬ p.Accepted → ∃ e, unescapeFrom size offset body = .error e)

theorem Reads.of_readEscape {c : Option Char} (hp : p.Accepted) (h : readEscape cs = .ok (c, n))
    (hread : p.read = c.toList) : Reads p (cs.drop n) ('\\' :: cs) := by
  intro size offset hsize
  obtain ⟨size, rfl⟩ := Nat.exists_eq_add_one_of_ne_zero (Nat.ne_zero_of_lt hsize)
  refine ⟨fun _ => ⟨size, _, ?_, by rw [hread]; exact unescapeFrom_readEscape h⟩, fun hnot => absurd hp hnot⟩
  simp at hsize ⊢
  omega

/-- An escape with digits is read if they are accepted. -/
theorem Reads.of_hexChar {e : LexFault × Nat}
    (hp : ∀ {c}, hexChar? digits = some c ↔ p.Accepted ∧ c = charOfCode (hexCode digits))
    (h : readEscape cs = match hexChar? digits with
      | some c => .ok (some c, n)
      | none => .error e) (hread : p.read = [charOfCode (hexCode digits)]) : Reads p (cs.drop n) ('\\' :: cs) := by
  cases hchar : hexChar? digits with
  | some c =>
    obtain ⟨haccepted, rfl⟩ := hp.mp hchar
    rw [hchar] at h
    exact .of_readEscape haccepted h hread
  | none =>
    have hnot : ¬ p.Accepted := fun haccepted => by
      have := hp.mpr ⟨haccepted, rfl⟩
      rw [hchar] at this
      cases this
    intro size offset hsize
    obtain ⟨size, rfl⟩ := Nat.exists_eq_add_one_of_ne_zero (Nat.ne_zero_of_lt hsize)
    refine ⟨fun haccepted => absurd haccepted hnot, fun _ => ?_⟩
    rw [hchar] at h
    rw [unescapeFrom, h]
    exact ⟨_, rfl⟩

theorem Reads.char (hc : c ≠ '\\') : Reads (.char c) rest (c :: rest) := by
  intro size offset hsize
  obtain ⟨size, rfl⟩ := Nat.exists_eq_add_one_of_ne_zero (Nat.ne_zero_of_lt hsize)
  exact ⟨fun _ => ⟨size, _, Nat.le_of_succ_le_succ hsize, unescapeFrom_char hc⟩, fun hnot => absurd (.inl trivial) hnot⟩

theorem Reads.octal {d : Char} {ds : List Char} (hd : isOctal d = true) (hds : ∀ d ∈ ds, isOctal d = true) :
    Reads (.octal (d :: ds)) rest ('\\' :: d :: (ds ++ rest)) := by
  have hne : ∀ {c e : Char}, isOctal c = true → isOctal e = false → c ≠ e := by
    rintro c e hc he rfl
    rw [hc] at he
    cases he
  have hread : readEscape (d :: (ds ++ rest)) = .ok (some (if d = '0' then '\x00' else d), 1) := by
    have hcode : Part.singleCode d = d.toNat := by
      unfold Part.singleCode
      split <;> first | cases hd | rfl
    rw [readEscape_single (hne hd rfl) (hne hd rfl) (hne hd rfl) (hne hd rfl), hcode, charOfCode_toNat]
  intro size offset hsize
  refine ⟨fun _ => ?_, fun hnot => absurd (.inl trivial) hnot⟩
  simp only [List.length_cons, List.length_append] at hsize
  obtain ⟨size, rfl⟩ : ∃ n, size = n + ds.length + 1 := ⟨size - ds.length - 1, by omega⟩
  rw [unescapeFrom_readEscape hread, List.drop_one, List.tail_cons, unescapeFrom_plain fun e he => hne (hds e he) rfl]
  refine ⟨size, offset + 1 + byteLength [d] + byteLength ds, by omega, ?_⟩
  change Except.map _ (Except.map _ (unescapeFrom size (offset + 1 + byteLength [d] + byteLength ds) rest)) = _
  cases unescapeFrom size (offset + 1 + byteLength [d] + byteLength ds) rest <;> rfl

theorem length_takeWhile_eq_iff : (cs.takeWhile (· != c)).length = cs.length ↔ cs.contains c = false := by
  induction cs with
  | nil => simp
  | cons d cs ih =>
    by_cases hd : d = c
    · simp [hd]
    · simpa [hd, Ne.symm hd] using ih

/-- A body is read as its first part and the others. -/
theorem Reads.unescapeFrom_eq_ok_iff {ps : List Part} (hreads : Reads p rest body)
    (ih : ∀ {size offset cs}, rest.length ≤ size → (unescapeFrom size offset rest = .ok cs ↔
      (∀ q ∈ ps, q.Accepted) ∧ cs = ps.flatMap Part.read))
    (hsize : body.length ≤ size) :
    unescapeFrom size offset body = .ok cs ↔ (∀ q ∈ p :: ps, q.Accepted) ∧ cs = (p :: ps).flatMap Part.read := by
  obtain ⟨haccepted, hrejected⟩ := hreads size offset hsize
  rw [List.forall_mem_cons, List.flatMap_cons]
  by_cases hp : p.Accepted
  · obtain ⟨size', offset', hsize', heq⟩ := haccepted hp
    rw [heq]
    constructor
    · intro h
      cases hrest : unescapeFrom size' offset' rest with
      | error e =>
        rw [hrest] at h
        cases h
      | ok ds =>
        rw [hrest] at h
        cases h
        obtain ⟨hps, rfl⟩ := (ih hsize').mp hrest
        exact ⟨⟨hp, hps⟩, rfl⟩
    · rintro ⟨⟨-, hps⟩, rfl⟩
      rw [(ih hsize').mpr ⟨hps, rfl⟩]
      rfl
  · obtain ⟨e, he⟩ := hrejected hp
    rw [he]
    exact ⟨nofun, fun h => absurd h.1.1 hp⟩

theorem parts_octal_rest (first : Char) (cs : List Char) :
    (∀ d ∈ octalTail first cs, isOctal d = true) ∧ cs = octalTail first cs ++ cs.drop (octalTail first cs).length := by
  have hprefix : octalTail first cs <+: cs := (List.take_prefix _ _).trans (List.takeWhile_prefix _)
  constructor
  · exact fun d hd => List.all_eq_true.mp (List.all_takeWhile ..) d (List.mem_of_mem_take hd)
  · exact (List.prefix_iff_eq_append.mp hprefix).symm

/-- A body is read if its parts are accepted, and then part by part. -/
theorem unescapeFrom_eq_ok_iff {out : List Char} (hsize : body.length ≤ size) :
    unescapeFrom size offset body = .ok out ↔
      (∀ p ∈ parts body, p.Accepted) ∧ out = (parts body).flatMap Part.read := by
  fun_induction parts body generalizing size offset out with
  | case1 =>
    have hnil : unescapeFrom size offset [] = .ok [] := by cases size <;> rfl
    rw [hnil]
    simp [eq_comm]
  | case2 cs ih =>
    refine Reads.unescapeFrom_eq_ok_iff ?_ ih hsize
    exact .of_readEscape (p := .lineBreak _) (n := 2) (.inl trivial) rfl rfl
  | case3 cs ih =>
    refine Reads.unescapeFrom_eq_ok_iff ?_ ih hsize
    have hdrop : cs.drop 2 = ('x' :: cs).drop (1 + (cs.take 2).length) := by
      rw [Nat.add_comm, List.drop_succ_cons]
      simp
    rw [hdrop]
    exact .of_hexChar (Part.accepted_hex_iff (List.length_take_le ..)) rfl rfl
  | case4 cs hclosed ih =>
    refine Reads.unescapeFrom_eq_ok_iff ?_ ih hsize
    have hdrop : cs.drop ((cs.takeWhile (· != '\x7d')).length + 1) =
        ('u' :: '\x7b' :: cs).drop (3 + (cs.takeWhile (· != '\x7d')).length) := by
      rw [Nat.add_comm 3]
      rfl
    rw [hdrop]
    refine .of_hexChar (e := (.invalidHexEscape, byteLength (cs.takeWhile (· != '\x7d')) + 2)) Part.accepted_braced_iff ?_ rfl
    rw [readEscape]
    exact if_neg fun h => absurd (length_takeWhile_eq_iff.mp h) (by rw [hclosed]; decide)
  | case5 cs hopen =>
    obtain ⟨size, rfl⟩ := Nat.exists_eq_add_one_of_ne_zero (Nat.ne_zero_of_lt hsize)
    have hread : readEscape ('u' :: '\x7b' :: cs) = .error (.unterminatedEscape, 2) := by
      rw [readEscape]
      exact if_pos (length_takeWhile_eq_iff.mpr (Bool.eq_false_iff.mpr hopen))
    rw [unescapeFrom, hread]
    refine ⟨fun h => (by cases h), fun h => ?_⟩
    rcases h.1 .unclosed List.mem_cons_self with h | h
    · exact h.elim
    · exact h.elim
  | case6 cs hbrace ih =>
    refine Reads.unescapeFrom_eq_ok_iff ?_ ih hsize
    have hdrop : cs.drop 4 = ('u' :: cs).drop (1 + (cs.take 4).length) := by
      rw [Nat.add_comm, List.drop_succ_cons]
      simp
    rw [hdrop]
    refine .of_hexChar (e := (.invalidHexEscape, byteLength (cs.take 4) + 2))
      (Part.accepted_unicode_iff (List.length_take_le ..)) ?_ rfl
    have hread : readEscape ('u' :: cs) = (hexChar? (cs.take 4)).elim
        (.error (.invalidHexEscape, byteLength (cs.take 4) + 2)) fun c => .ok (some c, 1 + (cs.take 4).length) := by
      rw [readEscape]
      · cases hexChar? (cs.take 4) <;> rfl
      · exact hbrace
    rw [hread]
    cases hexChar? (cs.take 4) <;> rfl
  | case7 c cs hreturn hx _ hu hend ih =>
    refine Reads.unescapeFrom_eq_ok_iff ?_ ih hsize
    simp only [isLineEnd, Bool.or_eq_true, beq_iff_eq] at hend
    rcases hend with ((rfl | rfl) | rfl) | rfl
    · exact .of_readEscape (p := .lineBreak _) (n := 1) (.inl trivial) rfl rfl
    · have hread : readEscape ('\r' :: cs) = .ok (none, 1) := by
        rw [readEscape]
        exact fun ds => hreturn ds rfl
      exact .of_readEscape (p := .lineBreak _) (.inl trivial) hread rfl
    · exact .of_readEscape (p := .lineBreak _) (n := 1) (.inl trivial) rfl rfl
    · exact .of_readEscape (p := .lineBreak _) (n := 1) (.inl trivial) rfl rfl
  | case8 c cs hreturn hx _ hu hend hoctal ih =>
    refine Reads.unescapeFrom_eq_ok_iff ?_ ih hsize
    obtain ⟨htail, hcs⟩ := parts_octal_rest c cs
    have hreads : Reads _ (cs.drop (octalTail c cs).length) ('\\' :: c :: _) := .octal hoctal htail
    rwa [← hcs] at hreads
  | case9 c cs hreturn hx _ hu hend hoctal ih =>
    refine Reads.unescapeFrom_eq_ok_iff ?_ ih hsize
    have hread : readEscape (c :: cs) = .ok (some (charOfCode (Part.singleCode c)), 1) := by
      rw [readEscape_single hx hu (fun h => hend (h ▸ rfl)) (fun h => hend (h ▸ rfl)), if_neg]
      exact fun h => hoctal (h ▸ rfl)
    exact .of_readEscape (p := .single c) (.inl trivial) hread rfl
  | case10 =>
    obtain ⟨size, rfl⟩ := Nat.exists_eq_add_one_of_ne_zero (Nat.ne_zero_of_lt hsize)
    have hread : unescapeFrom (size + 1) offset ['\\'] = .ok [] := by cases size <;> rfl
    rw [hread]
    simp [eq_comm]
  | case11 c cs _ _ _ _ hescape hlast ih =>
    refine Reads.unescapeFrom_eq_ok_iff (.char fun hc => ?_) ih hsize
    cases cs with
    | nil => exact hlast hc rfl
    | cons d cs => exact hescape d cs hc rfl

/-! ### The value of a literal -/

/-- The codes that the parts of a body stand for. -/
def codes (body : List Char) : List Nat := (parts body).filterMap Part.code?

/-- The value of a literal in the host language. -/
def value (body : List Char) : String := String.ofList (ofUnits ((codes body).flatMap units))

/-- An octal escape has one to three octal digits. -/
def Part.Proper : Part → Prop
  | .octal digits => digits ≠ [] ∧ digits.length ≤ 3 ∧ ∀ d ∈ digits, isOctal d = true
  | _ => True

theorem proper_of_mem_parts : ∀ p ∈ parts body, p.Proper := by
  fun_induction parts body with
  | case1 => exact fun p hp => absurd hp List.not_mem_nil
  | case8 c cs _ _ _ _ _ hoctal ih =>
    refine List.forall_mem_cons.mpr ⟨⟨List.cons_ne_nil _ _, ?_, ?_⟩, ih⟩
    · have hlength : (octalTail c cs).length ≤ if c ≤ '3' then 2 else 1 := List.length_take_le ..
      rw [List.length_cons]
      split at hlength <;> omega
    · exact List.forall_mem_cons.mpr ⟨hoctal, (parts_octal_rest c cs).1⟩
  | case5 => exact List.forall_mem_singleton.mpr trivial
  | case10 => exact fun p hp => absurd hp List.not_mem_nil
  | _ => exact List.forall_mem_cons.mpr ⟨trivial, ‹_›⟩

theorem toNat_of_isOctal {d : Char} (h : isOctal d = true) : 48 ≤ d.toNat ∧ d.toNat ≤ 55 := by
  rw [isOctal, Bool.and_eq_true, decide_eq_true_eq, decide_eq_true_eq] at h
  exact h

theorem toNat_charOfCode (h : n.isValidChar) : (charOfCode n).toNat = n := by
  rw [charOfCode, if_pos h, Char.ofNat, dif_pos h]
  rfl

theorem toNat_lt (c : Char) : c.toNat < 0x110000 := by
  rcases c.valid with h | h
  · exact Nat.lt_trans h (by decide)
  · exact h.2

namespace Part

theorem singleCode_lt (c : Char) : singleCode c < 0x110000 := by
  unfold singleCode
  split <;> first | decide | exact toNat_lt _

/-- Parts that are well formed stand for codes that exist. -/
theorem code_lt {p : Part} (hp : p.WellFormed) (hproper : p.Proper) : ∀ a ∈ p.code?, a < 0x110000 := by
  cases p with
  | char c =>
    rintro a ⟨⟩
    exact toNat_lt c
  | single c =>
    rintro a ⟨⟩
    exact singleCode_lt c
  | lineBreak c => rintro a ⟨⟩
  | octal digits =>
    rintro a ⟨⟩
    obtain ⟨-, hlength, hoctal⟩ := hproper
    have hlt : digits.foldl (fun n d => 8 * n + (d.toNat - 48)) 0 < 8 ^ digits.length := by
      refine foldl_digits_lt fun d hd => ?_
      have := (toNat_of_isOctal (hoctal d hd)).2
      omega
    exact Nat.lt_trans (Nat.lt_of_lt_of_le hlt (Nat.pow_le_pow_right (by decide) hlength)) (by decide)
  | hex digits =>
    rintro a ⟨⟩
    exact Nat.lt_trans (hexCode_lt_of_length_le hp.2 (by rw [hp.1]; decide)) (by decide)
  | unicode digits =>
    rintro a ⟨⟩
    exact Nat.lt_trans (hexCode_lt_of_length_le hp.2 (Nat.le_of_eq hp.1)) (by decide)
  | braced digits =>
    rintro a ⟨⟩
    exact Nat.lt_succ_of_le hp.2.2
  | unclosed => exact hp.elim

/-- A part is read as at least as many characters as it stands for, and as the character that it stands for if
    and only if it is faithful. -/
theorem read_eq_iff {p : Part} (hproper : p.Proper) :
    p.code?.toList.length ≤ p.read.length ∧ (p.read = p.code?.toList.map charOfCode ↔ p.Faithful) := by
  cases p with
  | char c => exact ⟨Nat.le_refl _, fun _ => trivial, fun _ => by simp [code?, read, charOfCode_toNat]⟩
  | single | hex | unicode | braced | unclosed => exact ⟨Nat.le_refl _, fun _ => trivial, fun _ => rfl⟩
  | lineBreak c =>
    refine ⟨Nat.zero_le _, ?_⟩
    rw [Faithful, ← not_or]
    by_cases hc : c = '\u2028' ∨ c = '\u2029'
    · rw [read, if_pos hc]
      exact ⟨nofun, fun h => absurd hc h⟩
    · rw [read, if_neg hc]
      exact ⟨fun _ => hc, fun _ => rfl⟩
  | octal digits =>
    obtain ⟨hne, -, hoctal⟩ := hproper
    obtain ⟨d, digits, rfl⟩ := List.exists_cons_of_ne_nil hne
    cases digits with
    | nil =>
      refine ⟨Nat.le_refl _, fun h => ?_, ?_⟩
      · obtain ⟨hlow, hhigh⟩ := toNat_of_isOctal (hoctal d List.mem_cons_self)
        by_contra hd
        have hd : d ≠ '0' := fun h => hd (congrArg (fun c => [c]) h)
        have hchar : (if d = '0' then '\x00' else d) = charOfCode (8 * 0 + (d.toNat - 48)) := (List.cons.inj h).1
        rw [if_neg hd] at hchar
        have hcode := congrArg Char.toNat hchar
        rw [toNat_charOfCode (.inl (by omega))] at hcode
        omega
      · rintro ⟨⟩
        rfl
    | cons e digits =>
      refine ⟨by simp [read, code?], fun h => ?_, nofun⟩
      have hlength := congrArg List.length h
      simp [read, code?] at hlength

end Part

theorem flatMap_read_eq_iff {ps : List Part} (hps : ∀ p ∈ ps, p.Proper) :
    (ps.filterMap Part.code?).length ≤ (ps.flatMap Part.read).length ∧
      (ps.flatMap Part.read = (ps.filterMap Part.code?).map charOfCode ↔ ∀ p ∈ ps, p.Faithful) := by
  induction ps with
  | nil => simp
  | cons p ps ih =>
    obtain ⟨hp, hps⟩ := List.forall_mem_cons.mp hps
    obtain ⟨hlength, hiff⟩ := p.read_eq_iff hp
    obtain ⟨ihlength, ihiff⟩ := ih hps
    have hcodes : (p :: ps).filterMap Part.code? = p.code?.toList ++ ps.filterMap Part.code? := by
      cases hcode : p.code? <;> simp [hcode]
    rw [hcodes, List.flatMap_cons, List.length_append, List.length_append, List.map_append, List.forall_mem_cons, ← hiff,
      ← ihiff]
    refine ⟨by omega, fun h => ?_, fun ⟨h, h'⟩ => by rw [h, h']⟩
    have heq := congrArg List.length h
    simp only [List.length_append, List.length_map] at heq
    exact List.append_inj h (by rw [List.length_map]; omega)

/-- A body is read if and only if its escapes are well formed, cut short by its end, or above the last code. A body with
    well-formed escapes is read as its value if and only if none of them is octal or hides U+2028 or U+2029, and no two
    of its codes are a surrogate pair. -/
theorem unescape_reads_value (offset : Nat) (body : List Char) :
    ((∃ s, unescape offset body = .ok s) ↔ ∀ p ∈ parts body, p.WellFormed ∨ p.Tolerated) ∧
      ((∀ p ∈ parts body, p.WellFormed) → ∃ s, unescape offset body = .ok s ∧
        (s = value body ↔ (∀ p ∈ parts body, p.Faithful) ∧ (codes body).IsChain fun a b => ¬ IsPair a b)) := by
  have hread : ∀ s, unescape offset body = .ok s ↔
      (∀ p ∈ parts body, p.Accepted) ∧ s = String.ofList ((parts body).flatMap Part.read) := by
    intro s
    have hfrom : ∀ out, unescapeFrom body.length offset body = .ok out ↔
        (∀ p ∈ parts body, p.Accepted) ∧ out = (parts body).flatMap Part.read :=
      fun out => unescapeFrom_eq_ok_iff (Nat.le_refl _)
    rw [unescape]
    cases h : unescapeFrom body.length offset body with
    | error e =>
      refine ⟨fun hs => (by cases hs), fun hs => ?_⟩
      rw [(hfrom _).mpr ⟨hs.1, rfl⟩] at h
      cases h
    | ok out =>
      obtain ⟨haccepted, rfl⟩ := (hfrom _).mp h
      exact ⟨fun hs => ⟨haccepted, (Except.ok.inj hs).symm⟩, fun hs => congrArg Except.ok hs.2.symm⟩
  refine ⟨⟨fun hs => ((hread _).mp hs.choose_spec).1, fun h => ⟨_, (hread _).mpr ⟨h, rfl⟩⟩⟩, fun hformed => ?_⟩
  refine ⟨_, (hread _).mpr ⟨fun p hp => .inl (hformed p hp), rfl⟩, ?_⟩
  have hproper : ∀ p ∈ parts body, p.Proper := proper_of_mem_parts
  obtain ⟨hlength, hfaithful⟩ := flatMap_read_eq_iff hproper
  have hcodes : ∀ a ∈ codes body, a < 0x110000 := by
    intro a ha
    obtain ⟨p, hp, ha⟩ := List.mem_filterMap.mp ha
    exact p.code_lt (hformed p hp) (hproper p hp) a ha
  rw [value, String.ofList_inj, ← hfaithful]
  rcases ofUnits_flatMap_units hcodes with ⟨hchain, heq⟩ | ⟨hchain, hlt⟩
  · rw [heq]
    exact ⟨fun h => ⟨h, hchain⟩, fun h => h.1⟩
  · refine ⟨fun h => ?_, fun h => absurd h.2 hchain⟩
    have := congrArg List.length h
    rw [codes] at *
    omega

/-- Characters, escapes of all forms and unpaired surrogates are read as the host language reads them. -/
theorem unescape_reads_value_mixed :
    (∀ p ∈ parts "a\\n\\x41\\u0042\\u\x7b1F600\x7d\\uD83D".toList, p.WellFormed) ∧
      unescape 1 "a\\n\\x41\\u0042\\u\x7b1F600\x7d\\uD83D".toList = .ok "a\nAB😀\ufffd" ∧
      value "a\\n\\x41\\u0042\\u\x7b1F600\x7d\\uD83D".toList = "a\nAB😀\ufffd" := by
  have hparts : parts "a\\n\\x41\\u0042\\u\x7b1F600\x7d\\uD83D".toList =
      [.char 'a', .single 'n', .hex "41".toList, .unicode "0042".toList, .braced "1F600".toList, .unicode "D83D".toList] := by
    cbv
  have hformed : ∀ p ∈ parts "a\\n\\x41\\u0042\\u\x7b1F600\x7d\\uD83D".toList, p.WellFormed := by
    rw [hparts]
    decide
  have hread : unescape 1 "a\\n\\x41\\u0042\\u\x7b1F600\x7d\\uD83D".toList = .ok "a\nAB😀\ufffd" := rfl
  obtain ⟨s, hs, hiff⟩ := (unescape_reads_value 1 _).2 hformed
  rw [hread] at hs
  cases hs
  refine ⟨hformed, hread, (hiff.mpr ⟨?_, ?_⟩).symm⟩
  · rw [hparts]
    decide
  · rw [codes, hparts]
    decide

/-- An escaped surrogate pair is one character in the host language and is read as two, and a code that does not exist
    is read. -/
theorem unescape_surrogate_pair :
    unescape 1 "\\uD83D\\uDE00".toList = .ok "\ufffd\ufffd" ∧ value "\\uD83D\\uDE00".toList = "😀" ∧
      unescape 1 "\\u\x7b110000\x7d".toList = .ok "\ufffd" ∧ ¬ ∀ p ∈ parts "\\u\x7b110000\x7d".toList, p.WellFormed := by
  refine ⟨rfl, ?_, rfl, ?_⟩
  · cbv
  · intro h
    have hparts : parts "\\u\x7b110000\x7d".toList = [.braced "110000".toList] := by cbv
    rw [hparts] at h
    exact absurd (h _ List.mem_cons_self).2.2 (by decide)

end LabelWeaver.Literal
