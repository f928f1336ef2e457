/-! Byte ranges of a source text. A span is given by its first byte and its length; `join` is the
    smallest span that covers two others, and an anchor is the empty span where another begins. -/

namespace LabelWeaver

/-- A range of bytes of the source. -/
structure Span where
  offset : Nat
  length : Nat
  deriving DecidableEq, Repr

namespace Span

/-- The first byte after the span. -/
def stop (s : Span) : Nat := s.offset + s.length

/-- The smallest span that covers both. -/
def join (a b : Span) : Span :=
  { offset := min a.offset b.offset, length := max a.stop b.stop - min a.offset b.offset }

/-- The empty span where `s` begins. -/
def anchor (s : Span) : Span := { offset := s.offset, length := 0 }

/-- The empty span where `s` ends. -/
def ending (s : Span) : Span := { offset := s.stop, length := 0 }

/-- The empty span at the start of the source. -/
def zero : Span := { offset := 0, length := 0 }

@[simp] theorem offset_join (a b : Span) : (a.join b).offset = min a.offset b.offset := rfl

theorem offset_le_stop (s : Span) : s.offset ≤ s.stop := Nat.le_add_right _ _

@[simp] theorem stop_join (a b : Span) : (a.join b).stop = max a.stop b.stop := by
  have := a.offset_le_stop
  simp only [join, stop] at *
  omega

theorem join_comm (a b : Span) : a.join b = b.join a := by
  simp [join, Nat.min_comm, Nat.max_comm]

@[simp] theorem offset_anchor (s : Span) : s.anchor.offset = s.offset := rfl
@[simp] theorem anchor_anchor (s : Span) : s.anchor.anchor = s.anchor := rfl

end Span

end LabelWeaver
