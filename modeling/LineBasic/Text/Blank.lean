import LineBasic.Text.Basic

/-!
# Blanks

Two sets of characters are skipped around text. A *gap* is a space or a tab,
the only characters that separate words within a line. A *blank* is any
character with the Unicode property White_Space: it may surround the text of
an expression, a name or a number.
-/

namespace LineBasic

/-- The ranges of code points, first to last, that have the property White_Space. -/
def blankRanges : List (Nat × Nat) :=
  [(0x09, 0x0D), (0x20, 0x20), (0x85, 0x85), (0xA0, 0xA0), (0x1680, 0x1680),
    (0x2000, 0x200A), (0x2028, 0x2029), (0x202F, 0x202F), (0x205F, 0x205F), (0x3000, 0x3000)]

/-- Whether the character has the property White_Space. -/
def isBlank (c : Char) : Bool :=
  blankRanges.any fun range => range.1 ≤ c.toNat && c.toNat ≤ range.2

/-- A space or a tab. -/
def isGap (c : Char) : Bool := c == ' ' || c == '\t'

/-- A gap or one of the two characters that end a line. -/
def isLineEdge (c : Char) : Bool := isGap c || c == '\r' || c == '\n'

theorem isBlank_of_isGap {c : Char} (h : isGap c = true) : isBlank c = true := by
  simp only [isGap, Bool.or_eq_true, beq_iff_eq] at h
  rcases h with rfl | rfl <;> decide

theorem isBlank_of_isLineEdge {c : Char} (h : isLineEdge c = true) : isBlank c = true := by
  simp only [isLineEdge, Bool.or_eq_true, beq_iff_eq] at h
  rcases h with (h | rfl) | rfl
  · exact isBlank_of_isGap h
  · decide
  · decide

/-- A blank is neither a letter nor a digit of ASCII. -/
theorem isAlphanum_eq_false_of_isBlank {c : Char} (h : isBlank c = true) :
    c.isAlphanum = false := by
  have tb : ∀ r ∈ blankRanges, r.1 ≤ c.toNat ∧ c.toNat ≤ r.2 → c.isAlphanum = false := by
    intro r hr hc
    have hv : c.val.toNat = c.toNat := rfl
    simp only [blankRanges, List.mem_cons, List.not_mem_nil, or_false] at hr
    rw [Bool.eq_false_iff]
    intro ha
    have ranges : c.isAlphanum =
        (decide (c.val ≥ 'A'.val ∧ c.val ≤ 'Z'.val)
          || (decide (c.val ≥ 'a'.val) && decide (c.val ≤ 'z'.val))
          || (decide (c.val ≥ '0'.val) && decide (c.val ≤ '9'.val))) := rfl
    simp only [ranges, Bool.or_eq_true, Bool.and_eq_true, decide_eq_true_eq, ge_iff_le,
      UInt32.le_iff_toNat_le, hv] at ha
    rcases hr with rfl | rfl | rfl | rfl | rfl | rfl | rfl | rfl | rfl | rfl <;>
      simp at hc ha <;> omega
  simp only [isBlank, List.any_eq_true, Bool.and_eq_true, decide_eq_true_eq] at h
  obtain ⟨r, hr, hc⟩ := h
  exact tb r hr hc

namespace Text

/-- Without the blanks at both ends. -/
def trim (t : Text) : Text := trimWhile isBlank t

/-- Without the blanks at the end, as a row of the text page is read. -/
def trimEnd (t : Text) : Text := dropEndWhile isBlank t

/-- Without the spaces and tabs at both ends. -/
def trimGaps (t : Text) : Text := trimWhile isGap t

theorem length_trim_le (t : Text) : t.trim.length ≤ t.length := length_trimWhile_le _ t

theorem length_trimGaps_le (t : Text) : t.trimGaps.length ≤ t.length := length_trimWhile_le _ t

@[simp] theorem trim_nil : trim [] = [] := rfl

end Text

end LineBasic
