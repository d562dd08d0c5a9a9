import LineBasic.Program
import LineBasic.Proofs.Text.Digits
import LineBasic.Proofs.Text.Trim
import Mathlib.Data.List.Basic

/-!
# Typed and listed lines

A line is what is left of a typed text: zeros before its number, gaps behind it and whatever
surrounds the line are not kept. What is left is settled: it is listed with one space behind
its number, and this reads back as the same line (`Line.Settled.read_display`). Only a number
out of range is not read (`Line.reading_settles`).

The listed form has at most one byte more than the typed one. It has one more only if
nothing was left out and no gap was typed (`Line.eq_of_read`).
-/

namespace LineBasic

theorem Text.eq_nil_of_byteLength_eq_zero {t : Text} (h : t.byteLength = 0) : t = [] := by
  cases t with
  | nil => rfl
  | cons c t =>
      have := c.utf8Size_pos
      rw [byteLength_cons] at h
      omega

/-- The number is in range, and no gap before the statement nor the end of the line
behind it was kept. -/
structure ProgramLine.Listable (l : ProgramLine) : Prop where
  bounded : l.number ≤ Line.maxNumber
  filled : l.text ≠ []
  first : ∀ c ∈ l.text.head?, isGap c = false
  last : ∀ c ∈ l.text.getLast?, isLineEdge c = false

namespace Line

variable {l : ProgramLine} {t digits rest : Text}

theorem isLineEdge_eq_false_of_isDigit {c : Char} (h : c.isDigit = true) :
    isLineEdge c = false := by
  rw [Bool.eq_false_iff]
  intro edge
  exact Bool.eq_false_iff.mp (isBlank_eq_false_of_isDigit h) (isBlank_of_isLineEdge edge)

theorem byteLength_display (l : ProgramLine) :
    l.toLine.display.byteLength = (Decimal.print l.number ++ l.text).byteLength + 1 := by
  have space : ' '.utf8Size = 1 := rfl
  simp only [ProgramLine.toLine, display, Text.byteLength_append, Text.byteLength_cons, space]
  omega

/-- A text without a number is kept as it is, but for what surrounds it. -/
theorem read_of_numberless (h : ∀ c ∈ (t.trimWhile isLineEdge).head?, c.isDigit = false) :
    read t = .ok ⟨none, t.trimWhile isLineEdge⟩ := by
  simp only [read, Text.takeWhile_eq_nil h, List.isEmpty_nil, if_true]

/-- The digits at the start of a text are its number, if it is in range. -/
theorem read_of_starts (h : Decimal.Starts (t.trimWhile isLineEdge) digits rest) :
    read t =
      if Decimal.value digits ≤ maxNumber then
        .ok ⟨some (Decimal.value digits), rest.dropWhile isGap⟩
      else .error (.because .syntaxError "INVALID LINE NUMBER") := by
  have numbered : digits.isEmpty = false :=
    List.isEmpty_eq_false_iff.mpr (Decimal.ne_nil_of_isDigits h.digits)
  simp only [read, h.takeWhile_eq, h.dropWhile_eq, numbered, Bool.false_eq_true, if_false]

/-- The lines that reading leaves: nothing is left around the text that would not be kept if
the line was typed as it is listed. -/
inductive Settled : Line → Prop where
  | direct {text : Text} (first : ∀ c ∈ text.head?, isLineEdge c = false)
      (numberless : ∀ c ∈ text.head?, c.isDigit = false)
      (last : ∀ c ∈ text.getLast?, isLineEdge c = false) : Settled ⟨none, text⟩
  | numbered {n : Nat} {text : Text} (bounded : n ≤ maxNumber)
      (first : ∀ c ∈ text.head?, isGap c = false)
      (last : ∀ c ∈ text.getLast?, isLineEdge c = false) : Settled ⟨some n, text⟩

theorem settled_of_read {l : Line} (h : read t = .ok l) : l.Settled := by
  have last := Text.getLast?_trimWhile isLineEdge t
  rcases Decimal.starts_or (t.trimWhile isLineEdge) with numberless | ⟨digits, rest, starts⟩
  · rw [read_of_numberless numberless] at h
    cases h
    exact .direct (Text.head?_trimWhile isLineEdge t) numberless last
  · rw [read_of_starts starts] at h
    split at h
    · next bounded =>
      cases h
      refine .numbered bounded (Text.head?_dropWhile isGap rest) ?_
      intro c hc
      apply last
      -- the text is the end of the line unless it is empty
      have filled : rest.dropWhile isGap ≠ [] := by
        rintro none
        simp [none] at hc
      rw [starts.whole, ← List.takeWhile_append_dropWhile (p := isGap) (l := rest),
        ← List.append_assoc, List.getLast?_append_of_ne_nil _ filled]
      exact hc
    · cases h

/-- A line with a number, as it is listed, starts with this number. Only the space behind it
is trimmed off, and only if no text follows. -/
theorem starts_display {n : Nat} {text : Text} (last : ∀ c ∈ text.getLast?, isLineEdge c = false) :
    ∃ rest, Decimal.Starts ((display ⟨some n, text⟩).trimWhile isLineEdge) (Decimal.print n) rest ∧
      rest.dropWhile isGap = text.dropWhile isGap := by
  have digits : ∀ c ∈ Decimal.print n, isLineEdge c = false := fun c hc =>
    isLineEdge_eq_false_of_isDigit (Decimal.forall_isDigit (Decimal.isDigits_print n) c hc)
  rw [display]
  dsimp only
  cases text with
  | nil =>
      refine ⟨[], ⟨?_, Decimal.isDigits_print n, nofun⟩, rfl⟩
      rw [Text.trimWhile_append_right (List.forall_mem_singleton.mpr rfl),
        Text.trimWhile_eq_self digits, List.append_nil]
  | cons c text =>
      refine ⟨' ' :: c :: text, ⟨?_, Decimal.isDigits_print n, by simp⟩, rfl⟩
      refine Text.trimWhile_eq_self_of_ends ?_ ?_
      · intro d hd
        rw [List.head?_append_of_ne_nil _ (Decimal.ne_nil_of_isDigits (Decimal.isDigits_print n))]
          at hd
        exact digits d (List.mem_of_mem_head? hd)
      · intro d hd
        rw [List.getLast?_append_of_ne_nil _ (List.cons_ne_nil _ _),
          List.getLast?_cons_of_ne_nil (List.cons_ne_nil _ _)] at hd
        exact last d hd

/-- A settled line reads back from what is listed of it. -/
theorem Settled.read_display {l : Line} (h : l.Settled) : read l.display = .ok l := by
  cases h with
  | @direct text first numberless last =>
      have trimmed : Text.trimWhile isLineEdge text = text :=
        Text.trimWhile_eq_self_of_ends first last
      have read := read_of_numberless (t := text) (trimmed.symm ▸ numberless)
      rwa [trimmed] at read
  | @numbered n text bounded first last =>
      obtain ⟨rest, starts, same⟩ := starts_display (n := n) last
      rw [read_of_starts starts, Decimal.value_print, if_pos bounded, same,
        Text.dropWhile_eq_self first]

/-- A listed line reads back. -/
theorem read_display (h : l.Listable) : read l.toLine.display = .ok l.toLine :=
  (Settled.numbered h.bounded h.first h.last).read_display

/-- What a typed line is made of, and what is kept of it. -/
theorem exists_of_read (h : read t = .ok l.toLine) (filled : l.text ≠ []) :
    l.Listable ∧ ∃ before gap after,
      t = before ++ (Decimal.print l.number ++ (gap ++ (l.text ++ after))) := by
  constructor
  · obtain ⟨n, text⟩ := l
    cases settled_of_read h with
    | numbered bounded first last => exact ⟨bounded, filled, first, last⟩
  obtain ⟨before, after, whole, -, -⟩ := Text.exists_append_trimWhile isLineEdge t
  rcases Decimal.starts_or (t.trimWhile isLineEdge) with numberless | ⟨digits, rest, starts⟩
  · rw [read_of_numberless numberless] at h
    cases h
  · rw [read_of_starts starts] at h
    split at h
    · obtain ⟨n, text⟩ := l
      simp only [ProgramLine.toLine, Except.ok.injEq, Line.mk.injEq, Option.some.injEq] at h
      obtain ⟨rfl, rfl⟩ := h
      obtain ⟨zeros, spelled⟩ := Decimal.exists_zeros_append_print starts.digits
      have gap := List.takeWhile_append_dropWhile (p := isGap) (l := rest)
      refine ⟨before ++ List.replicate zeros '0', rest.takeWhile isGap, after, ?_⟩
      dsimp only
      rw [whole, starts.whole]
      conv_lhs => rw [← gap, spelled]
      simp only [List.append_assoc]
    · cases h

theorem byteLength_le_of_read (h : read t = .ok l.toLine) (filled : l.text ≠ []) :
    (Decimal.print l.number ++ l.text).byteLength ≤ t.byteLength := by
  obtain ⟨-, before, gap, after, rfl⟩ := exists_of_read h filled
  simp only [Text.byteLength_append]
  omega

/-- If no byte of a typed line was left out, it is its number and its statement. -/
theorem eq_of_read (h : read t = .ok l.toLine) (filled : l.text ≠ [])
    (all : t.byteLength ≤ (Decimal.print l.number ++ l.text).byteLength) :
    t = Decimal.print l.number ++ l.text := by
  obtain ⟨-, before, gap, after, rfl⟩ := exists_of_read h filled
  simp only [Text.byteLength_append] at all
  have nothing₁ : before = [] := Text.eq_nil_of_byteLength_eq_zero (by omega)
  have nothing₂ : gap = [] := Text.eq_nil_of_byteLength_eq_zero (by omega)
  have nothing₃ : after = [] := Text.eq_nil_of_byteLength_eq_zero (by omega)
  simp [nothing₁, nothing₂, nothing₃]

/-- A line that could be read is not changed by listing and reading it. What cannot be read is
what starts, once trimmed, with a number out of range. -/
theorem reading_settles (t : Text) :
    (∀ l, read t = .ok l → read l.display = .ok l) ∧
    ((∃ e, read t = .error e) ↔ ∃ digits rest,
      Decimal.Starts (t.trimWhile isLineEdge) digits rest ∧ 65529 < Decimal.value digits) := by
  refine ⟨fun l h => (settled_of_read h).read_display, ?_, ?_⟩
  · rintro ⟨e, failed⟩
    rcases Decimal.starts_or (t.trimWhile isLineEdge) with numberless | ⟨digits, rest, starts⟩
    · rw [read_of_numberless numberless] at failed
      cases failed
    · refine ⟨digits, rest, starts, ?_⟩
      rw [read_of_starts starts] at failed
      split at failed
      · cases failed
      · next large => exact Nat.lt_of_not_le large
  · rintro ⟨digits, rest, starts, large⟩
    have outside : ¬ Decimal.value digits ≤ maxNumber := Nat.not_le_of_lt large
    rw [read_of_starts starts, if_neg outside]
    exact ⟨_, rfl⟩

/-- The statement begins with the end of a line and with digits, and zeros stand before the
number. They go, and the rest stays as it is. -/
theorem reading_settles_folded :
    read "\t 0010 \r\n20 X \n".toList = .ok ⟨some 10, "\r\n20 X".toList⟩ ∧
      read "10 \r\n20 X".toList = .ok ⟨some 10, "\r\n20 X".toList⟩ := by
  have typed : read "\t 0010 \r\n20 X \n".toList = .ok ⟨some 10, "\r\n20 X".toList⟩ := rfl
  exact ⟨typed, (reading_settles "\t 0010 \r\n20 X \n".toList).1 _ typed⟩

end Line

end LineBasic
