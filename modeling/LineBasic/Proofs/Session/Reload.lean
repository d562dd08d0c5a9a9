import LineBasic.Proofs.Line
import LineBasic.Proofs.Session.Reachability

/-!
# Entering a listing

Every stored line was typed. When the lines of a program are entered again as they are
listed, each one finds its place behind the lines before it, so the program comes out the
same, unless a line is refused.

A listed line has a space behind its number, typed or not. The lines that are refused are
therefore those whose number and statement, without any gap, take as many bytes as a line
may have. Main statement: `listing_reloads_iff`.
-/

namespace LineBasic

/-- Number and statement leave no byte for the space between them. -/
def ProgramLine.Crammed (l : ProgramLine) : Prop :=
  (Decimal.print l.number ++ l.text).byteLength = Line.maxBytes

instance (l : ProgramLine) : Decidable l.Crammed := inferInstanceAs (Decidable (_ = _))

/-- The line is what is stored of the typed text. -/
structure ProgramLine.Typed (l : ProgramLine) (t : Text) : Prop where
  within : t.byteLength ≤ Line.maxBytes
  read : Line.read t = .ok l.toLine
  filled : l.text ≠ []

namespace ProgramLine.Typed

variable {l : ProgramLine} {t : Text}

theorem listable (h : l.Typed t) : l.Listable := (Line.exists_of_read h.read h.filled).1

theorem byteLength_le (h : l.Typed t) :
    (Decimal.print l.number ++ l.text).byteLength ≤ Line.maxBytes :=
  Nat.le_trans (Line.byteLength_le_of_read h.read h.filled) h.within

theorem eq_of_crammed (h : l.Typed t) (crammed : l.Crammed) :
    t = Decimal.print l.number ++ l.text :=
  Line.eq_of_read h.read h.filled (crammed.symm ▸ h.within)

/-- A listed line is too long by one byte if it is crammed, and else not too long. -/
theorem lt_byteLength_display_iff (h : l.Typed t) :
    Line.maxBytes < l.toLine.display.byteLength ↔ l.Crammed := by
  have := h.byteLength_le
  rw [Line.byteLength_display, ProgramLine.Crammed]
  omega

end ProgramLine.Typed

/-- A line with a higher number than all others is stored behind them. -/
theorem Program.insertInto_eq_concat {l : ProgramLine} {lines : List ProgramLine}
    (h : ∀ x ∈ lines, x.number < l.number) : insertInto l lines = lines ++ [l] := by
  induction lines with
  | nil => rfl
  | cons x lines ih =>
      have less := h x List.mem_cons_self
      rw [insertInto, if_neg (by omega), if_neg (by omega),
        ih fun y hy => h y (List.mem_cons_of_mem x hy)]
      rfl

namespace Session

variable {s : Session} {l : ProgramLine} {t : Text}

/-- What is stored after a line was entered was stored before or is that line. -/
theorem mem_lines_enter (h : l ∈ (s.enter t).1.machine.program.lines) :
    l ∈ s.machine.program.lines ∨ l.Typed t := by
  rw [enter] at h
  split at h
  · exact .inl h
  · next within =>
    split at h
    · exact .inl h
    · next line read =>
      rw [accept] at h
      split at h
      · split at h <;> exact .inl h
      · next n number =>
        dsimp only at h
        split at h
        · exact .inl (List.mem_of_mem_filter h)
        · next filled =>
          rcases Program.Sound.mem_insertInto h with rfl | h
          · have same : line = ProgramLine.toLine ⟨n, line.text⟩ := by
              rw [ProgramLine.toLine, ← number]
            exact .inr ⟨Nat.le_of_not_lt within, same ▸ read, by simpa [Line.isEmpty] using filled⟩
          · exact .inl h

/-- Every stored line was typed. -/
theorem mem_lines_enterAll {lines : List Text}
    (h : l ∈ (s.enterAll lines).machine.program.lines) :
    l ∈ s.machine.program.lines ∨ ∃ t ∈ lines, l.Typed t := by
  induction lines generalizing s with
  | nil => exact .inl h
  | cons t lines ih =>
      rcases ih h with h | ⟨t', ht', typed⟩
      · rcases mem_lines_enter h with h | typed
        · exact .inl h
        · exact .inr ⟨t, List.mem_cons_self, typed⟩
      · exact .inr ⟨t', List.mem_cons_of_mem t ht', typed⟩

theorem enter_display_of_crammed (typed : l.Typed t) (crammed : l.Crammed) :
    s.enter l.toLine.display = (s.reject { kind := .lineBufferOverflow }, false) := by
  rw [enter, if_pos (typed.lt_byteLength_display_iff.mpr crammed)]

theorem enter_display (typed : l.Typed t) (spacious : ¬ l.Crammed) :
    s.enter l.toLine.display =
      ({ s with machine := { s.machine with program := s.machine.program.insert l } }, true) := by
  have filled : l.toLine.isEmpty = false := List.isEmpty_eq_false_iff.mpr typed.filled
  rw [enter, if_neg (mt typed.lt_byteLength_display_iff.mp spacious),
    Line.read_display typed.listable]
  dsimp only
  rw [accept, ProgramLine.toLine]
  dsimp only
  rw [ProgramLine.toLine] at filled
  rw [filled]
  rfl

/-- Lines in ascending order, all behind the stored ones, are stored one by one. -/
theorem enterAll_displays {lines : List ProgramLine} (typed : ∀ l ∈ lines, ∃ t, l.Typed t)
    (ascending : (lines.map ProgramLine.number).Pairwise (· < ·))
    (behind : ∀ x ∈ s.machine.program.lines, ∀ l ∈ lines, x.number < l.number) :
    (s.enterAll (lines.map fun l => l.toLine.display)).machine.program.lines =
      s.machine.program.lines ++ lines.filter (!decide ·.Crammed) := by
  induction lines generalizing s with
  | nil => simp [enterAll]
  | cons l lines ih =>
      obtain ⟨above, ascending⟩ := List.pairwise_cons.mp ascending
      obtain ⟨t, stored⟩ := typed l List.mem_cons_self
      have typed : ∀ l ∈ lines, ∃ t, l.Typed t := fun x hx => typed x (List.mem_cons_of_mem l hx)
      rw [List.map_cons, enterAll, List.foldl_cons, ← enterAll]
      by_cases crammed : l.Crammed
      · rw [enter_display_of_crammed stored crammed, ih typed ascending]
        · simp [reject, crammed]
        · exact fun x hx y hy => behind x hx y (List.mem_cons_of_mem l hy)
      · have last := Program.insertInto_eq_concat fun x hx => behind x hx l List.mem_cons_self
        rw [enter_display stored crammed, ih typed ascending]
        · simp [Program.insert, last, crammed]
        · intro x hx y hy
          rw [Program.insert, last] at hx
          rcases List.mem_append.mp hx with hx | hx
          · exact behind x hx y (List.mem_cons_of_mem l hy)
          · rw [List.mem_singleton.mp hx]
            exact above y.number (List.mem_map_of_mem hy)

/-- Entering a listing into a new session stores all lines but the crammed ones, which
are refused. These were typed without a gap behind their number. -/
theorem listing_reloads_iff (lines : List Text) :
    let program := (initial.enterAll lines).machine.program
    let reloaded := (initial.enterAll program.listing).machine.program
    (∀ l ∈ program.lines, ∀ s : Session,
      (s.enter l.toLine.display).2 = true ↔ ¬ l.Crammed) ∧
    reloaded.lines = program.lines.filter (!decide ·.Crammed) ∧
    (reloaded = program ↔ ∀ l ∈ program.lines, ¬ l.Crammed) ∧
    ∀ l ∈ program.lines, l.Crammed → Decimal.print l.number ++ l.text ∈ lines := by
  intro program reloaded
  have typed : ∀ l ∈ program.lines, ∃ t ∈ lines, l.Typed t :=
    fun l hl => (mem_lines_enterAll hl).resolve_left List.not_mem_nil
  have ascending : program.Ascending :=
    (Reachable.initial.enterAll lines).sound.machine.program.ascending
  have kept : reloaded.lines = program.lines.filter (!decide ·.Crammed) :=
    enterAll_displays (fun l hl => (typed l hl).imp fun _ h => h.2) ascending nofun
  refine ⟨?_, kept, ?_, ?_⟩
  · intro l hl s
    obtain ⟨t, -, stored⟩ := typed l hl
    by_cases crammed : l.Crammed
    · simp [enter_display_of_crammed stored crammed, crammed]
    · simp [enter_display stored crammed, crammed]
  · have same : reloaded = program ↔ reloaded.lines = program.lines :=
      ⟨congrArg Program.lines, congrArg Program.mk⟩
    rw [same, kept, List.filter_eq_self]
    simp
  · intro l hl crammed
    obtain ⟨t, ht, stored⟩ := typed l hl
    exact stored.eq_of_crammed crammed ▸ ht

/-- Line 10 with a statement of 253 characters and no gap before it. -/
def crammedLine : Text := "10".toList ++ List.replicate 253 'A'

/-- It is not so that every listing can be entered again. -/
theorem not_listing_reloads :
    ¬ ∀ lines : List Text,
      let program := (initial.enterAll lines).machine.program
      (∀ before t after, program.listing = before ++ t :: after →
        ((initial.enterAll before).enter t).2 = true) ∧
      (initial.enterAll program.listing).machine.program = program := by
  intro reloads
  have same := (reloads [crammedLine]).2
  have stored : (initial.enterAll [crammedLine]).machine.program.size = 1 := by decide +kernel
  rw [← same] at stored
  revert stored
  decide +kernel

end Session

end LineBasic
