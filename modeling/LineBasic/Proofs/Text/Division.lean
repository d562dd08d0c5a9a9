import LineBasic.Keyword
import LineBasic.Proofs.Text.Trim
import LineBasic.Relation
import Mathlib.Data.List.Basic

/-!
# Dividing at a gap

A text is divided at the first exposed place that a matcher takes. Neither a keyword nor a
relation holds a gap, so none of them reaches over one: behind a gap a matcher finds what it
would find at the end of the text. One equation says what this does to the division of a text
(`Text.cut?_append_gap`), and everything below follows from it. Gaps at the ends of a text do
not change whether it is divided, and a keyword between two gaps divides a closed text that
does not hold it.
-/

namespace LineBasic

namespace Text

/-- A scan of the text from the start ends where it started: every literal and every
parenthesis in it is closed. -/
def IsClosed (t : Text) : Prop := Nesting.outside.scan t = Nesting.outside

instance (t : Text) : Decidable t.IsClosed := inferInstanceAs (Decidable (_ = _))

end Text

theorem exposes_of_isGap {g : Char} (hg : isGap g = true) :
    Nesting.outside.exposes g = true := by
  rw [Nesting.exposes_iff_of_outside]
  simp only [isGap, Bool.or_eq_true, beq_iff_eq] at hg
  rcases hg with rfl | rfl <;> decide

/-- A matcher for which a gap is as good as an end of the text. It takes nothing at the end,
what it takes does not reach over a gap, and behind a gap it goes on as at the start. What it
found in front of more text is `extend`ed by that text. -/
structure StopsAtGaps {α : Type} (accept? : Option Char → Text → Option α)
    (extend : Text → α → α) : Prop where
  nil : ∀ before, accept? before [] = none
  append : ∀ before u g r, isGap g = true →
    accept? before (u ++ g :: r) = (accept? before u).map (extend (g :: r))
  start : ∀ g u, isGap g = true → accept? (some g) u = accept? none u
  extend_nil : ∀ a, extend [] a = a

namespace Nesting

variable {α : Type} {accept? : Option Char → Text → Option α}

/-- If nothing was taken in the first part of a text, the division goes on behind it. The
place before the second part is the last one of the first. -/
theorem cutFrom?_append {t : Text}
    (reach : ∀ before u, u ≠ [] → accept? before u = none → accept? before (u ++ t) = none)
    {s : Text} {n : Nesting} {before : Option Char} (whole : cutFrom? accept? n before s = none) :
    cutFrom? accept? n before (s ++ t) =
      (cutFrom? accept? (n.scan s) (s.getLast?.or before) t).map
        fun (left, found) => (s ++ left, found) := by
  induction s generalizing n before with
  | nil => simp
  | cons c s ih =>
      have last : (c :: s).getLast?.or before = s.getLast?.or (some c) := by
        cases hs : s.getLast? <;> simp [List.getLast?_cons, hs]
      have nothing : (if n.exposes c then accept? before (c :: (s ++ t)) else none) = none := by
        rw [cutFrom?] at whole
        by_cases exposed : n.exposes c = true
        · rw [if_pos exposed] at whole ⊢
          refine reach before (c :: s) (List.cons_ne_nil c s) ?_
          cases taken : accept? before (c :: s) with
          | none => rfl
          | some found => simp [taken] at whole
        · rw [if_neg exposed]
      have rest : cutFrom? accept? (n.after c) (some c) s = none := by
        rw [cutFrom?] at whole
        split at whole
        · cases whole
        · exact Option.map_eq_none_iff.mp whole
      rw [List.cons_append, cutFrom?, nothing, ih rest, last, scan_cons]
      simp [Function.comp_def]

end Nesting

namespace StopsAtGaps

variable {α : Type} {accept? : Option Char → Text → Option α} {extend : Text → α → α}
variable {g : Char} {gaps : Text}

/-- Nothing is taken at a gap. -/
theorem at_gap (h : StopsAtGaps accept? extend) (hg : isGap g = true) (before : Option Char)
    (r : Text) : accept? before (g :: r) = none := by
  have := h.append before [] g r hg
  rwa [h.nil] at this

/-- Behind a gap a text is divided as if it started there. -/
theorem cutFrom?_gap (h : StopsAtGaps accept? extend) (hg : isGap g = true)
    (before : Option Char) (r : Text) :
    Nesting.cutFrom? accept? Nesting.outside before (g :: r) =
      (Text.cut? accept? r).map fun (left, found) => (g :: left, found) := by
  have exposed := exposes_of_isGap hg
  have start : Nesting.cutFrom? accept? Nesting.outside (some g) r = Text.cut? accept? r := by
    cases r with
    | nil => rfl
    | cons c r => rw [Text.cut?, Nesting.cutFrom?, Nesting.cutFrom?, h.start g _ hg]
  rw [Nesting.cutFrom?, if_pos exposed, h.at_gap hg, Nesting.after_of_exposes exposed, start]

/-- Gaps before a text go to the left side. -/
theorem cut?_gaps_append (h : StopsAtGaps accept? extend) (hg : ∀ c ∈ gaps, isGap c = true)
    (t : Text) :
    Text.cut? accept? (gaps ++ t) =
      (Text.cut? accept? t).map fun (left, found) => (gaps ++ left, found) := by
  induction gaps with
  | nil => simp
  | cons g gaps ih =>
      rw [List.cons_append, Text.cut?, h.cutFrom?_gap (hg g List.mem_cons_self),
        ih fun c hc => hg c (List.mem_cons_of_mem _ hc), Option.map_map]
      rfl

theorem cutFrom?_gaps (h : StopsAtGaps accept? extend) (hg : ∀ c ∈ gaps, isGap c = true)
    (n : Nesting) (before : Option Char) : Nesting.cutFrom? accept? n before gaps = none := by
  induction gaps generalizing n before with
  | nil => rfl
  | cons g gaps ih =>
      rw [Nesting.cutFrom?, h.at_gap (hg g List.mem_cons_self), ite_self,
        ih fun c hc => hg c (List.mem_cons_of_mem _ hc)]
      rfl

/-- Gaps behind a text go to the right side. -/
theorem cutFrom?_append_gaps (h : StopsAtGaps accept? extend) (hg : ∀ c ∈ gaps, isGap c = true)
    (s : Text) (n : Nesting) (before : Option Char) :
    Nesting.cutFrom? accept? n before (s ++ gaps) =
      (Nesting.cutFrom? accept? n before s).map fun (left, found) => (left, extend gaps found) := by
  have reach (before : Option Char) (u : Text) :
      accept? before (u ++ gaps) = (accept? before u).map (extend gaps) := by
    cases gaps with
    | nil => simp [funext h.extend_nil]
    | cons g gaps => exact h.append before u g gaps (hg g List.mem_cons_self)
  induction s generalizing n before with
  | nil => exact h.cutFrom?_gaps hg n before
  | cons c s ih =>
      rw [List.cons_append, Nesting.cutFrom?, Nesting.cutFrom?, ← List.cons_append, reach, ih]
      by_cases exposed : n.exposes c = true
      · simp only [exposed, if_true]
        cases accept? before (c :: s) <;> simp [Function.comp_def]
      · simp [exposed, Function.comp_def]

theorem cut?_append_gaps (h : StopsAtGaps accept? extend) (hg : ∀ c ∈ gaps, isGap c = true)
    (s : Text) :
    Text.cut? accept? (s ++ gaps) =
      (Text.cut? accept? s).map fun (left, found) => (left, extend gaps found) :=
  h.cutFrom?_append_gaps hg s Nesting.outside none

/-- A closed text in which nothing was taken is passed over, with the gap behind it. -/
theorem cut?_append_gap (h : StopsAtGaps accept? extend) (hg : isGap g = true) {s : Text}
    (closed : s.IsClosed) (whole : Text.cut? accept? s = none) (r : Text) :
    Text.cut? accept? (s ++ g :: r) =
      (Text.cut? accept? r).map fun (left, found) => (s ++ g :: left, found) := by
  have reach : ∀ before u, u ≠ [] → accept? before u = none →
      accept? before (u ++ g :: r) = none := by
    intro before u _ nothing
    rw [h.append before u g r hg, nothing]
    rfl
  rw [Text.cut?, Nesting.cutFrom?_append reach whole, closed, h.cutFrom?_gap hg, Option.map_map]
  rfl

/-- Whether a text is divided does not depend on the gaps at its ends. -/
theorem cut?_dropEndWhile (h : StopsAtGaps accept? extend) {s : Text}
    (whole : Text.cut? accept? s = none) :
    Text.cut? accept? (Text.dropEndWhile isGap s) = none := by
  obtain ⟨gaps, cut, hg⟩ := Text.exists_dropEndWhile_append isGap s
  rw [cut, h.cut?_append_gaps hg] at whole
  exact Option.map_eq_none_iff.mp whole

end StopsAtGaps

namespace Keyword

/-- No keyword holds a gap. -/
theorem isGap_of_mem_spelling {w : Keyword} {c : Char} (h : c ∈ w.spelling.toList) :
    isGap c = false := by
  have spelled : w.spelling.toList.all (!isGap ·) = true := by cases w <;> decide
  simpa using List.all_eq_true.mp spelled c h

theorem exposes_of_mem_spelling {w : Keyword} {c : Char} (h : c ∈ w.spelling.toList) :
    Nesting.outside.exposes c = true := by
  have spelled : w.spelling.toList.all Nesting.outside.exposes = true := by cases w <;> decide
  exact List.all_eq_true.mp spelled c h

theorem spelling_ne_nil (w : Keyword) : w.spelling.toList ≠ [] := by cases w <;> decide

theorem stopsAtGaps (w : Keyword) :
    StopsAtGaps w.behind? fun more rest => rest ++ more where
  nil before := by
    simp [behind?, w.spelling_ne_nil.symm]
  append before u g r hg := by
    have size : w.spelling.toList.length = w.spelling.length := String.length_toList
    have letter : g.isAlpha = false := by
      have := isAlphanum_eq_false_of_isBlank (isBlank_of_isGap hg)
      simp only [Char.isAlphanum, Bool.or_eq_false_iff] at this
      exact this.1
    by_cases long : w.spelling.length ≤ u.length
    · have next : ((u ++ g :: r).drop w.spelling.length).head?.all (fun c => !c.isAlpha) =
          (u.drop w.spelling.length).head?.all (fun c => !c.isAlpha) := by
        rw [List.drop_append_of_le_length long]
        cases u.drop w.spelling.length <;> simp [letter]
      rw [behind?, behind?, next, List.take_append_of_le_length long,
        List.drop_append_of_le_length long]
      split <;> rfl
    · have short : Text.upper (u.take w.spelling.length) ≠ w.spelling.toList := by
        intro same
        have := congrArg List.length same
        simp only [Text.length_upper, List.length_take, size] at this
        omega
      have across : Text.upper ((u ++ g :: r).take w.spelling.length) ≠ w.spelling.toList := by
        intro same
        obtain ⟨k, hk⟩ : ∃ k, w.spelling.length - u.length = k + 1 :=
          ⟨w.spelling.length - u.length - 1, by omega⟩
        have capital : g.toUpper = g := by
          simp only [isGap, Bool.or_eq_true, beq_iff_eq] at hg
          rcases hg with rfl | rfl <;> rfl
        have held : g ∈ w.spelling.toList := by
          rw [← same, List.take_append, hk]
          simp [capital]
        simp [isGap_of_mem_spelling held] at hg
      rw [behind?, behind?, if_neg fun found => across found.1, if_neg fun found => short found.1]
      rfl
  start g u hg := by
    simp only [isGap, Bool.or_eq_true, beq_iff_eq] at hg
    rcases hg with rfl | rfl <;> rfl
  extend_nil rest := List.append_nil rest

/-- A keyword between two gaps divides a text that is closed and not divided before. -/
theorem divide?_append {w : Keyword} {s : Text} (closed : s.IsClosed)
    (whole : w.divide? s = none) (r : Text) :
    w.divide? (s ++ ' ' :: (w.spelling.toList ++ ' ' :: r)) = some (s ++ [' '], ' ' :: r) := by
  have alone : w.behind? none w.spelling.toList = some [] := by cases w <;> rfl
  have found : w.behind? none (w.spelling.toList ++ ' ' :: r) = some (' ' :: r) := by
    rw [w.stopsAtGaps.append none _ ' ' r rfl, alone]
    rfl
  have first : w.divide? (w.spelling.toList ++ ' ' :: r) = some ([], ' ' :: r) := by
    obtain ⟨c, rest, spelled⟩ := List.exists_cons_of_ne_nil w.spelling_ne_nil
    have exposed : Nesting.outside.exposes c = true :=
      exposes_of_mem_spelling (w := w) (by simp [spelled])
    rw [spelled] at found ⊢
    rw [divide?, Text.cut?, List.cons_append, Nesting.cutFrom?, if_pos exposed, ← List.cons_append,
      found]
  rw [divide?] at whole first ⊢
  rw [w.stopsAtGaps.cut?_append_gap rfl closed whole, first]
  rfl

end Keyword

namespace Relation

/-- A text without gaps does not reach over one. -/
private theorem isPrefixOf?_append_gap {p : Text} (hp : ∀ c ∈ p, isGap c = false) {g : Char}
    (hg : isGap g = true) (u r : Text) :
    p.isPrefixOf? (u ++ g :: r) = (p.isPrefixOf? u).map (· ++ g :: r) := by
  induction p generalizing u with
  | nil => simp [List.isPrefixOf?]
  | cons c p ih =>
      have other : c ≠ g := by
        rintro rfl
        simp [hp c List.mem_cons_self] at hg
      have ih := ih fun d hd => hp d (List.mem_cons_of_mem _ hd)
      cases u with
      | nil => simp [List.isPrefixOf?, other]
      | cons d u =>
          rw [List.cons_append, List.isPrefixOf?, List.isPrefixOf?, ih]
          split <;> rfl

theorem stopsAtGaps :
    StopsAtGaps (fun _ s => leading? s) fun more found => (found.1, found.2 ++ more) where
  nil _ := rfl
  append _ u g r hg := by
    have spelled : spellings.all (·.1.toList.all (!isGap ·)) = true := by decide
    have gapless : ∀ s ∈ spellings, ∀ c ∈ s.1.toList, isGap c = false := by simpa using spelled
    rw [leading?, leading?]
    generalize spellings = list at gapless
    induction list with
    | nil => rfl
    | cons s list ih =>
        obtain ⟨spelling, relation⟩ := s
        have ih := ih fun s hs => gapless s (List.mem_cons_of_mem _ hs)
        have reach := isPrefixOf?_append_gap (gapless _ List.mem_cons_self) hg u r
        rw [List.findSome?_cons, List.findSome?_cons, ih]
        dsimp only
        rw [reach]
        cases spelling.toList.isPrefixOf? u <;> rfl
  start _ _ _ := rfl
  extend_nil found := by rw [List.append_nil]

/-- The first character decides whether a text starts with a relation. -/
theorem leading?_cons_eq_none_iff {c : Char} {t : Text} :
    leading? (c :: t) = none ↔ c ∉ ['<', '>', '='] := by
  simp only [List.mem_cons, List.not_mem_nil, or_false, not_or]
  constructor
  · intro nothing
    simp only [leading?, spellings, List.findSome?_eq_none_iff, List.forall_mem_cons,
      Option.map_eq_none_iff] at nothing
    refine ⟨?_, ?_, ?_⟩ <;> rintro rfl <;> simp [List.isPrefixOf?] at nothing
  · rintro ⟨less, greater, equal⟩
    simp [leading?, spellings, List.isPrefixOf?, Ne.symm less, Ne.symm greater, Ne.symm equal]

/-- A text starts with the relation that is spelled there, unless it goes on to spell a longer
one. -/
theorem leading?_spelling {spelling : String} {relation : Relation} {r : Text}
    (spelled : (spelling, relation) ∈ spellings)
    (longest : spelling.length = 2 ∨ ∀ c ∈ r.head?, c ∉ ['<', '>', '=']) :
    leading? (spelling.toList ++ r) = some (relation, r) := by
  -- the spellings of two characters are tried first
  rw [← List.take_append_drop 6 spellings, List.mem_append] at spelled
  rcases spelled with long | short
  · have found : ∀ s ∈ spellings.take 6, leading? (s.1.toList ++ r) = some (s.2, r) := by
      simp [leading?, spellings, List.isPrefixOf?]
    simpa only using found (spelling, relation) long
  · have single : ∀ s ∈ spellings.drop 6, s.1.length = 1 := by decide
    have other := longest.resolve_left (by rw [single _ short]; decide)
    have found : ∀ s ∈ spellings.drop 6, leading? (s.1.toList ++ r) = some (s.2, r) := by
      cases r with
      | nil => simp [leading?, spellings, List.isPrefixOf?]
      | cons c r =>
          have other := other c rfl
          simp only [List.mem_cons, List.not_mem_nil, or_false, not_or] at other
          obtain ⟨less, greater, equal⟩ := other
          simp [leading?, spellings, List.isPrefixOf?, Ne.symm less, Ne.symm greater,
            Ne.symm equal]
    simpa only using found (spelling, relation) short

/-- The first exposed relation divides a text, whatever stands around it. -/
theorem divide?_append {s t rest : Text} {relation : Relation} (closed : s.IsClosed)
    (whole : divide? s = none) (found : leading? t = some (relation, rest)) :
    divide? (s ++ t) = some (s, relation, rest) := by
  have reach : ∀ (before : Option Char) (u : Text), u ≠ [] → leading? u = none →
      leading? (u ++ t) = none := by
    intro before u filled nothing
    obtain ⟨c, u, rfl⟩ := List.exists_cons_of_ne_nil filled
    exact leading?_cons_eq_none_iff.mpr (leading?_cons_eq_none_iff.mp nothing)
  rw [divide?] at whole ⊢
  rw [Text.cut?, Nesting.cutFrom?_append reach whole, closed]
  cases t with
  | nil => cases found
  | cons c t =>
      have exposed : Nesting.outside.exposes c = true := by
        have starts : c ∈ ['<', '>', '='] := by
          by_contra other
          rw [leading?_cons_eq_none_iff.mpr other] at found
          cases found
        have outside : ['<', '>', '='].all Nesting.outside.exposes = true := by decide
        exact List.all_eq_true.mp outside c starts
      rw [Nesting.cutFrom?, if_pos exposed, found]
      simp

end Relation

end LineBasic
