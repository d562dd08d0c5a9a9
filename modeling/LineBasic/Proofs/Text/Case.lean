import LineBasic.Keyword
import LineBasic.Relation
import LineBasic.Text.Name
import Mathlib

/-!
# Letter case

No scanner of this library tells a small letter from its capital: delimiters, gaps and signs
are no letters, and words are compared in their capital form. So whatever is read from a text in
capitals is what is read from the text itself, in capitals. Each equation here says so of one
scanner, and nothing about the scanned text is assumed.
-/

namespace LineBasic

/-- A character that is no letter has no other case. -/
theorem toUpper_eq_iff {c d : Char} (h : d.isAlpha = false) : c.toUpper = d ↔ c = d := by
  by_cases small : c.isLower = true
  · have letter : c.isAlpha = true := by simp [Char.isAlpha, small]
    constructor
    · rintro rfl
      rw [Char.isAlpha_toUpper_eq_isAlpha, letter] at h
      cases h
    · rintro rfl
      rw [letter] at h
      cases h
  · rw [Char.toUpper_eq_of_not_isLower small]

theorem toUpper_beq {c d : Char} (h : d.isAlpha = false) : (c.toUpper == d) = (c == d) := by
  rw [Bool.eq_iff_iff, beq_iff_eq, beq_iff_eq, toUpper_eq_iff h]

/-- A set of characters that holds a small letter if it holds the capital. -/
def IgnoresCase (p : Char → Bool) : Prop := ∀ c : Char, p c.toUpper = p c

namespace IgnoresCase

theorem of_not_isLower {p : Char → Bool} (h : ∀ c : Char, c.isAlpha = true → p c = false) :
    IgnoresCase p := by
  intro c
  by_cases small : c.isLower = true
  · have letter : c.isAlpha = true := by simp [Char.isAlpha, small]
    rw [h c letter, h c.toUpper ((Char.isAlpha_toUpper_eq_isAlpha c).trans letter)]
  · rw [Char.toUpper_eq_of_not_isLower small]

theorem isAlpha : IgnoresCase Char.isAlpha := Char.isAlpha_toUpper_eq_isAlpha

theorem isAlphanum : IgnoresCase Char.isAlphanum := by
  intro c
  by_cases small : c.isLower = true
  · simp [Char.isAlphanum, Char.isAlpha, small]
  · rw [Char.toUpper_eq_of_not_isLower small]

theorem isBlank : IgnoresCase isBlank := by
  refine of_not_isLower fun c letter => Bool.eq_false_iff.mpr fun blank => ?_
  have := isAlphanum_eq_false_of_isBlank blank
  simp [Char.isAlphanum, letter] at this

theorem isGap : IgnoresCase isGap := by
  refine of_not_isLower fun c letter => Bool.eq_false_iff.mpr fun gap => ?_
  have := isAlphanum_eq_false_of_isBlank (isBlank_of_isGap gap)
  simp [Char.isAlphanum, letter] at this

theorem beq {d : Char} (h : d.isAlpha = false) : IgnoresCase (· == d) := fun _ => toUpper_beq h

theorem bne {d : Char} (h : d.isAlpha = false) : IgnoresCase (· != d) :=
  fun _ => congrArg not (toUpper_beq h)

end IgnoresCase

namespace Text

variable {p : Char → Bool} {t : Text}

theorem upper_upper (t : Text) : t.upper.upper = t.upper := by
  simp [upper]

theorem isEmpty_upper (t : Text) : t.upper.isEmpty = t.isEmpty := by
  simp [upper]

theorem dropWhile_upper (h : IgnoresCase p) (t : Text) :
    t.upper.dropWhile p = upper (t.dropWhile p) := by
  rw [upper, List.dropWhile_map, show p ∘ Char.toUpper = p from funext h]
  rfl

theorem takeWhile_upper (h : IgnoresCase p) (t : Text) :
    t.upper.takeWhile p = upper (t.takeWhile p) := by
  rw [upper, List.takeWhile_map, show p ∘ Char.toUpper = p from funext h]
  rfl

theorem reverse_upper (t : Text) : t.upper.reverse = upper t.reverse := by
  simp [upper]

theorem trimWhile_upper (h : IgnoresCase p) (t : Text) :
    t.upper.trimWhile p = (t.trimWhile p).upper := by
  rw [trimWhile, dropWhile_upper h, dropEndWhile, reverse_upper, dropWhile_upper h, reverse_upper]
  rfl

theorem trim_upper (t : Text) : t.upper.trim = t.trim.upper := trimWhile_upper .isBlank t

theorem trimGaps_upper (t : Text) : t.upper.trimGaps = t.trimGaps.upper :=
  trimWhile_upper .isGap t

theorem canonical_upper (t : Text) : t.upper.canonical = t.canonical := by
  rw [canonical, trim_upper, upper_upper, canonical]

theorem stem_upper (t : Text) : stem (upper t) = upper (stem t) := by
  have dollar (c : Char) : c.toUpper = '$' ↔ c = '$' := toUpper_eq_iff rfl
  simp only [stem, upper, List.getLast?_map, Option.map_eq_some_iff, dollar, exists_eq_right]
  split
  · rw [List.map_dropLast]
  · rfl

theorem isName_upper (t : Text) : isName (upper t) = isName t := by
  rw [isName, isName, stem_upper]
  cases stem t with
  | nil => rfl
  | cons c rest =>
      have digits (d : Char) : d.toUpper.isAlphanum = d.isAlphanum := IgnoresCase.isAlphanum d
      simp [upper, digits, Function.comp_def]

theorem assignment?_upper (t : Text) :
    t.upper.assignment? = t.assignment?.map (Prod.map upper upper) := by
  have sign : IgnoresCase (· != '=') := .bne rfl
  rw [assignment?, assignment?, dropWhile_upper sign, takeWhile_upper sign, trimGaps_upper]
  cases t.dropWhile (· != '=') with
  | nil => rfl
  | cons c value =>
      dsimp only [upper_cons]
      rw [trimGaps_upper, isName_upper]
      split <;> rfl

end Text

namespace Nesting

theorem after_toUpper (n : Nesting) (c : Char) : n.after c.toUpper = n.after c := by
  have quote : c.toUpper = '"' ↔ c = '"' := toUpper_eq_iff rfl
  have opening : c.toUpper = '(' ↔ c = '(' := toUpper_eq_iff rfl
  have closing : c.toUpper = ')' ↔ c = ')' := toUpper_eq_iff rfl
  simp only [after, quote, opening, closing]

theorem exposes_toUpper (n : Nesting) (c : Char) : n.exposes c.toUpper = n.exposes c := by
  have quote : (c.toUpper != '"') = (c != '"') := IgnoresCase.bne rfl c
  have opening : (c.toUpper != '(') = (c != '(') := IgnoresCase.bne rfl c
  have closing : (c.toUpper != ')') = (c != ')') := IgnoresCase.bne rfl c
  simp only [exposes, quote, opening, closing]

theorem splitFrom_upper {sep : Char → Bool} (h : IgnoresCase sep) (n : Nesting) (t : Text) :
    splitFrom sep n t.upper =
      (splitFrom sep n t).map Text.upper (List.map (Prod.map Char.toUpper Text.upper)) := by
  induction t generalizing n with
  | nil => rfl
  | cons c t ih =>
      rw [Text.upper_cons, splitFrom, splitFrom, after_toUpper, exposes_toUpper, h, ih]
      dsimp only [Prod.map_fst, Prod.map_snd]
      split <;> rfl

theorem cutFrom?_upper {α : Type} {accept? : Option Char → Text → Option α} {f : α → α}
    (h : ∀ before t, accept? (before.map Char.toUpper) (Text.upper t) = (accept? before t).map f)
    (n : Nesting) (before : Option Char) (t : Text) :
    cutFrom? accept? n (before.map Char.toUpper) t.upper =
      (cutFrom? accept? n before t).map (Prod.map Text.upper f) := by
  induction t generalizing n before with
  | nil => rfl
  | cons c t ih =>
      have taken := h before (c :: t)
      have rest := ih (n.after c) (some c)
      rw [Option.map_some] at rest
      rw [Text.upper_cons] at taken ⊢
      rw [cutFrom?, cutFrom?, after_toUpper, exposes_toUpper, taken, rest]
      have nothing (x : Option (Text × α)) :
          (x.map (Prod.map Text.upper f)).map (fun part => (c.toUpper :: part.1, part.2)) =
            (x.map fun part => (c :: part.1, part.2)).map (Prod.map Text.upper f) := by
        cases x <;> rfl
      by_cases exposed : n.exposes c = true
      · rw [if_pos exposed, if_pos exposed]
        cases accept? before (c :: t) with
        | none => exact nothing _
        | some found => rfl
      · rw [if_neg exposed, if_neg exposed]
        exact nothing _

end Nesting

namespace Text

theorem segments_upper {sep : Char → Bool} (h : IgnoresCase sep) (t : Text) :
    t.upper.segments sep =
      (t.segments sep).map upper (List.map (Prod.map Char.toUpper upper)) :=
  Nesting.splitFrom_upper h _ t

theorem split_upper {sep : Char} (h : sep.isAlpha = false) (t : Text) :
    t.upper.split sep = (t.split sep).map upper := by
  rw [split, split, segments_upper (.beq h)]
  simp [Function.comp_def]

theorem cut?_upper {α : Type} {accept? : Option Char → Text → Option α} {f : α → α}
    (h : ∀ before t, accept? (before.map Char.toUpper) (upper t) = (accept? before t).map f)
    (t : Text) : cut? accept? t.upper = (cut? accept? t).map (Prod.map upper f) :=
  Nesting.cutFrom?_upper h _ none t

end Text

namespace Keyword

theorem ofText?_upper (t : Text) : ofText? t.upper = ofText? t := by
  rw [ofText?, Text.upper_upper, ofText?]

theorem leading?_upper (t : Text) :
    leading? t.upper = (leading? t).map (Prod.map id Text.upper) := by
  rw [leading?, leading?, Text.dropWhile_upper .isGap]
  generalize t.dropWhile isGap = s
  have word : (ofText? ((Text.upper s).takeWhile Char.isAlpha)).map
        (fun w => (w, Text.trimGaps ((Text.upper s).dropWhile Char.isAlpha))) =
      ((ofText? (s.takeWhile Char.isAlpha)).map
        fun w => (w, Text.trimGaps (s.dropWhile Char.isAlpha))).map (Prod.map id Text.upper) := by
    rw [Text.takeWhile_upper .isAlpha, Text.dropWhile_upper .isAlpha, ofText?_upper,
      Text.trimGaps_upper, Option.map_map]
    rfl
  by_cases mark : s.head? = some '?'
  · obtain ⟨rest, rfl⟩ := List.head?_eq_some_iff.mp mark
    exact congrArg (fun rest => some (question, rest)) (Text.trimGaps_upper rest)
  · split
    · next rest same =>
      refine absurd ?_ mark
      have first := congrArg List.head? same
      rw [Text.upper, List.head?_map] at first
      obtain ⟨c, hc, same⟩ := Option.map_eq_some_iff.mp first
      rw [hc, (toUpper_eq_iff rfl).mp same]
    · split
      · exact absurd rfl mark
      · exact word

theorem behind?_upper (w : Keyword) (before : Option Char) (t : Text) :
    w.behind? (before.map Char.toUpper) t.upper = (w.behind? before t).map Text.upper := by
  have taken : Text.upper (t.upper.take w.spelling.length) =
      Text.upper (t.take w.spelling.length) := by
    rw [← Text.upper_upper (t.take _)]
    exact congrArg Text.upper List.map_take.symm
  have left : t.upper.drop w.spelling.length = Text.upper (t.drop w.spelling.length) :=
    (List.map_drop ..).symm
  have letter (c : Char) : c.toUpper.isAlpha = c.isAlpha := IgnoresCase.isAlpha c
  have dollar (c : Char) : (c.toUpper != '$') = (c != '$') := IgnoresCase.bne rfl c
  have front : (before.map Char.toUpper).all (fun c => !c.isAlpha && c != '$') =
      before.all (fun c => !c.isAlpha && c != '$') := by
    cases before with
    | none => rfl
    | some c => simp only [Option.map_some, Option.all_some, letter, dollar]
  have back : (Text.upper (t.drop w.spelling.length)).head?.all (fun c => !c.isAlpha) =
      (t.drop w.spelling.length).head?.all (fun c => !c.isAlpha) := by
    cases t.drop w.spelling.length with
    | nil => rfl
    | cons c rest => simp only [Text.upper_cons, List.head?_cons, Option.all_some, letter]
  rw [behind?, behind?, taken, front, left, back]
  split <;> rfl

theorem divide?_upper (w : Keyword) (t : Text) :
    w.divide? t.upper = (w.divide? t).map (Prod.map Text.upper Text.upper) :=
  Text.cut?_upper w.behind?_upper t

end Keyword

namespace Relation

theorem isPrefixOf?_upper {p : Text} (h : ∀ c ∈ p, c.isAlpha = false) (t : Text) :
    p.isPrefixOf? t.upper = (p.isPrefixOf? t).map Text.upper := by
  induction p generalizing t with
  | nil => rfl
  | cons c p ih =>
      cases t with
      | nil => rfl
      | cons d t =>
          have same : (c == d.toUpper) = (c == d) := by
            rw [Bool.beq_comm, toUpper_beq (h c List.mem_cons_self), Bool.beq_comm]
          rw [Text.upper_cons, List.isPrefixOf?, List.isPrefixOf?, same,
            ih fun e he => h e (List.mem_cons_of_mem c he)]
          split <;> rfl

theorem leading?_upper (t : Text) :
    leading? t.upper = (leading? t).map (Prod.map id Text.upper) := by
  have spelled : spellings.all (·.1.toList.all (!·.isAlpha)) = true := by decide
  have signs : ∀ s ∈ spellings, ∀ c ∈ s.1.toList, c.isAlpha = false := by simpa using spelled
  rw [leading?, leading?]
  generalize spellings = list at signs
  induction list with
  | nil => rfl
  | cons s list ih =>
      have sign := isPrefixOf?_upper (signs s List.mem_cons_self) t
      rw [List.findSome?_cons, List.findSome?_cons,
        ih fun u hu => signs u (List.mem_cons_of_mem s hu)]
      dsimp only
      rw [sign]
      cases s.1.toList.isPrefixOf? t <;> rfl

theorem divide?_upper (t : Text) :
    divide? t.upper = (divide? t).map (Prod.map Text.upper (Prod.map id Text.upper)) :=
  Text.cut?_upper (fun _ => leading?_upper) t

end Relation

end LineBasic
