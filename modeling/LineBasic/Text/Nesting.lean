import LineBasic.Text.Basic

/-!
# Nesting

Separators count only where they stand outside string literals and outside
parentheses. A scan carries its position in this nesting from left to right: a
double quote enters or leaves a literal, and parentheses count outside literals
only. A closing parenthesis without a partner is ignored.

`segments` and `split` divide a text at every exposed separator, `cut?` at the
first exposed place that a given matcher accepts. Main statements: joining the
pieces gives the text back, and there is one piece more than there are exposed
separators.
-/

namespace LineBasic

/-- Where a scan stands: inside a string literal or not, and within how many
open parentheses. -/
structure Nesting where
  quoted : Bool := false
  depth : Nat := 0
  deriving DecidableEq, Repr

namespace Nesting

/-- The position at the start of every text. -/
def outside : Nesting := {}

/-- The position behind one more character. -/
def after (n : Nesting) (c : Char) : Nesting :=
  if c = '"' then { n with quoted := !n.quoted }
  else if n.quoted then n
  else if c = '(' then { n with depth := n.depth + 1 }
  else if c = ')' then { n with depth := n.depth - 1 }
  else n

/-- The position behind a whole text. -/
def scan (n : Nesting) (t : Text) : Nesting := t.foldl after n

@[simp] theorem scan_nil (n : Nesting) : n.scan [] = n := rfl

@[simp] theorem scan_cons (n : Nesting) (c : Char) (t : Text) :
    n.scan (c :: t) = (n.after c).scan t := rfl

@[simp] theorem scan_append (n : Nesting) (s t : Text) :
    n.scan (s ++ t) = (n.scan s).scan t := by
  simp [scan]

/-- Whether a character at this position is outside literals and parentheses.
The delimiters themselves never are. -/
def exposes (n : Nesting) (c : Char) : Bool :=
  !n.quoted && n.depth == 0 && c != '"' && c != '(' && c != ')'

/-- An exposed character does not move the scan. -/
theorem after_of_exposes {n : Nesting} {c : Char} (h : n.exposes c = true) : n.after c = n := by
  simp only [exposes, Bool.and_eq_true, bne_iff_ne, ne_eq] at h
  simp [after, h.1.1.2, h.1.2, h.2]

theorem exposes_iff_of_outside {c : Char} :
    outside.exposes c = true ↔ c ≠ '"' ∧ c ≠ '(' ∧ c ≠ ')' := by
  simp [exposes, outside, and_assoc]

/-- The exposed characters of a text, in order. -/
def exposed (n : Nesting) : Text → Text
  | [] => []
  | c :: t => if n.exposes c then c :: exposed (n.after c) t else exposed (n.after c) t

/-- The text up to the first exposed separator, and every separator with the text
up to the next one. -/
def splitFrom (sep : Char → Bool) (n : Nesting) : Text → Text × List (Char × Text)
  | [] => ([], [])
  | c :: t =>
    let rest := splitFrom sep (n.after c) t
    if n.exposes c && sep c then ([], (c, rest.1) :: rest.2) else (c :: rest.1, rest.2)

/-- The text up to the first exposed place that `accept?` takes, with what it
answers there. The matcher sees the character before the place and the text from
the place on. -/
def cutFrom? (accept? : Option Char → Text → Option α) (n : Nesting) (before : Option Char) :
    Text → Option (Text × α)
  | [] => none
  | c :: t =>
    match if n.exposes c then accept? before (c :: t) else none with
    | some found => some ([], found)
    | none => (cutFrom? accept? (n.after c) (some c) t).map fun (left, found) => (c :: left, found)

end Nesting

namespace Text

/-- A text divided at its exposed separators. -/
def segments (sep : Char → Bool) (t : Text) : Text × List (Char × Text) :=
  Nesting.splitFrom sep Nesting.outside t

/-- The pieces of a text between exposed separators; there is always at least one. -/
def split (sep : Char) (t : Text) : List Text :=
  let parts := segments (· == sep) t
  parts.1 :: parts.2.map Prod.snd

/-- Divides a text at the first exposed place that the matcher takes. -/
def cut? (accept? : Option Char → Text → Option α) (t : Text) : Option (Text × α) :=
  Nesting.cutFrom? accept? Nesting.outside none t

end Text

namespace Nesting

/-- Dividing loses nothing. -/
theorem append_splitFrom (sep : Char → Bool) (n : Nesting) (t : Text) :
    (splitFrom sep n t).1 ++ (splitFrom sep n t).2.flatMap (fun part => part.1 :: part.2) = t := by
  induction t generalizing n with
  | nil => rfl
  | cons c t ih =>
    have ih := ih (n.after c)
    by_cases h : (n.exposes c && sep c) = true
    · rw [splitFrom, if_pos h, List.flatMap_cons, List.nil_append, List.cons_append, ih]
    · rw [splitFrom, if_neg h, List.cons_append, ih]

/-- The separators found are the exposed ones, in order. -/
theorem separators_splitFrom (sep : Char → Bool) (n : Nesting) (t : Text) :
    (splitFrom sep n t).2.map Prod.fst = (exposed n t).filter sep := by
  induction t generalizing n with
  | nil => rfl
  | cons c t ih =>
    have ih := ih (n.after c)
    rw [splitFrom, exposed]
    by_cases hx : n.exposes c = true <;> by_cases hc : sep c = true <;> simp_all

end Nesting

namespace Text

/-- Joining the pieces with the separator gives the text back. -/
theorem intercalate_split (sep : Char) (t : Text) : [sep].intercalate (split sep t) = t := by
  suffices ∀ (first : Text) (parts : List (Char × Text)), (∀ part ∈ parts, part.1 = sep) →
      [sep].intercalate (first :: parts.map Prod.snd) =
        first ++ parts.flatMap (fun part => part.1 :: part.2) by
    rw [split, this, segments, Nesting.append_splitFrom]
    intro part hp
    have : part.1 ∈ (Nesting.exposed Nesting.outside t).filter (· == sep) := by
      rw [← Nesting.separators_splitFrom]
      exact List.mem_map_of_mem hp
    simpa using (List.mem_filter.mp this).2
  intro first parts hs
  induction parts generalizing first with
  | nil => simp
  | cons part parts ih =>
    have hp : part.1 = sep := hs part (by simp)
    rw [List.map_cons, List.intercalate_cons_cons, ih _ fun q hq => hs q (by simp [hq])]
    simp [hp]

/-- One piece more than there are exposed separators. -/
theorem length_split (sep : Char) (t : Text) :
    (split sep t).length = (Nesting.exposed Nesting.outside t).count sep + 1 := by
  have := congrArg List.length (Nesting.separators_splitFrom (· == sep) Nesting.outside t)
  simpa [split, segments, List.count_eq_length_filter] using this

/-- A piece is shorter than the text if there is another piece. -/
theorem length_lt_of_mem_split {sep : Char} {s t : Text} (h : s ∈ split sep t)
    (two : 2 ≤ (split sep t).length) : s.length < t.length := by
  have total := congrArg List.length
    (Nesting.append_splitFrom (· == sep) Nesting.outside t)
  simp only [split, segments] at h two
  generalize Nesting.splitFrom (· == sep) Nesting.outside t = parts at h two total
  rcases List.mem_cons.mp h with rfl | h
  · cases hp : parts.2 with
    | nil => simp [hp] at two
    | cons part rest =>
      simp only [hp, List.flatMap_cons, List.cons_append, List.length_append,
        List.length_cons] at total
      omega
  · obtain ⟨part, hp, rfl⟩ := List.mem_map.mp h
    obtain ⟨front, back, hsplit⟩ := List.append_of_mem hp
    simp only [hsplit, List.flatMap_append, List.flatMap_cons, List.cons_append,
      List.length_append, List.length_cons] at total
    omega

/-- What a matcher answers at a cut, it answers for the text behind the left part. -/
theorem exists_of_cut? {accept? : Option Char → Text → Option α} {t left : Text} {found : α}
    (h : cut? accept? t = some (left, found)) :
    ∃ before right, t = left ++ right ∧ accept? before right = some found := by
  suffices ∀ (n : Nesting) (before : Option Char),
      Nesting.cutFrom? accept? n before t = some (left, found) →
        ∃ before right, t = left ++ right ∧ accept? before right = some found from this _ _ h
  clear h
  induction t generalizing left with
  | nil => intro n before h; simp [Nesting.cutFrom?] at h
  | cons c t ih =>
    intro n before h
    rw [Nesting.cutFrom?] at h
    split at h
    · next hf =>
      obtain ⟨rfl, rfl⟩ : [] = left ∧ _ = found := by simpa using h
      refine ⟨before, c :: t, rfl, ?_⟩
      split at hf
      · exact hf
      · cases hf
    · obtain ⟨⟨left', found'⟩, hr, heq⟩ := Option.map_eq_some_iff.mp h
      obtain ⟨rfl, rfl⟩ : c :: left' = left ∧ found' = found := by simpa using heq
      obtain ⟨b, right, rfl, hb⟩ := ih _ _ hr
      exact ⟨b, right, rfl, hb⟩

end Text

end LineBasic
