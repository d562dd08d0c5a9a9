import LineBasic.Machine.Basic
import LineBasic.Proofs.Expression.Joining
import LineBasic.Proofs.Statement.Delimiters

/-!
# Printed pieces

What is to be printed is cut at its exposed semicolons and commas, and the pieces are printed one
after another: nothing for a blank piece, a space for a comma, and a new line at the end unless the
last separator is a semicolon with nothing behind it. Blanks around the whole go to its first and
its last piece, where they do not count (`Clause.print_append_blank`), so it does not matter which
of them are cut off before.

All pieces are evaluated before anything is written. Two equations say how, one for a piece in front
of a separator and one for the last piece (`Machine.printParts_separator`,
`Machine.printParts_last`), and everything else is an induction on the pieces.
-/

namespace LineBasic

open Expression (evalText)

/-- The characters that separate the pieces of what is to be printed. -/
def isPrintSeparator (c : Char) : Bool := c == ';' || c == ','

theorem exposes_of_isPrintSeparator {c : Char} (h : isPrintSeparator c = true) :
    Nesting.outside.exposes c = true := by
  rw [isPrintSeparator, Bool.or_eq_true, beq_iff_eq, beq_iff_eq] at h
  rcases h with rfl | rfl <;> decide

theorem isPrintSeparator_of_isBlank {c : Char} (h : isBlank c = true) :
    isPrintSeparator c = false := by
  rw [Bool.eq_false_iff]
  intro separates
  rw [isPrintSeparator, Bool.or_eq_true, beq_iff_eq, beq_iff_eq] at separates
  rcases separates with rfl | rfl <;> exact absurd h (by decide)

namespace Clause

/-- What a separator prints. -/
def spacing (separator : Char) : Text := if separator = ',' then [' '] else []

/-- Whether the last of some parts is a semicolon with nothing behind it. -/
def endsOpen (parts : List (Char × Text)) : Bool :=
  parts.getLast?.any fun part => part.1 == ';' && !decide part.2.IsFilled

/-- The same of a piece and the parts behind it, where the piece may have a separator before it. -/
def endsOpenFrom (last : Option Char) (piece : Text) : List (Char × Text) → Bool
  | [] => last == some ';' && !decide piece.IsFilled
  | (separator, following) :: rest => endsOpenFrom (some separator) following rest

theorem endsOpenFrom_none (first : Text) (parts : List (Char × Text)) :
    endsOpenFrom none first parts = endsOpen parts := by
  have behind (separator : Char) (piece : Text) (rest : List (Char × Text)) :
      endsOpenFrom (some separator) piece rest = endsOpen ((separator, piece) :: rest) := by
    induction rest generalizing separator piece with
    | nil => rfl
    | cons part rest ih =>
        rw [endsOpenFrom, ih, endsOpen, endsOpen, List.getLast?_cons_cons]
  cases parts with
  | nil => rfl
  | cons part parts => exact behind part.1 part.2 parts

variable {last : Option Char} {s t before after : Text} {parts : List (Char × Text)}

theorem printed_congr (h : s.trim = t.trim) : printed s = printed t := by
  rw [printed, printed, Expression.ofText, Expression.ofText, h]

theorem printParts_congr (h : s.trim = t.trim) :
    printParts last s parts = printParts last t parts := by
  cases parts with
  | nil => rw [printParts, printParts, Expression.ofText, Expression.ofText, h]
  | cons part parts => rw [printParts, printParts, printed_congr h]

theorem print_eq (t : Text) :
    print t = whole (.print (printParts none (t.segments isPrintSeparator).1
      (t.segments isPrintSeparator).2)) := rfl

/-- Blanks behind a text go to its last piece. -/
theorem printParts_append_blank (blank : ∀ c ∈ after, isBlank c = true) (n : Nesting)
    (last : Option Char) (front s : Text) :
    printParts last (front ++ (Nesting.splitFrom isPrintSeparator n (s ++ after)).1)
        (Nesting.splitFrom isPrintSeparator n (s ++ after)).2 =
      printParts last (front ++ (Nesting.splitFrom isPrintSeparator n s).1)
        (Nesting.splitFrom isPrintSeparator n s).2 := by
  induction s generalizing n last front with
  | nil =>
      have whole := Nesting.splitFrom_append (n := n) (fun c hc =>
        isPrintSeparator_of_isBlank (blank c (Nesting.mem_of_mem_exposed hc))) []
      rw [List.append_nil] at whole
      have trimmed : Text.trim (front ++ after) = front.trim :=
        Text.trimWhile_append_right blank front
      rw [List.nil_append, whole]
      simp only [Nesting.splitFrom, List.append_nil]
      exact printParts_congr trimmed
  | cons c s ih =>
      rw [List.cons_append, Nesting.splitFrom, Nesting.splitFrom]
      split
      · have rest := ih (n.after c) (some c) []
        rw [List.nil_append, List.nil_append] at rest
        rw [printParts, printParts, rest]
      · have rest := ih (n.after c) last (front ++ [c])
        rw [List.append_assoc, List.append_assoc, List.singleton_append, List.singleton_append]
          at rest
        exact rest

/-- Blanks around a text do not change what it asks to print. -/
theorem print_append_blank (front : ∀ c ∈ before, isBlank c = true)
    (back : ∀ c ∈ after, isBlank c = true) (t : Text) :
    print (before ++ (t ++ after)) = print t := by
  have start := Nesting.splitFrom_append (n := Nesting.outside)
    (fun c hc => isPrintSeparator_of_isBlank (front c (Nesting.mem_of_mem_exposed hc))) (t ++ after)
  rw [Nesting.scan_of_blank front] at start
  have trimmed (u : Text) : Text.trim (before ++ u) = u.trim := Text.trimWhile_append_left front u
  have behind := printParts_append_blank back Nesting.outside none [] t
  rw [print_eq, print_eq, Text.segments, start]
  exact congrArg (fun parts => whole (.print parts)) ((printParts_congr (trimmed _)).trans behind)

theorem print_trimGaps (t : Text) : print t.trimGaps = print t := by
  obtain ⟨before, after, joined, front, back⟩ := Text.exists_append_trimWhile isGap t
  have same := print_append_blank (fun c hc => isBlank_of_isGap (front c hc))
    (fun c hc => isBlank_of_isGap (back c hc)) t.trimGaps
  rw [Text.trimGaps, ← joined] at same
  exact same.symm

end Clause

namespace Statement

/-- Either spelling of the keyword opens what is to be printed. -/
theorem parse_print {opening s first : Text} {parts : List (Char × Text)} (line : Option Nat)
    (opens : opening ∈ ["PRINT ".toList, ['?']]) (cut : s.Cut isPrintSeparator first parts) :
    parse line (opening ++ s) = .ok (.print (Clause.printParts none first parts)) := by
  have pieces : Clause.print s = .whole (.print (Clause.printParts none first parts)) := by
    rw [Clause.print_eq, cut.segments_eq fun _ => exposes_of_isPrintSeparator]
  have spaced : Clause.print (' ' :: s) = Clause.print s := by
    have padded := Clause.print_append_blank
      (List.forall_mem_singleton.mpr (by decide : isBlank ' ' = true)) (List.forall_mem_nil _) s
    rwa [List.append_nil] at padded
  refine parse_of_read ?_
  rw [Clause.read]
  rcases List.mem_pair.mp opens with rfl | rfl
  · have keyword : Keyword.leading? ("PRINT ".toList ++ s) =
        some (.print, Text.trimGaps (' ' :: s)) := rfl
    rw [keyword]
    exact congrArg Except.ok ((Clause.print_trimGaps _).trans (spaced.trans pieces))
  · have keyword : Keyword.leading? (['?'] ++ s) = some (.question, Text.trimGaps s) := rfl
    rw [keyword]
    exact congrArg Except.ok ((Clause.print_trimGaps s).trans pieces)

end Statement

namespace Machine

open Clause (spacing endsOpen endsOpenFrom endsOpenFrom_none)

variable {m : Machine} {item : Text → Text} {last : Option Char} {piece first : Text}
variable {parts : List (Char × Text)}

/-- What a piece prints: its value, or nothing if it is blank. -/
def shown (m : Machine) (piece : Text) : Except Error Text :=
  if piece.IsFilled then (evalText m.vars piece).map Value.print else .ok []

theorem printParts_append (m : Machine) (front back : List PrintPart) :
    m.printParts (front ++ back) = do
      let text ← m.printParts front
      let rest ← m.printParts back
      return text ++ rest := by
  rw [printParts, printParts, printParts, List.mapM_append]
  cases front.mapM m.printPart with
  | error e => rfl
  | ok texts =>
      cases back.mapM m.printPart with
      | error e => rfl
      | ok texts' => exact congrArg Except.ok List.flatten_append

theorem printParts_value (m : Machine) (piece : Text) :
    m.printParts [.value (.ofText piece)] = (evalText m.vars piece).map Value.print := by
  have evaluated : (Expression.ofText piece).eval m.vars = evalText m.vars piece :=
    Expression.evalText_trim m.vars piece
  rw [printParts, List.mapM_cons, printPart, evaluated]
  cases evalText m.vars piece with
  | error e => rfl
  | ok v => exact congrArg Except.ok (List.append_nil v.print)

theorem printParts_printed (m : Machine) (piece : Text) :
    m.printParts (Clause.printed piece) = m.shown piece := by
  rw [Clause.printed, shown]
  by_cases filled : piece.IsFilled
  · rw [if_neg (mt Text.isEmpty_trim_iff.mp (not_not_intro filled)), if_pos filled,
      printParts_value]
  · rw [if_pos (Text.isEmpty_trim_iff.mpr filled), if_neg filled]
    rfl

/-- The last piece is followed by a new line, unless it is blank behind a semicolon. -/
theorem printParts_last (m : Machine) (last : Option Char) (piece : Text) :
    m.printParts (Clause.printParts last piece []) = do
      let text ← m.shown piece
      return text ++ if endsOpenFrom last piece [] then [] else ['\n'] := by
  have newline : m.printParts [.newline] = .ok ['\n'] := rfl
  rw [Clause.printParts, endsOpenFrom, shown]
  by_cases filled : piece.IsFilled
  · rw [if_neg (mt Text.isEmpty_trim_iff.mp (not_not_intro filled)), if_pos filled,
      ← List.singleton_append, printParts_append, printParts_value, newline]
    simp [filled, bind, Except.bind, pure, Except.pure]
  · rw [if_pos (Text.isEmpty_trim_iff.mpr filled), if_neg filled]
    by_cases semicolon : last = some ';'
    · simp [semicolon, filled]
      rfl
    · rw [if_neg semicolon, newline]
      simp [semicolon]

/-- A piece in front of others is printed before the space that its separator stands for. -/
theorem printParts_separator (m : Machine) (last : Option Char) (piece : Text) (separator : Char)
    (following : Text) (rest : List (Char × Text)) :
    m.printParts (Clause.printParts last piece ((separator, following) :: rest)) = do
      let text ← m.shown piece
      let others ← m.printParts (Clause.printParts (some separator) following rest)
      return text ++ (spacing separator ++ others) := by
  have space : m.printParts (if separator = ',' then [.space] else []) =
      .ok (spacing separator) := by
    rw [spacing]
    split <;> rfl
  rw [Clause.printParts, printParts_append, printParts_append, printParts_printed, space]
  cases m.shown piece with
  | error e => rfl
  | ok text =>
      cases m.printParts (Clause.printParts (some separator) following rest) with
      | error e => rfl
      | ok others => exact congrArg Except.ok (List.append_assoc text (spacing separator) others)

/-- If every piece can be shown, the parts print what the pieces show, with a space for each comma
and a new line at the end unless the end is left open. -/
theorem printParts_of_shown
    (shown : ∀ piece ∈ first :: parts.map Prod.snd, m.shown piece = .ok (item piece)) :
    m.printParts (Clause.printParts last first parts) =
      .ok (item first ++ (parts.flatMap fun part => spacing part.1 ++ item part.2) ++
        if endsOpenFrom last first parts then [] else ['\n']) := by
  induction parts generalizing last first with
  | nil =>
      rw [printParts_last, shown first List.mem_cons_self, List.flatMap_nil, List.append_nil]
      rfl
  | cons part parts ih =>
      have rest : m.printParts (Clause.printParts (some part.1) part.2 parts) = .ok _ :=
        ih fun piece mem => shown piece (List.mem_cons_of_mem first mem)
      have opened : endsOpenFrom last first (part :: parts) =
        endsOpenFrom (some part.1) part.2 parts := rfl
      rw [printParts_separator, shown first List.mem_cons_self, rest, List.flatMap_cons, opened]
      simp [bind, Except.bind, pure, Except.pure]

/-- The first piece that cannot be shown decides how the parts fail. -/
theorem printParts_of_not_shown {front back : List Text} {e : Error}
    (pieces : first :: parts.map Prod.snd = front ++ piece :: back)
    (shown : ∀ p ∈ front, ∃ text, m.shown p = .ok text) (failed : m.shown piece = .error e) :
    m.printParts (Clause.printParts last first parts) = .error e := by
  induction parts generalizing last first front with
  | nil =>
      cases front with
      | nil =>
          obtain ⟨rfl, -⟩ := List.cons.inj pieces
          rw [printParts_last, failed]
          rfl
      | cons other front => simp at pieces
  | cons part parts ih =>
      cases front with
      | nil =>
          obtain ⟨rfl, -⟩ := List.cons.inj pieces
          rw [printParts_separator, failed]
          rfl
      | cons other front =>
          obtain ⟨rfl, rest⟩ := List.cons.inj pieces
          obtain ⟨text, evaluated⟩ := shown first List.mem_cons_self
          have others : m.printParts (Clause.printParts (some part.1) part.2 parts) = .error e :=
            ih rest fun p mem => shown p (List.mem_cons_of_mem first mem)
          rw [printParts_separator, evaluated, others]
          rfl

end Machine

end LineBasic
