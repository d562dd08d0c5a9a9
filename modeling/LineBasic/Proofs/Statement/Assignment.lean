import LineBasic.Proofs.Expression.Joining
import LineBasic.Proofs.Expression.Readback
import LineBasic.Proofs.Statement.Delimiters
import LineBasic.Proofs.Statement.WellFormed

/-!
# Assigned names

An assignment is recognized behind `LET`, as a branch of a condition, and by itself if no keyword
starts it. Each of the three readers cuts off other characters at the ends of its text, but all of
these are blanks, which belong neither to the name nor to the value.

A name is stored in capitals. It is read in two places: as an operand if it holds an integer, and as
the whole text if it holds a text (`Expression.evalText_of_isName`). Both look it up in capitals, so
what was assigned is found under every spelling of the name.

Main statement: `Machine.assigned_name_denotes`.
-/

namespace LineBasic

namespace Text

variable {p : Char → Bool} {x e : Text}

theorem not_mem_of_isName {c : Char} (h : x.isName = true) (other : c.isAlphanum = false)
    (dollar : c ≠ '$') : c ∉ x := by
  intro hc
  rcases mem_of_isName h hc with letter | same
  · rw [other] at letter
    cases letter
  · exact dollar same

/-- Cutting off blanks at both ends of an assignment shortens its value only. -/
theorem trimWhile_assignment (blank : ∀ c, p c = true → isBlank c = true) (named : x.isName = true)
    (filled : e.IsFilled) : trimWhile p (x ++ '=' :: e) = x ++ '=' :: dropEndWhile p e := by
  have stays {c : Char} (h : isBlank c = false) : p c = false := by
    rw [Bool.eq_false_iff]
    intro cut
    rw [blank c cut] at h
    cases h
  have first : ∀ c ∈ (x ++ '=' :: e).head?, p c = false := by
    intro c hc
    rw [List.head?_append_of_ne_nil _ (ne_nil_of_isName named)] at hc
    exact stays (isBlank_eq_false_of_isName named c (List.mem_of_mem_head? hc))
  have last : ∃ c ∈ e, p c = false := filled.imp fun _ h => ⟨h.1, stays h.2⟩
  have front := dropEndWhile_append last (x ++ ['='])
  rw [List.append_assoc, List.append_assoc] at front
  rw [trimWhile, dropWhile_eq_self first]
  exact front

end Text

namespace Clause

variable {x e t : Text}

/-- A name before an equals sign is assigned to, and blanks around the value do not matter. -/
theorem assignment?_of_trim (named : x.isName = true) (filled : e.IsFilled)
    (same : t.trim = e.trim) :
    assignment? (x ++ '=' :: t) = some (.ok (whole (.assign x.upper (.ofText e)))) := by
  have gaps : t.trimGaps.trim = e.trim := t.trim_trimGaps.trans same
  rw [assignment?, Text.assignment?_append named, Option.map_some]
  dsimp only
  rw [expression_congr gaps, expression_of_isFilled filled, Text.canonical_of_isName named]
  rfl

end Clause

namespace Statement

variable {x e : Text}

theorem parse_let (named : x.isName = true) (filled : e.IsFilled) (line : Option Nat) :
    parse line ("LET ".toList ++ (x ++ '=' :: e)) = .ok (.assign x.upper (.ofText e)) := by
  have opened : Keyword.leading? ("LET ".toList ++ (x ++ '=' :: e)) =
      some (.let_, Text.trimGaps (' ' :: (x ++ '=' :: e))) := rfl
  have gap : Text.trimGaps (' ' :: (x ++ '=' :: e)) = x ++ '=' :: Text.dropEndWhile isGap e := by
    rw [← Text.trimWhile_assignment (fun _ => isBlank_of_isGap) named filled, Text.trimGaps,
      Text.trimWhile, List.dropWhile_cons_of_pos (by decide), ← Text.trimWhile]
  refine parse_of_read ?_
  rw [Clause.read, opened]
  dsimp only [Clause.ofKeyword]
  rw [gap, Clause.assignment?_of_trim named filled (Text.trim_dropEndWhile_isGap e)]
  rfl

/-- Without `LET` the letters at the start of the name must not be a keyword. -/
theorem parse_assignment (named : x.isName = true) (filled : e.IsFilled)
    (free : Keyword.ofText? (x.takeWhile Char.isAlpha) = none) (line : Option Nat) :
    parse line (x ++ '=' :: e) = .ok (.assign x.upper (.ofText e)) := by
  have gapless : (x ++ '=' :: e).dropWhile isGap = x ++ '=' :: e := by
    refine Text.dropWhile_eq_self fun c hc => ?_
    rw [List.head?_append_of_ne_nil _ (Text.ne_nil_of_isName named)] at hc
    exact Text.isGap_eq_false_of_isName named c (List.mem_of_mem_head? hc)
  have letters : (x ++ '=' :: e).takeWhile Char.isAlpha = x.takeWhile Char.isAlpha :=
    Text.takeWhile_append_of_head? (by simp) x
  have unopened : Keyword.leading? (x ++ '=' :: e) = none := by
    rw [Keyword.leading?, gapless]
    split
    · next rest start =>
      have first : x.head? = some '?' := by
        rw [← List.head?_append_of_ne_nil x (Text.ne_nil_of_isName named), start]
        rfl
      have question : '?' ∈ x := List.mem_of_mem_head? first
      exact absurd question (Text.not_mem_of_isName named (by decide) (by decide))
    · rw [letters, free]
      rfl
  refine parse_of_read ?_
  rw [Clause.read, unopened]
  dsimp only
  rw [Clause.assignment?_of_trim named filled rfl]
  rfl

/-- As a branch it is an assignment even if its name starts with a keyword. -/
theorem readBranch_assignment (named : x.isName = true) (filled : e.IsFilled) {before after : Text}
    (front : ∀ c ∈ before, isBlank c = true) (back : ∀ c ∈ after, isBlank c = true) :
    readBranch (before ++ ((x ++ '=' :: e) ++ after)) = .ok (.assign x.upper (.ofText e)) := by
  have trimmed : Text.trim (before ++ ((x ++ '=' :: e) ++ after)) =
      x ++ '=' :: Text.dropEndWhile isBlank e :=
    (Text.trimWhile_append_of_forall front back _).trans
      (Text.trimWhile_assignment (fun _ => id) named filled)
  have whole : Text.IsFilled (before ++ ((x ++ '=' :: e) ++ after)) := by
    obtain ⟨c, hc, stays⟩ := filled
    exact ⟨c, by simp [hc], stays⟩
  rw [readBranch, Clause.readBranch, List.isEmpty_eq_false_iff.mpr whole.trim_ne_nil,
    if_neg Bool.false_ne_true, trimmed, Clause.assignment?_of_trim named filled
      (Text.trim_dropEndWhile (fun _ => id) e)]
  exact Clause.complete_whole _

end Statement

namespace Expression

variable {vars : Variables} {name : Text}

/-- A name denotes what is stored under it. -/
theorem evalText_of_isName (h : name.isName = true) :
    evalText vars name = .ok (vars.fetch name.upper) := by
  cases holds : vars.fetch name.upper with
  | integer n => exact evalText_name h holds
  | text s =>
      have quote : '"' ∉ name := Text.not_mem_of_isName h (by decide) (by decide)
      have trimmed : name.trim = name :=
        Text.trimWhile_eq_self (Text.isBlank_eq_false_of_isName h)
      have plain : name.literal? = none :=
        Option.eq_none_iff_forall_ne_some.mpr fun _ found => quote (mem_of_literal? found)
      have operand : operand? vars name = none := by
        rw [operand?, any_isDigit_head?_of_isName h, if_neg (by decide), if_pos h, holds]
      have chain : arithmetic? vars name = none := by
        simp [arithmetic?, operands?, Term.ofText?_of_isName h, operand]
      have unsigned : isSigned name = false := by
        rw [isSigned.eq_def]
        split
        · exact absurd List.mem_cons_self (Text.not_mem_of_isName h (by decide) (by decide))
        · exact absurd List.mem_cons_self (Text.not_mem_of_isName h (by decide) (by decide))
        · have first := any_isDigit_head?_of_isName h
          cases name with
          | nil => rfl
          | cons c rest =>
              have letter : c.isDigit = false := first
              simp [Decimal.isDigits, letter]
      rw [evalText_of_not_mem (Text.not_mem_of_isName h (by decide) (by decide)) quote, trimmed,
        evalPlain, plain, chain, unsigned]
      simp only [h, holds, Bool.false_eq_true, if_false, if_true]

/-- Every spelling of a name denotes what is stored under it. -/
theorem evalText_of_upper_eq {y before after : Text} (named : name.isName = true)
    (same : y.upper = name.upper) (front : ∀ c ∈ before, isBlank c = true)
    (back : ∀ c ∈ after, isBlank c = true) :
    evalText vars (before ++ (y ++ after)) = .ok (vars.fetch name.upper) := by
  have other : y.isName = true := by
    rw [← Text.isName_upper, same, Text.isName_upper, named]
  have trimmed : Text.trim (before ++ (y ++ after)) = y.trim :=
    Text.trimWhile_append_of_forall front back y
  rw [← evalText_trim, trimmed, evalText_trim, evalText_of_isName other, same]

end Expression

namespace Machine

open Expression (evalText)

/-- An assignment is read as the same statement behind `LET`, as a branch, and by itself unless its
name starts with a keyword. If its value is not blank and can be evaluated, and there is room for
the name, then afterwards every spelling of the name denotes the value, be it an integer or a text,
and every other name denotes what it denoted before. -/
theorem assigned_name_denotes {x e : Text} (named : x.isName = true) (filled : e.IsFilled) :
    let s := Statement.assign x.upper (.ofText e)
    (∀ line, Statement.parse line ("LET ".toList ++ (x ++ '=' :: e)) = .ok s) ∧
    (∀ before after : Text, (∀ c ∈ before, isBlank c = true) → (∀ c ∈ after, isBlank c = true) →
      Statement.readBranch (before ++ ((x ++ '=' :: e) ++ after)) = .ok s) ∧
    (Keyword.ofText? (x.takeWhile Char.isAlpha) = none →
      ∀ line, Statement.parse line (x ++ '=' :: e) = .ok s) ∧
    ∀ (m : Machine) (v : Value), m.vars.HasRoom x.upper → evalText m.vars e = .ok v →
      let m' := { m with vars := m.vars.insert x.upper v }
      m.perform s = (m', .ok []) ∧
      (∀ before y after : Text, (∀ c ∈ before, isBlank c = true) →
        (∀ c ∈ after, isBlank c = true) → y.upper = x.upper →
          evalText m'.vars (before ++ (y ++ after)) = .ok v) ∧
      ∀ y : Text, y.isName = true → y.upper ≠ x.upper → evalText m'.vars y = evalText m.vars y := by
  intro s
  refine ⟨Statement.parse_let named filled,
    fun before after => Statement.readBranch_assignment named filled,
    Statement.parse_assignment named filled, fun m v room value => ?_⟩
  intro m'
  refine ⟨?_, fun before y after front back same => ?_, fun y name other => ?_⟩
  · have evaluated : (Expression.ofText e).eval m.vars = .ok v :=
      (Expression.evalText_trim m.vars e).trans value
    simp only [s, perform, evaluated, bind, Except.bind, Variables.store_of_hasRoom room v]
    rfl
  · rw [Expression.evalText_of_upper_eq named same front back, Variables.fetch_insert_self]
  · rw [Expression.evalText_of_isName name, Expression.evalText_of_isName name,
      Variables.fetch_insert, if_neg (Ne.symm other)]

/-- A name that looks like the start of a call, which holds a text, and one that starts with a
keyword, which holds an integer. -/
theorem assigned_name_denotes_chr :
    let m := { initial with vars := Variables.empty.insert "CHR$".toList (.text "A;7".toList) }
    let m' := { m with vars := m.vars.insert "PRINT1".toList (.integer 8) }
    Statement.parse (some 10) "Chr$=\"A;\" + 7".toList =
        Statement.parse none "LET Chr$=\"A;\" + 7".toList ∧
      initial.perform (.assign "CHR$".toList (.ofText "\"A;\" + 7".toList)) = (m, .ok []) ∧
      evalText m.vars "\tcHR$ ".toList = .ok (.text "A;7".toList) ∧
      evalText m.vars "chr".toList = .ok (.integer 0) ∧
      Statement.readBranch " print1=3+5 ".toList =
        .ok (.assign "PRINT1".toList (.ofText "3+5".toList)) ∧
      evalText m'.vars "Print1".toList = .ok (.integer 8) := by
  intro m m'
  have filled : Text.IsFilled "\"A;\" + 7".toList := ⟨'A', by decide, by decide⟩
  have filled' : Text.IsFilled "3+5".toList := ⟨'3', by decide, by decide⟩
  have blank : ∀ c ∈ [' '], isBlank c = true := List.forall_mem_singleton.mpr (by decide)
  have tab : ∀ c ∈ ['\t'], isBlank c = true := List.forall_mem_singleton.mpr (by decide)
  have room : initial.vars.HasRoom "CHR$".toList := .inr (by decide +kernel)
  have room' : m.vars.HasRoom "PRINT1".toList := .inr (by decide +kernel)
  obtain ⟨typed, -, alone, performs⟩ :=
    assigned_name_denotes (x := "Chr$".toList) (by decide) filled
  obtain ⟨performed, found, others⟩ :=
    performs initial (.text "A;7".toList) room (by decide +kernel)
  obtain ⟨-, branch, -, performs'⟩ :=
    assigned_name_denotes (x := "print1".toList) (by decide) filled'
  obtain ⟨-, found', -⟩ := performs' m (.integer 8) room' (by decide +kernel)
  refine ⟨(alone (by decide) _).trans (typed _).symm, performed,
    found _ "cHR$".toList _ tab blank (by decide), (others _ (by decide) (by decide)).trans ?_,
    branch _ _ blank blank, ?_⟩
  · decide +kernel
  · exact found' [] "Print1".toList [] nofun nofun (by decide)

end Machine

end LineBasic
