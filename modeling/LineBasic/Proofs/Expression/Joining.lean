import LineBasic.Proofs.Expression.Calling
import LineBasic.Proofs.Failing

/-!
# The value of a join

Texts that are joined by plus signs, one of them a literal, denote their printed values one
after another. Evaluation has to see the same pieces that were joined: it first asks whether a
call of `CHR$` spans the whole, which a closed first piece rules out, and then divides what is
left of the whole without the blanks at its ends.

Main statement: `Expression.joining_concatenates`.
-/

namespace LineBasic

namespace Expression

open Nesting (outside)

variable {vars : Variables} {s t : Text}

/-- No call spans a text with a plus sign behind a closed piece. -/
theorem callArgument?_append_eq_none (closed : s.IsClosed) (r : Text) :
    callArgument? (s ++ '+' :: r) = none := by
  rw [Option.eq_none_iff_forall_ne_some]
  intro inner call
  refine not_mem_exposed_of_callArgument? call ?_
  rw [Nesting.exposed_append, closed]
  exact List.mem_append_right _ List.mem_cons_self

/-- A plus sign stays, with all that stands before it but blanks at the start. -/
theorem exists_trim_append (s r : Text) :
    ∃ r', Text.trim (s ++ '+' :: r) = s.dropWhile isBlank ++ '+' :: r' := by
  have stays : isBlank '+' = false := by decide
  obtain ⟨cut, whole, gone⟩ := Text.exists_dropEndWhile_append isBlank ('+' :: r)
  rw [Text.trim, Text.trimWhile, Text.dropWhile_append_of_head? (by simpa using stays),
    Text.dropEndWhile_append ⟨'+', List.mem_cons_self, stays⟩]
  cases left : Text.dropEndWhile isBlank ('+' :: r) with
  | nil =>
      rw [left, List.nil_append] at whole
      exact absurd (gone '+' (whole ▸ List.mem_cons_self)) (by decide)
  | cons c u =>
      rw [left, List.cons_append] at whole
      obtain ⟨rfl, -⟩ := List.cons.inj whole
      exact ⟨u, rfl⟩

/-- Nor does one span what is left of it without blanks. -/
theorem callArgument?_trim_append_eq_none (closed : s.IsClosed) (r : Text) :
    callArgument? (Text.trim (s ++ '+' :: r)) = none := by
  obtain ⟨r', trimmed⟩ := exists_trim_append s r
  rw [trimmed]
  refine callArgument?_append_eq_none ?_ r'
  have blank : ∀ c ∈ s.takeWhile isBlank, isBlank c = true :=
    List.all_eq_true.mp List.all_takeWhile
  rw [Text.IsClosed, ← List.takeWhile_append_dropWhile (p := isBlank) (l := s),
    Nesting.scan_append, Nesting.scan_of_blank blank] at closed
  exact closed

/-- The blanks around a text do not change its pieces. -/
theorem joined_trim (t : Text) : joined t.trim = joined t := by
  obtain ⟨before, behind, whole, blank, blank'⟩ : ∃ before behind,
      t = before ++ (t.trim ++ behind) ∧ (∀ c ∈ before, isBlank c = true) ∧
        ∀ c ∈ behind, isBlank c = true :=
    Text.exists_append_trimWhile isBlank t
  have plain {u : Text} (h : ∀ c ∈ u, isBlank c = true) : ∀ c ∈ u, (c == '+') = false := by
    intro c hc
    rw [beq_eq_false_iff_ne]
    rintro rfl
    exact absurd (h _ hc) (by decide)
  obtain ⟨front, last, inner, outer⟩ := Nesting.exists_splitFrom_append (plain blank') outside
    t.trim
  have start := Nesting.splitFrom_append
    (fun c hc => plain blank c (Nesting.mem_of_mem_exposed (n := outside) hc)) (t.trim ++ behind)
  rw [Nesting.scan_of_blank blank, ← whole] at start
  have first (u : Text) : Text.trim (before ++ u) = u.trim := Text.trimWhile_append_left blank u
  have final (u : Text) : Text.trim (u ++ behind) = u.trim := Text.trimWhile_append_right blank' u
  calc joined t.trim
      = (front ++ [last]).map Text.trim := congrArg (List.map Text.trim) inner
    _ = (front ++ [last ++ behind]).map Text.trim := by
      rw [List.map_append, List.map_append, List.map_singleton, List.map_singleton, final]
    _ = joined (t.trim ++ behind) := congrArg (List.map Text.trim) outer.symm
    _ = joined t := by
      rw [joined, joined, Text.split, Text.split, Text.segments, Text.segments, start,
        List.map_cons, List.map_cons, first]

/-- A literal denotes what stands between its quotes, whatever it is. -/
theorem evalText_of_literal? {inner : Text} (h : t.trim.literal? = some inner) :
    evalText vars t = .ok (.text inner) := by
  obtain ⟨quoted, plain⟩ := Text.literal?_eq_some_iff.mp h
  have call : callArgument? t.trim = none := by
    rw [quoted, callArgument?, if_neg (by simp)]
  have single : isJoin t.trim = false := by
    have hidden : outside.exposed t.trim = [] := by
      rw [quoted]
      exact (Nesting.scan_literal plain).2
    simp [isJoin, joined, Text.length_split, hidden]
  rw [evalText_of_single call single, evalPlain, h]

theorem evalText_literal {inner : Text} (plain : '"' ∉ inner) :
    evalText vars ('"' :: inner ++ ['"']) = .ok (.text inner) := by
  refine evalText_of_literal? (Text.literal?_eq_some_iff.mpr ⟨?_, plain⟩)
  have stays : isBlank '"' = false := by decide
  exact Text.trimWhile_eq_self_of_ends (by simpa using stays)
    (by simpa [List.getLast?_cons] using stays)

/-- The pieces of a join are evaluated from left to right, literals like all others. -/
theorem evalText_of_isJoin (call : callArgument? t.trim = none) (join : isJoin t.trim = true) :
    evalText vars t = do
      let values ← (joined t.trim).mapM (evalText vars)
      return .text (values.flatMap Value.print) := by
  rw [evalText]
  split
  · next found => rw [call] at found; cases found
  · rw [dif_pos join,
      List.mapM_subtype (g := fun piece => (evalText vars piece).map Value.print),
      List.unattach_attach, mapM_map_eq]
    · cases (joined t.trim).mapM (evalText vars) with
      | error e => rfl
      | ok values => exact congrArg (fun s => Except.ok (Value.text s)) (List.flatMap_def ..).symm
    · intro piece mem
      obtain ⟨segment, -, rfl⟩ := List.mem_map.mp mem
      cases quoted : segment.trim.literal? with
      | none => simp only [quoted]
      | some inner =>
          have again : segment.trim.trim.literal? = some inner := by
            rw [← quoted]
            exact congrArg Text.literal? (Text.trimWhile_trimWhile isBlank segment)
          rw [evalText_of_literal? again]
          simp only [quoted]
          rfl

/-- Blanks around a text do not change what it denotes. -/
theorem evalText_trim (vars : Variables) (t : Text) : evalText vars t.trim = evalText vars t := by
  have again : t.trim.trim = t.trim := Text.trimWhile_trimWhile isBlank t
  cases call : callArgument? t.trim with
  | some inner =>
      rw [evalText_of_callArgument? call, evalText_of_callArgument? (again.symm ▸ call)]
  | none =>
      cases join : isJoin t.trim with
      | true =>
          rw [evalText_of_isJoin call join, evalText_of_isJoin (again.symm ▸ call)
            (again.symm ▸ join), again]
      | false =>
          rw [evalText_of_single call join, evalText_of_single (again.symm ▸ call)
            (again.symm ▸ join), again]

/-- Joining is a homomorphism from texts to what they print. If none of at least two closed texts
exposes a plus sign and one of them is a literal, then joined by plus signs they denote what their
values print one after another, or else the first of them that fails decides how the whole fails.
A literal by itself denotes what stands between its quotes. -/
theorem joining_concatenates (vars : Variables) :
    (∀ texts : List Text, 2 ≤ texts.length → (∀ t ∈ texts, t.IsClosed) →
      (∀ t ∈ texts, '+' ∉ outside.exposed t) → (∃ t ∈ texts, t.trim.literal?.isSome) →
        evalText vars (['+'].intercalate texts) = do
          let values ← texts.mapM (evalText vars)
          return .text (values.flatMap Value.print)) ∧
    ∀ inner, '"' ∉ inner → evalText vars ('"' :: inner ++ ['"']) = .ok (.text inner) := by
  refine ⟨fun texts two closed whole literal => ?_, fun inner plain => evalText_literal plain⟩
  obtain ⟨first, second, rest, rfl⟩ : ∃ first second rest, texts = first :: second :: rest :=
    match texts, two with
    | first :: second :: rest, _ => ⟨first, second, rest, rfl⟩
  have call : callArgument? (Text.trim (['+'].intercalate (first :: second :: rest))) = none := by
    rw [List.intercalate_cons_cons, List.append_assoc, List.singleton_append]
    exact callArgument?_trim_append_eq_none (closed first List.mem_cons_self) _
  have pieces : joined (Text.trim (['+'].intercalate (first :: second :: rest))) =
      (first :: second :: rest).map Text.trim := by
    rw [joined_trim, joined, Text.split_intercalate (by decide) (List.cons_ne_nil _ _)
      (fun t ht => closed t (List.dropLast_subset _ ht)) whole]
  have join : isJoin (Text.trim (['+'].intercalate (first :: second :: rest))) = true := by
    obtain ⟨t, ht, quoted⟩ := literal
    rw [isJoin, pieces, Bool.and_eq_true, List.any_eq_true]
    exact ⟨by simp, t.trim, List.mem_map_of_mem ht, quoted⟩
  rw [evalText_of_isJoin call join, pieces, List.mapM_map]
  rw [Function.comp_def, funext (evalText_trim vars)]

/-- Calls at both ends and plus signs in a literal and in parentheses, next to a piece that is
empty. -/
theorem joining_concatenates_betweenCalls :
    ∃ texts : List Text,
      (['+'].intercalate texts = "CHR$(60+5)+ \"+)CHR$(\" ++2*3+chr$ (66)".toList ∧
        2 ≤ texts.length ∧ (∀ t ∈ texts, t.IsClosed) ∧
        (∀ t ∈ texts, '+' ∉ outside.exposed t) ∧ ∃ t ∈ texts, t.trim.literal?.isSome) ∧
      evalText Variables.empty (['+'].intercalate texts) = .ok (.text "A+)CHR$(6B".toList) ∧
      '"' ∉ "+)CHR$(".toList ∧
      evalText Variables.empty ('"' :: "+)CHR$(".toList ++ ['"']) =
        .ok (.text "+)CHR$(".toList) := by
  obtain ⟨texts, named⟩ : ∃ texts : List Text, texts =
      ["CHR$(60+5)".toList, " \"+)CHR$(\" ".toList, [], "2*3".toList, "chr$ (66)".toList] :=
    ⟨_, rfl⟩
  have closed : ∀ t ∈ texts, Text.IsClosed t := by rw [named]; decide +kernel
  have whole : ∀ t ∈ texts, '+' ∉ outside.exposed t := by rw [named]; decide +kernel
  have literal : ∃ t ∈ texts, (Text.literal? t.trim).isSome := by rw [named]; decide +kernel
  have values : texts.mapM (evalText Variables.empty) =
      .ok [.text ['A'], .text "+)CHR$(".toList, .text [], .integer 6, .text ['B']] := by
    rw [named]
    decide +kernel
  have two : 2 ≤ texts.length := by rw [named]; decide
  refine ⟨texts, ⟨by rw [named]; rfl, two, closed, whole, literal⟩, ?_, by decide,
    (joining_concatenates Variables.empty).2 _ (by decide)⟩
  rw [(joining_concatenates Variables.empty).1 texts two closed whole literal, values]
  decide +kernel

end Expression

end LineBasic
