import LineBasic.Expression.Eval
import LineBasic.Proofs.Text.Case
import LineBasic.Proofs.Text.Joining

/-!
# Calls

A call of `CHR$` is the name in any letter case, blanks, and a text in parentheses. The text may
be anything that closes no parenthesis but its own: it may hold plus signs and blanks, and leave
parentheses and even a literal open, for it is scanned as outside, only one level deeper. So its
evaluation is that of the text and then of its character, and calls can be put into each other.

All that a call exposes is the name and the blanks behind it. A text that is taken for a call
therefore has no plus sign at which it could have been divided.

Main statement: `Expression.calls_compose`.
-/

namespace LineBasic

namespace Nesting

variable {n : Nesting}

/-- The same position within one more pair of parentheses. -/
def deepen (n : Nesting) : Nesting := { n with depth := n.depth + 1 }

/-- A character that closes no parenthesis from outside moves both positions alike. -/
theorem after_deepen {c : Char} (h : (c == ')' && !n.quoted && n.depth == 0) = false) :
    n.deepen.after c = (n.after c).deepen := by
  by_cases quote : c = '"'
  · simp [after, deepen, quote]
  by_cases quoted : n.quoted = true
  · simp [after, deepen, quote, quoted]
  by_cases opening : c = '('
  · simp [after, deepen, quoted, opening]
  by_cases closing : c = ')'
  · have deep : n.depth - 1 + 1 = n.depth := by
      refine Nat.sub_one_add_one fun zero => ?_
      simp [closing, quoted, zero] at h
    simp [after, deepen, quoted, closing, deep]
  · simp [after, deepen, quote, quoted, opening, closing]

@[simp] theorem exposes_deepen (n : Nesting) (c : Char) : n.deepen.exposes c = false := by
  simp [exposes, deepen]

end Nesting

namespace Value

variable {v : Value}

theorem character_of_code {k : Int32} (h : v.toInteger = .ok k) (least : 1 ≤ k.toInt)
    (greatest : k.toInt ≤ 255) : v.character = .text [Char.ofNat k.toInt.toNat] := by
  rw [character, h]
  exact if_pos ⟨least, greatest⟩

theorem character_of_no_code (h : ∀ k, v.toInteger = .ok k → k.toInt < 1 ∨ 255 < k.toInt) :
    v.character = .text ['?'] := by
  rw [character]
  cases integer : v.toInteger with
  | error e => rfl
  | ok k =>
      refine if_neg fun code => ?_
      have other := h k integer
      omega

end Value

namespace Expression

open Nesting (outside)

variable {vars : Variables} {n : Nesting} {s t e inner : Text}

/-- A text that closes no parenthesis but its own is scanned within parentheses as outside. -/
theorem scan_deepen (h : closesOutside n t = false) : n.deepen.scan t = (n.scan t).deepen := by
  induction t generalizing n with
  | nil => rfl
  | cons c t ih =>
      rw [closesOutside, Bool.or_eq_false_iff] at h
      rw [Nesting.scan_cons, Nesting.after_deepen h.1, ih h.2, Nesting.scan_cons]

/-- Within parentheses it exposes nothing. -/
theorem exposed_deepen (h : closesOutside n t = false) : n.deepen.exposed t = [] := by
  induction t generalizing n with
  | nil => rfl
  | cons c t ih =>
      rw [closesOutside, Bool.or_eq_false_iff] at h
      rw [Nesting.exposed, Nesting.exposes_deepen, if_neg Bool.false_ne_true,
        Nesting.after_deepen h.1, ih h.2]

theorem closesOutside_deepen (h : closesOutside n t = false) :
    closesOutside n.deepen t = false := by
  induction t generalizing n with
  | nil => rfl
  | cons c t ih =>
      rw [closesOutside, Bool.or_eq_false_iff] at h
      rw [closesOutside, Nesting.after_deepen h.1, ih h.2]
      simp [Nesting.deepen]

theorem closesOutside_append (n : Nesting) (s t : Text) :
    closesOutside n (s ++ t) = (closesOutside n s || closesOutside (n.scan s) t) := by
  induction s generalizing n with
  | nil => rfl
  | cons c s ih =>
      rw [List.cons_append, closesOutside, closesOutside, ih, Nesting.scan_cons, Bool.or_assoc]

theorem closesOutside_of_not_mem (h : ')' ∉ t) (n : Nesting) : closesOutside n t = false := by
  induction t generalizing n with
  | nil => rfl
  | cons c t ih =>
      have other : (c == ')') = false := by
        rw [beq_eq_false_iff_ne]
        rintro rfl
        exact h List.mem_cons_self
      rw [closesOutside, other, ih fun mem => h (List.mem_cons_of_mem c mem)]
      rfl

/-- How a call begins: with the name in any letter case, and blanks. -/
structure Callee where
  name : Text
  gap : Text
  named : name.upper = "CHR$".toList
  blank : ∀ c ∈ gap, isBlank c = true

namespace Callee

/-- The call on a text. -/
def call (callee : Callee) (e : Text) : Text :=
  callee.name ++ callee.gap ++ '(' :: (e ++ [')'])

variable (callee : Callee)

theorem length_name : callee.name.length = 4 := by
  rw [← Text.length_upper, callee.named]
  rfl

theorem name_ne_nil : callee.name ≠ [] :=
  List.ne_nil_of_length_pos (by simp [callee.length_name])

/-- Everything before the parenthesis is exposed, and no plus sign is in it. -/
theorem exposes_of_mem {c : Char} (h : c ∈ callee.name ++ callee.gap) :
    outside.exposes c = true ∧ c ≠ '+' := by
  rw [Nesting.exposes_iff_of_outside]
  rcases List.mem_append.mp h with h | h
  · have capital : c.toUpper ∈ "CHR$".toList := by
      rw [← callee.named]
      exact List.mem_map_of_mem h
    refine ⟨⟨?_, ?_, ?_⟩, ?_⟩ <;> rintro rfl <;> exact absurd capital (by decide)
  · have blank := callee.blank c h
    refine ⟨⟨?_, ?_, ?_⟩, ?_⟩ <;> rintro rfl <;> exact absurd blank (by decide)

/-- The text in the parentheses of a call is scanned from one level deeper. -/
theorem scan_opening :
    outside.scan (callee.name ++ callee.gap ++ ['(']) = outside.deepen := by
  rw [Nesting.scan_append, Nesting.scan_eq_self fun c hc =>
    Nesting.after_of_exposes (callee.exposes_of_mem hc).1]
  rfl

theorem call_eq_append (e : Text) :
    callee.call e = (callee.name ++ callee.gap ++ ['(']) ++ (e ++ [')']) := by
  simp [call]

/-- A call exposes its name and the blanks behind it. -/
theorem exposed_call (h : closesOutside outside e = false) :
    outside.exposed (callee.call e) = callee.name ++ callee.gap := by
  have front : outside.exposed (callee.name ++ callee.gap ++ ['(']) =
      callee.name ++ callee.gap := by
    rw [Nesting.exposed_append, Nesting.exposed_eq_self fun c hc => (callee.exposes_of_mem hc).1]
    simp [Nesting.exposed, Nesting.exposes]
  rw [call_eq_append, Nesting.exposed_append, front, scan_opening, Nesting.exposed_append,
    exposed_deepen h, scan_deepen h]
  simp [Nesting.exposed]

/-- A call closes no parenthesis but its own. -/
theorem closesOutside_call (h : closesOutside outside e = false) :
    closesOutside outside (callee.call e) = false := by
  have front : ')' ∉ callee.name ++ callee.gap ++ ['('] := by
    intro mem
    rcases List.mem_append.mp mem with mem | mem
    · have exposed := (callee.exposes_of_mem mem).1
      exact absurd exposed (by decide)
    · exact absurd mem (by decide)
  rw [call_eq_append, closesOutside_append, closesOutside_of_not_mem front, scan_opening,
    closesOutside_append, closesOutside_deepen h, scan_deepen h]
  simp [closesOutside, Nesting.deepen]

/-- Evaluation finds the text of a call again. -/
theorem callArgument?_call (h : closesOutside outside e = false) :
    callArgument? (callee.call e) = some e := by
  have name : (callee.call e).take 4 = callee.name := by
    rw [call, List.append_assoc, ← callee.length_name, List.take_left]
  have rest : ((callee.call e).drop 4).dropWhile isBlank = '(' :: (e ++ [')']) := by
    rw [call, List.append_assoc, ← callee.length_name, List.drop_left,
      List.dropWhile_append_of_pos callee.blank, List.dropWhile_cons_of_neg (by decide)]
  rw [callArgument?, if_pos (by rw [name, callee.named]), rest]
  simp [h]

/-- A call has no blanks around it. -/
theorem trim_call (e : Text) : (callee.call e).trim = callee.call e := by
  have first : (callee.call e).head?.map Char.toUpper = some 'C' := by
    rw [call, List.append_assoc, List.head?_append_of_ne_nil _ callee.name_ne_nil, ← List.head?_map]
    exact congrArg List.head? callee.named
  have last : (callee.call e).getLast? = some ')' := by
    rw [call_eq_append, ← List.append_assoc, List.getLast?_concat]
  refine Text.trimWhile_eq_self_of_ends (fun c hc => ?_) (fun c hc => ?_)
  · rw [hc, Option.map_some, Option.some.injEq] at first
    rw [← IgnoresCase.isBlank c, first]
    decide
  · rw [last] at hc
    obtain rfl := Option.some.inj hc
    decide

end Callee

/-- A call with blanks around it. -/
structure Layer extends Callee where
  before : Text
  behind : Text
  blank_before : ∀ c ∈ before, isBlank c = true
  blank_behind : ∀ c ∈ behind, isBlank c = true

namespace Layer

/-- The call on a text, with the blanks. -/
def around (layer : Layer) (e : Text) : Text :=
  layer.before ++ (layer.call e ++ layer.behind)

variable (layer : Layer)

theorem trim_around (e : Text) : (layer.around e).trim = layer.call e :=
  (Text.trimWhile_append_of_forall layer.blank_before layer.blank_behind _).trans
    (layer.trim_call e)

theorem closesOutside_around (h : closesOutside outside e = false) :
    closesOutside outside (layer.around e) = false := by
  have plain {t : Text} (blank : ∀ c ∈ t, isBlank c = true) : ')' ∉ t :=
    fun mem => absurd (blank _ mem) (by decide)
  rw [around, closesOutside_append, closesOutside_of_not_mem (plain layer.blank_before),
    Nesting.scan_of_blank layer.blank_before, closesOutside_append, layer.closesOutside_call h,
    closesOutside_of_not_mem (plain layer.blank_behind)]
  rfl

end Layer

/-- Calls in one another. -/
def nested (layers : List Layer) (e : Text) : Text := layers.foldr Layer.around e

@[simp] theorem nested_nil (e : Text) : nested [] e = e := rfl

@[simp] theorem nested_cons (layer : Layer) (layers : List Layer) (e : Text) :
    nested (layer :: layers) e = layer.around (nested layers e) := rfl

theorem closesOutside_nested (h : closesOutside outside e = false) (layers : List Layer) :
    closesOutside outside (nested layers e) = false := by
  induction layers with
  | nil => exact h
  | cons layer layers ih => exact layer.closesOutside_around ih

/-- What is taken for a call is one. -/
theorem exists_callee_of_callArgument? (h : callArgument? t = some inner) :
    closesOutside outside inner = false ∧ ∃ callee : Callee, t = callee.call inner := by
  rw [callArgument?] at h
  split at h
  case isFalse => cases h
  case isTrue name =>
    split at h
    case h_2 => cases h
    case h_1 rest opens =>
      split at h
      case isFalse => cases h
      case isTrue spans =>
        obtain ⟨last, balanced⟩ := spans
        obtain rfl := Option.some.inj h
        obtain ⟨inner, rfl⟩ := List.getLast?_eq_some_iff.mp last
        rw [List.dropLast_concat] at balanced ⊢
        refine ⟨balanced, ⟨t.take 4, (t.drop 4).takeWhile isBlank, name,
          fun c hc => List.all_eq_true.mp List.all_takeWhile c hc⟩, ?_⟩
        rw [Callee.call, List.append_assoc, ← opens, List.takeWhile_append_dropWhile,
          List.take_append_drop]

theorem evalText_of_callArgument? (call : callArgument? t.trim = some inner) :
    evalText vars t = (evalText vars inner).map Value.character := by
  rw [evalText]
  split
  · next found =>
    rw [call] at found
    rw [Option.some.inj found]
  · next none => rw [call] at none; cases none

theorem evalText_of_single (call : callArgument? t.trim = none) (single : isJoin t.trim = false) :
    evalText vars t = evalPlain vars t.trim := by
  rw [evalText]
  split
  · next found => rw [call] at found; cases found
  · rw [dif_neg (Bool.not_eq_true _ ▸ single)]

theorem evalText_around (h : closesOutside outside e = false) (layer : Layer) :
    evalText vars (layer.around e) = (evalText vars e).map Value.character := by
  refine evalText_of_callArgument? ?_
  rw [layer.trim_around]
  exact layer.callArgument?_call h

/-- Each call takes the character of what the one in it denotes. -/
theorem evalText_nested (h : closesOutside outside e = false) (layers : List Layer) :
    evalText vars (nested layers e) =
      (evalText vars e).map Value.character^[layers.length] := by
  induction layers with
  | nil =>
      rw [nested_nil]
      cases evalText vars e <;> rfl
  | cons layer layers ih =>
      rw [nested_cons, evalText_around (closesOutside_nested h layers), ih, List.length_cons,
        Function.iterate_succ']
      cases evalText vars e <;> rfl

theorem not_mem_exposed_of_callArgument? (h : callArgument? t = some inner) :
    '+' ∉ outside.exposed t := by
  obtain ⟨closed, callee, rfl⟩ := exists_callee_of_callArgument? h
  rw [callee.exposed_call closed]
  exact fun mem => (callee.exposes_of_mem mem).2 rfl

/-- A call is a single piece. -/
theorem split_of_callArgument? (h : callArgument? t = some inner) : t.split '+' = [t] := by
  have whole := not_mem_exposed_of_callArgument? h
  have pieces : Text.split '+' (['+'].intercalate [t]) = [t] :=
    Text.split_intercalate (by decide) (by simp) (by simp) (by simpa using whole)
  rwa [List.intercalate_singleton] at pieces

/-- A call on a text that closes no parenthesis but its own denotes the character of its code if
what the text denotes is or reads as an integer from 1 to 255, a question mark if it is anything
else, and fails as the text does. This holds for calls put into each other as well, with blanks
anywhere around them, each of which takes the character of what the one in it denotes. Only calls
are taken for calls, and what they expose is their name and the blanks behind it, so none has a
plus sign at which it could have been divided into the pieces of a join. -/
theorem calls_compose (vars : Variables) :
    (∀ e, closesOutside outside e = false → ∀ (layers : List Layer) (layer : Layer),
      let within := evalText vars (nested layers e)
      let whole := evalText vars (layer.around (nested layers e))
      within = (evalText vars e).map Value.character^[layers.length] ∧
      (∀ error, within = .error error → whole = .error error) ∧
      ∀ value, within = .ok value →
        (∀ k, value.toInteger = .ok k → 1 ≤ k.toInt → k.toInt ≤ 255 →
          whole = .ok (.text [Char.ofNat k.toInt.toNat])) ∧
        ((∀ k, value.toInteger = .ok k → k.toInt < 1 ∨ 255 < k.toInt) →
          whole = .ok (.text ['?']))) ∧
    ∀ t inner, callArgument? t = some inner →
      (∃ callee : Callee, t = callee.call inner ∧
        outside.exposed t = callee.name ++ callee.gap) ∧
      '+' ∉ outside.exposed t ∧ t.split '+' = [t] ∧ isJoin t = false := by
  refine ⟨fun e closed layers layer => ?_, fun t inner call => ?_⟩
  · intro within whole
    have step : whole = within.map Value.character :=
      evalText_around (closesOutside_nested closed layers) layer
    refine ⟨evalText_nested closed layers, fun error failed => ?_, fun value denoted => ?_⟩
    · rw [step, failed]
      rfl
    · rw [step, denoted]
      refine ⟨fun k integer least greatest => ?_, fun other => ?_⟩
      · rw [Except.map, Value.character_of_code integer least greatest]
      · rw [Except.map, Value.character_of_no_code other]
  · have single := split_of_callArgument? call
    obtain ⟨closed, callee, whole⟩ := exists_callee_of_callArgument? call
    refine ⟨⟨callee, whole, whole ▸ callee.exposed_call closed⟩,
      not_mem_exposed_of_callArgument? call, single, ?_⟩
    simp [isJoin, joined, single]

/-- Small letters and blanks, a call in a call, a text that leaves a literal and two parentheses
open, one that fails, and one with a plus sign and a parenthesis in a literal. -/
theorem calls_compose_mixed :
    ∃ layer : Layer,
      (layer.around (nested [layer] "1+53".toList) = "\tchr$ (\tchr$ (1+53))".toList ∧
        closesOutside outside "1+53".toList = false ∧
        evalText Variables.empty (nested [layer] "1+53".toList) = .ok (.text ['6']) ∧
        evalText Variables.empty (layer.around (nested [layer] "1+53".toList)) =
          .ok (.text [Char.ofNat 6])) ∧
      (closesOutside outside "((\"".toList = false ∧
        evalText Variables.empty (layer.around "((\"".toList) = .ok (.text ['?'])) ∧
      (closesOutside outside "1/0".toList = false ∧
        evalText Variables.empty (layer.around "1/0".toList) =
          .error { kind := .divisionByZero }) ∧
      callArgument? "Chr$ (\"+)\"+1)".toList = some "\"+)\"+1".toList ∧
        isJoin "Chr$ (\"+)\"+1)".toList = false := by
  let layer : Layer :=
    { name := "chr$".toList, gap := [' '], before := ['\t'], behind := []
      named := rfl
      blank := List.forall_mem_singleton.mpr (by decide)
      blank_before := List.forall_mem_singleton.mpr (by decide)
      blank_behind := List.forall_mem_nil _ }
  obtain ⟨calls, recognized⟩ := calls_compose Variables.empty
  have sum : evalText Variables.empty "1+53".toList = .ok (.integer 54) := by decide +kernel
  have itself : evalText Variables.empty "((\"".toList = .ok (.text "((\"".toList) := by
    decide +kernel
  have noInteger : (Value.text "((\"".toList).toInteger = .error { kind := .typeMismatch } := by
    decide +kernel
  have failure : evalText Variables.empty "1/0".toList = .error { kind := .divisionByZero } := by
    decide +kernel
  have spans : callArgument? "Chr$ (\"+)\"+1)".toList = some "\"+)\"+1".toList := by
    decide +kernel
  have digit : evalText Variables.empty (nested [layer] "1+53".toList) = .ok (.text ['6']) :=
    ((calls _ (by decide) [] layer).2.2 _ sum).1 54 rfl (by decide) (by decide)
  refine ⟨layer, ⟨rfl, by decide, digit, ?_⟩, ⟨by decide, ?_⟩, ⟨by decide, ?_⟩, spans,
    (recognized _ _ spans).2.2.2⟩
  · exact ((calls _ (by decide) [layer] layer).2.2 _ digit).1 6 (by decide +kernel) (by decide)
      (by decide)
  · refine ((calls _ (by decide) [] layer).2.2 _ itself).2 fun k integer => ?_
    rw [noInteger] at integer
    cases integer
  · exact (calls _ (by decide) [] layer).2.1 _ failure

end Expression

end LineBasic
