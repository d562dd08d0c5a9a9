import LineBasic.Proofs.Session.Queueing
import LineBasic.Proofs.Statement.Printing

/-!
# Printing lines

A line that prints either writes all that its pieces show or reports the first piece that cannot be
evaluated, and leaves the machine as it is. A direct line whose pieces are literals cannot fail:
what stands in the literals is written, and when the session has nothing else to do, nothing more
than that.

Main statement: `Session.print_writes_items`.
-/

namespace LineBasic

open Clause (spacing endsOpen endsOpenFrom_none)
open Display (Command)
open Expression (evalText)

namespace Machine

variable {m : Machine} {line : Option Nat} {t first : Text} {parts : List (Char × Text)}

theorem perform_print (m : Machine) (parts : List PrintPart) :
    m.perform (.print parts) = (m, Display.write <$> m.printParts parts) := by
  have performed : m.perform (.print parts) = (m, m.commands (.print parts)) := rfl
  rw [performed, commands]
  cases m.printParts parts <;> rfl

/-- A line that prints writes all that the pieces show if each of them can be evaluated. -/
theorem execute_of_value (value : Text → Value)
    (read : Statement.parse line t = .ok (.print (Clause.printParts none first parts)))
    (values : ∀ piece ∈ first :: parts.map Prod.snd, piece.IsFilled →
      evalText m.vars piece = .ok (value piece)) :
    let item (piece : Text) : Text := if piece.IsFilled then (value piece).print else []
    m.execute ⟨line, t⟩ = (m, Display.write (item first ++
      (parts.flatMap fun part => spacing part.1 ++ item part.2) ++
        if endsOpen parts then [] else ['\n'])) := by
  intro item
  have shown : ∀ piece ∈ first :: parts.map Prod.snd, m.shown piece = .ok (item piece) := by
    intro piece mem
    simp only [Machine.shown, item]
    split
    · next filled =>
      rw [values piece mem filled]
      rfl
    · rfl
  refine execute_of_perform_ok read ?_
  rw [perform_print, printParts_of_shown shown, endsOpenFrom_none]
  rfl

/-- It writes nothing but the report if one of them cannot. -/
theorem execute_of_piece_error {front back : List Text} {piece : Text} {e : Error}
    (read : Statement.parse line t = .ok (.print (Clause.printParts none first parts)))
    (pieces : first :: parts.map Prod.snd = front ++ piece :: back)
    (values : ∀ p ∈ front, p.IsFilled → ∃ v, evalText m.vars p = .ok v) (filled : piece.IsFilled)
    (failed : evalText m.vars piece = .error e) :
    m.execute ⟨line, t⟩ = (m, report (e.inLine line)) := by
  have shown : ∀ p ∈ front, ∃ text, m.shown p = .ok text := by
    intro p mem
    rw [Machine.shown]
    split
    · next filled =>
      obtain ⟨v, evaluated⟩ := values p mem filled
      exact ⟨v.print, by rw [evaluated]; rfl⟩
    · exact ⟨[], rfl⟩
  have unshown : m.shown piece = .error e := by
    rw [Machine.shown, if_pos filled, failed]
    rfl
  refine execute_of_perform_error read ?_
  rw [perform_print, printParts_of_not_shown pieces shown unshown]
  rfl

end Machine

namespace Text

/-- A literal. -/
def quoted (t : Text) : Text := '"' :: t ++ ['"']

theorem isFilled_quoted (t : Text) : t.quoted.IsFilled := ⟨'"', List.mem_cons_self, by decide⟩

/-- A text cut into literals. -/
theorem cut_quoted {first : Text} {rest : List Text} (plain : ∀ t ∈ first :: rest, '"' ∉ t) :
    Cut isPrintSeparator ([';'].intercalate ((first :: rest).map quoted)) first.quoted
      (rest.map fun t => (';', t.quoted)) := by
  have literals : ∀ piece ∈ (first :: rest).map quoted,
      piece.IsClosed ∧ Nesting.outside.exposed piece = [] := by
    intro piece mem
    obtain ⟨t, ht, rfl⟩ := List.mem_map.mp mem
    exact Nesting.scan_literal (plain t ht)
  have hidden : ∀ piece ∈ (first :: rest).map quoted, ∀ c ∈ Nesting.outside.exposed piece,
      isPrintSeparator c = false := by
    intro piece mem
    rw [(literals piece mem).2]
    exact List.forall_mem_nil _
  have cut : Cut isPrintSeparator ([';'].intercalate ((first :: rest).map quoted)) first.quoted _ :=
    cut_intercalate (c := ';') (by decide)
      (fun piece mem => (literals piece (List.dropLast_subset _ mem)).1) hidden
  rw [List.map_map] at cut
  exact cut

/-- A line that prints literals one after another. -/
def printing (texts : List Text) : Text :=
  "PRINT ".toList ++ [';'].intercalate (texts.map quoted)

theorem exists_printing_append (first : Text) (rest : List Text) :
    ∃ front, printing (first :: rest) = front ++ ['"'] := by
  have ends : ∃ front, [';'].intercalate ((first :: rest).map quoted) = front ++ ['"'] := by
    induction rest generalizing first with
    | nil => exact ⟨'"' :: first, List.intercalate_singleton⟩
    | cons next rest ih =>
        obtain ⟨front, ends⟩ := ih next
        refine ⟨first.quoted ++ [';'] ++ front, ?_⟩
        rw [List.map_cons, List.map_cons, List.intercalate_cons_cons, ← List.map_cons, ends,
          List.append_assoc _ front]
  obtain ⟨front, ends⟩ := ends
  exact ⟨"PRINT ".toList ++ front, by rw [printing, ends, List.append_assoc]⟩

theorem trimWhile_printing (first : Text) (rest : List Text) :
    trimWhile isLineEdge (printing (first :: rest)) = printing (first :: rest) := by
  have letter : isLineEdge 'P' = false := by decide
  have quote : isLineEdge '"' = false := by decide
  obtain ⟨front, ends⟩ := exists_printing_append first rest
  refine trimWhile_eq_self_of_ends ?_ ?_
  · simpa [printing] using letter
  · rw [ends]
    simpa using quote

/-- Without any literal, the keyword is left. -/
theorem trimWhile_printing_nil : trimWhile isLineEdge (printing []) = "PRINT".toList := by
  decide +kernel

end Text

namespace Machine

/-- Printing literals writes what stands in them, whatever the machine is. -/
theorem execute_printing (m : Machine) {first : Text} {rest : List Text}
    (plain : ∀ t ∈ first :: rest, '"' ∉ t) (line : Option Nat) :
    m.execute ⟨line, Text.printing (first :: rest)⟩ =
      (m, Display.write ((first :: rest).flatten ++ ['\n'])) := by
  let value (piece : Text) : Value := .text (piece.literal?.getD [])
  have valued {t : Text} (h : '"' ∉ t) : value t.quoted = .text t := by
    simp only [value, Text.literal?_eq_some_iff.mpr ⟨rfl, h⟩, Text.quoted, Option.getD_some]
  have pieces : (rest.map fun t => (';', t.quoted)).map Prod.snd = rest.map Text.quoted :=
    List.map_map
  have values : ∀ piece ∈ first.quoted :: (rest.map fun t => (';', t.quoted)).map Prod.snd,
      piece.IsFilled → evalText m.vars piece = .ok (value piece) := by
    rw [pieces, ← List.map_cons]
    intro piece mem _
    obtain ⟨t, ht, rfl⟩ := List.mem_map.mp mem
    rw [valued (plain t ht)]
    exact Expression.evalText_literal (plain t ht)
  have item {t : Text} (h : '"' ∉ t) :
      (if t.quoted.IsFilled then (value t.quoted).print else []) = t := by
    rw [if_pos (Text.isFilled_quoted t), valued h, Value.print_text]
  have others : ((rest.map fun t => (';', t.quoted)).flatMap fun part =>
      spacing part.1 ++ if part.2.IsFilled then (value part.2).print else []) = rest.flatten := by
    rw [List.flatMap_map, List.flatMap_def]
    refine congrArg List.flatten ((List.map_congr_left fun t ht => ?_).trans (List.map_id rest))
    have nothing : spacing ';' = [] := by decide
    rw [nothing, List.nil_append]
    exact item (plain t (List.mem_cons_of_mem first ht))
  have closes : endsOpen (rest.map fun t => (';', t.quoted)) = false := by
    have filled (t : Text) : (!decide t.quoted.IsFilled) = false := by
      rw [decide_eq_true t.isFilled_quoted, Bool.not_true]
    rw [endsOpen, List.getLast?_map]
    cases rest.getLast? with
    | none => rfl
    | some t => rw [Option.map_some, Option.any_some, filled, Bool.and_false]
  have read := Statement.parse_print line List.mem_cons_self (Text.cut_quoted plain)
  have executed := execute_of_value (m := m) value read values
  dsimp only at executed
  rw [item (plain first List.mem_cons_self), others, closes, if_neg Bool.false_ne_true] at executed
  rw [Text.printing, List.flatten_cons]
  exact executed

end Machine

namespace Session

theorem typedDirect_printing (texts : List Text)
    (within : (Text.printing texts).byteLength ≤ Line.maxBytes) :
    Line.TypedDirect (Text.printing texts) := by
  refine ⟨within, ?_⟩
  cases texts with
  | nil => decide +kernel
  | cons first rest =>
      rw [Text.trimWhile_printing]
      exact ⟨List.cons_ne_nil 'P' _, rfl⟩

/-- The line is queued without the blanks that are left at its end if there is no literal. -/
theorem execute_directLine_printing (m : Machine) {texts : List Text}
    (plain : ∀ t ∈ texts, '"' ∉ t) :
    m.execute (directLine (Text.printing texts)) =
      (m, Display.write (texts.flatten ++ ['\n'])) := by
  rw [directLine]
  cases texts with
  | nil =>
      rw [Text.trimWhile_printing_nil]
      exact Machine.execute_of_perform_ok (s := .print [.newline]) (by decide +kernel) rfl
  | cons first rest =>
      rw [Text.trimWhile_printing]
      exact m.execute_printing plain none

theorem enter_printing (s : Session) {texts : List Text}
    (within : (Text.printing texts).byteLength ≤ Line.maxBytes) :
    s.enter (Text.printing texts) = ({ s with
      machine := s.machine.halt
      queue := s.queue ++ [directLine (Text.printing texts)] }, true) := by
  rw [enter_eq, Line.intake_of_typedDirect (typedDirect_printing texts within)]
  rfl

/-- Entered where nothing else is to be done, such a line is all that is worked off. -/
theorem exists_process_printing {s : Session} {texts : List Text} (plain : ∀ t ∈ texts, '"' ∉ t)
    (within : (Text.printing texts).byteLength ≤ Line.maxBytes) (idle : s.machine.run = none)
    (queue : s.queue = []) (rejected : s.rejected = []) :
    ∃ fuel, s.process fuel (Text.printing texts) =
      some ({ machine := s.machine }, (Display.write (texts.flatten ++ ['\n'])).toArray) := by
  refine (exists_process_iff (typedDirect_printing texts within) idle queue rejected).mpr
    ⟨s.machine, ?_, rfl⟩
  have rest : Machine.isRunning s.machine = false := Machine.isRunning_eq_false_iff.mpr idle
  have executed := execute_directLine_printing s.machine plain
  have completes : Completes [directLine (Text.printing texts)] s.machine s.machine
      ((s.machine.execute (directLine (Text.printing texts))).2.toArray ++ #[]) :=
    .direct rest (by rw [executed]; exact .done rest)
  rwa [executed, Array.append_empty] at completes

/-- Whatever follows the keyword in either spelling can be cut at its exposed semicolons and commas.
If all pieces that are not blank can be evaluated, then what their values print is written in order,
with a space for each comma, nothing for a semicolon, and one new line at the end unless the last
separator is a semicolon with only blanks behind it. Else nothing is written but the report of the
first piece that cannot be evaluated. The machine stays as it is in either case. In particular, a
typed line that prints literals writes what stands in them one after another and a new line. -/
theorem print_writes_items :
    (∀ (m : Machine) (line : Option Nat) (opening s : Text), opening ∈ ["PRINT ".toList, ['?']] →
      (∃ first parts, s.Cut isPrintSeparator first parts) ∧
      ∀ first parts, s.Cut isPrintSeparator first parts →
        (∀ value : Text → Value,
          (∀ piece ∈ first :: parts.map Prod.snd, piece.IsFilled →
            evalText m.vars piece = .ok (value piece)) →
          let item (piece : Text) : Text := if piece.IsFilled then (value piece).print else []
          m.execute ⟨line, opening ++ s⟩ = (m, (item first ++
            (parts.flatMap fun part => spacing part.1 ++ item part.2) ++
              if endsOpen parts then [] else ['\n']).map .character)) ∧
        ∀ front piece back e, first :: parts.map Prod.snd = front ++ piece :: back →
          (∀ p ∈ front, p.IsFilled → ∃ v, evalText m.vars p = .ok v) → piece.IsFilled →
            evalText m.vars piece = .error e →
              m.execute ⟨line, opening ++ s⟩ = (m, (e.inLine line).characters)) ∧
    ∀ texts : List Text, (∀ t ∈ texts, '"' ∉ t) →
      (Text.printing texts).byteLength ≤ Line.maxBytes →
        let written : List Command := (texts.flatten ++ ['\n']).map .character
        let l := directLine (Text.printing texts)
        (∀ m : Machine, m.execute l = (m, written)) ∧
        ∀ s : Session,
          s.enter (Text.printing texts) =
            ({ s with machine := s.machine.halt, queue := s.queue ++ [l] }, true) ∧
          (s.machine.run = none → s.queue = [] → s.rejected = [] →
            ∃ fuel, s.process fuel (Text.printing texts) =
              some ({ machine := s.machine }, written.toArray)) := by
  refine ⟨fun m line opening s opens => ⟨⟨_, _, Text.cut_segments isPrintSeparator s⟩, ?_⟩,
    fun texts plain within => ?_⟩
  · intro first parts cut
    have read := Statement.parse_print line opens cut
    refine ⟨fun value values => Machine.execute_of_value value read values, ?_⟩
    intro front piece back e pieces values filled failed
    rw [← Machine.report_eq_characters]
    exact Machine.execute_of_piece_error read pieces values filled failed
  · intro written l
    refine ⟨fun m => execute_directLine_printing m plain, fun s => ⟨s.enter_printing within, ?_⟩⟩
    exact fun idle queue rejected => exists_process_printing plain within idle queue rejected

/-- A separator in a literal, an empty piece between two commas, and a semicolon with a
blank behind it. Then a piece that fails between two that do not, and a typed line. -/
theorem print_writes_items_mixed :
    let m := { Machine.initial with vars := Variables.empty.insert ['X'] (.integer 7) }
    m.execute ⟨none, "?\"A;B\";x,,CHR$(60+6); ".toList⟩ =
        (m, "A;B7  B".toList.map .character) ∧
      m.execute ⟨some 10, "PRINT X;X/0;X".toList⟩ =
        (m, "?ERROR: DIVISION BY ZERO IN 10\n".toList.map .character) ∧
      (initial.enter "PRINT \"a;\";\"\";\"b\"".toList).2 = true ∧
      ∃ fuel, initial.process fuel "PRINT \"a;\";\"\";\"b\"".toList =
        some (initial, ("a;b\n".toList.map Command.character).toArray) := by
  intro m
  let value (piece : Text) : Value := (evalText m.vars piece).toOption.getD .zero
  obtain ⟨prints, typed⟩ := print_writes_items
  obtain ⟨-, shown⟩ := prints m none ['?'] "\"A;B\";x,,CHR$(60+6); ".toList (by decide)
  obtain ⟨-, failing⟩ := prints m (some 10) "PRINT ".toList "X;X/0;X".toList (by decide)
  have whole (pieces : List Text)
      (h : pieces.all (fun p => (Nesting.outside.exposed p).all (!isPrintSeparator ·)) = true) :
      ∀ piece ∈ pieces, ∀ c ∈ Nesting.outside.exposed piece, isPrintSeparator c = false := by
    simpa using h
  have cut : Text.Cut isPrintSeparator "\"A;B\";x,,CHR$(60+6); ".toList "\"A;B\"".toList
      [(';', ['x']), (',', []), (',', "CHR$(60+6)".toList), (';', [' '])] :=
    ⟨by decide, by decide, by decide, whole _ (by decide)⟩
  have cut' : Text.Cut isPrintSeparator "X;X/0;X".toList ['X']
      [(';', "X/0".toList), (';', ['X'])] :=
    ⟨by decide, by decide, by decide, whole _ (by decide)⟩
  refine ⟨?_, ?_, ?_⟩
  · refine ((shown _ _ cut).1 value (by decide +kernel)).trans (congrArg (Prod.mk m) ?_)
    decide +kernel
  · refine ((failing _ _ cut').2 [['X']] "X/0".toList [['X']] { kind := .divisionByZero } rfl ?_
      (by decide) (by decide +kernel)).trans (congrArg (Prod.mk m) ?_)
    · exact List.forall_mem_singleton.mpr fun _ => ⟨.integer 7, by decide +kernel⟩
    · decide +kernel
  · obtain ⟨-, entered⟩ := typed ["a;".toList, [], ['b']] (by decide) (by decide)
    obtain ⟨accepted, processed⟩ := entered initial
    exact ⟨congrArg Prod.snd accepted, processed rfl rfl rfl⟩

end Session

end LineBasic
