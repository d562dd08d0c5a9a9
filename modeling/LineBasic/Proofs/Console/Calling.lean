import LineBasic.Console.Output
import Mathlib.Data.List.Basic

/-!
# Calls and their failures

Whatever is done with a terminal adds calls to its record and changes neither what it holds
already nor which calls will fail. The failure that is told for a number of calls is that of
the first one among them that fails; of calls in a chain it is also the last one made.

An output makes its calls one chain after the other and keeps the first failure. So what it
remembers is the first failure of all calls since it was told the last one, however they are
divided into chains.
-/

namespace LineBasic

namespace Terminal

/-- Why the first of the next `n` calls that fails does so. -/
def fault? (t : Terminal) (n : Nat) : Option Text := (List.range' t.calls n).findSome? t.faults

/-- Making these calls, and nothing else, leads from one terminal to the other. -/
structure Made (t t' : Terminal) (calls : List Call) : Prop where
  record : t'.record.toList = t.record.toList ++ calls.map .call
  count : t'.calls = t.calls + calls.length
  faults : t'.faults = t.faults

@[simp] theorem fault?_zero (t : Terminal) : t.fault? 0 = none := rfl

theorem fault?_one (t : Terminal) : t.fault? 1 = t.faults t.calls := by
  rw [fault?]
  cases h : t.faults t.calls <;> simp [List.range', h]

theorem fault?_eq_none_iff {t : Terminal} {n : Nat} :
    t.fault? n = none ↔ ∀ i, t.calls ≤ i → i < t.calls + n → t.faults i = none := by
  simp [fault?, List.findSome?_eq_none_iff, List.mem_range'_1]

namespace Made

variable {t t₁ t₂ : Terminal} {calls calls₁ calls₂ : List Call}

theorem refl (t : Terminal) : Made t t [] where
  record := by simp
  count := by simp
  faults := rfl

theorem trans (first : Made t t₁ calls₁) (second : Made t₁ t₂ calls₂) :
    Made t t₂ (calls₁ ++ calls₂) where
  record := by rw [second.record, first.record, List.map_append, List.append_assoc]
  count := by rw [second.count, first.count, List.length_append, Nat.add_assoc]
  faults := second.faults.trans first.faults

/-- The first failure of all calls is that of the first part, if there is any, and else that
of the second. -/
theorem fault?_append (first : Made t t₁ calls₁) (calls₂ : List Call) :
    t.fault? (calls₁ ++ calls₂).length =
      (t.fault? calls₁.length).or (t₁.fault? calls₂.length) := by
  rw [fault?, fault?, fault?, first.count, first.faults, List.length_append,
    ← List.range'_append_1, List.findSome?_append]

end Made

theorem made_call (t : Terminal) (c : Call) : Made t (t.call c).1 [c] where
  record := by simp [call]
  count := rfl
  faults := rfl

theorem callAll_singleton (t : Terminal) (c : Call) : t.callAll [c] = t.call c := by
  rw [callAll]
  split
  · next passed => exact passed.symm
  · next failed => exact failed.symm

/-- Of a chain of calls those up to the first failing one are made, and its failure is
told. -/
theorem exists_made_callAll (t : Terminal) (calls : List Call) :
    ∃ made, made <+: calls ∧ Made t (t.callAll calls).1 made ∧
      (t.callAll calls).2 = t.fault? made.length ∧
      ((t.callAll calls).2 = none → made = calls) := by
  induction calls generalizing t with
  | nil => exact ⟨[], List.prefix_rfl, .refl t, rfl, fun _ => rfl⟩
  | cons c rest ih =>
      have first := made_call t c
      have outcome : (t.call c).2 = t.fault? [c].length := (fault?_one t).symm
      rw [callAll]
      split
      · next t₁ passed =>
        obtain ⟨made, before, all, told, whole⟩ := ih t₁
        rw [passed] at first outcome
        refine ⟨c :: made, List.cons_prefix_cons.mpr ⟨rfl, before⟩, first.trans all, ?_, ?_⟩
        · rw [told, ← List.singleton_append, first.fault?_append, ← outcome]
          rfl
        · intro success
          rw [whole success]
      · next t₁ fault failed =>
        rw [failed] at first outcome
        refine ⟨[c], List.cons_prefix_cons.mpr ⟨rfl, List.nil_prefix⟩, first, outcome, ?_⟩
        intro success
        cases success

end Terminal

namespace Output

/-- Making these calls, and nothing else on the terminal, leads from one output to the other,
which remembers their first failure unless it remembers an earlier one. -/
structure Made (o o' : Output) (calls : List Call) : Prop where
  terminal : o.terminal.Made o'.terminal calls
  failure : o'.failure = o.failure.or (o.terminal.fault? calls.length)
  color : o'.color = o.color

namespace Made

variable {o o₁ o₂ : Output} {calls₁ calls₂ : List Call}

theorem refl (o : Output) : Made o o [] where
  terminal := .refl _
  failure := by simp
  color := rfl

theorem trans (first : Made o o₁ calls₁) (second : Made o₁ o₂ calls₂) :
    Made o o₂ (calls₁ ++ calls₂) where
  terminal := first.terminal.trans second.terminal
  failure := by
    rw [second.failure, first.failure, first.terminal.fault?_append, Option.or_assoc]
  color := second.color.trans first.color

end Made

end Output

namespace Output

theorem exists_made_callAll (o : Output) (calls : List Call) :
    ∃ made, made <+: calls ∧ Made o (o.callAll calls) made ∧
      (o.terminal.fault? made.length = none → made = calls) := by
  obtain ⟨made, before, all, told, whole⟩ := o.terminal.exists_made_callAll calls
  refine ⟨made, before, ⟨all, ?_, rfl⟩, fun success => whole (told.trans success)⟩
  rw [← told, Option.or_eq_orElse]
  rfl

/-- The text that is held back once a command is carried out. -/
def heldAfter (o : Output) : Display.Command → String
  | .character c => o.held ++ shown o.color (o.screen.page.write c) c
  | .clearScreen | .moveTo _ _ => ""
  | _ => o.held

theorem heldAfter_character (o : Output) (c : Char) :
    o.heldAfter (.character c) = o.held ++ shown o.color (o.screen.page.write c) c := rfl

/-- The calls by which a command is carried out. -/
def callsFor (o : Output) : Display.Command → List Call
  | .clearScreen => [.clearScreen]
  | .moveTo column row =>
    let page := o.screen.page.moveTo column row
    .write o.held :: moves o.screen.page.row page.column page.row
  | _ => []

/-- The calls by which the held text is written. -/
def callsToFlush (o : Output) : List Call := if o.held.isEmpty then [] else [.write o.held]

/-- A command changes the screen in memory and the held text, and then makes its calls. -/
theorem apply_eq (o : Output) (command : Display.Command) :
    o.apply command =
      callAll { o with screen := o.screen.apply command, held := o.heldAfter command }
        (o.callsFor command) := by
  obtain ⟨terminal, screen, held, color, failure⟩ := o
  cases command with
  | clearScreen | moveTo => rfl
  | _ => cases failure <;> rfl

theorem flush_eq (o : Output) :
    o.flush = (let o' := callAll { o with held := "" } o.callsToFlush
      ({ o' with failure := none }, o'.failure)) := by
  by_cases h : o.held.isEmpty = true
  · have held : o.held = "" := String.isEmpty_iff.mp h
    obtain ⟨terminal, screen, held, color, failure⟩ := o
    subst held
    simp [flush, callsToFlush, callAll, Terminal.callAll, remember]
  · simp [flush, callsToFlush, h]

theorem exists_made_apply (o : Output) (command : Display.Command) :
    ∃ made, made <+: o.callsFor command ∧ Made o (o.apply command) made ∧
      (o.terminal.fault? made.length = none → made = o.callsFor command) := by
  rw [apply_eq]
  obtain ⟨made, before, all, whole⟩ := exists_made_callAll
    { o with screen := o.screen.apply command, held := o.heldAfter command } (o.callsFor command)
  exact ⟨made, before, ⟨all.terminal, all.failure, all.color⟩, whole⟩

@[simp] theorem screen_apply (o : Output) (command : Display.Command) :
    (o.apply command).screen = o.screen.apply command := by
  rw [apply_eq]
  rfl

@[simp] theorem held_apply (o : Output) (command : Display.Command) :
    (o.apply command).held = o.heldAfter command := by
  rw [apply_eq]
  rfl

@[simp] theorem screen_flush (o : Output) : o.flush.1.screen = o.screen := by
  rw [flush_eq]
  rfl

@[simp] theorem held_flush (o : Output) : o.flush.1.held = "" := by
  rw [flush_eq]
  rfl

@[simp] theorem color_flush (o : Output) : o.flush.1.color = o.color := by
  rw [flush_eq]
  rfl

@[simp] theorem failure_flush (o : Output) : o.flush.1.failure = none := by
  rw [flush_eq]

/-- Flushing writes all that is held back, and tells the first failure so far. -/
theorem made_flush (o : Output) :
    o.terminal.Made o.flush.1.terminal o.callsToFlush ∧
      o.flush.2 = o.failure.or (o.terminal.fault? o.callsToFlush.length) := by
  rw [flush_eq, callsToFlush]
  split
  · refine ⟨.refl _, ?_⟩
    simp [callAll, Terminal.callAll, remember]
  · have made := o.terminal.made_call (.write o.held)
    refine ⟨?_, ?_⟩
    · rw [callAll, Terminal.callAll_singleton]
      exact made
    · rw [callAll, Terminal.callAll_singleton, List.length_singleton, Terminal.fault?_one,
        Option.or_eq_orElse]
      rfl

/-- What can be asked of an output. -/
inductive Order where
  | command (c : Display.Command)
  | flush
  deriving DecidableEq, Repr

def obey (o : Output) : Order → Output
  | .command c => o.apply c
  | .flush => o.flush.1

def obeyAll (o : Output) (orders : List Order) : Output := orders.foldl obey o

/-- The commands among what is asked. -/
def commandsOf (orders : List Order) : List Display.Command :=
  orders.filterMap fun
    | .command c => some c
    | .flush => none

theorem screen_obeyAll (o : Output) (orders : List Order) :
    (o.obeyAll orders).screen = o.screen.run (commandsOf orders) := by
  induction orders generalizing o with
  | nil => rfl
  | cons order orders ih =>
      cases order with
      | command c => exact (ih _).trans (congrArg (Screen.run · _) (o.screen_apply c))
      | flush => exact (ih _).trans (congrArg (Screen.run · _) o.screen_flush)

theorem exists_made_obey (o : Output) (order : Order) :
    ∃ made, o.terminal.Made (o.obey order).terminal made := by
  cases order with
  | command c =>
      obtain ⟨made, -, all, -⟩ := o.exists_made_apply c
      exact ⟨made, all.terminal⟩
  | flush => exact ⟨_, o.made_flush.1⟩

theorem exists_made_obeyAll (o : Output) (orders : List Order) :
    ∃ made, o.terminal.Made (o.obeyAll orders).terminal made := by
  induction orders generalizing o with
  | nil => exact ⟨[], .refl _⟩
  | cons order orders ih =>
      obtain ⟨made₁, first⟩ := o.exists_made_obey order
      obtain ⟨made₂, rest⟩ := ih (o.obey order)
      exact ⟨made₁ ++ made₂, first.trans rest⟩

end Output

end LineBasic
