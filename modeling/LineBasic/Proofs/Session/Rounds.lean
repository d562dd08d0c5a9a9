import LineBasic.Proofs.Machine.Counting
import LineBasic.Proofs.Session.Stretch

/-!
# The passes of a counted loop

`InRound` holds of the machine from the first line of the body to the line that closes
the loop. A line of the body moves it on by one place whether it fails or not
(`InRound.step`), so the body leads to the closing line (`InRound.body`), and this one
either begins the next pass (`InRound.again`) or ends the last one (`InRound.passed`).

Main statement: `InRound.rounds`, on all passes that are still to be made.
-/

namespace LineBasic

namespace CountedLoop

open Machine

variable {m₀ : Machine}

/-- The machine is about to execute the line at a place of the loop's program, which is
the only open loop, and the variable holds an integer. -/
structure InRound (loop : CountedLoop m₀) (place : Nat) (w : Int32) (m : Machine) : Prop where
  program : m.program = m₀.program
  run : m.run = some { lines := m₀.program.numbers.toArray, next := place }
  loops : m.loops = ⟨[loop.frame]⟩
  stored : m.vars.contains loop.name = true
  value : m.vars.fetch loop.name = .integer w

variable {m : Machine} {loop : CountedLoop m₀} {place : Nat} {w : Int32}

namespace InRound

theorem isRunning (h : loop.InRound place w m) : m.isRunning = true := by
  rw [Machine.isRunning, h.run]
  rfl

theorem upcoming?_eq (h : loop.InRound place w m) (ascending : m₀.program.Ascending) :
    m.upcoming? = (loop.first :: (loop.body ++ [loop.last]))[place]? := by
  rw [upcoming?_eq_getElem? ascending h.program h.run, loop.lines]

theorem advance (h : loop.InRound place w m) : loop.InRound (place + 1) w m.advance where
  program := h.program
  run := by rw [Machine.advance, h.run, Option.map_some]
  loops := h.loops
  stored := h.stored
  value := h.value

/-- Whether it fails or not, a line of the body leads on to the line behind it. -/
theorem step (h : loop.InRound place w m) {line : ProgramLine} (upcoming : m.upcoming? = some line)
    (hline : line ∈ loop.body) : loop.InRound (place + 1) w m.step.1 := by
  rw [step_of_upcoming? upcoming]
  cases read : line.toLine.statement with
  | error e =>
      rw [Machine.execute]
      simp only [read]
      exact h.advance
  | ok s =>
      rw [execute_fst_of_statement read]
      obtain ⟨program, run, loops, value, stored⟩ :=
        (m.advance.performs s).spares (loop.spared line hline s read)
      exact ⟨program.trans h.advance.program, run.trans h.advance.run,
        loops.trans h.advance.loops, stored h.advance.stored, value.trans h.advance.value⟩

/-- The rest of the body is executed line by line, the variable keeping its value. -/
theorem body (h : loop.InRound place w m) (ascending : m₀.program.Ascending)
    {done rest : List ProgramLine} (split : loop.body = done ++ rest)
    (here : place = done.length + 1) :
    ∃ ms m', Runs m ms m' ∧ ms.map upcoming? = rest.map some ∧
      (∀ m ∈ ms, m.vars.fetch loop.name = .integer w) ∧
      loop.InRound (loop.body.length + 1) w m' := by
  induction rest generalizing m place done with
  | nil =>
      rw [List.append_nil] at split
      refine ⟨[], m, .nil m, rfl, by simp, ?_⟩
      rw [split, ← here]
      exact h
  | cons line rest ih =>
      have upcoming : m.upcoming? = some line := by
        rw [h.upcoming?_eq ascending, here, split]
        simp
      have further : loop.body = (done ++ [line]) ++ rest := by simp [split]
      obtain ⟨ms, m', stretch, lines, values, arrived⟩ :=
        ih (h.step upcoming (by simp [split])) further (by simp [here])
      refine ⟨m :: ms, m', .cons h.isRunning stretch, by simp [upcoming, lines], ?_, arrived⟩
      intro other hother
      rcases List.mem_cons.mp hother with rfl | hother
      · exact h.value
      · exact values other hother

/-- The line that closes the loop finds it, whether it names the variable or not. -/
theorem target?_eq (h : loop.InRound place w m) :
    m.target? loop.target = some (loop.frame, .empty) := by
  rw [target?, h.loops, Stack.newest?_eq_some_iff]
  refine ⟨?_, [], rfl, by simp⟩
  rcases loop.own with own | own
  · rw [own]
    rfl
  · rw [own]
    simp [frame]

theorem upcoming?_last (h : loop.InRound (loop.body.length + 1) w m)
    (ascending : m₀.program.Ascending) : m.upcoming? = some loop.last := by
  rw [h.upcoming?_eq ascending]
  simp

/-- What the closing line does to the machine. -/
theorem step_last (h : loop.InRound (loop.body.length + 1) w m)
    (ascending : m₀.program.Ascending) : m.step.1 = (m.advance.closeLoop loop.target).1 := by
  rw [step_of_upcoming? (h.upcoming?_last ascending), execute_fst_of_statement loop.closes]
  rfl

theorem closeLoop_eq (h : loop.InRound place w m) :
    m.advance.closeLoop loop.target =
      match loop.frame.advance w with
      | .error e => (m.advance, .error e)
      | .ok (n, true) =>
        ({ m.advance with
            vars := m.vars.insert loop.name (.integer n)
            run := some { lines := m₀.program.numbers.toArray, next := 1 } }, .ok [])
      | .ok (n, false) =>
        ({ m.advance with vars := m.vars.insert loop.name (.integer n), loops := .empty },
          .ok []) := by
  have room : m.advance.vars.HasRoom loop.frame.name := .inl h.stored
  have unchanged : { m.advance with loops := ⟨[loop.frame]⟩ } = m.advance := by
    rw [← h.advance.loops]
  have following : m.advance.following loop.frame = loop.frame.advance w := by
    rw [Machine.following, frame]
    exact h.advance.value ▸ rfl
  rw [closeLoop_of_target h.advance.run h.advance.target?_eq, advanced, following]
  cases loop.frame.advance w with
  | error e =>
      simp only [bind, Except.bind]
      exact congrArg (fun m : Machine => (m, (Except.error e : Outcome))) unchanged
  | ok result =>
      obtain ⟨n, again⟩ := result
      simp only [bind, Except.bind, Variables.store_of_hasRoom room]
      cases again with
      | true =>
          simp only [pure, Except.pure, h.advance.loops]
          rfl
      | false => rfl

end InRound

/-- One pass: the body and the closing line are executed in order, and each finds the
value of pass `i` in the variable. -/
def Pass (loop : CountedLoop m₀) (i : Nat) (ms : List Machine) : Prop :=
  ms.map upcoming? = (loop.body ++ [loop.last]).map some ∧
    ∃ w : Int32, w.toInt = loop.valueIn i ∧ ∀ m ∈ ms, m.vars.fetch loop.name = .integer w

/-- The machine when all passes are made, the last of them closed in the machine
`closing`: the variable has gone one step past the last pass, unless it cannot. -/
structure Passed (loop : CountedLoop m₀) (closing m : Machine) : Prop where
  program : m.program = m₀.program
  run : m.run = some { lines := m₀.program.numbers.toArray, next := loop.body.length + 2 }
  fits : ∀ w : Int32, w.toInt = loop.valueIn loop.rounds →
    m.vars.fetch loop.name = .integer w ∧ m.loops.size = 0
  overflows : (∀ w : Int32, w.toInt ≠ loop.valueIn loop.rounds) →
    closing.upcoming? = some loop.last ∧
      (Session.Deed.step closing).error? =
        some { kind := .overflow, line := some loop.last.number } ∧
      ∃ w : Int32, w.toInt = loop.valueIn (loop.rounds - 1) ∧
        m.vars.fetch loop.name = .integer w

namespace InRound

/-- At the end of a pass that is not the last one the next pass begins. -/
theorem again (h : loop.InRound (loop.body.length + 1) w m) (ascending : m₀.program.Ascending)
    {i : Nat} (value : w.toInt = loop.valueIn i) (more : i + 1 < loop.rounds) :
    ∃ n : Int32, n.toInt = loop.valueIn (i + 1) ∧ loop.InRound 1 n m.step.1 := by
  obtain ⟨n, hn⟩ := loop.exists_value more
  refine ⟨n, hn, ?_⟩
  rw [h.step_last ascending, h.closeLoop_eq, loop.frame_advance value hn, decide_eq_true more]
  refine ⟨h.program, rfl, h.loops, ?_, ?_⟩
  · exact Variables.contains_insert_self _ _ _
  · exact Variables.fetch_insert_self _ _ _

/-- At the end of the last pass the loop is closed, or the variable stays as it is. -/
theorem passed (h : loop.InRound (loop.body.length + 1) w m) (ascending : m₀.program.Ascending)
    {i : Nat} (value : w.toInt = loop.valueIn i) (last : i + 1 = loop.rounds) :
    loop.Passed m m.step.1 := by
  have next : loop.valueIn loop.rounds = w.toInt + loop.frame.step.toInt := by
    rw [← last, loop.valueIn_succ, value]
    rfl
  by_cases fits : ∃ n : Int32, n.toInt = loop.valueIn loop.rounds
  · obtain ⟨n, hn⟩ := fits
    have exhausted : ¬ i + 1 < loop.rounds := by omega
    rw [h.step_last ascending, h.closeLoop_eq, loop.frame_advance value (last ▸ hn),
      decide_eq_false exhausted]
    refine ⟨h.program, h.advance.run, ?_, fun none => (none n hn).elim⟩
    intro w hw
    obtain rfl := Int32.toInt_inj.mp (hw.trans hn.symm)
    exact ⟨Variables.fetch_insert_self _ _ _, rfl⟩
  · have advanced : loop.frame.advance w = .error { kind := .overflow } :=
      Loop.advance_of_forall_ne fun n hn => fits ⟨n, hn.trans next.symm⟩
    have closed := h.closeLoop_eq
    rw [advanced] at closed
    rw [h.step_last ascending, closed]
    refine ⟨h.program, h.advance.run, fun w hw => (fits ⟨w, hw⟩).elim, ?_⟩
    intro _
    refine ⟨h.upcoming?_last ascending, ?_, w, ?_, h.value⟩
    · have failed : m.advance.perform (.next loop.target) =
          (m.advance, .error { kind := .overflow }) := closed
      simp only [Session.Deed.error?, h.upcoming?_last ascending, Option.bind_some,
        Machine.failure?, loop.closes, failed]
      rfl
    · rw [← last]
      exact value

/-- One pass leads from the first line of the body to the closing line and past it. -/
theorem pass (h : loop.InRound 1 w m) (ascending : m₀.program.Ascending) {i : Nat}
    (value : w.toInt = loop.valueIn i) :
    ∃ ms closing, Runs m (ms ++ [closing]) closing.step.1 ∧ loop.Pass i (ms ++ [closing]) ∧
      loop.InRound (loop.body.length + 1) w closing := by
  obtain ⟨ms, closing, stretch, lines, values, arrived⟩ :=
    h.body ascending (List.nil_append loop.body).symm rfl
  refine ⟨ms, closing, stretch.append (.single arrived.isRunning), ?_, arrived⟩
  refine ⟨?_, w, value, ?_⟩
  · rw [List.map_append, List.map_append, lines, List.map_singleton, List.map_singleton,
      arrived.upcoming?_last ascending]
  · intro other hother
    rcases List.mem_append.mp hother with hother | hother
    · exact values other hother
    · rw [List.mem_singleton.mp hother]
      exact arrived.value

/-- All passes that are left, from pass `i` on. -/
theorem rounds (h : loop.InRound 1 w m) (ascending : m₀.program.Ascending) {i left : Nat}
    (value : w.toInt = loop.valueIn i) (count : i + (left + 1) = loop.rounds) :
    ∃ (passes : List (List Machine)) (closing m' : Machine),
      Runs m passes.flatten m' ∧ passes.length = left + 1 ∧
      (∀ j pass, passes[j]? = some pass → loop.Pass (i + j) pass) ∧
      passes.flatten.getLast? = some closing ∧ loop.Passed closing m' := by
  induction left generalizing m w i with
  | zero =>
      obtain ⟨ms, closing, stretch, pass, arrived⟩ := h.pass ascending value
      refine ⟨[ms ++ [closing]], closing, closing.step.1, ?_, rfl, ?_, ?_,
        arrived.passed ascending value count⟩
      · rw [List.flatten_singleton]
        exact stretch
      · intro j pass' hj
        cases j with
        | zero =>
            obtain rfl := Option.some.inj hj
            exact pass
        | succ j => cases hj
      · simp
  | succ left ih =>
      obtain ⟨ms, closing, stretch, pass, arrived⟩ := h.pass ascending value
      obtain ⟨n, hn, again⟩ := arrived.again ascending value (by omega)
      obtain ⟨passes, final, m', stretch', length, rest, last, passed⟩ := ih again hn (by omega)
      refine ⟨(ms ++ [closing]) :: passes, final, m', ?_, ?_, ?_, ?_, passed⟩
      · rw [List.flatten_cons]
        exact stretch.append stretch'
      · rw [List.length_cons, length]
      · intro j pass' hj
        cases j with
        | zero =>
            obtain rfl := Option.some.inj hj
            exact pass
        | succ j =>
            rw [← Nat.add_assoc, Nat.add_right_comm]
            exact rest j pass' hj
      · rw [List.flatten_cons, List.getLast?_append, last, Option.some_or]

end InRound

/-- The first step opens the loop. -/
theorem opening (loop : CountedLoop m₀) (ascending : m₀.program.Ascending) :
    m₀.start.isRunning = true ∧ m₀.start.upcoming? = some loop.first ∧
      loop.InRound 1 loop.a m₀.start.step.1 := by
  have filled : m₀.program.isEmpty = false := by
    rw [Program.isEmpty, loop.lines]
    rfl
  have started := start_of_filled filled
  have upcoming : m₀.start.upcoming? = some loop.first := by
    have run : m₀.start.run = some { lines := m₀.program.numbers.toArray, next := 0 } := by
      rw [started]
    rw [upcoming?_eq_getElem? ascending (by rw [started]) run, loop.lines]
    rfl
  refine ⟨by rw [started]; rfl, upcoming, ?_⟩
  have running : m₀.start.advance.run =
      some { lines := m₀.program.numbers.toArray, next := 1 } := by
    rw [started]
    rfl
  have values : m₀.start.advance.prepared loop.name loop.start loop.limit loop.stride =
      .ok (m₀.vars.insert loop.name (.integer loop.a), loop.b, loop.s) := by
    rw [started]
    exact prepared_eq_ok_iff.mpr
      ⟨loop.a, loop.first_value, loop.last_value, loop.step_value, loop.room, rfl⟩
  have outside : Loop.outside loop.name m₀.start.advance.loops = .empty := by
    rw [started]
    rfl
  rw [step_of_upcoming? upcoming, execute_fst_of_statement loop.opens, perform,
    openLoop_of_running running, values]
  simp only [outside]
  rw [if_pos (by decide)]
  refine ⟨?_, running, rfl, ?_, ?_⟩
  · rw [started]
    rfl
  · exact Variables.contains_insert_self _ _ _
  · exact Variables.fetch_insert_self _ _ _

/-- Behind the last line nothing is left to execute, and the run ends. -/
theorem Passed.ending {closing : Machine} (h : loop.Passed closing m)
    (ascending : m₀.program.Ascending) :
    m.isRunning = true ∧ m.upcoming? = none ∧ m.step.1 = m.halt := by
  have upcoming : m.upcoming? = none := by
    rw [upcoming?_eq_getElem? ascending h.program h.run, loop.lines]
    simp
  refine ⟨by rw [isRunning, h.run]; rfl, upcoming, ?_⟩
  have size : m.snapshot.size = loop.body.length + 2 := by
    simp [snapshot, h.run, Program.numbers, loop.lines]
  have counter : m.counter = loop.body.length + 2 := by
    simp [Machine.counter, h.run]
  rw [step_of_upcoming?_eq_none upcoming, size, counter, if_neg (Nat.lt_irrefl _)]

theorem length_flatten {passes : List (List Machine)} {count : Nat} (length : passes.length = count)
    (pass : ∀ i p, passes[i]? = some p → loop.Pass i p) :
    passes.flatten.length = count * (loop.body.length + 1) := by
  have lengths : passes.map List.length = List.replicate count (loop.body.length + 1) := by
    rw [List.eq_replicate_iff, List.length_map]
    refine ⟨length, ?_⟩
    intro n hn
    obtain ⟨p, hp, rfl⟩ := List.mem_map.mp hn
    obtain ⟨i, hi⟩ := List.mem_iff_getElem?.mp hp
    simpa using congrArg List.length (pass i p hi).1
  rw [List.length_flatten, lengths, List.sum_replicate, smul_eq_mul]

end CountedLoop

end LineBasic
