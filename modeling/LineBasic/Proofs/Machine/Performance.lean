import LineBasic.Proofs.Machine.Raising
import LineBasic.Proofs.Statement.Leaves

/-!
# What performing a statement can do

`chosen` follows the conditions of a statement down to the leaf that is performed,
and `Performs` lists all that performing it may come to, with the guards under which
it does. `performs` is the inversion of `perform`: whatever is to be shown of a
performed statement is shown case by case of this relation, and no proof has to take
the statements apart once more.

Loops are described by the loops outside them. A loop that is opened takes the place
of the loop that its variable has, and a loop that is closed gives up all loops
inside it, even if it then fails to advance.
-/

namespace LineBasic

/-- Whether a value may be stored under the name. -/
def Variables.HasRoom (vars : Variables) (name : Text) : Prop :=
  vars.contains name = true ∨ vars.size < Variables.capacity

theorem Variables.store_of_hasRoom {vars : Variables} {name : Text} (h : vars.HasRoom name)
    (v : Value) : vars.store name v = .ok (vars.insert name v) :=
  store_eq_ok_iff.mpr ⟨h, rfl⟩

/-- The loops that stay when the variable opens a loop: all loops from its own one
inwards are given up. -/
def Loop.outside (name : Text) (loops : Stack Loop) : Stack Loop :=
  match loops.newest? (·.name == name) with
  | some (_, below) => below
  | none => loops

namespace Machine

variable {m : Machine} {s : Statement}

/-- The step of a loop, which is one unless it is given. -/
def stepValue (m : Machine) : Option Expression → Except Error Int32
  | some step => m.integer step
  | none => .ok 1

/-- The newest loop, or the newest one of a variable, with the loops outside it. -/
def target? (m : Machine) (name : Option Text) : Option (Loop × Stack Loop) :=
  m.loops.newest? fun l => name.all (l.name == ·)

/-- The next value of a loop's variable, and whether the loop goes around again. -/
def following (m : Machine) (loop : Loop) : Except Error (Int32 × Bool) := do
  loop.advance (← (m.vars.fetch loop.name).toInteger)

/-- The leaf that is performed, if a condition leads to one. -/
def chosen (m : Machine) : Statement → Except Error (Option Statement)
  | .branch condition yes =>
    match m.holds condition with
    | .error e => .error e
    | .ok true => m.chosen yes
    | .ok false => .ok none
  | .branchElse condition yes no =>
    match m.holds condition with
    | .error e => .error e
    | .ok true => m.chosen yes
    | .ok false => m.chosen no
  | s => .ok (some s)

/-- What performing a statement comes to, one case for each thing it can do. -/
inductive Performs (m : Machine) (s : Statement) : Machine → Outcome → Prop where
  /-- A condition cannot be decided. -/
  | undecided {e : Error} (failed : m.chosen s = .error e) (raised : e.Raised) :
      Performs m s m (.error e)
  /-- A condition leads to no leaf. -/
  | skipped (nothing : m.chosen s = .ok none) : Performs m s m (.ok [])
  /-- The display is commanded, or a value for it is missing. -/
  | commanded {leaf : Statement} (choice : m.chosen s = .ok (some leaf))
      (command : leaf.isCommand = true) : Performs m s m (m.commands leaf)
  | stopped (choice : m.chosen s = .ok (some .stop)) :
      Performs m s m.halt (.ok (Display.write "Program ended\n".toList))
  | erased (choice : m.chosen s = .ok (some .erase)) :
      Performs m s m.erase (.ok (Display.write "Program cleared\n".toList))
  | started (choice : m.chosen s = .ok (some .run)) {commands : List Display.Command} :
      Performs m s m.start (.ok commands)
  | unassigned {name : Text} {value : Expression} {e : Error}
      (choice : m.chosen s = .ok (some (.assign name value))) (raised : e.Raised) :
      Performs m s m (.error e)
  | assigned {name : Text} {value : Expression} {v : Value}
      (choice : m.chosen s = .ok (some (.assign name value)))
      (evaluated : value.eval m.vars = .ok v) (room : m.vars.HasRoom name) :
      Performs m s { m with vars := m.vars.insert name v } (.ok [])
  /-- A loop is not opened: no program runs, a value is missing or cannot be stored. -/
  | unopened {name : Text} {start limit : Expression} {step : Option Expression} {e : Error}
      (choice : m.chosen s = .ok (some (.loop name start limit step))) (raised : e.Raised) :
      Performs m s m (.error e)
  /-- There are too many loops outside; the variable is stored before this is seen. -/
  | refused {name : Text} {start limit : Expression} {step : Option Expression} {r : Run}
      {a b c : Int32} (choice : m.chosen s = .ok (some (.loop name start limit step)))
      (running : m.run = some r) (first : m.integer start = .ok a)
      (last : m.integer limit = .ok b) (stride : m.stepValue step = .ok c)
      (room : m.vars.HasRoom name) (full : Stack.capacity ≤ (Loop.outside name m.loops).size) :
      Performs m s
        { m with vars := m.vars.insert name (.integer a), loops := Loop.outside name m.loops }
        (.error (.because .outOfMemory "TOO MANY NESTED LOOPS"))
  | opened {name : Text} {start limit : Expression} {step : Option Expression} {r : Run}
      {a b c : Int32} (choice : m.chosen s = .ok (some (.loop name start limit step)))
      (running : m.run = some r) (first : m.integer start = .ok a)
      (last : m.integer limit = .ok b) (stride : m.stepValue step = .ok c)
      (room : m.vars.HasRoom name) (free : (Loop.outside name m.loops).size < Stack.capacity) :
      Performs m s
        { m with
          vars := m.vars.insert name (.integer a)
          loops := ⟨{ name, limit := b, step := c, resume := r.next } ::
            (Loop.outside name m.loops).entries⟩ }
        (.ok [])
  /-- There is no loop to close. -/
  | unmatched {name : Option Text} {e : Error} (choice : m.chosen s = .ok (some (.next name)))
      (raised : e.Raised) (none : m.run = none ∨ m.target? name = none) :
      Performs m s m (.error e)
  /-- The variable does not advance; the loops inside are given up all the same. -/
  | stuck {name : Option Text} {r : Run} {loop : Loop} {below : Stack Loop} {e : Error}
      (choice : m.chosen s = .ok (some (.next name))) (running : m.run = some r)
      (target : m.target? name = some (loop, below)) (raised : e.Raised) :
      Performs m s { m with loops := ⟨loop :: below.entries⟩ } (.error e)
  | continued {name : Option Text} {r : Run} {loop : Loop} {below : Stack Loop} {v : Int32}
      (choice : m.chosen s = .ok (some (.next name))) (running : m.run = some r)
      (target : m.target? name = some (loop, below)) (room : m.vars.HasRoom loop.name)
      (again : m.following loop = .ok (v, true)) :
      Performs m s
        { m with
          vars := m.vars.insert loop.name (.integer v)
          loops := ⟨loop :: below.entries⟩
          run := some { r with next := loop.resume } }
        (.ok [])
  | finished {name : Option Text} {r : Run} {loop : Loop} {below : Stack Loop} {v : Int32}
      (choice : m.chosen s = .ok (some (.next name))) (running : m.run = some r)
      (target : m.target? name = some (loop, below)) (room : m.vars.HasRoom loop.name)
      (done : m.following loop = .ok (v, false)) :
      Performs m s { m with vars := m.vars.insert loop.name (.integer v), loops := below }
        (.ok [])

/-- The values of a loop, and the variables with its first value stored. -/
def prepared (m : Machine) (name : Text) (start limit : Expression) (step : Option Expression) :
    Except Error (Variables × Int32 × Int32) := do
  let a ← m.integer start
  let b ← m.integer limit
  let c ← m.stepValue step
  return (← m.vars.store name (.integer a), b, c)

theorem prepared_eq_ok_iff {name : Text} {start limit : Expression} {step : Option Expression}
    {vars : Variables} {b c : Int32} :
    m.prepared name start limit step = .ok (vars, b, c) ↔
      ∃ a, m.integer start = .ok a ∧ m.integer limit = .ok b ∧ m.stepValue step = .ok c ∧
        m.vars.HasRoom name ∧ vars = m.vars.insert name (.integer a) := by
  constructor
  · intro h
    obtain ⟨a, ha, h⟩ := bind_eq_ok_iff.mp h
    obtain ⟨b', hb, h⟩ := bind_eq_ok_iff.mp h
    obtain ⟨c', hc, h⟩ := bind_eq_ok_iff.mp h
    obtain ⟨vars', hvars, h⟩ := bind_eq_ok_iff.mp h
    obtain ⟨room, rfl⟩ := Variables.store_eq_ok_iff.mp hvars
    cases h
    exact ⟨a, ha, hb, hc, room, rfl⟩
  · rintro ⟨a, ha, hb, hc, room, rfl⟩
    simp only [prepared, ha, hb, hc, Variables.store_of_hasRoom room, bind, Except.bind]
    rfl

theorem raises_prepared (name : Text) (start limit : Expression) (step : Option Expression) :
    Raises (m.prepared name start limit step) := by
  have integer (e : Expression) : Raises (m.integer e) := Expression.raises_evalInteger _ _
  refine (integer start).bind fun _ => (integer limit).bind fun _ => .bind ?_ fun _ =>
    (raises_store _ _ _).bind fun _ => .ok _
  cases step with
  | none => exact .ok 1
  | some step => exact integer step

/-- The variables after a loop's variable advanced, and whether the loop goes around again. -/
def advanced (m : Machine) (loop : Loop) : Except Error (Variables × Bool) := do
  let (v, again) ← m.following loop
  return (← m.vars.store loop.name (.integer v), again)

theorem advanced_eq_ok_iff {loop : Loop} {vars : Variables} {again : Bool} :
    m.advanced loop = .ok (vars, again) ↔
      ∃ v, m.following loop = .ok (v, again) ∧ m.vars.HasRoom loop.name ∧
        vars = m.vars.insert loop.name (.integer v) := by
  constructor
  · intro h
    obtain ⟨⟨v, again'⟩, hv, h⟩ := bind_eq_ok_iff.mp h
    obtain ⟨vars', hvars, h⟩ := bind_eq_ok_iff.mp h
    obtain ⟨room, rfl⟩ := Variables.store_eq_ok_iff.mp hvars
    cases h
    exact ⟨v, hv, room, rfl⟩
  · rintro ⟨v, hv, room, rfl⟩
    simp only [advanced, hv, Variables.store_of_hasRoom room, bind, Except.bind]
    rfl

theorem raises_advanced (loop : Loop) : Raises (m.advanced loop) :=
  .bind ((raises_toInteger _).bind fun _ => raises_advance loop _) fun _ =>
    (raises_store _ _ _).bind fun _ => .ok _

private theorem openLoop_eq_push {r : Run} (running : m.run = some r) (name : Text)
    (start limit : Expression) (step : Option Expression) :
    m.openLoop name start limit step =
      match m.prepared name start limit step with
      | .error e => (m, .error e)
      | .ok (vars, limit, step) =>
        match (Loop.outside name m.loops).push "TOO MANY NESTED LOOPS"
            { name, limit, step, resume := r.next } with
        | .error e => ({ m with vars, loops := Loop.outside name m.loops }, .error e)
        | .ok loops => ({ m with vars, loops }, .ok []) := by
  rw [openLoop]
  simp only [running]
  cases step <;> rfl

/-- What opening a loop in a running program comes to, its values being computed first. -/
theorem openLoop_of_running {r : Run} (running : m.run = some r) (name : Text)
    (start limit : Expression) (step : Option Expression) :
    m.openLoop name start limit step =
      match m.prepared name start limit step with
      | .error e => (m, .error e)
      | .ok (vars, limit, step) =>
        if (Loop.outside name m.loops).size < Stack.capacity then
          ({ m with
              vars
              loops := ⟨{ name, limit, step, resume := r.next } ::
                (Loop.outside name m.loops).entries⟩ }, .ok [])
        else
          ({ m with vars, loops := Loop.outside name m.loops },
            .error (.because .outOfMemory "TOO MANY NESTED LOOPS")) := by
  rw [openLoop_eq_push running]
  cases m.prepared name start limit step with
  | error e => rfl
  | ok values =>
      by_cases free : (Loop.outside name m.loops).size < Stack.capacity
      · simp only [Stack.push, if_pos free]
      · simp only [Stack.push, if_neg free]

/-- What closing a loop in a running program comes to, once the loop is found. -/
theorem closeLoop_of_target {name : Option Text} {r : Run} {loop : Loop} {below : Stack Loop}
    (running : m.run = some r) (target : m.target? name = some (loop, below)) :
    m.closeLoop name =
      match m.advanced loop with
      | .error e => ({ m with loops := ⟨loop :: below.entries⟩ }, .error e)
      | .ok (vars, true) =>
        ({ m with
            vars
            loops := ⟨loop :: below.entries⟩
            run := some { r with next := loop.resume } }, .ok [])
      | .ok (vars, false) => ({ m with vars, loops := below }, .ok []) := by
  rw [target?] at target
  rw [closeLoop]
  simp only [running, target, advanced, following, bind, Except.bind, pure, Except.pure]
  cases (m.vars.fetch loop.name).toInteger with
  | error e => rfl
  | ok current =>
      cases h : loop.advance current with
      | error e => simp only [h]
      | ok values =>
          obtain ⟨v, again⟩ := values
          simp only [h]
          cases m.vars.store loop.name (.integer v) with
          | error e => rfl
          | ok vars => cases again <;> rfl

/-- An error in deciding the conditions is an error of evaluation. -/
theorem raises_chosen (s : Statement) : Raises (m.chosen s) := by
  induction s with
  | branch condition yes ih =>
      rw [chosen]
      split
      · next e h => exact .error (raises_holds condition e h)
      · exact ih
      · exact .ok none
  | branchElse condition yes no ihyes ihno =>
      rw [chosen]
      split
      · next e h => exact .error (raises_holds condition e h)
      · exact ihyes
      · exact ihno
  | _ => exact .ok _

/-- The chosen statement is one of the leaves. -/
theorem mem_leaves_of_chosen {leaf : Statement} (h : m.chosen s = .ok (some leaf)) :
    leaf ∈ s.leaves := by
  induction s with
  | branch condition yes ih =>
      rw [chosen] at h
      split at h
      · cases h
      · exact ih h
      · cases h
  | branchElse condition yes no ihyes ihno =>
      rw [chosen] at h
      split at h
      · cases h
      · exact List.mem_append_left _ (ihyes h)
      · exact List.mem_append_right _ (ihno h)
  | _ =>
      obtain rfl := Option.some.inj (Except.ok.inj h)
      exact List.mem_singleton.mpr rfl

/-- Performing a statement performs the chosen leaf, if any. -/
theorem perform_eq_chosen (m : Machine) (s : Statement) :
    m.perform s =
      match m.chosen s with
      | .error e => (m, .error e)
      | .ok none => (m, .ok [])
      | .ok (some leaf) => m.perform leaf := by
  induction s with
  | branch condition yes ih =>
      rw [perform, chosen]
      cases m.holds condition with
      | error e => rfl
      | ok holds =>
          cases holds with
          | true => exact ih
          | false => rfl
  | branchElse condition yes no ihyes ihno =>
      rw [perform, chosen]
      cases m.holds condition with
      | error e => rfl
      | ok holds =>
          cases holds with
          | true => exact ihyes
          | false => exact ihno
  | _ => rfl

theorem performs_loop {name : Text} {start limit : Expression} {step : Option Expression}
    (choice : m.chosen s = .ok (some (.loop name start limit step))) :
    Performs m s (m.openLoop name start limit step).1 (m.openLoop name start limit step).2 := by
  cases running : m.run with
  | none =>
      simp only [openLoop, running]
      exact .unopened choice ⟨rfl, by decide, by decide, rfl⟩
  | some r =>
      rw [openLoop_of_running running]
      cases values : m.prepared name start limit step with
      | error e => exact .unopened choice (raises_prepared _ _ _ _ e values)
      | ok prepared =>
          obtain ⟨vars, b, c⟩ := prepared
          obtain ⟨a, first, last, stride, room, rfl⟩ := prepared_eq_ok_iff.mp values
          by_cases free : (Loop.outside name m.loops).size < Stack.capacity
          · simp only [if_pos free]
            exact .opened choice running first last stride room free
          · simp only [if_neg free]
            exact .refused choice running first last stride room (Nat.le_of_not_lt free)

theorem performs_next {name : Option Text} (choice : m.chosen s = .ok (some (.next name))) :
    Performs m s (m.closeLoop name).1 (m.closeLoop name).2 := by
  cases running : m.run with
  | none =>
      simp only [closeLoop, running]
      exact .unmatched choice ⟨rfl, by decide, by decide, rfl⟩ (.inl running)
  | some r =>
      cases target : m.target? name with
      | none =>
          have missing := target
          rw [target?] at missing
          simp only [closeLoop, running, missing]
          exact .unmatched choice ⟨rfl, by decide, by decide, rfl⟩ (.inr target)
      | some found =>
          obtain ⟨loop, below⟩ := found
          rw [closeLoop_of_target running target]
          cases values : m.advanced loop with
          | error e => exact .stuck choice running target (raises_advanced loop e values)
          | ok advanced =>
              obtain ⟨vars, again⟩ := advanced
              obtain ⟨v, following, room, rfl⟩ := advanced_eq_ok_iff.mp values
              cases again with
              | true => exact .continued choice running target room following
              | false => exact .finished choice running target room following

theorem performs_leaf {leaf : Statement} (choice : m.chosen s = .ok (some leaf)) :
    Performs m s (m.perform leaf).1 (m.perform leaf).2 := by
  have unconditional := Statement.isConditional_of_mem_leaves (mem_leaves_of_chosen choice)
  cases leaf with
  | branch condition yes => cases unconditional
  | branchElse condition yes no => cases unconditional
  | stop => exact .stopped choice
  | erase => exact .erased choice
  | run => exact .started choice
  | loop name start limit step => exact performs_loop choice
  | next name => exact performs_next choice
  | assign name value =>
      rw [perform]
      cases stored : value.eval m.vars >>= m.vars.store name with
      | error e =>
          refine .unassigned choice (Raises.bind ?_ (fun _ => raises_store _ _ _) e stored)
          exact Expression.raises_evalText _ _
      | ok vars =>
          obtain ⟨v, evaluated, stored⟩ := bind_eq_ok_iff.mp stored
          obtain ⟨room, rfl⟩ := Variables.store_eq_ok_iff.mp stored
          exact .assigned choice evaluated room
  | _ => exact .commanded choice rfl

/-- Performing a statement is one of the cases of `Performs`. -/
theorem performs (m : Machine) (s : Statement) :
    Performs m s (m.perform s).1 (m.perform s).2 := by
  rw [perform_eq_chosen]
  cases choice : m.chosen s with
  | error e => exact .undecided choice (raises_chosen s e choice)
  | ok chosen =>
      cases chosen with
      | none => exact .skipped choice
      | some leaf => exact performs_leaf choice

end Machine

end LineBasic
