import LineBasic.Machine.Basic

/-!
# Performing statements

Performing a statement gives the machine afterwards and either the display
commands of the statement or its error. A statement computes all its values
before its first command, so one that fails commands nothing.

Loops are the only statements that may have changed something when they fail:
the loop variable is stored before the loop is pushed, and the loops above a loop
are given up before its variable advances.
-/

namespace LineBasic.Machine

/-- What a statement commands, or why it fails. -/
abbrev Outcome := Except Error (List Display.Command)

/-- Opens a loop over a variable, in place of the loop that this variable has. -/
def openLoop (m : Machine) (name : Text) (start limit : Expression) (step : Option Expression) :
    Machine × Outcome :=
  match m.run with
  | none => (m, .error { kind := .illegalDirect })
  | some run =>
    let prepared : Except Error (Variables × Int32 × Int32) := do
      let start ← m.integer start
      let limit ← m.integer limit
      let step ← match step with
        | some step => m.integer step
        | none => .ok 1
      return (← m.vars.store name (.integer start), limit, step)
    match prepared with
    | .error e => (m, .error e)
    | .ok (vars, limit, step) =>
      -- a loop of the same variable goes, with all loops inside it
      let outer := match m.loops.newest? (·.name == name) with
        | some (_, below) => below
        | none => m.loops
      match outer.push "TOO MANY NESTED LOOPS" { name, limit, step, resume := run.next } with
      | .error e => ({ m with vars, loops := outer }, .error e)
      | .ok loops => ({ m with vars, loops }, .ok [])

/-- Closes the newest loop, or the newest one of a variable: goes around again or
gives it up. -/
def closeLoop (m : Machine) (name : Option Text) : Machine × Outcome :=
  match m.run with
  | none => (m, .error { kind := .illegalDirect })
  | some run =>
    match m.loops.newest? fun l => name.all (l.name == ·) with
    | none => (m, .error { kind := .nextWithoutFor })
    | some (loop, below) =>
      -- the loops above are given up before anything can fail
      let m := { m with loops := ⟨loop :: below.entries⟩ }
      let advanced : Except Error (Variables × Bool) := do
        let (next, again) ← loop.advance (← (m.vars.fetch loop.name).toInteger)
        return (← m.vars.store loop.name (.integer next), again)
      match advanced with
      | .error e => (m, .error e)
      | .ok (vars, true) =>
        ({ m with vars, run := some { run with next := loop.resume } }, .ok [])
      | .ok (vars, false) =>
        match m.loops.pop with
        | .error e => ({ m with vars }, .error e)
        | .ok (_, loops) => ({ m with vars, loops }, .ok [])

/-- What a statement commands that leaves the machine as it is. -/
def commands (m : Machine) : Statement → Outcome
  | .circle x y radius filled => do
    let x ← m.integer x
    let y ← m.integer y
    let radius ← m.integer radius
    return [.circle x y radius filled none]
  | .clear => .ok [.clearScreen, .clearGraphics]
  | .color text background => do
    let text ← m.color text
    match background with
    | none => return [.textColor text]
    | some background => return [.textColor text, .backgroundColor (← m.color background)]
  | .fill x y => do
    let x ← m.integer x
    let y ← m.integer y
    return [.fill x y]
  | .home => .ok [.moveTo (some 0) (some 0)]
  | .column e => do return [.moveTo (some (← m.position e)) none]
  | .row e => do return [.moveTo none (some (← m.position e))]
  | .line x₁ y₁ x₂ y₂ => do
    let x₁ ← m.integer x₁
    let y₁ ← m.integer y₁
    let x₂ ← m.integer x₂
    let y₂ ← m.integer y₂
    return [.line x₁ y₁ x₂ y₂ none]
  | .list =>
    if m.program.isEmpty then .ok (Display.write "No program lines\n".toList)
    else .ok (m.program.listing.flatMap fun line => Display.write (line ++ ['\n']))
  | .plot x y => do
    let x ← m.integer x
    let y ← m.integer y
    return [.pixel x y none]
  | .print parts => do return Display.write (← m.printParts parts)
  | .rectangle x₁ y₁ x₂ y₂ filled => do
    let x₁ ← m.integer x₁
    let y₁ ← m.integer y₁
    let x₂ ← m.integer x₂
    let y₂ ← m.integer y₂
    return [.rectangle x₁ y₁ x₂ y₂ filled none]
  | _ => .ok []

def perform (m : Machine) : Statement → Machine × Outcome
  | .stop => (m.halt, .ok (Display.write "Program ended\n".toList))
  | .erase => (m.erase, .ok (Display.write "Program cleared\n".toList))
  | .run =>
    (m.start, .ok (if m.program.isEmpty then Display.write "No program to run\n".toList else []))
  | .assign name value =>
    match value.eval m.vars >>= m.vars.store name with
    | .error e => (m, .error e)
    | .ok vars => ({ m with vars }, .ok [])
  | .loop name start limit step => m.openLoop name start limit step
  | .next name => m.closeLoop name
  | .branch condition yes =>
    match m.holds condition with
    | .error e => (m, .error e)
    | .ok true => m.perform yes
    | .ok false => (m, .ok [])
  | .branchElse condition yes no =>
    match m.holds condition with
    | .error e => (m, .error e)
    | .ok true => m.perform yes
    | .ok false => m.perform no
  | s => (m, m.commands s)

end LineBasic.Machine
