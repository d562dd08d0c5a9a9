import LineBasic.Proofs.Failing
import LineBasic.Proofs.Text.Case
import LineBasic.Proofs.Text.Trim
import LineBasic.Statement.Parser
import Mathlib

/-!
# Leaves of statements

Of a conditional statement at most one of the statements between its conditions is
performed. These are its leaves; every other statement is its own and only leaf.
What a statement does not do at any depth is said of its leaves.

Main statement: the variables that a statement names when it was read from text
have canonical names (`Statement.namesCanonical_of_parse`).
-/

namespace LineBasic

namespace Text

/-- A name in the form under which variables are kept: no letter of it is small. -/
def IsCanonical (t : Text) : Prop := t.isName = true ∧ ∀ c ∈ t, c.isLower = false

/-- A name holds letters and digits, and a dollar sign if at all at its end. -/
theorem mem_of_isName {t : Text} (h : isName t = true) {c : Char} (hc : c ∈ t) :
    c.isAlphanum = true ∨ c = '$' := by
  have stem_alphanum : ∀ d ∈ stem t, d.isAlphanum = true := by
    rw [isName] at h
    split at h
    · cases h
    · next d rest hs =>
      rw [Bool.and_eq_true, List.all_eq_true] at h
      intro e he
      rw [hs] at he
      rcases List.mem_cons.mp he with rfl | he
      · simp [Char.isAlphanum, h.1]
      · exact h.2 e he
  rw [stem] at stem_alphanum
  split at stem_alphanum
  · next hl =>
    obtain ⟨front, rfl⟩ := List.getLast?_eq_some_iff.mp hl
    rw [List.dropLast_concat] at stem_alphanum
    rcases List.mem_append.mp hc with hc | hc
    · exact .inl (stem_alphanum c hc)
    · exact .inr (List.mem_singleton.mp hc)
  · exact .inl (stem_alphanum c hc)

theorem isBlank_eq_false_of_isName {t : Text} (h : isName t = true) :
    ∀ c ∈ t, isBlank c = false := by
  intro c hc
  rcases mem_of_isName h hc with ha | rfl
  · refine Bool.eq_false_iff.mpr fun hb => ?_
    simp [isAlphanum_eq_false_of_isBlank hb] at ha
  · decide

theorem isCanonical_canonical {t : Text} (h : isName t = true) : (canonical t).IsCanonical := by
  rw [canonical, trim, trimWhile_eq_self (isBlank_eq_false_of_isName h)]
  refine ⟨(isName_upper t).trans h, ?_⟩
  intro c hc
  obtain ⟨d, -, rfl⟩ := List.mem_map.mp hc
  exact Char.isLower_toUpper_eq_false d

theorem isName_of_assignment? {t name value : Text} (h : assignment? t = some (name, value)) :
    isName name = true := by
  rw [assignment?] at h
  split at h
  · cases h
  · dsimp only at h
    split at h
    · next hn =>
      obtain ⟨rfl, -⟩ := Prod.mk.inj (Option.some.inj h)
      exact hn
    · cases h

end Text

namespace Statement

/-- The statements between the conditions, in reading order. -/
def leaves : Statement → List Statement
  | .branch _ yes => yes.leaves
  | .branchElse _ yes no => yes.leaves ++ no.leaves
  | s => [s]

/-- Whether the statement is a condition with its branches. -/
def isConditional : Statement → Bool
  | .branch .. | .branchElse .. => true
  | _ => false

theorem isConditional_of_mem_leaves {s leaf : Statement} (h : leaf ∈ s.leaves) :
    leaf.isConditional = false := by
  induction s with
  | branch condition yes ih => exact ih h
  | branchElse condition yes no ihyes ihno =>
      rcases List.mem_append.mp h with h | h
      · exact ihyes h
      · exact ihno h
  | _ =>
      obtain rfl := List.mem_singleton.mp h
      rfl

/-- Whether performing the statement can only command the display. -/
def isCommand : Statement → Bool
  | .stop | .erase | .run | .assign .. | .loop .. | .next _ | .branch .. | .branchElse .. => false
  | _ => true

/-- The variable that the statement names, if any. -/
def named? : Statement → Option Text
  | .assign name _ | .loop name .. => some name
  | .next name => name
  | _ => none

/-- Whatever variables the leaves name, their names are canonical. -/
def NamesCanonical (s : Statement) : Prop :=
  ∀ leaf ∈ s.leaves, ∀ name ∈ leaf.named?, name.IsCanonical

end Statement

namespace Clause

/-- If the clause is a whole statement, it names its variables canonically. -/
private def Canonical (result : Except Malformed Clause) : Prop :=
  ∀ s, result = .ok (whole s) → s.NamesCanonical

private theorem canonical_error (e : Malformed) : Canonical (.error e) :=
  fun _ h => nomatch h

private theorem canonical_whole {s : Statement} (h : s.NamesCanonical) :
    Canonical (.ok (whole s)) := by
  rintro s' ⟨⟩
  exact h

/-- Only assignments and the statements of loops name a variable. -/
private theorem canonical_nameless {s : Statement} (leaves : s.leaves = [s])
    (nameless : s.named? = none) : Canonical (.ok (whole s)) := by
  apply canonical_whole
  intro leaf hleaf name hname
  rw [leaves, List.mem_singleton] at hleaf
  rw [hleaf, nameless] at hname
  cases hname

private theorem canonical_named {s : Statement} {name : Text} (leaves : s.leaves = [s])
    (named : s.named? = some name) (h : name.IsCanonical) : Canonical (.ok (whole s)) := by
  apply canonical_whole
  intro leaf hleaf other hother
  rw [leaves, List.mem_singleton] at hleaf
  rw [hleaf, named] at hother
  obtain rfl := Option.some.inj hother
  exact h

private theorem canonical_map {α : Type} (make : α → Statement)
    (nameless : ∀ a, (make a).leaves = [make a] ∧ (make a).named? = none)
    (x : Except Malformed α) : Canonical (x.map fun a => whole (make a)) := by
  cases x with
  | error e => exact canonical_error e
  | ok a => exact canonical_nameless (nameless a).1 (nameless a).2

private theorem canonical_assignment? {t : Text} {result : Except Malformed Clause}
    (h : assignment? t = some result) : Canonical result := by
  obtain ⟨⟨name, value⟩, ha, rfl⟩ := Option.map_eq_some_iff.mp h
  dsimp only
  cases expression .expression value with
  | error e => exact canonical_error e
  | ok e =>
      exact canonical_named rfl rfl (Text.isCanonical_canonical (Text.isName_of_assignment? ha))

private theorem canonical_getD {t : Text} {other : Except Malformed Clause}
    (h : Canonical other) : Canonical ((assignment? t).getD other) := by
  cases ha : assignment? t with
  | none => exact h
  | some result => exact canonical_assignment? ha

private theorem canonical_loop (t : Text) : Canonical (loop t) := by
  rw [loop]
  split
  · exact canonical_error _
  · next name range ha =>
    have hname := Text.isCanonical_canonical (Text.isName_of_assignment? ha)
    split
    · exact canonical_error _
    · next start rest _ =>
      cases expression .loop start with
      | error e => exact canonical_error e
      | ok start =>
          dsimp only [bind, Except.bind]
          split
          · cases expression .loop rest with
            | error e => exact canonical_error e
            | ok limit => exact canonical_named rfl rfl hname
          · next limit step _ =>
            cases expression .loop limit with
            | error e => exact canonical_error e
            | ok limit =>
                dsimp only
                cases expression .loop step with
                | error e => exact canonical_error e
                | ok step => exact canonical_named rfl rfl hname

private theorem canonical_next (t : Text) : Canonical (next t) := by
  rw [next]
  split
  · exact canonical_nameless rfl rfl
  · split
    · next hname => exact canonical_named rfl rfl (Text.isCanonical_canonical hname)
    · exact canonical_error _

/-- A condition leaves its branches to be read. -/
private theorem canonical_conditional (t : Text) : Canonical (conditional t) := by
  rw [conditional]
  split
  · exact canonical_error _
  · next test branches _ =>
    cases condition test with
    | error e => exact canonical_error e
    | ok test =>
        dsimp only [bind, Except.bind]
        split <;> exact fun _ h => nomatch h

private theorem canonical_ofKeyword (t : Text) (w : Keyword) : Canonical (ofKeyword t w) := by
  have alone (s : Statement) (leaves : s.leaves = [s]) (nameless : s.named? = none) :
      Canonical (alone s t) := by
    rw [Clause.alone]
    split
    · exact canonical_nameless leaves nameless
    · exact canonical_error _
  cases w
  case for_ => exact canonical_loop t
  case if_ => exact canonical_conditional t
  case let_ => exact canonical_getD (canonical_error _)
  case next => exact canonical_next t
  case htab => exact canonical_map _ (fun _ => ⟨rfl, rfl⟩) _
  case vtab => exact canonical_map _ (fun _ => ⟨rfl, rfl⟩) _
  case print | question | rem => exact canonical_nameless rfl rfl
  case else_ | step | then_ | to_ => exact canonical_error _
  case cls | end_ | home | list | new | run => exact alone _ rfl rfl
  all_goals
    simp only [ofKeyword, circle, color, point, segment, rectangle]
    repeat' split
    all_goals first | exact canonical_nameless rfl rfl | exact canonical_error _

private theorem canonical_read (t : Text) : Canonical (read t) := by
  rw [read]
  split
  · exact canonical_ofKeyword _ _
  · exact canonical_getD (canonical_error _)

private theorem canonical_readBranch (t : Text) : Canonical (readBranch t) := by
  rw [readBranch]
  split
  · exact canonical_error _
  · exact canonical_getD (canonical_read _)

/-- Reading the branches of a clause adds only leaves that were read as well. -/
theorem namesCanonical_of_complete {c : Clause} {s : Statement}
    (hc : Canonical (.ok c)) (h : c.complete = .ok s) : s.NamesCanonical := by
  fun_induction complete c generalizing s with
  | case1 s' =>
      obtain rfl := Except.ok.inj h
      exact hc s' rfl
  | case2 condition yes e failed => cases h
  | case3 condition yes clause hyes ih =>
      obtain ⟨s', hs, h⟩ := bind_eq_ok_iff.mp h
      obtain rfl := Except.ok.inj h
      change s'.NamesCanonical
      exact ih (hyes ▸ canonical_readBranch yes) hs
  | case4 condition yes no e failed => cases h
  | case5 condition yes no clause hyes ihyes ihno =>
      obtain ⟨s₁, hs₁, h⟩ := bind_eq_ok_iff.mp h
      have first := ihyes (hyes ▸ canonical_readBranch yes) hs₁
      split at h
      · cases h
      · next clause' hno =>
        obtain ⟨s₂, hs₂, h⟩ := bind_eq_ok_iff.mp h
        obtain rfl := Except.ok.inj h
        have second := ihno clause' hno (hno ▸ canonical_readBranch no) hs₂
        intro leaf hleaf
        rcases List.mem_append.mp hleaf with hleaf | hleaf
        · exact first leaf hleaf
        · exact second leaf hleaf

end Clause

/-- The names in a statement that was read from text are canonical. -/
theorem Statement.namesCanonical_of_parse {line : Option Nat} {t : Text} {s : Statement}
    (h : Statement.parse line t = .ok s) : s.NamesCanonical := by
  rw [parse, Statement.read] at h
  cases hr : Clause.read t with
  | error e => simp [hr, bind, Except.bind, Except.mapError] at h
  | ok c =>
      cases hs : c.complete with
      | error e => simp [hr, hs, bind, Except.bind, Except.mapError] at h
      | ok s' =>
          simp only [hr, hs, bind, Except.bind, Except.mapError, Except.ok.injEq] at h
          subst h
          exact Clause.namesCanonical_of_complete (hr ▸ Clause.canonical_read t) hs

end LineBasic
