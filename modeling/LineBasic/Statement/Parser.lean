import LineBasic.Error
import LineBasic.Statement.Clause

/-!
# Reading statements

A statement is read clause by clause. The branches of a condition may be
conditions again; each is shorter than the clause it stands in, which is why the
recursion ends. Main statement: `Clause.size_le_of_read` with its counterpart
for branches.
-/

namespace LineBasic

namespace Clause

/-- The clause holds no more text than `n` characters. -/
private def Within (n : Nat) (result : Except Malformed Clause) : Prop :=
  ∀ c, result = .ok c → c.size ≤ n

private theorem within_error (n : Nat) (e : Malformed) : Within n (.error e) :=
  fun _ h => nomatch h

private theorem within_whole (n : Nat) (s : Statement) : Within n (.ok (whole s)) := by
  rintro c ⟨⟩
  exact Nat.zero_le n

private theorem within_map (n : Nat) (f : α → Statement) (x : Except Malformed α) :
    Within n (x.map fun a => whole (f a)) := by
  cases x
  · exact within_error n _
  · exact within_whole n _

private theorem within_assignment? (n : Nat) (t : Text) (e : Malformed) :
    Within n ((assignment? t).getD (.error e)) := by
  unfold assignment?
  cases t.assignment? with
  | none => exact within_error n e
  | some pair => exact within_map n (Statement.assign pair.1.canonical) _

private theorem within_loop (n : Nat) (t : Text) : Within n (loop t) := by
  unfold loop
  split
  · exact within_error n _
  · split
    · exact within_error n _
    · next start rest _ =>
      cases expression .loop start with
      | error e => exact within_error n e
      | ok start =>
        dsimp only [bind, Except.bind]
        split
        · cases expression .loop rest
          · exact within_error n _
          · exact within_whole n _
        · next limit step _ =>
          cases expression .loop limit with
          | error e => exact within_error n e
          | ok limit =>
            dsimp only
            cases expression .loop step
            · exact within_error n _
            · exact within_whole n _

private theorem within_conditional (t : Text) : Within t.length (conditional t) := by
  unfold conditional
  split
  · exact within_error _ _
  · next test branches h₁ =>
    have h₁ := Keyword.length_lt_of_divide? h₁
    cases condition test with
    | error e => exact within_error _ e
    | ok test =>
      dsimp only [bind, Except.bind]
      split
      · rintro c ⟨⟩
        simp only [size_branch]
        omega
      · next yes no h₂ =>
        have h₂ := Keyword.length_lt_of_divide? h₂
        rintro c ⟨⟩
        simp only [size_branchElse]
        omega

private theorem within_ofKeyword (t : Text) (w : Keyword) : Within t.length (ofKeyword t w) := by
  have alone (s : Statement) : Within t.length (alone s t) := by
    unfold Clause.alone
    split
    · exact within_whole _ _
    · exact within_error _ _
  cases w
  case for_ => exact within_loop _ t
  case if_ => exact within_conditional t
  case let_ => exact within_assignment? _ t _
  case htab => exact within_map _ Statement.column _
  case vtab => exact within_map _ Statement.row _
  case print | question | rem => exact within_whole _ _
  case else_ | step | then_ | to_ => exact within_error _ _
  case cls | end_ | home | list | new | run => exact alone _
  case next =>
    rw [ofKeyword, next]
    split
    · exact within_whole _ _
    · split
      · exact within_whole _ _
      · exact within_error _ _
  all_goals
    simp only [ofKeyword, circle, color, point, segment, rectangle]
    repeat' split
    all_goals simp only [within_whole, within_error]

/-- A clause holds no more text than it was read from. -/
theorem size_le_of_read {t : Text} {c : Clause} (h : read t = .ok c) : c.size ≤ t.length := by
  unfold read at h
  split at h
  · next w rest hw =>
    have := within_ofKeyword rest w c h
    have := Keyword.length_le_of_leading? hw
    omega
  · exact within_assignment? _ t _ c h

theorem size_le_of_readBranch {t : Text} {c : Clause} (h : readBranch t = .ok c) :
    c.size ≤ t.length := by
  have ht := t.length_trim_le
  unfold readBranch at h
  split at h
  · cases h
  · unfold assignment? at h
    cases ha : t.trim.assignment? with
    | none =>
      rw [ha] at h
      exact Nat.le_trans (size_le_of_read h) ht
    | some pair =>
      rw [ha] at h
      exact within_map t.length (Statement.assign pair.1.canonical) _ c h

/-- The statement of a clause, its branches read in turn. -/
def complete : Clause → Except Malformed Statement
  | whole s => .ok s
  | branch condition yes =>
    match _h : readBranch yes with
    | .error e => .error e
    | .ok clause => do
      let yes ← complete clause
      return .branch condition yes
  | branchElse condition yes no =>
    match _h₁ : readBranch yes with
    | .error e => .error e
    | .ok clause => do
      let yes ← complete clause
      match _h₂ : readBranch no with
      | .error e => .error e
      | .ok clause => do
        let no ← complete clause
        return .branchElse condition yes no
termination_by c => c.size
decreasing_by
  · have := size_le_of_readBranch _h
    simp only [size_branch]
    omega
  · have := size_le_of_readBranch _h₁
    simp only [size_branchElse]
    omega
  · have := size_le_of_readBranch _h₂
    simp only [size_branchElse]
    omega

end Clause

namespace Statement

/-- Reads the text of one statement. -/
def read (t : Text) : Except Malformed Statement := do (← Clause.read t).complete

/-- Reads the text of one branch. -/
def readBranch (t : Text) : Except Malformed Statement := do (← Clause.readBranch t).complete

/-- Reads a statement that stands in the given line, which every error names. -/
def parse (line : Option Nat) (t : Text) : Except Error Statement :=
  (read t).mapError fun m => { Error.because .syntaxError m.detail with line }

end Statement

end LineBasic
