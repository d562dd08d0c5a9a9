import LineBasic.Proofs.Statement.Leaves
import LineBasic.Proofs.Text.Division

/-!
# Statements with delimiters

The parts of a loop and of a conditional statement are set off from each other by keywords,
which are looked for in the text itself. A part that is closed and does not hold the keyword
that ends it is cut out whole, whatever comes behind that keyword. So the first exposed `ELSE`
belongs to the outermost condition, and a condition is divided at its first exposed relation.

Main statement: `Statement.divided_at_delimiters`.
-/

namespace LineBasic

namespace Text

/-- Whether there is more in a text than blanks. -/
def IsFilled (t : Text) : Prop := ∃ c ∈ t, isBlank c = false

instance (t : Text) : Decidable t.IsFilled :=
  decidable_of_iff (t.any (!isBlank ·) = true) (by simp [IsFilled])

variable {t : Text}

theorem IsFilled.trim_ne_nil (h : t.IsFilled) : t.trim ≠ [] := by
  obtain ⟨c, hc, filled⟩ := h
  obtain ⟨before, after, whole, hb, ha⟩ := exists_append_trimWhile isBlank t
  intro nothing
  rw [← trim, nothing, List.nil_append] at whole
  rw [whole] at hc
  rcases List.mem_append.mp hc with hc | hc
  · simp [hb c hc] at filled
  · simp [ha c hc] at filled

/-- Nothing is left of a text exactly if there was nothing but blanks. -/
theorem isEmpty_trim_iff : t.trim.isEmpty = true ↔ ¬ t.IsFilled := by
  rw [List.isEmpty_iff]
  constructor
  · exact fun none filled => filled.trim_ne_nil none
  · intro unfilled
    have blank : ∀ c ∈ t, isBlank c = true := by
      intro c hc
      by_contra stays
      exact unfilled ⟨c, hc, Bool.not_eq_true _ ▸ stays⟩
    have trimmed := trimWhile_append_left blank []
    rwa [List.append_nil] at trimmed

theorem IsFilled.exists_not_gap (h : t.IsFilled) : ∃ c ∈ t, isGap c = false := by
  obtain ⟨c, hc, filled⟩ := h
  refine ⟨c, hc, Bool.eq_false_iff.mpr fun gap => ?_⟩
  rw [isBlank_of_isGap gap] at filled
  cases filled

theorem IsFilled.append_right (h : t.IsFilled) (s : Text) : (s ++ t).IsFilled := by
  obtain ⟨c, hc, filled⟩ := h
  exact ⟨c, List.mem_append_right s hc, filled⟩

theorem isGap_of_mem_space : ∀ c ∈ [' '], isGap c = true := by
  simp [isGap]

/-- Gaps around a text are no part of what it holds. -/
theorem trim_append_gaps {before after : Text} (hb : ∀ c ∈ before, isGap c = true)
    (ha : ∀ c ∈ after, isGap c = true) (t : Text) : (before ++ (t ++ after)).trim = t.trim :=
  trimWhile_append_of_forall (fun c hc => isBlank_of_isGap (hb c hc))
    (fun c hc => isBlank_of_isGap (ha c hc)) t

theorem trim_space_cons (t : Text) : trim (' ' :: t) = t.trim := by
  simpa using trim_append_gaps isGap_of_mem_space (List.forall_mem_nil _) t

theorem trim_append_space (t : Text) : trim (t ++ [' ']) = t.trim := by
  simpa using trim_append_gaps (List.forall_mem_nil _) isGap_of_mem_space t

/-- Blanks that are cut off at the end of a text are no part of what it holds. -/
theorem trim_dropEndWhile {p : Char → Bool} (blank : ∀ c, p c = true → isBlank c = true)
    (t : Text) : (dropEndWhile p t).trim = t.trim := by
  obtain ⟨cut, whole, gone⟩ := exists_dropEndWhile_append p t
  have trimmed := trimWhile_append_right (p := isBlank) (fun c hc => blank c (gone c hc))
    (dropEndWhile p t)
  rw [← whole] at trimmed
  exact trimmed.symm

theorem trim_dropEndWhile_isGap (t : Text) : (dropEndWhile isGap t).trim = t.trim :=
  trim_dropEndWhile (fun _ => isBlank_of_isGap) t

theorem trim_trimGaps (t : Text) : t.trimGaps.trim = t.trim := by
  obtain ⟨before, after, whole, front, back⟩ := exists_append_trimWhile isGap t
  have trimmed := trim_append_gaps front back t.trimGaps
  rw [trimGaps, ← whole] at trimmed
  exact trimmed.symm

theorem isGap_eq_false_of_isName (h : t.isName = true) : ∀ c ∈ t, isGap c = false := by
  intro c hc
  rw [Bool.eq_false_iff]
  intro gap
  have := isBlank_eq_false_of_isName h c hc
  rw [isBlank_of_isGap gap] at this
  cases this

/-- A name before an equals sign is assigned to. -/
theorem assignment?_append {name : Text} (h : name.isName = true) (value : Text) :
    assignment? (name ++ '=' :: value) = some (name, value.trimGaps) := by
  have other : ∀ c ∈ name, (c != '=') = true := by
    intro c hc
    rcases mem_of_isName h hc with ha | rfl
    · rw [bne_iff_ne]
      rintro rfl
      simp at ha
    · decide
  have trimmed : trimGaps name = name := trimWhile_eq_self (isGap_eq_false_of_isName h)
  rw [assignment?, List.dropWhile_append_of_pos other, List.takeWhile_append_of_pos other]
  simp [trimmed, h]

end Text

namespace Keyword

variable {w : Keyword} {s : Text}

theorem divide?_space_cons (h : w.divide? s = none) : w.divide? (' ' :: s) = none := by
  have := w.stopsAtGaps.cut?_gaps_append Text.isGap_of_mem_space s
  rw [divide?] at h ⊢
  simpa [h] using this

/-- A keyword still divides a text between the same parts when the gaps before it are cut
off. -/
theorem divide?_dropWhile (closed : s.IsClosed) (whole : w.divide? s = none) (r : Text) :
    ∃ gaps left, (∀ c ∈ gaps, isGap c = true) ∧ gaps ++ left = s ++ [' '] ∧
      w.divide? ((s ++ ' ' :: (w.spelling.toList ++ ' ' :: r)).dropWhile isGap) =
        some (left, ' ' :: r) := by
  have divided := divide?_append closed whole r
  generalize s ++ ' ' :: (w.spelling.toList ++ ' ' :: r) = t at divided
  have hg : ∀ c ∈ t.takeWhile isGap, isGap c = true := List.all_eq_true.mp List.all_takeWhile
  rw [← List.takeWhile_append_dropWhile (p := isGap) (l := t), divide?,
    w.stopsAtGaps.cut?_gaps_append hg] at divided
  obtain ⟨⟨left, rest⟩, found, same⟩ := Option.map_eq_some_iff.mp divided
  obtain ⟨front, rfl⟩ := Prod.mk.inj same
  exact ⟨t.takeWhile isGap, left, hg, front, found⟩

end Keyword

/-- The error of a line that is no statement. -/
def Malformed.inLine (m : Malformed) (line : Option Nat) : Error :=
  { Error.because .syntaxError m.detail with line }

namespace Clause

theorem expression_of_isFilled {part : Expected} {t : Text} (h : t.IsFilled) :
    expression part t = .ok (.ofText t) := by
  simp [expression, h.trim_ne_nil]

theorem expression_congr {part : Expected} {s t : Text} (h : s.trim = t.trim) :
    expression part s = expression part t := by
  simp only [expression, Expression.ofText, h]

theorem readBranch_congr {s t : Text} (h : s.trim = t.trim) : readBranch s = readBranch t := by
  simp only [readBranch, h]

/-- Gaps around a condition are no part of it. -/
theorem condition_append_gaps {before after : Text} (hb : ∀ c ∈ before, isGap c = true)
    (ha : ∀ c ∈ after, isGap c = true) (t : Text) :
    condition (before ++ (t ++ after)) = condition t := by
  have stops := Relation.stopsAtGaps
  rw [condition, condition, Relation.divide?, Relation.divide?, stops.cut?_gaps_append hb,
    stops.cut?_append_gaps ha]
  cases Text.cut? (fun _ s => Relation.leading? s) t with
  | none =>
      simp only [Option.map_none]
      rw [expression_congr (Text.trim_append_gaps hb ha t)]
  | some found =>
      obtain ⟨left, relation, right⟩ := found
      have front := Text.trim_append_gaps hb (List.forall_mem_nil _) left
      have back := Text.trim_append_gaps (List.forall_mem_nil _) ha right
      rw [List.append_nil] at front
      rw [List.nil_append] at back
      simp only [Option.map_some]
      rw [expression_congr front, expression_congr back]

/-- A condition is divided at its first relation. -/
theorem condition_append {s t rest : Text} {relation : Relation} (closed : s.IsClosed)
    (whole : Relation.divide? s = none) (found : Relation.leading? t = some (relation, rest)) :
    condition (s ++ t) = do
      let left ← expression .expression s
      let right ← expression .expression rest
      return .compare left relation right := by
  rw [condition, Relation.divide?_append closed whole found]

theorem complete_whole (s : Statement) : (whole s).complete = .ok s := by rw [complete]

/-- The branches of a condition are read in turn. -/
theorem complete_branch (c : Condition) (yes : Text) :
    (branch c yes).complete = do
      let yes ← Statement.readBranch yes
      return .branch c yes := by
  rw [complete, Statement.readBranch]
  split
  · next failed => rw [failed]; rfl
  · next read => rw [read]; rfl

theorem complete_branchElse (c : Condition) (yes no : Text) :
    (branchElse c yes no).complete = do
      let yes ← Statement.readBranch yes
      let no ← Statement.readBranch no
      return .branchElse c yes no := by
  rw [complete, Statement.readBranch]
  split
  · next failed => rw [failed]; rfl
  · next clause read =>
      rw [read]
      change _ = (clause.complete >>= _)
      cases clause.complete with
      | error e => rfl
      | ok yes =>
          dsimp only [bind, Except.bind]
          rw [Statement.readBranch]
          split
          · next failed => rw [failed]; rfl
          · next read => rw [read]; rfl

end Clause

namespace Statement

theorem parse_of_read {line : Option Nat} {t : Text} {s : Statement}
    (h : Clause.read t = .ok (.whole s)) : parse line t = .ok s := by
  have read : read t = .ok s := by
    rw [read, h]
    exact Clause.complete_whole s
  rw [parse, read]
  rfl

theorem readBranch_congr {s t : Text} (h : s.trim = t.trim) : readBranch s = readBranch t := by
  rw [readBranch, readBranch, Clause.readBranch_congr h]

/-- What follows `IF` is divided at `THEN`, and the branches are read without the gaps at the
end of the line. -/
theorem read_if {c u : Text} (closed : c.IsClosed) (whole : Keyword.then_.divide? c = none)
    (filled : u.IsFilled) :
    read ("IF ".toList ++ (c ++ " THEN ".toList ++ u)) =
      Clause.condition c >>= fun test =>
        match Keyword.else_.divide? (' ' :: Text.dropEndWhile isGap u) with
        | none => (Clause.branch test (' ' :: Text.dropEndWhile isGap u)).complete
        | some (yes, no) => (Clause.branchElse test yes no).complete := by
  have opened : Keyword.leading? ("IF ".toList ++ (c ++ " THEN ".toList ++ u)) =
      some (.if_, Text.trimGaps (' ' :: (c ++ " THEN ".toList ++ u))) := rfl
  have typed : Text.trimGaps (' ' :: (c ++ " THEN ".toList ++ u)) =
      ((' ' :: c) ++ ' ' :: (Keyword.then_.spelling.toList ++
        ' ' :: Text.dropEndWhile isGap u)).dropWhile isGap := by
    rw [Text.trimGaps, Text.trimWhile_eq_dropWhile_dropEndWhile, ← List.cons_append,
      Text.dropEndWhile_append filled.exists_not_gap]
    simp [Keyword.spelling]
  obtain ⟨gaps, left, hg, front, divided⟩ := Keyword.divide?_dropWhile (s := ' ' :: c)
    closed (Keyword.divide?_space_cons whole) (Text.dropEndWhile isGap u)
  have test : Clause.condition left = Clause.condition c := by
    have padded := Clause.condition_append_gaps hg (List.forall_mem_nil _) left
    have space := Clause.condition_append_gaps Text.isGap_of_mem_space Text.isGap_of_mem_space c
    rw [List.append_nil, front] at padded
    exact padded.symm.trans space
  rw [read, Clause.read, opened]
  dsimp only [Clause.ofKeyword]
  rw [Clause.conditional, typed, divided]
  dsimp only
  rw [test]
  cases Clause.condition c with
  | error e => rfl
  | ok test =>
      change (match Keyword.else_.divide? (' ' :: Text.dropEndWhile isGap u) with
        | none => _ | some (yes, no) => _) >>= _ = _
      cases Keyword.else_.divide? (' ' :: Text.dropEndWhile isGap u) <;> rfl

/-- What follows the equals sign of `FOR` is divided at `TO`. -/
theorem read_for {v a u : Text} (name : v.isName = true) (filled : a.IsFilled)
    (closed : a.IsClosed) (whole : Keyword.to_.divide? a = none) (more : u.IsFilled) :
    read ("FOR ".toList ++ (v ++ '=' :: (a ++ " TO ".toList ++ u))) =
      match Keyword.step.divide? (' ' :: Text.dropEndWhile isGap u) with
      | none => do
        let limit ← Clause.expression .loop (' ' :: Text.dropEndWhile isGap u)
        return .loop v.canonical (.ofText a) limit none
      | some (limit, step) => do
        let limit ← Clause.expression .loop limit
        let step ← Clause.expression .loop step
        return .loop v.canonical (.ofText a) limit (some step) := by
  have opened : Keyword.leading? ("FOR ".toList ++ (v ++ '=' :: (a ++ " TO ".toList ++ u))) =
      some (.for_, Text.trimGaps (' ' :: (v ++ '=' :: (a ++ " TO ".toList ++ u)))) := rfl
  have cut : Text.dropEndWhile isGap (a ++ " TO ".toList ++ u) =
      a ++ ' ' :: (Keyword.to_.spelling.toList ++ ' ' :: Text.dropEndWhile isGap u) := by
    rw [Text.dropEndWhile_append more.exists_not_gap]
    simp [Keyword.spelling]
  have typed : Text.trimGaps (' ' :: (v ++ '=' :: (a ++ " TO ".toList ++ u))) =
      v ++ '=' :: (a ++ ' ' :: (Keyword.to_.spelling.toList ++
        ' ' :: Text.dropEndWhile isGap u)) := by
    have first : ∀ c ∈ (v ++ '=' :: (a ++ " TO ".toList ++ u)).head?, isGap c = false := by
      intro c hc
      rw [List.head?_append_of_ne_nil _ (Text.ne_nil_of_isName name)] at hc
      exact Text.isGap_eq_false_of_isName name c (List.mem_of_mem_head? hc)
    have last : ∃ c ∈ a ++ " TO ".toList ++ u, isGap c = false := by
      obtain ⟨c, hc, stay⟩ := more.exists_not_gap
      exact ⟨c, List.mem_append_right _ hc, stay⟩
    rw [Text.trimGaps, Text.trimWhile, List.dropWhile_cons_of_pos (by decide),
      Text.dropWhile_eq_self first, ← List.singleton_append, ← List.append_assoc,
      Text.dropEndWhile_append last, cut, List.append_assoc, List.singleton_append]
  have range : Text.trimGaps (a ++ ' ' :: (Keyword.to_.spelling.toList ++
      ' ' :: Text.dropEndWhile isGap u)) = (a ++ ' ' :: (Keyword.to_.spelling.toList ++
        ' ' :: Text.dropEndWhile isGap u)).dropWhile isGap := by
    rw [← cut, Text.trimGaps, Text.trimWhile_eq_dropWhile_dropEndWhile,
      Text.dropEndWhile_eq_self (Text.getLast?_dropEndWhile isGap _)]
  obtain ⟨gaps, left, hg, front, divided⟩ :=
    Keyword.divide?_dropWhile closed whole (Text.dropEndWhile isGap u)
  have start : Clause.expression .loop left = .ok (.ofText a) := by
    have padded := Text.trim_append_gaps hg (List.forall_mem_nil _) left
    rw [List.append_nil, front, Text.trim_append_space] at padded
    rw [← Clause.expression_of_isFilled filled, Clause.expression_congr padded]
  rw [read, Clause.read, opened]
  dsimp only [Clause.ofKeyword]
  rw [Clause.loop, typed, Text.assignment?_append name, range]
  dsimp only
  rw [divided]
  dsimp only
  rw [start]
  cases Keyword.step.divide? (' ' :: Text.dropEndWhile isGap u) with
  | none =>
      dsimp only [bind, Except.bind]
      cases Clause.expression .loop (' ' :: Text.dropEndWhile isGap u) with
      | error e => rfl
      | ok limit => exact Clause.complete_whole _
  | some found =>
      dsimp only [bind, Except.bind]
      cases Clause.expression .loop found.1 with
      | error e => rfl
      | ok limit =>
          dsimp only
          cases Clause.expression .loop found.2 with
          | error e => rfl
          | ok step => exact Clause.complete_whole _

/-- A branch is an assignment if it can be one, even to a name that is a keyword. -/
theorem readBranch_of_isFilled {t : Text} (h : t.IsFilled) :
    readBranch t =
      match t.trim.assignment? with
      | some (name, value) =>
        (Clause.expression .expression value).map (.assign name.canonical)
      | none => read t.trim := by
  have filled : t.trim.isEmpty = false := List.isEmpty_eq_false_iff.mpr h.trim_ne_nil
  rw [readBranch, Clause.readBranch, filled, if_neg Bool.false_ne_true, Clause.assignment?]
  cases t.trim.assignment? with
  | none => rfl
  | some found =>
      obtain ⟨name, value⟩ := found
      dsimp only [Option.map_some, Option.getD_some]
      cases Clause.expression .expression value with
      | error e => rfl
      | ok value => exact Clause.complete_whole _

variable {v a b c t e : Text}

theorem read_for_step (name : v.isName = true) (filledA : a.IsFilled) (closedA : a.IsClosed)
    (wholeA : Keyword.to_.divide? a = none) (filledB : b.IsFilled) (closedB : b.IsClosed)
    (wholeB : Keyword.step.divide? b = none) (filledC : c.IsFilled) :
    read ("FOR ".toList ++ (v ++ '=' :: (a ++ " TO ".toList ++ (b ++ " STEP ".toList ++ c)))) =
      .ok (.loop v.canonical (.ofText a) (.ofText b) (some (.ofText c))) := by
  have more : (b ++ " STEP ".toList ++ c).IsFilled := filledC.append_right _
  have rest : Text.dropEndWhile isGap (b ++ " STEP ".toList ++ c) =
      b ++ ' ' :: (Keyword.step.spelling.toList ++ ' ' :: Text.dropEndWhile isGap c) := by
    rw [Text.dropEndWhile_append filledC.exists_not_gap]
    simp [Keyword.spelling]
  have divided := Keyword.divide?_append (s := ' ' :: b) closedB
    (Keyword.divide?_space_cons wholeB) (Text.dropEndWhile isGap c)
  have limit : Clause.expression .loop (' ' :: b ++ [' ']) = .ok (.ofText b) := by
    rw [← Clause.expression_of_isFilled filledB, Clause.expression_congr]
    rw [Text.trim_append_space, Text.trim_space_cons]
  have step : Clause.expression .loop (' ' :: Text.dropEndWhile isGap c) = .ok (.ofText c) := by
    rw [← Clause.expression_of_isFilled filledC, Clause.expression_congr]
    rw [Text.trim_space_cons, Text.trim_dropEndWhile_isGap]
  rw [read_for name filledA closedA wholeA more, rest, ← List.cons_append, divided]
  dsimp only
  rw [limit, step]
  rfl

theorem read_for_to (name : v.isName = true) (filledA : a.IsFilled) (closedA : a.IsClosed)
    (wholeA : Keyword.to_.divide? a = none) (filledB : b.IsFilled)
    (wholeB : Keyword.step.divide? b = none) :
    read ("FOR ".toList ++ (v ++ '=' :: (a ++ " TO ".toList ++ b))) =
      .ok (.loop v.canonical (.ofText a) (.ofText b) none) := by
  have whole := Keyword.divide?_space_cons (Keyword.step.stopsAtGaps.cut?_dropEndWhile wholeB)
  have limit : Clause.expression .loop (' ' :: Text.dropEndWhile isGap b) = .ok (.ofText b) := by
    rw [← Clause.expression_of_isFilled filledB, Clause.expression_congr]
    rw [Text.trim_space_cons, Text.trim_dropEndWhile_isGap]
  rw [read_for name filledA closedA wholeA filledB, whole]
  dsimp only
  rw [limit]
  rfl

theorem read_if_else (closedC : c.IsClosed) (wholeC : Keyword.then_.divide? c = none)
    (closedT : t.IsClosed) (wholeT : Keyword.else_.divide? t = none) (filledE : e.IsFilled) :
    read ("IF ".toList ++ (c ++ " THEN ".toList ++ (t ++ " ELSE ".toList ++ e))) = do
      let test ← Clause.condition c
      let yes ← readBranch t
      let no ← readBranch e
      return .branchElse test yes no := by
  have more : (t ++ " ELSE ".toList ++ e).IsFilled := filledE.append_right _
  have rest : Text.dropEndWhile isGap (t ++ " ELSE ".toList ++ e) =
      t ++ ' ' :: (Keyword.else_.spelling.toList ++ ' ' :: Text.dropEndWhile isGap e) := by
    rw [Text.dropEndWhile_append filledE.exists_not_gap]
    simp [Keyword.spelling]
  have divided := Keyword.divide?_append (s := ' ' :: t) closedT
    (Keyword.divide?_space_cons wholeT) (Text.dropEndWhile isGap e)
  have yes : readBranch (' ' :: t ++ [' ']) = readBranch t := by
    apply readBranch_congr
    rw [Text.trim_append_space, Text.trim_space_cons]
  have no : readBranch (' ' :: Text.dropEndWhile isGap e) = readBranch e := by
    apply readBranch_congr
    rw [Text.trim_space_cons, Text.trim_dropEndWhile_isGap]
  rw [read_if closedC wholeC more, rest, ← List.cons_append, divided]
  dsimp only
  simp only [Clause.complete_branchElse, yes, no]

theorem read_if_then (closedC : c.IsClosed) (wholeC : Keyword.then_.divide? c = none)
    (filledT : t.IsFilled) (wholeT : Keyword.else_.divide? t = none) :
    read ("IF ".toList ++ (c ++ " THEN ".toList ++ t)) = do
      let test ← Clause.condition c
      let yes ← readBranch t
      return .branch test yes := by
  have whole := Keyword.divide?_space_cons (Keyword.else_.stopsAtGaps.cut?_dropEndWhile wholeT)
  have yes : readBranch (' ' :: Text.dropEndWhile isGap t) = readBranch t := by
    apply readBranch_congr
    rw [Text.trim_space_cons, Text.trim_dropEndWhile_isGap]
  rw [read_if closedC wholeC filledT, whole]
  dsimp only
  simp only [Clause.complete_branch, yes]

/-- Loops and conditional statements are divided exactly at their delimiters. A part that is
closed and does not hold the keyword that ends it is read as it stands, whatever follows; of
the parts of a conditional statement the first one that cannot be read gives the error. The
branches may be conditional statements again, so the first exposed `ELSE` is that of the
outermost. A condition is divided at the first exposed relation, in the longest spelling. -/
theorem divided_at_delimiters (line : Option Nat) :
    (∀ v a b c : Text, v.isName = true →
      a.IsFilled → a.IsClosed → Keyword.to_.divide? a = none →
      b.IsFilled → b.IsClosed → Keyword.step.divide? b = none → c.IsFilled →
      parse line ("FOR ".toList ++ v ++ '=' :: a ++ " TO ".toList ++ b ++
          " STEP ".toList ++ c) =
        .ok (.loop v.canonical (.ofText a) (.ofText b) (some (.ofText c))) ∧
      parse line ("FOR ".toList ++ v ++ '=' :: a ++ " TO ".toList ++ b) =
        .ok (.loop v.canonical (.ofText a) (.ofText b) none)) ∧
    (∀ c t e : Text, c.IsClosed → Keyword.then_.divide? c = none →
      t.IsFilled → t.IsClosed → Keyword.else_.divide? t = none → e.IsFilled →
      parse line ("IF ".toList ++ c ++ " THEN ".toList ++ t ++ " ELSE ".toList ++ e) =
        Except.mapError (·.inLine line) (do
          let test ← Clause.condition c
          let yes ← readBranch t
          let no ← readBranch e
          return .branchElse test yes no) ∧
      parse line ("IF ".toList ++ c ++ " THEN ".toList ++ t) =
        Except.mapError (·.inLine line) (do
          let test ← Clause.condition c
          let yes ← readBranch t
          return .branch test yes)) ∧
    (∀ t : Text, t.IsFilled → readBranch t =
      match t.trim.assignment? with
      | some (name, value) =>
        (Clause.expression .expression value).map (.assign name.canonical)
      | none => read t.trim) ∧
    ∀ l r : Text, l.IsClosed → Relation.divide? l = none →
      Clause.condition l = (Clause.expression .expression l).map .value ∧
      ∀ spelling relation, (spelling, relation) ∈ Relation.spellings →
        (spelling.length = 2 ∨ ∀ c ∈ r.head?, c ∉ ['<', '>', '=']) →
        Clause.condition (l ++ spelling.toList ++ r) = do
          let left ← Clause.expression .expression l
          let right ← Clause.expression .expression r
          return .compare left relation right := by
  have placed {t : Text} {result : Except Malformed Statement} (h : read t = result) :
      parse line t = result.mapError (·.inLine line) := by
    rw [← h]
    rfl
  refine ⟨?_, ?_, fun t => readBranch_of_isFilled, ?_⟩
  · intro v a b c name filledA closedA wholeA filledB closedB wholeB filledC
    have step := read_for_step name filledA closedA wholeA filledB closedB wholeB filledC
    have plain := read_for_to name filledA closedA wholeA filledB wholeB
    constructor
    · simpa only [List.append_assoc, List.cons_append, Except.mapError] using placed step
    · simpa only [List.append_assoc, List.cons_append, Except.mapError] using placed plain
  · intro c t e closedC wholeC filledT closedT wholeT filledE
    have both := read_if_else closedC wholeC closedT wholeT filledE
    have plain := read_if_then closedC wholeC filledT wholeT
    constructor
    · simpa only [List.append_assoc] using placed both
    · simpa only [List.append_assoc] using placed plain
  · intro l r closed whole
    refine ⟨by rw [Clause.condition, whole], ?_⟩
    intro spelling relation spelled longest
    rw [List.append_assoc]
    refine Clause.condition_append closed whole ?_
    exact Relation.leading?_spelling spelled longest

/-- The delimiters also stand in names, literals and parentheses, and both branches are
conditional. So does a relation. -/
theorem divided_at_delimiters_nested :
    parse (some 10) "FOR I$=TOTAL+(1 TO 2) TO \"A STEP\"+(B STEP C) STEP TO".toList =
        .ok (.loop "I$".toList ⟨"TOTAL+(1 TO 2)".toList⟩
          (⟨"\"A STEP\"+(B STEP C)".toList⟩) (some ⟨"TO".toList⟩)) ∧
      parse (some 10) ("IF ATHEN<\" THEN \" THEN IF B THEN PRINT \"ELSE\"".toList ++
          " ELSE IF C THEN D=1 ELSE E=2".toList) =
        Except.mapError (·.inLine (some 10)) (do
          let test ← Clause.condition "ATHEN<\" THEN \"".toList
          let yes ← readBranch "IF B THEN PRINT \"ELSE\"".toList
          let no ← readBranch "IF C THEN D=1 ELSE E=2".toList
          return .branchElse test yes no) ∧
      Clause.condition "CHR$(A=B)=<C".toList =
        .ok (.compare ⟨"CHR$(A=B)".toList⟩ .lessEqual ⟨"C".toList⟩) := by
  have filled (c : Char) (t : Text) (h : isBlank c = false) : Text.IsFilled (c :: t) :=
    ⟨c, List.mem_cons_self, h⟩
  refine ⟨?_, ?_, ?_⟩
  · exact ((divided_at_delimiters (some 10)).1 "I$".toList "TOTAL+(1 TO 2)".toList
      "\"A STEP\"+(B STEP C)".toList "TO".toList (by decide) (filled 'T' _ (by decide)) (by decide)
      (by decide) (filled '"' _ (by decide)) (by decide) (by decide)
      (filled 'T' _ (by decide))).1
  · exact ((divided_at_delimiters (some 10)).2.1 "ATHEN<\" THEN \"".toList
      "IF B THEN PRINT \"ELSE\"".toList "IF C THEN D=1 ELSE E=2".toList (by decide)
      (by decide) (filled 'I' _ (by decide)) (by decide) (by decide)
      (filled 'I' _ (by decide))).1
  · exact ((divided_at_delimiters (some 10)).2.2.2 "CHR$(A=B)".toList "C".toList (by decide)
      (by decide)).2 "=<" .lessEqual (by decide) (.inl rfl)

/-- The first `ELSE` is that of the outer condition. -/
example : Clause.read "IF A THEN IF B THEN END ELSE CLS".toList =
    .ok (.branchElse (.value ⟨['A']⟩) " IF B THEN END ".toList " CLS".toList) := by
  rfl

end Statement

end LineBasic
