import LineBasic.Proofs.Statement.Delimiters

/-!
# Well-formed statements

Reading only cuts text into pieces and trims them, so whatever is kept of a line is a piece of
it. An expression is kept only if there is more than blanks to it, and nothing else may take
its place: an argument that is missing is an error of the line, never an empty expression. A
variable is kept under the capital form of a name that stands in the line.

A clause is `Clause.CutFrom` the text that it was read from, and so are the statements of its
branches, which are pieces of that text and shorter.

Main statement: `Statement.parsed_from_pieces`.
-/

namespace LineBasic

namespace Text

variable {p : Char → Bool} {t : Text}

theorem infix_trimWhile (p : Char → Bool) (t : Text) : trimWhile p t <:+: t := by
  obtain ⟨before, after, whole, -, -⟩ := exists_append_trimWhile p t
  exact ⟨before, after, by rw [List.append_assoc, ← whole]⟩

/-- The pieces of a text are all those between its separators. -/
theorem infix_of_segments (sep : Char → Bool) (t : Text) :
    (t.segments sep).1 <:+: t ∧ ∀ part ∈ (t.segments sep).2, part.2 <:+: t := by
  have whole := Nesting.append_splitFrom sep Nesting.outside t
  rw [segments]
  generalize Nesting.splitFrom sep Nesting.outside t = parts at whole
  refine ⟨⟨[], _, whole⟩, fun part hpart => ?_⟩
  obtain ⟨front, back, between⟩ := List.append_of_mem hpart
  refine ⟨parts.1 ++ front.flatMap (fun part => part.1 :: part.2) ++ [part.1],
    back.flatMap (fun part => part.1 :: part.2), ?_⟩
  rw [← whole, between]
  simp

theorem infix_of_mem_split {sep : Char} {s : Text} (h : s ∈ split sep t) : s <:+: t := by
  obtain ⟨first, others⟩ := infix_of_segments (· == sep) t
  rcases List.mem_cons.mp h with rfl | h
  · exact first
  · obtain ⟨part, hpart, rfl⟩ := List.mem_map.mp h
    exact others part hpart

theorem infix_of_assignment? {name value : Text} (h : t.assignment? = some (name, value)) :
    name <:+: t ∧ value <:+: t := by
  have whole := List.takeWhile_append_dropWhile (p := (· != '=')) (l := t)
  rw [assignment?] at h
  split at h
  · cases h
  · next sign rest hrest =>
    dsimp only at h
    split at h
    · obtain ⟨rfl, rfl⟩ := Prod.mk.inj (Option.some.inj h)
      have front : t.takeWhile (· != '=') <:+: t := (List.takeWhile_prefix _).isInfix
      have back : rest <:+: t := by
        refine ⟨t.takeWhile (· != '=') ++ [sign], [], ?_⟩
        rw [List.append_nil, List.append_assoc, List.singleton_append, ← hrest, whole]
      exact ⟨(infix_trimWhile _ _).trans front, (infix_trimWhile _ _).trans back⟩
    · cases h

theorem canonical_of_isName (h : t.isName = true) : t.canonical = t.upper := by
  rw [canonical, trim, trimWhile_eq_self (isBlank_eq_false_of_isName h)]

end Text

namespace Keyword

theorem infix_of_leading? {t rest : Text} {w : Keyword} (h : leading? t = some (w, rest)) :
    rest <:+: t := by
  have gaps : t.dropWhile isGap <:+: t := (List.dropWhile_suffix _).isInfix
  rw [leading?] at h
  split at h
  · next s hs =>
    obtain ⟨-, rfl⟩ := Prod.mk.inj (Option.some.inj h)
    rw [hs] at gaps
    exact (Text.infix_trimWhile isGap s).trans ((List.suffix_cons '?' s).isInfix.trans gaps)
  · obtain ⟨v, -, same⟩ := Option.map_eq_some_iff.mp h
    obtain ⟨-, rfl⟩ := Prod.mk.inj same
    have word : (t.dropWhile isGap).dropWhile Char.isAlpha <:+: t.dropWhile isGap :=
      (List.dropWhile_suffix _).isInfix
    exact (Text.infix_trimWhile isGap _).trans (word.trans gaps)

theorem infix_of_divide? {w : Keyword} {t left right : Text}
    (h : w.divide? t = some (left, right)) : left <:+: t ∧ right <:+: t := by
  obtain ⟨before, rest, rfl, found⟩ := Text.exists_of_cut? h
  rw [behind?] at found
  split at found
  · obtain rfl := Option.some.inj found
    exact ⟨(List.prefix_append left rest).isInfix,
      (List.drop_suffix _ rest).isInfix.trans (List.suffix_append left rest).isInfix⟩
  · cases found

end Keyword

namespace Relation

theorem infix_of_divide? {t left right : Text} {relation : Relation}
    (h : divide? t = some (left, relation, right)) : left <:+: t ∧ right <:+: t := by
  obtain ⟨before, rest, rfl, found⟩ := Text.exists_of_cut? h
  obtain ⟨spelling, -, found⟩ := List.exists_of_findSome?_eq_some found
  obtain ⟨right', read, same⟩ := Option.map_eq_some_iff.mp found
  obtain ⟨-, rfl⟩ := Prod.mk.inj same
  have back : right' <:+ rest := ⟨_, List.isPrefixOf?_eq_some_iff_append_eq.mp read⟩
  exact ⟨(List.prefix_append left rest).isInfix,
    back.isInfix.trans (List.suffix_append left rest).isInfix⟩

end Relation

/-- An expression that is a contiguous piece of the text, not empty and without blanks at its
ends. -/
structure Expression.CutFrom (t : Text) (e : Expression) : Prop where
  filled : e.source ≠ []
  first : ∀ c ∈ e.source.head?, isBlank c = false
  last : ∀ c ∈ e.source.getLast?, isBlank c = false
  piece : e.source <:+: t

theorem Expression.CutFrom.mono {e : Expression} {s t : Text} (h : e.CutFrom s)
    (within : s <:+: t) : e.CutFrom t :=
  { h with piece := h.piece.trans within }

theorem Expression.cutFrom_ofText {t : Text} (h : (ofText t).source ≠ []) :
    (ofText t).CutFrom t where
  filled := h
  first := Text.head?_trimWhile isBlank t
  last := Text.getLast?_trimWhile isBlank t
  piece := Text.infix_trimWhile isBlank t

/-- Whether a variable is called in the text: it is known by the capital form of a name that
stands there. -/
def Text.Names (t name : Text) : Prop := ∃ w : Text, w.isName = true ∧ w <:+: t ∧ name = w.upper

theorem Text.Names.mono {s t name : Text} (h : s.Names name) (within : s <:+: t) :
    t.Names name := by
  obtain ⟨w, isName, piece, same⟩ := h
  exact ⟨w, isName, piece.trans within, same⟩

theorem Text.names_canonical {t w : Text} (h : w.isName = true) (within : w <:+: t) :
    t.Names w.canonical :=
  ⟨w, h, within, canonical_of_isName h⟩

def Condition.expressions : Condition → List Expression
  | compare left _ right => [left, right]
  | value e => [e]

def PrintPart.expressions : PrintPart → List Expression
  | value e => [e]
  | space | newline => []

/-- The expressions of a statement at any depth. -/
def Statement.expressions : Statement → List Expression
  | circle x y radius _ => [x, y, radius]
  | color text background => text :: background.toList
  | fill x y | plot x y => [x, y]
  | loop _ start limit step => start :: limit :: step.toList
  | column position | row position => [position]
  | branch condition yes => condition.expressions ++ yes.expressions
  | branchElse condition yes no => condition.expressions ++ (yes.expressions ++ no.expressions)
  | assign _ value => [value]
  | line x₁ y₁ x₂ y₂ | rectangle x₁ y₁ x₂ y₂ _ => [x₁, y₁, x₂, y₂]
  | print parts => parts.flatMap PrintPart.expressions
  | clear | stop | home | list | erase | next _ | remark | run => []

/-- All expressions of the statement were cut from the text, and all variables that it names are
called there. -/
structure Statement.CutFrom (t : Text) (s : Statement) : Prop where
  expressions : ∀ e ∈ s.expressions, e.CutFrom t
  names : ∀ leaf ∈ s.leaves, ∀ name ∈ leaf.named?, t.Names name

namespace Statement.CutFrom

variable {s t : Text} {condition : Condition} {yes no leaf : Statement}

theorem mono {statement : Statement} (h : statement.CutFrom s) (within : s <:+: t) :
    statement.CutFrom t where
  expressions e he := (h.expressions e he).mono within
  names leaf hleaf name hname := (h.names leaf hleaf name hname).mono within

theorem of_leaf (single : leaf.leaves = [leaf]) (expressions : ∀ e ∈ leaf.expressions, e.CutFrom t)
    (names : ∀ name ∈ leaf.named?, t.Names name) : leaf.CutFrom t where
  expressions := expressions
  names other hother := by
    rw [single, List.mem_singleton] at hother
    rw [hother]
    exact names

theorem branch (test : ∀ e ∈ condition.expressions, e.CutFrom t) (first : yes.CutFrom t) :
    (Statement.branch condition yes).CutFrom t where
  expressions := List.forall_mem_append.mpr ⟨test, first.expressions⟩
  names := first.names

theorem branchElse (test : ∀ e ∈ condition.expressions, e.CutFrom t) (first : yes.CutFrom t)
    (second : no.CutFrom t) : (Statement.branchElse condition yes no).CutFrom t where
  expressions := List.forall_mem_append.mpr
    ⟨test, List.forall_mem_append.mpr ⟨first.expressions, second.expressions⟩⟩
  names := List.forall_mem_append.mpr ⟨first.names, second.names⟩

end Statement.CutFrom

namespace Clause

variable {t u : Text} {c : Clause}

/-- The texts of the branches. -/
def branches : Clause → List Text
  | whole _ => []
  | branch _ yes => [yes]
  | branchElse _ yes no => [yes, no]

/-- What was read of the clause was cut from the text, and its branches are pieces of it. -/
def CutFrom (t : Text) : Clause → Prop
  | whole s => s.CutFrom t
  | branch condition yes => (∀ e ∈ condition.expressions, e.CutFrom t) ∧ yes <:+: t
  | branchElse condition yes no =>
    (∀ e ∈ condition.expressions, e.CutFrom t) ∧ yes <:+: t ∧ no <:+: t

theorem CutFrom.mono (h : c.CutFrom u) (within : u <:+: t) : c.CutFrom t := by
  cases c with
  | whole s => exact Statement.CutFrom.mono h within
  | branch condition yes =>
      exact ⟨fun e he => (h.1 e he).mono within, h.2.trans within⟩
  | branchElse condition yes no =>
      exact ⟨fun e he => (h.1 e he).mono within, h.2.1.trans within, h.2.2.trans within⟩

/-- If a clause was read, it was cut from the text. -/
def Cuts (t : Text) (result : Except Malformed Clause) : Prop :=
  ∀ c, result = .ok c → c.CutFrom t

theorem Cuts.error (m : Malformed) : Cuts t (.error m) := fun _ h => nomatch h

theorem Cuts.ok (h : c.CutFrom t) : Cuts t (.ok c) := by
  rintro c' ⟨⟩
  exact h

theorem Cuts.mono {result : Except Malformed Clause} (h : Cuts u result) (within : u <:+: t) :
    Cuts t result :=
  fun c hc => (h c hc).mono within

theorem cutFrom_of_expression {part : Expected} {e : Expression}
    (h : expression part t = .ok e) : e.CutFrom t := by
  rw [expression] at h
  split at h
  · cases h
  · next filled =>
    obtain rfl := Except.ok.inj h
    exact Expression.cutFrom_ofText fun empty => filled (List.isEmpty_iff.mpr empty)

theorem cutFrom_of_arguments? {list : List Expression} (h : arguments? t = some list) :
    ∀ e ∈ list, e.CutFrom t := by
  rw [arguments?] at h
  split at h
  · cases h
  · next filled =>
    obtain rfl := Option.some.inj h
    intro e he
    have stays : e.source ≠ [] := by
      intro empty
      exact filled (List.any_eq_true.mpr ⟨e, he, List.isEmpty_iff.mpr empty⟩)
    obtain ⟨piece, hpiece, rfl⟩ := List.mem_map.mp he
    exact (Expression.cutFrom_ofText stays).mono (Text.infix_of_mem_split hpiece)

/-- A statement without a variable whose expressions are among the arguments that were read. -/
theorem cuts_arguments {list : List Expression} (h : arguments? t = some list) {s : Statement}
    (single : s.leaves = [s]) (nameless : s.named? = none) (among : s.expressions ⊆ list) :
    Cuts t (.ok (whole s)) := by
  refine .ok (.of_leaf single (fun e he => cutFrom_of_arguments? h e (among he)) ?_)
  rw [nameless]
  exact nofun

theorem cuts_bare {s : Statement} (single : s.leaves = [s]) (nameless : s.named? = none)
    (bare : s.expressions = []) : Cuts t (.ok (whole s)) := by
  refine .ok (.of_leaf single ?_ ?_)
  · simp [bare]
  · simp [nameless]

theorem cuts_alone {s : Statement} (single : s.leaves = [s]) (nameless : s.named? = none)
    (bare : s.expressions = []) : Cuts t (alone s t) := by
  rw [alone]
  split
  · exact cuts_bare single nameless bare
  · exact .error _

theorem cuts_single {part : Expected} {make : Expression → Statement}
    (h : ∀ e, (make e).leaves = [make e] ∧ (make e).named? = none ∧ (make e).expressions = [e]) :
    Cuts t ((expression part t).map fun e => whole (make e)) := by
  cases read : expression part t with
  | error m => exact .error m
  | ok e =>
      obtain ⟨single, nameless, only⟩ := h e
      refine .ok (.of_leaf single ?_ ?_)
      · simpa [only] using cutFrom_of_expression read
      · simp [nameless]

theorem cuts_assignment? {other : Except Malformed Clause} (h : Cuts t other) :
    Cuts t ((assignment? t).getD other) := by
  rw [assignment?]
  cases read : t.assignment? with
  | none => exact h
  | some pair =>
      obtain ⟨name, value⟩ := pair
      obtain ⟨left, right⟩ := Text.infix_of_assignment? read
      dsimp only [Option.map_some, Option.getD_some]
      cases valued : expression .expression value with
      | error m => exact .error m
      | ok e =>
          refine .ok (.of_leaf rfl ?_ ?_)
          · simpa [Statement.expressions] using (cutFrom_of_expression valued).mono right
          · simpa [Statement.named?] using
              Text.names_canonical (Text.isName_of_assignment? read) left

/-- Whatever is printed was cut from its own piece between separators. -/
theorem cutFrom_of_mem_printParts {last : Option Char} {piece : Text}
    {parts : List (Char × Text)} (first : piece <:+: t) (others : ∀ part ∈ parts, part.2 <:+: t) :
    ∀ part ∈ printParts last piece parts, ∀ e ∈ part.expressions, e.CutFrom t := by
  have cut {piece : Text} (within : piece <:+: t) (filled : ¬ piece.trim.isEmpty = true) :
      ∀ e ∈ (PrintPart.value (.ofText piece)).expressions, e.CutFrom t := by
    intro e he
    obtain rfl := List.mem_singleton.mp he
    refine (Expression.cutFrom_ofText fun empty => ?_).mono within
    exact filled (List.isEmpty_iff.mpr empty)
  induction parts generalizing last piece with
  | nil =>
      rw [printParts]
      split
      · split <;> simp [PrintPart.expressions]
      · next filled =>
        simp only [List.forall_mem_cons]
        exact ⟨cut first filled, nofun, nofun⟩
  | cons part parts ih =>
      obtain ⟨separator, following⟩ := part
      obtain ⟨next, others⟩ := List.forall_mem_cons.mp others
      rw [printParts, List.forall_mem_append, List.forall_mem_append]
      refine ⟨⟨?_, ?_⟩, ih next others⟩
      · rw [printed]
        split
        · exact nofun
        · next filled => simpa using cut first filled
      · split <;> simp [PrintPart.expressions]

theorem cuts_print (t : Text) : Cuts t (.ok (print t)) := by
  obtain ⟨first, others⟩ := Text.infix_of_segments (fun c => c == ';' || c == ',') t
  refine .ok (.of_leaf rfl (fun e he => ?_) nofun)
  obtain ⟨part, hpart, he⟩ := List.mem_flatMap.mp he
  exact cutFrom_of_mem_printParts first others part hpart e he

theorem cuts_loop (t : Text) : Cuts t (loop t) := by
  rw [loop]
  split
  · exact .error _
  · next name range read =>
    obtain ⟨left, right⟩ := Text.infix_of_assignment? read
    have named := Text.names_canonical (Text.isName_of_assignment? read) left
    split
    · exact .error _
    · next start rest divided =>
      obtain ⟨before, behind⟩ := Keyword.infix_of_divide? divided
      cases started : expression .loop start with
      | error m => exact .error m
      | ok start =>
          have start := (cutFrom_of_expression started).mono (before.trans right)
          dsimp only [bind, Except.bind]
          split
          · cases limited : expression .loop rest with
            | error m => exact .error m
            | ok limit =>
                have limit := (cutFrom_of_expression limited).mono (behind.trans right)
                refine .ok (.of_leaf rfl ?_ (by simpa [Statement.named?] using named))
                simpa [Statement.expressions] using ⟨start, limit⟩
          · next limit step divided =>
            obtain ⟨middle, last⟩ := Keyword.infix_of_divide? divided
            cases limited : expression .loop limit with
            | error m => exact .error m
            | ok limit =>
                dsimp only
                cases stepped : expression .loop step with
                | error m => exact .error m
                | ok step =>
                    have limit := (cutFrom_of_expression limited).mono
                      (middle.trans (behind.trans right))
                    have step := (cutFrom_of_expression stepped).mono
                      (last.trans (behind.trans right))
                    refine .ok (.of_leaf rfl ?_ (by simpa [Statement.named?] using named))
                    simpa [Statement.expressions] using ⟨start, limit, step⟩

theorem cuts_next (t : Text) : Cuts t (next t) := by
  rw [next]
  split
  · exact cuts_bare rfl rfl rfl
  · split
    · next isName =>
      refine .ok (.of_leaf rfl (List.forall_mem_nil _) ?_)
      simpa [Statement.named?] using Text.names_canonical isName (List.infix_refl t)
    · exact .error _

theorem cutFrom_of_condition {condition : Condition} (h : Clause.condition t = .ok condition) :
    ∀ e ∈ condition.expressions, e.CutFrom t := by
  rw [Clause.condition] at h
  split at h
  · cases read : expression .expression t with
    | error m =>
        rw [read] at h
        cases h
    | ok e =>
        rw [read] at h
        obtain rfl := Except.ok.inj h
        simpa [Condition.expressions] using cutFrom_of_expression read
  · next left relation right divided =>
    obtain ⟨before, behind⟩ := Relation.infix_of_divide? divided
    obtain ⟨l, first, h⟩ := bind_eq_ok_iff.mp h
    obtain ⟨r, second, h⟩ := bind_eq_ok_iff.mp h
    obtain rfl := Except.ok.inj h
    simpa [Condition.expressions] using
      ⟨(cutFrom_of_expression first).mono before, (cutFrom_of_expression second).mono behind⟩

theorem cuts_conditional (t : Text) : Cuts t (conditional t) := by
  rw [conditional]
  split
  · exact .error _
  · next test branches divided =>
    obtain ⟨before, behind⟩ := Keyword.infix_of_divide? divided
    cases tested : condition test with
    | error m => exact .error m
    | ok test =>
        have test := fun e he => (cutFrom_of_condition tested e he).mono before
        dsimp only [bind, Except.bind]
        split
        · exact .ok ⟨test, behind⟩
        · next yes no divided =>
          obtain ⟨first, second⟩ := Keyword.infix_of_divide? divided
          exact .ok ⟨test, first.trans behind, second.trans behind⟩

theorem cuts_ofKeyword (t : Text) (w : Keyword) : Cuts t (ofKeyword t w) := by
  cases w
  case for_ => exact cuts_loop t
  case if_ => exact cuts_conditional t
  case let_ => exact cuts_assignment? (.error _)
  case next => exact cuts_next t
  case print | question => exact cuts_print t
  case htab | vtab => exact cuts_single fun _ => ⟨rfl, rfl, rfl⟩
  case cls | end_ | home | list | new | run => exact cuts_alone rfl rfl rfl
  case rem => exact cuts_bare rfl rfl rfl
  case else_ | step | then_ | to_ => exact .error _
  -- the keywords in front of a list of arguments
  all_goals
    simp only [ofKeyword, circle, color, point, segment, rectangle]
    repeat' split
    all_goals first
      | exact .error _
      | exact cuts_arguments ‹_› rfl rfl (by simp [Statement.expressions])

theorem cuts_read (t : Text) : Cuts t (read t) := by
  rw [read]
  split
  · next w rest opened =>
    exact (cuts_ofKeyword rest w).mono (Keyword.infix_of_leading? opened)
  · exact cuts_assignment? (.error _)

theorem cuts_readBranch (t : Text) : Cuts t (readBranch t) := by
  rw [readBranch]
  split
  · exact .error _
  · exact (cuts_assignment? (cuts_read _)).mono (Text.infix_trimWhile isBlank t)

/-- Reading the branches cuts pieces out of pieces. -/
theorem cutFrom_of_complete {s : Statement} (hc : c.CutFrom t) (h : c.complete = .ok s) :
    s.CutFrom t := by
  fun_induction complete c generalizing s with
  | case1 s' =>
      obtain rfl := Except.ok.inj h
      exact hc
  | case2 condition yes e failed => cases h
  | case3 condition yes clause hyes ih =>
      obtain ⟨first, read, h⟩ := bind_eq_ok_iff.mp h
      obtain rfl := Except.ok.inj h
      exact .branch hc.1 (ih ((cuts_readBranch yes _ hyes).mono hc.2) read)
  | case4 condition yes no e failed => cases h
  | case5 condition yes no clause hyes ihyes ihno =>
      obtain ⟨first, read, h⟩ := bind_eq_ok_iff.mp h
      have first := ihyes ((cuts_readBranch yes _ hyes).mono hc.2.1) read
      split at h
      · cases h
      · next clause' hno =>
        obtain ⟨second, read', h⟩ := bind_eq_ok_iff.mp h
        obtain rfl := Except.ok.inj h
        exact .branchElse hc.1 first
          (ihno clause' hno ((cuts_readBranch no _ hno).mono hc.2.2) read')

/-- Whether a text is read as a branch of a clause of another text. -/
def IsBranch (u t : Text) : Prop :=
  ∃ c : Clause, (read t = .ok c ∨ readBranch t = .ok c) ∧ u ∈ c.branches

theorem length_lt_of_isBranch (h : IsBranch u t) : u.length < t.length := by
  obtain ⟨c, read, hu⟩ := h
  have size : c.size ≤ t.length := read.elim size_le_of_read size_le_of_readBranch
  cases c with
  | whole s => cases hu
  | branch condition yes =>
      obtain rfl := List.mem_singleton.mp hu
      exact size
  | branchElse condition yes no =>
      rw [size_branchElse] at size
      rcases List.mem_pair.mp hu with rfl | rfl
      · omega
      · omega

end Clause

namespace Statement

/-- Whatever text stands in a line, it is a statement whose parts were all cut from it, or else a
syntax error in this line. An argument that is missing would be an empty expression, so there is
none. The recursion into branches ends, since they get strictly shorter. -/
theorem parsed_from_pieces (line : Option Nat) (t : Text) :
    (match parse line t with
      | .ok s => s.CutFrom t
      | .error e => e.kind = .syntaxError ∧ e.line = line) ∧
    (∀ u, Clause.IsBranch u t → u.length < t.length) ∧ Acc Clause.IsBranch t := by
  refine ⟨?_, fun u => Clause.length_lt_of_isBranch, ?_⟩
  · rw [parse, read]
    cases read : Clause.read t with
    | error m => exact ⟨rfl, rfl⟩
    | ok c =>
        cases completed : c.complete with
        | error m => simp [bind, Except.bind, Except.mapError, completed, Error.because]
        | ok s =>
            simp only [bind, Except.bind, Except.mapError, completed]
            exact Clause.cutFrom_of_complete (Clause.cuts_read t c read) completed
  · exact Subrelation.accessible Clause.length_lt_of_isBranch
      ((measure List.length).wf.apply t)

/-- A branch within a branch, in mixed case. -/
theorem parsed_from_pieces_nested :
    let t := "IF A THEN IF b<2 THEN x = b ELSE CLS".toList
    let s := Statement.branchElse (.value ⟨['A']⟩)
      (.branch (.compare ⟨['b']⟩ .less ⟨['2']⟩) (.assign ['X'] ⟨['b']⟩)) .clear
    parse (some 10) t = .ok s ∧ s.CutFrom t ∧ Clause.IsBranch " CLS".toList t ∧
      " CLS".toList.length < t.length := by
  intro t s
  have parsed : parse (some 10) t = .ok s := by decide +kernel
  have branch : Clause.IsBranch " CLS".toList t :=
    ⟨.branchElse (.value ⟨['A']⟩) " IF b<2 THEN x = b ".toList " CLS".toList, .inl rfl,
      by simp [Clause.branches]⟩
  obtain ⟨result, shorter, -⟩ := parsed_from_pieces (some 10) t
  rw [parsed] at result
  exact ⟨parsed, result, branch, shorter _ branch⟩

end Statement

end LineBasic
