import LineBasic.Proofs.Text.Division

/-!
# Joining pieces

A text that is divided at its exposed separators falls into the pieces that it was joined from,
if every piece but the last is closed and none holds an exposed separator. Every text can be cut
into such pieces in one way, which is how it is divided (`Text.cut_segments`,
`Text.Cut.segments_eq`). Blanks neither move a scan nor separate, so those around a text only make
its outer pieces longer.

Main statement: `Text.splitting_lossless_and_exact`.
-/

namespace LineBasic

namespace Nesting

variable {sep : Char → Bool} {n : Nesting} {s t : Text}

theorem mem_of_mem_exposed {c : Char} (h : c ∈ exposed n t) : c ∈ t := by
  induction t generalizing n with
  | nil => cases h
  | cons d t ih =>
      rw [exposed] at h
      split at h
      · rcases List.mem_cons.mp h with rfl | h
        · exact List.mem_cons_self
        · exact List.mem_cons_of_mem d (ih h)
      · exact List.mem_cons_of_mem d (ih h)

theorem after_of_isBlank {c : Char} (h : isBlank c = true) (n : Nesting) : n.after c = n := by
  have quote : c ≠ '"' := by rintro rfl; exact absurd h (by decide)
  have opening : c ≠ '(' := by rintro rfl; exact absurd h (by decide)
  have closing : c ≠ ')' := by rintro rfl; exact absurd h (by decide)
  simp [after, quote, opening, closing]

/-- A scan stays where it is over characters that do not move it. -/
theorem scan_eq_self (h : ∀ c ∈ t, n.after c = n) : n.scan t = n := by
  induction t with
  | nil => rfl
  | cons c t ih =>
      rw [scan_cons, h c List.mem_cons_self, ih fun d hd => h d (List.mem_cons_of_mem c hd)]

theorem scan_of_blank (h : ∀ c ∈ t, isBlank c = true) (n : Nesting) : n.scan t = n :=
  scan_eq_self fun c hc => after_of_isBlank (h c hc) n

theorem exposed_append (n : Nesting) (s t : Text) :
    exposed n (s ++ t) = exposed n s ++ exposed (n.scan s) t := by
  induction s generalizing n with
  | nil => rfl
  | cons c s ih =>
      rw [List.cons_append, exposed, exposed, ih, scan_cons]
      split <;> rfl

/-- A text of exposed characters is exposed as a whole. -/
theorem exposed_eq_self (h : ∀ c ∈ t, n.exposes c = true) : exposed n t = t := by
  induction t with
  | nil => rfl
  | cons c t ih =>
      have here := h c List.mem_cons_self
      rw [exposed, if_pos here, after_of_exposes here,
        ih fun d hd => h d (List.mem_cons_of_mem c hd)]

/-- Within a literal a scan stays where it is, and nothing is exposed. -/
theorem scan_of_quoted (quoted : n.quoted = true) (h : '"' ∉ t) :
    n.scan t = n ∧ exposed n t = [] := by
  have stays : ∀ c ∈ t, n.after c = n := by
    intro c hc
    have other : c ≠ '"' := by
      rintro rfl
      exact h hc
    simp [after, other, quoted]
  refine ⟨scan_eq_self stays, ?_⟩
  clear h
  induction t with
  | nil => rfl
  | cons c t ih =>
      have hidden : n.exposes c = false := by simp [exposes, quoted]
      rw [exposed, hidden, if_neg Bool.false_ne_true, stays c List.mem_cons_self]
      exact ih fun d hd => stays d (List.mem_cons_of_mem c hd)

/-- A literal is closed and exposes nothing. -/
theorem scan_literal {inner : Text} (h : '"' ∉ inner) :
    outside.scan ('"' :: inner ++ ['"']) = outside ∧
      exposed outside ('"' :: inner ++ ['"']) = [] := by
  obtain ⟨stays, hidden⟩ := scan_of_quoted (n := outside.after '"') rfl h
  constructor
  · rw [List.cons_append, scan_cons, scan_append, stays]
    rfl
  · rw [List.cons_append, exposed, if_neg (by decide), exposed_append, hidden, stays]
    rfl

/-- If no separator is exposed in the first part of a text, it belongs to the first piece. -/
theorem splitFrom_append (whole : ∀ c ∈ exposed n s, sep c = false) (t : Text) :
    splitFrom sep n (s ++ t) =
      (s ++ (splitFrom sep (n.scan s) t).1, (splitFrom sep (n.scan s) t).2) := by
  induction s generalizing n with
  | nil => rfl
  | cons c s ih =>
      have inside : (n.exposes c && sep c) = false := by
        rw [exposed] at whole
        by_cases exposed : n.exposes c = true
        · rw [if_pos exposed] at whole
          rw [whole c List.mem_cons_self, Bool.and_false]
        · rw [Bool.not_eq_true] at exposed
          rw [exposed, Bool.false_and]
      have rest : ∀ d ∈ exposed (n.after c) s, sep d = false := by
        rw [exposed] at whole
        split at whole
        · exact fun d hd => whole d (List.mem_cons_of_mem c hd)
        · exact whole
      rw [List.cons_append, splitFrom, inside, if_neg Bool.false_ne_true, ih rest, scan_cons,
        List.cons_append]

/-- What holds no separator at all is added to the last piece of what stands before it. -/
theorem exists_splitFrom_append (whole : ∀ c ∈ t, sep c = false) (n : Nesting) (s : Text) :
    ∃ front last,
      (splitFrom sep n s).1 :: (splitFrom sep n s).2.map Prod.snd = front ++ [last] ∧
        (splitFrom sep n (s ++ t)).1 :: (splitFrom sep n (s ++ t)).2.map Prod.snd =
          front ++ [last ++ t] := by
  induction s generalizing n with
  | nil =>
      have all := splitFrom_append (n := n) (fun c hc => whole c (mem_of_mem_exposed hc)) []
      refine ⟨[], [], rfl, ?_⟩
      rw [List.append_nil] at all
      rw [List.nil_append, all, splitFrom]
      simp
  | cons c s ih =>
      obtain ⟨front, last, before, behind⟩ := ih (n.after c)
      rw [List.cons_append, splitFrom, splitFrom]
      by_cases divides : (n.exposes c && sep c) = true
      · rw [if_pos divides, if_pos divides]
        exact ⟨[] :: front, last, congrArg ([] :: ·) before, congrArg ([] :: ·) behind⟩
      · rw [if_neg divides, if_neg divides]
        cases front with
        | nil =>
            obtain ⟨first, none⟩ := List.cons.inj before
            obtain ⟨first', none'⟩ := List.cons.inj behind
            refine ⟨[], c :: last, ?_, ?_⟩
            · simp only [first, none, List.nil_append]
            · simp only [first', none', List.nil_append, List.cons_append]
        | cons piece front =>
            obtain ⟨first, rest⟩ := List.cons.inj before
            obtain ⟨first', rest'⟩ := List.cons.inj behind
            refine ⟨(c :: piece) :: front, last, ?_, ?_⟩
            · rw [first, rest]
              rfl
            · rw [first', rest']
              rfl

theorem eq_outside_of_exposes {c : Char} (h : n.exposes c = true) : n = outside := by
  obtain ⟨quoted, depth⟩ := n
  simp only [exposes, Bool.and_eq_true, Bool.not_eq_true', beq_iff_eq] at h
  obtain ⟨⟨⟨⟨rfl, rfl⟩, -⟩, -⟩, -⟩ := h
  rfl

/-- The first piece exposes no separator, and a separator behind it stands outside. -/
theorem first_splitFrom (sep : Char → Bool) (n : Nesting) (t : Text) :
    (∀ c ∈ exposed n (splitFrom sep n t).1, sep c = false) ∧
      ((splitFrom sep n t).2 ≠ [] → n.scan (splitFrom sep n t).1 = outside) := by
  induction t generalizing n with
  | nil => exact ⟨fun _ mem => absurd mem List.not_mem_nil, fun some => absurd rfl some⟩
  | cons c t ih =>
      rw [splitFrom]
      by_cases divides : (n.exposes c && sep c) = true
      · rw [if_pos divides]
        exact ⟨fun _ mem => absurd mem List.not_mem_nil,
          fun _ => eq_outside_of_exposes (Bool.and_eq_true_iff.mp divides).1⟩
      · rw [if_neg divides]
        obtain ⟨whole, closed⟩ := ih (n.after c)
        refine ⟨?_, closed⟩
        rw [exposed]
        split
        · next exposes =>
          intro d hd
          rcases List.mem_cons.mp hd with rfl | hd
          · simpa [exposes] using divides
          · exact whole d hd
        · exact whole

/-- In front of other closed pieces stands a closed piece. -/
theorem closed_cons {pieces : List Text} (first : pieces ≠ [] → t.IsClosed)
    (others : ∀ piece ∈ pieces.dropLast, piece.IsClosed) :
    ∀ piece ∈ (t :: pieces).dropLast, piece.IsClosed := by
  cases pieces with
  | nil => nofun
  | cons u pieces =>
      intro piece mem
      rcases List.mem_cons.mp mem with rfl | mem
      · exact first (List.cons_ne_nil u pieces)
      · exact others piece mem

/-- Behind each separator the scan is outside again. -/
theorem later_splitFrom (sep : Char → Bool) (n : Nesting) (t : Text) :
    (∀ piece ∈ ((splitFrom sep n t).2.map Prod.snd).dropLast, piece.IsClosed) ∧
      ∀ piece ∈ (splitFrom sep n t).2.map Prod.snd, ∀ c ∈ exposed outside piece, sep c = false := by
  induction t generalizing n with
  | nil => exact ⟨nofun, nofun⟩
  | cons c t ih =>
      rw [splitFrom]
      obtain ⟨closed, whole⟩ := ih (n.after c)
      by_cases divides : (n.exposes c && sep c) = true
      · have exposes := (Bool.and_eq_true_iff.mp divides).1
        obtain ⟨first, behind⟩ := first_splitFrom sep (n.after c) t
        have start : n.after c = outside := by
          rw [after_of_exposes exposes, eq_outside_of_exposes exposes]
        rw [start] at first behind
        rw [if_pos divides, List.map_cons]
        rw [start] at closed whole ⊢
        refine ⟨closed_cons (fun others => behind ?_) closed,
          List.forall_mem_cons.mpr ⟨first, whole⟩⟩
        simpa using others
      · rw [if_neg divides]
        exact ⟨closed, whole⟩

end Nesting

namespace Text

/-- A text cut at its exposed separators: no piece exposes one, and all pieces but the last are
closed, so that the separators between them are exposed. -/
structure Cut (sep : Char → Bool) (t first : Text) (parts : List (Char × Text)) : Prop where
  joined : first ++ parts.flatMap (fun part => part.1 :: part.2) = t
  separates : ∀ part ∈ parts, sep part.1 = true
  closed : ∀ piece ∈ (first :: parts.map Prod.snd).dropLast, piece.IsClosed
  whole : ∀ piece ∈ first :: parts.map Prod.snd, ∀ c ∈ Nesting.outside.exposed piece, sep c = false

variable {sep : Char → Bool} {t first : Text} {parts : List (Char × Text)}

/-- Every text is cut into its segments. -/
theorem cut_segments (sep : Char → Bool) (t : Text) :
    Cut sep t (segments sep t).1 (segments sep t).2 where
  joined := Nesting.append_splitFrom sep Nesting.outside t
  separates := by
    intro part hpart
    have mem := List.mem_map_of_mem (f := Prod.fst) hpart
    rw [segments, Nesting.separators_splitFrom] at mem
    exact (List.mem_filter.mp mem).2
  closed := by
    obtain ⟨-, behind⟩ := Nesting.first_splitFrom sep Nesting.outside t
    refine Nesting.closed_cons (fun others => behind ?_) (Nesting.later_splitFrom sep _ t).1
    simpa [segments] using others
  whole := List.forall_mem_cons.mpr ⟨(Nesting.first_splitFrom sep Nesting.outside t).1,
    (Nesting.later_splitFrom sep _ t).2⟩

/-- There is only one way to cut a text. -/
theorem Cut.segments_eq (h : Cut sep t first parts)
    (exposes : ∀ c, sep c = true → Nesting.outside.exposes c = true) :
    segments sep t = (first, parts) := by
  obtain ⟨rfl, separates, closed, whole⟩ := h
  rw [segments]
  induction parts generalizing first with
  | nil =>
      rw [List.flatMap_nil, Nesting.splitFrom_append (whole first List.mem_cons_self),
        Nesting.splitFrom, List.append_nil]
  | cons part parts ih =>
      have exposed := exposes part.1 (separates part List.mem_cons_self)
      have behind : Nesting.outside.scan first = Nesting.outside := closed first List.mem_cons_self
      have rest := ih (fun p hp => separates p (List.mem_cons_of_mem part hp))
        (fun piece hp => closed piece (List.mem_cons_of_mem first hp))
        fun piece hp => whole piece (List.mem_cons_of_mem first hp)
      rw [List.flatMap_cons, List.cons_append,
        Nesting.splitFrom_append (whole first List.mem_cons_self), behind, Nesting.splitFrom,
        Nesting.after_of_exposes exposed, exposed, separates part List.mem_cons_self, rest]
      simp

/-- Closed pieces that expose no separator are what a text is cut into that was joined from them. -/
theorem cut_intercalate {c : Char} {rest : List Text} (separates : sep c = true)
    (closed : ∀ piece ∈ (first :: rest).dropLast, piece.IsClosed)
    (whole : ∀ piece ∈ first :: rest, ∀ d ∈ Nesting.outside.exposed piece, sep d = false) :
    Cut sep ([c].intercalate (first :: rest)) first (rest.map fun piece => (c, piece)) := by
  have pieces : (rest.map fun piece => (c, piece)).map Prod.snd = rest := by
    rw [List.map_map]
    exact List.map_id rest
  refine ⟨?_, ?_, pieces.symm ▸ closed, pieces.symm ▸ whole⟩
  · clear closed whole pieces
    induction rest generalizing first with
    | nil => rw [List.map_nil, List.flatMap_nil, List.append_nil, List.intercalate_singleton]
    | cons next rest ih =>
        rw [List.intercalate_cons_cons, ← ih, List.map_cons, List.flatMap_cons]
        simp
  · intro part hpart
    obtain ⟨piece, -, rfl⟩ := List.mem_map.mp hpart
    exact separates

/-- A text falls into the pieces that it was joined from. -/
theorem split_intercalate {sep : Char} (exposed : Nesting.outside.exposes sep = true)
    {pieces : List Text} (some : pieces ≠ []) (closed : ∀ t ∈ pieces.dropLast, t.IsClosed)
    (whole : ∀ t ∈ pieces, sep ∉ Nesting.outside.exposed t) :
    split sep ([sep].intercalate pieces) = pieces := by
  obtain ⟨first, rest, rfl⟩ := List.exists_cons_of_ne_nil some
  have apart : ∀ t ∈ first :: rest, ∀ c ∈ Nesting.outside.exposed t, (c == sep) = false := by
    intro t ht c hc
    rw [beq_eq_false_iff_ne]
    rintro rfl
    exact whole t ht hc
  have cut : Cut (· == sep) ([sep].intercalate (first :: rest)) first _ :=
    cut_intercalate (beq_self_eq_true sep) closed apart
  rw [split, cut.segments_eq fun c same => eq_of_beq same ▸ exposed, List.map_map]
  exact congrArg (first :: ·) (List.map_id rest)

/-- A text that exposes no separator is its only piece. -/
theorem split_of_not_mem_exposed {sep : Char} (whole : sep ∉ Nesting.outside.exposed t) :
    split sep t = [t] := by
  have inside : ∀ c ∈ Nesting.outside.exposed t, (c == sep) = false := by
    intro c hc
    rw [beq_eq_false_iff_ne]
    rintro rfl
    exact whole hc
  have all := Nesting.splitFrom_append inside []
  rw [List.append_nil] at all
  rw [split, segments, all]
  simp [Nesting.splitFrom]

/-- The pieces of a text are closed, except that the last one may be open. -/
theorem isClosed_of_mem_split {sep : Char} {piece : Text} (h : piece ∈ (split sep t).dropLast) :
    piece.IsClosed :=
  (cut_segments (· == sep) t).closed piece h

theorem not_mem_exposed_of_mem_split {sep : Char} {piece : Text} (h : piece ∈ split sep t) :
    sep ∉ Nesting.outside.exposed piece := by
  intro mem
  simpa using (cut_segments (· == sep) t).whole piece h sep mem

/-- A text is split without a loss, and into pieces that are not split again. They are the only
pieces of this kind that it can be joined from. -/
theorem splitting_lossless_and_exact (sep : Char) :
    (∀ t, [sep].intercalate (split sep t) = t ∧
      (split sep t).length = (Nesting.outside.exposed t).count sep + 1 ∧
      ∀ piece ∈ split sep t, split sep piece = [piece]) ∧
    (sep ∉ ['"', '(', ')'] → ∀ t pieces,
      split sep t = pieces ↔
        [sep].intercalate pieces = t ∧ pieces ≠ [] ∧ (∀ t ∈ pieces.dropLast, t.IsClosed) ∧
          ∀ t ∈ pieces, sep ∉ Nesting.outside.exposed t) := by
  refine ⟨fun t => ⟨intercalate_split sep t, length_split sep t, fun piece h => ?_⟩, ?_⟩
  · exact split_of_not_mem_exposed (not_mem_exposed_of_mem_split h)
  · intro plain t pieces
    have exposed : Nesting.outside.exposes sep = true :=
      Nesting.exposes_iff_of_outside.mpr (by simpa using plain)
    constructor
    · rintro rfl
      exact ⟨intercalate_split sep t, List.cons_ne_nil _ _, fun _ => isClosed_of_mem_split,
        fun _ => not_mem_exposed_of_mem_split⟩
    · rintro ⟨rfl, some, closed, whole⟩
      exact split_intercalate exposed some closed whole

/-- Separators in literals and parentheses do not count, a closing parenthesis without a partner
leaves its piece closed, and the last piece stays open. -/
theorem splitting_lossless_and_exact_unbalanced :
    split '→' "\"a→b\"→F(x→(y))→)→(z→".toList =
      ["\"a→b\"", "F(x→(y))", ")", "(z→"].map String.toList :=
  ((splitting_lossless_and_exact '→').2 (by decide) _ _).mpr
    ⟨by decide, by decide, by decide, by decide⟩

end Text

end LineBasic
