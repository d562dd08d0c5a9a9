import LineBasic.Text.Basic
import Mathlib.Data.List.TakeWhile

/-!
# Trimmed texts

Trimming cuts a text at both ends, up to the first and the last character that is to
stay. Whatever stays does not change if it is trimmed again, whatever stood around it, and it
does not matter at which end trimming begins.
-/

namespace LineBasic.Text

variable {p : Char → Bool} {t : Text}

theorem dropWhile_eq_self (h : ∀ c ∈ t.head?, p c = false) : t.dropWhile p = t := by
  cases t with
  | nil => rfl
  | cons c t => exact List.dropWhile_cons_of_neg (by simp [h c rfl])

theorem takeWhile_eq_nil (h : ∀ c ∈ t.head?, p c = false) : t.takeWhile p = [] := by
  cases t with
  | nil => rfl
  | cons c t => exact List.takeWhile_cons_of_neg (by simp [h c rfl])

/-- Where the leading `p` of a text end is not changed by what begins without `p`. -/
theorem dropWhile_append_of_head? (h : ∀ c ∈ t.head?, p c = false) (s : Text) :
    (s ++ t).dropWhile p = s.dropWhile p ++ t := by
  induction s with
  | nil => exact dropWhile_eq_self h
  | cons c s ih =>
      by_cases hc : p c = true
      · rw [List.cons_append, List.dropWhile_cons_of_pos hc, List.dropWhile_cons_of_pos hc, ih]
      · rw [List.cons_append, List.dropWhile_cons_of_neg hc, List.dropWhile_cons_of_neg hc,
          List.cons_append]

theorem takeWhile_append_of_head? (h : ∀ c ∈ t.head?, p c = false) (s : Text) :
    (s ++ t).takeWhile p = s.takeWhile p := by
  induction s with
  | nil => exact takeWhile_eq_nil h
  | cons c s ih =>
      by_cases hc : p c = true
      · rw [List.cons_append, List.takeWhile_cons_of_pos hc, List.takeWhile_cons_of_pos hc, ih]
      · rw [List.cons_append, List.takeWhile_cons_of_neg hc, List.takeWhile_cons_of_neg hc]

theorem head?_dropWhile (p : Char → Bool) (t : Text) :
    ∀ c ∈ (t.dropWhile p).head?, p c = false := by
  intro c hc
  have := List.head?_dropWhile_not p t
  rwa [hc] at this

theorem getLast?_dropEndWhile (p : Char → Bool) (t : Text) :
    ∀ c ∈ (dropEndWhile p t).getLast?, p c = false := by
  intro c hc
  rw [dropEndWhile, List.getLast?_reverse] at hc
  exact head?_dropWhile p t.reverse c hc

theorem dropEndWhile_eq_self (h : ∀ c ∈ t.getLast?, p c = false) : dropEndWhile p t = t := by
  rw [dropEndWhile, dropWhile_eq_self, List.reverse_reverse]
  intro c hc
  rw [List.head?_reverse] at hc
  exact h c hc

theorem trimWhile_eq_self_of_ends (first : ∀ c ∈ t.head?, p c = false)
    (last : ∀ c ∈ t.getLast?, p c = false) : trimWhile p t = t := by
  rw [trimWhile, dropWhile_eq_self first, dropEndWhile_eq_self last]

theorem trimWhile_eq_self (h : ∀ c ∈ t, p c = false) : trimWhile p t = t :=
  trimWhile_eq_self_of_ends (fun c hc => h c (List.mem_of_mem_head? hc))
    fun c hc => h c (List.mem_of_mem_getLast? hc)

/-- What is trimmed off satisfies `p` throughout. -/
theorem exists_append_trimWhile (p : Char → Bool) (t : Text) :
    ∃ before after, t = before ++ (trimWhile p t ++ after) ∧ (∀ c ∈ before, p c = true) ∧
      ∀ c ∈ after, p c = true := by
  obtain ⟨after, cut, last⟩ := exists_dropEndWhile_append p (t.dropWhile p)
  refine ⟨t.takeWhile p, after, ?_, ?_, last⟩
  · rw [trimWhile, ← cut, List.takeWhile_append_dropWhile]
  · exact List.all_eq_true.mp List.all_takeWhile

theorem mem_of_mem_trimWhile {c : Char} (h : c ∈ trimWhile p t) : c ∈ t := by
  obtain ⟨before, after, whole, -, -⟩ := exists_append_trimWhile p t
  rw [whole]
  exact List.mem_append_right _ (List.mem_append_left _ h)

/-- What stays of the second part stays together with the whole first part. -/
theorem dropEndWhile_append (h : ∃ c ∈ t, p c = false) (s : Text) :
    dropEndWhile p (s ++ t) = s ++ dropEndWhile p t := by
  have stays : (t.reverse.dropWhile p).isEmpty = false := by
    obtain ⟨c, hc, stay⟩ := h
    rw [Bool.eq_false_iff]
    intro gone
    have := List.dropWhile_eq_nil_iff.mp (List.isEmpty_iff.mp gone) c (List.mem_reverse.mpr hc)
    rw [stay] at this
    cases this
  rw [dropEndWhile, List.reverse_append, List.dropWhile_append, stays, if_neg Bool.false_ne_true,
    List.reverse_append, List.reverse_reverse, ← dropEndWhile]

theorem dropEndWhile_append_of_forall {s : Text} (h : ∀ c ∈ s, p c = true) (t : Text) :
    dropEndWhile p (t ++ s) = dropEndWhile p t := by
  rw [dropEndWhile, List.reverse_append,
    List.dropWhile_append_of_pos fun c hc => h c (List.mem_reverse.mp hc), ← dropEndWhile]

/-- It does not matter at which end trimming begins. -/
theorem trimWhile_eq_dropWhile_dropEndWhile (p : Char → Bool) (t : Text) :
    trimWhile p t = (dropEndWhile p t).dropWhile p := by
  have front := List.takeWhile_append_dropWhile (p := p) (l := t)
  have before : ∀ c ∈ t.takeWhile p, p c = true := List.all_eq_true.mp List.all_takeWhile
  cases inner : t.dropWhile p with
  | nil =>
      rw [inner, List.append_nil] at front
      have gone : dropEndWhile p t = [] := by
        rw [← front, ← List.nil_append (t.takeWhile p), dropEndWhile_append_of_forall before]
        rfl
      rw [trimWhile, inner, gone]
      rfl
  | cons c rest =>
      have first : p c = false := head?_dropWhile p t c (by rw [inner]; rfl)
      rw [inner] at front
      have stays : ∀ d ∈ (dropEndWhile p (c :: rest)).head?, p d = false := by
        obtain ⟨cut, whole, gone⟩ := exists_dropEndWhile_append p (c :: rest)
        generalize dropEndWhile p (c :: rest) = left at whole
        cases left with
        | nil =>
            rw [List.nil_append] at whole
            have := gone c (whole ▸ List.mem_cons_self)
            simp [first] at this
        | cons d left =>
            rw [List.cons_append] at whole
            rw [(List.cons.inj whole).1] at first
            simpa using first
      have behind : dropEndWhile p t = t.takeWhile p ++ dropEndWhile p (c :: rest) := by
        rw [← dropEndWhile_append ⟨c, List.mem_cons_self, first⟩, front]
      rw [trimWhile, inner, behind, List.dropWhile_append_of_pos before, dropWhile_eq_self stays]

/-- What is left begins and ends with what is to stay. -/
theorem head?_trimWhile (p : Char → Bool) (t : Text) :
    ∀ c ∈ (trimWhile p t).head?, p c = false := by
  rw [trimWhile_eq_dropWhile_dropEndWhile]
  exact head?_dropWhile p _

theorem getLast?_trimWhile (p : Char → Bool) (t : Text) :
    ∀ c ∈ (trimWhile p t).getLast?, p c = false :=
  getLast?_dropEndWhile p _

theorem trimWhile_trimWhile (p : Char → Bool) (t : Text) :
    trimWhile p (trimWhile p t) = trimWhile p t :=
  trimWhile_eq_self_of_ends (head?_trimWhile p t) (getLast?_trimWhile p t)

theorem trimWhile_append_left {before : Text} (h : ∀ c ∈ before, p c = true) (t : Text) :
    trimWhile p (before ++ t) = trimWhile p t := by
  rw [trimWhile, List.dropWhile_append_of_pos h, ← trimWhile]

theorem trimWhile_append_right {after : Text} (h : ∀ c ∈ after, p c = true) (t : Text) :
    trimWhile p (t ++ after) = trimWhile p t := by
  rw [trimWhile_eq_dropWhile_dropEndWhile, dropEndWhile_append_of_forall h,
    ← trimWhile_eq_dropWhile_dropEndWhile]

/-- Trimming cuts off whatever satisfies `p` around a text. -/
theorem trimWhile_append_of_forall {before after : Text} (hb : ∀ c ∈ before, p c = true)
    (ha : ∀ c ∈ after, p c = true) (t : Text) :
    trimWhile p (before ++ (t ++ after)) = trimWhile p t :=
  (trimWhile_append_left hb _).trans (trimWhile_append_right ha t)

end LineBasic.Text
