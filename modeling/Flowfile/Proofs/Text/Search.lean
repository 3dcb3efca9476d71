import Flowfile.Text.Basic

/-! The first place at which a text contains another one. -/

namespace Flowfile.Text

theorem search?_of_prefix {word text : Text} {position : Nat}
    (stands : word <+: text.drop position) :
    ∃ first ≤ position, search? word text = some first ∧ word <+: text.drop first ∧
      ∀ earlier < first, ¬word <+: text.drop earlier := by
  induction text generalizing position with
  | nil =>
      rw [List.drop_nil, List.prefix_nil] at stands
      subst stands
      exact ⟨0, Nat.zero_le _, rfl, List.prefix_refl _,
        fun _ less => absurd less (Nat.not_lt_zero _)⟩
  | cons c rest ih =>
      by_cases here : word <+: c :: rest
      · refine ⟨0, Nat.zero_le _, ?_, here, fun _ less => absurd less (Nat.not_lt_zero _)⟩
        rw [search?, if_pos (List.isPrefixOf_iff_prefix.mpr here)]
      · cases position with
        | zero => exact absurd stands here
        | succ position =>
            obtain ⟨first, before, found, reads, least⟩ := ih stands
            refine ⟨first + 1, Nat.succ_le_succ before, ?_, reads, fun earlier less => ?_⟩
            · rw [search?, if_neg (fun same => here (List.isPrefixOf_iff_prefix.mp same)), found]
              rfl
            · cases earlier with
              | zero => exact here
              | succ earlier => exact least earlier (Nat.lt_of_succ_lt_succ less)

section

variable {word text : Text}

theorem search?_here {c : Char} {rest : Text} (stands : word <+: c :: rest) :
    search? word (c :: rest) = some 0 := by
  rw [search?, if_pos (List.isPrefixOf_iff_prefix.mpr stands)]

theorem search?_later {c : Char} {rest : Text} (apart : ¬word <+: c :: rest) :
    search? word (c :: rest) = (search? word rest).map (· + 1) := by
  rw [search?, if_neg fun same => apart (List.isPrefixOf_iff_prefix.mp same)]

theorem hasInfix_iff : hasInfix word text = true ↔ word <:+: text := by
  induction text with
  | nil =>
      rw [hasInfix, search?, List.infix_nil]
      cases word <;> simp
  | cons c rest ih =>
      rw [List.infix_cons_iff, ← ih]
      by_cases here : word <+: c :: rest
      · simp [hasInfix, search?_here here, here]
      · simp [hasInfix, search?_later here, here]

theorem hasInfix_eq_false : hasInfix word text = false ↔ ¬word <:+: text := by
  rw [← hasInfix_iff, Bool.not_eq_true]

theorem search?_eq_some {position : Nat} (found : search? word text = some position) :
    ∃ before after, text = before ++ (word ++ after) ∧ before.length = position ∧
      (word ≠ [] → ¬word <:+: before) := by
  induction text generalizing position with
  | nil =>
      cases word with
      | nil => exact ⟨[], [], rfl, Option.some.inj found, fun nonempty => absurd rfl nonempty⟩
      | cons => cases found
  | cons c rest ih =>
      by_cases here : word <+: c :: rest
      · rw [search?_here here] at found
        obtain ⟨after, same⟩ := here
        refine ⟨[], after, same.symm, Option.some.inj found, fun nonempty inside => ?_⟩
        exact nonempty (List.infix_nil.mp inside)
      · rw [search?_later here] at found
        obtain ⟨later, inner, rfl⟩ := Option.map_eq_some_iff.mp found
        obtain ⟨before, after, rfl, rfl, apart⟩ := ih inner
        refine ⟨c :: before, after, rfl, rfl, fun nonempty inside => ?_⟩
        rcases List.infix_cons_iff.mp inside with leads | inside
        · exact here (leads.trans ⟨word ++ after, rfl⟩)
        · exact apart nonempty inside

theorem search?_append {position : Nat} (found : search? word text = some position)
    (more : Text) : search? word (text ++ more) = some position := by
  induction text generalizing position with
  | nil =>
      cases word with
      | nil =>
          cases found
          cases more <;> rfl
      | cons => cases found
  | cons c rest ih =>
      by_cases here : word <+: c :: rest
      · rw [search?_here here] at found
        cases found
        exact search?_here (here.trans (List.prefix_append _ more))
      · rw [search?_later here] at found
        obtain ⟨later, inner, rfl⟩ := Option.map_eq_some_iff.mp found
        have apart : ¬word <+: c :: (rest ++ more) := by
          intro longer
          obtain ⟨before, after, same, -, -⟩ := search?_eq_some inner
          have short : word.length ≤ (c :: rest).length := by
            simp only [same, List.length_cons, List.length_append]
            omega
          exact here (List.prefix_of_prefix_length_le longer
            (List.prefix_append (c :: rest) more) short)
        rw [List.cons_append, search?_later apart, ih inner]
        rfl

end

end Flowfile.Text
