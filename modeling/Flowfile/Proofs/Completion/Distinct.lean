import Flowfile.Completion

/-! Suggestions without repetitions. Of each value the first suggestion is kept, so a choice among
the values can be made before or after that. -/

namespace Flowfile.Completion

theorem value_notMem_of_mem_firsts {seen : List Text} {suggestions : List Suggestion}
    {suggestion : Suggestion} (member : suggestion ∈ firsts seen suggestions) :
    suggestion.value ∉ seen := by
  induction suggestions generalizing seen with
  | nil => cases member
  | cons first rest ih =>
      rw [firsts] at member
      split at member
      · exact ih member
      · rename_i fresh
        rcases List.mem_cons.mp member with rfl | later
        · simpa using fresh
        · exact fun earlier => ih later (List.mem_cons_of_mem _ earlier)

/-- A choice by value commutes with leaving out repetitions. Values that are not chosen may be taken
for repetitions or not. -/
theorem firsts_filter (keeps : Text → Bool) (suggestions : List Suggestion)
    {seen seen' : List Text} (same : ∀ value, keeps value = true → (value ∈ seen ↔ value ∈ seen')) :
    firsts seen (suggestions.filter fun suggestion => keeps suggestion.value) =
      (firsts seen' suggestions).filter fun suggestion => keeps suggestion.value := by
  induction suggestions generalizing seen seen' with
  | nil => rfl
  | cons first rest ih =>
      rw [firsts]
      by_cases kept : keeps first.value = true
      · have known : seen.contains first.value = seen'.contains first.value := by
          rw [Bool.eq_iff_iff, List.contains_iff_mem, List.contains_iff_mem]
          exact same first.value kept
        rw [List.filter_cons, if_pos kept, firsts, known]
        split
        · exact ih same
        · rw [List.filter_cons, if_pos kept]
          congr 1
          refine ih fun value chosen => ?_
          rw [List.mem_cons, List.mem_cons, same value chosen]
      · rw [List.filter_cons, if_neg kept]
        split
        · exact ih same
        · rw [List.filter_cons, if_neg kept]
          refine ih fun value chosen => ?_
          rw [List.mem_cons, same value chosen]
          refine ⟨.inr, fun earlier => earlier.resolve_left ?_⟩
          rintro rfl
          exact kept chosen

theorem firsts_cons (first : Suggestion) (rest : List Suggestion) :
    firsts [] (first :: rest) =
      first :: firsts [] (rest.filter fun suggestion => !suggestion.value == first.value) := by
  have fresh : firsts [first.value] rest =
      (firsts [first.value] rest).filter fun suggestion => !suggestion.value == first.value := by
    refine (List.filter_eq_self.mpr fun suggestion member => ?_).symm
    simpa using value_notMem_of_mem_firsts member
  rw [firsts, if_neg (by simp), fresh]
  congr 1
  refine (firsts_filter (fun value => !value == first.value) rest fun value other => ?_).symm
  simpa using other

theorem others_induction {P : List Suggestion → Prop} (nil : P [])
    (cons : ∀ first rest, P (rest.filter fun suggestion => !suggestion.value == first.value) →
      P (first :: rest)) (suggestions : List Suggestion) : P suggestions := by
  induction size : suggestions.length using Nat.strongRecOn generalizing suggestions with
  | ind total ih =>
      cases suggestions with
      | nil => exact nil
      | cons first rest =>
          refine cons first rest (ih _ ?_ _ rfl)
          rw [← size, List.length_cons]
          exact Nat.lt_succ_of_le (List.length_filter_le ..)

theorem firsts_eq (suggestions : List Suggestion) :
    firsts [] suggestions =
      suggestions.eraseDupsBy fun later earlier => later.value == earlier.value := by
  induction suggestions using others_induction with
  | nil => rfl
  | cons first rest ih =>
      rw [firsts_cons, List.eraseDupsBy_cons, ih]
      simp only [Bool.decide_eq_false]

theorem map_value_firsts (suggestions : List Suggestion) :
    (firsts [] suggestions).map Suggestion.value =
      (suggestions.map Suggestion.value).eraseDups := by
  induction suggestions using others_induction with
  | nil => rfl
  | cons first rest ih =>
      rw [firsts_cons, List.map_cons, List.map_cons, List.eraseDups_cons, ih, List.filter_map]
      rfl

theorem narrowed_sublist {offer offer' : Offer} (same : offer'.suggestions = offer.suggestions)
    (longer : offer.typed <+: offer'.typed) : offer'.narrowed.Sublist offer.narrowed := by
  have keeps (value : Text) (goes : offer'.typed.isPrefixOf value = true) :
      offer.typed.isPrefixOf value = true := by
    rw [List.isPrefixOf_iff_prefix] at goes ⊢
    exact longer.trans goes
  rw [Offer.narrowed, Offer.narrowed, same, firsts_filter offer.typed.isPrefixOf _ fun _ _ => .rfl,
    firsts_filter offer'.typed.isPrefixOf _ fun _ _ => .rfl]
  have twice : (firsts [] offer.suggestions).filter
        (fun suggestion => offer'.typed.isPrefixOf suggestion.value) =
      ((firsts [] offer.suggestions).filter
        fun suggestion => offer.typed.isPrefixOf suggestion.value).filter
          fun suggestion => offer'.typed.isPrefixOf suggestion.value := by
    rw [List.filter_filter]
    refine List.filter_congr fun suggestion _ => ?_
    rw [Bool.eq_iff_iff, Bool.and_eq_true]
    exact ⟨fun goes => ⟨goes, keeps _ goes⟩, And.left⟩
  rw [twice]
  exact List.filter_sublist

end Flowfile.Completion
