import Flowfile.Proofs.Completion.Exact
import Flowfile.Proofs.Text.Line
import Flowfile.Proofs.Tree.Landing
import Flowfile.Proofs.Tree.Unique

/-! Moving on to the right inside a token. The place stays the same, more of the token counts as
typed, and so some of the suggestions go. -/

namespace Flowfile

namespace Completion

section

variable {document : Document} {r : Resolution} {location : Location} {offset offset' : Nat}
  {offer : Offer} (order : offset ≤ offset')

include order

theorem onKey_sublist (found : onKey document r offset location = .ok offer) :
    ∃ later, onKey document r offset' location = .ok later ∧
      later.narrowed.Sublist offer.narrowed := by
  obtain ⟨fields, known, found⟩ := (bind_eq_ok _ _ _).mp found
  rw [onKey, known, ok_bind]
  split at found
  · cases found
    exact ⟨_, rfl, narrowed_sublist rfl (Text.slice_prefix _ _ (by omega))⟩
  · cases found
    exact ⟨_, rfl, List.Sublist.refl _⟩

theorem onValue_sublist (found : onValue document r offset location = .ok offer) :
    ∃ later, onValue document r offset' location = .ok later ∧
      later.narrowed.Sublist offer.narrowed := by
  rw [onValue] at found ⊢
  split at found
  · obtain ⟨options, given, found⟩ := (bind_eq_ok _ _ _).mp found
    cases found
    dsimp only
    rw [given]
    refine ⟨_, rfl, narrowed_sublist rfl ?_⟩
    dsimp only [Offer.without]
    split
    · exact (Text.slice_prefix _ _ order).drop 1
    · exact Text.slice_prefix _ _ order
  · exact ⟨offer, found, List.Sublist.refl _⟩

theorem offerAt_sublist
    (token : (locate document.root document.text offset).region ≠ .empty)
    (same : locate document.root document.text offset =
      locate document.root document.text offset')
    (found : offerAt document r offset = .ok offer) :
    ∃ later, offerAt document r offset' = .ok later ∧ later.narrowed.Sublist offer.narrowed := by
  rw [offerAt] at found ⊢
  rw [← same]
  split at found
  · exact onKey_sublist order found
  · exact onValue_sublist order found
  · exact absurd ‹_› token

end

end Completion

namespace Document

open Completion

theorem holds_iff {document : Document} {offset : Int} :
    document.holds offset = true ↔ 0 ≤ offset ∧ offset ≤ document.text.length := by
  simp [holds]

section

variable {document : Document} {offset offset' : Int} {id : Nat} (order : offset ≤ offset')
  (here : (locate document.root document.text offset).node.map Node.id = some id)
  (here' : (locate document.root document.text offset').node.map Node.id = some id)
  (region : (locate document.root document.text offset).region =
    (locate document.root document.text offset').region)
  (token : (locate document.root document.text offset).region ≠ .empty)

include here here' region in
theorem locate_same (once : ∀ root, document.root = some root → root.ids.Nodup) :
    locate document.root document.text offset = locate document.root document.text offset' := by
  cases held : document.root with
  | none => rfl
  | some root =>
      rw [held] at here here' region
      exact Location.locate_unique (once root held) here here' region

include order here here' region token

theorem complete_sublist (once : ∀ root, document.root = some root → root.ids.Nodup)
    (after : 0 ≤ offset) {contexts : ContextSource} {first : List Suggestion}
    (completed : document.complete contexts offset = .ok first) :
    ∃ later, document.complete contexts offset' = .ok later ∧ later.Sublist first := by
  by_cases inside' : document.holds offset' = true
  · have inside : document.holds offset = true :=
      holds_iff.mpr ⟨after, order.trans (holds_iff.mp inside').2⟩
    have same := locate_same here here' region once
    rw [complete, if_pos inside] at completed
    obtain ⟨offer, found, rfl⟩ := (map_eq_ok_iff _ _ _).mp completed
    rw [← Int.toNat_of_nonneg after] at same token
    rw [← Int.toNat_of_nonneg (after.trans order)] at same
    obtain ⟨later, found', fewer⟩ := offerAt_sublist (by omega) token same found
    refine ⟨later.narrowed, ?_, fewer⟩
    rw [complete, if_pos inside', found']
    rfl
  · rw [complete, if_neg inside']
    exact ⟨[], rfl, List.nil_sublist _⟩

end

/-- Of two offsets on one token, the later one has some of the suggestions of the earlier one, in
the same order. The offsets before the text are on its first token, but have no suggestions. -/
theorem complete_sublist_iff {document : Document}
    (once : ∀ root, document.root = some root → root.ids.Nodup) (contexts : ContextSource)
    {offset offset' : Int} (order : offset ≤ offset') {id : Nat}
    (here : (locate document.root document.text offset).node.map Node.id = some id)
    (here' : (locate document.root document.text offset').node.map Node.id = some id)
    (region : (locate document.root document.text offset).region =
      (locate document.root document.text offset').region)
    (token : (locate document.root document.text offset).region ≠ .empty) :
    (0 ≤ offset → ∀ first, document.complete contexts offset = .ok first →
      ∃ later, document.complete contexts offset' = .ok later) ∧
    ∀ first later, document.complete contexts offset = .ok first →
      document.complete contexts offset' = .ok later →
        (later.Sublist first ↔ 0 ≤ offset ∨ later = []) := by
  refine ⟨fun after first completed => ?_, fun first later completed completed' => ⟨?_, ?_⟩⟩
  · obtain ⟨later, completed', -⟩ :=
      complete_sublist order here here' region token once after completed
    exact ⟨later, completed'⟩
  · intro fewer
    by_cases after : 0 ≤ offset
    · exact .inl after
    · rw [complete, if_neg fun inside => after (holds_iff.mp inside).1] at completed
      cases completed
      exact .inr (List.sublist_nil.mp fewer)
  · rintro (after | rfl)
    · obtain ⟨later', same, fewer⟩ :=
        complete_sublist order here here' region token once after completed
      cases completed'.symm.trans same
      exact fewer
    · exact List.nil_sublist _

/-- The end of a key with one letter more of it. -/
theorem complete_sublist_iff_key :
    ∃ document first later, declaring ["on", "off"] "on: x" = .ok document ∧
      document.complete (.fixed .undefined []) 1 = .ok first ∧
      document.complete (.fixed .undefined []) 2 = .ok later ∧
      first.map Suggestion.value = [Text.of "on", Text.of "off"] ∧
      later.map Suggestion.value = [Text.of "on"] ∧ later.Sublist first := by
  obtain ⟨document, read, facts⟩ := exists_ok_of_any
    (declaring ["on", "off"] "on: x") (fun document =>
      let place (offset : Int) := locate document.root document.text offset
      decide ((place 1).node.map Node.id = some 4 ∧ (place 2).node.map Node.id = some 4 ∧
        (place 1).region = .key ∧ (place 2).region = .key ∧
        (document.complete (.fixed .undefined []) 1).toOption.any (fun first =>
          decide (first.map Suggestion.value = [Text.of "on", Text.of "off"])) = true ∧
        (document.complete (.fixed .undefined []) 2).toOption.any (fun later =>
          decide (later.map Suggestion.value = [Text.of "on"])) = true))
    (by decide +kernel)
  obtain ⟨here, here', region, region', earlier, after⟩ := of_decide_eq_true facts
  obtain ⟨first, completed, both⟩ := exists_ok_of_any _ _ earlier
  obtain ⟨later, completed', one⟩ := exists_ok_of_any _ _ after
  have same : (locate document.root document.text 1).region =
      (locate document.root document.text 2).region := region.trans region'.symm
  have token : (locate document.root document.text 1).region ≠ .empty := by
    rw [region]
    decide
  have once (root : Node) (held : document.root = some root) := (read_unique read held).2
  have narrows := complete_sublist_iff once (.fixed .undefined []) (by decide) here here' same token
  exact ⟨document, first, later, read, completed, completed', of_decide_eq_true both,
    of_decide_eq_true one, (narrows.2 first later completed completed').mpr (.inl (by decide))⟩

/-- Before the text the cursor is on the first token, but nothing is suggested there. -/
theorem complete_before_text :
    ∃ document first later, declaring ["on", "off"] "on: x" = .ok document ∧
      (∃ key, (locate document.root document.text (-1)).node = some key ∧
        (locate document.root document.text 0).node = some key ∧ key.kindName = "scalar") ∧
      (locate document.root document.text (-1)).region = .key ∧
      (locate document.root document.text 0).region = .key ∧
      document.complete (.fixed .undefined []) (-1) = .ok first ∧
      document.complete (.fixed .undefined []) 0 = .ok later ∧ ¬later.Sublist first := by
  obtain ⟨document, read, facts⟩ := exists_ok_of_any
    (declaring ["on", "off"] "on: x") (fun document =>
      decide ((locate document.root document.text 0).node.map Node.kindName = some "scalar" ∧
        (locate document.root document.text 0).region = .key ∧
        (document.complete (.fixed .undefined []) (-1)).toOption = some [] ∧
        (document.complete (.fixed .undefined []) 0).toOption.any (fun later =>
          decide (later ≠ [])) = true)) (by decide +kernel)
  obtain ⟨kind, region, nothing, more⟩ := of_decide_eq_true facts
  obtain ⟨key, here, scalar⟩ := Option.map_eq_some_iff.mp kind
  obtain ⟨later, completed, filled⟩ := exists_ok_of_any _ _ more
  have same : locate document.root document.text (-1) = locate document.root document.text 0 := by
    cases document.root <;> rfl
  exact ⟨document, [], later, read, ⟨key, same ▸ here, here, scalar⟩, same ▸ region, region,
    (toOption_eq_some_iff _ _).mp nothing, completed,
    fun fewer => of_decide_eq_true filled (List.sublist_nil.mp fewer)⟩

end Document

end Flowfile
