import Flowfile.Proofs.Text.Line
import Flowfile.Recovery

/-! What the repair of a text does: it cuts the text at the start of a line or blanks a line.
Offsets stay, and each repair leaves less to be composed. -/

namespace Flowfile.Recovery

open Text

theorem errorIndex_le (source : Text) (e : Yaml.Error) : errorIndex source e ≤ source.length := by
  rw [errorIndex]
  split <;> exact Nat.min_le_right _ _

inductive Repairs : Text → Text → Prop
  | cut {before rest : Text} (opens : EndsLine before) (less : rest ≠ []) :
      Repairs (before ++ rest) before
  | blank {before line after : Text} (framed : Framed before line after)
      (less : line ≠ List.replicate line.length ' ') :
      Repairs (before ++ line ++ after) (before ++ List.replicate line.length ' ' ++ after)
  | nothing : Repairs [] []

theorem blankLine_framed (before line after : Text) :
    blankLine (before ++ line ++ after) before.length (before.length + line.length) =
      before ++ List.replicate line.length ' ' ++ after := by
  have first : (before ++ line ++ after).take before.length = before := by
    rw [List.append_assoc, List.take_left]
  have last : (before ++ line ++ after).drop (before.length + line.length) = after := by
    rw [← List.length_append, List.drop_left]
  rw [blankLine, first, last, Nat.add_sub_cancel_left]

theorem stripRight_not_break (source text : Text) : stripRight source ≠ text ++ ['\n'] := by
  intro same
  have reversed := congrArg List.reverse same
  rw [stripRight, List.reverse_reverse, List.reverse_append, List.reverse_singleton,
    List.singleton_append] at reversed
  have visible := List.head?_dropWhile_not isBlank source.reverse
  rw [reversed] at visible
  have blank : isBlank '\n' = true := by decide
  exact Bool.false_ne_true (visible.symm.trans blank)

theorem repairs_dropLastLine (source : Text) : Repairs source (dropLastLine source) := by
  have whole : source = stripRight source ++ (source.reverse.takeWhile isBlank).reverse := by
    rw [stripRight, ← List.reverse_append, List.takeWhile_append_dropWhile, List.reverse_reverse]
  obtain ⟨before, line, after, kept, framed, start, -⟩ :=
    framed_at (stripRight source) _ (Nat.le_refl _)
  let rest := line ++ after ++ (source.reverse.takeWhile isBlank).reverse
  have split : source = before ++ rest := by
    rw [whole, kept]
    simp only [rest, List.append_assoc]
  have dropped : dropLastLine source = before := by
    rw [dropLastLine, start]
    conv_lhs => rw [split]
    exact List.take_left
  rw [dropped]
  by_cases less : rest = []
  · obtain ⟨first, -⟩ := List.append_eq_nil_iff.mp less
    have visible : stripRight source = before := by
      rw [kept, List.append_assoc, first, List.append_nil]
    rcases framed.opens with empty | ⟨text, ends⟩
    · rw [split, empty, less]
      exact .nothing
    · exact absurd (visible.trans ends) (stripRight_not_break source text)
  · rw [split]
    exact .cut framed.opens less

/-- A text that would not change loses its last line that is not blank. -/
theorem repairs_unless_same {source next : Text} (step : next ≠ source → Repairs source next) :
    Repairs source (if next = source then dropLastLine source else next) := by
  by_cases same : next = source
  · rw [if_pos same]
    exact repairs_dropLastLine source
  · rw [if_neg same]
    exact step same

theorem repairs_next (r : Attempt) (e : Yaml.Error) : Repairs r.source (r.next e).source := by
  obtain ⟨before, line, after, whole, framed, start, stop, -⟩ :=
    framed_at r.source _ (errorIndex_le r.source e)
  change Repairs r.source (repair r e (lineStart r.source (errorIndex r.source e))
    (lineStop r.source (errorIndex r.source e)))
  rw [start, stop, repair]
  apply repairs_unless_same
  split
  · have cut : r.source.take before.length = before := by
      rw [whole, List.append_assoc, List.take_left]
    rw [cut, whole, List.append_assoc]
    intro changed
    refine .cut framed.opens fun nothing => changed ?_
    rw [nothing, List.append_nil]
  · rw [whole, blankLine_framed]
    intro changed
    refine .blank framed fun same => changed ?_
    rw [← same]

def inked (text : Text) : Nat := text.countP (· ≠ ' ')

/-- The second text is shorter, or as long with fewer characters that are no spaces. -/
def Shrinks (text next : Text) : Prop :=
  next.length < text.length ∨ next.length = text.length ∧ inked next < inked text

theorem shrinks_trans {first second third : Text} (before : Shrinks first second)
    (after : Shrinks second third) : Shrinks first third := by
  simp only [Shrinks] at *
  omega

theorem shrinks_ne {text next : Text} (less : Shrinks text next) : next ≠ text := by
  rintro rfl
  simp only [Shrinks] at less
  omega

theorem inked_blank (line : Text) (different : line ≠ List.replicate line.length ' ') :
    inked (List.replicate line.length ' ') < inked line := by
  have blank : inked (List.replicate line.length ' ') = 0 := by
    simp [inked, List.countP_replicate]
  rw [blank]
  refine Nat.pos_of_ne_zero fun nothing => different (List.eq_replicate_iff.mpr ⟨rfl, ?_⟩)
  intro c member
  simpa using List.countP_eq_zero.mp nothing c member

theorem shrinks_of_repairs {text next : Text} (step : Repairs text next) (more : text ≠ []) :
    Shrinks text next := by
  cases step with
  | @cut before rest opens less =>
      refine .inl ?_
      rw [List.length_append]
      have := List.length_pos_of_ne_nil less
      omega
  | @blank before line after framed less =>
      refine .inr ⟨by simp, ?_⟩
      have fewer := inked_blank line less
      simp only [inked, List.countP_append] at fewer ⊢
      omega
  | nothing => exact absurd rfl more

/-- The text is the beginning of the content, up to the start of a line or as a whole, but that some
lines are blanked. -/
def Kept (content text : Text) : Prop :=
  ∃ rest, Blanked content (text ++ rest) ∧ (rest = [] ∨ EndsLine text)

theorem charOrBlank_of_kept {content text : Text} (kept : Kept content text) :
    List.Forall₂ CharOrBlank (content.take text.length) text := by
  obtain ⟨rest, blanked, -⟩ := kept
  exact List.forall₂_take_append _ _ _ (charOrBlank_of_blanked blanked)

theorem kept_self (content : Text) : Kept content content :=
  ⟨[], by rw [List.append_nil]; exact blanked_refl content, .inl rfl⟩

theorem endsLine_append (head tail : Text) (more : tail ≠ []) :
    EndsLine (head ++ tail) ↔ tail.getLast? = some '\n' := by
  rw [← List.getLast?_append_of_ne_nil head more]
  constructor
  · rintro (empty | ⟨text, same⟩)
    · exact absurd (List.append_eq_nil_iff.mp empty).2 more
    · rw [same, List.getLast?_concat]
  · intro last
    exact .inr ⟨_, (List.dropLast_append_getLast? '\n' last).symm⟩

theorem kept_repairs {content text next : Text} (kept : Kept content text)
    (step : Repairs text next) : Kept content next := by
  obtain ⟨rest, blanked, ends⟩ := kept
  cases step with
  | @cut before tail opens less =>
      exact ⟨tail ++ rest, by rwa [← List.append_assoc], .inr opens⟩
  | @blank before line after framed less =>
      have more : line ≠ [] := fun nothing => less (by rw [nothing]; rfl)
      by_cases last : after = []
      · -- Nothing has been cut off, as a line that is not empty ends the text.
        rcases ends with complete | ends
        · rw [complete, List.append_nil] at blanked
          exact ⟨[], by rw [List.append_nil]; exact blanked_blank framed blanked, .inl rfl⟩
        · rw [last, List.append_nil] at ends
          have break_ := (endsLine_append before line more).mp ends
          exact absurd (List.mem_of_getLast? break_) framed.unbroken
      · rcases framed.closes with bare | ⟨text, below⟩
        · exact absurd bare last
        · have extended : Framed before line (after ++ rest) :=
            ⟨framed.unbroken, framed.opens, .inr ⟨text ++ rest, by rw [below]; rfl⟩⟩
          refine ⟨rest, ?_, ends.imp_right fun ends => ?_⟩
          · rw [List.append_assoc] at blanked ⊢
            exact blanked_blank extended blanked
          · rw [endsLine_append _ after last] at ends ⊢
            exact ends
  | nothing => exact ⟨rest, blanked, ends⟩

end Flowfile.Recovery
