import Flowfile.Proofs.Expr.Quoting
import Flowfile.Proofs.Text.Search

/-! How a text falls into its embedded expressions and what stands between them.

The front of a text has one of three forms: no expression, one that is never closed, or a closed one
with further text behind it. Properties of the scanner are proved along this division. -/

namespace Flowfile

theorem Span.shift_shift (first second : Nat) (span : Span) :
    (span.shift first).shift second = span.shift (first + second) := by
  simp only [Span.shift, Nat.add_assoc]

namespace Template

theorem hasExpression_eq_false {text : Text} : hasExpression text = false ↔ ¬opener <:+: text :=
  Text.hasInfix_eq_false

theorem closing?_closer {inString : Bool} {body : Text} {size : Nat}
    (found : closing? inString body = some size) : closer <+: body.drop size := by
  fun_induction closing? inString body generalizing size with
  | case1 => cases found
  | case2 rest ih | case3 c rest _ ih | case5 c rest _ ih =>
      obtain ⟨inner, closes, rfl⟩ := Option.map_eq_some_iff.mp found
      exact ih closes
  | case4 rest =>
      cases found
      exact ⟨rest, rfl⟩

theorem closing?_split {inString : Bool} {body : Text} {size : Nat}
    (found : closing? inString body = some size) :
    ∃ source after, body = source ++ (closer ++ after) ∧ source.length = size := by
  obtain ⟨after, whole⟩ := closing?_closer found
  refine ⟨body.take size, after, by rw [whole, List.take_append_drop], ?_⟩
  have room := congrArg List.length whole
  simp only [closer, List.length_append, List.length_cons, List.length_nil,
    List.length_drop] at room
  rw [List.length_take]
  omega

theorem drop_enclosed (source after : Text) :
    (source ++ (closer ++ after)).drop (source.length + 2) = after := by
  rw [List.drop_length_add_append]
  rfl

theorem closing?_append {inString : Bool} {body : Text} {size : Nat}
    (found : closing? inString body = some size) (more : Text) :
    closing? inString (body ++ more) = some size := by
  fun_induction closing? inString body generalizing size with
  | case1 => cases found
  | case2 rest ih =>
      obtain ⟨inner, closes, rfl⟩ := Option.map_eq_some_iff.mp found
      rw [List.cons_append, List.cons_append, closing?, ih closes]
      rfl
  | case3 c rest single ih =>
      obtain ⟨inner, closes, rfl⟩ := Option.map_eq_some_iff.mp found
      have apart : ∀ tail, c = '\'' → rest ++ more ≠ '\'' :: tail := by
        rintro tail rfl same
        cases rest with
        | nil => cases closes
        | cons d rest =>
            cases same
            exact single rest rfl rfl
      rw [List.cons_append, closing?_inside c _ apart, ih closes]
      rfl
  | case4 rest =>
      cases found
      rfl
  | case5 c rest other ih =>
      obtain ⟨inner, closes, rfl⟩ := Option.map_eq_some_iff.mp found
      have apart : ∀ tail, c = '\x7d' → rest ++ more ≠ '\x7d' :: tail := by
        rintro tail rfl same
        cases rest with
        | nil => cases closes
        | cons d rest =>
            cases same
            exact other rest rfl rfl
      rw [List.cons_append, closing?.eq_5 c _ apart, ih closes]
      rfl

inductive Front : Text → Prop
  | free {text : Text} (free : hasExpression text = false) : Front text
  | unclosed {before body : Text} (free : hasExpression before = false)
      (missing : closing? false body = none) : Front (before ++ (opener ++ body))
  | enclosed {before source after : Text} (free : hasExpression before = false)
      (found : closing? false (source ++ (closer ++ after)) = some source.length) :
      Front (before ++ (opener ++ (source ++ (closer ++ after))))

theorem front (text : Text) : Front text := by
  rcases search : Text.search? opener text with _ | position
  · exact .free (by rw [hasExpression, Text.hasInfix, search]; rfl)
  obtain ⟨before, body, rfl, -, apart⟩ := Text.search?_eq_some search
  have free : hasExpression before = false := hasExpression_eq_false.mpr (apart (by decide))
  rcases closing : closing? false body with _ | size
  · exact .unclosed free closing
  obtain ⟨source, after, rfl, length⟩ := closing?_split closing
  exact .enclosed free (by rw [closing, length])

/-- A property of texts may be assumed of what stands behind a closed expression. -/
@[elab_as_elim]
theorem front_induction {P : Text → Prop}
    (free : ∀ text, hasExpression text = false → P text)
    (unclosed : ∀ before body, hasExpression before = false → closing? false body = none →
      P (before ++ (opener ++ body)))
    (enclosed : ∀ before source after, hasExpression before = false →
      closing? false (source ++ (closer ++ after)) = some source.length → P after →
        P (before ++ (opener ++ (source ++ (closer ++ after))))) (text : Text) : P text := by
  induction size : text.length using Nat.strongRecOn generalizing text with
  | ind size ih =>
      cases front text with
      | free absent => exact free _ absent
      | unclosed absent missing => exact unclosed _ _ absent missing
      | enclosed absent found =>
          refine enclosed _ _ _ absent found (ih _ ?_ _ rfl)
          simp only [opener, closer, List.length_append, List.length_cons] at size
          omega

theorem spansFrom_clear {rest : Text} (position : Nat) (front : Text)
    (clear : ∀ tail, tail ≠ [] → tail <:+ front → ¬opener <+: tail ++ rest) :
    spansFrom position 0 (front ++ rest) = spansFrom (position + front.length) 0 rest := by
  induction front generalizing position with
  | nil => rfl
  | cons c front ih =>
      have here : ¬opener.isPrefixOf (c :: (front ++ rest)) = true := fun opens =>
        clear (c :: front) (List.cons_ne_nil _ _) (List.suffix_refl _)
          (List.isPrefixOf_iff_prefix.mp opens)
      rw [List.cons_append, spansFrom, if_neg here, ih, List.length_cons, Nat.add_assoc,
        Nat.add_comm 1]
      exact fun tail nonempty last => clear tail nonempty (last.trans (List.suffix_cons c front))

theorem spans_clear {front rest : Text}
    (clear : ∀ tail, tail ≠ [] → tail <:+ front → ¬opener <+: tail ++ rest) :
    spans (front ++ rest) = (spans rest).map (Span.shift front.length) := by
  rw [spans, spansFrom_clear 0 front clear, spansFrom_shift, ← spans]

theorem spans_free {text : Text} (free : hasExpression text = false) : spans text = [] := by
  have clear (tail : Text) (_ : tail ≠ []) (last : tail <:+ text) : ¬opener <+: tail ++ [] := by
    rw [List.append_nil]
    exact fun opens => hasExpression_eq_false.mp free (opens.isInfix.trans last.isInfix)
  have nothing := spans_clear clear
  rwa [List.append_nil] at nothing

theorem spans_unclosed {before body : Text} (free : hasExpression before = false)
    (missing : closing? false body = none) :
    spans (before ++ (opener ++ body)) =
      [⟨before.length, before.length + 3 + body.length, body, false⟩] := by
  rw [spans, spansFrom_before 0 before body free, Nat.zero_add]
  exact spansFrom_unclosed before.length '$' ('\x7b' :: '\x7b' :: body) rfl missing

theorem closedSpans_free {text : Text} (free : hasExpression text = false) :
    closedSpans text = [] := by
  rw [closedSpans, spans_free free, List.filter_nil]

theorem closedSpans_unclosed {before body : Text} (free : hasExpression before = false)
    (missing : closing? false body = none) : closedSpans (before ++ (opener ++ body)) = [] := by
  rw [closedSpans, spans_unclosed free missing]
  rfl

theorem closedSpans_enclosed {before source after : Text} (free : hasExpression before = false)
    (found : closing? false (source ++ (closer ++ after)) = some source.length) :
    closedSpans (before ++ (opener ++ (source ++ (closer ++ after)))) =
      ⟨before.length, before.length + source.length + 5, source, true⟩ ::
        (closedSpans after).map (Span.shift (before.length + source.length + 5)) := by
  rw [closedSpans, spans_enclosed free found, List.filter_cons_of_pos rfl, List.filter_map]
  rfl

theorem spans_within {text : Text} {span : Span} (member : span ∈ spans text) :
    span.start < span.stop ∧ span.stop ≤ text.length := by
  induction text using front_induction generalizing span with
  | free text free =>
      rw [spans_free free] at member
      cases member
  | unclosed before body free missing =>
      rw [spans_unclosed free missing, List.mem_singleton] at member
      subst member
      simp only [opener, List.length_append, List.length_cons]
      omega
  | enclosed before source after free found ih =>
      rw [spans_enclosed free found, List.mem_cons, List.mem_map] at member
      simp only [opener, closer, List.length_append, List.length_cons]
      rcases member with rfl | ⟨later, present, rfl⟩
      · dsimp only
        omega
      · have within := ih present
        dsimp only [Span.shift]
        omega

/-- An opening delimiter begins in the first text and ends in the second. -/
def Straddles (first second : Text) : Prop :=
  ∃ head tail, head ++ tail = opener ∧ head ≠ [] ∧ tail ≠ [] ∧ head <:+ first ∧ tail <+: second

theorem not_straddles_suffix {first second last : Text} (apart : ¬Straddles first second)
    (suffix : last <:+ first) : ¬Straddles last second := by
  rintro ⟨head, tail, whole, nonempty, nonempty', ends, starts⟩
  exact apart ⟨head, tail, whole, nonempty, nonempty', ends.trans suffix, starts⟩

theorem spans_append {first second : Text} (closed : ∀ span ∈ spans first, span.closed = true)
    (apart : ¬Straddles first second) :
    spans (first ++ second) = spans first ++ (spans second).map (Span.shift first.length) := by
  induction first using front_induction with
  | free text free =>
      rw [spans_free free, List.nil_append]
      refine spans_clear fun tail nonempty last opens => ?_
      obtain ⟨more, whole⟩ := opens
      rcases List.append_eq_append_iff.mp whole with ⟨inside, same, -⟩ | ⟨beyond, same, starts⟩
      · have opens : opener <+: tail := ⟨inside, same.symm⟩
        exact hasExpression_eq_false.mp free (opens.isInfix.trans last.isInfix)
      · by_cases nothing : beyond = []
        · rw [nothing, List.append_nil] at same
          exact hasExpression_eq_false.mp free (same ▸ last.isInfix)
        · exact apart ⟨tail, beyond, same.symm, nonempty, nothing, last, more, starts.symm⟩
  | unclosed before body free missing =>
      have ended := closed _ (by rw [spans_unclosed free missing]; exact List.mem_singleton_self _)
      cases ended
  | enclosed before source after free found ih =>
      have found' : closing? false (source ++ (closer ++ (after ++ second))) =
          some source.length := by
        simpa only [List.append_assoc] using closing?_append found second
      have suffix : after <:+ before ++ (opener ++ (source ++ (closer ++ after))) :=
        ⟨before ++ (opener ++ (source ++ closer)), by simp⟩
      have rest := ih (fun span member => by
        refine closed (span.shift (before.length + source.length + 5)) ?_
        rw [spans_enclosed free found]
        exact List.mem_cons_of_mem _ (List.mem_map_of_mem member))
        (not_straddles_suffix apart suffix)
      have length : after.length + (before.length + source.length + 5) =
          (before ++ (opener ++ (source ++ (closer ++ after)))).length := by
        simp only [opener, closer, List.length_append, List.length_cons, List.length_nil]
        omega
      simp only [List.append_assoc]
      rw [spans_enclosed free found', spans_enclosed free found, rest, List.map_append,
        List.map_map, List.cons_append, ← length]
      simp only [Function.comp_def, Span.shift_shift]

end Template

end Flowfile
