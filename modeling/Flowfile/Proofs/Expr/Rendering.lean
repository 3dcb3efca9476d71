import Flowfile.Proofs.Expr.Scanning

/-! Texts with the values of their expressions put in place.

A rendering goes through a text once. Where a closed expression starts it shows the value of it, in
the rest of the expression nothing, and everywhere else what stands there. Evaluating a text gives
its rendering, unless the text is one expression between white space. -/

namespace Flowfile

instance : LawfulMonad Traced := LawfulMonad.mk' Traced
  (fun ⟨asked, result⟩ => by
    cases result <;> simp [Functor.map, Traced.bind, Traced.pure])
  (fun _ _ => by simp [bind, pure, Traced.bind, Traced.pure])
  (fun ⟨asked, result⟩ next last => by
    cases result with
    | error e => rfl
    | ok a =>
        simp only [bind, Traced.bind]
        cases (next a).result <;> simp)

theorem discard_eq_bind {α : Type} (outcome : Traced α) :
    discard outcome = outcome >>= fun _ => pure () := by
  rw [discard, LawfulFunctor.map_const, Function.comp_apply, map_eq_pure_bind]

def Span.covers (span : Span) (position : Nat) : Bool :=
  span.start ≤ position && position < span.stop

theorem Span.covers_iff {span : Span} {position : Nat} :
    span.covers position = true ↔ span.start ≤ position ∧ position < span.stop := by
  rw [covers, Bool.and_eq_true, decide_eq_true_eq, decide_eq_true_eq]

namespace Template

def shownAt (resolve : Resolver) (found : List Span) (position : Nat) (c : Char) : Traced Text :=
  match found.find? (fun span => span.covers position) with
  | none => pure [c]
  | some span =>
    if position = span.start then do return (← Expr.evaluateSource resolve span.source).toText
    else pure []

def renderFrom (resolve : Resolver) (found : List Span) : Nat → Text → Traced Text
  | _, [] => pure []
  | position, c :: rest => do
    let shown ← shownAt resolve found position c
    let after ← renderFrom resolve found (position + 1) rest
    return shown ++ after

/-- The text with each closed expression replaced by the text of its value. -/
def render (resolve : Resolver) (text : Text) : Traced Text :=
  renderFrom resolve (closedSpans text) 0 text

section

variable {resolve : Resolver}

theorem renderFrom_append (found : List Span) (position : Nat) (front back : Text) :
    renderFrom resolve found position (front ++ back) = do
      let shown ← renderFrom resolve found position front
      let after ← renderFrom resolve found (position + front.length) back
      return shown ++ after := by
  induction front generalizing position with
  | nil => simp [renderFrom]
  | cons c front ih =>
      have next : position + 1 + front.length = position + (c :: front).length := by
        rw [List.length_cons]
        omega
      simp only [List.cons_append, renderFrom, ih, next, bind_assoc, pure_bind, List.append_assoc]

theorem renderFrom_congr {found found' : List Span} {position : Nat} {text : Text}
    (same : ∀ place, position ≤ place → place < position + text.length →
      found.find? (fun span => span.covers place) = found'.find? fun span => span.covers place) :
    renderFrom resolve found position text = renderFrom resolve found' position text := by
  induction text generalizing position with
  | nil => rfl
  | cons c rest ih =>
      rw [List.length_cons] at same
      rw [renderFrom, renderFrom, shownAt, shownAt, same position (Nat.le_refl _) (by omega),
        ih fun place low high => same place (by omega) (by omega)]

theorem find?_shift (found : List Span) (distance place : Nat) :
    (found.map (Span.shift distance)).find? (fun span => span.covers (place + distance)) =
      (found.find? fun span => span.covers place).map (Span.shift distance) := by
  rw [List.find?_map]
  simp [Function.comp_def, Span.covers, Span.shift]

theorem renderFrom_shift (found : List Span) (distance position : Nat) (text : Text) :
    renderFrom resolve (found.map (Span.shift distance)) (position + distance) text =
      renderFrom resolve found position text := by
  induction text generalizing position with
  | nil => rfl
  | cons c rest ih =>
      have first : shownAt resolve (found.map (Span.shift distance)) (position + distance) c =
          shownAt resolve found position c := by
        rw [shownAt, shownAt, find?_shift]
        cases found.find? fun span => span.covers position with
        | none => rfl
        | some span => simp [Span.shift]
      rw [renderFrom, renderFrom, first, Nat.add_right_comm, ih]

theorem renderFrom_bare {found : List Span} {position : Nat} {text : Text}
    (bare : ∀ span ∈ found, position + text.length ≤ span.start ∨ span.stop ≤ position) :
    renderFrom resolve found position text = pure text := by
  have nothing : renderFrom resolve found position text =
      renderFrom resolve [] position text := by
    refine renderFrom_congr fun place low high => ?_
    rw [List.find?_nil, List.find?_eq_none]
    intro span member covered
    rw [Span.covers_iff] at covered
    have apart := bare span member
    omega
  rw [nothing]
  clear bare nothing
  induction text generalizing position with
  | nil => rfl
  | cons c rest ih => simp [renderFrom, shownAt, ih]

theorem renderFrom_covered {span : Span} (later : List Span) {c : Char} {rest : Text}
    (length : span.start + (c :: rest).length = span.stop) :
    renderFrom resolve (span :: later) span.start (c :: rest) =
      do return (← Expr.evaluateSource resolve span.source).toText := by
  have covered (place : Nat) (low : span.start ≤ place) (high : place < span.stop) :
      (span :: later).find? (fun span => span.covers place) = some span :=
    List.find?_cons_of_pos (Span.covers_iff.mpr ⟨low, high⟩)
  have silent (position : Nat) (tail : Text) (low : span.start < position)
      (high : position + tail.length ≤ span.stop) :
      renderFrom resolve (span :: later) position tail = pure [] := by
    induction tail generalizing position with
    | nil => rfl
    | cons d tail ih =>
        rw [List.length_cons] at high
        have other : position ≠ span.start := by omega
        simp only [renderFrom, shownAt, covered position (by omega) (by omega), other, if_false,
          pure_bind, List.nil_append]
        rw [ih (position + 1) (by omega) (by omega)]
        rfl
  rw [List.length_cons] at length
  simp only [renderFrom, shownAt, covered span.start (by omega) (by omega), if_true]
  rw [silent (span.start + 1) rest (by omega) (by omega)]
  simp

theorem render_free {text : Text} (free : hasExpression text = false) :
    render resolve text = pure text := by
  rw [render, closedSpans_free free]
  exact renderFrom_bare (by simp)

theorem render_unclosed {before body : Text} (free : hasExpression before = false)
    (missing : closing? false body = none) :
    render resolve (before ++ (opener ++ body)) = pure (before ++ (opener ++ body)) := by
  rw [render, closedSpans_unclosed free missing]
  exact renderFrom_bare (by simp)

theorem render_enclosed {before source after : Text} (free : hasExpression before = false)
    (found : closing? false (source ++ (closer ++ after)) = some source.length) :
    render resolve (before ++ (opener ++ (source ++ (closer ++ after)))) = do
      let value ← Expr.evaluateSource resolve source
      let rest ← render resolve after
      return before ++ value.toText ++ rest := by
  let distance := before.length + source.length + 5
  let first : Span := ⟨before.length, distance, source, true⟩
  let later := (closedSpans after).map (Span.shift distance)
  have front : renderFrom resolve (first :: later) 0 before = pure before := by
    refine renderFrom_bare fun span member => .inl ?_
    rw [List.mem_cons, List.mem_map] at member
    rcases member with rfl | ⟨inner, -, rfl⟩
    · exact Nat.le_of_eq (Nat.zero_add _)
    · simp only [Span.shift, distance]
      omega
  have middle : renderFrom resolve (first :: later) (0 + before.length)
      ('$' :: '\x7b' :: '\x7b' :: (source ++ closer)) =
        do return (← Expr.evaluateSource resolve source).toText := by
    rw [Nat.zero_add]
    refine renderFrom_covered later ?_
    simp only [first, distance, closer, List.length_cons, List.length_append, List.length_nil]
    omega
  have back : renderFrom resolve (first :: later) (0 + distance) after =
      render resolve after := by
    rw [render, ← renderFrom_shift (closedSpans after) distance 0 after]
    refine renderFrom_congr fun place low _ => List.find?_cons_of_neg ?_
    simp only [Span.covers_iff, first]
    omega
  have whole : before ++ (opener ++ (source ++ (closer ++ after))) =
      before ++ ('$' :: '\x7b' :: '\x7b' :: (source ++ closer) ++ after) := by
    simp [opener]
  have length : 0 + before.length + ('$' :: '\x7b' :: '\x7b' :: (source ++ closer)).length =
      0 + distance := by
    simp only [distance, closer, List.length_cons, List.length_append, List.length_nil]
    omega
  rw [render, closedSpans_enclosed free found, whole, renderFrom_append, renderFrom_append, length,
    front, middle, back]
  simp only [bind_assoc, pure_bind, List.append_assoc]

theorem render_append {first second : Text} (closed : ∀ span ∈ spans first, span.closed = true)
    (apart : ¬Straddles first second) :
    render resolve (first ++ second) = do
      let shown ← render resolve first
      let after ← render resolve second
      return shown ++ after := by
  have within (span : Span) (member : span ∈ closedSpans first) : span.stop ≤ first.length :=
    (spans_within (List.mem_filter.mp member).1).2
  have found : closedSpans (first ++ second) =
      closedSpans first ++ (closedSpans second).map (Span.shift first.length) := by
    rw [closedSpans, spans_append closed apart, List.filter_append, List.filter_map]
    rfl
  have front : renderFrom resolve (closedSpans (first ++ second)) 0 first =
      render resolve first := by
    refine renderFrom_congr fun place _ high => ?_
    have beyond : ((closedSpans second).map (Span.shift first.length)).find?
        (fun span => span.covers place) = none := by
      rw [List.find?_eq_none, List.forall_mem_map]
      intro span member
      simp only [Span.covers_iff, Span.shift]
      omega
    rw [found, List.find?_append, beyond, Option.or_none]
  have back : renderFrom resolve (closedSpans (first ++ second)) (0 + first.length) second =
      render resolve second := by
    rw [render, ← renderFrom_shift (closedSpans second) first.length 0 second]
    refine renderFrom_congr fun place low _ => ?_
    have before : (closedSpans first).find? (fun span => span.covers place) = none := by
      rw [List.find?_eq_none]
      intro span member
      have bound := within span member
      rw [Span.covers_iff]
      omega
    rw [found, List.find?_append, before, Option.none_or]
  rw [render, renderFrom_append, front, back]

theorem render_evaluates (text : Text) :
    discard (render resolve text) = forM (closedSpans text) fun span =>
      discard (Expr.evaluateSource resolve span.source) := by
  induction text using front_induction with
  | free text free =>
      rw [render_free free, closedSpans_free free]
      rfl
  | unclosed before body free missing =>
      rw [render_unclosed free missing, closedSpans_unclosed free missing]
      rfl
  | enclosed before source after free found ih =>
      have shifted (distance : Nat) : forM ((closedSpans after).map (Span.shift distance))
          (fun span => discard (Expr.evaluateSource resolve span.source)) =
            discard (render resolve after) := by
        rw [ih, List.forM_map]
        rfl
      rw [render_enclosed free found, closedSpans_enclosed free found, List.forM_cons, shifted]
      simp only [discard_eq_bind, bind_assoc, pure_bind]

theorem splice_shift (passed text : Text) (cursor : Nat) (found : List Span) :
    splice resolve (passed ++ text) (cursor + passed.length)
        (found.map (Span.shift passed.length)) =
      splice resolve text cursor found := by
  induction found generalizing cursor with
  | nil => simp [splice, Nat.add_comm cursor]
  | cons span found ih =>
      have gap : (passed ++ text).slice (cursor + passed.length) (span.start + passed.length) =
          text.slice cursor span.start := by
        rw [Text.slice, Text.slice, Nat.add_sub_add_right, Nat.add_comm cursor,
          List.drop_length_add_append]
      rw [List.map_cons, splice, splice]
      simp only [Span.shift] at ih ⊢
      rw [ih, gap]

/-- Putting the values in place one after the other gives the rendering. -/
theorem splice_eq_render (text : Text) :
    splice resolve text 0 (closedSpans text) = render resolve text := by
  induction text using front_induction with
  | free text free =>
      rw [render_free free, closedSpans_free free]
      rfl
  | unclosed before body free missing =>
      rw [render_unclosed free missing, closedSpans_unclosed free missing]
      rfl
  | enclosed before source after free found ih =>
      let passed := before ++ (opener ++ (source ++ closer))
      have length : passed.length = before.length + source.length + 5 := by
        simp only [passed, opener, closer, List.length_append, List.length_cons, List.length_nil]
        omega
      have whole : before ++ (opener ++ (source ++ (closer ++ after))) = passed ++ after := by
        simp [passed]
      have gap : (passed ++ after).slice 0 before.length = before := by
        rw [← whole, Text.slice, List.drop_zero, Nat.sub_zero, List.take_left]
      have rest : splice resolve (passed ++ after) (0 + passed.length)
          ((closedSpans after).map (Span.shift passed.length)) = render resolve after := by
        rw [splice_shift, ih]
      rw [Nat.zero_add, length] at rest
      rw [render_enclosed free found, closedSpans_enclosed free found, whole, splice, rest, gap]

structure Alone (text : Text) (span : Span) : Prop where
  only : spans text = [span]
  closed : span.closed = true
  before : Text.allBlank (text.take span.start) = true
  after : Text.allBlank (text.drop span.stop) = true

theorem alone_iff {text : Text} {span : Span} :
    Alone text span ↔ closedSpans text = [span] ∧
      Text.allBlank (text.take span.start) = true ∧
        Text.allBlank (text.drop span.stop) = true := by
  constructor
  · rintro ⟨only, closed, before, after⟩
    refine ⟨?_, before, after⟩
    rw [closedSpans, only, List.filter_cons_of_pos closed, List.filter_nil]
  · rintro ⟨single, blankBefore, blankAfter⟩
    cases front text with
    | free free =>
        rw [closedSpans_free free] at single
        cases single
    | unclosed free missing =>
        rw [closedSpans_unclosed free missing] at single
        cases single
    | @enclosed before source after free found =>
        have found' := closedSpans_enclosed free found
        rw [single, List.cons.injEq] at found'
        obtain ⟨rfl, nothing⟩ := found'
        -- White space has no opening delimiter in it.
        have bare : hasExpression after = false := by
          rw [hasExpression_eq_false]
          rintro ⟨front, back, same⟩
          have tail : (before ++ (opener ++ (source ++ (closer ++ after)))).drop
              (before.length + source.length + 5) = after := by
            rw [show before ++ (opener ++ (source ++ (closer ++ after))) =
              (before ++ (opener ++ (source ++ closer))) ++ after by simp]
            refine List.drop_left' ?_
            simp only [opener, closer, List.length_append, List.length_cons, List.length_nil]
            omega
          rw [tail, Text.allBlank, List.all_eq_true] at blankAfter
          have blank := blankAfter '$' (same ▸ by simp [opener])
          exact absurd blank (by decide)
        refine ⟨?_, rfl, blankBefore, blankAfter⟩
        rw [spans_enclosed free found, spans_free bare, List.map_nil]

theorem evaluate_alone {text : Text} {span : Span} (alone : Alone text span) :
    evaluate resolve text = Expr.evaluateSource resolve span.source := by
  obtain ⟨single, before, after⟩ := alone_iff.mp alone
  simp only [evaluate, single, before, after, Bool.and_self, if_true]

theorem evaluate_not_alone {text : Text} (others : ∀ span, ¬Alone text span) :
    evaluate resolve text = do return .str (← render resolve text) := by
  rw [evaluate, splice_eq_render]
  split
  · rename_i span single
    have apart : ¬(Text.allBlank (text.take span.start) &&
        Text.allBlank (text.drop span.stop)) = true := by
      rw [Bool.and_eq_true]
      exact fun blank => others span (alone_iff.mpr ⟨single, blank⟩)
    rw [if_neg apart]
  · rfl

end

theorem straddles_iff {first second : Text} :
    Straddles first second ↔
      (['$'] <:+ first ∧ ['\x7b', '\x7b'] <+: second) ∨
        (['$', '\x7b'] <:+ first ∧ ['\x7b'] <+: second) := by
  constructor
  · rintro ⟨head, tail, whole, nonempty, nonempty', ends, starts⟩
    match head with
    | [] => exact absurd rfl nonempty
    | [c] =>
        cases whole
        exact .inl ⟨ends, starts⟩
    | [c, d] =>
        cases whole
        exact .inr ⟨ends, starts⟩
    | c :: d :: e :: rest =>
        simp only [opener, List.cons_append, List.cons.injEq, List.append_eq_nil_iff] at whole
        exact absurd whole.2.2.2.2 nonempty'
  · rintro (⟨ends, starts⟩ | ⟨ends, starts⟩)
    · exact ⟨['$'], ['\x7b', '\x7b'], rfl, by decide, by decide, ends, starts⟩
    · exact ⟨['$', '\x7b'], ['\x7b'], rfl, by decide, by decide, ends, starts⟩

instance (first second : Text) : Decidable (Straddles first second) :=
  decidable_of_iff _ straddles_iff.symm

/-- Where no delimiter is torn apart, texts are rendered one after the other, and the value of a
text is its rendering unless it is one expression alone. -/
theorem evaluate_composes :
    (∀ first second, (∀ span ∈ spans first, span.closed = true) → ¬Straddles first second →
      spans (first ++ second) = spans first ++ (spans second).map (Span.shift first.length) ∧
        ∀ resolve, render resolve (first ++ second) = do
          let shown ← render resolve first
          let after ← render resolve second
          return shown ++ after) ∧
    (∀ resolve text, discard (render resolve text) = forM (closedSpans text) fun span =>
      discard (Expr.evaluateSource resolve span.source)) ∧
    (∀ resolve text span, Alone text span →
      evaluate resolve text = Expr.evaluateSource resolve span.source) ∧
    (∀ resolve text, (∀ span, ¬Alone text span) →
      evaluate resolve text = do return .str (← render resolve text)) :=
  ⟨fun _ _ closed apart => ⟨spans_append closed apart, fun _ => render_append closed apart⟩,
    fun _ text => render_evaluates text, fun _ _ _ alone => evaluate_alone alone,
    fun _ _ others => evaluate_not_alone others⟩

/-- An opening delimiter right at the boundary, a closing one in a literal, and one expression that
is not closed. -/
theorem evaluate_composes_boundary :
    let first := Text.of "a $\x7b\x7b 'it''s \x7d\x7d' \x7d\x7d $"
    let second := Text.of "$\x7b\x7b 'b' \x7d\x7d$\x7b\x7b c"
    let single := Text.of " $\x7b\x7b 1 \x7d\x7d\n"
    let resolve : Resolver := fun _ => .ok .undefined
    (∀ span ∈ spans first, span.closed = true) ∧ ¬Straddles first second ∧
      spans (first ++ second) = spans first ++ (spans second).map (Span.shift first.length) ∧
      Alone single ⟨1, 9, Text.of " 1 ", true⟩ ∧
      evaluate resolve single = .pure (.int 1) ∧
      (∀ span, ¬Alone (first ++ second) span) ∧
      (evaluate resolve (first ++ second)).result.toOption.map Value.toText =
        some (Text.of "a it's \x7d\x7d $b$\x7b\x7b c") := by
  intro first second single resolve
  have closed : ∀ span ∈ spans first, span.closed = true := by decide
  have apart : ¬Straddles first second := by decide
  have alone : Alone single ⟨1, 9, Text.of " 1 ", true⟩ := by
    refine ⟨by decide, rfl, by decide, by decide⟩
  have others : ∀ span, ¬Alone (first ++ second) span := by
    intro span only
    have several : (spans (first ++ second)).length = 3 := by decide
    rw [only.only] at several
    cases several
  refine ⟨closed, apart, (evaluate_composes.1 first second closed apart).1, alone, ?_, others, ?_⟩
  · rw [evaluate_composes.2.2.1 resolve single _ alone]
    rfl
  · rw [evaluate_composes.2.2.2 resolve _ others]
    decide +kernel

end Template

end Flowfile
