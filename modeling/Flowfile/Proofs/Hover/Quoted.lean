import Flowfile.Hover
import Flowfile.Proofs.Expr.Lexing
import Flowfile.Proofs.Expr.Scanning

/-! The expressions of a scalar in single quotes, as they are found in the source.

The source has every quote twice. The scanner takes two quotes for the beginning and the end of a
literal that holds nothing, so in the source no literal hides a closing delimiter. -/

namespace Flowfile

namespace Grammar

theorem doubled_append (first second : Text) :
    doubled (first ++ second) = doubled first ++ doubled second :=
  List.flatMap_append

theorem doubled_length_pos {text : Text} (nonempty : text ≠ []) : 0 < (doubled text).length := by
  cases text with
  | nil => exact absurd rfl nonempty
  | cons c rest =>
      by_cases quote : c = '\''
      · subst quote
        simp
      · simp [doubled_cons quote]

section

variable {tail : Text} (quotes : ∀ c ∈ tail, c = '\'')

include quotes

/-- A word without quotes stands at the front of a text whose quotes are doubled just where it stood
before, also with quotes behind. -/
theorem prefix_doubled_iff {word : Text} (bare : '\'' ∉ word) (text : Text) :
    word <+: doubled text ++ tail ↔ word <+: text := by
  induction text generalizing word with
  | nil =>
      cases word with
      | nil => simp
      | cons d word =>
          refine iff_of_false (fun leads => bare ?_) (by simp)
          have member : d ∈ tail := leads.subset List.mem_cons_self
          exact quotes d member ▸ List.mem_cons_self
  | cons c text ih =>
      cases word with
      | nil => simp
      | cons d word =>
          rw [List.mem_cons, not_or] at bare
          by_cases quote : c = '\''
          · subst quote
            simp [Ne.symm bare.1]
          · simp [doubled_cons quote, ih bare.2]

theorem infix_of_doubled {word : Text} (bare : '\'' ∉ word) (nonempty : word ≠ []) {text : Text}
    (inside : word <:+: doubled text ++ tail) : word <:+: text := by
  induction text with
  | nil =>
      obtain ⟨d, member⟩ := List.exists_mem_of_ne_nil word nonempty
      have quote := quotes d (inside.subset member)
      exact absurd (quote ▸ member) bare
  | cons c text ih =>
      have leads := prefix_doubled_iff quotes bare (c :: text)
      have apart (rest : Text) : ¬word <+: '\'' :: rest := by
        intro opens
        cases word with
        | nil => exact nonempty rfl
        | cons d word => exact bare ((List.cons_prefix_cons.mp opens).1 ▸ List.mem_cons_self)
      rw [List.infix_cons_iff]
      by_cases quote : c = '\''
      · subst quote
        rw [doubled_quote, List.cons_append, List.cons_append, List.infix_cons_iff,
          List.infix_cons_iff] at inside
        rcases inside with opens | opens | later
        · exact absurd opens (apart _)
        · exact absurd opens (apart _)
        · exact .inr (ih later)
      · rw [doubled_cons quote, List.cons_append] at inside leads
        exact (List.infix_cons_iff.mp inside).imp leads.mp ih

end

end Grammar

namespace Template

open Grammar

theorem closer_leads {c : Char} {rest : Text} :
    closer <+: c :: rest ↔ c = '\x7d' ∧ ['\x7d'] <+: rest := by
  simp [closer, eq_comm]

/-- A literal that was closed is opened again by a further quote, and closed by the next one. -/
theorem closing?_reopened (body : Text) :
    closing? true ('\'' :: (doubled body ++ ['\''])) =
      (closing? false (doubled body ++ ['\''])).map (· + 1) := by
  cases body with
  | nil => rfl
  | cons c body =>
      by_cases quote : c = '\''
      · subst quote
        rw [doubled_quote, List.cons_append, List.cons_append, closing?,
          closing?_outside _ _ (by decide), decide_eq_true rfl, Option.map_map]
        rfl
      · rw [doubled_cons quote, List.cons_append,
          closing?_inside _ _ fun more _ same => quote (List.cons.inj same).1]
        rfl

theorem closing?_doubled (body : Text) :
    closing? false (doubled body ++ ['\'']) =
      (Text.search? closer body).map fun size => (doubled (body.take size)).length := by
  induction body with
  | nil => rfl
  | cons c body ih =>
      by_cases quote : c = '\''
      · subst quote
        have apart : ¬closer <+: '\'' :: body :=
          fun leads => absurd (closer_leads.mp leads).1 (by decide)
        rw [doubled_quote, List.cons_append, List.cons_append, closing?_outside _ _ (by decide),
          decide_eq_true rfl, closing?_reopened, ih, Text.search?_later apart]
        simp only [Option.map_map]
        rfl
      · rw [doubled_cons quote, List.cons_append]
        have braced : ['\x7d'] <+: doubled body ++ ['\''] ↔ ['\x7d'] <+: body :=
          prefix_doubled_iff (by simp) (by decide) body
        by_cases leads : closer <+: c :: body
        · rw [Text.search?_here leads]
          rw [closer_leads, ← braced] at leads
          obtain ⟨rfl, more, same⟩ := leads
          rw [← same]
          rfl
        · have apart (more : Text) (brace : c = '\x7d') : doubled body ++ ['\''] ≠ '\x7d' :: more :=
            fun same => leads (closer_leads.mpr ⟨brace, braced.mp ⟨more, same.symm⟩⟩)
          rw [Text.search?_later leads, closing?.eq_5 c _ apart, decide_eq_false quote, ih,
            Option.map_map, Option.map_map]
          congr 1
          funext size
          rw [Function.comp_apply, Function.comp_apply, List.take_succ_cons, doubled_cons quote,
            List.length_cons]

theorem closing?_inside_pos (body : Text) : closing? true body ≠ some 0 := by
  match body with
  | [] => simp [closing?]
  | c :: rest =>
      rw [closing?.eq_def]
      split <;> simp_all

theorem search?_of_closing? {inString : Bool} {body : Text} {size : Nat}
    (found : closing? inString body = some size) (bare : ¬closer <:+: body.take size) :
    Text.search? closer body = some size := by
  have quoted (rest : Text) : ¬closer <+: '\'' :: rest := fun leads =>
    absurd (closer_leads.mp leads).1 (by decide)
  fun_induction closing? inString body generalizing size with
  | case1 => cases found
  | case2 rest ih =>
      obtain ⟨inner, closes, rfl⟩ := Option.map_eq_some_iff.mp found
      have later := ih closes fun inside => bare (List.infix_cons (List.infix_cons inside))
      rw [Text.search?_later (quoted _), Text.search?_later (quoted _), later]
      rfl
  | case3 c rest single ih =>
      obtain ⟨inner, closes, rfl⟩ := Option.map_eq_some_iff.mp found
      have later := ih closes fun inside => bare (List.infix_cons inside)
      have apart : ¬closer <+: c :: rest := by
        intro leads
        obtain ⟨rfl, more, rfl⟩ := closer_leads.mp leads
        -- The literal goes on behind the delimiter, so that it is part of the source.
        cases inner with
        | zero => exact closing?_inside_pos _ closes
        | succ inner => exact bare ⟨[], more.take inner, by simp [closer]⟩
      rw [Text.search?_later apart, later]
      rfl
  | case4 rest =>
      cases found
      exact Text.search?_here ⟨rest, rfl⟩
  | case5 c rest other ih =>
      obtain ⟨inner, closes, rfl⟩ := Option.map_eq_some_iff.mp found
      have later := ih closes fun inside => bare (List.infix_cons inside)
      have apart : ¬closer <+: c :: rest := by
        intro leads
        obtain ⟨rfl, more, rfl⟩ := closer_leads.mp leads
        exact other more rfl rfl
      rw [Text.search?_later apart, later]
      rfl

end Template

def Span.doubledIn (text : Text) (span : Span) : Span :=
  ⟨(Grammar.doubled (text.take span.start)).length, (Grammar.doubled (text.take span.stop)).length,
    Grammar.doubled span.source, span.closed⟩

def Span.quotedIn (text : Text) (span : Span) : Span := (span.doubledIn text).shift 1

theorem Span.shift_inj {distance : Nat} {span span' : Span}
    (same : span.shift distance = span'.shift distance) : span = span' := by
  obtain ⟨start, stop, source, closed⟩ := span
  obtain ⟨start', stop', source', closed'⟩ := span'
  simpa only [Span.shift, Span.mk.injEq, Nat.add_right_cancel_iff] using same

theorem Span.doubledIn_shift (passed text : Text) (span : Span) :
    (span.shift passed.length).doubledIn (passed ++ text) =
      (span.doubledIn text).shift (Grammar.doubled passed).length := by
  have placed (position : Nat) : (Grammar.doubled ((passed ++ text).take
      (position + passed.length))).length =
        (Grammar.doubled (text.take position)).length + (Grammar.doubled passed).length := by
    rw [Nat.add_comm position, List.take_length_add_append, Grammar.doubled_append,
      List.length_append, Nat.add_comm]
  simp only [Span.shift, Span.doubledIn, placed]

namespace Template

open Grammar

theorem doubled_opened (before body tail : Text) :
    doubled (before ++ (opener ++ body)) ++ tail =
      doubled before ++ (opener ++ (doubled body ++ tail)) := by
  simp only [doubled_append, List.append_assoc]
  rfl

theorem hasExpression_doubled {text tail : Text} (quotes : ∀ c ∈ tail, c = '\'')
    (free : hasExpression text = false) : hasExpression (doubled text ++ tail) = false := by
  rw [hasExpression_eq_false] at free ⊢
  exact fun inside => free (infix_of_doubled quotes (by decide) (by decide) inside)

theorem hasExpression_doubled_bare {text : Text} (free : hasExpression text = false) :
    hasExpression (doubled text) = false := by
  have still : hasExpression (doubled text ++ []) = false := hasExpression_doubled (by simp) free
  rwa [List.append_nil] at still

section

variable {before source after : Text} (free : hasExpression before = false)

include free

theorem closedSpans_doubled_found {body : Text} {size : Nat}
    (first : Text.search? closer body = some size) :
    closedSpans (doubled (before ++ (opener ++ body)) ++ ['\'']) =
      ⟨(doubled before).length, (doubled before).length + (doubled (body.take size)).length + 5,
          doubled (body.take size), true⟩ ::
        (closedSpans (doubled (body.drop (size + 2)) ++ ['\''])).map
          (Span.shift ((doubled before).length + (doubled (body.take size)).length + 5)) := by
  obtain ⟨source, after, rfl, rfl, -⟩ := Text.search?_eq_some first
  have free' := hasExpression_doubled_bare free
  have closing := closing?_doubled (source ++ (closer ++ after))
  rw [first, Option.map_some, List.take_left] at closing
  have whole : doubled (source ++ (closer ++ after)) ++ ['\''] =
      doubled source ++ (closer ++ (doubled after ++ ['\''])) := by
    simp only [doubled_append, List.append_assoc]
    rfl
  rw [whole] at closing
  rw [doubled_opened, whole, closedSpans_enclosed free' closing, List.take_left, drop_enclosed]

theorem map_doubledIn_enclosed
    (found : closing? false (source ++ (closer ++ after)) = some source.length) :
    (closedSpans (before ++ (opener ++ (source ++ (closer ++ after))))).map
        (Span.doubledIn (before ++ (opener ++ (source ++ (closer ++ after))))) =
      ⟨(doubled before).length, (doubled before).length + (doubled source).length + 5,
          doubled source, true⟩ ::
        ((closedSpans after).map (Span.doubledIn after)).map
          (Span.shift ((doubled before).length + (doubled source).length + 5)) := by
  let passed := before ++ (opener ++ (source ++ closer))
  have whole : before ++ (opener ++ (source ++ (closer ++ after))) = passed ++ after := by
    simp [passed]
  have length : passed.length = before.length + source.length + 5 := by
    simp only [passed, opener, closer, List.length_append, List.length_cons, List.length_nil]
    omega
  have stop : (doubled passed).length =
      (doubled before).length + (doubled source).length + 5 := by
    have short : (doubled opener).length = 3 ∧ (doubled closer).length = 2 := ⟨rfl, rfl⟩
    simp only [passed, doubled_append, List.length_append]
    omega
  have first : Span.doubledIn (passed ++ after) ⟨before.length, passed.length, source, true⟩ =
      ⟨(doubled before).length, (doubled passed).length, doubled source, true⟩ := by
    rw [Span.doubledIn, List.take_left, ← whole, List.take_left]
  rw [closedSpans_enclosed free found, whole, ← length, ← stop, List.map_cons, first, List.map_map,
    List.map_map]
  simp only [Function.comp_def, Span.doubledIn_shift]

end

theorem closedSpans_doubled_iff (text : Text) :
    closedSpans (doubled text ++ ['\'']) = (closedSpans text).map (Span.doubledIn text) ↔
      ∀ span ∈ spans text, ¬closer <:+: span.source := by
  induction text using front_induction with
  | free text free =>
      rw [closedSpans_free (hasExpression_doubled (by simp) free), closedSpans_free free,
        spans_free free]
      simp
  | unclosed before body free missing =>
      rw [closedSpans_unclosed free missing, spans_unclosed free missing,
        List.forall_mem_singleton, ← Text.hasInfix_eq_false, Text.hasInfix]
      rcases first : Text.search? closer body with _ | size
      · have missing' := closing?_doubled body
        rw [first] at missing'
        rw [doubled_opened, closedSpans_unclosed (hasExpression_doubled_bare free) missing']
        simp
      · rw [closedSpans_doubled_found free first]
        simp
  | enclosed before source after free found ih =>
      rw [map_doubledIn_enclosed free found, spans_enclosed free found, List.forall_mem_cons,
        List.forall_mem_map]
      by_cases torn : closer <:+: source
      · obtain ⟨size, inner⟩ := Option.isSome_iff_exists.mp (Text.hasInfix_iff.mpr torn)
        have first := Text.search?_append inner (closer ++ after)
        rw [closedSpans_doubled_found free first]
        refine iff_of_false (fun same => ?_) fun bare => bare.1 torn
        -- In the source the first expression stops earlier.
        have shorter : (doubled ((source ++ (closer ++ after)).take size)).length =
            (doubled source).length := by
          have stops := congrArg Span.stop (List.cons.inj same).1
          dsimp only at stops
          omega
        obtain ⟨front, back, rfl, rfl, -⟩ := Text.search?_eq_some inner
        have rest : 0 < (doubled (closer ++ back)).length := doubled_length_pos (by simp [closer])
        simp only [List.append_assoc, List.take_left, doubled_append,
          List.length_append] at shorter rest
        omega
      · have first := search?_of_closing? found (by rwa [List.take_left])
        rw [closedSpans_doubled_found free first, drop_enclosed, List.take_left, List.cons.injEq,
          and_iff_right rfl, and_iff_right torn]
        exact (List.map_inj_right fun _ _ => Span.shift_inj).trans ih

theorem closedSpans_quoted (text : Text) :
    closedSpans (quoted text) =
      (closedSpans (doubled text ++ ['\''])).map (Span.shift 1) := by
  have passed : spans (quoted text) = (spans (doubled text ++ ['\''])).map (Span.shift 1) := by
    rw [spans, quoted, spansFrom, if_neg (by simp [opener]), spansFrom_shift, ← spans]
  rw [closedSpans, passed, List.filter_map]
  rfl

/-- The expressions of a text are found at their places in the quoted text, and the hover tells
them there, just if there is no closing delimiter in one of them. -/
theorem closedSpans_quoted_iff (text : Text) :
    (closedSpans (quoted text) = (closedSpans text).map (Span.quotedIn text) ↔
      ∀ span ∈ spans text, ¬closer <:+: span.source) ∧
    ((∀ span ∈ spans text, ¬closer <:+: span.source) → ∀ offset : Int,
      Hover.onExpression (quoted text) offset =
        (closedSpans text).any fun span => (span.quotedIn text).contains offset) := by
  have agree : closedSpans (quoted text) = (closedSpans text).map (Span.quotedIn text) ↔
      ∀ span ∈ spans text, ¬closer <:+: span.source := by
    have images : (closedSpans text).map (Span.quotedIn text) =
        ((closedSpans text).map (Span.doubledIn text)).map (Span.shift 1) :=
      List.map_map.symm
    rw [closedSpans_quoted, images, ← closedSpans_doubled_iff]
    exact List.map_inj_right fun _ _ => Span.shift_inj
  refine ⟨agree, fun bare offset => ?_⟩
  have told : Hover.onExpression (quoted text) offset =
      (closedSpans (quoted text)).any fun span => span.contains offset := by
    rw [Hover.onExpression, closedSpans, List.any_filter]
  rw [told, agree.mpr bare, List.any_map]
  rfl

/-- A literal with a quote and a brace in it, and a delimiter outside of expressions. -/
theorem closedSpans_quoted_iff_escaped :
    let text := Text.of "a \x7d\x7d $\x7b\x7b 'it''s \x7d' \x7d\x7d"
    (∀ span ∈ spans text, ¬closer <:+: span.source) ∧
      closedSpans (quoted text) = [⟨6, 26, Text.of " ''it''''s \x7d'' ", true⟩] ∧
      Hover.onExpression (quoted text) 26 = true := by
  intro text
  have bare : ∀ span ∈ spans text, ¬closer <:+: span.source := by decide +kernel
  refine ⟨bare, ?_, ?_⟩
  · rw [(closedSpans_quoted_iff text).1.mpr bare]
    decide +kernel
  · rw [(closedSpans_quoted_iff text).2 bare]
    decide +kernel

/-- A closing delimiter in a literal cuts the expression off in the source. -/
theorem closedSpans_quoted_differs :
    let text := Text.of "$\x7b\x7b 'a \x7d\x7d b' \x7d\x7d"
    closedSpans (quoted text) = [⟨1, 11, Text.of " ''a ", true⟩] ∧
      (closedSpans text).map (Span.quotedIn text) =
        [⟨1, 18, Text.of " ''a \x7d\x7d b'' ", true⟩] ∧
      closedSpans (quoted text) ≠ (closedSpans text).map (Span.quotedIn text) ∧
      Hover.onExpression (quoted text) 14 = false := by
  decide +kernel

end Template

end Flowfile
