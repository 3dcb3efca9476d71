import Flowfile.Proofs.Expr.Scanning

/-! The embedded expressions of a text as intervals of it.

They are in order and apart from each other, and between them nothing opens an expression. Each of
them ends at the first closing delimiter outside of string literals; only the last one can be
without one, and takes the rest of the text. -/

namespace Flowfile

namespace Grammar

theorem count_doubled (text : Text) : (doubled text).count '\'' = 2 * text.count '\'' := by
  induction text with
  | nil => rfl
  | cons c text ih =>
      by_cases quote : c = '\''
      · subst quote
        rw [doubled_quote, List.count_cons_self, List.count_cons_self, List.count_cons_self, ih]
        omega
      · rw [doubled_cons quote, List.count_cons_of_ne quote, List.count_cons_of_ne quote, ih]

end Grammar

namespace Template

/-- The text consists of characters that are no quotes and of whole string literals, so that
whatever follows it is outside of literals. -/
inductive Outside : Text → Prop
  | nil : Outside []
  | plain {c : Char} {rest : Text} (other : c ≠ '\'') (later : Outside rest) : Outside (c :: rest)
  | literal (value : Text) {rest : Text} (later : Outside rest) :
      Outside (Grammar.quoted value ++ rest)

def Closes (body : Text) (position : Nat) : Prop :=
  closer <+: body.drop position ∧ Outside (body.take position)

theorem count_of_outside {text : Text} (outside : Outside text) : text.count '\'' % 2 = 0 := by
  induction outside with
  | nil => rfl
  | plain other _ ih => rwa [List.count_cons_of_ne other]
  | literal value _ ih =>
      have inside := Grammar.count_doubled value
      rw [List.count_append, Grammar.quoted, List.count_cons_self, List.count_append,
        List.count_singleton_self]
      omega

/-- Literals without quotes in them are enough, since a quote that is written twice also ends one
literal and begins the next. -/
theorem outside_of_count {text : Text} (even : text.count '\'' % 2 = 0) : Outside text := by
  induction length : text.length using Nat.strongRecOn generalizing text with
  | ind n ih =>
      subst length
      cases text with
      | nil => exact .nil
      | cons c rest =>
          by_cases quote : c = '\''
          · subst quote
            rw [List.count_cons_self] at even
            have member : '\'' ∈ rest := List.count_pos_iff.mp (by omega)
            obtain ⟨value, tail, rfl, bare⟩ := List.eq_append_cons_of_mem member
            have shorter : tail.length < ('\'' :: (value ++ '\'' :: tail)).length := by
              simp only [List.length_cons, List.length_append]
              omega
            rw [List.count_append, List.count_cons_self, List.count_eq_zero.mpr bare] at even
            have later : Outside tail := ih _ shorter (by omega) rfl
            have whole : Grammar.quoted value ++ tail = '\'' :: (value ++ '\'' :: tail) := by
              simp [Grammar.quoted, Grammar.doubled_bare bare]
            rw [← whole]
            exact .literal value later
          · rw [List.count_cons_of_ne quote] at even
            exact .plain quote (ih _ (Nat.lt_succ_self _) even rfl)

theorem outside_iff {text : Text} : Outside text ↔ text.count '\'' % 2 = 0 :=
  ⟨count_of_outside, outside_of_count⟩

/-- The scanner goes no further than a closing delimiter before which the quotes show that it is
outside of literals. -/
theorem closing?_le {inString : Bool} {body : Text} {position : Nat}
    (stands : closer <+: body.drop position)
    (parity : (body.take position).count '\'' % 2 = if inString then 1 else 0) :
    ∃ size ≤ position, closing? inString body = some size := by
  fun_induction closing? inString body generalizing position with
  | case1 => simp [closer] at stands
  | case2 rest ih =>
      rcases position with _ | _ | position
      · simp [closer] at stands
      · simp [closer] at stands
      · rw [List.take_succ_cons, List.take_succ_cons, quotes_cons, quotes_cons] at parity
        obtain ⟨size, less, found⟩ := ih stands (by simpa using parity)
        exact ⟨size + 2, Nat.add_le_add_right less 2, by rw [found]; rfl⟩
  | case3 c rest single ih =>
      cases position with
      | zero => cases parity
      | succ position =>
          rw [List.take_succ_cons, quotes_cons] at parity
          obtain ⟨size, less, found⟩ := ih stands (by simpa using parity)
          exact ⟨size + 1, Nat.succ_le_succ less, by rw [found]; rfl⟩
  | case4 rest => exact ⟨0, Nat.zero_le position, rfl⟩
  | case5 c rest other ih =>
      cases position with
      | zero =>
          obtain ⟨after, whole⟩ := stands
          cases whole
          exact absurd rfl (other after rfl)
      | succ position =>
          rw [List.take_succ_cons, quotes_cons] at parity
          obtain ⟨size, less, found⟩ := ih stands (by simpa using parity)
          exact ⟨size + 1, Nat.succ_le_succ less, by rw [found]; rfl⟩

section

variable {body : Text} {size : Nat}

theorem closes_of_closing? (found : closing? false body = some size) : Closes body size :=
  ⟨closing?_closer found, outside_iff.mpr (closing?_parity false body size found)⟩

theorem closing?_of_closes (closes : Closes body size) :
    ∃ first ≤ size, closing? false body = some first :=
  closing?_le closes.1 (outside_iff.mp closes.2)

theorem closing?_eq_none_iff : closing? false body = none ↔ ∀ position, ¬Closes body position := by
  constructor
  · intro missing position closes
    obtain ⟨first, -, found⟩ := closing?_of_closes closes
    rw [missing] at found
    cases found
  · intro never
    cases found : closing? false body with
    | none => rfl
    | some first => exact absurd (closes_of_closing? found) (never first)

theorem closing?_eq_some_iff : closing? false body = some size ↔
    Closes body size ∧ ∀ earlier < size, ¬Closes body earlier := by
  constructor
  · intro found
    refine ⟨closes_of_closing? found, fun earlier less closes => ?_⟩
    obtain ⟨first, least, found'⟩ := closing?_of_closes closes
    rw [found, Option.some.injEq] at found'
    omega
  · rintro ⟨closes, least⟩
    obtain ⟨first, bound, found⟩ := closing?_of_closes closes
    rcases Nat.lt_or_eq_of_le bound with less | rfl
    · exact absurd (closes_of_closing? found) (least first less)
    · exact found

end

inductive Stands : Text → Span → Prop
  | enclosed (before : Text) {source after : Text}
      (found : closing? false (source ++ (closer ++ after)) = some source.length) :
      Stands (before ++ (opener ++ (source ++ (closer ++ after))))
        ⟨before.length, before.length + source.length + 5, source, true⟩
  | unclosed (before : Text) {body : Text} (missing : closing? false body = none) :
      Stands (before ++ (opener ++ body))
        ⟨before.length, before.length + 3 + body.length, body, false⟩

theorem enclosed_eq (before source after : Text) :
    ∃ front, before ++ (opener ++ (source ++ (closer ++ after))) = front ++ after ∧
      front.length = before.length + source.length + 5 := by
  refine ⟨before ++ (opener ++ (source ++ closer)), by simp only [List.append_assoc], ?_⟩
  simp only [opener, closer, List.length_append, List.length_cons, List.length_nil]
  omega

theorem stands_append (front : Text) {text : Text} {span : Span} (stands : Stands text span) :
    Stands (front ++ text) (span.shift front.length) := by
  cases stands with
  | @enclosed before source after found =>
      have behind := Stands.enclosed (front ++ before) found
      rw [List.append_assoc, List.length_append] at behind
      have start : before.length + front.length = front.length + before.length := Nat.add_comm _ _
      have stop : before.length + source.length + 5 + front.length =
          front.length + before.length + source.length + 5 := by omega
      rw [Span.shift, start, stop]
      exact behind
  | @unclosed before body missing =>
      have behind := Stands.unclosed (front ++ before) missing
      rw [List.append_assoc, List.length_append] at behind
      have start : before.length + front.length = front.length + before.length := Nat.add_comm _ _
      have stop : before.length + 3 + body.length + front.length =
          front.length + before.length + 3 + body.length := by omega
      rw [Span.shift, start, stop]
      exact behind

theorem spans_stands {text : Text} {span : Span} (member : span ∈ spans text) :
    Stands text span := by
  induction text using front_induction generalizing span with
  | free text free =>
      rw [spans_free free] at member
      cases member
  | unclosed before body free missing =>
      rw [spans_unclosed free missing, List.mem_singleton] at member
      subst member
      exact .unclosed before missing
  | enclosed before source after free found ih =>
      rw [spans_enclosed free found, List.mem_cons, List.mem_map] at member
      rcases member with rfl | ⟨later, present, rfl⟩
      · exact .enclosed before found
      · obtain ⟨front, whole, length⟩ := enclosed_eq before source after
        rw [whole, ← length]
        exact stands_append front (ih present)

theorem spans_pairwise (text : Text) :
    (spans text).Pairwise fun first second =>
      first.closed = true ∧ first.stop ≤ second.start := by
  induction text using front_induction with
  | free text free =>
      rw [spans_free free]
      exact List.Pairwise.nil
  | unclosed before body free missing =>
      rw [spans_unclosed free missing]
      exact List.pairwise_singleton _ _
  | enclosed before source after free found ih =>
      rw [spans_enclosed free found, List.pairwise_cons, List.pairwise_map]
      constructor
      · intro second member
        obtain ⟨later, -, rfl⟩ := List.mem_map.mp member
        exact ⟨rfl, Nat.le_add_left _ _⟩
      · exact ih.imp fun ⟨closed, apart⟩ => ⟨closed, Nat.add_le_add_right apart _⟩

/-- In front of the first expression nothing opens one, not even together with what follows. -/
theorem opener_not_before {before tail : Text} {position : Nat}
    (free : hasExpression before = false) (early : position < before.length) :
    ¬opener <+: (before ++ (opener ++ tail)).drop position := by
  intro opens
  rw [List.drop_append_of_le_length (Nat.le_of_lt early)] at opens
  obtain ⟨c, rest, split⟩ := List.exists_cons_of_ne_nil (l := before.drop position)
    (by simpa using early)
  have apart : opener.isPrefixOf (c :: rest) = false := by
    rw [← split, Bool.eq_false_iff]
    intro leads
    have inside := (List.isPrefixOf_iff_prefix.mp leads).isInfix.trans
      (List.drop_suffix position before).isInfix
    exact hasExpression_eq_false.mp free inside
  rw [split, List.cons_append, ← List.isPrefixOf_iff_prefix, opener_apart c rest tail apart] at opens
  cases opens

theorem opener_within {text : Text} {position : Nat} (opens : opener <+: text.drop position) :
    ∃ span ∈ spans text, span.start ≤ position ∧ position < span.stop := by
  induction text using front_induction generalizing position with
  | free text free =>
      have inside := opens.isInfix.trans (List.drop_suffix position text).isInfix
      exact absurd inside (hasExpression_eq_false.mp free)
  | unclosed before body free missing =>
      rw [spans_unclosed free missing]
      refine ⟨_, List.mem_singleton_self _, ?_, ?_⟩
      · exact Nat.not_lt.mp fun early => opener_not_before free early opens
      · have room := opens.length_le
        simp only [opener, List.length_drop, List.length_append, List.length_cons,
          List.length_nil] at room
        dsimp only
        omega
  | enclosed before source after free found ih =>
      rw [spans_enclosed free found]
      have late := Nat.not_lt.mp fun early => opener_not_before free early opens
      by_cases within : position < before.length + source.length + 5
      · exact ⟨_, List.mem_cons_self, late, within⟩
      · obtain ⟨further, rfl⟩ := Nat.exists_eq_add_of_le (Nat.not_lt.mp within)
        obtain ⟨front, whole, length⟩ := enclosed_eq before source after
        rw [whole, ← length, List.drop_length_add_append] at opens
        obtain ⟨span, member, starts, ends⟩ := ih opens
        refine ⟨span.shift (before.length + source.length + 5), ?_, ?_, ?_⟩
        · exact List.mem_cons_of_mem _ (List.mem_map_of_mem member)
        · rw [Span.shift, Nat.add_comm]
          exact Nat.add_le_add_left starts _
        · rw [Span.shift, Nat.add_comm]
          exact Nat.add_lt_add_right ends _

def following (text : Text) (span : Span) : Text := text.drop (span.start + opener.length)

structure Partitions (text : Text) (spans : List Span) : Prop where
  within : ∀ span ∈ spans, span.start < span.stop ∧ span.stop ≤ text.length
  apart : spans.Pairwise fun first second => first.stop ≤ second.start
  opened : ∀ span ∈ spans, opener <+: text.drop span.start
  complete : ∀ position, opener <+: text.drop position →
    ∃ span ∈ spans, span.start ≤ position ∧ position < span.stop
  nonempty : spans ≠ [] ↔ hasExpression text = true
  closed : ∀ span ∈ spans, span.closed = true →
    text.drop span.start = opener ++ (span.source ++ (closer ++ text.drop span.stop)) ∧
      Closes (following text span) span.source.length ∧
        ∀ earlier < span.source.length, ¬Closes (following text span) earlier
  unclosed : ∀ span ∈ spans, span.closed = false →
    text.drop span.start = opener ++ span.source ∧ span.stop = text.length
  closed_iff : ∀ span ∈ spans,
    span.closed = true ↔ ∃ position, Closes (following text span) position
  last : ∀ span ∈ spans.dropLast, span.closed = true

section

variable {text : Text} {span : Span}

theorem drop_opened (before tail : Text) :
    (before ++ (opener ++ tail)).drop (before.length + opener.length) = tail := by
  rw [List.drop_length_add_append, List.drop_left]

theorem stands_opened (stands : Stands text span) :
    text.drop span.start = opener ++ following text span := by
  cases stands with
  | enclosed before found => rw [following, drop_opened, List.drop_left]
  | unclosed before missing => rw [following, drop_opened, List.drop_left]

theorem stands_closed (stands : Stands text span) (closed : span.closed = true) :
    following text span = span.source ++ (closer ++ text.drop span.stop) ∧
      closing? false (following text span) = some span.source.length := by
  cases stands with
  | @enclosed before source after found =>
      obtain ⟨front, whole, length⟩ := enclosed_eq before source after
      have behind : (before ++ (opener ++ (source ++ (closer ++ after)))).drop
          (before.length + source.length + 5) = after := by
        rw [whole, ← length, List.drop_left]
      rw [following, drop_opened, behind]
      exact ⟨rfl, found⟩
  | unclosed => cases closed

theorem stands_unclosed (stands : Stands text span) (ended : span.closed = false) :
    following text span = span.source ∧ span.stop = text.length ∧
      closing? false (following text span) = none := by
  cases stands with
  | enclosed => cases ended
  | @unclosed before body missing =>
      rw [following, drop_opened]
      refine ⟨rfl, ?_, missing⟩
      simp only [opener, List.length_append, List.length_cons, List.length_nil]
      omega

theorem stands_closed_iff (stands : Stands text span) :
    span.closed = true ↔ ∃ position, Closes (following text span) position := by
  constructor
  · intro closed
    exact ⟨_, closes_of_closing? (stands_closed stands closed).2⟩
  · rintro ⟨position, closes⟩
    cases ended : span.closed with
    | true => rfl
    | false =>
        have never := closing?_eq_none_iff.mp (stands_unclosed stands ended).2.2
        exact absurd closes (never position)

end

theorem spans_ne_nil_iff {text : Text} : spans text ≠ [] ↔ hasExpression text = true := by
  constructor
  · intro nonempty
    obtain ⟨span, member⟩ := List.exists_mem_of_ne_nil _ nonempty
    have opens := stands_opened (spans_stands member)
    have inside : opener <:+: text.drop span.start := ⟨[], following text span, by rw [opens]; rfl⟩
    exact Text.hasInfix_iff.mpr (inside.trans (List.drop_suffix _ text).isInfix)
  · intro embedded nothing
    obtain ⟨before, after, whole⟩ := Text.hasInfix_iff.mp embedded
    have opens : opener <+: text.drop before.length := by
      rw [← whole, List.append_assoc, List.drop_left]
      exact List.prefix_append _ _
    obtain ⟨span, member, -⟩ := opener_within opens
    rw [nothing] at member
    cases member

theorem closed_of_mem_dropLast {text : Text} {span : Span} (member : span ∈ (spans text).dropLast) :
    span.closed = true := by
  have nonempty : spans text ≠ [] := by
    intro nothing
    rw [nothing] at member
    cases member
  have pairwise := spans_pairwise text
  rw [← List.dropLast_concat_getLast nonempty, List.pairwise_append] at pairwise
  exact (pairwise.2.2 span member _ (List.mem_singleton_self _)).1

theorem spans_partition (text : Text) : Partitions text (spans text) where
  within _ member := spans_within member
  apart := (spans_pairwise text).imp And.right
  opened span member := by
    rw [stands_opened (spans_stands member)]
    exact List.prefix_append _ _
  complete _ opens := opener_within opens
  nonempty := spans_ne_nil_iff
  closed span member closed := by
    have stands := spans_stands member
    obtain ⟨source, found⟩ := stands_closed stands closed
    rw [stands_opened stands, ← source]
    exact ⟨rfl, closing?_eq_some_iff.mp found⟩
  unclosed span member ended := by
    have stands := spans_stands member
    obtain ⟨source, stop, -⟩ := stands_unclosed stands ended
    rw [stands_opened stands, source]
    exact ⟨rfl, stop⟩
  closed_iff _ member := stands_closed_iff (spans_stands member)
  last _ member := closed_of_mem_dropLast member

end Template

end Flowfile
