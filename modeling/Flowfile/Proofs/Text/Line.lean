import Mathlib.Data.List.Forall2
import Mathlib.Data.List.TakeWhile
import Flowfile.Text.Line

/-! Lines of a text, and texts in which some lines are blanked. -/

namespace Flowfile.Text

/-- A line starts after the text. -/
def EndsLine (before : Text) : Prop := before = [] ∨ ∃ text, before = text ++ ['\n']

structure Framed (before line after : Text) : Prop where
  unbroken : '\n' ∉ line
  opens : EndsLine before
  closes : after = [] ∨ ∃ text, after = '\n' :: text

theorem not_mem_takeWhile_break (text : Text) : '\n' ∉ text.takeWhile (· ≠ '\n') := by
  intro member
  simpa using List.mem_takeWhile_imp member

theorem dropWhile_break (text : Text) :
    text.dropWhile (· ≠ '\n') = [] ∨ ∃ rest, text.dropWhile (· ≠ '\n') = '\n' :: rest := by
  induction text with
  | nil => simp
  | cons c rest ih =>
      by_cases same : c = '\n'
      · simp [same]
      · simpa [List.dropWhile_cons, same] using ih

theorem framed_at (text : Text) (offset : Nat) (inside : offset ≤ text.length) :
    ∃ before line after, text = before ++ line ++ after ∧ Framed before line after ∧
      lineStart text offset = before.length ∧
      lineStop text offset = before.length + line.length ∧
      before.length ≤ offset ∧ offset ≤ before.length + line.length := by
  let head := (text.take offset).reverse
  let tail := text.drop offset
  have left : text.take offset =
      (head.dropWhile (· ≠ '\n')).reverse ++ (head.takeWhile (· ≠ '\n')).reverse := by
    rw [← List.reverse_append, List.takeWhile_append_dropWhile, List.reverse_reverse]
  have right : text.drop offset = tail.takeWhile (· ≠ '\n') ++ tail.dropWhile (· ≠ '\n') :=
    List.takeWhile_append_dropWhile.symm
  have size : offset =
      (head.dropWhile (· ≠ '\n')).length + (head.takeWhile (· ≠ '\n')).length := by
    have taken := congrArg List.length left
    rw [List.length_take, Nat.min_eq_left inside] at taken
    simpa using taken
  refine ⟨(head.dropWhile (· ≠ '\n')).reverse,
    (head.takeWhile (· ≠ '\n')).reverse ++ tail.takeWhile (· ≠ '\n'),
    tail.dropWhile (· ≠ '\n'), ?_, ⟨?_, ?_, dropWhile_break tail⟩, ?_, ?_, ?_, ?_⟩
  · calc
      text = text.take offset ++ text.drop offset := (List.take_append_drop offset text).symm
      _ = _ := by rw [left, right]; simp only [List.append_assoc]
  · rw [List.mem_append, List.mem_reverse]
    rintro (member | member)
    · exact not_mem_takeWhile_break head member
    · exact not_mem_takeWhile_break tail member
  · rcases dropWhile_break head with empty | ⟨rest, opened⟩
    · exact .inl (by rw [empty, List.reverse_nil])
    · exact .inr ⟨rest.reverse, by rw [opened, List.reverse_cons]⟩
  · have start : lineStart text offset =
        (text.take offset).length - (head.takeWhile (· ≠ '\n')).length := rfl
    rw [start, List.length_take, Nat.min_eq_left inside, List.length_reverse]
    omega
  · have stop : lineStop text offset =
        min offset text.length + (tail.takeWhile (· ≠ '\n')).length := rfl
    rw [stop, Nat.min_eq_left inside, List.length_append, List.length_reverse,
      List.length_reverse]
    omega
  · rw [List.length_reverse]
    omega
  · rw [List.length_append, List.length_reverse, List.length_reverse]
    omega

theorem lineStop_le (text : Text) (offset : Nat) : lineStop text offset ≤ text.length := by
  have fewer := (List.takeWhile_prefix (l := text.drop offset) (· ≠ '\n')).length_le
  rw [List.length_drop] at fewer
  rw [lineStop]
  omega

theorem splitOn_ne_nil (separator : Char) (text : Text) : splitOn separator text ≠ [] := by
  cases text with
  | nil => simp [splitOn]
  | cons c rest =>
      rw [splitOn]
      split
      · simp
      · split <;> simp

theorem splitOn_unbroken (separator : Char) (line : Text) (unbroken : separator ∉ line) :
    splitOn separator line = [line] := by
  induction line with
  | nil => rfl
  | cons c rest ih =>
      have different : c ≠ separator := fun same => unbroken (same ▸ List.mem_cons_self)
      rw [splitOn, ih fun member => unbroken (List.mem_cons_of_mem _ member)]
      simp [different]

theorem splitOn_append (separator : Char) (left right : Text) :
    splitOn separator (left ++ separator :: right) =
      splitOn separator left ++ splitOn separator right := by
  induction left with
  | nil =>
      rw [List.nil_append, splitOn, splitOn]
      rcases pieces : splitOn separator right with _ | ⟨piece, others⟩
      · exact absurd pieces (splitOn_ne_nil separator right)
      · simp
  | cons c rest ih =>
      rw [List.cons_append, splitOn, splitOn, ih]
      rcases pieces : splitOn separator rest with _ | ⟨piece, others⟩
      · exact absurd pieces (splitOn_ne_nil separator rest)
      · dsimp only [List.cons_append]
        split <;> rfl

/-- Joined pieces come apart where they were joined, and where a piece has the separator itself. -/
theorem splitOn_joinWith (separator : Char) (piece : Text) (pieces : List Text) :
    splitOn separator (joinWith [separator] (piece :: pieces)) =
      (piece :: pieces).flatMap (splitOn separator) := by
  induction pieces generalizing piece with
  | nil => simp [joinWith]
  | cons next pieces ih =>
      have whole : joinWith [separator] (piece :: next :: pieces) =
          piece ++ separator :: joinWith [separator] (next :: pieces) := by
        simp [joinWith]
      rw [whole, splitOn_append, ih]
      rfl

theorem joinWith_splitOn (separator : Char) (text : Text) :
    joinWith [separator] (splitOn separator text) = text := by
  induction text with
  | nil => rfl
  | cons c rest ih =>
      rw [splitOn]
      rcases pieces : splitOn separator rest with _ | ⟨piece, others⟩
      · exact absurd pieces (splitOn_ne_nil separator rest)
      · rw [pieces] at ih
        dsimp only
        split
        · rename_i same
          rw [joinWith, ih, same, List.nil_append, List.singleton_append]
          simp
        · cases others with
          | nil => simpa [joinWith] using ih
          | cons next others => simpa [joinWith] using ih

theorem splitOn_framed {before line after : Text} (framed : Framed before line after) :
    ∃ above below, ∀ other : Text, '\n' ∉ other →
      splitOn '\n' (before ++ other ++ after) = above ++ other :: below := by
  have ends : ∃ below, ∀ other : Text, '\n' ∉ other →
      splitOn '\n' (other ++ after) = other :: below := by
    rcases framed.closes with rfl | ⟨text, rfl⟩
    · refine ⟨[], fun other unbroken => ?_⟩
      rw [List.append_nil, splitOn_unbroken '\n' other unbroken]
    · refine ⟨splitOn '\n' text, fun other unbroken => ?_⟩
      rw [splitOn_append, splitOn_unbroken '\n' other unbroken, List.singleton_append]
  obtain ⟨below, ends⟩ := ends
  rcases framed.opens with rfl | ⟨text, rfl⟩
  · exact ⟨[], below, fun other unbroken => ends other unbroken⟩
  · refine ⟨splitOn '\n' text, below, fun other unbroken => ?_⟩
    rw [List.append_assoc, List.append_assoc, List.singleton_append, splitOn_append,
      ends other unbroken]

def LineOrBlank (line other : Text) : Prop := other = line ∨ other = List.replicate line.length ' '

/-- The second text has the lines of the first one, but that some of them are blanked. -/
def Blanked (text other : Text) : Prop :=
  List.Forall₂ LineOrBlank (splitOn '\n' text) (splitOn '\n' other)

theorem blanked_refl (text : Text) : Blanked text text :=
  List.forall₂_same.mpr fun _ _ => .inl rfl

theorem lineOrBlank_blank {line other : Text} (same : LineOrBlank line other) :
    LineOrBlank line (List.replicate other.length ' ') := by
  rcases same with rfl | rfl
  · exact .inr rfl
  · exact .inr (by rw [List.length_replicate])

theorem blanked_blank {text before line after : Text} (framed : Framed before line after)
    (blanked : Blanked text (before ++ line ++ after)) :
    Blanked text (before ++ List.replicate line.length ' ' ++ after) := by
  obtain ⟨above, below, pieces⟩ := splitOn_framed framed
  have unbroken : '\n' ∉ List.replicate line.length ' ' := by simp
  rw [Blanked, pieces line framed.unbroken] at blanked
  rw [Blanked, pieces _ unbroken]
  have upper := List.forall₂_take_append _ above _ blanked
  have lower := List.forall₂_drop_append _ above _ blanked
  rw [← List.take_append_drop above.length (splitOn '\n' text)]
  refine List.rel_append upper ?_
  obtain ⟨first, rest, same, others, whole⟩ := List.forall₂_cons_right_iff.mp lower
  rw [whole]
  exact .cons (lineOrBlank_blank same) others

def CharOrBlank (c other : Char) : Prop := other = c ∨ other = ' ' ∧ c ≠ '\n'

theorem charOrBlank_of_lineOrBlank {line other : Text} (unbroken : '\n' ∉ line)
    (same : LineOrBlank line other) : List.Forall₂ CharOrBlank line other := by
  rcases same with rfl | rfl
  · exact List.forall₂_same.mpr fun _ _ => .inl rfl
  · induction line with
    | nil => exact .nil
    | cons c rest ih =>
        have ends : c ≠ '\n' := fun same => unbroken (same ▸ List.mem_cons_self)
        exact .cons (.inr ⟨rfl, ends⟩) (ih fun member => unbroken (List.mem_cons_of_mem _ member))

theorem not_mem_of_mem_splitOn (separator : Char) {text piece : Text}
    (member : piece ∈ splitOn separator text) : separator ∉ piece := by
  induction text generalizing piece with
  | nil =>
      rw [splitOn, List.mem_singleton] at member
      simp [member]
  | cons c rest ih =>
      rw [splitOn] at member
      rcases pieces : splitOn separator rest with _ | ⟨first, others⟩
      · exact absurd pieces (splitOn_ne_nil separator rest)
      · rw [pieces] at ih member
        dsimp only at member
        split at member
        · rcases List.mem_cons.mp member with rfl | member
          · exact List.not_mem_nil
          · exact ih member
        · rename_i different
          rcases List.mem_cons.mp member with rfl | member
          · rw [List.mem_cons]
            rintro (same | inside)
            · exact different same.symm
            · exact ih List.mem_cons_self inside
          · exact ih (List.mem_cons_of_mem _ member)

/-- Blanking lines moves no character and alters no line break. -/
theorem charOrBlank_of_blanked {text other : Text} (blanked : Blanked text other) :
    List.Forall₂ CharOrBlank text other := by
  have joined (lines others : List Text) (unbroken : ∀ line ∈ lines, '\n' ∉ line)
      (same : List.Forall₂ LineOrBlank lines others) :
      List.Forall₂ CharOrBlank (joinWith ['\n'] lines) (joinWith ['\n'] others) := by
    induction same with
    | nil => exact .nil
    | @cons line other lines others first rest ih =>
        have here := charOrBlank_of_lineOrBlank (unbroken line List.mem_cons_self) first
        have below := ih fun line member => unbroken line (List.mem_cons_of_mem _ member)
        cases rest with
        | nil => simpa [joinWith] using here
        | cons second rest =>
            simp only [joinWith]
            have ended : List.Forall₂ CharOrBlank ['\n'] ['\n'] := .cons (.inl rfl) .nil
            exact List.rel_append (List.rel_append here ended) below
  have whole := joined _ _ (fun _ => not_mem_of_mem_splitOn '\n') blanked
  rwa [joinWith_splitOn, joinWith_splitOn] at whole

theorem takeWhile_length_of_charOrBlank {text other : Text}
    (same : List.Forall₂ CharOrBlank text other) :
    (other.takeWhile (· ≠ '\n')).length = (text.takeWhile (· ≠ '\n')).length := by
  induction same with
  | nil => rfl
  | @cons c d rest others first _ ih =>
      rcases first with rfl | ⟨rfl, ends⟩
      · by_cases ended : d = '\n'
        · simp [ended]
        · simpa [List.takeWhile_cons, ended] using ih
      · simpa [List.takeWhile_cons, ends] using ih

section

variable {content source : Text} {offset : Nat}
  (same : List.Forall₂ CharOrBlank (content.take source.length) source)
  (inside : offset ≤ source.length)

include same inside

theorem lineStart_of_charOrBlank : lineStart source offset = lineStart content offset := by
  have begins : List.Forall₂ CharOrBlank (content.take offset) (source.take offset) := by
    have := List.forall₂_take offset same
    rwa [List.take_take, Nat.min_eq_left inside] at this
  rw [lineStart, lineStart, begins.length_eq,
    takeWhile_length_of_charOrBlank (List.forall₂_reverse_iff.mpr begins)]

theorem lineStop_of_charOrBlank : lineStop source offset ≤ lineStop content offset := by
  have shorter : source.length ≤ content.length := by
    have := same.length_eq
    rw [List.length_take] at this
    omega
  have ends := takeWhile_length_of_charOrBlank (List.forall₂_drop offset same)
  have whole : content.drop offset =
      (content.take source.length).drop offset ++ content.drop source.length := by
    have begins : offset ≤ (content.take source.length).length := by
      rw [List.length_take]
      omega
    rw [← List.drop_append_of_le_length begins, List.take_append_drop]
  have further : (((content.take source.length).drop offset).takeWhile (· ≠ '\n')).length ≤
      ((content.drop offset).takeWhile (· ≠ '\n')).length := by
    rw [whole, List.takeWhile_append]
    split
    · rename_i unbroken
      rw [List.length_append, unbroken]
      exact Nat.le_add_right _ _
    · exact Nat.le_refl _
  rw [lineStop, lineStop, ends, Nat.min_eq_left inside, Nat.min_eq_left (Nat.le_trans inside shorter)]
  exact Nat.add_le_add_left further offset

end

theorem slice_prefix (text : Text) (first : Nat) {last last' : Nat} (order : last ≤ last') :
    text.slice first last <+: text.slice first last' :=
  List.take_prefix_take_left (by omega)

theorem lineStart_le (text : Text) (offset : Nat) : lineStart text offset ≤ offset := by
  have taken := List.length_take_le offset text
  rw [lineStart]
  omega

theorem le_lineStop {text : Text} {offset : Nat} (inside : offset ≤ text.length) :
    offset ≤ lineStop text offset := by
  rw [lineStop]
  omega

theorem lineStart_of_slice {text : Text} {first last : Nat} (order : first ≤ last)
    (unbroken : '\n' ∉ text.slice first last) :
    lineStart text last = lineStart text first := by
  have split : text.take last = text.take first ++ text.slice first last := by
    rw [slice, ← List.take_add, Nat.add_sub_cancel' order]
  have passes : ∀ c ∈ (text.slice first last).reverse, decide (c ≠ '\n') = true := by
    intro c member
    refine decide_eq_true fun ended => unbroken ?_
    rw [← ended]
    exact List.mem_reverse.mp member
  rw [lineStart, lineStart, split, List.reverse_append, List.takeWhile_append_of_pos passes,
    List.length_append, List.length_append, List.length_reverse]
  omega

theorem lineStop_of_slice {text : Text} {first last : Nat} (order : first ≤ last)
    (unbroken : '\n' ∉ text.slice first last) :
    lineStop text last = lineStop text first := by
  have split : text.drop first = text.slice first last ++ text.drop last := by
    calc
      text.drop first = text.slice first last ++ (text.drop first).drop (last - first) :=
        (List.take_append_drop (last - first) _).symm
      _ = text.slice first last ++ text.drop last := by
        rw [List.drop_drop, Nat.add_sub_cancel' order]
  have passes : ∀ c ∈ text.slice first last, decide (c ≠ '\n') = true := by
    intro c member
    exact decide_eq_true fun ended => unbroken (ended ▸ member)
  have size : (text.slice first last).length = min (last - first) (text.length - first) := by
    rw [slice, List.length_take, List.length_drop]
  rw [lineStop, lineStop, split, List.takeWhile_append_of_pos passes, List.length_append, size]
  omega

theorem line_of_sameLine {text : Text} {a b : Nat} (same : sameLine text a b = true) :
    lineStart text a = lineStart text b ∧ lineStop text a = lineStop text b := by
  have unbroken : '\n' ∉ text.slice (min a b) (max a b) := by
    intro member
    rw [sameLine, List.contains_iff_mem.mpr member] at same
    cases same
  rcases Nat.le_total a b with order | order
  · rw [Nat.min_eq_left order, Nat.max_eq_right order] at unbroken
    exact ⟨(lineStart_of_slice order unbroken).symm, (lineStop_of_slice order unbroken).symm⟩
  · rw [Nat.min_eq_right order, Nat.max_eq_left order] at unbroken
    exact ⟨lineStart_of_slice order unbroken, lineStop_of_slice order unbroken⟩

theorem lineStart_of_sameLine {text : Text} {a b : Nat} (same : sameLine text a b = true) :
    lineStart text a = lineStart text b := (line_of_sameLine same).1

end Flowfile.Text
