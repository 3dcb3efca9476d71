import Flowfile.Number.Basic
import Flowfile.Proofs.Text.Digits
import Flowfile.Proofs.Text.Line
import Flowfile.Text.Integer

/-! The texts that integers are spelled with. -/

namespace Flowfile.Text

/-- The text is the integer with blanks around it: a sign or none, and groups of digits with single
underscores between them. There are no more digits than integers are read from. -/
inductive Spells : Text → Int → Prop
  | of {front sign back : Text} {groups : List Text}
      (before : ∀ c ∈ front, isSpacing c = true) (after : ∀ c ∈ back, isSpacing c = true)
      (signed : sign = [] ∨ sign = ['+'] ∨ sign = ['-']) (nonempty : groups ≠ [])
      (digits : ∀ group ∈ groups, group.isDigits = true)
      (few : groups.flatten.length ≤ digitLimit) :
      Spells (front ++ ((sign ++ joinWith ['_'] groups) ++ back))
        (integerOf (sign = ['-']) groups.flatten)

theorem isSpacing_of_isAsciiDigit {c : Char} (digit : isAsciiDigit c = true) :
    isSpacing c = false := by
  simp only [isAsciiDigit, Bool.and_eq_true, decide_eq_true_eq] at digit
  obtain ⟨least, greatest⟩ := toNat_bounds digit.1 digit.2
  have low : 48 ≤ c.toNat := least
  have high : c.toNat ≤ 57 := greatest
  rw [isSpacing, isBlank, ← Bool.not_eq_true]
  simp only [Bool.or_eq_true, Bool.and_eq_true, decide_eq_true_eq]
  omega

theorem mem_joinWith {c separator : Char} {pieces : List Text}
    (member : c ∈ joinWith [separator] pieces) : c = separator ∨ ∃ piece ∈ pieces, c ∈ piece := by
  induction pieces with
  | nil => cases member
  | cons piece pieces ih =>
      cases pieces with
      | nil => exact .inr ⟨piece, List.mem_cons_self, member⟩
      | cons next pieces =>
          simp only [joinWith, List.mem_append, List.mem_singleton] at member
          rcases member with (here | same) | later
          · exact .inr ⟨piece, List.mem_cons_self, here⟩
          · exact .inl same
          · refine (ih later).imp_right ?_
            rintro ⟨other, among, inside⟩
            exact ⟨other, List.mem_cons_of_mem _ among, inside⟩

section

variable {groups : List Text} (digits : ∀ group ∈ groups, group.isDigits = true)

include digits

theorem splitOn_groups (nonempty : groups ≠ []) : splitOn '_' (joinWith ['_'] groups) = groups := by
  have alone : ∀ group ∈ groups, splitOn '_' group = [group] := by
    intro group member
    apply splitOn_unbroken
    intro inside
    exact absurd (((isDigits_iff group).mp (digits group member)).2 '_' inside) (by decide)
  cases groups with
  | nil => exact absurd rfl nonempty
  | cons first rest =>
      calc splitOn '_' (joinWith ['_'] (first :: rest))
          = (first :: rest).flatMap (splitOn '_') := splitOn_joinWith '_' first rest
        _ = (first :: rest).flatMap fun group => [group] := List.flatMap_congr alone
        _ = first :: rest := List.flatMap_singleton' _

theorem ungrouped?_groups (nonempty : groups ≠ []) :
    ungrouped? (joinWith ['_'] groups) = some groups.flatten := by
  rw [ungrouped?, splitOn_groups digits nonempty]
  exact if_pos (List.all_eq_true.mpr digits)

theorem groups_head (nonempty : groups ≠ []) :
    ∃ c rest, joinWith ['_'] groups = c :: rest ∧ isAsciiDigit c = true := by
  cases groups with
  | nil => exact absurd rfl nonempty
  | cons first others =>
      obtain ⟨nonempty, all⟩ := (isDigits_iff first).mp (digits first List.mem_cons_self)
      obtain ⟨c, rest, rfl⟩ := List.exists_cons_of_ne_nil nonempty
      have digit := all c List.mem_cons_self
      cases others with
      | nil => exact ⟨c, rest, rfl, digit⟩
      | cons next others => exact ⟨c, _, rfl, digit⟩

theorem unsigned_signed (nonempty : groups ≠ []) {sign : Text}
    (signed : sign = [] ∨ sign = ['+'] ∨ sign = ['-']) :
    unsigned (sign ++ joinWith ['_'] groups) = (decide (sign = ['-']), joinWith ['_'] groups) := by
  obtain ⟨c, rest, shape, digit⟩ := groups_head digits nonempty
  rw [shape]
  rcases signed with rfl | rfl | rfl
  · exact unsigned.eq_3 _ (fun _ same => ne_of_isAsciiDigit digit rfl (List.cons.inj same).1)
      (fun _ same => ne_of_isAsciiDigit digit rfl (List.cons.inj same).1)
  · rfl
  · rfl

theorem solid_signed {sign : Text} (signed : sign = [] ∨ sign = ['+'] ∨ sign = ['-']) :
    ∀ c ∈ sign ++ joinWith ['_'] groups, isSpacing c = false := by
  intro c member
  rcases List.mem_append.mp member with mark | body
  · rcases signed with rfl | rfl | rfl
    · cases mark
    · cases List.mem_singleton.mp mark
      rfl
    · cases List.mem_singleton.mp mark
      rfl
  · rcases mem_joinWith body with rfl | ⟨group, among, inside⟩
    · rfl
    · exact isSpacing_of_isAsciiDigit (((isDigits_iff group).mp (digits group among)).2 c inside)

end

theorem groups_of_ungrouped? {text digits : Text} (read : ungrouped? text = some digits) :
    ∃ groups, groups ≠ [] ∧ (∀ group ∈ groups, group.isDigits = true) ∧
      text = joinWith ['_'] groups ∧ digits = groups.flatten := by
  rw [ungrouped?] at read
  split at read
  · rename_i all
    cases read
    exact ⟨splitOn '_' text, splitOn_ne_nil '_' text, List.all_eq_true.mp all,
      (joinWith_splitOn '_' text).symm, rfl⟩
  · cases read

theorem exists_of_unsigned (text : Text) :
    ∃ sign, text = sign ++ (unsigned text).2 ∧ (sign = [] ∨ sign = ['+'] ∨ sign = ['-']) ∧
      (unsigned text).1 = decide (sign = ['-']) := by
  rw [unsigned.eq_def]
  split
  · exact ⟨['-'], rfl, by simp, rfl⟩
  · exact ⟨['+'], rfl, by simp, rfl⟩
  · exact ⟨[], rfl, by simp, rfl⟩

end Flowfile.Text
