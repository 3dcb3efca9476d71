import Flowfile.Expr.Eval
import Flowfile.Proofs.Expr.Lexing
import Flowfile.Proofs.Number.Whole

/-! One step into a value: by the segment of a dotted path, and by the value of a key.

Mappings take both alike. Lists take a segment by its digits and a key by the number it converts to,
so that the two agree on a list only where digits and number name the same position. -/

namespace Flowfile

/-- A text that names a position of a list where it is a segment of a dotted path. -/
def Text.IsPosition (text : Text) : Prop := text.isDigits = true ∧ text.length ≤ 18

namespace Value

/-- Every list inside has at most `2 ^ 53` items, so that each of its positions is a double. -/
inductive Indexable : Value → Prop
  | simple {v : Value} (simple : v.isContainer = false) : Indexable v
  | list (origin : Origin) {items : List Value} (few : items.length ≤ 2 ^ 53)
      (inside : ∀ item ∈ items, Indexable item) : Indexable (.list origin items)
  | map (origin : Origin) {entries : List (Text × Value)}
      (inside : ∀ entry ∈ entries, Indexable entry.2) : Indexable (.map origin entries)

theorem step_of_simple {v : Value} (simple : v.isContainer = false) (segment : Text) :
    v.step segment = .undefined := by
  cases v with
  | list origin items => cases simple
  | map origin entries => cases simple
  | _ => rfl

theorem access_of_simple {v : Value} (simple : v.isContainer = false) (key : Value) :
    v.access key = .ok .undefined := by
  cases v with
  | list origin items => cases simple
  | map origin entries => cases simple
  | _ => rfl

theorem indexable_step {v : Value} (indexable : v.Indexable) (segment : Text) :
    (v.step segment).Indexable := by
  cases indexable with
  | simple simple =>
      rw [step_of_simple simple]
      exact .simple rfl
  | @list origin items few inside =>
      rw [step]
      split
      · rename_i index _
        rw [List.getD_eq_getElem?_getD]
        rcases held : items[index]? with _ | item
        · exact .simple rfl
        · exact inside item (List.mem_of_getElem? held)
      · exact .simple rfl
  | @map origin entries inside =>
      rw [step]
      split
      · rename_i item found
        obtain ⟨before, after, whole, -⟩ := List.lookup_eq_some_iff.mp found
        exact inside (segment, item) (by simp [whole])
      · dsimp only
        split
        · rename_i entry found
          exact inside entry (List.mem_of_find?_eq_some found)
        · exact .simple rfl

theorem length_locateItems (place : List Nat) (position : Nat) (items : List Value) :
    (locateItems place position items).length = items.length := by
  induction items generalizing position with
  | nil => rfl
  | cons item items ih => exact congrArg Nat.succ (ih (position + 1))

theorem getElem?_locateItems (place : List Nat) (position : Nat) (items : List Value)
    (index : Nat) :
    (locateItems place position items)[index]? =
      items[index]?.map (locateAt (place ++ [position + index])) := by
  induction items generalizing position index with
  | nil => rfl
  | cons item items ih =>
      cases index with
      | zero => rfl
      | succ index =>
          rw [locateItems, List.getElem?_cons_succ, List.getElem?_cons_succ, ih,
            Nat.add_assoc, Nat.add_comm 1]

theorem mem_locateEntries {place : List Nat} {position : Nat} {entries : List (Text × Value)}
    {entry : Text × Value} (member : entry ∈ locateEntries place position entries) :
    ∃ original ∈ entries, ∃ inner, entry = (original.1, original.2.locateAt inner) := by
  induction entries generalizing position with
  | nil => cases member
  | cons first entries ih =>
      rcases List.mem_cons.mp member with rfl | later
      · exact ⟨first, List.mem_cons_self, _, rfl⟩
      · obtain ⟨original, inside, inner, same⟩ := ih later
        exact ⟨original, List.mem_cons_of_mem first inside, inner, same⟩

theorem indexable_locateAt {v : Value} (indexable : v.Indexable) (place : List Nat) :
    (v.locateAt place).Indexable := by
  induction indexable generalizing place with
  | @simple v simple =>
      cases v with
      | list origin items => cases simple
      | map origin entries => cases simple
      | _ => exact .simple rfl
  | @list origin items few inside ih =>
      refine .list _ (by rw [length_locateItems]; exact few) ?_
      intro item member
      obtain ⟨index, held⟩ := List.mem_iff_getElem?.mp member
      rw [getElem?_locateItems, Option.map_eq_some_iff] at held
      obtain ⟨original, there, rfl⟩ := held
      exact ih original (List.mem_of_getElem? there) _
  | @map origin entries inside ih =>
      refine .map _ ?_
      intro entry member
      obtain ⟨original, there, inner, rfl⟩ := mem_locateEntries member
      exact ih original there inner

def position? (key : Value) (size : Nat) : Option Nat :=
  match key.toNumber.toInt? with
  | some (.ofNat index) => if index < size then some index else none
  | _ => none

theorem access_list (origin : Origin) (items : List Value) {key : Value} {segment : Text}
    (same : key.position? items.length = listIndex? segment items.length) :
    (Value.list origin items).access key = .ok ((Value.list origin items).step segment) := by
  rw [access, step, ← same, position?]
  rcases key.toNumber.toInt? with _ | index | below
  · rfl
  · by_cases inside : index < items.length
    · simp [inside]
    · simp [inside]
  · rfl

theorem position?_of_natural {key : Value} {n size : Nat}
    (natural : key.toNumber = .ofRatio false n 1) (few : size ≤ 2 ^ 53) :
    key.position? size = if n < size then some n else none := by
  rw [position?, natural]
  rcases Nat.lt_or_ge n (2 ^ 53) with small | large
  · rw [Double.toInt?_ofRatio_small false small]
    rfl
  · have beyond : ¬n < size := by omega
    rw [if_neg beyond]
    rcases whole : (Double.ofRatio false n 1).toInt? with _ | i
    · rfl
    · obtain ⟨m, large', rfl⟩ := Double.toInt?_ofRatio_large large whole
      exact if_neg (by omega)

theorem position?_of_negative {key : Value} {n : Nat} (positive : n ≠ 0)
    (negative : key.toNumber = .ofRatio true n 1) (size : Nat) : key.position? size = none := by
  rw [position?, negative]
  rcases whole : (Double.ofRatio true n 1).toInt? with _ | i
  · rfl
  · have below : i < 0 := by
      rcases Nat.lt_or_ge n (2 ^ 53) with small | large
      · rw [Double.toInt?_ofRatio_small true small] at whole
        cases whole
        change -(n : Int) < 0
        omega
      · obtain ⟨m, large', rfl⟩ := Double.toInt?_ofRatio_large large whole
        change -(m : Int) < 0
        omega
    cases i with
    | ofNat m => exact absurd below (by simp)
    | negSucc m => rfl

theorem listIndex?_of_isPosition {text : Text} (position : text.IsPosition) (size : Nat) :
    listIndex? text size =
      if Text.readDigits 10 text < size then some (Text.readDigits 10 text) else none := by
  rw [listIndex?, if_pos (by simp [position.1, position.2])]

theorem listIndex?_of_not {text : Text} (other : ¬text.IsPosition) (size : Nat) :
    listIndex? text size = none := by
  rw [listIndex?, if_neg]
  intro digits
  rw [Bool.and_eq_true, decide_eq_true_eq] at digits
  exact other digits

section

variable {size : Nat} (few : size ≤ 2 ^ 53)

include few

theorem position?_str {text : Text} (position : text.IsPosition) :
    (Value.str text).position? size = listIndex? text size := by
  have natural : (Value.str text).toNumber = .ofRatio false (Text.readDigits 10 text) 1 := by
    rw [toNumber, Text.toNumber?_digits position.1, Option.getD_some]
  rw [position?_of_natural natural few, listIndex?_of_isPosition position]

theorem position?_other {text : Text} (other : ¬text.IsPosition)
    (apart : ∀ n : Nat, n < 2 ^ 53 → (Value.str text).toNumber.toInt? ≠ some (n : Int)) :
    (Value.str text).position? size = listIndex? text size := by
  rw [listIndex?_of_not other, position?]
  rcases whole : (Value.str text).toNumber.toInt? with _ | index | below
  · rfl
  · refine if_neg fun inside => apart index (by omega) whole
  · rfl

theorem position?_int {i : Int} {segment : Text} (keyed : integerKey i = .ok segment) :
    (Value.int i).position? size = listIndex? segment size := by
  rw [integerKey] at keyed
  split at keyed
  · cases keyed
  split at keyed
  · rename_i negative
    cases keyed
    have sign : ¬Text.IsPosition ('-' :: Nat.toDigits 10 i.natAbs) := by
      rintro ⟨digits, -⟩
      simp [Text.isDigits, Text.isAsciiDigit] at digits
    have number : (Value.int i).toNumber = .ofRatio true i.natAbs 1 := by
      rw [toNumber, Number.toDouble, Double.ofInt, decide_eq_true negative]
    rw [listIndex?_of_not sign, position?_of_negative (by omega) number]
  · rename_i positive
    cases keyed
    have number : (Value.int i).toNumber = .ofRatio false i.natAbs 1 := by
      rw [toNumber, Number.toDouble, Double.ofInt, decide_eq_false positive]
    have value : Text.readDigits 10 (Nat.toDigits 10 i.natAbs) = i.natAbs :=
      Text.readDigits_toDigits (by decide) (by decide) i.natAbs
    rw [position?_of_natural number few]
    by_cases short : (Nat.toDigits 10 i.natAbs).length ≤ 18
    · have position : Text.IsPosition (Nat.toDigits 10 i.natAbs) :=
        ⟨Text.isDigits_ofNat i.natAbs, short⟩
      rw [listIndex?_of_isPosition position, value]
    · have large : 10 ^ 18 ≤ i.natAbs := by
        rw [Nat.length_toDigits_le_iff (by decide) (by decide)] at short
        exact Nat.le_of_not_lt short
      rw [listIndex?_of_not fun position => short position.2, if_neg (by omega)]

end

end Value

namespace Grammar

open Token

theorem mem_identifier {name : Text} (identifier : IsIdentifier name) {c : Char}
    (member : c ∈ name) : Text.isBlank c = false ∧ c ≠ '.' := by
  obtain ⟨first, rest, rfl, start, parts⟩ := identifier
  rcases List.mem_cons.mp member with rfl | later
  · exact isIdentifierPart_apart (by simp [isIdentifierPart, start])
  · exact isIdentifierPart_apart (parts c later)

theorem position?_identifier {name : Text} (identifier : IsIdentifier name) (size : Nat) :
    (Value.str name).position? size = Value.listIndex? name size := by
  have solid : Text.strip name = name :=
    Text.strip_solid fun c member => (mem_identifier identifier member).1
  obtain ⟨c, rest, rfl, start, -⟩ := identifier
  obtain ⟨-, digit, -, minus, dot⟩ := isIdentifierStart_apart start
  have other : ¬Text.IsPosition (c :: rest) := by
    rintro ⟨digits, -⟩
    simp [Text.isDigits, digit] at digits
  have plus : c ≠ '+' := by
    rintro rfl
    cases start
  have zero : c ≠ '0' := by
    rintro rfl
    cases digit
  have number : Text.toNumber? (c :: rest) = none := by
    rw [Text.toNumber?, solid]
    simp [zero, minus, plus, Text.decimalLiteralLength, digit, dot]
  rw [Value.listIndex?_of_not other, Value.position?, Value.toNumber, number]
  rfl

end Grammar

end Flowfile
