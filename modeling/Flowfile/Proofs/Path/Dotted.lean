import Flowfile.Path
import Flowfile.Proofs.Number.Reading
import Flowfile.Proofs.Text.Canonical
import Flowfile.Proofs.Text.Line

/-! Which paths are read back from their dotted form, and which dotted texts are written again.

A dotted text comes apart at every dot, and every part is read by itself. Both questions are settled
part by part, but for the empty text, which stands for the path without segments. -/

namespace Flowfile

namespace Text

/-- Digits with a zero in front that could be left out. -/
def Padded (digits : Text) : Prop :=
  digits.isDigits = true ∧ ∃ rest, rest ≠ [] ∧ digits = '0' :: rest

theorem ofNat_readDigits_iff {digits : Text} (number : digits.isDigits = true) :
    ofNat (readDigits 10 digits) = digits ↔ ¬Padded digits := by
  constructor
  · rintro written ⟨-, rest, nonempty, rfl⟩
    have zero := toDigits_leading (by decide) (by decide) written
    rw [zero] at written
    cases written
    exact nonempty rfl
  · intro bare
    by_cases leads : digits.head? = some '0'
    · obtain ⟨rest, rfl⟩ := List.head?_eq_some_iff.mp leads
      cases rest with
      | nil => decide
      | cons c rest => exact absurd ⟨number, c :: rest, List.cons_ne_nil _ _, rfl⟩ bare
    · exact Leads.ofNat_readDigits ⟨number, leads⟩

theorem dot_not_mem_of_isDigits {digits : Text} (number : digits.isDigits = true) :
    '.' ∉ digits := by
  intro member
  have digit := ((isDigits_iff digits).mp number).2 '.' member
  cases digit

theorem dot_not_mem_ofInt (i : Int) : '.' ∉ ofInt i := by
  cases i with
  | ofNat n => exact dot_not_mem_of_isDigits (isDigits_ofNat n)
  | negSucc n =>
      have magnitude := dot_not_mem_of_isDigits (isDigits_ofNat (n + 1))
      simp [ofInt, magnitude]

theorem ofInt_ne_nil (i : Int) : ofInt i ≠ [] := by
  cases i with
  | ofNat n => exact Nat.toDigits_ne_nil
  | negSucc n => exact List.cons_ne_nil _ _

theorem joinWith_eq_nil {separator : Char} {piece : Text} {pieces : List Text} :
    joinWith [separator] (piece :: pieces) = [] ↔ piece = [] ∧ pieces = [] := by
  cases pieces <;> simp [joinWith]

theorem splitOn_eq_singleton {separator : Char} {text piece : Text}
    (single : splitOn separator text = [piece]) : piece = text ∧ separator ∉ text := by
  have whole := joinWith_splitOn separator text
  have member : piece ∈ splitOn separator text := by
    rw [single]
    exact List.mem_singleton_self piece
  rw [single] at whole
  have same : piece = text := whole
  exact ⟨same, same ▸ not_mem_of_mem_splitOn separator member⟩

end Text

namespace Segment

/-- A key without a dot that does not consist of digits, or an index that is not negative. -/
inductive Plain : Segment → Prop
  | key {name : Text} (unbroken : '.' ∉ name) (named : name.isDigits = false) : Plain (.key name)
  | index {position : Int} (counted : 0 ≤ position) : Plain (.index position)

theorem text_eq_nil {segment : Segment} : segment.text = [] ↔ segment = .key [] := by
  cases segment with
  | key name => simp [text]
  | index position => simp [text, Text.ofInt_ne_nil]

theorem ofText_index {position : Int} (counted : 0 ≤ position) :
    ofText (Text.ofInt position) = .index position := by
  obtain ⟨n, rfl⟩ := Int.eq_ofNat_of_zero_le counted
  have number : (Text.ofInt n).isDigits = true := Text.isDigits_ofNat n
  have value : Text.readDigits 10 (Text.ofInt n) = n := Text.readDigits_ofNat n
  rw [ofText, if_pos number, value]

theorem ofText_text_iff (segment : Segment) :
    '.' ∉ segment.text ∧ ofText segment.text = segment ↔ segment.Plain := by
  constructor
  · rintro ⟨unbroken, same⟩
    cases segment with
    | key name =>
        refine .key unbroken (Bool.not_eq_true _ ▸ fun number => ?_)
        have index : ofText name = _ := if_pos number
        rw [text, index] at same
        cases same
    | index position =>
        refine .index (Int.not_lt.mp fun negative => ?_)
        obtain ⟨n, rfl⟩ := Int.eq_negSucc_of_lt_zero negative
        cases same
  · intro plain
    cases plain with
    | key unbroken named => exact ⟨unbroken, if_neg (by simp [text, named])⟩
    | index counted => exact ⟨Text.dot_not_mem_ofInt _, ofText_index counted⟩

theorem text_ofText_iff (part : Text) : (ofText part).text = part ↔ ¬part.Padded := by
  by_cases number : part.isDigits = true
  · rw [ofText, if_pos number, ← Text.ofNat_readDigits_iff number]
    rfl
  · have bare : ¬part.Padded := fun padded => number padded.1
    rw [ofText, if_neg number]
    exact iff_of_true rfl bare

theorem dot_not_mem_text_ofText {part : Text} (unbroken : '.' ∉ part) :
    '.' ∉ (ofText part).text := by
  by_cases number : part.isDigits = true
  · rw [ofText, if_pos number, text]
    exact Text.dot_not_mem_ofInt _
  · rw [ofText, if_neg number]
    exact unbroken

end Segment

namespace Path

variable {path : Path} {text : Text}

theorem dotted_eq_nil : path.dotted = [] ↔ path = [] ∨ path = [.key []] := by
  cases path with
  | nil => exact iff_of_true rfl (.inl rfl)
  | cons segment rest =>
      have joined : Text.joinWith ['.'] (segment.text :: rest.map Segment.text) = [] ↔
          segment.text = [] ∧ rest.map Segment.text = [] := Text.joinWith_eq_nil
      rw [Segment.text_eq_nil, List.map_eq_nil_iff] at joined
      simpa [dotted, Text.dotted] using joined

theorem splitOn_dotted (nonempty : path ≠ []) :
    Text.splitOn '.' path.dotted = path.flatMap fun segment => Text.splitOn '.' segment.text := by
  obtain ⟨segment, rest, rfl⟩ := List.exists_cons_of_ne_nil nonempty
  rw [dotted, Text.dotted, List.map_cons, Text.splitOn_joinWith, ← List.map_cons, List.flatMap_map]

theorem splitOn_dotted_plain (nonempty : path ≠ []) (plain : ∀ segment ∈ path, segment.Plain) :
    Text.splitOn '.' path.dotted = path.map Segment.text := by
  rw [splitOn_dotted nonempty, ← List.flatMap_pure_eq_map]
  refine List.flatMap_congr fun segment member => ?_
  exact Text.splitOn_unbroken _ _ ((Segment.ofText_text_iff segment).mpr (plain segment member)).1

/-- There are no fewer parts than segments, so that no segment comes apart. -/
theorem plain_of_parts
    (same : (path.flatMap fun segment => Text.splitOn '.' segment.text).map Segment.ofText = path) :
    ∀ segment ∈ path, segment.Plain := by
  have least (rest : Path) :
      rest.length ≤ (rest.flatMap fun segment => Text.splitOn '.' segment.text).length := by
    induction rest with
    | nil => exact Nat.zero_le _
    | cons segment rest ih =>
        have positive := List.length_pos_iff.mpr (Text.splitOn_ne_nil '.' segment.text)
        rw [List.flatMap_cons, List.length_append, List.length_cons]
        omega
  induction path with
  | nil => exact List.forall_mem_nil _
  | cons segment rest ih =>
      obtain ⟨part, others, parts⟩ :=
        List.exists_cons_of_ne_nil (Text.splitOn_ne_nil '.' segment.text)
      rw [List.flatMap_cons, parts, List.cons_append, List.map_cons, List.cons.injEq] at same
      have length := congrArg List.length same.2
      have enough := least rest
      rw [List.length_map, List.length_append] at length
      obtain rfl : others = [] := List.length_eq_zero_iff.mp (by omega)
      obtain ⟨rfl, unbroken⟩ := Text.splitOn_eq_singleton parts
      have plain := (Segment.ofText_text_iff segment).mp ⟨unbroken, same.1⟩
      exact List.forall_mem_cons.mpr ⟨plain, ih same.2⟩

theorem ofDotted_dotted_iff :
    ofDotted path.dotted = path ↔ path ≠ [.key []] ∧ ∀ segment ∈ path, segment.Plain := by
  by_cases empty : path.dotted = []
  · rw [ofDotted, empty]
    rcases dotted_eq_nil.mp empty with rfl | rfl
    · simp
    · simp
  · have nonempty : path ≠ [] := fun nothing => empty (dotted_eq_nil.mpr (.inl nothing))
    have single : path ≠ [.key []] := fun alone => empty (dotted_eq_nil.mpr (.inr alone))
    have read : ofDotted path.dotted = (Text.splitOn '.' path.dotted).map Segment.ofText :=
      if_neg (by simpa using empty)
    rw [read]
    constructor
    · intro same
      rw [splitOn_dotted nonempty] at same
      exact ⟨single, plain_of_parts same⟩
    · rintro ⟨-, plain⟩
      have same : ∀ segment ∈ path, (Segment.ofText ∘ Segment.text) segment = id segment :=
        fun segment member => ((Segment.ofText_text_iff segment).mpr (plain segment member)).2
      rw [splitOn_dotted_plain nonempty plain, List.map_map, List.map_congr_left same, List.map_id]

theorem dotted_ofDotted_iff :
    (ofDotted text).dotted = text ↔ ∀ part ∈ Text.splitOn '.' text, ¬part.Padded := by
  by_cases empty : text = []
  · subst empty
    refine iff_of_true rfl fun part member padded => ?_
    rw [Text.splitOn, List.mem_singleton] at member
    subst member
    cases padded.1
  · let write (part : Text) : Text := (Segment.ofText part).text
    have read : ofDotted text = (Text.splitOn '.' text).map Segment.ofText :=
      if_neg (by simpa using empty)
    have written : (ofDotted text).dotted =
        Text.joinWith ['.'] ((Text.splitOn '.' text).map write) := by
      rw [read, dotted, Text.dotted, List.map_map]
      rfl
    -- No part has a dot when it is written again, so that the parts stay what they are.
    have parts : Text.splitOn '.' (ofDotted text).dotted = (Text.splitOn '.' text).map write := by
      obtain ⟨first, rest, pieces⟩ := List.exists_cons_of_ne_nil (Text.splitOn_ne_nil '.' text)
      have unbroken : ∀ part ∈ (first :: rest).map write, Text.splitOn '.' part = [part] := by
        intro part member
        obtain ⟨origin, among, rfl⟩ := List.mem_map.mp member
        rw [← pieces] at among
        exact Text.splitOn_unbroken _ _
          (Segment.dot_not_mem_text_ofText (Text.not_mem_of_mem_splitOn '.' among))
      rw [written, pieces, List.map_cons, Text.splitOn_joinWith, ← List.map_cons,
        List.flatMap_congr unbroken, List.flatMap_singleton']
    have fixed : (Text.splitOn '.' text).map write = (Text.splitOn '.' text).map id ↔
        ∀ part ∈ Text.splitOn '.' text, ¬part.Padded :=
      List.map_inj_left.trans (forall₂_congr fun part _ => Segment.text_ofText_iff part)
    rw [List.map_id] at fixed
    rw [← fixed, ← parts]
    constructor
    · intro same
      rw [same]
    · intro same
      have joined := congrArg (Text.joinWith ['.']) same
      rwa [Text.joinWith_splitOn, Text.joinWith_splitOn] at joined

/-! Converting between digits and integers is bounded, and neither direction runs into the bound
where the other one did not. -/

theorem oversized?_eq_none : path.oversized? = none ↔
    ∀ position, .index position ∈ path →
      (Nat.toDigits 10 position.natAbs).length ≤ digitLimit := by
  rw [oversized?, List.findSome?_eq_none_iff]
  constructor
  · intro fits position member
    simpa using fits (.index position) member
  · intro fits segment member
    cases segment with
    | key name => rfl
    | index position => simpa using fits position member

theorem oversizedPart?_eq_none : oversizedPart? text = none ↔
    ∀ part ∈ Text.splitOn '.' text, part.isDigits = true → part.length ≤ digitLimit := by
  simp [oversizedPart?]

theorem oversizedPart?_dotted (fits : path.oversized? = none)
    (plain : ∀ segment ∈ path, segment.Plain) : oversizedPart? path.dotted = none := by
  by_cases some : path = []
  · subst some
    rfl
  rw [oversizedPart?_eq_none, splitOn_dotted_plain some plain]
  intro part member number
  obtain ⟨segment, among, rfl⟩ := List.mem_map.mp member
  cases plain segment among with
  | key unbroken named =>
      rw [Segment.text, named] at number
      cases number
  | index counted =>
      obtain ⟨n, rfl⟩ := Int.eq_ofNat_of_zero_le counted
      exact oversized?_eq_none.mp fits n among

theorem oversized?_ofDotted (fits : oversizedPart? text = none) :
    (ofDotted text).oversized? = none := by
  rw [oversized?_eq_none]
  intro position member
  rw [ofDotted] at member
  split at member
  · cases member
  · obtain ⟨part, among, same⟩ := List.mem_map.mp member
    rw [Segment.ofText] at same
    split at same
    · rename_i number
      cases same
      have short := oversizedPart?_eq_none.mp fits part among number
      have small := Text.readDigits_lt ((Text.isDigits_iff part).mp number).2
      have bound := Nat.lt_of_lt_of_le small (Nat.pow_le_pow_right (by decide) short)
      exact (Nat.length_toDigits_le_iff (by decide) (by decide)).mpr bound
    · cases same

/-- Each of the two directions undoes the other one just where it can. -/
theorem dotted_inverse :
    (∀ path : Path, path.oversized? = none →
      (oversizedPart? path.dotted = none ∧ ofDotted path.dotted = path ↔
        path ≠ [.key []] ∧ ∀ segment ∈ path, segment.Plain)) ∧
    ∀ text : Text, oversizedPart? text = none →
      (ofDotted text).oversized? = none ∧
        ((ofDotted text).dotted = text ↔ ∀ part ∈ Text.splitOn '.' text, ¬part.Padded) := by
  constructor
  · intro path fits
    rw [ofDotted_dotted_iff]
    constructor
    · rintro ⟨-, exact⟩
      exact exact
    · rintro ⟨other, plain⟩
      exact ⟨oversizedPart?_dotted fits plain, other, plain⟩
  · intro text fits
    exact ⟨oversized?_ofDotted fits, dotted_ofDotted_iff⟩

/-- An empty key comes back beside another segment, and a zero too many is lost. -/
theorem dotted_inverse_padded :
    let path : Path := [.key (Text.of "jobs"), .key [], .index 12]
    let text := Text.of "jobs.007"
    path.oversized? = none ∧ oversizedPart? text = none ∧ oversizedPart? path.dotted = none ∧
      ofDotted path.dotted = path ∧ (ofDotted text).oversized? = none ∧
        (ofDotted text).dotted ≠ text := by
  intro path text
  have fits : path.oversized? = none := by decide
  have short : oversizedPart? text = none := by decide
  have plain : ∀ segment ∈ path, segment.Plain := by
    intro segment member
    simp only [path, List.mem_cons, List.not_mem_nil, or_false] at member
    rcases member with rfl | rfl | rfl
    · exact .key (by decide) (by decide)
    · exact .key (by decide) (by decide)
    · exact .index (by decide)
  have padded : Text.Padded (Text.of "007") := ⟨by decide, Text.of "07", by decide, rfl⟩
  obtain ⟨kept, back⟩ := (dotted_inverse.1 path fits).mpr ⟨by decide, plain⟩
  obtain ⟨writable, written⟩ := dotted_inverse.2 text short
  refine ⟨fits, short, kept, back, writable, fun same => ?_⟩
  exact written.mp same (Text.of "007") (by decide) padded

end Path

end Flowfile
