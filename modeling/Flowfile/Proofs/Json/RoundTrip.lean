import Flowfile.Expr.Function
import Flowfile.Proofs.Json.Numeral
import Flowfile.Proofs.Json.Quoted

/-! A value that is written as JSON and read again.

The writer puts a comma or the end of a line after every value inside another one, so that the
reader sees where each ends. The reader's fuel is counted in characters: a value needs no more of it
than it takes up in the text. -/

namespace Flowfile

namespace Value

/-- Values that JSON keeps: none is a double, and no mapping has a key twice. -/
inductive Exact : Value → Prop
  | undefined : Exact .undefined
  | null : Exact .null
  | bool (b : Bool) : Exact (.bool b)
  | int (i : Int) : Exact (.int i)
  | str (s : Text) : Exact (.str s)
  | list (origin : Origin) {items : List Value} (inside : ∀ item ∈ items, Exact item) :
      Exact (.list origin items)
  | map (origin : Origin) {entries : List (Text × Value)}
      (distinct : (entries.map Prod.fst).Nodup) (inside : ∀ entry ∈ entries, Exact entry.2) :
      Exact (.map origin entries)

mutual

/-- The value that comes back: what is undefined as null, an integer of more than 1024 bits as an
infinity of its sign, everything else as it was, but that nothing remembers its place. -/
def reread : Value → Value
  | .undefined | .null => .null
  | .bool b => .bool b
  | .number (.int i) =>
    if 1024 < Number.bitLength i then .float (.infinite (i < 0)) else .int i
  | .number (.float d) => .float d
  | .str s => .str s
  | .list _ items => .list none (rereadItems items)
  | .map _ entries => .record (rereadEntries entries)

def rereadItems : List Value → List Value
  | [] => []
  | item :: items => reread item :: rereadItems items

def rereadEntries : List (Text × Value) → List (Text × Value)
  | [] => []
  | (key, item) :: entries => (key, reread item) :: rereadEntries entries

end

theorem assign_new {key : Text} {item : Value} {entries : List (Text × Value)}
    (new : key ∉ entries.map Prod.fst) :
    assign key item entries = entries ++ [(key, item)] := by
  induction entries with
  | nil => rfl
  | cons entry entries ih =>
      obtain ⟨k, v⟩ := entry
      rw [List.map_cons, List.mem_cons, not_or] at new
      rw [assign, if_neg (Ne.symm new.1), ih new.2, List.cons_append]

end Value

namespace Json

/-- How a written value may begin: not with white space, and with nothing that a reader takes for
something else than a value. -/
def Opens (text : Text) : Prop :=
  ∃ c more, text = c :: more ∧ isSpace c = false ∧ c ≠ ']' ∧ c ≠ '\uFEFF'

theorem opens_ofInt (i : Int) : Opens (Text.ofInt i) := by
  cases i with
  | ofNat n =>
      obtain ⟨c, more, shape, digit⟩ := Text.ofNat_eq_cons n
      have apart {other : Char} (letter : Text.isAsciiDigit other = false) : c ≠ other :=
        Text.ne_of_isAsciiDigit digit letter
      refine ⟨c, more, shape, ?_, apart rfl, apart rfl⟩
      rw [isSpace, ← Bool.not_eq_true]
      simp only [Bool.or_eq_true, decide_eq_true_eq]
      rintro (((rfl | rfl) | rfl) | rfl) <;> cases digit
  | negSucc n => exact ⟨'-', _, rfl, rfl, by decide, by decide⟩

theorem toJson_int (i : Int) :
    (Number.int i).toJson =
      if 1024 < Number.bitLength i then Text.of (if i < 0 then "-Infinity" else "Infinity")
      else Text.ofInt i := by
  rw [Number.toJson, Number.clamp]
  by_cases large : 1024 < Number.bitLength i
  · by_cases negative : i < 0 <;> simp [large, negative, Double.toJson, Layout.writeDouble]
  · rw [if_neg large, if_neg large]

theorem opens_writeAt (depth : Nat) {v : Value} (exact : v.Exact) : Opens (writeAt depth v) := by
  cases exact with
  | undefined | null => exact ⟨'n', _, rfl, rfl, by decide, by decide⟩
  | bool b =>
      cases b
      · exact ⟨'f', _, rfl, rfl, by decide, by decide⟩
      · exact ⟨'t', _, rfl, rfl, by decide, by decide⟩
  | int i =>
      rw [writeAt, toJson_int]
      by_cases large : 1024 < Number.bitLength i
      · rw [if_pos large]
        by_cases negative : i < 0
        · rw [if_pos negative]
          exact ⟨'-', _, rfl, rfl, by decide, by decide⟩
        · rw [if_neg negative]
          exact ⟨'I', _, rfl, rfl, by decide, by decide⟩
      · rw [if_neg large]
        exact opens_ofInt i
  | str s => exact ⟨'"', _, rfl, rfl, by decide, by decide⟩
  | @list origin items inside =>
      cases items with
      | nil => exact ⟨'[', _, rfl, rfl, by decide, by decide⟩
      | cons item items => exact ⟨'[', _, rfl, rfl, by decide, by decide⟩
  | @map origin entries distinct inside =>
      cases entries with
      | nil => exact ⟨'\x7b', _, rfl, rfl, by decide, by decide⟩
      | cons entry entries => exact ⟨'\x7b', _, rfl, rfl, by decide, by decide⟩

theorem skipSpace_solid {c : Char} (solid : isSpace c = false) (rest : Text) :
    skipSpace (c :: rest) = c :: rest :=
  List.dropWhile_cons_of_neg (by simp [solid])

theorem skipSpace_opens {text : Text} (opens : Opens text) (rest : Text) :
    skipSpace (text ++ rest) = text ++ rest := by
  obtain ⟨c, more, rfl, solid, -, -⟩ := opens
  exact skipSpace_solid solid _

theorem skipSpace_newline (depth : Nat) (rest : Text) :
    skipSpace (newline depth ++ rest) = skipSpace rest := by
  rw [skipSpace, newline, List.cons_append, List.dropWhile_cons_of_pos rfl,
    List.dropWhile_append_of_pos fun c member => by rw [List.eq_of_mem_replicate member]; rfl]
  rfl

section

variable {fuel : Nat} {rest : Text}

theorem readValue_string (s : Text) :
    readValue (fuel + 1) (writeString s ++ rest) = .ok (.str s, rest) := by
  have whole : writeString s ++ rest = '"' :: (s.flatMap writeChar ++ '"' :: rest) := by
    simp [writeString]
  rw [whole, readValue, if_pos rfl, readString_writeString]

theorem find_constants_digit (front : Text) (short : front.length ≤ 1) {c : Char}
    (digit : Text.isAsciiDigit c = true) (more : Text) :
    constants.find? (fun constant => constant.1.isPrefixOf (front ++ c :: more)) = none := by
  have letters : constants.all (fun constant =>
      2 ≤ constant.1.length && constant.1.all fun d => !Text.isAsciiDigit d) = true := by
    decide
  rw [List.find?_eq_none]
  intro constant member starts
  have plain := List.all_eq_true.mp letters constant member
  rw [Bool.and_eq_true, decide_eq_true_eq, List.all_eq_true] at plain
  obtain ⟨after, whole⟩ := List.isPrefixOf_iff_prefix.mp starts
  have inside : (constant.1 ++ after)[front.length]? = constant.1[front.length]? :=
    List.getElem?_append_left (by omega)
  have spelled : constant.1[front.length]? = some c := by
    rw [← inside, whole]
    simp
  have noDigit := plain.2 c (List.mem_of_getElem? spelled)
  rw [digit] at noDigit
  cases noDigit

theorem readValue_ofInt (follows : Follows rest) {i : Int}
    (few : (Text.ofNat i.natAbs).length ≤ digitLimit) :
    readValue (fuel + 1) (Text.ofInt i ++ rest) = .ok (.int i, rest) := by
  rw [← readNumber_ofInt follows few]
  cases i with
  | ofNat n =>
      obtain ⟨c, more, shape, digit⟩ := Text.ofNat_eq_cons n
      have absent := find_constants_digit [] (by decide) digit (more ++ rest)
      change readValue (fuel + 1) (Text.ofNat n ++ rest) = readNumber (Text.ofNat n ++ rest)
      rw [shape, List.cons_append, readValue, if_neg (Text.ne_of_isAsciiDigit digit rfl),
        if_neg (Text.ne_of_isAsciiDigit digit rfl), if_neg (Text.ne_of_isAsciiDigit digit rfl)]
      rw [List.nil_append] at absent
      rw [absent]
  | negSucc n =>
      obtain ⟨c, more, shape, digit⟩ := Text.ofNat_eq_cons (n + 1)
      have absent := find_constants_digit ['-'] (by decide) digit (more ++ rest)
      change readValue (fuel + 1) ('-' :: (Text.ofNat (n + 1) ++ rest)) =
        readNumber ('-' :: (Text.ofNat (n + 1) ++ rest))
      rw [shape, List.cons_append, readValue, if_neg (by decide), if_neg (by decide),
        if_neg (by decide)]
      rw [List.singleton_append] at absent
      rw [absent]

/-- An opened list that is not empty has its first item on a new line. -/
theorem readValue_opened {text : Text} (opens : Opens text) (depth : Nat) :
    readValue (fuel + 1) ('[' :: newline depth ++ (text ++ rest)) =
      readItems fuel [] (text ++ rest) := by
  have inner : skipSpace (newline depth ++ (text ++ rest)) = text ++ rest := by
    rw [skipSpace_newline, skipSpace_opens opens]
  obtain ⟨c, more, rfl, -, item, -⟩ := opens
  rw [List.cons_append, readValue, if_neg (by decide), if_neg (by decide), if_pos rfl, inner]
  simp [item]

theorem readValue_openedMap (depth : Nat) (inner : Text) :
    readValue (fuel + 1) ('\x7b' :: newline depth ++ '"' :: inner) =
      readMembers fuel [] ('"' :: inner) := by
  rw [List.cons_append, readValue, if_neg (by decide), if_pos rfl, skipSpace_newline,
    skipSpace_solid rfl]
  rfl

section

variable {text after : Text} {item : Value}
  (read : readValue fuel (text ++ after) = .ok (item, after))

include read

theorem readItems_last (earlier : List Value) {depth : Nat}
    (closes : after = newline depth ++ ']' :: rest) :
    readItems (fuel + 1) earlier (text ++ after) =
      .ok (.list none (earlier.reverse ++ [item]), rest) := by
  rw [readItems, read, closes]
  dsimp only
  rw [skipSpace_newline, skipSpace_solid rfl]
  exact congrArg (fun items => Except.ok (Value.list none items, rest)) List.reverse_cons

theorem readItems_next (earlier : List Value) {depth : Nat} {next : Text} (opens : Opens next)
    (goes : after = ',' :: (newline depth ++ (next ++ rest))) :
    readItems (fuel + 1) earlier (text ++ after) =
      readItems fuel (item :: earlier) (next ++ rest) := by
  rw [readItems, read, goes]
  dsimp only
  rw [skipSpace_solid rfl]
  change readItems fuel (item :: earlier) (skipSpace (newline depth ++ (next ++ rest))) = _
  rw [skipSpace_newline, skipSpace_opens opens]

variable (key : Text) (opens : Opens text) (earlier : List (Text × Value))

include opens

theorem readMembers_member :
    readMembers (fuel + 1) earlier (writeString key ++ [':', ' '] ++ text ++ after) =
      match skipSpace after with
      | '\x7d' :: rest => .ok (.record (Value.assign key item earlier), rest)
      | ',' :: rest => readMembers fuel (Value.assign key item earlier) (skipSpace rest)
      | rest => fail .expectingComma rest := by
  have whole : writeString key ++ [':', ' '] ++ text ++ after =
      '"' :: (key.flatMap writeChar ++ '"' :: ':' :: ' ' :: (text ++ after)) := by
    simp [writeString]
  have colon : skipSpace (':' :: ' ' :: (text ++ after)) = ':' :: ' ' :: (text ++ after) :=
    skipSpace_solid rfl _
  have value : readValue fuel (skipSpace (' ' :: (text ++ after))) = .ok (item, after) := by
    change readValue fuel (skipSpace (text ++ after)) = _
    rw [skipSpace_opens opens, read]
  have step := readMembers.eq_def (fuel + 1) earlier
    ('"' :: (key.flatMap writeChar ++ '"' :: ':' :: ' ' :: (text ++ after)))
  simp only [readString_writeString, colon, value] at step
  rw [whole]
  exact step

theorem readMembers_last {depth : Nat} (closes : after = newline depth ++ '\x7d' :: rest) :
    readMembers (fuel + 1) earlier (writeString key ++ [':', ' '] ++ text ++ after) =
      .ok (.record (Value.assign key item earlier), rest) := by
  rw [readMembers_member read key opens, closes, skipSpace_newline, skipSpace_solid rfl]
  rfl

theorem readMembers_next {depth : Nat} {inner : Text}
    (goes : after = ',' :: (newline depth ++ '"' :: inner)) :
    readMembers (fuel + 1) earlier (writeString key ++ [':', ' '] ++ text ++ after) =
      readMembers fuel (Value.assign key item earlier) ('"' :: inner) := by
  rw [readMembers_member read key opens, goes, skipSpace_solid rfl]
  change readMembers fuel (Value.assign key item earlier) (skipSpace (newline depth ++ _)) = _
  rw [skipSpace_newline, skipSpace_solid rfl]

end

end

/-- A written value is read back, whatever may follow it. -/
structure ReadsBack (v : Value) : Prop where
  opens (depth : Nat) : Opens (writeAt depth v)
  read {depth fuel : Nat} {rest : Text} (enough : (writeAt depth v).length ≤ fuel)
    (follows : Follows rest) : readValue fuel (writeAt depth v ++ rest) = .ok (v.reread, rest)

theorem readItems_writeItems {depth closing : Nat} {rest : Text} {items : List Value}
    (inside : ∀ member ∈ items, ReadsBack member) {item : Value} (first : ReadsBack item)
    {fuel : Nat} (enough : (writeAt depth item ++ writeItems depth items).length < fuel)
    (earlier : List Value) :
    readItems fuel earlier
        (writeAt depth item ++ (writeItems depth items ++ (newline closing ++ ']' :: rest))) =
      .ok (.list none (earlier.reverse ++ item.reread :: Value.rereadItems items), rest) := by
  induction items generalizing item fuel earlier with
  | nil =>
      obtain ⟨fuel, rfl⟩ := Nat.exists_eq_succ_of_ne_zero (Nat.ne_zero_of_lt enough)
      rw [writeItems, List.append_nil] at enough
      exact readItems_last (first.read (by omega) (follows_newline closing _)) earlier rfl
  | cons next items ih =>
      obtain ⟨fuel, rfl⟩ := Nat.exists_eq_succ_of_ne_zero (Nat.ne_zero_of_lt enough)
      obtain ⟨second, others⟩ := List.forall_mem_cons.mp inside
      have goes : writeItems depth (next :: items) ++ (newline closing ++ ']' :: rest) =
          ',' :: (newline depth ++ (writeAt depth next ++
            (writeItems depth items ++ (newline closing ++ ']' :: rest)))) := by
        simp [writeItems]
      simp only [writeItems, List.length_append, List.length_cons] at enough
      have room : (writeAt depth next ++ writeItems depth items).length < fuel := by
        rw [List.length_append]
        omega
      rw [goes, readItems_next (first.read (by omega) (follows_comma _)) earlier
        (second.opens depth) rfl, ih others second room]
      simp [Value.rereadItems]

theorem new_of_distinct {key : Text} {earlier later : List Text}
    (distinct : (earlier ++ key :: later).Nodup) : key ∉ earlier := by
  intro present
  exact (List.nodup_append.mp distinct).2.2 key present key List.mem_cons_self rfl

theorem readMembers_writeEntries {depth closing : Nat} {rest : Text}
    {entries : List (Text × Value)} (inside : ∀ entry ∈ entries, ReadsBack entry.2) {key : Text}
    {item : Value} (first : ReadsBack item) {fuel : Nat}
    (enough : (writeString key ++ [':', ' '] ++ writeAt depth item ++
      writeEntries depth entries).length < fuel)
    {earlier : List (Text × Value)}
    (distinct : (earlier.map Prod.fst ++ key :: entries.map Prod.fst).Nodup) :
    readMembers fuel earlier (writeString key ++ [':', ' '] ++ writeAt depth item ++
        (writeEntries depth entries ++ (newline closing ++ '\x7d' :: rest))) =
      .ok (.record (earlier ++ (key, item.reread) :: Value.rereadEntries entries), rest) := by
  induction entries generalizing key item fuel earlier with
  | nil =>
      obtain ⟨fuel, rfl⟩ := Nat.exists_eq_succ_of_ne_zero (Nat.ne_zero_of_lt enough)
      have new := new_of_distinct distinct
      simp only [List.length_append] at enough
      have room : (writeAt depth item).length ≤ fuel := by omega
      have last : earlier ++ (key, item.reread) :: Value.rereadEntries [] =
          Value.assign key item.reread earlier := (Value.assign_new new).symm
      rw [last]
      exact readMembers_last (first.read room (follows_newline closing _)) key (first.opens depth)
        earlier rfl
  | cons next entries ih =>
      obtain ⟨nextKey, next⟩ := next
      obtain ⟨fuel, rfl⟩ := Nat.exists_eq_succ_of_ne_zero (Nat.ne_zero_of_lt enough)
      obtain ⟨second, others⟩ := List.forall_mem_cons.mp inside
      have new := new_of_distinct distinct
      have goes : writeEntries depth ((nextKey, next) :: entries) ++
            (newline closing ++ '\x7d' :: rest) =
          ',' :: (newline depth ++ (writeString nextKey ++ [':', ' '] ++ writeAt depth next ++
            (writeEntries depth entries ++ (newline closing ++ '\x7d' :: rest)))) := by
        simp [writeEntries]
      simp only [writeEntries, List.length_append, List.length_cons] at enough
      have room : (writeAt depth item).length ≤ fuel := by omega
      have roomAfter : (writeString nextKey ++ [':', ' '] ++ writeAt depth next ++
          writeEntries depth entries).length < fuel := by
        simp only [List.length_append, List.length_cons]
        omega
      have ordered : ((Value.assign key item.reread earlier).map Prod.fst ++
          nextKey :: entries.map Prod.fst).Nodup := by
        rw [Value.assign_new new]
        simpa using distinct
      rw [goes]
      refine (readMembers_next (first.read room (follows_comma _)) key (first.opens depth)
        earlier rfl).trans ((ih others second roomAfter ordered).trans ?_)
      rw [Value.assign_new new]
      simp [Value.rereadEntries]

theorem readValue_toJson {fuel : Nat} {rest : Text} (follows : Follows rest) (i : Int) :
    readValue (fuel + 1) ((Number.int i).toJson ++ rest) = .ok ((Value.int i).reread, rest) := by
  rw [toJson_int, Value.reread]
  by_cases large : 1024 < Number.bitLength i
  · rw [if_pos large, if_pos large]
    by_cases negative : i < 0
    · rw [if_pos negative, decide_eq_true negative]
      rfl
    · rw [if_neg negative, decide_eq_false negative]
      rfl
  · rw [if_neg large, if_neg large]
    have kept : (Number.int i).clamp = .int i := by rw [Number.clamp, if_neg large]
    exact readValue_ofInt follows (Number.clamp_digits _ i kept)

theorem readsBack_of_succ {v : Value} (opens : ∀ depth, Opens (writeAt depth v))
    (read : ∀ depth fuel rest, (writeAt depth v).length ≤ fuel + 1 → Follows rest →
      readValue (fuel + 1) (writeAt depth v ++ rest) = .ok (v.reread, rest)) : ReadsBack v := by
  refine ⟨opens, ?_⟩
  intro depth fuel rest enough follows
  obtain ⟨c, more, shape, -⟩ := opens depth
  cases fuel with
  | zero =>
      rw [shape] at enough
      cases enough
  | succ fuel => exact read depth fuel rest enough follows

theorem readsBack {v : Value} (exact : v.Exact) : ReadsBack v := by
  have opens (depth : Nat) : Opens (writeAt depth v) := opens_writeAt depth exact
  induction exact with
  | undefined | null => exact readsBack_of_succ opens fun _ _ _ _ _ => rfl
  | bool b => exact readsBack_of_succ opens fun _ _ _ _ _ => by cases b <;> rfl
  | int i => exact readsBack_of_succ opens fun _ _ _ _ follows => readValue_toJson follows i
  | str s => exact readsBack_of_succ opens fun _ _ _ _ _ => readValue_string s
  | @list origin items inside ih =>
      refine readsBack_of_succ opens ?_
      intro depth fuel rest enough _
      cases items with
      | nil => rfl
      | cons item items =>
          obtain ⟨first, others⟩ := List.forall_mem_cons.mp
            fun member present => ih member present fun _ => opens_writeAt _ (inside member present)
          have whole : writeAt depth (.list origin (item :: items)) ++ rest =
              '[' :: newline (depth + 1) ++ (writeAt (depth + 1) item ++
                (writeItems (depth + 1) items ++ (newline depth ++ ']' :: rest))) := by
            simp [writeAt]
          have room : (writeAt (depth + 1) item ++ writeItems (depth + 1) items).length < fuel := by
            simp only [writeAt, List.length_append, List.length_cons, List.length_nil] at enough ⊢
            omega
          rw [whole, readValue_opened (first.opens _), readItems_writeItems others first room]
          rfl
  | @map origin entries distinct inside ih =>
      refine readsBack_of_succ opens ?_
      intro depth fuel rest enough _
      cases entries with
      | nil => rfl
      | cons entry entries =>
          obtain ⟨key, item⟩ := entry
          obtain ⟨first, others⟩ := List.forall_mem_cons.mp
            fun member present => ih member present fun _ => opens_writeAt _ (inside member present)
          have whole : writeAt depth (.map origin ((key, item) :: entries)) ++ rest =
              '\x7b' :: newline (depth + 1) ++
                (writeString key ++ [':', ' '] ++ writeAt (depth + 1) item ++
                  (writeEntries (depth + 1) entries ++ (newline depth ++ '\x7d' :: rest))) := by
            simp [writeAt]
          have room : (writeString key ++ [':', ' '] ++ writeAt (depth + 1) item ++
              writeEntries (depth + 1) entries).length < fuel := by
            simp only [writeAt, List.length_append, List.length_cons, List.length_nil] at enough ⊢
            omega
          rw [whole]
          exact (readValue_openedMap (depth + 1) _).trans
            (readMembers_writeEntries others first room distinct)

theorem read_write {v : Value} (exact : v.Exact) : read (write v) = .ok v.reread := by
  obtain ⟨c, more, shape, solid, -, mark⟩ := opens_writeAt 0 exact
  have value : readValue (2 * (write v).length + 2) (write v) = .ok (v.reread, []) := by
    rw [← List.append_nil (write v)]
    exact (readsBack exact).read (by rw [write, List.append_nil]; omega) follows_nil
  have start : skipSpace (write v) = write v := by
    rw [write, shape, skipSpace_solid solid]
  have whole : readWhole (write v) = .ok v.reread := by
    rw [readWhole, start, value]
    rfl
  rw [← whole, write, shape]
  unfold read
  split
  · rename_i marked
    exact absurd (List.cons.inj marked).1 mark
  · rfl

end Json

/-- What `toJSON` writes, `fromJSON` reads: whatever nested value it is given, as long as no double
is in it, it comes back with null for what is undefined and infinities for the integers of more than
1024 bits, with its keys in the same order. -/
theorem Function.fromJson_toJson {v : Value} (exact : v.Exact) :
    ∃ text, Function.toJson.apply [v] = .ok (.str text) ∧
      Function.fromJson.apply [.str text] = .ok v.reread := by
  refine ⟨Json.write v, rfl, ?_⟩
  have read : Json.read (Json.write v) = .ok v.reread := Json.read_write exact
  obtain ⟨c, more, shape, -⟩ := Json.opens_writeAt 0 exact
  rw [Json.write, shape] at read
  rw [Json.write, shape]
  rw [apply, Flowfile.fromJson, Value.toText]
  simp only [read]

theorem Function.fromJson_toJson_nested :
    ∃ text,
      Function.toJson.apply [.map (some []) [
        (Text.of "🙂\n", .list (some [0])
          [.undefined, .int (2 ^ 1024), .int (-(2 ^ 1024)), .int (-7)]),
        ([], .map (some [1]) []), (Text.of "\"", .list (some [2]) [.bool true])]] =
          .ok (.str text) ∧
      Function.fromJson.apply [.str text] = .ok (.record [
        (Text.of "🙂\n", .list none [.null, .float (.infinite false), .float (.infinite true),
          .int (-7)]),
        ([], .record []), (Text.of "\"", .list none [.bool true])]) := by
  have positive : (Value.int (2 ^ 1024)).reread = .float (.infinite false) := by
    rw [Value.reread, if_pos (by decide +kernel), decide_eq_false (by decide +kernel)]
  have negative : (Value.int (-(2 ^ 1024))).reread = .float (.infinite true) := by
    rw [Value.reread, if_pos (by decide +kernel), decide_eq_true (by decide +kernel)]
  rw [← positive, ← negative]
  refine Function.fromJson_toJson (.map _ (by decide) ?_)
  simp only [List.forall_mem_cons, List.not_mem_nil, false_implies, implies_true, and_true]
  refine ⟨.list _ ?_, .map _ (by decide) (by simp), .list _ ?_⟩
  · simp only [List.forall_mem_cons, List.not_mem_nil, false_implies, implies_true, and_true]
    exact ⟨.undefined, .int _, .int _, .int _⟩
  · simp only [List.forall_mem_cons, List.not_mem_nil, false_implies, implies_true, and_true]
    exact .bool true

end Flowfile
