import Flowfile.Json.Writer
import Flowfile.Proofs.Expr.Numeral
import Flowfile.Proofs.Number.Reading
import Flowfile.Proofs.Number.Shortest
import Flowfile.Proofs.Text.Canonical

/-! How decimals are written. What is written denotes the decimal again in every layout. In that of
expressions it has an exponent just outside the range of `1e-6` to below `1e21`, and nothing could
be left out of it. -/

namespace Flowfile

namespace Text

theorem readDigits_append_zeros (count : Nat) (digits : Text) :
    readDigits 10 (digits ++ List.replicate count '0') = readDigits 10 digits * 10 ^ count := by
  have zeros := appendDigits_zeros 10 count []
  rw [List.append_nil] at zeros
  have split := appendDigits_append 10 digits (List.replicate count '0')
  rw [zeros, List.length_replicate] at split
  rw [readDigits_eq, readDigits_eq]
  exact split

end Text

namespace Decimal

open Text

/-- Where the point stands, relative to the first digit. -/
def point (d : Decimal) : Int := d.power + decimalLength d.digits

theorem value_bounds {d : Decimal} (nonzero : d.digits ≠ 0) :
    (10 : ℚ) ^ (d.point - 1) ≤ d.value ∧ d.value < (10 : ℚ) ^ d.point := by
  have positive : (0 : ℚ) < 10 ^ d.power := zpow_pos (by norm_num) _
  have low : (10 : ℚ) ^ ((decimalLength d.digits : Int) - 1) ≤ d.digits := by
    have := decimalLength_pos d.digits
    rw [show (decimalLength d.digits : Int) - 1 = (decimalLength d.digits - 1 : Nat) by omega,
      zpow_natCast]
    exact_mod_cast pow_decimalLength_le nonzero
  have high : (d.digits : ℚ) < (10 : ℚ) ^ (decimalLength d.digits : Int) := by
    rw [zpow_natCast]
    exact_mod_cast lt_pow_decimalLength d.digits
  rw [point, value]
  constructor
  · rw [show d.power + decimalLength d.digits - 1 = (decimalLength d.digits - 1 : Int) + d.power by
      omega, zpow_add₀ (by norm_num)]
    exact mul_le_mul_of_nonneg_right low positive.le
  · rw [add_comm, zpow_add₀ (by norm_num)]
    exact mul_lt_mul_of_pos_right high positive

end Decimal

namespace Layout

open Text Decimal

def mantissa : Text → Text
  | first :: second :: rest => first :: '.' :: second :: rest
  | short => short

def exponent (width : Nat) (power : Int) : Text :=
  'e' :: (if 0 ≤ power then '+' else '-') ::
    (List.replicate (width - decimalLength power.natAbs) '0' ++ ofNat power.natAbs)

section

variable (layout : Layout) (d : Decimal)

theorem write_exponential
    (outside : d.point < layout.leastPoint ∨ layout.greatestPoint < d.point) :
    layout.write d =
      mantissa (ofNat d.digits) ++ exponent layout.exponentWidth (d.point - 1) := by
  have branch : (d.power + ((ofNat d.digits).length : Int) < layout.leastPoint ||
      layout.greatestPoint < d.power + ((ofNat d.digits).length : Int)) = true := by
    rw [Bool.or_eq_true, decide_eq_true_eq, decide_eq_true_eq]
    exact outside
  rw [write]
  dsimp only
  rw [if_pos branch]
  simp only [List.append_assoc]
  rfl

section

variable (inside : layout.leastPoint ≤ d.point ∧ d.point ≤ layout.greatestPoint)

include inside

theorem write_positional :
    layout.write d =
      if 0 ≤ d.power then
        ofNat d.digits ++ List.replicate d.power.toNat '0' ++
          (if layout.keepsPoint then ['.', '0'] else [])
      else if 0 < d.point then
        (ofNat d.digits).take d.point.toNat ++ '.' :: (ofNat d.digits).drop d.point.toNat
      else '0' :: '.' :: List.replicate (-d.point).toNat '0' ++ ofNat d.digits := by
  have branch : ¬(d.power + ((ofNat d.digits).length : Int) < layout.leastPoint ||
      layout.greatestPoint < d.power + ((ofNat d.digits).length : Int)) = true := by
    have := inside
    simp only [Bool.or_eq_true, decide_eq_true_eq]
    change ¬(d.point < _ ∨ _ < d.point)
    omega
  rw [write]
  dsimp only
  rw [if_neg branch]
  have zeros : d.power + ((ofNat d.digits).length : Int) - (ofNat d.digits).length = d.power := by
    omega
  rw [zeros]
  congr 1
  exact propext (by omega)

end

theorem isAsciiDigit_of_mem_ofNat {n : Nat} {c : Char} (member : c ∈ ofNat n) :
    isAsciiDigit c = true :=
  isAsciiDigit_of_mem_toDigits member

theorem exponentOf_exponent (width : Nat) (power : Int) :
    exponentOf (exponent width power) = power := by
  rw [exponent]
  split
  · rw [exponentOf, readDigits_zeros, readDigits_ofNat]
    omega
  · rw [exponentOf, readDigits_zeros, readDigits_ofNat]
    omega

theorem exponent_stop {width : Nat} {power : Int} {c : Char}
    (first : (exponent width power).head? = some c) : isAsciiDigit c = false ∧ c ≠ '.' := by
  cases first
  decide

theorem ofLiteral_mantissa {first : Char} {rest tail : Text}
    (all : ∀ c ∈ first :: rest, isAsciiDigit c = true)
    (stop : ∀ c, tail.head? = some c → isAsciiDigit c = false ∧ c ≠ '.') :
    ofLiteral (mantissa (first :: rest) ++ tail) =
      ⟨readDigits 10 (first :: rest), exponentOf tail - rest.length⟩ := by
  cases rest with
  | nil =>
      rw [List.length_nil, Nat.cast_zero, sub_zero]
      exact ofLiteral_whole all stop
  | cons second rest =>
      have single : ∀ c ∈ [first], isAsciiDigit c = true := by
        simpa using all first List.mem_cons_self
      exact ofLiteral_fraction single (fun c member => all c (List.mem_cons_of_mem first member))
        fun c head => (stop c head).1

theorem ofLiteral_exponential (width : Nat) :
    ofLiteral (mantissa (ofNat d.digits) ++ exponent width (d.point - 1)) = d := by
  have length : decimalLength d.digits = (ofNat d.digits).length := rfl
  have read := readDigits_ofNat d.digits
  have all (c : Char) : c ∈ ofNat d.digits → isAsciiDigit c = true := isAsciiDigit_of_mem_ofNat
  obtain ⟨first, rest, shape, -⟩ := ofNat_eq_cons d.digits
  rw [shape] at length read all
  rw [shape, ofLiteral_mantissa all fun c head => exponent_stop head, exponentOf_exponent, read,
    point, length, List.length_cons]
  have power : d.power + (rest.length + 1 : Nat) - 1 - rest.length = d.power := by omega
  rw [power]

section

variable {d}

theorem value_positional_whole (whole : 0 ≤ d.power) (point : Bool) :
    (ofLiteral (ofNat d.digits ++ List.replicate d.power.toNat '0' ++
      (if point then ['.', '0'] else []))).value = d.value := by
  have all : ∀ c ∈ ofNat d.digits ++ List.replicate d.power.toNat '0', isAsciiDigit c = true :=
    fun c member =>
      (List.mem_append.mp member).elim isAsciiDigit_of_mem_ofNat isAsciiDigit_of_mem_zeros
  have power : (10 : ℚ) ^ d.power = (10 : ℚ) ^ d.power.toNat := by
    rw [← zpow_natCast, Int.toNat_of_nonneg whole]
  have read := readDigits_append_zeros d.power.toNat (ofNat d.digits)
  rw [readDigits_ofNat] at read
  cases point with
  | false =>
      rw [if_neg Bool.false_ne_true, List.append_nil, ofLiteral_run all, read, value, value,
        power]
      push_cast
      exact mul_one _
  | true =>
      have zero := ((isDigits_iff ['0']).mp rfl).2
      have more := readDigits_append_zeros 1 (ofNat d.digits ++ List.replicate d.power.toNat '0')
      rw [if_pos rfl, ofLiteral_point all zero, List.replicate_one.symm, more, read, value, value,
        power]
      push_cast
      have tenth : (10 : ℚ) * 10 ^ (-(['0'].length : Int)) = 1 := by norm_num
      rw [mul_assoc, tenth, mul_one]

theorem ofLiteral_positional_within (shifted : d.power < 0) (within : 0 < d.point) :
    ofLiteral ((ofNat d.digits).take d.point.toNat ++
      '.' :: (ofNat d.digits).drop d.point.toNat) = d := by
  have length : decimalLength d.digits = (ofNat d.digits).length := rfl
  have place : d.point = d.power + decimalLength d.digits := rfl
  rw [ofLiteral_point (fun c member => isAsciiDigit_of_mem_ofNat (List.mem_of_mem_take member))
      fun c member => isAsciiDigit_of_mem_ofNat (List.mem_of_mem_drop member),
    List.take_append_drop, readDigits_ofNat, List.length_drop, ← length]
  congr 1
  omega

theorem ofLiteral_positional_small (small : d.point ≤ 0) :
    ofLiteral ('0' :: '.' :: List.replicate (-d.point).toNat '0' ++ ofNat d.digits) = d := by
  have length : decimalLength d.digits = (ofNat d.digits).length := rfl
  have place : d.point = d.power + decimalLength d.digits := rfl
  have zero := ((isDigits_iff ['0']).mp rfl).2
  have written :
      ofLiteral (['0'] ++ '.' :: (List.replicate (-d.point).toNat '0' ++ ofNat d.digits)) = _ :=
    ofLiteral_point zero fun c member =>
      (List.mem_append.mp member).elim isAsciiDigit_of_mem_zeros isAsciiDigit_of_mem_ofNat
  have read := (readDigits_zeros 1 _).trans (readDigits_zeros (-d.point).toNat (ofNat d.digits))
  rw [readDigits_ofNat] at read
  refine written.trans ?_
  rw [← List.replicate_one, read, List.length_append, List.length_replicate, ← length]
  congr 1
  omega

end

theorem write_head : ∃ c rest, layout.write d = c :: rest ∧ isAsciiDigit c = true := by
  obtain ⟨c, rest, shape, digit⟩ := ofNat_eq_cons d.digits
  by_cases inside : layout.leastPoint ≤ d.point ∧ d.point ≤ layout.greatestPoint
  · rw [write_positional layout d inside, shape]
    split
    · exact ⟨c, _, rfl, digit⟩
    · split
      · rename_i within
        obtain ⟨count, place⟩ : ∃ count, d.point.toNat = count + 1 :=
          ⟨d.point.toNat - 1, by omega⟩
        rw [place]
        exact ⟨c, _, rfl, digit⟩
      · exact ⟨'0', _, rfl, rfl⟩
  · rw [write_exponential layout d (by omega), shape]
    cases rest with
    | nil => exact ⟨c, _, rfl, digit⟩
    | cons second rest => exact ⟨c, _, rfl, digit⟩

theorem write_value : (ofLiteral (layout.write d)).value = d.value := by
  by_cases inside : layout.leastPoint ≤ d.point ∧ d.point ≤ layout.greatestPoint
  · rw [write_positional layout d inside]
    split
    · exact value_positional_whole ‹_› _
    · split
      · rw [ofLiteral_positional_within (by omega) ‹_›]
      · rw [ofLiteral_positional_small (by omega)]
  · rw [write_exponential layout d (by omega), ofLiteral_exponential]

end

section

variable {d : Decimal} (nonzero : d.digits % 10 ≠ 0)

include nonzero

theorem exponential_write (outside : d.point < -5 ∨ 21 < d.point) :
    Exponential (expression.write d) := by
  have leads := leads_ofNat (show d.digits ≠ 0 by omega)
  have trails := trails_ofNat nonzero
  have far : (d.point - 1).natAbs ≠ 0 := by omega
  have least := leads_ofNat far
  have width : expression.exponentWidth - decimalLength (d.point - 1).natAbs = 0 := by
    have := decimalLength_pos (d.point - 1).natAbs
    change 1 - _ = 0
    omega
  have signed : (if 0 ≤ d.point - 1 then '+' else '-') = '+' ∨
      (if 0 ≤ d.point - 1 then '+' else '-') = '-' := by
    split
    · exact .inl rfl
    · exact .inr rfl
  rw [write_exponential expression d outside, exponent, width, List.replicate_zero, List.nil_append]
  obtain ⟨first, rest, shape, -⟩ := ofNat_eq_cons d.digits
  rw [shape] at leads trails ⊢
  cases rest with
  | nil => exact .single leads signed least
  | cons second rest =>
      exact .several (Leads.of_append [first] leads (by simp))
        (Trails.of_append [first] trails (by simp)) signed least

theorem positional_write (inside : -5 ≤ d.point ∧ d.point ≤ 21) :
    Positional (expression.write d) := by
  have leads := leads_ofNat (show d.digits ≠ 0 by omega)
  have trails := trails_ofNat nonzero
  have length : decimalLength d.digits = (ofNat d.digits).length := rfl
  have place : d.point = d.power + decimalLength d.digits := rfl
  rw [write_positional expression d inside]
  split
  · rw [if_neg (by decide), List.append_nil]
    exact .whole (leads.append fun c => isAsciiDigit_of_mem_zeros)
  split
  · have cut := List.take_append_drop d.point.toNat (ofNat d.digits)
    rw [← cut] at leads trails
    refine .fraction (.inr (leads.of_append _ ?_)) (trails.of_append _ ?_)
    · rw [← List.length_pos_iff, List.length_take]
      omega
    · rw [← List.length_pos_iff, List.length_drop]
      omega
  · have built : Positional (['0'] ++ '.' :: (List.replicate (-d.point).toNat '0' ++
        ofNat d.digits)) :=
      .fraction (.inl rfl) (trails.append fun c => isAsciiDigit_of_mem_zeros)
    exact built

end

theorem outside_iff {d : Decimal} (nonzero : d.digits ≠ 0) :
    d.point < -5 ∨ 21 < d.point ↔ d.value < (10 : ℚ) ^ (-6 : Int) ∨ (10 : ℚ) ^ 21 ≤ d.value := by
  obtain ⟨low, high⟩ := value_bounds nonzero
  have several : (1 : ℚ) < 10 := by norm_num
  constructor
  · rintro (less | more)
    · exact .inl (high.trans_le (zpow_le_zpow_right₀ several.le (by omega)))
    · refine .inr (le_trans ?_ low)
      rw [← zpow_natCast]
      exact zpow_le_zpow_right₀ several.le (by push_cast; omega)
  · rintro (less | more)
    · have := (zpow_lt_zpow_iff_right₀ several).mp (low.trans_lt less)
      omega
    · rw [← zpow_natCast] at more
      have := (zpow_lt_zpow_iff_right₀ several).mp (more.trans_lt high)
      push_cast at this
      omega

end Layout

/-- The number that a decimal literal denotes exactly. -/
def Text.denoted : Text → ℚ
  | '-' :: body => -(Decimal.ofLiteral body).value
  | body => (Decimal.ofLiteral body).value

theorem Layout.denoted_write (layout : Layout) (d : Decimal) :
    (layout.write d).denoted = d.value := by
  obtain ⟨c, rest, shape, digit⟩ := write_head layout d
  have value := write_value layout d
  rw [shape] at value ⊢
  rwa [Text.denoted.eq_2]
  rintro body same
  cases same
  cases digit

namespace Double

open Text

section

variable {rank : Fin limit} (nonzero : rank.val ≠ 0)

include nonzero

theorem digits_shortest : (Decimal.shortest rank).digits ≠ 0 := by
  have := (Decimal.shortest_spec nonzero).2
  omega

theorem writeDouble_eq (layout : Layout) (zero : Text) (signedZero negative : Bool) :
    layout.writeDouble zero signedZero (finite negative rank) =
      if negative then '-' :: layout.write (Decimal.shortest rank)
      else layout.write (Decimal.shortest rank) :=
  if_neg nonzero

theorem toDouble_of_value {text : Text} (value : (Decimal.ofLiteral text).value =
    (Decimal.shortest rank).value) (negative : Bool) :
    (Decimal.ofLiteral text).toDouble negative = finite negative rank := by
  have positive := Decimal.value_pos (digits_shortest nonzero)
  have digits : (Decimal.ofLiteral text).digits ≠ 0 := by
    intro zero
    rw [← value, Decimal.value, zero, Nat.cast_zero, zero_mul] at positive
    exact lt_irrefl 0 positive
  rw [Decimal.toDouble_eq digits, value, (Decimal.shortest_spec nonzero).1, ofRank_eq]

theorem toNumber?_write {layout : Layout}
    (form : IsDecimal (layout.write (Decimal.shortest rank))) (negative : Bool) :
    Text.toNumber? (if negative then '-' :: layout.write (Decimal.shortest rank)
      else layout.write (Decimal.shortest rank)) = some (finite negative rank) := by
  have read := toDouble_of_value nonzero (Layout.write_value layout (Decimal.shortest rank))
  cases negative with
  | true =>
      rw [if_pos rfl, toNumber?_signed (.inl rfl) form]
      exact congrArg Option.some (read true)
  | false =>
      rw [if_neg Bool.false_ne_true, toNumber?_decimal form, read false]

end

/-- The text of a number denotes the decimal that its JSON text denotes. It has an exponent just
outside the range of `1e-6` to below `1e21`, nothing in it could be left out, and the number is read
back from it. -/
theorem toText_exact {rank : Fin limit} (nonzero : rank.val ≠ 0) (negative : Bool) :
    let decimal := (finite false rank).toJson.denoted
    let outside := decimal < (10 : ℚ) ^ (-6 : Int) ∨ (10 : ℚ) ^ 21 ≤ decimal
    ∃ body, (finite negative rank).toText = (if negative then '-' :: body else body) ∧
      (finite negative rank).toText.denoted = (if negative then -decimal else decimal) ∧
      IsDecimal body ∧ (Exponential body ↔ outside) ∧ (Positional body ↔ ¬outside) ∧
      (finite negative rank).toText.toNumber? = some (finite negative rank) ∧
      (Value.str (Value.number (.float (finite negative rank))).toText).toNumber =
        finite negative rank := by
  intro decimal outside
  have json : decimal = (Decimal.shortest rank).value := by
    change Text.denoted (toJson _) = _
    rw [toJson, writeDouble_eq nonzero]
    exact Layout.denoted_write _ _
  have digits := digits_shortest nonzero
  have range : (Decimal.shortest rank).point < -5 ∨ 21 < (Decimal.shortest rank).point ↔
      outside := by
    rw [Layout.outside_iff digits, ← json]
  have trails := (Decimal.shortest_spec nonzero).2
  have scaled (far : outside) := Layout.exponential_write trails (range.mpr far)
  have plain (near : ¬outside) : Positional (Layout.expression.write (Decimal.shortest rank)) := by
    rw [← range] at near
    exact Layout.positional_write trails (by omega)
  have form : IsDecimal (Layout.expression.write (Decimal.shortest rank)) := by
    by_cases far : outside
    · exact (scaled far).isDecimal
    · exact (plain far).isDecimal
  have read := toNumber?_write nonzero form negative
  rw [toText, writeDouble_eq nonzero]
  refine ⟨_, rfl, ?_, form, ⟨fun exponential => ?_, scaled⟩, ⟨fun positional far => ?_, plain⟩,
    read, ?_⟩
  · rw [json]
    cases negative with
    | true => exact congrArg Neg.neg (Layout.write_value _ _)
    | false => exact Layout.denoted_write _ _
  · by_contra near
    exact (plain near).not_mem exponential.mem
  · exact positional.not_mem (scaled far).mem
  · have text : (Value.number (.float (finite negative rank))).toText =
        (finite negative rank).toText := rfl
    rw [Value.toNumber, text, toText, writeDouble_eq nonzero, read]
    rfl

/-- The least number with an exponent, with a sign. -/
theorem toText_exact_sextillion :
    let number := finite true ⟨0x444B1AE4D6E2EF50, by decide⟩
    number.toText = Text.of "-1e+21" ∧ number.toText.denoted = -10 ^ 21 ∧
      Exponential (Text.of "1e+21") ∧ Text.toNumber? (Text.of "-1e+21") = some number := by
  have nonzero : (⟨0x444B1AE4D6E2EF50, by decide⟩ : Fin limit).val ≠ 0 := by decide
  obtain ⟨body, text, denoted, -, exponential, -, read, -⟩ := toText_exact nonzero true
  have written : (finite true ⟨0x444B1AE4D6E2EF50, by decide⟩).toText = Text.of "-1e+21" := by
    decide +kernel
  have json : (finite false ⟨0x444B1AE4D6E2EF50, by decide⟩).toJson = Text.of "1e+21" := by
    decide +kernel
  have decimal : (Text.of "1e+21").denoted = 10 ^ 21 := by
    have literal : Decimal.ofLiteral (Text.of "1e+21") = ⟨1, 21⟩ := by decide +kernel
    change (Decimal.ofLiteral (Text.of "1e+21")).value = _
    rw [literal, Decimal.value]
    norm_num
  rw [json, decimal] at denoted exponential
  rw [written] at text read
  obtain rfl : body = Text.of "1e+21" := (List.cons.inj text).2.symm
  exact ⟨written, denoted, exponential.mpr (.inr le_rfl), read⟩

end Double

end Flowfile
