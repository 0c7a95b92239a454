import Mathlib.Algebra.Field.Rat
import Mathlib.Data.Nat.Cast.Field
import Mathlib.Tactic.NormNum
import Mathlib.Tactic.Ring
import SchemaSql.Catalog.Introspection
import SchemaSql.Proofs.Number.Digits
import SchemaSql.Proofs.Text.Lowered
import SchemaSql.Proofs.Text.Trimmed

/-!
The integers that values stand for, and those that are read of them. A value stands for an integer
if it is that integer: a flag for one or zero, a float if it is exactly the integer, and a text if
it spells it between blanks. An integer that 64 bits hold is read of every value that stands for it,
and no other is read, except of floats: a whole float out of range is read as the least or the
greatest integer that 64 bits hold. The numbers of a description hold 32 bits, and so never are such
a bound.
-/

set_option autoImplicit false
set_option relaxedAutoImplicit false

namespace SchemaSql

/-! ### Floats -/

namespace Binary64

/-- The exact value of a finite number, said by its sign, its exponent field and its fraction. -/
def toRat (x : Binary64) : ℚ :=
  (if x.negative then -1 else 1) *
    if x.exponentField = 0 then (x.fraction : ℚ) * 2 ^ (-1074 : ℤ)
    else (2 ^ 52 + (x.fraction : ℚ)) * 2 ^ ((x.exponentField : ℤ) - 1075)

theorem magnitude_snd_pos (x : Binary64) : 0 < x.magnitude.2 := by
  rw [magnitude]
  split
  · exact Nat.one_pos
  · exact Nat.two_pow_pos _

theorem toRat_eq (x : Binary64) :
    x.toRat = (if x.negative then -1 else 1) * ((x.magnitude.1 : ℚ) / x.magnitude.2) := by
  have hfields : (if x.exponentField = 0 then (x.fraction : ℚ) * 2 ^ (-1074 : ℤ)
      else (2 ^ 52 + (x.fraction : ℚ)) * 2 ^ ((x.exponentField : ℤ) - 1075)) =
        x.significand * 2 ^ x.exponent := by
    rw [significand, exponent]
    split
    · rfl
    · have hpower : ((power2 52 : Nat) : ℚ) = 2 ^ 52 := by norm_num [power2]
      rw [Nat.cast_add, hpower, add_comm]
  have hratio : (x.significand : ℚ) * 2 ^ x.exponent = (x.magnitude.1 : ℚ) / x.magnitude.2 := by
    rw [magnitude]
    cases x.exponent with
    | ofNat e => simp [power2]
    | negSucc e => simp [power2, zpow_negSucc, div_eq_mul_inv]
  rw [toRat, hfields, hratio]

/-- A ratio is an integer if nothing is left of its division. -/
theorem ratio_eq_iff {a b : Nat} (hb : 0 < b) (n : Int) :
    (a : ℚ) / b = n ↔ a % b = 0 ∧ n = (a / b : Nat) := by
  have hb' : (b : ℚ) ≠ 0 := by exact_mod_cast hb.ne'
  constructor
  · intro h
    rw [div_eq_iff hb'] at h
    have hproduct : (a : Int) = n * b := by exact_mod_cast h
    have hdvd : b ∣ a := Int.natCast_dvd_natCast.mp (Dvd.intro_left n hproduct.symm)
    refine ⟨Nat.mod_eq_zero_of_dvd hdvd, ?_⟩
    rw [Int.natCast_div, hproduct, Int.mul_ediv_cancel _ (by exact_mod_cast hb.ne')]
  · rintro ⟨hmod, rfl⟩
    rw [Int.cast_natCast, Nat.cast_div (Nat.dvd_of_mod_eq_zero hmod) hb']

/-- A number is read as the integer that it equals, if it equals one. -/
theorem integer?_eq_some_iff {x : Binary64} {n : Int} :
    x.integer? = some n ↔ x.isFinite ∧ x.toRat = n := by
  have hratio := ratio_eq_iff (a := x.magnitude.1) (magnitude_snd_pos x)
  rw [integer?, toRat_eq]
  cases x.isFinite with
  | false => simp
  | true =>
    cases x.negative with
    | false =>
      rw [if_pos rfl, if_neg Bool.false_ne_true, one_mul, hratio]
      simp [eq_comm]
    | true =>
      have hneg : (-1 : ℚ) * (x.magnitude.1 / x.magnitude.2) = n ↔
          (x.magnitude.1 / x.magnitude.2 : ℚ) = ((-n : Int) : ℚ) := by
        rw [Int.cast_neg, neg_one_mul, neg_eq_iff_eq_neg]
      rw [if_pos rfl, if_pos rfl, hneg, hratio, neg_eq_iff_eq_neg]
      simp [eq_comm]

end Binary64

/-! ### Texts -/

/-- No blank is part of a spelling. -/
theorem Decimal.Spells.not_isBlank {cs : List Char} {n : Int} (h : Spells cs n) {c : Char}
    (hc : c ∈ cs) : Text.isBlank c = false := by
  have hdigit {c : Char} (h : c.isDigit) : Text.isBlank c = false := by
    rw [isDigit_iff] at h
    simp [Text.isBlank]
    omega
  cases h with
  | unsigned hne hdigits => exact hdigit (hdigits c hc)
  | positive hne hdigits =>
    rcases List.mem_cons.mp hc with rfl | hc
    · rfl
    · exact hdigit (hdigits c hc)
  | negative hne hdigits =>
    rcases List.mem_cons.mp hc with rfl | hc
    · rfl
    · exact hdigit (hdigits c hc)

/-- A text is read as the integer that it spells between blanks. -/
theorem Decimal.readInt?_trimChars_iff {cs : List Char} {n : Int} :
    readInt? (Text.trimChars cs) = some n ↔ ∃ front ds back, (∀ c ∈ front, Text.isBlank c) ∧
      (∀ c ∈ back, Text.isBlank c) ∧ cs = front ++ ds ++ back ∧ Spells ds n := by
  constructor
  · intro h
    obtain ⟨front, back, hfront, hback, hcs⟩ := Text.exists_blanks cs
    exact ⟨front, _, back, hfront, hback, hcs, readInt?_eq_some_iff.mp h⟩
  · rintro ⟨front, ds, back, hfront, hback, rfl, hds⟩
    have htrimmed : Text.trimChars ds = ds :=
      (Text.trimChars_eq_self_iff ds).mpr ⟨fun c hc ↦ hds.not_isBlank (List.mem_of_mem_head? hc),
        fun c hc ↦ hds.not_isBlank (List.mem_of_getLast? hc)⟩
    rw [Text.trimChars_append_right hback, Text.trimChars_append_left hfront, htrimmed]
    exact readInt?_eq_some_iff.mpr hds

/-! ### Values -/

namespace Value

/-- The value stands for the integer. -/
def Denotes : Value → Int → Prop
  | .int m, n => m.toInt = n
  | .bool b, n => (if b then 1 else 0) = n
  | .float x, n => x.isFinite ∧ x.toRat = n
  | .text s, n => ∃ front ds back, (∀ c ∈ front, Text.isBlank c) ∧ (∀ c ∈ back, Text.isBlank c) ∧
    s.toList = front ++ ds ++ back ∧ Decimal.Spells ds n
  | .null, _ | .blob _, _ | .timestamp _, _ => False

variable {v : Value} {n : Int64} {k : Int}

theorem saturate_of_mem (hlow : -2 ^ 63 ≤ k) (hhigh : k < 2 ^ 63) : (saturate k).toInt = k := by
  rw [saturate, leastInt64, greatestInt64, if_neg (by omega), if_neg (by omega)]
  exact Int64.toInt_ofInt_of_le hlow hhigh

theorem saturate_of_lt (h : k < -2 ^ 63) : saturate k = Int64.minValue := by
  rw [saturate, leastInt64, if_pos (by omega)]
  rfl

theorem saturate_of_le (h : 2 ^ 63 ≤ k) : saturate k = Int64.maxValue := by
  rw [saturate, leastInt64, greatestInt64, if_neg (by omega), if_pos (by omega)]
  rfl

theorem readInt64?_eq_some_iff {cs : List Char} :
    Decimal.readInt64? cs = some n ↔ Decimal.readInt? cs = some n.toInt := by
  rw [Decimal.readInt64?, Option.bind_eq_some_iff]
  constructor
  · rintro ⟨k, hk, h⟩
    split at h
    · rename_i hrange
      obtain ⟨hlow, hhigh⟩ := (isInt64_iff k).mp hrange
      rw [← Option.some.inj h, Int64.toInt_ofInt_of_le hlow hhigh, hk]
    · cases h
  · intro h
    have hrange := (isInt64_iff n.toInt).mpr ⟨n.le_toInt, n.toInt_lt⟩
    exact ⟨n.toInt, h, by rw [if_pos hrange, Int64.ofInt_toInt]⟩

/-- Of a float its integer is read, if 64 bits hold it, and else the bound that is nearer. -/
theorem toInt?_float_iff {x : Binary64} :
    (Value.float x).toInt? = some n ↔ ∃ k, (Value.float x).Denotes k ∧ saturate k = n := by
  rw [toInt?, Option.map_eq_some_iff]
  exact exists_congr fun k ↦ and_congr_left fun _ ↦ Binary64.integer?_eq_some_iff

theorem toInt?_iff (hv : ∀ x, v ≠ .float x) : v.toInt? = some n ↔ v.Denotes n.toInt := by
  cases v with
  | null | blob | timestamp => exact iff_of_false nofun id
  | bool b =>
    rw [toInt?, Option.some_inj, ← Int64.toInt_inj, Denotes]
    cases b <;> rfl
  | int m => rw [toInt?, Option.some_inj, Denotes, Int64.toInt_inj]
  | float x => exact absurd rfl (hv x)
  | text s => rw [toInt?, readInt64?_eq_some_iff, Decimal.readInt?_trimChars_iff, Denotes]

/-- What is read of a value: the integer that it stands for, and of a float out of range a bound. -/
theorem toInt?_eq_some_iff : v.toInt? = some n ↔ v.Denotes n.toInt ∨
    ∃ x k, v = .float x ∧ v.Denotes k ∧
      (k < -2 ^ 63 ∧ n = Int64.minValue ∨ 2 ^ 63 ≤ k ∧ n = Int64.maxValue) := by
  by_cases hfloat : ∃ x, v = .float x
  · obtain ⟨x, rfl⟩ := hfloat
    rw [toInt?_float_iff]
    constructor
    · rintro ⟨k, hk, rfl⟩
      by_cases hlow : k < -2 ^ 63
      · exact .inr ⟨x, k, rfl, hk, .inl ⟨hlow, saturate_of_lt hlow⟩⟩
      · by_cases hhigh : 2 ^ 63 ≤ k
        · exact .inr ⟨x, k, rfl, hk, .inr ⟨hhigh, saturate_of_le hhigh⟩⟩
        · exact .inl (by rwa [saturate_of_mem (by omega) (by omega)])
    · rintro (hn | ⟨_, k, -, hk, ⟨hlow, rfl⟩ | ⟨hhigh, rfl⟩⟩)
      · exact ⟨n.toInt, hn, Int64.toInt_inj.mp (saturate_of_mem n.le_toInt n.toInt_lt)⟩
      · exact ⟨k, hk, saturate_of_lt hlow⟩
      · exact ⟨k, hk, saturate_of_le hhigh⟩
  · rw [toInt?_iff fun x hx ↦ hfloat ⟨x, hx⟩, or_iff_left]
    rintro ⟨x, -, hx, -⟩
    exact hfloat ⟨x, hx⟩

theorem Denotes.eq_of_float {x : Binary64} {k k' : Int} (h : (Value.float x).Denotes k)
    (h' : (Value.float x).Denotes k') : k = k' := by
  exact_mod_cast h.2.symm.trans h'.2

/-- All that is read of a value is exact unless the value is a float that 64 bits do not hold. -/
theorem exact_iff : (∀ n, v.toInt? = some n → v.Denotes n.toInt) ↔
    ∀ x k, v = .float x → v.Denotes k → -2 ^ 63 ≤ k ∧ k < 2 ^ 63 := by
  constructor
  · rintro hexact x k rfl hk
    have hread := hexact (saturate k) (toInt?_float_iff.mpr ⟨k, hk, rfl⟩)
    rw [hk.eq_of_float hread]
    exact ⟨Int64.le_toInt _, Int64.toInt_lt _⟩
  · intro hrange n hn
    refine (toInt?_eq_some_iff.mp hn).resolve_right ?_
    rintro ⟨x, k, hx, hk, hout⟩
    have := hrange x k hx hk
    omega

/-! ### Rows -/

theorem numberAt?_iff {r : Row} {i : Nat} (hv : r.at? i = some v) :
    r.numberAt? i = some k ↔ ∃ n, v.toInt? = some n ∧ n.toInt = k ∧ -2 ^ 31 ≤ k ∧ k < 2 ^ 31 := by
  rw [Row.numberAt?, hv, Option.bind_some]
  cases hn : v.toInt? with
  | none => simp
  | some n =>
    simp only [Option.ite_none_right_eq_some, Option.some.injEq, exists_eq_left']
    omega

/-- A number of a description is the integer that is reported, if 32 bits hold it. -/
theorem numberAt?_eq_some_iff {r : Row} {i : Nat} (hv : r.at? i = some v) :
    r.numberAt? i = some k ↔ v.Denotes k ∧ -2 ^ 31 ≤ k ∧ k < 2 ^ 31 := by
  rw [numberAt?_iff hv]
  constructor
  · rintro ⟨n, hn, rfl, hrange⟩
    rcases toInt?_eq_some_iff.mp hn with hn | ⟨-, -, -, -, ⟨-, rfl⟩ | ⟨-, rfl⟩⟩
    · exact ⟨hn, hrange⟩
    -- The bounds of 64 bits are too large for 32.
    · exact absurd hrange.1 (by decide)
    · exact absurd hrange.2 (by decide)
  · rintro ⟨hk, hlow, hhigh⟩
    have hsame : (Int64.ofInt k).toInt = k := Int64.toInt_ofInt_of_le (by omega) (by omega)
    exact ⟨_, toInt?_eq_some_iff.mpr (.inl (hsame.symm ▸ hk)), hsame, hlow, hhigh⟩

/-- Every integer of 64 bits is read of the values that stand for it. Whatever else is read is a
bound, read of a float that is an integer out of range; of all other values the integer is exact. So
is every number of a description. -/
theorem toInt?_exact (v : Value) :
    (∀ n : Int64, v.toInt? = some n ↔ v.Denotes n.toInt ∨
      ∃ x k, v = .float x ∧ v.Denotes k ∧
        (k < -2 ^ 63 ∧ n = Int64.minValue ∨ 2 ^ 63 ≤ k ∧ n = Int64.maxValue)) ∧
    ((∀ n : Int64, v.toInt? = some n → v.Denotes n.toInt) ↔
      ∀ x k, v = .float x → v.Denotes k → -2 ^ 63 ≤ k ∧ k < 2 ^ 63) ∧
    ∀ (r : Row) (i : Nat) (k : Int), r.at? i = some v →
      (r.numberAt? i = some k ↔ v.Denotes k ∧ -2 ^ 31 ≤ k ∧ k < 2 ^ 31) :=
  ⟨fun _ ↦ toInt?_eq_some_iff, exact_iff, fun _ _ _ ↦ numberAt?_eq_some_iff⟩

/-- The float that is 2 ^ 63 is read as the integer before it, and not at all as a number of a
description. -/
theorem largeFloat_saturated :
    (Value.float ⟨0x43E0000000000000⟩).toInt? = some Int64.maxValue ∧
      ¬ (Value.float ⟨0x43E0000000000000⟩).Denotes Int64.maxValue.toInt ∧
      (Row.mk [] [.float ⟨0x43E0000000000000⟩]).numberAt? 0 = none := by
  have hvalue : (Value.float ⟨0x43E0000000000000⟩).Denotes (2 ^ 63) :=
    Binary64.integer?_eq_some_iff.mp (by decide)
  obtain ⟨hread, -, hnumber⟩ := toInt?_exact (.float ⟨0x43E0000000000000⟩)
  refine ⟨(hread _).mpr (.inr ⟨_, _, rfl, hvalue, .inr ⟨le_refl _, rfl⟩⟩), fun h ↦ ?_,
    Option.eq_none_iff_forall_ne_some.mpr fun k hk ↦ ?_⟩
  · exact absurd (hvalue.eq_of_float h) (by decide)
  · obtain ⟨hdenotes, -, hhigh⟩ := (hnumber _ 0 k rfl).mp hk
    rw [← hvalue.eq_of_float hdenotes] at hhigh
    exact absurd hhigh (by decide)

end Value

end SchemaSql
