import Mathlib.Algebra.Ring.Int.Defs
import SchemaSql.Number.Decimal

/-!
Decimal digits. A number is read back from its own text, and the texts that are read as an integer
are those that spell it: digits with their value, behind a sign or not.
-/

set_option autoImplicit false
set_option relaxedAutoImplicit false

namespace SchemaSql

theorem isInt64_iff (n : Int) : isInt64 n ↔ -2 ^ 63 ≤ n ∧ n < 2 ^ 63 := by
  rw [isInt64, Bool.and_eq_true_iff, decide_eq_true_iff, decide_eq_true_iff, leastInt64,
    greatestInt64]
  omega

namespace Decimal

theorem readNat_eq (cs : List Char) : readNat cs = Nat.ofDigitChars 10 cs 0 := by
  have hdigit : (fun (n : Nat) (c : Char) ↦ n * 10 + ofDigit c) =
      fun (n : Nat) (c : Char) ↦ 10 * n + (c.toNat - '0'.toNat) := by
    funext n c
    rw [Nat.mul_comm]
    rfl
  rw [readNat, hdigit, Nat.ofDigitChars]

theorem toList_toString (n : Nat) : (toString n).toList = Nat.toDigits 10 n := by
  simp

theorem readNat_toString (n : Nat) : readNat (toString n).toList = n := by
  rw [toList_toString, readNat_eq]
  exact Nat.ofDigitChars_ten_toDigits

theorem isDigit_of_mem_toString {n : Nat} {c : Char} (h : c ∈ (toString n).toList) : c.isDigit := by
  rw [toList_toString] at h
  exact Nat.isDigit_of_mem_toDigits (by decide) (by decide) h

/-- No text of a number has a zero in front of other digits. -/
theorem tail_eq_nil_of_toString {n : Nat} {tail : List Char}
    (h : (toString n).toList = '0' :: tail) : tail = [] := by
  rw [toList_toString] at h
  induction n using Nat.strongRecOn generalizing tail with
  | ind n ih =>
    by_cases hlt : n < 10
    · rw [Nat.toDigits_of_lt_base hlt] at h
      exact (List.cons.inj h).2.symm
    · rw [Nat.toDigits_of_base_le (by decide) (Nat.le_of_not_lt hlt)] at h
      obtain ⟨c, front, hfront⟩ : ∃ c front, Nat.toDigits 10 (n / 10) = c :: front :=
        List.exists_cons_of_ne_nil Nat.toDigits_ne_nil
      rw [hfront, List.cons_append] at h
      obtain ⟨rfl, rfl⟩ := List.cons.inj h
      -- The digits in front would be those of zero.
      obtain rfl := ih (n / 10) (by omega) hfront
      have hzero : n / 10 = 0 := by rw [← readNat_toString (n / 10), toList_toString, hfront]; rfl
      omega

theorem toList_toString_int (n : Int) : (toString n).toList =
    (if n < 0 then ['-'] else []) ++ (toString n.natAbs).toList := by
  cases n with
  | ofNat m => rfl
  | negSucc m =>
    rw [if_pos (Int.negSucc_lt_zero m)]
    exact String.toList_append

/-- The texts that are decimal spellings of an integer. -/
inductive Spells : List Char → Int → Prop
  | unsigned {ds : List Char} (hne : ds ≠ []) (hdigits : ∀ c ∈ ds, c.isDigit) :
    Spells ds (Nat.ofDigitChars 10 ds 0)
  | positive {ds : List Char} (hne : ds ≠ []) (hdigits : ∀ c ∈ ds, c.isDigit) :
    Spells ('+' :: ds) (Nat.ofDigitChars 10 ds 0)
  | negative {ds : List Char} (hne : ds ≠ []) (hdigits : ∀ c ∈ ds, c.isDigit) :
    Spells ('-' :: ds) (-(Nat.ofDigitChars 10 ds 0 : Int))

/-- The value of some digits and nothing else. -/
def digitsValue? (ds : List Char) : Option Nat :=
  if ds.isEmpty then none else if ds.all Char.isDigit then some (readNat ds) else none

variable {cs ds : List Char} {m : Nat} {n : Int}

theorem digitsValue?_eq_some_iff :
    digitsValue? ds = some m ↔ (ds ≠ [] ∧ ∀ c ∈ ds, c.isDigit) ∧ Nat.ofDigitChars 10 ds 0 = m := by
  rw [digitsValue?, ← readNat_eq]
  cases ds <;> simp

theorem readInt?_negative (ds : List Char) :
    readInt? ('-' :: ds) = (digitsValue? ds).map fun m : Nat ↦ -(m : Int) := by
  change Option.map _ (digitsValue? ds >>= _) = _
  cases digitsValue? ds <;> rfl

theorem readInt?_positive (ds : List Char) :
    readInt? ('+' :: ds) = (digitsValue? ds).map fun m : Nat ↦ (m : Int) := by
  change Option.map _ (digitsValue? ds >>= _) = _
  cases digitsValue? ds <;> rfl

theorem readInt?_unsigned (h : ∀ c ∈ cs.head?, c ≠ '-' ∧ c ≠ '+') :
    readInt? cs = (digitsValue? cs).map fun m : Nat ↦ (m : Int) := by
  have hplain : readInt? cs =
      Option.map (fun n ↦ n) (digitsValue? cs >>= fun m : Nat ↦ pure (m : Int)) := by
    unfold readInt?
    split
    · exact absurd rfl (h '-' rfl).1
    · exact absurd rfl (h '+' rfl).2
    · rfl
  rw [hplain]
  cases digitsValue? cs <;> rfl

theorem readInt?_eq_some_iff : readInt? cs = some n ↔ Spells cs n := by
  constructor
  · intro h
    by_cases hnegative : cs.head? = some '-'
    · obtain ⟨ds, rfl⟩ := List.head?_eq_some_iff.mp hnegative
      rw [readInt?_negative] at h
      obtain ⟨m, hm, rfl⟩ := Option.map_eq_some_iff.mp h
      obtain ⟨⟨hne, hdigits⟩, rfl⟩ := digitsValue?_eq_some_iff.mp hm
      exact .negative hne hdigits
    · by_cases hpositive : cs.head? = some '+'
      · obtain ⟨ds, rfl⟩ := List.head?_eq_some_iff.mp hpositive
        rw [readInt?_positive] at h
        obtain ⟨m, hm, rfl⟩ := Option.map_eq_some_iff.mp h
        obtain ⟨⟨hne, hdigits⟩, rfl⟩ := digitsValue?_eq_some_iff.mp hm
        exact .positive hne hdigits
      · rw [readInt?_unsigned fun c hc ↦ ⟨fun hsign ↦ hnegative (hsign ▸ hc),
          fun hsign ↦ hpositive (hsign ▸ hc)⟩] at h
        obtain ⟨m, hm, rfl⟩ := Option.map_eq_some_iff.mp h
        obtain ⟨⟨hne, hdigits⟩, rfl⟩ := digitsValue?_eq_some_iff.mp hm
        exact .unsigned hne hdigits
  · intro h
    cases h with
    | unsigned hne hdigits =>
      have hhead : ∀ c ∈ cs.head?, c ≠ '-' ∧ c ≠ '+' := fun c hc ↦ by
        have hdigit := hdigits c (List.mem_of_mem_head? hc)
        constructor <;> (rintro rfl; cases hdigit)
      rw [readInt?_unsigned hhead, digitsValue?_eq_some_iff.mpr ⟨⟨hne, hdigits⟩, rfl⟩]
      rfl
    | positive hne hdigits =>
      rw [readInt?_positive, digitsValue?_eq_some_iff.mpr ⟨⟨hne, hdigits⟩, rfl⟩]
      rfl
    | negative hne hdigits =>
      rw [readInt?_negative, digitsValue?_eq_some_iff.mpr ⟨⟨hne, hdigits⟩, rfl⟩]
      rfl

end Decimal

end SchemaSql
