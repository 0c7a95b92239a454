import SchemaSql.Text.AsciiCase

/-!
The order of texts by their characters: no text precedes itself, what precedes a text precedes all
that the text precedes, and of two texts one precedes the other.
-/

set_option autoImplicit false
set_option relaxedAutoImplicit false

namespace SchemaSql.Text

theorem precedes_self (a : List Char) : precedes a a = false := by
  induction a with
  | nil => rfl
  | cons c a ih => simp [precedes, ih]

theorem precedes_trans {a b c : List Char} (hab : precedes a b) (hbc : precedes b c) :
    precedes a c := by
  induction a generalizing b c with
  | nil =>
    cases c with
    | nil => cases b <;> simp [precedes] at hbc
    | cons z c => rfl
  | cons x a ih =>
    cases b with
    | nil => simp [precedes] at hab
    | cons y b =>
      cases c with
      | nil => simp [precedes] at hbc
      | cons z c =>
        simp only [precedes, Bool.or_eq_true, decide_eq_true_eq, Bool.and_eq_true,
          beq_iff_eq] at hab hbc ⊢
        rcases hab with hxy | ⟨rfl, hab⟩
        · rcases hbc with hyz | ⟨rfl, -⟩
          · exact .inl (Nat.lt_trans hxy hyz)
          · exact .inl hxy
        · exact hbc.imp_right fun ⟨hyz, hbc⟩ ↦ ⟨hyz, ih hab hbc⟩

/-- Texts of which neither precedes the other are equal. -/
theorem eq_of_not_precedes {a b : List Char} (hab : precedes a b = false)
    (hba : precedes b a = false) : a = b := by
  induction a generalizing b with
  | nil =>
    cases b with
    | nil => rfl
    | cons y b => simp [precedes] at hab
  | cons x a ih =>
    cases b with
    | nil => simp [precedes] at hba
    | cons y b =>
      simp only [precedes, Bool.or_eq_false_iff, decide_eq_false_iff_not] at hab hba
      obtain rfl : x = y := Char.toNat_inj.mp (by omega)
      simp only [beq_self_eq_true, Bool.true_and] at hab hba
      rw [ih hab.2 hba.2]

end SchemaSql.Text
