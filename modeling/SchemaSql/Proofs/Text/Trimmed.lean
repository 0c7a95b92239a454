import Mathlib.Data.List.DropRight
import SchemaSql.Text.Blank

/-!
Trimming takes the blanks from both ends of a text and nothing else: blanks that are put around a
text are lost, and the text itself stays if neither of its ends is blank.
-/

set_option autoImplicit false
set_option relaxedAutoImplicit false

namespace SchemaSql.Text

theorem dropTrailing_eq (p : Char → Bool) (cs : List Char) :
    dropTrailing p cs = cs.rdropWhile p := by
  induction cs with
  | nil => rfl
  | cons c cs ih =>
    rw [dropTrailing, ih, List.rdropWhile, List.rdropWhile, List.reverse_cons,
      List.dropWhile_append]
    cases hkept : cs.reverse.dropWhile p with
    | nil => cases hc : p c <;> simp [hc]
    | cons d ds => simp

/-- Neither end of the text is blank. -/
def Unpadded (s : String) : Prop :=
  ∀ c, c ∈ s.toList.head? ∨ c ∈ s.toList.getLast? → isBlank c = false

-- Decided at the two ends, since the quantifier alone would be tried on every character.
instance (s : String) : Decidable (Unpadded s) :=
  decidable_of_iff (s.toList.head?.all (!isBlank ·) && s.toList.getLast?.all (!isBlank ·)) (by
    simp only [Unpadded, or_imp, forall_and, Option.mem_def, Bool.and_eq_true, Option.all_eq_true,
      Bool.not_eq_true'])

section Blanks

variable {w : List Char} (hw : ∀ c ∈ w, isBlank c)

include hw

theorem trimChars_append_left (cs : List Char) : trimChars (w ++ cs) = trimChars cs := by
  rw [trimChars, List.dropWhile_append_of_pos hw, trimChars]

theorem trimChars_append_right (cs : List Char) : trimChars (cs ++ w) = trimChars cs := by
  have hrest : w.dropWhile isBlank = [] := List.dropWhile_eq_nil_iff.mpr hw
  have hlast : w.reverse.dropWhile isBlank = [] :=
    List.dropWhile_eq_nil_iff.mpr fun c hc ↦ hw c (List.mem_reverse.mp hc)
  rw [trimChars, trimChars, List.dropWhile_append, dropTrailing_eq, dropTrailing_eq]
  split
  · rename_i hblank
    rw [hrest, List.isEmpty_iff.mp hblank]
  · rw [List.rdropWhile, List.reverse_append, List.dropWhile_append, hlast]
    rfl

end Blanks

/-- A text is what is trimmed of it, with blanks around it. -/
theorem exists_blanks (cs : List Char) : ∃ front back, (∀ c ∈ front, isBlank c) ∧
    (∀ c ∈ back, isBlank c) ∧ cs = front ++ trimChars cs ++ back := by
  refine ⟨cs.takeWhile isBlank, (cs.dropWhile isBlank).rtakeWhile isBlank,
    fun c hc ↦ List.mem_takeWhile_imp hc, fun c hc ↦ List.mem_rtakeWhile_imp hc, ?_⟩
  rw [trimChars, dropTrailing_eq, List.append_assoc, List.rdropWhile_append_rtakeWhile,
    List.takeWhile_append_dropWhile]

theorem trimChars_trimChars (cs : List Char) : trimChars (trimChars cs) = trimChars cs := by
  obtain ⟨front, back, hfront, hback, hcs⟩ := exists_blanks cs
  conv_rhs => rw [hcs, trimChars_append_right hback, trimChars_append_left hfront]

theorem trimChars_sublist (cs : List Char) : (trimChars cs).Sublist cs := by
  rw [trimChars, dropTrailing_eq]
  exact (List.rdropWhile_prefix isBlank _).sublist.trans (List.dropWhile_sublist isBlank)

/-- A text is as it is trimmed if its ends are not blank, and only then. -/
theorem trimChars_eq_self_iff (cs : List Char) :
    trimChars cs = cs ↔ (∀ c ∈ cs.head?, isBlank c = false) ∧
      ∀ c ∈ cs.getLast?, isBlank c = false := by
  have hfront : cs.dropWhile isBlank = cs ↔ ∀ c ∈ cs.head?, isBlank c = false := by
    cases cs with
    | nil => simp
    | cons c cs => simp [List.dropWhile_eq_self_iff]
  have hback : cs.rdropWhile isBlank = cs ↔ ∀ c ∈ cs.getLast?, isBlank c = false := by
    rw [List.rdropWhile_eq_self_iff]
    rcases List.eq_nil_or_concat cs with rfl | ⟨front, c, rfl⟩ <;> simp
  rw [trimChars, dropTrailing_eq, ← hfront, ← hback]
  constructor
  · intro htrim
    -- Both drops only shorten a text, so neither has done anything.
    have hlength : cs.length ≤ (cs.dropWhile isBlank).length := by
      conv_lhs => rw [← htrim]
      exact (List.rdropWhile_prefix isBlank _).length_le
    have hkept : cs.dropWhile isBlank = cs :=
      (List.dropWhile_suffix isBlank).eq_of_length_le hlength
    rw [hkept] at htrim
    exact ⟨hkept, htrim⟩
  · rintro ⟨hkept, hlast⟩
    rw [hkept, hlast]

theorem trim_eq_self_iff (s : String) : trim s = s ↔ Unpadded s := by
  rw [trim, ← String.toList_inj, String.toList_ofList, trimChars_eq_self_iff]
  simp only [Unpadded, or_imp, forall_and]

end SchemaSql.Text
