import SchemaSql.Text.AsciiCase
import SchemaSql.Text.Lowercase

/-!
Lowercase forms. Texts that differ in the case of ASCII letters only have the same lowercase form:
no other letter sees the case of the letters around it, not even a sigma at the end of a word. A
text has another lowercase form than every text that is made of it by leaving characters out.
-/

set_option autoImplicit false
set_option relaxedAutoImplicit false

namespace SchemaSql

/-! ### ASCII letters -/

theorem isUpper_iff (c : Char) : c.isUpper ↔ 65 ≤ c.toNat ∧ c.toNat ≤ 90 :=
  decide_eq_true_iff

theorem isLower_iff (c : Char) : c.isLower ↔ 97 ≤ c.toNat ∧ c.toNat ≤ 122 :=
  Bool.and_eq_true_iff.trans (and_congr decide_eq_true_iff decide_eq_true_iff)

theorem isDigit_iff (c : Char) : c.isDigit ↔ 48 ≤ c.toNat ∧ c.toNat ≤ 57 :=
  Bool.and_eq_true_iff.trans (and_congr decide_eq_true_iff decide_eq_true_iff)

theorem isAlpha_iff (c : Char) : c.isAlpha ↔ c.isUpper ∨ c.isLower :=
  Bool.or_eq_true_iff

/-- The ASCII letters that have a lowercase form. -/
def capitals : List Char := "ABCDEFGHIJKLMNOPQRSTUVWXYZ".toList

theorem toLower_eq_self_or_mem (c : Char) : c.toLower = c ∨ c ∈ capitals := by
  by_cases hupper : c.isUpper
  · have hcapitals : capitals = (List.range' 65 26).map Char.ofNat := rfl
    obtain ⟨hlow, hhigh⟩ := (isUpper_iff c).mp hupper
    rw [hcapitals]
    exact .inr (List.mem_map.mpr
      ⟨c.toNat, List.mem_range'_1.mpr ⟨hlow, by omega⟩, Char.ofNat_toNat c⟩)
  · exact .inl (dif_neg fun h ↦ hupper (decide_eq_true h))

theorem toLower_eq_or (c : Char) : c.toLower = c ∨ c.isAlpha ∧ c.toLower.isAlpha := by
  have hletters : capitals.all fun c ↦ c.isAlpha && c.toLower.isAlpha := by decide
  exact (toLower_eq_self_or_mem c).imp_right fun hc ↦
    Bool.and_eq_true_iff.mp (List.all_eq_true.mp hletters c hc)

namespace Text

/-- What is the same of the capitals and their lowercase forms is the same of all characters. -/
theorem toLower_invariant {β : Type} {f : Char → β}
    (h : capitals.map (fun c ↦ f c.toLower) = capitals.map f) (c : Char) : f c.toLower = f c := by
  rcases toLower_eq_self_or_mem c with hsame | hmem
  · rw [hsame]
  · exact List.map_inj_left.mp h c hmem

theorem lowerChar_toLower (c : Char) : lowerChar c.toLower = lowerChar c :=
  toLower_invariant (by decide) c

theorem meetsCased_map_toLower (cs : List Char) :
    meetsCased (cs.map Char.toLower) = meetsCased cs := by
  have hignored (c : Char) : inRanges ignorableRanges c.toLower = inRanges ignorableRanges c :=
    toLower_invariant (by decide +kernel) c
  have hcased (c : Char) : inRanges casedRanges c.toLower = inRanges casedRanges c :=
    toLower_invariant (by decide) c
  have hskipped : inRanges ignorableRanges ∘ Char.toLower = inRanges ignorableRanges :=
    funext hignored
  rw [meetsCased, meetsCased, List.dropWhile_map, hskipped]
  cases cs.dropWhile (inRanges ignorableRanges) with
  | nil => rfl
  | cons c cs => exact hcased c

/-- The case of ASCII letters does not matter to a lowercase form, be they lowered or in front. -/
theorem lowerAfter_map_toLower (before cs : List Char) :
    lowerAfter (before.map Char.toLower) (cs.map Char.toLower) = lowerAfter before cs := by
  have hdotted (c : Char) : (c.toLower.toNat == 0x130) = (c.toNat == 0x130) :=
    toLower_invariant (f := fun c ↦ c.toNat == 0x130) (by decide) c
  have hsigma (c : Char) : (c.toLower.toNat == 0x3A3) = (c.toNat == 0x3A3) :=
    toLower_invariant (f := fun c ↦ c.toNat == 0x3A3) (by decide) c
  induction cs generalizing before with
  | nil => rfl
  | cons c cs ih =>
    have hrest := ih (c :: before)
    rw [List.map_cons] at hrest ⊢
    rw [lowerAfter, lowerAfter, hrest, hdotted, hsigma, lowerChar_toLower, meetsCased_map_toLower,
      meetsCased_map_toLower]

theorem sameAscii_trans {s t u : String} (hst : sameAscii s t) (htu : sameAscii t u) :
    sameAscii s u :=
  (sameAscii_iff s u).mpr (((sameAscii_iff s t).mp hst).trans ((sameAscii_iff t u).mp htu))

/-- Texts that differ in the case of ASCII letters only have the same lowercase form. -/
theorem lowercase_congr {s t : String} (h : sameAscii s t) : lowercase s = lowercase t := by
  rw [lowercase, lowercase, lowerChars, lowerChars, ← lowerAfter_map_toLower,
    ← lowerAfter_map_toLower [] t.toList, (sameAscii_iff s t).mp h]

/-- One character has a lowercase form of two characters, every other one of one. -/
theorem length_lowerAfter (before cs : List Char) :
    (lowerAfter before cs).length = cs.length + cs.countP (fun c ↦ c.toNat == 0x130) := by
  induction cs generalizing before with
  | nil => rfl
  | cons c cs ih =>
    rw [lowerAfter, List.length_append, ih (c :: before), List.length_cons, List.countP_cons]
    by_cases hdotted : c.toNat == 0x130
    · simp only [if_pos hdotted, List.length_cons, List.length_nil]
      omega
    · simp only [if_neg hdotted]
      split <;> simp only [List.length_cons, List.length_nil] <;> omega

/-- No lowercase form is kept when characters are left out. -/
theorem eq_of_lowercase_of_sublist {s t : String} (hst : s.toList.Sublist t.toList)
    (h : lowercase s = lowercase t) : s = t := by
  have hlength := congrArg List.length (String.ofList_injective h)
  rw [lowerChars, lowerChars, length_lowerAfter, length_lowerAfter] at hlength
  have hcount : s.toList.countP (fun c ↦ c.toNat == 0x130) ≤
      t.toList.countP (fun c ↦ c.toNat == 0x130) := hst.countP_le
  have hle := hst.length_le
  exact String.toList_inj.mp (hst.eq_of_length_le (by omega))

end Text

end SchemaSql
