import SchemaSql.Proofs.Statement.Placeholders

/-!
A text that the caller wrote with other digits behind its dollar signs. Two ways to choose the
digits give the same text if and only if they agree at every dollar sign, since the digits at one
end before those at the next begin. Moving a text by an offset is such a choice: the number behind a
dollar sign is raised where no quote mark is open, and a quote mark opens or closes wherever it
stands.
-/

set_option autoImplicit false
set_option relaxedAutoImplicit false

namespace SchemaSql.Fragment

/-- The quote mark that is open behind a character. -/
def turnQuote : Option Char → Char → Option Char
  | none, c => if c.toNat = 39 ∨ c = '"' then some c else none
  | some q, c => if c = q then none else some q

/-- The quote mark that is open behind a text. -/
def openQuote (opened : Option Char) (cs : List Char) : Option Char := cs.foldl turnQuote opened

/-- The digits behind a place of a text. -/
def digitsAt (cs : List Char) (i : Nat) : List Char := (cs.drop (i + 1)).takeWhile Char.isDigit

/-- The number behind the dollar sign at a place of a text, if 64 bits hold it. -/
def numberAt? (cs : List Char) (i : Nat) : Option Nat :=
  if cs[i]? = some '$' then placeholderNumber? (digitsAt cs i) else none

/-- Chooses new digits behind the dollar sign at a place. -/
abbrev Choice := Nat → List Char → List Char

/-- Digits are given for digits. -/
def Choice.GivesDigits (choice : Choice) : Prop :=
  ∀ i ds, (∀ c ∈ ds, c.isDigit) → ∀ c ∈ choice i ds, c.isDigit

/-- One choice in front of a place, and another from there on. -/
def Choice.until (early : Choice) (n : Nat) (later : Choice) : Choice := fun i ↦
  if i < n then early i else later i

/-- A text that begins at place `i`, with the digits that are chosen for those behind its dollar
signs. -/
def withDigits (choice : Choice) (i : Nat) : List Char → List Char
  | [] => []
  | c :: cs =>
    if c = '$' then
      let ds := cs.takeWhile Char.isDigit
      c :: (choice i ds ++ withDigits choice (i + 1 + ds.length) (cs.dropWhile Char.isDigit))
    else c :: withDigits choice (i + 1) cs
termination_by cs => cs.length
decreasing_by
  · exact Nat.lt_succ_of_le (List.dropWhile_suffix _).length_le
  · simp

/-- Raises the numbers in front of which no quote mark is open in `cs`. -/
def moved (offset : Nat) (cs : List Char) : Choice := fun i ds ↦
  if openQuote none (cs.take i) = none then shiftDigits offset ds else ds

/-! ### Digits -/

/-- Every text begins with all its first digits. -/
theorem exists_digits (cs : List Char) : ∃ ds rest, cs = ds ++ rest ∧ (∀ c ∈ ds, c.isDigit) ∧
    (∀ c ∈ rest.head?, c.isDigit = false) ∧ rest.length ≤ cs.length := by
  refine ⟨cs.takeWhile Char.isDigit, cs.dropWhile Char.isDigit,
    List.takeWhile_append_dropWhile.symm, fun c hc ↦ ?_, fun c hc ↦ ?_,
    (List.dropWhile_suffix _).length_le⟩
  · exact List.all_eq_true.mp List.all_takeWhile c hc
  · have hhead := List.head?_dropWhile_not Char.isDigit cs
    rw [Option.mem_def.mp hc] at hhead
    exact hhead

section

variable {ds rest : List Char} (hds : ∀ c ∈ ds, c.isDigit) (hrest : ∀ c ∈ rest.head?, c.isDigit = false)

include hds hrest

theorem span_digits :
    (ds ++ rest).takeWhile Char.isDigit = ds ∧ (ds ++ rest).dropWhile Char.isDigit = rest := by
  rw [List.takeWhile_append_of_pos hds, List.dropWhile_append_of_pos hds]
  cases rest with
  | nil => simp
  | cons c rest => simp [hrest c rfl]

theorem digitsAt_zero (c : Char) : digitsAt (c :: (ds ++ rest)) 0 = ds :=
  (span_digits hds hrest).1

/-- Digits are told apart from what follows them. -/
theorem append_digits_inj {es ys : List Char} (hes : ∀ c ∈ es, c.isDigit)
    (hys : ∀ c ∈ ys.head?, c.isDigit = false) : ds ++ rest = es ++ ys ↔ ds = es ∧ rest = ys := by
  constructor
  · intro h
    have hsame := congrArg (List.takeWhile Char.isDigit) h
    rw [(span_digits hds hrest).1, (span_digits hes hys).1] at hsame
    obtain rfl := hsame
    exact ⟨rfl, List.append_cancel_left h⟩
  · rintro ⟨rfl, rfl⟩
    rfl

end

theorem digitsAt_append (as bs : List Char) (k : Nat) :
    digitsAt (as ++ bs) (as.length + k) = digitsAt bs k := by
  rw [digitsAt, Nat.add_assoc, List.drop_length_add_append, ← digitsAt]

theorem dollar_not_digit {ds : List Char} (h : ∀ c ∈ ds, c.isDigit) (k : Nat) :
    ds[k]? ≠ some '$' := fun hk ↦ by
  have hdigit := h '$' (List.mem_of_getElem? hk)
  simp at hdigit

/-- Digits are changed if they are a number. -/
theorem shiftDigits_eq_self_iff {offset : Nat} (hpositive : 0 < offset)
    (hoffset : offset < power2 64) (ds : List Char) :
    shiftDigits offset ds = ds ↔ placeholderNumber? ds = none := by
  rw [shiftDigits]
  cases hnumber : placeholderNumber? ds with
  | none => simp
  | some n =>
    obtain ⟨-, hread, hbound⟩ := placeholderNumber?_eq_some_iff.mp hnumber
    simp only [reduceCtorEq, iff_false]
    intro hsame
    have hmod : (n + offset) % power2 64 = n := by
      rw [← Decimal.readNat_toString ((n + offset) % power2 64), hsame, hread]
    have hpower : power2 64 = 18446744073709551616 := rfl
    rw [hpower] at hmod hbound hoffset
    omega

/-! ### Dollar signs -/

section

variable {ds rest : List Char} (hds : ∀ c ∈ ds, c.isDigit) (hrest : ∀ c ∈ rest.head?, c.isDigit = false)

include hds hrest

theorem withDigits_dollar (choice : Choice) (i : Nat) :
    withDigits choice i ('$' :: (ds ++ rest)) =
      '$' :: (choice i ds ++ withDigits choice (i + 1 + ds.length) rest) := by
  obtain ⟨htake, hdrop⟩ := span_digits hds hrest
  rw [withDigits, if_pos rfl, htake, hdrop]

/-- The dollar signs of a text that begins with one and the digits behind it. -/
theorem forall_dollar_cons {P : Nat → List Char → Prop} :
    (∀ k, ('$' :: (ds ++ rest))[k]? = some '$' → P k (digitsAt ('$' :: (ds ++ rest)) k)) ↔
      P 0 ds ∧ ∀ k, rest[k]? = some '$' → P (1 + ds.length + k) (digitsAt rest k) := by
  have hbehind (k : Nat) :
      ('$' :: (ds ++ rest))[1 + ds.length + k]? = rest[k]? ∧
        digitsAt ('$' :: (ds ++ rest)) (1 + ds.length + k) = digitsAt rest k := by
    have hindex : 1 + ds.length + k = (ds.length + k) + 1 := by omega
    have hdigits := digitsAt_append ('$' :: ds) rest k
    rw [List.length_cons, Nat.add_comm ds.length 1] at hdigits
    refine ⟨?_, hdigits⟩
    rw [hindex, List.getElem?_cons_succ, List.getElem?_append_right (Nat.le_add_right _ _),
      Nat.add_sub_cancel_left]
  constructor
  · intro h
    refine ⟨digitsAt_zero hds hrest '$' ▸ h 0 rfl, fun k hk ↦ ?_⟩
    rw [← (hbehind k).2]
    exact h _ ((hbehind k).1.trans hk)
  · rintro ⟨hfirst, hothers⟩ k hk
    rcases k with _ | k
    · rw [digitsAt_zero hds hrest]
      exact hfirst
    · have hlater : ds.length ≤ k := by
        refine Nat.not_lt.mp fun hlt ↦ dollar_not_digit hds k ?_
        rw [List.getElem?_cons_succ, List.getElem?_append_left hlt] at hk
        exact hk
      obtain ⟨j, rfl⟩ := Nat.exists_eq_add_of_le hlater
      have hindex : ds.length + j + 1 = 1 + ds.length + j := by omega
      rw [hindex] at hk ⊢
      rw [(hbehind j).2]
      exact hothers j ((hbehind j).1.symm.trans hk)

end

theorem forall_dollar_of_ne {c : Char} (hc : c ≠ '$') (cs : List Char)
    {P : Nat → List Char → Prop} :
    (∀ k, (c :: cs)[k]? = some '$' → P k (digitsAt (c :: cs) k)) ↔
      ∀ k, cs[k]? = some '$' → P (k + 1) (digitsAt cs k) := by
  refine ⟨fun h k hk ↦ h (k + 1) hk, fun h k hk ↦ ?_⟩
  rcases k with _ | k
  · exact absurd (Option.some.inj hk) hc
  · exact h k hk

theorem head?_withDigits (choice : Choice) (i : Nat) (cs : List Char) :
    (withDigits choice i cs).head? = cs.head? := by
  cases cs with
  | nil => rw [withDigits]
  | cons c cs => rw [withDigits]; split <;> rfl

theorem withDigits_of_ne (choice : Choice) {c : Char} (h : c ≠ '$') (i : Nat) (cs : List Char) :
    withDigits choice i (c :: cs) = c :: withDigits choice (i + 1) cs := by
  rw [withDigits, if_neg h]

theorem withDigits_digits (choice : Choice) {ds : List Char} (h : ∀ c ∈ ds, c.isDigit) (i : Nat)
    (cs : List Char) :
    withDigits choice i (ds ++ cs) = ds ++ withDigits choice (i + ds.length) cs := by
  induction ds generalizing i with
  | nil => rfl
  | cons d ds ih =>
    obtain ⟨hd, hds⟩ := List.forall_mem_cons.mp h
    have hdollar : d ≠ '$' := by
      rintro rfl
      simp at hd
    have hindex : i + (ds.length + 1) = i + 1 + ds.length := by omega
    rw [List.cons_append, withDigits_of_ne choice hdollar, ih hds, List.length_cons, hindex]
    rfl

/-- A character stays if it is no dollar sign, or if the digits behind it are chosen. -/
theorem withDigits_cons {choice : Choice} {c : Char} {i : Nat}
    (h : c = '$' → ∀ ds, choice i ds = ds) (cs : List Char) :
    withDigits choice i (c :: cs) = c :: withDigits choice (i + 1) cs := by
  by_cases hc : c = '$'
  · obtain ⟨ds, rest, rfl, hds, hrest, -⟩ := exists_digits cs
    rw [hc, withDigits_dollar hds hrest, h hc, withDigits_digits choice hds]
  · exact withDigits_of_ne choice hc i cs

theorem withDigits_append {choice : Choice} {as : List Char} {i : Nat}
    (h : ∀ k, as[k]? = some '$' → ∀ ds, choice (i + k) ds = ds) (bs : List Char) :
    withDigits choice i (as ++ bs) = as ++ withDigits choice (i + as.length) bs := by
  induction as generalizing i with
  | nil => rfl
  | cons a as ih =>
    have hrest : ∀ k, as[k]? = some '$' → ∀ ds, choice (i + 1 + k) ds = ds := by
      intro k hk
      rw [Nat.add_assoc, Nat.add_comm 1]
      exact h (k + 1) hk
    have hfirst : a = '$' → ∀ ds, choice i ds = ds := fun ha ↦ h 0 (congrArg some ha)
    have hindex : i + (as.length + 1) = i + 1 + as.length := by omega
    rw [List.cons_append, withDigits_cons hfirst, ih hrest, List.length_cons, hindex,
      List.cons_append]

/-! ### Choices -/

theorem withDigits_congr {choice other : Choice} {i : Nat} (h : ∀ j, i ≤ j → choice j = other j)
    (cs : List Char) : withDigits choice i cs = withDigits other i cs := by
  induction i, cs using withDigits.induct with
  | case1 i => rw [withDigits, withDigits]
  | case2 i cs ds ih =>
    rw [withDigits, withDigits, if_pos rfl, if_pos rfl, h i (Nat.le_refl i)]
    exact congrArg (fun rest ↦ '$' :: (other i ds ++ rest)) (ih fun j hj ↦ h j (by omega))
  | case3 i c cs hc ih =>
    rw [withDigits_of_ne choice hc, withDigits_of_ne other hc, ih fun j hj ↦ h j (by omega)]

/-- Two choices of digits give the same text if they are the same at every dollar sign. -/
theorem withDigits_eq_iff {choice other : Choice}
    (hchoice : choice.GivesDigits) (hother : other.GivesDigits) (i : Nat) (cs : List Char) :
    withDigits choice i cs = withDigits other i cs ↔
      ∀ k, cs[k]? = some '$' →
        choice (i + k) (digitsAt cs k) = other (i + k) (digitsAt cs k) := by
  -- A dollar sign takes its digits along, so that less than a tail is left behind it.
  induction hlength : cs.length using Nat.strongRecOn generalizing i cs with
  | ind length ih =>
    subst hlength
    cases cs with
    | nil => simp [withDigits]
    | cons c cs =>
      by_cases hc : c = '$'
      · subst hc
        obtain ⟨ds, rest, rfl, hds, hrest, hle⟩ := exists_digits cs
        have hhead (choice : Choice) :
            ∀ c ∈ (withDigits choice (i + 1 + ds.length) rest).head?, c.isDigit = false := by
          rw [head?_withDigits]
          exact hrest
        have hindex (k : Nat) : i + 1 + ds.length + k = i + (1 + ds.length + k) := by omega
        rw [withDigits_dollar hds hrest, withDigits_dollar hds hrest, List.cons_inj_right,
          append_digits_inj (hchoice i ds hds) (hhead _) (hother i ds hds) (hhead _),
          ih rest.length (Nat.lt_succ_of_le hle) _ _ rfl,
          forall_dollar_cons hds hrest (P := fun k ds ↦ choice (i + k) ds = other (i + k) ds)]
        simp only [hindex, Nat.add_zero]
      · have hindex (k : Nat) : i + 1 + k = i + (k + 1) := by omega
        rw [withDigits_of_ne choice hc, withDigits_of_ne other hc, List.cons_inj_right,
          ih cs.length (Nat.lt_succ_self _) _ _ rfl,
          forall_dollar_of_ne hc (P := fun k ds ↦ choice (i + k) ds = other (i + k) ds)]
        exact forall_congr' fun k ↦ by rw [hindex k]

theorem moved_givesDigits (offset : Nat) (cs : List Char) : (moved offset cs).GivesDigits := by
  intro i ds hds
  rw [moved]
  split
  · exact isDigit_of_mem_shiftDigits hds
  · exact hds

/-! ### One choice behind another -/

namespace Choice

variable {early later : Choice} {n : Nat}

theorem until_of_lt {i : Nat} (h : i < n) : early.until n later i = early i := if_pos h

theorem until_of_le {i : Nat} (h : n ≤ i) : early.until n later i = later i :=
  if_neg (Nat.not_lt.mpr h)

theorem GivesDigits.until (hearly : early.GivesDigits) (hlater : later.GivesDigits) :
    (early.until n later).GivesDigits := by
  intro i ds hds
  rw [Choice.until]
  split
  · exact hearly i ds hds
  · exact hlater i ds hds

end Choice

theorem withDigits_until (early : Choice) (n : Nat) (later : Choice) (cs : List Char) :
    withDigits (early.until n later) n cs = withDigits later n cs :=
  withDigits_congr (fun _ hj ↦ Choice.until_of_le hj) cs

/-! ### Quote marks -/

/-- The state of a reader behind a text, with the quote mark that is open there. -/
def stateIn : Option Char → ShiftState
  | none => .plain
  | some q => .quoted q

theorem shiftFrom_digits {offset : Nat} {ds rest : List Char} (hds : ∀ c ∈ ds, c.isDigit)
    (hrest : ∀ c ∈ rest.head?, c.isDigit = false) (gathered : List Char) :
    shiftFrom offset (.digits gathered) (ds ++ rest) =
      shiftDigits offset (gathered.reverse ++ ds) ++ shiftFrom offset .plain rest := by
  induction ds generalizing gathered with
  | nil =>
    cases rest with
    | nil => simp [shiftFrom]
    | cons c rest => simp [shiftFrom, hrest c rfl]
  | cons d ds ih =>
    obtain ⟨hd, hds⟩ := List.forall_mem_cons.mp hds
    rw [List.cons_append, shiftFrom, if_pos hd, ih hds, List.reverse_cons, List.append_assoc]
    rfl

theorem turnQuote_of_isDigit {d : Char} (h : d.isDigit) : turnQuote none d = none := by
  have hcode : d.toNat ≠ 39 := fun hcode ↦ by
    rw [Char.isDigit_iff_toNat, hcode] at h
    exact absurd h.1 (by decide)
  have hquote : d ≠ '"' := by
    rintro rfl
    simp at h
  rw [turnQuote, if_neg (by simp [hcode, hquote])]

theorem openQuote_digits {ds : List Char} (h : ∀ c ∈ ds, c.isDigit) : openQuote none ds = none := by
  induction ds with
  | nil => rfl
  | cons d ds ih =>
    obtain ⟨hd, hds⟩ := List.forall_mem_cons.mp h
    rw [openQuote, List.foldl_cons, turnQuote_of_isDigit hd]
    exact ih hds

/-- The quote mark that is open behind a dollar sign, its digits and more. -/
theorem openQuote_dollar {ds : List Char} (h : ∀ c ∈ ds, c.isDigit) (cs : List Char) :
    openQuote none ('$' :: (ds ++ cs)) = openQuote none cs := by
  have hdollar : turnQuote none '$' = none := rfl
  rw [openQuote, List.foldl_cons, hdollar, List.foldl_append]
  exact congrArg (cs.foldl turnQuote) (openQuote_digits h)

theorem shiftFrom_eq_withDigits {offset : Nat} {choice : Choice} (opened : Option Char) (i : Nat)
    (cs : List Char) (h : ∀ k ds, choice (i + k) ds =
      if openQuote opened (cs.take k) = none then shiftDigits offset ds else ds) :
    shiftFrom offset (stateIn opened) cs = withDigits choice i cs := by
  induction hlength : cs.length using Nat.strongRecOn generalizing opened i cs with
  | ind length ih =>
    subst hlength
    cases cs with
    | nil => cases opened <;> simp [shiftFrom, stateIn, withDigits]
    | cons c cs =>
      have hfirst (ds : List Char) : choice i ds = if opened = none then shiftDigits offset ds else ds :=
        h 0 ds
      have hbehind (k : Nat) (ds : List Char) : choice (i + 1 + k) ds =
          if openQuote (turnQuote opened c) (cs.take k) = none then shiftDigits offset ds else ds := by
        rw [Nat.add_assoc, Nat.add_comm 1]
        exact h (k + 1) ds
      have hrest := ih cs.length (Nat.lt_succ_self _) (turnQuote opened c) (i + 1) cs hbehind rfl
      cases opened with
      -- Between quote marks a dollar sign is a character like any other.
      | some q =>
        have hstate : (if c = q then ShiftState.plain else .quoted q) =
            stateIn (turnQuote (some q) c) := by
          rw [turnQuote]
          split <;> rfl
        have hkept : c = '$' → ∀ ds, choice i ds = ds := fun _ ds ↦ hfirst ds
        rw [withDigits_cons hkept, stateIn, shiftFrom, hstate, hrest]
      | none =>
        by_cases hc : c = '$'
        · subst hc
          obtain ⟨ds, rest, rfl, hds, hhead, hle⟩ := exists_digits cs
          have hlater (k : Nat) (es : List Char) : choice (i + 1 + ds.length + k) es =
              if openQuote none (rest.take k) = none then shiftDigits offset es else es := by
            have hindex : i + 1 + ds.length + k = i + (ds.length + k + 1) := by omega
            rw [hindex, h, List.take_succ_cons, List.take_length_add_append, openQuote_dollar hds]
          have hdollar : shiftFrom.entering '$' = .digits [] := rfl
          rw [withDigits_dollar hds hhead, hfirst, if_pos rfl, stateIn, shiftFrom, hdollar,
            shiftFrom_digits hds hhead,
            ← ih rest.length (Nat.lt_succ_of_le hle) none _ rest hlater rfl]
          rfl
        · have hstate : shiftFrom.entering c = stateIn (turnQuote none c) := by
            rw [shiftFrom.entering, turnQuote, if_neg hc]
            split <;> rfl
          rw [withDigits_of_ne choice hc, stateIn, shiftFrom, hstate, hrest]

/-- A text that is moved behind other parameters has its numbers raised where no quote mark is
open. -/
theorem shiftPlaceholders_eq_withDigits {offset : Nat} (hoffset : offset ≠ 0) (cs : List Char) :
    shiftPlaceholders offset cs = withDigits (moved offset cs) 0 cs := by
  rw [shiftPlaceholders, if_neg hoffset]
  refine shiftFrom_eq_withDigits none 0 cs fun k ds ↦ ?_
  rw [Nat.zero_add, moved]

end SchemaSql.Fragment
