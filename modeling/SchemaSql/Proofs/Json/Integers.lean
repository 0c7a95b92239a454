import Mathlib.Data.List.TakeWhile
import SchemaSql.Proofs.Json.Members
import SchemaSql.Proofs.Number.Digits
import SchemaSql.Value

/-!
The integer literals of a document. A literal is an optional minus and digits, none of them a zero
in front of others, and its text is the text of one integer. It keeps its digits exactly if 64 bits
hold the integer, signed or not: then it is bound as that integer or as its text, and is written
within the text of an array or object as it was read. Any other literal is bound as a float.
-/

set_option autoImplicit false
set_option relaxedAutoImplicit false

namespace SchemaSql.Json

/-! ### Reading -/

/-- The literal of an integer, as a document holds it. -/
def NumberLiteral.ofInt (n : Int) : NumberLiteral where
  negative := decide (n < 0)
  whole := (toString n.natAbs).toList
  places := []
  power := none

/-- What follows does not go on with the number in front of it. -/
def EndsNumber (rest : List Char) : Prop :=
  ∀ c ∈ rest.head?, ¬ c.isDigit ∧ c ≠ '.' ∧ c ≠ 'e' ∧ c ≠ 'E'

variable {cs ds rest : List Char} {negative : Bool} {l : NumberLiteral}

theorem readDigits_eq_iff : readDigits cs = (ds, rest) ↔
    cs = ds ++ rest ∧ (∀ c ∈ ds, c.isDigit) ∧ ∀ c ∈ rest.head?, ¬ c.isDigit := by
  rw [readDigits, Prod.mk.injEq]
  constructor
  · rintro ⟨rfl, rfl⟩
    refine ⟨List.takeWhile_append_dropWhile.symm, fun c ↦ List.mem_takeWhile_imp, fun c hc ↦ ?_⟩
    have hnot := List.head?_dropWhile_not Char.isDigit cs
    rw [Option.mem_def.mp hc] at hnot
    exact Bool.eq_false_iff.mp hnot
  · rintro ⟨rfl, hdigits, hrest⟩
    rw [List.takeWhile_append_of_pos hdigits, List.dropWhile_append_of_pos hdigits]
    cases rest with
    | nil => simp
    | cons c rest =>
      have hc := hrest c rfl
      rw [List.takeWhile_cons_of_neg hc, List.dropWhile_cons_of_neg hc, List.append_nil]
      exact ⟨rfl, rfl⟩

theorem readPlaces_eq_nil_iff :
    readPlaces cs = some ([], rest) ↔ cs = rest ∧ ∀ c ∈ cs.head?, c ≠ '.' := by
  unfold readPlaces
  split
  · rename_i cs
    dsimp only
    refine iff_of_false ?_ fun h ↦ h.2 '.' rfl rfl
    split
    · exact nofun
    · rename_i hne
      intro h
      exact hne (by rw [(Prod.mk.inj (Option.some.inj h)).1]; rfl)
  · rename_i hpoint
    simp only [Option.some.injEq, Prod.mk.injEq, true_and]
    refine (and_iff_left ?_).symm
    rintro c hc rfl
    obtain ⟨tail, rfl⟩ := List.head?_eq_some_iff.mp hc
    exact hpoint tail rfl

theorem readPower_eq_none_iff :
    readPower cs = some (none, rest) ↔ cs = rest ∧ ∀ c ∈ cs.head?, c ≠ 'e' ∧ c ≠ 'E' := by
  cases cs with
  | nil => simp [readPower]
  | cons c cs =>
    by_cases hc : c = 'e' ∨ c = 'E'
    · refine iff_of_false ?_ fun h ↦ hc.elim (h.2 c rfl).1 (h.2 c rfl).2
      simp only [readPower, if_pos hc]
      split <;> split <;> exact nofun
    · simp only [readPower, if_neg hc]
      simpa using fun _ ↦ not_or.mp hc

/-- The parts of a number, in the order in which they are read. -/
theorem readNumber_eq_some_iff {d : Document} : readNumber negative cs = some (d, rest) ↔
    ∃ whole places power after after', readDigits cs = (whole, after) ∧ whole ≠ [] ∧
      (∀ tail, whole = '0' :: tail → tail = []) ∧ readPlaces after = some (places, after') ∧
      readPower after' = some (power, rest) ∧ .number ⟨negative, whole, places, power⟩ = d := by
  obtain ⟨whole, after, hdigits⟩ : ∃ whole after, readDigits cs = (whole, after) := ⟨_, _, rfl⟩
  rw [readNumber, hdigits]
  dsimp only
  split
  · exact iff_of_false nofun fun ⟨_, _, _, _, _, hread, hne, _⟩ ↦ hne (Prod.mk.inj hread).1.symm
  · refine iff_of_false nofun fun ⟨_, _, _, _, _, hread, _, hzero, _⟩ ↦ ?_
    cases hzero _ (Prod.mk.inj hread).1.symm
  · rename_i hne hzero
    simp only [Option.bind_eq_bind, Option.bind_eq_some_iff, Prod.exists, Option.some.injEq,
      Prod.mk.injEq]
    constructor
    · rintro ⟨places, after', hplaces, power, rest', hpower, hd, rfl⟩
      refine ⟨whole, places, power, after, after', ⟨rfl, rfl⟩, hne, ?_, hplaces, hpower, hd⟩
      intro tail htail
      cases tail with
      | nil => rfl
      | cons c tail => exact absurd htail (hzero c tail)
    · rintro ⟨_, places, power, _, after', ⟨rfl, rfl⟩, -, -, hplaces, hpower, hd⟩
      exact ⟨places, after', hplaces, power, rest, hpower, hd, rfl⟩

/-- Digits alone are read as a number if no zero is in front of others and the number ends there. -/
theorem readNumber_eq_digits_iff {negative' : Bool} :
    readNumber negative cs = some (.number ⟨negative', ds, [], none⟩, rest) ↔
      negative = negative' ∧ cs = ds ++ rest ∧ (ds ≠ [] ∧ (∀ c ∈ ds, c.isDigit) ∧
        ∀ tail, ds = '0' :: tail → tail = []) ∧ EndsNumber rest := by
  rw [readNumber_eq_some_iff]
  constructor
  · rintro ⟨whole, places, power, after, after', hdigits, hne, hzero, hplaces, hpower, hd⟩
    obtain ⟨rfl, rfl, rfl, rfl⟩ := NumberLiteral.mk.inj (Document.number.inj hd)
    obtain ⟨rfl, hpoint⟩ := readPlaces_eq_nil_iff.mp hplaces
    obtain ⟨rfl, hletter⟩ := readPower_eq_none_iff.mp hpower
    obtain ⟨hcs, hwhole, hdigit⟩ := readDigits_eq_iff.mp hdigits
    exact ⟨rfl, hcs, ⟨hne, hwhole, hzero⟩, fun c hc ↦ ⟨hdigit c hc, hpoint c hc, hletter c hc⟩⟩
  · rintro ⟨rfl, hcs, ⟨hne, hwhole, hzero⟩, hends⟩
    exact ⟨ds, [], none, rest, rest, readDigits_eq_iff.mpr ⟨hcs, hwhole, fun c hc ↦ (hends c hc).1⟩,
      hne, hzero, readPlaces_eq_nil_iff.mpr ⟨rfl, fun c hc ↦ (hends c hc).2.1⟩,
      readPower_eq_none_iff.mpr ⟨rfl, fun c hc ↦ (hends c hc).2.2⟩, rfl⟩

theorem exists_digit_of_readNumber {r : Document × List Char}
    (h : readNumber negative cs = some r) : ∃ c tail, cs = c :: tail ∧ c.isDigit := by
  obtain ⟨ds, _, _, after, _, hdigits, hne, -⟩ := readNumber_eq_some_iff.mp h
  obtain ⟨rfl, hall, -⟩ := readDigits_eq_iff.mp hdigits
  obtain ⟨c, tail, rfl⟩ := List.exists_cons_of_ne_nil hne
  exact ⟨c, tail ++ after, rfl, hall c List.mem_cons_self⟩

/-- A value is a number if it is one behind a minus or without. -/
theorem readValue_eq_number_iff {fuel : Nat} :
    readValue (fuel + 1) cs = some (.number l, rest) ↔
      (∃ tail, skipGap cs = '-' :: tail ∧ readNumber true tail = some (.number l, rest)) ∨
        readNumber false (skipGap cs) = some (.number l, rest) := by
  rw [readValue]
  generalize skipGap cs = text
  have hother {c : Char} {tail : List Char} (hdigit : ¬ c.isDigit) (hminus : c ≠ '-') :
      ¬ ((∃ tail', c :: tail = '-' :: tail' ∧ readNumber true tail' = some (.number l, rest)) ∨
        readNumber false (c :: tail) = some (.number l, rest)) := by
    rintro (⟨_, h, -⟩ | h)
    · exact hminus (List.cons.inj h).1
    · obtain ⟨_, _, htext, hc⟩ := exists_digit_of_readNumber h
      exact hdigit ((List.cons.inj htext).1 ▸ hc)
  have hkeyword {word tail : List Char} {d : Document} (hd : d ≠ .number l) :
      readKeyword word d tail ≠ some (.number l, rest) := by
    rw [readKeyword, ne_eq, Option.ite_none_right_eq_some]
    rintro ⟨-, h⟩
    exact hd (Prod.mk.inj (Option.some.inj h)).1
  split
  · exact iff_of_false (by simp) (hother (by decide) (by decide))
  · refine iff_of_false ?_ (hother (by decide) (by decide))
    split <;> simp
  · refine iff_of_false ?_ (hother (by decide) (by decide))
    split <;> simp
  · rename_i tail
    simp only [List.cons.injEq, true_and, exists_eq_left']
    refine (or_iff_left fun h ↦ ?_).symm
    obtain ⟨_, _, htext, hc⟩ := exists_digit_of_readNumber h
    obtain rfl := (List.cons.inj htext).1
    cases hc
  · exact iff_of_false (hkeyword nofun) (hother (by decide) (by decide))
  · exact iff_of_false (hkeyword nofun) (hother (by decide) (by decide))
  · exact iff_of_false (hkeyword nofun) (hother (by decide) (by decide))
  · rename_i hminus _ _ _
    refine (or_iff_right ?_).symm
    rintro ⟨tail, rfl, -⟩
    exact hminus tail rfl

/-- The text of an integer, and no other, is read as the literal of the integer. -/
theorem readValue_eq_ofInt_iff {fuel : Nat} {n : Int} :
    readValue (fuel + 1) cs = some (.number (.ofInt n), rest) ↔
      skipGap cs = (toString n).toList ++ rest ∧ EndsNumber rest := by
  have hwhole : (toString n.natAbs).toList ≠ [] ∧ (∀ c ∈ (toString n.natAbs).toList, c.isDigit) ∧
      ∀ tail, (toString n.natAbs).toList = '0' :: tail → tail = [] :=
    ⟨by rw [Decimal.toList_toString]; exact Nat.toDigits_ne_nil,
      fun _ ↦ Decimal.isDigit_of_mem_toString, fun _ ↦ Decimal.tail_eq_nil_of_toString⟩
  have hnumber {negative : Bool} {text : List Char} :
      readNumber negative text = some (.number (.ofInt n), rest) ↔
        negative = decide (n < 0) ∧ text = (toString n.natAbs).toList ++ rest ∧ EndsNumber rest := by
    rw [NumberLiteral.ofInt, readNumber_eq_digits_iff]
    exact and_congr_right fun _ ↦ and_congr_right fun _ ↦ and_iff_right hwhole
  rw [readValue_eq_number_iff, hnumber, Decimal.toList_toString_int]
  by_cases hn : n < 0
  · rw [if_pos hn, or_iff_left fun h ↦ by simp [hn] at h]
    constructor
    · rintro ⟨tail, htext, htail⟩
      obtain ⟨-, rfl, hends⟩ := hnumber.mp htail
      exact ⟨htext, hends⟩
    · rintro ⟨htext, hends⟩
      exact ⟨_, htext, hnumber.mpr ⟨(decide_eq_true hn).symm, rfl, hends⟩⟩
  · rw [if_neg hn, or_iff_right fun ⟨_, _, h⟩ ↦ by simpa [hn] using (hnumber.mp h).1]
    exact and_iff_right (decide_eq_false hn).symm

/-! ### Values -/

theorem NumberLiteral.number?_ofInt (n : Int) : (ofInt n).number? =
    if -2 ^ 63 ≤ n ∧ n < 2 ^ 64 then some (.integer n) else (ofInt n).float?.map .float := by
  have hvalue : Decimal.readNat (ofInt n).whole = n.natAbs := Decimal.readNat_toString n.natAbs
  have hnegative : (ofInt n).negative = true ↔ n < 0 := decide_eq_true_iff
  have hpower : power2 63 = 2 ^ 63 ∧ power2 64 = 2 ^ 64 := ⟨rfl, rfl⟩
  rw [number?, hvalue, if_pos ⟨rfl, rfl⟩]
  dsimp only
  by_cases hn : n < 0
  · rw [if_pos (hnegative.mpr hn), if_neg (by omega), hpower.1]
    by_cases hrange : n.natAbs ≤ 2 ^ 63
    · rw [if_pos hrange, if_pos (by omega), Int.ofNat_natAbs_of_nonpos (by omega), Int.neg_neg]
    · rw [if_neg hrange, if_neg (by omega)]
  · rw [if_neg (hn ∘ hnegative.mp), hpower.2]
    by_cases hrange : n.natAbs < 2 ^ 64
    · rw [if_pos hrange, if_pos (by omega), Int.natAbs_of_nonneg (by omega)]
    · rw [if_neg hrange, if_neg (by omega)]

variable {depth : Nat} {n : Int}

theorem ofDocument?_ofInt_of_mem (h : -2 ^ 63 ≤ n ∧ n < 2 ^ 64) :
    ofDocument? depth (.number (.ofInt n)) = some (.number (.integer n)) := by
  rw [ofDocument?, NumberLiteral.number?_ofInt, if_pos h, Option.map_some]

theorem ofDocument?_ofInt_of_not_mem (h : ¬ (-2 ^ 63 ≤ n ∧ n < 2 ^ 64)) :
    ofDocument? depth (.number (.ofInt n)) =
      (NumberLiteral.ofInt n).float?.map fun x ↦ .number (.float x) := by
  rw [ofDocument?, NumberLiteral.number?_ofInt, if_neg h, Option.map_map]
  rfl

/-! ### Texts -/

theorem isDigit_or_minus_of_mem_toString {n : Int} {c : Char} (h : c ∈ (toString n).toList) :
    c.isDigit ∨ c = '-' := by
  rw [Decimal.toList_toString_int] at h
  rcases List.mem_append.mp h with h | h
  · split at h
    · exact .inr (List.mem_singleton.mp h)
    · cases h
  · exact .inl (Decimal.isDigit_of_mem_toString h)

/-- The text of a float has a point or an exponent, and so is not that of an integer. -/
theorem exists_mem_documentText (x : Binary64) :
    ∃ c ∈ x.documentText.toList, c = '.' ∨ c = 'e' := by
  have hmark (sign body : String) {c : Char} (hc : c ∈ body.toList) :
      c ∈ (sign ++ body).toList := by
    rw [String.toList_append]
    exact List.mem_append_right _ hc
  rw [Binary64.documentText]
  by_cases hzero : x.significand = 0
  · rw [if_pos hzero]
    exact ⟨'.', hmark _ _ (by decide), .inl rfl⟩
  · rw [if_neg hzero]
    dsimp only
    generalize Decimal.shortest .toEven x = d
    by_cases hplain : -5 ≤ d.magnitude ∧ d.magnitude ≤ 15
    · rw [if_pos hplain]
      refine ⟨'.', hmark _ _ ?_, .inl rfl⟩
      by_cases hwhole : 0 ≤ d.exponent
      · rw [if_pos hwhole]
        exact hmark _ _ (by decide)
      · rw [if_neg hwhole, Decimal.positional]
        cases he : d.exponent with
        | ofNat e => exact absurd (Int.natCast_nonneg e) (by rwa [he] at hwhole)
        | negSucc e => simp
    · rw [if_neg hplain]
      exact ⟨'e', hmark _ _ (by simp [Decimal.scientific]), .inr rfl⟩

/-- The text of a float is not the text of an integer. -/
theorem documentText_ne_toString (x : Binary64) (n : Int) : x.documentText ≠ toString n := by
  intro h
  obtain ⟨c, hc, hmark⟩ := exists_mem_documentText x
  rw [h] at hc
  rcases isDigit_or_minus_of_mem_toString hc with hdigit | rfl
  · rcases hmark with rfl | rfl <;> cases hdigit
  · rcases hmark with hmark | hmark <;> cases hmark

/-- In the text of an array or object the integer stands as it was written exactly if 64 bits hold
it. -/
theorem exists_render_eq_toString_iff :
    (∃ j, ofDocument? depth (.number (.ofInt n)) = some j ∧ j.render = toString n) ↔
      -2 ^ 63 ≤ n ∧ n < 2 ^ 64 := by
  by_cases hrange : -2 ^ 63 ≤ n ∧ n < 2 ^ 64
  · exact iff_of_true ⟨_, ofDocument?_ofInt_of_mem hrange, rfl⟩ hrange
  · refine iff_of_false (fun ⟨j, hj, hrender⟩ ↦ ?_) hrange
    rw [ofDocument?_ofInt_of_not_mem hrange] at hj
    obtain ⟨x, -, rfl⟩ := Option.map_eq_some_iff.mp hj
    exact documentText_ne_toString x n hrender

end SchemaSql.Json
