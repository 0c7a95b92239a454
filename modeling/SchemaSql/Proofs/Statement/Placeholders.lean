import SchemaSql.Proofs.Number.Digits
import SchemaSql.Proofs.Statement.Texts

/-!
A text that the caller wrote, read with its parameters. A number behind an unquoted dollar sign
stands for the parameter with that number, the first one being number one. A text that is moved
behind other parameters has its numbers raised, and is then read with all of them as it was before
with its own: no placeholder comes to stand for a parameter of somebody else.
-/

set_option autoImplicit false
set_option relaxedAutoImplicit false

namespace SchemaSql.Fragment

/-- What a reader of a text finds: characters, and placeholders with what they stand for. -/
inductive Token
  | character (c : Char)
  | parameter (p : Option Parameter)

/-- The parameter with a number, if there is one. -/
def numbered? (ps : List Parameter) (k : Nat) : Option Parameter :=
  if k = 0 then none else ps[k - 1]?

/-- What the digits behind a dollar sign stand for. Without digits it is a mere character. -/
def digitsToken (ps : List Parameter) (digits : List Char) : List Token :=
  if digits.isEmpty then [] else [.parameter (numbered? ps (Decimal.readNat digits))]

/-- A text as it is read with some parameters, from a state on. -/
def readFrom (ps : List Parameter) : ShiftState → List Char → List Token
  | .plain, [] => []
  | .quoted _, [] => []
  | .digits ds, [] => digitsToken ps ds.reverse
  | .quoted q, c :: cs => .character c :: readFrom ps (if c = q then .plain else .quoted q) cs
  | .plain, c :: cs => .character c :: readFrom ps (shiftFrom.entering c) cs
  | .digits ds, c :: cs =>
    if c.isDigit then readFrom ps (.digits (c :: ds)) cs
    else digitsToken ps ds.reverse ++ .character c :: readFrom ps (shiftFrom.entering c) cs

/-- A text as it is read with its parameters. -/
def read (ps : List Parameter) (cs : List Char) : List Token := readFrom ps .plain cs

/-! ### Digits -/

/-- Digits are gathered. -/
theorem readFrom_append_digits (ps : List Parameter) {digits : List Char}
    (h : ∀ c ∈ digits, c.isDigit) (gathered rest : List Char) :
    readFrom ps (.digits gathered) (digits ++ rest) =
      readFrom ps (.digits (digits.reverse ++ gathered)) rest := by
  induction digits generalizing gathered with
  | nil => rfl
  | cons c digits ih =>
    obtain ⟨hc, hdigits⟩ := List.forall_mem_cons.mp h
    rw [List.cons_append, readFrom, if_pos hc, ih hdigits, List.reverse_cons, List.append_assoc]
    rfl

theorem placeholderNumber?_eq_some_iff {digits : List Char} {n : Nat} :
    placeholderNumber? digits = some n ↔
      digits ≠ [] ∧ Decimal.readNat digits = n ∧ n < power2 64 := by
  rw [placeholderNumber?, Option.ite_none_left_eq_some, Option.ite_none_right_eq_some,
    List.isEmpty_iff]
  refine and_congr_right fun _ ↦ ⟨?_, ?_⟩
  · rintro ⟨hbound, hread⟩
    obtain rfl := Option.some.inj hread
    exact ⟨rfl, hbound⟩
  · rintro ⟨rfl, hbound⟩
    exact ⟨hbound, rfl⟩

/-- A number is read from its own digits. -/
theorem placeholderNumber?_toString {n : Nat} (h : n < power2 64) :
    placeholderNumber? (toString n).toList = some n :=
  placeholderNumber?_eq_some_iff.mpr
    ⟨by simp [Nat.toDigits_ne_nil], Decimal.readNat_toString n, h⟩

/-- A number that is read from digits is raised to another one. -/
theorem shiftDigits_of_number {offset n : Nat} {ds : List Char} (h : placeholderNumber? ds = some n)
    (hlarge : n + offset < power2 64) : shiftDigits offset ds = (toString (n + offset)).toList := by
  rw [shiftDigits, h]
  exact congrArg (fun n ↦ (toString n).toList) (Nat.mod_eq_of_lt hlarge)

theorem shiftDigits_of_none {offset : Nat} {ds : List Char} (h : placeholderNumber? ds = none) :
    shiftDigits offset ds = ds := by
  rw [shiftDigits, h]

theorem isDigit_of_mem_shiftDigits {offset : Nat} {digits : List Char}
    (h : ∀ c ∈ digits, c.isDigit) : ∀ c ∈ shiftDigits offset digits, c.isDigit := by
  rw [shiftDigits]
  cases placeholderNumber? digits with
  | none => exact h
  | some n => exact fun c ↦ Decimal.isDigit_of_mem_toString

/-- The digits of a moved placeholder are gathered like those that it had. -/
theorem readFrom_shiftDigits (ps : List Parameter) (offset : Nat) {gathered : List Char}
    (h : ∀ c ∈ gathered, c.isDigit) (rest : List Char) :
    readFrom ps (.digits []) (shiftDigits offset gathered.reverse ++ rest) =
      readFrom ps (.digits (shiftDigits offset gathered.reverse).reverse) rest := by
  have hdigits : ∀ c ∈ shiftDigits offset gathered.reverse, c.isDigit :=
    isDigit_of_mem_shiftDigits fun c hc ↦ h c (List.mem_reverse.mp hc)
  rw [readFrom_append_digits ps hdigits, List.append_nil]

variable {front ps back : List Parameter}

/-- A number that stands for a parameter stands for it also behind others, if it is raised. -/
theorem digitsToken_shiftDigits (hlength : (front ++ ps ++ back).length < power2 64)
    {digits : List Char} (hknown : .parameter none ∉ digitsToken ps digits) :
    digitsToken (front ++ ps ++ back) (shiftDigits front.length digits) =
      digitsToken ps digits := by
  cases hempty : digits.isEmpty with
  | true =>
    obtain rfl := List.isEmpty_iff.mp hempty
    rfl
  | false =>
    generalize hk : Decimal.readNat digits = k
    have hold : digitsToken ps digits = [.parameter (numbered? ps k)] := by
      rw [digitsToken, hempty, hk]
      rfl
    have hstands : numbered? ps k ≠ none := by
      rintro hnone
      simp [hold, hnone] at hknown
    have hpositive : k ≠ 0 := by
      rintro rfl
      exact hstands rfl
    rw [numbered?, if_neg hpositive, ne_eq, List.getElem?_eq_none_iff, Nat.not_le] at hstands
    rw [List.length_append, List.length_append] at hlength
    have hnumber : placeholderNumber? digits = some k :=
      placeholderNumber?_eq_some_iff.mpr ⟨by simpa using hempty, hk, by omega⟩
    have hshifted : shiftDigits front.length digits = (toString (k + front.length)).toList :=
      shiftDigits_of_number hnumber (by omega)
    have hsome : (toString (k + front.length)).toList.isEmpty = false := by
      simp [Nat.toDigits_ne_nil]
    have hbehind : numbered? (front ++ ps ++ back) (k + front.length) = numbered? ps k := by
      have hindex : k + front.length - 1 - front.length = k - 1 := by omega
      rw [numbered?, numbered?, if_neg hpositive, if_neg (by omega),
        List.getElem?_append_left (by rw [List.length_append]; omega),
        List.getElem?_append_right (by omega), hindex]
    rw [hold, hshifted, digitsToken, hsome, Decimal.readNat_toString, hbehind]
    rfl

/-- A number that stands for a parameter stands for it also in front of others. -/
theorem digitsToken_append {digits : List Char} (hknown : .parameter none ∉ digitsToken ps digits) :
    digitsToken (ps ++ back) digits = digitsToken ps digits := by
  cases hempty : digits.isEmpty with
  | true => rw [digitsToken, digitsToken, hempty, if_pos rfl, if_pos rfl]
  | false =>
    rw [digitsToken, hempty, if_neg Bool.false_ne_true, numbered?] at hknown
    rw [digitsToken, digitsToken, hempty, if_neg Bool.false_ne_true, if_neg Bool.false_ne_true,
      numbered?, numbered?]
    split at hknown
    · simp at hknown
    · rename_i hpositive
      rw [if_neg hpositive, if_neg hpositive]
      have hknown' : ps[Decimal.readNat digits - 1]? ≠ none := fun hnone ↦ by simp [hnone] at hknown
      rw [List.getElem?_append_left (by simpa using hknown')]

/-! ### Texts -/

/-- Only digits have been gathered. -/
def ShiftState.Gathers : ShiftState → Prop
  | .digits ds => ∀ c ∈ ds, c.isDigit
  | _ => True

/-- Where the reader of a moved text stands: digits are written only when all have been gathered. -/
def ShiftState.written : ShiftState → ShiftState
  | .plain => .plain
  | .quoted q => .quoted q
  | .digits _ => .digits []

theorem written_entering (c : Char) :
    (shiftFrom.entering c).written = shiftFrom.entering c ∧ (shiftFrom.entering c).Gathers := by
  rw [shiftFrom.entering]
  split
  · exact ⟨rfl, trivial⟩
  · split
    · exact ⟨rfl, by simp [ShiftState.Gathers]⟩
    · exact ⟨rfl, trivial⟩

theorem readFrom_shiftFrom (hlength : (front ++ ps ++ back).length < power2 64) (s : ShiftState)
    (cs : List Char) (hs : s.Gathers) (hknown : .parameter none ∉ readFrom ps s cs) :
    readFrom (front ++ ps ++ back) s.written (shiftFrom front.length s cs) = readFrom ps s cs := by
  induction s, cs using shiftFrom.induct with
  | case1 => rfl
  | case2 q => rfl
  | case3 ds =>
    have hend := readFrom_shiftDigits (front ++ ps ++ back) front.length hs []
    rw [List.append_nil] at hend
    rw [shiftFrom, ShiftState.written, hend, readFrom, List.reverse_reverse, readFrom]
    exact digitsToken_shiftDigits hlength hknown
  | case4 q c cs ih =>
    have hstate : (if c = q then ShiftState.plain else .quoted q).written =
        (if c = q then ShiftState.plain else .quoted q) ∧
          (if c = q then ShiftState.plain else .quoted q).Gathers := by
      split <;> exact ⟨rfl, trivial⟩
    rw [readFrom] at hknown
    have hrest := ih hstate.2 fun hmem ↦ hknown (List.mem_cons_of_mem _ hmem)
    rw [hstate.1] at hrest
    rw [shiftFrom, ShiftState.written, readFrom, readFrom, hrest]
  | case5 c cs ih =>
    rw [readFrom] at hknown
    have hrest := ih (written_entering c).2 fun hmem ↦ hknown (List.mem_cons_of_mem _ hmem)
    rw [(written_entering c).1] at hrest
    rw [shiftFrom, ShiftState.written, readFrom, readFrom, hrest]
  | case6 ds c cs hdigit ih =>
    rw [readFrom, if_pos hdigit] at hknown ⊢
    rw [shiftFrom, if_pos hdigit]
    exact ih (List.forall_mem_cons.mpr ⟨hdigit, hs⟩) hknown
  | case7 ds c cs hdigit ih =>
    rw [readFrom, if_neg hdigit] at hknown ⊢
    have hrest := ih (written_entering c).2 fun hmem ↦
      hknown (List.mem_append_right _ (List.mem_cons_of_mem _ hmem))
    rw [(written_entering c).1] at hrest
    rw [shiftFrom, if_neg hdigit, ShiftState.written, readFrom_shiftDigits _ _ hs, readFrom,
      if_neg hdigit, hrest, List.reverse_reverse]
    exact congrArg (· ++ _)
      (digitsToken_shiftDigits hlength fun hmem ↦ hknown (List.mem_append_left _ hmem))

/-- A text is read as it was if other parameters come behind its own. -/
theorem readFrom_append (s : ShiftState) (cs : List Char)
    (hknown : .parameter none ∉ readFrom ps s cs) : readFrom (ps ++ back) s cs = readFrom ps s cs := by
  induction s, cs using readFrom.induct with
  | case1 => rfl
  | case2 q => rfl
  | case3 ds => exact digitsToken_append hknown
  | case4 q c cs ih =>
    rw [readFrom] at hknown
    rw [readFrom, readFrom, ih fun hmem ↦ hknown (List.mem_cons_of_mem _ hmem)]
  | case5 c cs ih =>
    rw [readFrom] at hknown
    rw [readFrom, readFrom, ih fun hmem ↦ hknown (List.mem_cons_of_mem _ hmem)]
  | case6 ds c cs hdigit ih =>
    rw [readFrom, if_pos hdigit] at hknown
    rw [readFrom, readFrom, if_pos hdigit, if_pos hdigit, ih hknown]
  | case7 ds c cs hdigit ih =>
    rw [readFrom, if_neg hdigit] at hknown
    rw [readFrom, readFrom, if_neg hdigit, if_neg hdigit,
      digitsToken_append fun hmem ↦ hknown (List.mem_append_left _ hmem),
      ih fun hmem ↦ hknown (List.mem_append_right _ (List.mem_cons_of_mem _ hmem))]

/-- A text that is moved behind other parameters is read as it was, if all its placeholders stand
for parameters. -/
theorem read_shiftPlaceholders (hlength : (front ++ ps ++ back).length < power2 64)
    {cs : List Char} (hknown : .parameter none ∉ read ps cs) :
    read (front ++ ps ++ back) (shiftPlaceholders front.length cs) = read ps cs := by
  rw [shiftPlaceholders]
  split
  · rename_i hlength
    rw [List.length_eq_zero_iff.mp hlength, List.nil_append]
    exact readFrom_append .plain cs hknown
  · exact readFrom_shiftFrom hlength .plain cs trivial hknown

end SchemaSql.Fragment
