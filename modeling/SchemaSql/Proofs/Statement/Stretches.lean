import Mathlib.Data.List.Basic
import SchemaSql.Proofs.Statement.Moved

/-!
A text that the caller wrote, as stretches: quotations, which go to the next quote mark of their
kind or have no end; dollar signs outside of them, with the digits behind; and the other characters.
Every text consists of stretches, and in one way only. When a text is moved, numbers behind dollar
signs are raised and all other stretches stay, quotations included; and the moved text consists of
just these stretches, so that moving it again finds the same dollar signs. Hence it is the same to
move a text twice or by both offsets at once, whether its quotations end or not. Digits that are too
many for a number stay, and a number that is raised loses its leading zeros. The numbers have to fit
into 64 bits when they are raised; what becomes of a larger one is not said.
-/

set_option autoImplicit false
set_option relaxedAutoImplicit false

namespace SchemaSql.Fragment

/-- An apostrophe, or a double quote mark. -/
def IsQuote (c : Char) : Prop := c.toNat = 39 ∨ c = '"'

instance : DecidablePred IsQuote := fun c ↦ inferInstanceAs (Decidable (c.toNat = 39 ∨ c = '"'))

/-- What a text consists of. -/
inductive Stretch
  | plain (c : Char)
  | quoted (quote : Char) (inside : List Char)
  /-- A quotation that has no end. -/
  | unclosed (quote : Char) (inside : List Char)
  /-- A dollar sign outside of quotations, with the digits behind it. -/
  | dollar (digits : List Char)

namespace Stretch

/-- The number behind a dollar sign, if 64 bits hold it. -/
def number? : Stretch → Option Nat
  | .dollar digits => placeholderNumber? digits
  | _ => none

/-- The stretch with its number raised, if it has one. -/
def raised (offset : Nat) (s : Stretch) : Stretch :=
  match s.number? with
  | some n => .dollar (toString (n + offset)).toList
  | none => s

/-- The number, if there is one, still fits into 64 bits when it is raised. -/
def Fits (offset : Nat) (s : Stretch) : Prop := ∀ n ∈ s.number?, n + offset < power2 64

instance (offset : Nat) (s : Stretch) : Decidable (s.Fits offset) :=
  inferInstanceAs (Decidable (∀ n ∈ s.number?, n + offset < power2 64))

end Stretch

/-- The text consists of these stretches, one behind another. -/
inductive ConsistsOf : List Char → List Stretch → Prop
  | done : ConsistsOf [] []
  | plain {c : Char} {cs : List Char} {ss : List Stretch} (hquote : ¬ IsQuote c) (hdollar : c ≠ '$')
    (h : ConsistsOf cs ss) : ConsistsOf (c :: cs) (.plain c :: ss)
  | quoted {q : Char} {inside cs : List Char} {ss : List Stretch} (hq : IsQuote q)
    (hinside : q ∉ inside) (h : ConsistsOf cs ss) :
    ConsistsOf (q :: (inside ++ q :: cs)) (.quoted q inside :: ss)
  | unclosed {q : Char} {inside : List Char} (hq : IsQuote q) (hinside : q ∉ inside) :
    ConsistsOf (q :: inside) [.unclosed q inside]
  | dollar {ds cs : List Char} {ss : List Stretch} (hds : ∀ c ∈ ds, c.isDigit)
    (hcs : ∀ c ∈ cs.head?, c.isDigit = false) (h : ConsistsOf cs ss) :
    ConsistsOf ('$' :: (ds ++ cs)) (.dollar ds :: ss)

variable {cs : List Char} {ss : List Stretch} {offset : Nat}

theorem not_isQuote_dollar : ¬ IsQuote '$' := by decide

/-! ### Every text consists of stretches -/

theorem exists_consistsOf (cs : List Char) : ∃ ss, ConsistsOf cs ss := by
  induction hlength : cs.length using Nat.strongRecOn generalizing cs with
  | ind length ih =>
    subst hlength
    cases cs with
    | nil => exact ⟨[], .done⟩
    | cons c cs =>
      by_cases hquote : IsQuote c
      · by_cases hclosed : c ∈ cs
        · obtain ⟨inside, rest, rfl, hinside⟩ := List.eq_append_cons_of_mem hclosed
          have hlt : rest.length < (c :: (inside ++ c :: rest)).length := by
            simp only [List.length_cons, List.length_append]
            omega
          obtain ⟨ss, hss⟩ := ih rest.length hlt rest rfl
          exact ⟨_, .quoted hquote hinside hss⟩
        · exact ⟨_, .unclosed hquote hclosed⟩
      · by_cases hdollar : c = '$'
        · subst hdollar
          obtain ⟨ds, rest, rfl, hds, hrest, hle⟩ := exists_digits cs
          obtain ⟨ss, hss⟩ := ih rest.length (Nat.lt_succ_of_le hle) rest rfl
          exact ⟨_, .dollar hds hrest hss⟩
        · obtain ⟨ss, hss⟩ := ih cs.length (Nat.lt_succ_self _) cs rfl
          exact ⟨_, .plain hquote hdollar hss⟩

/-- The end of a quotation is told apart from what it quotes. -/
theorem append_quote_inj {q : Char} {inside inside' rest rest' : List Char} (h : q ∉ inside)
    (h' : q ∉ inside') :
    inside ++ q :: rest = inside' ++ q :: rest' ↔ inside = inside' ∧ rest = rest' := by
  constructor
  · intro heq
    have hlength : inside.length = inside'.length := by
      have hindex := congrArg (List.idxOf q) heq
      rwa [List.idxOf_append_of_notMem h, List.idxOf_append_of_notMem h', List.idxOf_cons_self,
        List.idxOf_cons_self] at hindex
    obtain ⟨rfl, hrest⟩ := List.append_inj heq hlength
    exact ⟨rfl, (List.cons.inj hrest).2⟩
  · rintro ⟨rfl, rfl⟩
    rfl

namespace ConsistsOf

theorem of_quote {q : Char} (hq : IsQuote q) (h : ConsistsOf (q :: cs) ss) :
    (∃ inside rest others, cs = inside ++ q :: rest ∧ ss = .quoted q inside :: others ∧
        q ∉ inside ∧ ConsistsOf rest others) ∨
      ss = [.unclosed q cs] ∧ q ∉ cs := by
  cases h with
  | plain hquote => exact absurd hq hquote
  | quoted _ hinside h => exact .inl ⟨_, _, _, rfl, rfl, hinside, h⟩
  | unclosed _ hinside => exact .inr ⟨rfl, hinside⟩
  | dollar => exact absurd hq not_isQuote_dollar

theorem of_dollar (h : ConsistsOf ('$' :: cs) ss) :
    ∃ ds rest others, cs = ds ++ rest ∧ ss = .dollar ds :: others ∧ (∀ c ∈ ds, c.isDigit) ∧
      (∀ c ∈ rest.head?, c.isDigit = false) ∧ ConsistsOf rest others := by
  cases h with
  | plain _ hdollar => exact absurd rfl hdollar
  | quoted hq | unclosed hq => exact absurd hq not_isQuote_dollar
  | dollar hds hrest h => exact ⟨_, _, _, rfl, rfl, hds, hrest, h⟩

/-- The first character, and what follows it, tell which stretch is the first. -/
theorem unique {ts : List Stretch} (h : ConsistsOf cs ss) (h' : ConsistsOf cs ts) : ss = ts := by
  induction h generalizing ts with
  | done =>
    cases h'
    rfl
  | plain hquote hdollar h ih =>
    cases h' with
    | plain _ _ h' => rw [ih h']
    | quoted hq | unclosed hq => exact absurd hq hquote
    | dollar => exact absurd rfl hdollar
  | quoted hq hinside h ih =>
    obtain ⟨_, _, _, hcs, rfl, hinside', h'⟩ | ⟨-, hopen⟩ := of_quote hq h'
    · obtain ⟨rfl, rfl⟩ := (append_quote_inj hinside hinside').mp hcs
      rw [ih h']
    · simp at hopen
  | unclosed hq hinside =>
    obtain ⟨_, _, _, rfl, -⟩ | ⟨rfl, -⟩ := of_quote hq h'
    · simp at hinside
    · rfl
  | dollar hds hrest h ih =>
    obtain ⟨_, _, _, hcs, rfl, hes, hrest', h'⟩ := of_dollar h'
    obtain ⟨rfl, rfl⟩ := (append_digits_inj hds hrest hes hrest').mp hcs
    rw [ih h']

/-- The stretches tell what the text is. -/
theorem text_unique {ds : List Char} (h : ConsistsOf cs ss) (h' : ConsistsOf ds ss) : cs = ds := by
  induction h generalizing ds with
  | done | unclosed =>
    cases h'
    rfl
  | plain _ _ _ ih =>
    cases h' with
    | plain _ _ h' => rw [ih h']
  | quoted _ _ _ ih =>
    cases h' with
    | quoted _ _ h' => rw [ih h']
  | dollar _ _ _ ih =>
    cases h' with
    | dollar _ _ h' => rw [ih h']

end ConsistsOf

/-! ### Raised numbers -/

namespace Stretch

variable {s : Stretch} {a b : Nat}

theorem raised_of_number {n : Nat} (h : s.number? = some n) :
    s.raised offset = .dollar (toString (n + offset)).toList := by
  rw [raised, h]

theorem raised_of_none (h : s.number? = none) : s.raised offset = s := by
  rw [raised, h]

/-- A raised dollar sign has the digits that are written when a text is moved. -/
theorem raised_dollar {ds : List Char} (h : (dollar ds).Fits offset) :
    (dollar ds).raised offset = dollar (shiftDigits offset ds) := by
  cases hnumber : (dollar ds).number? with
  | none => rw [raised_of_none hnumber, shiftDigits_of_none hnumber]
  | some n => rw [raised_of_number hnumber, shiftDigits_of_number hnumber (h n hnumber)]

theorem Fits.of_add (h : s.Fits (a + b)) : s.Fits a :=
  fun n hn ↦ Nat.lt_of_le_of_lt (by omega) (h n hn)

/-- A raised number is read again. -/
theorem number?_raised (h : s.Fits offset) :
    (s.raised offset).number? = s.number?.map (· + offset) := by
  cases hnumber : s.number? with
  | none => rw [raised_of_none hnumber, hnumber, Option.map_none]
  | some n =>
    rw [raised_of_number hnumber, number?, placeholderNumber?_toString (h n hnumber),
      Option.map_some]

theorem Fits.raised (h : s.Fits (a + b)) : (s.raised a).Fits b := by
  intro m hm
  rw [number?_raised h.of_add] at hm
  obtain ⟨n, hn, rfl⟩ := Option.map_eq_some_iff.mp hm
  rw [Nat.add_assoc]
  exact h n hn

theorem raised_raised (h : s.Fits (a + b)) : (s.raised a).raised b = s.raised (a + b) := by
  cases hnumber : s.number? with
  | none => rw [raised_of_none hnumber, raised_of_none hnumber, raised_of_none hnumber]
  | some n =>
    have hraised : (s.raised a).number? = some (n + a) := by
      rw [number?_raised h.of_add, hnumber, Option.map_some]
    rw [raised_of_number hraised, raised_of_number hnumber, Nat.add_assoc]

end Stretch

/-! ### Moving a text -/

theorem entering_of_isQuote {q : Char} (h : IsQuote q) : shiftFrom.entering q = .quoted q :=
  if_pos h

theorem entering_plain {c : Char} (hquote : ¬ IsQuote c) (hdollar : c ≠ '$') :
    shiftFrom.entering c = .plain :=
  (if_neg hquote).trans (if_neg hdollar)

theorem entering_dollar : shiftFrom.entering '$' = .digits [] := rfl

/-- What is quoted is copied. -/
theorem shiftFrom_inside {q : Char} {inside : List Char} (h : q ∉ inside) (offset : Nat)
    (cs : List Char) :
    shiftFrom offset (.quoted q) (inside ++ cs) = inside ++ shiftFrom offset (.quoted q) cs := by
  induction inside with
  | nil => rfl
  | cons c inside ih =>
    obtain ⟨hc, hinside⟩ := not_or.mp (mt List.mem_cons.mpr h)
    rw [List.cons_append, shiftFrom, if_neg (Ne.symm hc), ih hinside, List.cons_append]

theorem head?_shiftFrom (offset : Nat) (cs : List Char) :
    (shiftFrom offset .plain cs).head? = cs.head? := by
  cases cs <;> rfl

/-- A moved text consists of the stretches with their numbers raised. -/
theorem consistsOf_shiftFrom (h : ConsistsOf cs ss) (hfits : ∀ s ∈ ss, s.Fits offset) :
    ConsistsOf (shiftFrom offset .plain cs) (ss.map (Stretch.raised offset)) := by
  induction h with
  | done => exact .done
  | plain hquote hdollar h ih =>
    rw [shiftFrom, entering_plain hquote hdollar]
    exact .plain hquote hdollar (ih (List.forall_mem_cons.mp hfits).2)
  | quoted hq hinside h ih =>
    rw [shiftFrom, entering_of_isQuote hq, shiftFrom_inside hinside, shiftFrom, if_pos rfl]
    exact .quoted hq hinside (ih (List.forall_mem_cons.mp hfits).2)
  | @unclosed q inside hq hinside =>
    have hend : shiftFrom offset (.quoted q) inside = inside := by
      have hcopied := shiftFrom_inside hinside offset []
      rwa [List.append_nil, shiftFrom, List.append_nil] at hcopied
    rw [shiftFrom, entering_of_isQuote hq, hend]
    exact .unclosed hq hinside
  | @dollar ds cs ss hds hcs h ih =>
    obtain ⟨hfit, hothers⟩ := List.forall_mem_cons.mp hfits
    rw [shiftFrom, entering_dollar, shiftFrom_digits hds hcs, List.map_cons,
      Stretch.raised_dollar hfit]
    -- The digits end where they ended, since what follows them begins as it did.
    have hrest : ∀ c ∈ (shiftFrom offset .plain cs).head?, c.isDigit = false := by
      rw [head?_shiftFrom]
      exact hcs
    exact .dollar (isDigit_of_mem_shiftDigits hds) hrest (ih hothers)

theorem consistsOf_shiftPlaceholders (hpositive : 0 < offset) (h : ConsistsOf cs ss)
    (hfits : ∀ s ∈ ss, s.Fits offset) :
    ConsistsOf (shiftPlaceholders offset cs) (ss.map (Stretch.raised offset)) := by
  rw [shiftPlaceholders, if_neg (Nat.ne_of_gt hpositive)]
  exact consistsOf_shiftFrom h hfits

theorem shiftPlaceholders_zero (cs : List Char) : shiftPlaceholders 0 cs = cs := rfl

/-- To move a text twice is to move it by both offsets at once. -/
theorem shiftPlaceholders_shiftPlaceholders {a b : Nat} (h : ConsistsOf cs ss)
    (hfits : ∀ s ∈ ss, s.Fits (a + b)) :
    shiftPlaceholders b (shiftPlaceholders a cs) = shiftPlaceholders (a + b) cs := by
  rcases Nat.eq_zero_or_pos a with rfl | ha
  · rw [shiftPlaceholders_zero, Nat.zero_add]
  rcases Nat.eq_zero_or_pos b with rfl | hb
  · rw [shiftPlaceholders_zero, Nat.add_zero]
  have hfirst := consistsOf_shiftPlaceholders ha h fun s hs ↦ (hfits s hs).of_add
  have hsecond := consistsOf_shiftPlaceholders hb hfirst <|
    List.forall_mem_map.mpr fun s hs ↦ (hfits s hs).raised
  have hboth := consistsOf_shiftPlaceholders (Nat.add_pos_left ha b) h hfits
  have hraised : (ss.map (Stretch.raised a)).map (Stretch.raised b) =
      ss.map (Stretch.raised (a + b)) := by
    rw [List.map_map]
    exact List.map_congr_left fun s hs ↦ Stretch.raised_raised (hfits s hs)
  rw [hraised] at hsecond
  exact hsecond.text_unique hboth

/-- Every text consists of stretches in one way. As long as its numbers fit when they are raised, to
move it twice is to move it by both offsets at once, and a text that is moved consists of the same
stretches, but for the digits behind dollar signs outside of quotations: where they are a number,
they are those of the raised number. -/
theorem shiftPlaceholders_composes (cs : List Char) :
    (∃! ss, ConsistsOf cs ss) ∧ ∀ ss, ConsistsOf cs ss →
      (∀ a b, (∀ s ∈ ss, s.Fits (a + b)) →
        shiftPlaceholders b (shiftPlaceholders a cs) = shiftPlaceholders (a + b) cs) ∧
      ∀ offset, 0 < offset → (∀ s ∈ ss, s.Fits offset) →
        ConsistsOf (shiftPlaceholders offset cs) (ss.map (Stretch.raised offset)) := by
  obtain ⟨ss, hss⟩ := exists_consistsOf cs
  refine ⟨⟨ss, hss, fun _ hts ↦ hts.unique hss⟩, fun ss h ↦ ⟨fun a b hfits ↦ ?_,
    fun offset hpositive hfits ↦ ?_⟩⟩
  · exact shiftPlaceholders_shiftPlaceholders h hfits
  · exact consistsOf_shiftPlaceholders hpositive h hfits

/-- Two quotations, of which the second has no end, two dollar signs side by side, leading zeros,
and digits that are too many for a number. -/
def mixedText : List Char :=
  ['"', '$', '1', '"', '$', '$', '0', '0', '7', '$'] ++ List.replicate 20 '9' ++
    [Char.ofNat 39, '$', '2']

def mixedStretches : List Stretch :=
  [.quoted '"' ['$', '1'], .dollar [], .dollar ['0', '0', '7'], .dollar (List.replicate 20 '9'),
    .unclosed (Char.ofNat 39) ['$', '2']]

theorem mixedText_moved_twice :
    ConsistsOf mixedText mixedStretches ∧ (∀ s ∈ mixedStretches, s.Fits (2 + 3)) ∧
      shiftPlaceholders 3 (shiftPlaceholders 2 mixedText) = shiftPlaceholders (2 + 3) mixedText ∧
      0 < 2 + 3 ∧
      ConsistsOf (shiftPlaceholders (2 + 3) mixedText) (mixedStretches.map (Stretch.raised (2 + 3))) ∧
      shiftPlaceholders (2 + 3) mixedText =
        ['"', '$', '1', '"', '$', '$', '1', '2', '$'] ++ List.replicate 20 '9' ++
          [Char.ofNat 39, '$', '2'] := by
  have hmixed : ConsistsOf mixedText mixedStretches :=
    @ConsistsOf.quoted '"' ['$', '1'] _ _ (by decide) (by decide) <|
      @ConsistsOf.dollar [] _ _ (by simp) (by simp) <|
        @ConsistsOf.dollar ['0', '0', '7'] _ _ (by simp) (by simp) <|
          @ConsistsOf.dollar (List.replicate 20 '9') _ _ (by simp) (by simp) <|
            .unclosed (by decide) (by decide)
  have hfits : ∀ s ∈ mixedStretches, s.Fits (2 + 3) := by decide +kernel
  obtain ⟨hcomposes, hraises⟩ := (shiftPlaceholders_composes mixedText).2 mixedStretches hmixed
  exact ⟨hmixed, hfits, hcomposes 2 3 hfits, by decide, hraises (2 + 3) (by decide) hfits,
    by decide +kernel⟩

end SchemaSql.Fragment
