import Mathlib.Data.List.Forall2
import SchemaSql.Proofs.PostgreSql.Lexeme
import SchemaSql.Proofs.Statement.Composition
import SchemaSql.Proofs.Statement.Moved

/-!
A text that the caller wrote for PostgreSQL, behind the parameters of others. The parameters of the
text keep what they stand for, and its other elements are what they were, if and only if the dollar
signs that have a number behind them, and at which no quote mark is open, are those of parameters.
Quote marks open and close each other wherever they stand. So a text is restated faithfully if quote
marks occur in pairs outside of strings and quoted names, and if no word, comment or string between
dollar signs contains a dollar sign with a number behind it. An apostrophe in a comment, however,
leaves the parameters behind it to whatever has their numbers, and a word such as `total$1` becomes
another word.
-/

set_option autoImplicit false
set_option relaxedAutoImplicit false

namespace SchemaSql.PostgreSql

open Fragment

namespace Lexeme

/-- The number of a parameter. -/
def number (t : Lexeme) : Nat := Decimal.readNat (t.text.drop 1)

/-- The element, and a parameter with its number raised. -/
def raised (offset : Nat) (t : Lexeme) : Lexeme :=
  if t.kind = .parameter then ⟨.parameter, '$' :: (toString (t.number + offset)).toList⟩ else t

variable (offset : Nat)

theorem kind_raised (t : Lexeme) : (t.raised offset).kind = t.kind := by
  rw [raised]
  split
  · rename_i h
    exact h.symm
  · rfl

theorem raised_of_ne {t : Lexeme} (h : t.kind ≠ .parameter) : t.raised offset = t := by
  rw [raised, if_neg h]

theorem behind_raised (k : Continuation) (t : Lexeme) : k.behind (t.raised offset) = k.behind t := by
  by_cases h : t.kind = .parameter
  · rw [Continuation.behind, Continuation.behind, kind_raised, h]
  · rw [raised_of_ne offset h]

theorem head?_raised {t : Lexeme} (h : t.kind = .parameter → ∃ ds, t.text = '$' :: ds) :
    (t.raised offset).text.head? = t.text.head? := by
  rw [raised]
  split
  · rename_i hparameter
    obtain ⟨ds, hds⟩ := h hparameter
    rw [hds]
    rfl
  · rfl

end Lexeme

namespace Lexes

variable {k : Continuation} {cs : List Char} {ts : List Lexeme}

theorem head?_texts (h : Lexes k cs ts) (offset : Nat) :
    (texts (ts.map (Lexeme.raised offset))).head? = cs.head? := by
  cases h with
  | done k => rfl
  | @step _ _ rest t ts first others =>
    obtain ⟨hcs, hne, -⟩ := next_local first
    have hhead : (t.raised offset).text.head? = t.text.head? := by
      refine Lexeme.head?_raised offset fun ht ↦ ?_
      obtain ⟨ds, hds, -⟩ := next_parameter first ht
      exact ⟨ds, hds⟩
    obtain ⟨c, hc⟩ := List.isSome_head?.mpr hne |> Option.isSome_iff_exists.mp
    rw [hcs, List.map_cons, texts, List.flatMap_cons, List.head?_append, List.head?_append, hhead, hc]
    rfl

/-- With the numbers of its parameters raised, a text consists of the same elements otherwise. -/
theorem raised (h : Lexes k cs ts) (offset : Nat) :
    Lexes k (texts (ts.map (Lexeme.raised offset))) (ts.map (Lexeme.raised offset)) := by
  induction h with
  | done k => exact .done k
  | @step k cs rest t ts first others ih =>
    have hhead := others.head?_texts offset
    rw [List.map_cons]
    refine .step ?_ (Lexeme.behind_raised offset k t ▸ ih)
    rw [texts, List.flatMap_cons, Lexeme.raised]
    by_cases ht : t.kind = .parameter
    · obtain ⟨ds, -, -, -, hrest⟩ := next_parameter first ht
      rw [if_pos ht]
      refine next_of_digits ?_ (fun c ↦ Decimal.isDigit_of_mem_toString) (hhead ▸ hrest)
      simp [Nat.toDigits_ne_nil]
    · rw [if_neg ht]
      exact (next_local first).2.2 _ hhead

/-- Parameters are spelled as dollar signs with digits. -/
theorem spelled (h : Lexes k cs ts) : ∀ t ∈ ts, t.kind = .parameter →
    ∃ ds, t.text = '$' :: ds ∧ ds ≠ [] ∧ t.number = Decimal.readNat ds := by
  induction h with
  | done k => simp
  | @step k cs rest t ts first _ ih =>
    refine List.forall_mem_cons.mpr ⟨fun ht ↦ ?_, ih⟩
    obtain ⟨ds, hds, hne, -⟩ := next_parameter first ht
    exact ⟨ds, hds, hne, by rw [Lexeme.number, hds, List.drop_one, List.tail_cons]⟩

end Lexes

/-! ### Digits behind dollar signs -/

/-- Whether a parameter begins at a place of the text that consists of these elements. -/
def beginsParameter : List Lexeme → Nat → Bool
  | [], _ => false
  | t :: ts, i =>
    if i < t.text.length then i == 0 && t.kind == .parameter
    else beginsParameter ts (i - t.text.length)

/-- The choice relates new digits to those of the parameters, and keeps the others. -/
def Renumbers (R : List Char → List Char → Prop) (ts : List Lexeme) (i : Nat) (cs : List Char)
    (choice : Choice) : Prop :=
  ∀ j, if beginsParameter ts j then R (digitsAt cs j) (choice (i + j) (digitsAt cs j))
    else ∀ ds, choice (i + j) ds = ds

/-- The elements correspond, and the digits of parameters are related. -/
def Corresponds (R : List Char → List Char → Prop) (t t' : Lexeme) : Prop :=
  if t.kind = .parameter then t'.kind = .parameter ∧ R (t.text.drop 1) (t'.text.drop 1) else t' = t

variable {R : List Char → List Char → Prop} {ts ts' : List Lexeme} {cs cs' : List Char}

theorem Renumbers.cons {t : Lexeme} {i : Nat} {rest : List Char} {early later : Choice}
    (hfirst : ∀ j, j < t.text.length → if j == 0 && t.kind == .parameter then
      R (digitsAt (t.text ++ rest) j) (early (i + j) (digitsAt (t.text ++ rest) j))
      else ∀ ds, early (i + j) ds = ds)
    (hlater : Renumbers R ts (i + t.text.length) rest later) :
    Renumbers R (t :: ts) i (t.text ++ rest) (early.until (i + t.text.length) later) := by
  intro j
  rw [beginsParameter]
  by_cases hj : j < t.text.length
  · rw [if_pos hj, Choice.until_of_lt (by omega)]
    exact hfirst j hj
  · obtain ⟨m, rfl⟩ := Nat.exists_eq_add_of_le (Nat.not_lt.mp hj)
    rw [if_neg hj, Nat.add_sub_cancel_left, Choice.until_of_le (by omega), digitsAt_append,
      ← Nat.add_assoc]
    exact hlater m

/-- A text with corresponding elements is the same text with other digits behind the dollar signs of
its parameters. -/
theorem Lexes.exists_choice {k k' : Continuation} (h : Lexes k cs ts) (h' : Lexes k' cs' ts')
    (hsame : List.Forall₂ (Corresponds R) ts ts') (i : Nat) :
    ∃ choice : Choice, choice.GivesDigits ∧ cs' = withDigits choice i cs ∧
      Renumbers R ts i cs choice := by
  induction h generalizing k' cs' ts' i with
  | done k =>
    obtain rfl := List.forall₂_nil_left_iff.mp hsame
    cases h'
    exact ⟨fun _ ds ↦ ds, fun _ _ hds ↦ hds, by rw [withDigits], fun _ _ ↦ rfl⟩
  | @step k cs rest t ts first others ih =>
    obtain ⟨t', ts', hfirst, hothers, rfl⟩ := List.forall₂_cons_left_iff.mp hsame
    obtain ⟨rfl, hne, -⟩ := next_local first
    have hpositive : 0 < t.text.length := List.length_pos_iff.mpr hne
    cases h' with
    | @step _ _ rest' _ _ first' others' =>
      obtain ⟨rfl, -, -⟩ := next_local first'
      obtain ⟨later, hlater, rfl, hplaces⟩ := ih others' hothers (i + t.text.length)
      rw [Corresponds] at hfirst
      by_cases ht : t.kind = .parameter
      · obtain ⟨ht', hR⟩ := (if_pos ht ▸ hfirst :)
        obtain ⟨ds, hds, -, hdigits, hrest⟩ := next_parameter first ht
        obtain ⟨ds', hds', -, hdigits', -⟩ := next_parameter first' ht'
        rw [hds, hds'] at hR
        -- The new digits are chosen at the place of this parameter, and all others behind it.
        let early : Choice := fun j es ↦ if j = i then ds' else es
        have hearly : early.GivesDigits := by
          intro j es hes
          simp only [early]
          split
          · exact hdigits'
          · exact hes
        have htext : t.text ++ rest = '$' :: (ds ++ rest) := by
          rw [hds, List.cons_append]
        refine ⟨early.until (i + t.text.length) later, hearly.until hlater, ?_, hplaces.cons ?_⟩
        · have hnew : early.until (i + t.text.length) later i ds = ds' := by
            rw [Choice.until_of_lt (by omega)]
            exact if_pos rfl
          have hlength : i + 1 + ds.length = i + t.text.length := by
            rw [hds, List.length_cons]
            omega
          have hdollar := withDigits_dollar hdigits hrest (early.until (i + t.text.length) later) i
          rw [hnew, hlength, withDigits_until] at hdollar
          rw [hds', List.cons_append, htext, hdollar]
        · intro j hj
          rcases j with _ | j
          · have hnew : early (i + 0) ds = ds' := if_pos rfl
            simp only [beq_self_eq_true, ht, Bool.and_self, if_true, htext,
              digitsAt_zero hdigits hrest, hnew]
            exact hR
          · intro es
            exact if_neg (by omega)
      · obtain rfl := (if_neg ht ▸ hfirst :)
        refine ⟨Choice.until (fun _ es ↦ es) (i + t'.text.length) later, ?_, ?_, hplaces.cons ?_⟩
        · exact Choice.GivesDigits.until (fun _ _ hes ↦ hes) hlater
        · rw [withDigits_append, withDigits_until]
          intro m hm es
          have hlt := (List.getElem?_eq_some_iff.mp hm).1
          rw [Choice.until_of_lt (by omega)]
        · intro j _
          simp [ht]

/-! ### Restated texts -/

/-- What stands for an element in a restated text: for a parameter another one with the same value,
and otherwise the element. -/
def Lexeme.RestatedBy (ps all : List Parameter) (t t' : Lexeme) : Prop :=
  if t.kind = .parameter then
    t'.kind = .parameter ∧ numbered? all t'.number = numbered? ps t.number
  else t' = t

variable {front ps back : List Parameter}

/-- A number stands for a parameter behind others if it is raised by as many. -/
theorem numbered?_eq_iff (hdistinct : DistinctNames (front ++ ps ++ back)) {n : Nat} (hn : 1 ≤ n)
    (hlast : n ≤ ps.length) (k : Nat) :
    numbered? (front ++ ps ++ back) k = numbered? ps n ↔ k = n + front.length := by
  have hraised : (front ++ ps ++ back)[n + front.length - 1]? = ps[n - 1]? := by
    have hindex : n + front.length - 1 = front.length + (n - 1) := by omega
    rw [hindex, List.append_assoc, List.getElem?_append_right (Nat.le_add_right _ _),
      Nat.add_sub_cancel_left, List.getElem?_append_left (by omega)]
  have hold : numbered? ps n = ps[n - 1]? := if_neg (by omega)
  rw [hold, ← hraised]
  constructor
  · intro h
    have hnodup : (front ++ ps ++ back).Nodup :=
      hdistinct.imp fun hnames hsame ↦ hnames (by rw [hsame])
    have hbound : n + front.length - 1 < (front ++ ps ++ back).length := by
      simp only [List.length_append]
      omega
    rw [numbered?] at h
    by_cases hk : k = 0
    · rw [if_pos hk, List.getElem?_eq_getElem hbound] at h
      simp at h
    · rw [if_neg hk] at h
      have hsame := (List.getElem?_inj hbound hnodup).mp h.symm
      omega
  · rintro rfl
    exact if_neg (by omega)

/-- The code raises the numbers of all parameters and of nothing else. -/
def RaisesParameters (cs : List Char) (ts : List Lexeme) : Prop :=
  ∀ i, (numberAt? cs i).isSome → (openQuote none (cs.take i) = none ↔ beginsParameter ts i)

theorem raisesParameters_of_withDigits {offset : Nat} (hpositive : 0 < offset)
    (hoffset : offset < power2 64) {choice : Choice} (hdigits : choice.GivesDigits)
    (hplaces : Renumbers (fun ds ds' ↦ Decimal.readNat ds' = Decimal.readNat ds + offset) ts 0 cs
      choice)
    (hsame : withDigits (moved offset cs) 0 cs = withDigits choice 0 cs) :
    RaisesParameters cs ts := by
  intro i hnumber
  obtain ⟨hdollar, hnumber⟩ : cs[i]? = some '$' ∧ placeholderNumber? (digitsAt cs i) ≠ none := by
    rw [numberAt?] at hnumber
    split at hnumber
    · exact ⟨‹_›, Option.isSome_iff_ne_none.mp hnumber⟩
    · simp at hnumber
  have hchosen := (withDigits_eq_iff (moved_givesDigits offset cs) hdigits 0 cs).mp hsame i hdollar
  have hplace := hplaces i
  generalize hds : digitsAt cs i = ds at *
  rw [Nat.zero_add] at hchosen hplace
  -- Digits that are raised cannot be those that are kept, so that the choices tell which are which.
  have hchanged : shiftDigits offset ds ≠ ds :=
    fun h ↦ hnumber ((shiftDigits_eq_self_iff hpositive hoffset ds).mp h)
  rw [moved] at hchosen
  constructor
  · intro hopen
    by_contra hbegins
    rw [if_neg hbegins] at hplace
    rw [if_pos hopen, hplace] at hchosen
    exact hchanged hchosen
  · intro hbegins
    by_contra hopen
    rw [if_pos hbegins] at hplace
    rw [if_neg hopen] at hchosen
    rw [← hchosen] at hplace
    omega

theorem RaisesParameters.withDigits_eq {offset : Nat} (hpositive : 0 < offset)
    (hoffset : offset < power2 64) {choice : Choice} (hdigits : choice.GivesDigits)
    (hplaces : Renumbers (fun ds ds' ↦ ds' = shiftDigits offset ds) ts 0 cs choice)
    (h : RaisesParameters cs ts) : withDigits (moved offset cs) 0 cs = withDigits choice 0 cs := by
  refine (withDigits_eq_iff (moved_givesDigits offset cs) hdigits 0 cs).mpr fun i hdollar ↦ ?_
  have hplace := hplaces i
  rw [Nat.zero_add] at hplace ⊢
  rw [moved]
  by_cases hnumber : placeholderNumber? (digitsAt cs i) = none
  -- Digits of which 64 bits do not hold the number stay, whatever they belong to.
  · have hunchanged := (shiftDigits_eq_self_iff hpositive hoffset _).mpr hnumber
    rw [hunchanged, ite_self]
    split at hplace
    · exact (hplace.trans hunchanged).symm
    · exact (hplace _).symm
  · have hright : openQuote none (cs.take i) = none ↔ beginsParameter ts i := by
      refine h i ?_
      rw [numberAt?, if_pos hdollar]
      exact Option.isSome_iff_ne_none.mpr hnumber
    simp only [hright]
    split at hplace
    · rw [if_pos ‹_›, hplace]
    · rw [if_neg ‹_›, hplace]

/-! ### Elements that are kept -/

section

variable (hdistinct : DistinctNames (front ++ ps ++ back))
  (hknown : ∀ t ∈ ts, t.kind = .parameter → 1 ≤ t.number ∧ t.number ≤ ps.length)

include hdistinct hknown

theorem corresponds_of_restatedBy
    (h : List.Forall₂ (Lexeme.RestatedBy ps (front ++ ps ++ back)) ts ts') :
    List.Forall₂ (Corresponds fun ds ds' ↦
      Decimal.readNat ds' = Decimal.readNat ds + front.length) ts ts' := by
  refine List.Forall₂.imp ?_ ((List.forall₂_and_left ts ts').mpr ⟨fun t ht ↦ ht, h⟩)
  rintro t t' ⟨ht, hrestated⟩
  rw [Lexeme.RestatedBy] at hrestated
  rw [Corresponds]
  split at hrestated
  · rename_i hparameter
    obtain ⟨hfirst, hlast⟩ := hknown t ht hparameter
    rw [if_pos hparameter]
    exact ⟨hrestated.1, (numbered?_eq_iff hdistinct hfirst hlast _).mp hrestated.2⟩
  · rename_i hother
    rw [if_neg hother, hrestated]

theorem restatedBy_raised : List.Forall₂ (Lexeme.RestatedBy ps (front ++ ps ++ back)) ts
    (ts.map (Lexeme.raised front.length)) := by
  refine List.forall₂_map_right_iff.mpr (List.forall₂_same.mpr fun t ht ↦ ?_)
  rw [Lexeme.RestatedBy, Lexeme.raised]
  split
  · rename_i hparameter
    obtain ⟨hfirst, hlast⟩ := hknown t ht hparameter
    refine ⟨rfl, (numbered?_eq_iff hdistinct hfirst hlast _).mpr ?_⟩
    rw [Lexeme.number, List.drop_one, List.tail_cons, Decimal.readNat_toString]
  · rfl

end

theorem corresponds_raised {k : Continuation} (h : Lexes k cs ts) {offset : Nat}
    (hnumbers : ∀ t ∈ ts, t.kind = .parameter → t.number + offset < power2 64) :
    List.Forall₂ (Corresponds fun ds ds' ↦ ds' = shiftDigits offset ds) ts
      (ts.map (Lexeme.raised offset)) := by
  refine List.forall₂_map_right_iff.mpr (List.forall₂_same.mpr fun t ht ↦ ?_)
  rw [Corresponds, Lexeme.raised]
  split
  · rename_i hparameter
    obtain ⟨ds, hds, hne, hnumber⟩ := h.spelled t ht hparameter
    have hbound := hnumbers t ht hparameter
    have hread : placeholderNumber? ds = some t.number :=
      placeholderNumber?_eq_some_iff.mpr ⟨hne, hnumber.symm, by omega⟩
    refine ⟨rfl, ?_⟩
    rw [hds, List.drop_one, List.drop_one, List.tail_cons, List.tail_cons,
      shiftDigits_of_number hread hbound]
  · rfl

/-- The elements of a text that is moved behind other parameters keep what they are and stand for if
and only if the numbers are raised of its parameters and of no other element. -/
theorem restated_iff (hdistinct : DistinctNames (front ++ ps ++ back))
    (hlength : (front ++ ps ++ back).length < power2 64) {k : Continuation} (hlexes : Lexes k cs ts)
    (hknown : ∀ t ∈ ts, t.kind = .parameter → 1 ≤ t.number ∧ t.number ≤ ps.length) :
    (∃ ts', Lexes k (shiftPlaceholders front.length cs) ts' ∧
        List.Forall₂ (Lexeme.RestatedBy ps (front ++ ps ++ back)) ts ts') ↔
      front = [] ∨ RaisesParameters cs ts := by
  have hsum : front.length + ps.length + back.length < power2 64 := by
    simpa only [List.length_append] using hlength
  by_cases hfront : front = []
  · subst hfront
    refine iff_of_true ⟨ts, hlexes, List.forall₂_same.mpr fun t ht ↦ ?_⟩ (.inl rfl)
    rw [Lexeme.RestatedBy]
    split
    · rename_i hparameter
      obtain ⟨hfirst, hlast⟩ := hknown t ht hparameter
      exact ⟨hparameter, (numbered?_eq_iff hdistinct hfirst hlast _).mpr rfl⟩
    · rfl
  · have hpositive : 0 < front.length := List.length_pos_iff.mpr hfront
    rw [shiftPlaceholders_eq_withDigits (Nat.ne_of_gt hpositive), or_iff_right hfront]
    constructor
    · rintro ⟨ts', hlexes', hsame⟩
      obtain ⟨choice, hdigits, htext, hplaces⟩ :=
        hlexes.exists_choice hlexes' (corresponds_of_restatedBy hdistinct hknown hsame) 0
      exact raisesParameters_of_withDigits hpositive (by omega) hdigits hplaces htext
    · intro hraises
      have hnumbers : ∀ t ∈ ts, t.kind = .parameter → t.number + front.length < power2 64 := by
        intro t ht hparameter
        have hlast := (hknown t ht hparameter).2
        omega
      obtain ⟨choice, hdigits, htext, hplaces⟩ := hlexes.exists_choice
        (hlexes.raised front.length) (corresponds_raised hlexes hnumbers) 0
      rw [hraises.withDigits_eq hpositive (by omega) hdigits hplaces, ← htext]
      exact ⟨_, hlexes.raised front.length, restatedBy_raised hdistinct hknown⟩

/-- In a fragment that is rendered with numbered placeholders, a text of the caller keeps its
parameters and its other elements if and only if nothing stands in front of it or exactly the
numbers of its parameters are raised. -/
theorem render_written_iff {f : Fragment} {before after : List Piece} {written : String}
    {ps : List Parameter} (hpieces : f.pieces = before ++ .raw written ps :: after) {text : String}
    {all : List Parameter} (hrender : f.render .numbered = .ok (text, all))
    (hlength : all.length < power2 64) {ts : List Lexeme} (hlexes : Lexes .none written.toList ts)
    (hknown : ∀ t ∈ ts, t.kind = .parameter → 1 ≤ t.number ∧ t.number ≤ ps.length) :
    ∃ front back head restated, Fragment.render .numbered ⟨before⟩ = .ok (head, front) ∧
      all = front ++ ps ++ back ∧
      text = head ++ restated ++
        (Fragment.mk after).textAfter .numbered (front.length + ps.length) ∧
      ((∃ ts', Lexes .none restated.toList ts' ∧
          List.Forall₂ (Lexeme.RestatedBy ps all) ts ts') ↔
        front = [] ∨ RaisesParameters written.toList ts) := by
  obtain ⟨hdistinct, rfl, rfl⟩ := render_eq_ok_iff.mp hrender
  let front := before.flatMap Piece.parameters
  let back := after.flatMap Piece.parameters
  have hall : f.parameters = front ++ ps ++ back := by
    rw [parameters, hpieces, List.flatMap_append, List.flatMap_cons, Piece.parameters,
      List.append_assoc]
  rw [nameShared_iff, not_not, hall] at hdistinct
  rw [hall] at hlength ⊢
  refine ⟨front, back, textFrom .numbered 0 before,
    String.ofList (shiftPlaceholders front.length written.toList), ?_, rfl, ?_, ?_⟩
  · refine render_eq_ok_iff.mpr ⟨?_, rfl, rfl⟩
    rw [nameShared_iff, not_not]
    exact (List.pairwise_append.mp (List.pairwise_append.mp hdistinct).1).1
  · rw [textAfter, hpieces, textFrom_append, textFrom, Nat.zero_add, String.append_assoc]
    rfl
  · rw [String.toList_ofList]
    exact restated_iff hdistinct hlength hlexes hknown

/-! ### A text that is not kept -/

def commentedKey : String := "-- the user's id\n\"Id\" = $1"

def commentedLexemes : List Lexeme :=
  [⟨.lineComment, "-- the user's id".toList⟩, ⟨.blank, ['\n']⟩, ⟨.quotedName, "\"Id\"".toList⟩,
    ⟨.blank, [' ']⟩, ⟨.symbol, ['=']⟩, ⟨.blank, [' ']⟩, ⟨.parameter, ['$', '1']⟩]

def keyOne : Parameter where
  name := "@Id"
  value := .int 1
  origin := .raw

def nameAnn : Parameter where
  name := "@Name"
  value := .text "Ann"
  origin := .argument

/-- Renames the user with the key. -/
def commentedRename : Fragment :=
  ⟨[.text "UPDATE \"Users\" SET \"Name\" = ", .param nameAnn, .text " WHERE (",
    .raw commentedKey [keyOne], .text ");"]⟩

/-- The number behind the apostrophe of a comment is not raised, so that the key is compared with
the new name. -/
theorem commentedRename_not_kept :
    (∀ t ∈ commentedLexemes, t.kind = .parameter → 1 ≤ t.number ∧ t.number ≤ [keyOne].length) ∧
      ∃ front back head restated,
        Fragment.render .numbered
          ⟨[.text "UPDATE \"Users\" SET \"Name\" = ", .param nameAnn, .text " WHERE ("]⟩ =
            .ok (head, front) ∧
        [nameAnn, keyOne] = front ++ [keyOne] ++ back ∧
        "UPDATE \"Users\" SET \"Name\" = $1 WHERE (-- the user's id\n\"Id\" = $1);" =
          head ++ restated ++
            (Fragment.mk [.text ");"]).textAfter .numbered (front.length + [keyOne].length) ∧
        ¬ ∃ ts', Lexes .none restated.toList ts' ∧
          List.Forall₂ (Lexeme.RestatedBy [keyOne] [nameAnn, keyOne]) commentedLexemes ts' := by
  have hknown : ∀ t ∈ commentedLexemes,
      t.kind = .parameter → 1 ≤ t.number ∧ t.number ≤ [keyOne].length := by decide +kernel
  have hpieces : commentedRename.pieces =
      [.text "UPDATE \"Users\" SET \"Name\" = ", .param nameAnn, .text " WHERE ("] ++
        .raw commentedKey [keyOne] :: [.text ");"] := rfl
  have hrender : commentedRename.render .numbered = .ok
      ("UPDATE \"Users\" SET \"Name\" = $1 WHERE (-- the user's id\n\"Id\" = $1);",
        [nameAnn, keyOne]) := by decide +kernel
  have hlexes : Lexes .none commentedKey.toList commentedLexemes := by decide +kernel
  obtain ⟨front, back, head, restated, hhead, hall, htext, hiff⟩ :=
    render_written_iff hpieces hrender (by decide) hlexes hknown
  refine ⟨hknown, front, back, head, restated, hhead, hall, htext, fun hkept ↦ ?_⟩
  rcases hiff.mp hkept with hempty | hraises
  · have hfront := (render_ok hhead).1
    rw [hempty] at hfront
    exact absurd hfront (by decide)
  · have hopen := (hraises 24 (by decide +kernel)).mpr (by decide +kernel)
    exact absurd hopen (by decide +kernel)

end SchemaSql.PostgreSql
