import SchemaSql.Dialect.Quote
import SchemaSql.Proofs.Statement.Composition
import SchemaSql.Proofs.Statement.Placeholders

/-!
What a database finds in a statement: words, quoted names, symbols and parameters, whichever pieces
the text was put together from. A text that the caller wrote is one sign, since it may say anything.
-/

set_option autoImplicit false
set_option relaxedAutoImplicit false

namespace SchemaSql

inductive Sign
  | word (s : String)
  | name (s : String)
  | symbol (c : Char)
  | param (p : Parameter)
  | raw (s : String) (parameters : List Parameter)
  /-- A quoted name that does not end. -/
  | unclosed
deriving DecidableEq

/-! ### Marks -/

/-- What a reader meets one at a time. -/
inductive Mark
  | char (c : Char)
  | param (p : Parameter)
  | raw (s : String) (parameters : List Parameter)

def characters (s : String) : List Mark := s.toList.map Mark.char

def Piece.marks : Piece → List Mark
  | .text s => characters s
  | .param p => [.param p]
  | .raw s ps => [.raw s ps]

def Fragment.marks (f : Fragment) : List Mark := f.pieces.flatMap Piece.marks

namespace Fragment

theorem flatMap_marks_units (p : Piece) : p.units.flatMap Piece.marks = p.marks := by
  cases p with
  | text s =>
    simp only [Piece.units, Piece.marks, characters, List.flatMap_map, String.toList_singleton,
      List.map_singleton]
    exact List.map_eq_flatMap.symm
  | param p => rfl
  | raw s ps => rfl

theorem marks_eq (f : Fragment) : f.marks = f.units.flatMap Piece.marks := by
  rw [marks, units, List.flatMap_assoc]
  exact congrArg (List.flatMap · f.pieces) (funext fun p ↦ (flatMap_marks_units p).symm)

@[simp] theorem marks_empty : empty.marks = [] := rfl

@[simp] theorem marks_text (s : String) : (text s).marks = characters s := by
  rw [marks_eq, units_text, flatMap_marks_units, Piece.marks]

@[simp] theorem marks_param (p : Parameter) : (param p).marks = [.param p] := rfl

@[simp] theorem marks_raw (s : String) (ps : List Parameter) : (raw s ps).marks = [.raw s ps] := rfl

@[simp] theorem marks_append (a b : Fragment) : (a ++ b).marks = a.marks ++ b.marks := by
  rw [marks_eq, marks_eq, marks_eq, units_append, List.flatMap_append]

end Fragment

@[simp] theorem characters_append (s t : String) :
    characters (s ++ t) = characters s ++ characters t := by
  rw [characters, String.toList_append, List.map_append]
  rfl

/-! ### Reading -/

def isWordChar (c : Char) : Bool := c.isAlphanum || c == '_'

/-- What has been read but may go on. -/
inductive Pending
  | nothing
  | word (cs : List Char)
  | name (cs : List Char)
  /-- A name of which a closing quote has been read, which ends it if it is not doubled. -/
  | closing (cs : List Char)

namespace Pending

/-- The sign that ends here. -/
def signs : Pending → List Sign
  | nothing => []
  | word cs => [.word (String.ofList cs)]
  | name _ => [.unclosed]
  | closing cs => [.name (String.ofList cs)]

/-- A character that begins something. -/
def start (d : Dialect) (c : Char) : List Sign × Pending :=
  if c = ' ' then ([], nothing)
  else if c = d.openQuote then ([], name [])
  else if isWordChar c then ([], word [c])
  else ([.symbol c], nothing)

/-- The signs that are complete behind a character, and what is not. -/
def step (d : Dialect) : Pending → Char → List Sign × Pending
  | nothing, c => start d c
  | word cs, c =>
    if isWordChar c then ([], word (cs ++ [c]))
    else ((word cs).signs ++ (start d c).1, (start d c).2)
  | name cs, c => ([], if c = d.closeQuote then closing cs else name (cs ++ [c]))
  | closing cs, c =>
    if c = d.closeQuote then ([], name (cs ++ [c]))
    else ((closing cs).signs ++ (start d c).1, (start d c).2)

end Pending

/-- The signs of the marks that follow. -/
def signsFrom (d : Dialect) : Pending → List Mark → List Sign
  | s, [] => s.signs
  | s, .char c :: ms => (s.step d c).1 ++ signsFrom d (s.step d c).2 ms
  | s, .param p :: ms => s.signs ++ .param p :: signsFrom d .nothing ms
  | s, .raw t ps :: ms => s.signs ++ .raw t ps :: signsFrom d .nothing ms

def Fragment.signs (d : Dialect) (f : Fragment) : List Sign := signsFrom d .nothing f.marks

variable {d : Dialect}

/-! ### Names -/

/-- Doubled quotes are read as one. -/
theorem signsFrom_double (read cs : List Char) (ms : List Mark) :
    signsFrom d (.name read) ((Dialect.double d.closeQuote cs).map .char ++ ms) =
      signsFrom d (.name (read ++ cs)) ms := by
  induction cs generalizing read with
  | nil => simp [Dialect.double]
  | cons c cs ih =>
    rw [Dialect.double]
    split
    · rename_i hc
      have hboth : signsFrom d (.name read)
          (.char c :: .char c :: ((Dialect.double d.closeQuote cs).map .char ++ ms)) =
            signsFrom d (.name (read ++ [c])) ((Dialect.double d.closeQuote cs).map .char ++ ms) := by
        simp [signsFrom, Pending.step, hc]
      rw [List.map_cons, List.map_cons, List.cons_append, List.cons_append, hboth, ih,
        List.append_assoc, List.singleton_append]
    · rename_i hc
      have hone : signsFrom d (.name read)
          (.char c :: ((Dialect.double d.closeQuote cs).map .char ++ ms)) =
            signsFrom d (.name (read ++ [c])) ((Dialect.double d.closeQuote cs).map .char ++ ms) := by
        simp [signsFrom, Pending.step, hc]
      rw [List.map_cons, List.cons_append, hone, ih, List.append_assoc, List.singleton_append]

/-- A quoted name is read, up to a last quote that may not be doubled. -/
theorem signsFrom_quote (name : String) (ms : List Mark) :
    signsFrom d .nothing (characters (d.quote name) ++ ms) =
      signsFrom d (.closing name.toList) ms := by
  have hopen : Pending.start d d.openQuote = ([], .name []) := by cases d <;> rfl
  have hclose (cs : List Char) : Pending.step d (.name cs) d.closeQuote = ([], .closing cs) := by
    simp [Pending.step]
  rw [characters, Dialect.quote, String.toList_ofList, Dialect.quoteChars, List.map_cons,
    List.map_append, List.cons_append, signsFrom, Pending.step, hopen, List.nil_append,
    List.append_assoc, signsFrom_double, List.nil_append, List.map_singleton, List.singleton_append,
    signsFrom, hclose, List.nil_append]

/-- A quoted name ends in front of anything but a quote, which would double its last one. -/
def EndsName (d : Dialect) (ms : List Mark) : Prop :=
  ∀ c, ms.head? = some (.char c) → c ≠ d.closeQuote

theorem endsName_of_head? {c : Char} {ms : List Mark} (h : ms.head? = some (.char c))
    (hc : c ≠ d.closeQuote) : EndsName d ms := by
  intro c' hc'
  obtain rfl := Mark.char.inj (Option.some.inj (h.symm.trans hc'))
  exact hc

theorem signsFrom_name_end (cs : List Char) {ms : List Mark} (h : EndsName d ms) :
    signsFrom d (.closing cs) ms = .name (String.ofList cs) :: signsFrom d .nothing ms := by
  cases ms with
  | nil => rfl
  | cons m ms =>
    cases m with
    | param p | raw s ps => rfl
    | char c =>
      rw [signsFrom, Pending.step, if_neg (h c rfl), signsFrom, Pending.step, List.append_assoc]
      rfl

theorem signsFrom_quoted (name : String) {ms : List Mark} (h : EndsName d ms) :
    signsFrom d .nothing (characters (d.quote name) ++ ms) =
      .name name :: signsFrom d .nothing ms := by
  rw [signsFrom_quote, signsFrom_name_end _ h, String.ofList_toList]

/-! ### Words and numbers -/

theorem start_of_isWordChar {c : Char} (h : isWordChar c) : Pending.start d c = ([], .word [c]) := by
  have hblank : c ≠ ' ' := by
    rintro rfl
    exact absurd h (by decide)
  have hquote : c ≠ d.openQuote := by
    rintro rfl
    cases d <;> exact absurd h (by decide)
  rw [Pending.start, if_neg hblank, if_neg hquote, if_pos h]

theorem signsFrom_word {cs : List Char} (h : ∀ c ∈ cs, isWordChar c) (read : List Char)
    (ms : List Mark) : signsFrom d (.word read) (cs.map .char ++ ms) =
      signsFrom d (.word (read ++ cs)) ms := by
  induction cs generalizing read with
  | nil => simp
  | cons c cs ih =>
    obtain ⟨hc, hcs⟩ := List.forall_mem_cons.mp h
    rw [List.map_cons, List.cons_append, signsFrom, Pending.step, if_pos hc, List.nil_append, ih hcs,
      List.append_assoc, List.singleton_append]

theorem signsFrom_word_start {cs : List Char} (h : ∀ c ∈ cs, isWordChar c) (hne : cs ≠ [])
    (ms : List Mark) : signsFrom d .nothing (cs.map .char ++ ms) = signsFrom d (.word cs) ms := by
  cases cs with
  | nil => exact absurd rfl hne
  | cons c cs =>
    obtain ⟨hc, hcs⟩ := List.forall_mem_cons.mp h
    rw [List.map_cons, List.cons_append, signsFrom, Pending.step, start_of_isWordChar hc,
      List.nil_append, signsFrom_word hcs, List.singleton_append]

/-- A word ends in front of anything but a character that a word may have. -/
def EndsWord (ms : List Mark) : Prop := ∀ c, ms.head? = some (.char c) → isWordChar c = false

theorem endsWord_of_head? {c : Char} {ms : List Mark} (h : ms.head? = some (.char c))
    (hc : isWordChar c = false) : EndsWord ms := by
  intro c' hc'
  obtain rfl := Mark.char.inj (Option.some.inj (h.symm.trans hc'))
  exact hc

theorem signsFrom_word_end (cs : List Char) {ms : List Mark} (h : EndsWord ms) :
    signsFrom d (.word cs) ms = .word (String.ofList cs) :: signsFrom d .nothing ms := by
  cases ms with
  | nil => rfl
  | cons m ms =>
    cases m with
    | param p | raw s ps => rfl
    | char c =>
      rw [signsFrom, Pending.step, if_neg (by simp [h c rfl]), signsFrom, Pending.step,
        List.append_assoc]
      rfl

/-- A number that is written in decimal digits, behind a sign if it is negative. -/
def readInteger : List Sign → Option (Int × List Sign)
  | .word w :: rest =>
    if w.toList.all Char.isDigit then some (Decimal.readNat w.toList, rest) else none
  | .symbol '-' :: .word w :: rest =>
    if w.toList.all Char.isDigit then some (-Decimal.readNat w.toList, rest) else none
  | _ => none

/-- What an integer is written as. -/
def integerSigns : Int → List Sign
  | .ofNat n => [.word (toString n)]
  | .negSucc n => [.symbol '-', .word (toString (n + 1))]

/-- No word but a number is among the signs of an integer. -/
theorem word_not_mem_integerSigns {w : String} (hw : w.toList.all Char.isDigit = false) (n : Int) :
    Sign.word w ∉ integerSigns n := by
  have hdigits (k : Nat) : w ≠ toString k := by
    rintro rfl
    rw [List.all_eq_true.mpr fun c ↦ Decimal.isDigit_of_mem_toString] at hw
    cases hw
  cases n with
  | ofNat n => simpa [integerSigns] using hdigits n
  | negSucc n => simpa [integerSigns] using hdigits (n + 1)

theorem signsFrom_nat (n : Nat) {ms : List Mark} (h : EndsWord ms) :
    signsFrom d .nothing (characters (toString n) ++ ms) =
      .word (toString n) :: signsFrom d .nothing ms := by
  have hword : ∀ c ∈ (toString n).toList, isWordChar c := by
    intro c hc
    have hdigit := Decimal.isDigit_of_mem_toString hc
    simp [isWordChar, Char.isAlphanum, hdigit]
  have hne : (toString n).toList ≠ [] := by simp [Nat.toDigits_ne_nil]
  rw [characters, signsFrom_word_start hword hne, signsFrom_word_end _ h, String.ofList_toList]

theorem signsFrom_integer (n : Int) {ms : List Mark} (h : EndsWord ms) :
    signsFrom d .nothing (characters (toString n) ++ ms) =
      integerSigns n ++ signsFrom d .nothing ms := by
  cases n with
  | ofNat n => exact signsFrom_nat n h
  | negSucc n =>
    have htext : toString (Int.negSucc n) = "-" ++ toString (n + 1) := rfl
    have hsign (ms : List Mark) : signsFrom d .nothing (characters "-" ++ ms) =
        .symbol '-' :: signsFrom d .nothing ms := by cases d <;> rfl
    rw [htext, characters_append, List.append_assoc, hsign, signsFrom_nat _ h]
    rfl

theorem readInteger_integerSigns (n : Int) (rest : List Sign) :
    readInteger (integerSigns n ++ rest) = some (n, rest) := by
  have hdigits (n : Nat) : (toString n).toList.all Char.isDigit :=
    List.all_eq_true.mpr fun c ↦ Decimal.isDigit_of_mem_toString
  cases n with
  | ofNat n =>
    rw [integerSigns, List.singleton_append, readInteger, if_pos (hdigits n),
      Decimal.readNat_toString]
    rfl
  | negSucc n =>
    rw [integerSigns, List.cons_append, List.singleton_append, readInteger, if_pos (hdigits (n + 1)),
      Decimal.readNat_toString]
    rfl

end SchemaSql
