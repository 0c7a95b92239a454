import SchemaSql.Number.Decimal

/-!
How PostgreSQL divides a text into lexical elements: blanks and comments, words, quoted names,
strings with and without escapes, strings between dollar signs, numbers, positional parameters and
symbols. The first two characters tell what begins, and from there on characters belong to the
element as long as they can. Hence an element depends on nothing but its own characters and the one
behind it.

A string with escapes goes on behind a line break with the next string, and this one has escapes
too. Comments between slash and star may contain others. The parts of a number are not told apart,
and the characters of an operator are symbols of their own.
-/

set_option autoImplicit false
set_option relaxedAutoImplicit false

namespace SchemaSql.PostgreSql

inductive Kind
  | blank
  | lineComment
  | blockComment
  | word
  | quotedName
  | string
  | escapeString
  | dollarString
  | number
  | parameter
  | symbol
deriving DecidableEq

structure Lexeme where
  kind : Kind
  text : List Char
deriving DecidableEq

/-! ### Characters -/

def isBlank (c : Char) : Bool := c == ' ' || (9 ≤ c.toNat && c.toNat ≤ 13)

def isLineEnd (c : Char) : Bool := c == '\n' || c == '\r'

def isWordStart (c : Char) : Bool := c.isAlpha || c == '_' || 128 ≤ c.toNat

/-- What a number, or the tag between two dollar signs, consists of. -/
def isTagChar (c : Char) : Bool := isWordStart c || c.isDigit

def isWordChar (c : Char) : Bool := isTagChar c || c == '$'

def apostrophe : Char := Char.ofNat 39

def backslash : Char := Char.ofNat 92

/-! ### Reading one element -/

/-- Where a reader stands within an element. -/
inductive State
  /-- All characters that follow belong to the element if they satisfy `p`. -/
  | run (p : Char → Bool)
  | quoted (quote : Char)
  /-- A quote has been read that ends the element if it is not doubled. -/
  | quoteRead (quote : Char)
  /-- Only the apostrophe is missing that opens a string with escapes. -/
  | escapeOpening
  | escaped
  | backslashRead
  | escapedQuoteRead
  /-- In a number of comments, behind a character that is not yet part of a sign. -/
  | comment (depth : Nat) (last : Option Char)
  /-- Between the first two dollar signs; what was read is reversed. -/
  | tag (read : List Char)
  /-- In a string that ends with the delimiter; both it and what was read are reversed. -/
  | dollar (delimiter read : List Char)
  | finished

namespace State

/-- The state behind a character, if this belongs to the element. -/
def step : State → Char → Option State
  | run p, c => if p c then some (run p) else none
  | quoted q, c => some (if c = q then quoteRead q else quoted q)
  | quoteRead q, c => if c = q then some (quoted q) else none
  | escapeOpening, c => if c = apostrophe then some escaped else none
  | escaped, c =>
    some (if c = backslash then backslashRead else if c = apostrophe then escapedQuoteRead else escaped)
  | backslashRead, _ => some escaped
  | escapedQuoteRead, c => if c = apostrophe then some escaped else none
  | comment depth last, c =>
    if last = some '*' ∧ c = '/' then
      some (if depth ≤ 1 then finished else comment (depth - 1) none)
    else if last = some '/' ∧ c = '*' then some (comment (depth + 1) none)
    else some (comment depth (some c))
  | tag read, c =>
    if isTagChar c then some (tag (c :: read))
    else if c = '$' then some (dollar ('$' :: read ++ ['$']) [])
    else none
  | dollar delimiter read, c =>
    some (if delimiter.isPrefixOf (c :: read) then finished else dollar delimiter (c :: read))
  | finished, _ => none

/-- Whether the element may end here. -/
def isComplete : State → Bool
  | run _ | quoteRead _ | escapedQuoteRead | finished => true
  | _ => false

/-- Reads an element to its end, and hands back what follows it. -/
def scan (s : State) : List Char → Option (List Char × List Char)
  | [] => if s.isComplete then some ([], []) else none
  | c :: cs =>
    match s.step c with
    | some s' => (s'.scan cs).map fun r ↦ (c :: r.1, r.2)
    | none => if s.isComplete then some ([], c :: cs) else none

end State

/-- What begins with a character that has another behind it. With `continued`, an apostrophe goes on
with a string that has escapes. -/
def kindOf (continued : Bool) (c : Char) (next : Option Char) : Kind :=
  if c = '$' then if next.any Char.isDigit then .parameter else .dollarString
  else if isBlank c then .blank
  else if c = '-' ∧ next = some '-' then .lineComment
  else if c = '/' ∧ next = some '*' then .blockComment
  else if c = apostrophe then if continued then .escapeString else .string
  else if (c = 'e' ∨ c = 'E') ∧ next = some apostrophe then .escapeString
  else if c = '"' then .quotedName
  else if isWordStart c then .word
  else if c.isDigit then .number
  else .symbol

/-- The state behind the first character of an element. -/
def Kind.start : Kind → Char → State
  | .blank, _ => .run isBlank
  | .lineComment, _ => .run fun c ↦ !isLineEnd c
  | .blockComment, c => .comment 0 (some c)
  | .word, _ => .run isWordChar
  | .quotedName, c | .string, c => .quoted c
  | .escapeString, c => if c = apostrophe then .escaped else .escapeOpening
  | .dollarString, _ => .tag []
  | .number, _ => .run isTagChar
  | .parameter, _ => .run Char.isDigit
  | .symbol, _ => .finished

/-- The first element of a text, and the rest. -/
def next (continued : Bool) : List Char → Option (Lexeme × List Char)
  | [] => none
  | c :: cs =>
    let kind := kindOf continued c cs.head?
    ((kind.start c).scan cs).map fun r ↦ (⟨kind, c :: r.1⟩, r.2)

/-! ### Reading a text -/

/-- Whether a string with escapes may go on. -/
inductive Continuation
  | none
  /-- Such a string has ended, but not its line. -/
  | sameLine
  | laterLine
deriving DecidableEq

def Continuation.behind (k : Continuation) (t : Lexeme) : Continuation :=
  match t.kind with
  | .escapeString => .sameLine
  | .blank => if k = .sameLine ∧ t.text.any isLineEnd then .laterLine else k
  | .lineComment => k
  | _ => .none

/-- The text consists of these elements, one behind another. -/
inductive Lexes : Continuation → List Char → List Lexeme → Prop
  | done (k : Continuation) : Lexes k [] []
  | step {k : Continuation} {cs rest : List Char} {t : Lexeme} {ts : List Lexeme}
      (first : next (k = .laterLine) cs = some (t, rest)) (others : Lexes (k.behind t) rest ts) :
      Lexes k cs (t :: ts)

def texts (ts : List Lexeme) : List Char := ts.flatMap (·.text)

/-! ### How far elements go -/

namespace State

/-- What is read is a front of the text, and the same whatever follows the character behind it. -/
theorem scan_local {s : State} {cs a b : List Char} (h : s.scan cs = some (a, b)) :
    cs = a ++ b ∧ ∀ b' : List Char, b'.head? = b.head? → s.scan (a ++ b') = some (a, b') := by
  induction cs generalizing s a b with
  | nil =>
    rw [scan] at h
    split at h
    · rename_i hcomplete
      obtain ⟨rfl, rfl⟩ := Prod.mk.inj (Option.some.inj h)
      refine ⟨rfl, fun b' hhead ↦ ?_⟩
      obtain rfl : b' = [] := by simpa using hhead
      simp [scan, hcomplete]
    · simp at h
  | cons c cs ih =>
    rw [scan] at h
    cases hstep : s.step c with
    | some s' =>
      rw [hstep] at h
      obtain ⟨⟨a, b⟩, hr, heq⟩ := Option.map_eq_some_iff.mp h
      obtain ⟨rfl, rfl⟩ := Prod.mk.inj heq
      obtain ⟨rfl, hlocal⟩ := ih hr
      refine ⟨rfl, fun b' hhead ↦ ?_⟩
      simp [scan, hstep, hlocal b' hhead]
    | none =>
      rw [hstep] at h
      simp only at h
      split at h
      · rename_i hcomplete
        obtain ⟨rfl, rfl⟩ := Prod.mk.inj (Option.some.inj h)
        refine ⟨rfl, fun b' hhead ↦ ?_⟩
        cases b' with
        | nil => simp at hhead
        | cons c' b' =>
          obtain rfl : c' = c := by simpa using hhead
          simp [scan, hstep, hcomplete]
      · simp at h

theorem scan_run_append {p : Char → Bool} {a b : List Char} (ha : ∀ c ∈ a, p c)
    (hb : ∀ c ∈ b.head?, p c = false) : (run p).scan (a ++ b) = some (a, b) := by
  induction a with
  | nil =>
    cases b with
    | nil => rfl
    | cons c b => simp [scan, step, isComplete, hb c rfl]
  | cons c a ih =>
    obtain ⟨hc, ha⟩ := List.forall_mem_cons.mp ha
    simp [scan, step, hc, ih ha]

theorem scan_run_eq_some {p : Char → Bool} {cs a b : List Char}
    (h : (run p).scan cs = some (a, b)) : (∀ c ∈ a, p c) ∧ ∀ c ∈ b.head?, p c = false := by
  induction cs generalizing a with
  | nil =>
    obtain ⟨rfl, rfl⟩ := Prod.mk.inj (Option.some.inj h)
    simp
  | cons c cs ih =>
    cases hc : p c with
    | true =>
      simp only [scan, step, hc, if_true] at h
      obtain ⟨⟨a, b⟩, hr, heq⟩ := Option.map_eq_some_iff.mp h
      obtain ⟨rfl, rfl⟩ := Prod.mk.inj heq
      obtain ⟨ha, hb⟩ := ih hr
      exact ⟨List.forall_mem_cons.mpr ⟨hc, ha⟩, hb⟩
    | false =>
      simp only [scan, step, hc, Bool.false_eq_true, if_false, isComplete, if_true] at h
      obtain ⟨rfl, rfl⟩ := Prod.mk.inj (Option.some.inj h)
      simp [hc]

end State

variable {continued : Bool} {cs rest : List Char} {t : Lexeme}

/-- An element is a front of the text that is not empty, and it is the same in front of any other
rest that begins alike. -/
theorem next_local (h : next continued cs = some (t, rest)) :
    cs = t.text ++ rest ∧ t.text ≠ [] ∧
      ∀ rest' : List Char, rest'.head? = rest.head? →
        next continued (t.text ++ rest') = some (t, rest') := by
  cases cs with
  | nil => simp [next] at h
  | cons c cs =>
    obtain ⟨⟨a, b⟩, hr, heq⟩ := Option.map_eq_some_iff.mp h
    obtain ⟨rfl, rfl⟩ := Prod.mk.inj heq
    obtain ⟨rfl, hlocal⟩ := State.scan_local hr
    refine ⟨rfl, List.cons_ne_nil _ _, fun rest' hhead ↦ ?_⟩
    have hnext : (a ++ rest').head? = (a ++ b).head? := by
      rw [List.head?_append, List.head?_append, hhead]
    simp only [List.cons_append, next, hnext, hlocal rest' hhead, Option.map_some]

theorem kindOf_eq_parameter {c : Char} {following : Option Char} :
    kindOf continued c following = .parameter ↔ c = '$' ∧ following.any Char.isDigit := by
  by_cases hc : c = '$'
  · cases hdigit : following.any Char.isDigit <;> simp [kindOf, hc, hdigit]
  · rw [kindOf, if_neg hc]
    repeat' split
    all_goals simp [hc]

/-- A parameter is a dollar sign with all digits behind it. -/
theorem next_parameter (h : next continued cs = some (t, rest)) (ht : t.kind = .parameter) :
    ∃ ds, t.text = '$' :: ds ∧ ds ≠ [] ∧ (∀ c ∈ ds, c.isDigit) ∧
      ∀ c ∈ rest.head?, c.isDigit = false := by
  cases cs with
  | nil => simp [next] at h
  | cons c cs =>
    obtain ⟨⟨a, b⟩, hr, heq⟩ := Option.map_eq_some_iff.mp h
    obtain ⟨rfl, rfl⟩ := Prod.mk.inj heq
    obtain ⟨rfl, hdigit⟩ := kindOf_eq_parameter.mp ht
    rw [show kindOf continued '$' cs.head? = .parameter from ht] at hr
    obtain ⟨ha, hb⟩ := State.scan_run_eq_some hr
    refine ⟨a, rfl, ?_, ha, hb⟩
    rintro rfl
    rw [(State.scan_local hr).1, List.nil_append, Option.any_eq_true] at hdigit
    obtain ⟨d, hd, hdigit⟩ := hdigit
    exact absurd hdigit (by simp [hb d hd])

theorem next_of_digits {ds : List Char} (hds : ds ≠ []) (hdigits : ∀ c ∈ ds, c.isDigit)
    (hrest : ∀ c ∈ rest.head?, c.isDigit = false) :
    next continued ('$' :: ds ++ rest) = some (⟨.parameter, '$' :: ds⟩, rest) := by
  have hkind : kindOf continued '$' (ds ++ rest).head? = .parameter := by
    refine kindOf_eq_parameter.mpr ⟨rfl, ?_⟩
    cases ds with
    | nil => exact absurd rfl hds
    | cons d ds => exact hdigits d List.mem_cons_self
  rw [List.cons_append, next]
  simp only [hkind, Kind.start, State.scan_run_append hdigits hrest, Option.map_some]

variable {k : Continuation} {ts : List Lexeme}

/-- Reads a text of at most `n` elements. -/
def read? : Nat → Continuation → List Char → Option (List Lexeme)
  | _, _, [] => some []
  | 0, _, _ :: _ => none
  | n + 1, k, c :: cs =>
    match next (k = .laterLine) (c :: cs) with
    | some (t, rest) => (read? n (k.behind t) rest).map (t :: ·)
    | none => none

theorem lexes_of_read? {n : Nat} (h : read? n k cs = some ts) : Lexes k cs ts := by
  induction n, k, cs using read?.induct generalizing ts with
  | case1 n k =>
    rw [read?] at h
    obtain rfl := Option.some.inj h
    exact .done k
  | case2 k c cs => simp [read?] at h
  | case3 n k c cs t rest first ih =>
    rw [read?, first] at h
    obtain ⟨ts, hrest, rfl⟩ := Option.map_eq_some_iff.mp h
    exact .step first (ih hrest)
  | case4 n k c cs hnone => simp [read?, hnone] at h

theorem Lexes.read?_eq (h : Lexes k cs ts) : read? ts.length k cs = some ts := by
  induction h with
  | done k => rw [read?]
  | @step k cs rest t ts first _ ih =>
    cases cs with
    | nil => simp [next] at first
    | cons c cs => simp [read?, first, ih]

instance : Decidable (Lexes k cs ts) :=
  decidable_of_iff (read? ts.length k cs = some ts) ⟨lexes_of_read?, Lexes.read?_eq⟩

end SchemaSql.PostgreSql
