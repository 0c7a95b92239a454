import SchemaSql.Proofs.Statement.Signs
import SchemaSql.Store.Condition

/-!
How conditions are grouped. A database reads the text behind WHERE by the rules of its language: a
comparison binds closer than AND, and AND closer than OR, unless parentheses say otherwise. What is
read in a list of conditions is their conjunction, whatever is written next to what.
-/

set_option autoImplicit false
set_option relaxedAutoImplicit false

namespace SchemaSql

/-- A condition as it is read. -/
inductive Formula
  | isNull (name : String)
  | equals (name : String) (p : Parameter)
  | differs (name : String) (p : Parameter)
  | among (name : String) (ps : List Parameter)
  | written (text : String) (ps : List Parameter)
  | and (a b : Formula)
  | or (a b : Formula)

def Formula.truth (sc : Scope) (r : Row) : Formula → Truth
  | .isNull n => .ofBool (r.cell n).isNull
  | .equals n p => (r.cell n).equal (sc.value p)
  | .differs n p => ((r.cell n).equal (sc.value p)).not
  | .among n ps => .any (ps.map fun p ↦ (r.cell n).equal (sc.value p))
  | .written s ps => sc.written s ps r
  | .and a b => (a.truth sc r).and (b.truth sc r)
  | .or a b => (a.truth sc r).or (b.truth sc r)

namespace Truth

theorem yes_and (a : Truth) : yes.and a = a := by cases a <;> rfl

theorem and_yes (a : Truth) : a.and yes = a := by cases a <;> rfl

theorem and_assoc (a b c : Truth) : (a.and b).and c = a.and (b.and c) := by
  cases a <;> cases b <;> cases c <;> rfl

theorem all_nil : all [] = yes := rfl

theorem all_cons (t : Truth) (ts : List Truth) : all (t :: ts) = t.and (all ts) := rfl

end Truth

/-! ### Parentheses -/

/-- Whether the parentheses match from within some of them on, and maybe within quotes that end with
a certain character. Which characters open quotes is up to the reader. -/
def balancedFrom (quoteEnd? : Char → Option Char) : Option Char → Nat → List Char → Bool
  | none, depth, [] => depth == 0
  | some _, _, [] => false
  | some q, depth, [c] => c == q && depth == 0
  | some q, depth, c :: c' :: cs =>
    if c = q then
      if c' = q then balancedFrom quoteEnd? (some q) depth cs
      else balancedFrom quoteEnd? none depth (c' :: cs)
    else balancedFrom quoteEnd? (some q) depth (c' :: cs)
  | none, depth, c :: cs =>
    if c = '(' then balancedFrom quoteEnd? none (depth + 1) cs
    else if c = ')' then depth != 0 && balancedFrom quoteEnd? none (depth - 1) cs
    else balancedFrom quoteEnd? (quoteEnd? c) depth cs

namespace Dialect

/-- The character that ends what another one begins, where both quote. -/
def quoteEnd? (d : Dialect) (c : Char) : Option Char :=
  if c.toNat = 39 ∨ c = '"' then some c else if c = d.openQuote then some d.closeQuote else none

/-- Whether the parentheses of a text match, all of them or those that are not quoted, so that
parentheses around the text enclose all of it. -/
def balanced (d : Dialect) (text : String) : Bool :=
  balancedFrom (fun _ ↦ none) none 0 text.toList || balancedFrom d.quoteEnd? none 0 text.toList

end Dialect

/-! ### Reading -/

/-- A disjunction of which a part has been read: the complete disjuncts, and the complete conjuncts
of the next one. -/
structure Level where
  disjuncts : Option Formula := none
  conjuncts : Option Formula := none

namespace Level

def conjoin (v : Level) (a : Formula) : Formula :=
  match v.conjuncts with
  | none => a
  | some b => b.and a

def disjoin (v : Level) (a : Formula) : Formula :=
  match v.disjuncts with
  | none => v.conjoin a
  | some b => b.or (v.conjoin a)

end Level

/-- What is to come. -/
inductive Stage
  | operand
  /-- An operator, or the end, behind an operand. -/
  | operator (read : Formula)
  /-- Another parameter of a list. -/
  | list (name : String) (read : List Parameter)

/-- Reads a condition. The levels are those of the parentheses that have been opened. A text that
the caller wrote is one operand if the parentheses around it enclose all of it. -/
def readFormula (d : Dialect) : List Level → Level → Stage → List Sign → Option Formula
  | outer, v, .operand, .symbol '(' :: .raw s ps :: .symbol ')' :: rest =>
    if d.balanced s then readFormula d outer v (.operator (.written s ps)) rest else none
  | outer, v, .operand, .symbol '(' :: rest => readFormula d (v :: outer) {} .operand rest
  | outer, v, .operand, .name n :: .word "IS" :: .word "NULL" :: rest =>
    readFormula d outer v (.operator (.isNull n)) rest
  | outer, v, .operand, .name n :: .symbol '=' :: .param p :: rest =>
    readFormula d outer v (.operator (.equals n p)) rest
  | outer, v, .operand, .name n :: .symbol '<' :: .symbol '>' :: .param p :: rest =>
    readFormula d outer v (.operator (.differs n p)) rest
  | outer, v, .operand, .name n :: .word "IN" :: .symbol '(' :: rest =>
    readFormula d outer v (.list n []) rest
  | outer, v, .list n ps, .param p :: .symbol ',' :: rest =>
    readFormula d outer v (.list n (ps ++ [p])) rest
  | outer, v, .list n ps, .param p :: .symbol ')' :: rest =>
    readFormula d outer v (.operator (.among n (ps ++ [p]))) rest
  | outer, v, .operator a, .word "AND" :: rest =>
    readFormula d outer { v with conjuncts := some (v.conjoin a) } .operand rest
  | outer, v, .operator a, .word "OR" :: rest =>
    readFormula d outer { disjuncts := some (v.disjoin a) } .operand rest
  | w :: outer, v, .operator a, .symbol ')' :: rest =>
    readFormula d outer w (.operator (v.disjoin a)) rest
  | [], v, .operator a, [] => some (v.disjoin a)
  | _, _, _, _ => none

/-- What the clause behind a source says of the rows, if there is one. -/
def readWhere (d : Dialect) : List Sign → Option (Option Formula)
  | [] => some none
  | .word "WHERE" :: rest => (readFormula d [] {} .operand rest).map some
  | _ => none

/-! ### Signs of conditions -/

/-- The parameters of a list, with a comma between each two. -/
def listSigns : List Parameter → List Sign
  | [] => []
  | [p] => [.param p]
  | p :: ps => .param p :: .symbol ',' :: listSigns ps

namespace Predicate

/-- The signs of which a condition consists. -/
def signs : Predicate → List Sign
  | .isNull c => [.name c.name, .word "IS", .word "NULL"]
  | .equals c p => [.name c.name, .symbol '=', .param p]
  | .among c ps => .name c.name :: .word "IN" :: .symbol '(' :: (listSigns ps ++ [.symbol ')'])
  | .unmarked c p =>
    [.symbol '(', .name c.name, .symbol '<', .symbol '>', .param p, .word "OR", .name c.name,
      .word "IS", .word "NULL", .symbol ')']
  | .lastInserted c =>
    [.name c.name, .symbol '=', .word "LAST_INSERT_ID", .symbol '(', .symbol ')']
  | .written s ps => [.symbol '(', .raw s ps, .symbol ')']

/-- The column of the condition is quoted for the dialect. -/
def QuotedFor (d : Dialect) (p : Predicate) : Prop :=
  ∀ c, p.column? = some c → c.quoted = d.quote c.name

/-- The condition asks for parameters, of which a list has at least one, and its parentheses
match. -/
def Readable (d : Dialect) : Predicate → Prop
  | .among _ ps => ps ≠ []
  | .lastInserted _ => False
  | .written s _ => d.balanced s
  | _ => True

end Predicate

/-- The signs of conditions with AND between each two. -/
def conjunctionSigns : List Predicate → List Sign
  | [] => []
  | [p] => p.signs
  | p :: ps => p.signs ++ .word "AND" :: conjunctionSigns ps

section Signs

variable {d : Dialect}

open Fragment

/-- A quoted name ends in front of a blank. -/
theorem signsFrom_name {c : Column} (h : c.quoted = d.quote c.name) (ms : List Mark) :
    signsFrom d .nothing (characters c.quoted ++ .char ' ' :: ms) =
      .name c.name :: signsFrom d .nothing ms := by
  have hends : EndsName d (.char ' ' :: ms) := endsName_of_head? rfl (by cases d <;> decide)
  rw [h, signsFrom_quoted _ hends]
  rfl

theorem signsFrom_isNull {c : Column} (h : c.quoted = d.quote c.name) {ms : List Mark}
    (hms : EndsWord ms) :
    signsFrom d .nothing (characters c.quoted ++ (characters " IS NULL" ++ ms)) =
      .name c.name :: .word "IS" :: .word "NULL" :: signsFrom d .nothing ms := by
  have hwords : signsFrom d .nothing (characters "IS NULL" ++ ms) =
      .word "IS" :: signsFrom d (.word "NULL".toList) ms := by cases d <;> rfl
  have hblank : characters " IS NULL" ++ ms = .char ' ' :: (characters "IS NULL" ++ ms) := rfl
  rw [hblank, signsFrom_name h, hwords, signsFrom_word_end _ hms]
  rfl

theorem signsFrom_list (ps : List Parameter) (ms : List Mark) :
    signsFrom d .nothing ((parameterList ps).marks ++ ms) =
      listSigns ps ++ signsFrom d .nothing ms := by
  have hcomma (ms : List Mark) : signsFrom d .nothing (characters ", " ++ ms) =
      .symbol ',' :: signsFrom d .nothing ms := by cases d <;> rfl
  have hparam (p : Parameter) (ms : List Mark) : signsFrom d .nothing (.param p :: ms) =
      .param p :: signsFrom d .nothing ms := rfl
  induction ps using listSigns.induct with
  | case1 => rfl
  | case2 p => rfl
  | case3 p ps hps ih =>
    have hjoin : (parameterList (p :: ps)).marks =
        .param p :: (characters ", " ++ (parameterList ps).marks) := by
      rw [parameterList, List.map_cons, join]
      · simp [parameterList]
      · simpa using hps
    rw [hjoin, List.cons_append, List.append_assoc, hparam, hcomma, ih, listSigns]
    · rfl
    · exact hps

theorem Predicate.signsFrom_fragment {p : Predicate} (h : p.QuotedFor d) {ms : List Mark}
    (hms : EndsWord ms) :
    signsFrom d .nothing (p.fragment.marks ++ ms) = p.signs ++ signsFrom d .nothing ms := by
  cases p with
  | isNull c =>
    rw [fragment, marks_text, characters_append, List.append_assoc, signsFrom_isNull (h c rfl) hms]
    rfl
  | equals c p =>
    have hequals : signsFrom d .nothing (characters "= " ++ .param p :: ms) =
        .symbol '=' :: .param p :: signsFrom d .nothing ms := by cases d <;> rfl
    rw [fragment, marks_append, marks_text, marks_param, characters_append, List.append_assoc,
      List.append_assoc]
    exact (signsFrom_name (h c rfl) _).trans (congrArg _ hequals)
  | among c ps =>
    have hopen (ms : List Mark) : signsFrom d .nothing (characters "IN (" ++ ms) =
        .word "IN" :: .symbol '(' :: signsFrom d .nothing ms := by cases d <;> rfl
    have hclose : signsFrom d .nothing (characters ")" ++ ms) =
        .symbol ')' :: signsFrom d .nothing ms := by cases d <;> rfl
    have hlist := (hopen _).trans (congrArg (.word "IN" :: .symbol '(' :: ·)
      ((signsFrom_list ps _).trans (congrArg (listSigns ps ++ ·) hclose)))
    simp only [fragment, marks_append, marks_text, characters_append, List.append_assoc]
    refine (signsFrom_name (h c rfl) _).trans ((congrArg _ hlist).trans ?_)
    simp [signs]
  | unmarked c p =>
    have hopen (ms : List Mark) : signsFrom d .nothing (characters "(" ++ ms) =
        .symbol '(' :: signsFrom d .nothing ms := by cases d <;> rfl
    have hdiffers (ms : List Mark) :
        signsFrom d .nothing (characters "<> " ++ .param p :: (characters " OR " ++ ms)) =
          .symbol '<' :: .symbol '>' :: .param p :: .word "OR" :: signsFrom d .nothing ms := by
      cases d <;> rfl
    have hclose : signsFrom d .nothing (characters ")" ++ ms) =
        .symbol ')' :: signsFrom d .nothing ms := by cases d <;> rfl
    have hnull : signsFrom d .nothing (characters c.quoted ++ (characters " IS NULL)" ++ ms)) =
        .name c.name :: .word "IS" :: .word "NULL" :: .symbol ')' :: signsFrom d .nothing ms := by
      have hsplit : characters " IS NULL)" ++ ms = characters " IS NULL" ++ (characters ")" ++ ms) :=
        rfl
      rw [hsplit, signsFrom_isNull (h c rfl) (endsWord_of_head? rfl (by decide)), hclose]
    simp only [fragment, marks_append, marks_text, marks_param, characters_append, List.append_assoc]
    refine (hopen _).trans (congrArg _ ((signsFrom_name (h c rfl) _).trans (congrArg _ ?_)))
    exact (hdiffers _).trans
      (congrArg (.symbol '<' :: .symbol '>' :: .param p :: .word "OR" :: ·) hnull)
  | lastInserted c =>
    have hcall : signsFrom d .nothing (characters "= LAST_INSERT_ID()" ++ ms) =
        .symbol '=' :: .word "LAST_INSERT_ID" :: .symbol '(' :: .symbol ')' ::
          signsFrom d .nothing ms := by cases d <;> rfl
    rw [fragment, marks_text, characters_append, List.append_assoc]
    exact (signsFrom_name (h c rfl) _).trans (congrArg _ hcall)
  | written s ps =>
    have hgroup : signsFrom d .nothing (characters "(" ++ .raw s ps :: (characters ")" ++ ms)) =
        .symbol '(' :: .raw s ps :: .symbol ')' :: signsFrom d .nothing ms := by cases d <;> rfl
    rw [fragment, marks_append, marks_append, marks_text, marks_raw, marks_text, List.append_assoc,
      List.append_assoc]
    exact hgroup

theorem signsFrom_conjunction {criteria : List Predicate} (h : ∀ p ∈ criteria, p.QuotedFor d) :
    signsFrom d .nothing (conjunction criteria).marks = conjunctionSigns criteria := by
  have hand (ms : List Mark) : signsFrom d .nothing (characters " AND " ++ ms) =
      .word "AND" :: signsFrom d .nothing ms := by cases d <;> rfl
  induction criteria using conjunctionSigns.induct with
  | case1 => rfl
  | case2 p =>
    have hends : EndsWord [] := by simp [EndsWord]
    have hend := p.signsFrom_fragment (h p (List.mem_singleton_self p)) hends
    simpa [conjunction, join, conjunctionSigns, signsFrom, Pending.signs] using hend
  | case3 p ps hps ih =>
    obtain ⟨hp, hrest⟩ := List.forall_mem_cons.mp h
    have hjoin : (conjunction (p :: ps)).marks =
        p.fragment.marks ++ (characters " AND " ++ (conjunction ps).marks) := by
      rw [conjunction, List.map_cons, join]
      · simp [conjunction]
      · simpa using hps
    rw [hjoin, p.signsFrom_fragment hp (endsWord_of_head? rfl (by decide)), hand, ih hrest,
      conjunctionSigns]
    exact hps

theorem signs_whereClause {criteria : List Predicate} (hne : criteria ≠ [])
    (h : ∀ p ∈ criteria, p.QuotedFor d) :
    (whereClause criteria).signs d = .word "WHERE" :: conjunctionSigns criteria := by
  have hwhere (ms : List Mark) : signsFrom d .nothing (characters " WHERE " ++ ms) =
      .word "WHERE" :: signsFrom d .nothing ms := by cases d <;> rfl
  cases criteria with
  | nil => exact absurd rfl hne
  | cons p ps =>
    rw [signs, whereClause, marks_append, marks_text, hwhere, signsFrom_conjunction h]
    simp

end Signs

/-! ### Reading of conditions -/

section Reading

variable {d : Dialect}

theorem readFormula_list {ps : List Parameter} (hps : ps ≠ []) (outer : List Level) (v : Level)
    (n : String) (read : List Parameter) (rest : List Sign) :
    readFormula d outer v (.list n read) (listSigns ps ++ .symbol ')' :: rest) =
      readFormula d outer v (.operator (.among n (read ++ ps))) rest := by
  induction ps using listSigns.induct generalizing read with
  | case1 => exact absurd rfl hps
  | case2 p => simp [listSigns, readFormula]
  | case3 p ps hne ih =>
    have hmore : listSigns (p :: ps) = .param p :: .symbol ',' :: listSigns ps := by
      rw [listSigns]
      exact hne
    rw [hmore, List.cons_append, List.cons_append, readFormula, ih hne, List.append_assoc,
      List.singleton_append]

/-- A condition is read as one operand with the condition's truth. -/
theorem Predicate.read_signs {p : Predicate} (h : p.Readable d) :
    ∃ a : Formula, (∀ sc r, a.truth sc r = p.truth sc r) ∧ ∀ outer v rest,
      readFormula d outer v .operand (p.signs ++ rest) =
        readFormula d outer v (.operator a) rest := by
  -- The levels and what follows are left open, so that a condition is read alike wherever it stands.
  cases p with
  | isNull c => exact ⟨.isNull c.name, fun _ _ ↦ rfl, fun _ _ _ ↦ by simp [signs, readFormula]⟩
  | equals c p => exact ⟨.equals c.name p, fun _ _ ↦ rfl, fun _ _ _ ↦ by simp [signs, readFormula]⟩
  | among c ps =>
    refine ⟨.among c.name ps, fun _ _ ↦ rfl, fun outer v rest ↦ ?_⟩
    have hlist := readFormula_list (d := d) h outer v c.name [] rest
    rw [List.nil_append] at hlist
    simp [signs, readFormula, hlist]
  | unmarked c p =>
    exact ⟨.or (.differs c.name p) (.isNull c.name), fun _ _ ↦ rfl, fun _ _ _ ↦ by
      simp [signs, readFormula, Level.disjoin, Level.conjoin]⟩
  | lastInserted c => exact h.elim
  | written s ps =>
    have hs : d.balanced s := h
    exact ⟨.written s ps, fun _ _ ↦ rfl, fun _ _ _ ↦ by simp [signs, readFormula, hs]⟩

theorem truth_conjoin (read : Option Formula) (a : Formula) (sc : Scope) (r : Row) :
    (({ conjuncts := read } : Level).conjoin a).truth sc r =
      ((read.map (Formula.truth sc r)).getD .yes).and (a.truth sc r) := by
  cases read with
  | none =>
    rw [Option.map_none, Option.getD_none, Truth.yes_and]
    rfl
  | some b => rfl

/-- Conditions with AND between each two are read as their conjunction. -/
theorem read_conjunctionSigns {criteria : List Predicate} (hne : criteria ≠ [])
    (h : ∀ p ∈ criteria, p.Readable d) (read : Option Formula) :
    ∃ a : Formula, readFormula d [] { conjuncts := read } .operand (conjunctionSigns criteria) =
        some a ∧
      ∀ sc r, a.truth sc r = ((read.map (Formula.truth sc r)).getD .yes).and
        (.all (criteria.map (Predicate.truth sc r))) := by
  induction criteria using conjunctionSigns.induct generalizing read with
  | case1 => exact absurd rfl hne
  | case2 p =>
    obtain ⟨a, ha, hread⟩ := p.read_signs (h p (List.mem_singleton_self p))
    refine ⟨({ conjuncts := read } : Level).conjoin a, ?_, fun sc r ↦ ?_⟩
    · have hend := hread [] { conjuncts := read } []
      rw [List.append_nil] at hend
      rw [conjunctionSigns, hend, readFormula, Level.disjoin]
    · rw [truth_conjoin, ha, List.map_singleton, Truth.all_cons, Truth.all_nil, Truth.and_yes]
  | case3 p ps hps ih =>
    obtain ⟨hp, hrest⟩ := List.forall_mem_cons.mp h
    obtain ⟨a, ha, hread⟩ := p.read_signs hp
    -- Behind AND the condition is one of the conjuncts that have been read.
    obtain ⟨b, hb, htruth⟩ := ih hps hrest (some (({ conjuncts := read } : Level).conjoin a))
    refine ⟨b, ?_, fun sc r ↦ ?_⟩
    · have hmore : conjunctionSigns (p :: ps) = p.signs ++ .word "AND" :: conjunctionSigns ps := by
        rw [conjunctionSigns]
        exact hps
      rw [hmore, hread, readFormula]
      exact hb
    · rw [htruth, Option.map_some, Option.getD_some, truth_conjoin, ha, List.map_cons, Truth.all_cons,
        Truth.and_assoc]

/-- The clause of readable conditions is read, and is true of the rows of which all of them are. -/
theorem readWhere_whereClause {criteria : List Predicate} (hquoted : ∀ p ∈ criteria, p.QuotedFor d)
    (h : ∀ p ∈ criteria, p.Readable d) :
    ∃ a : Option Formula, readWhere d ((whereClause criteria).signs d) = some a ∧
      (a = none ↔ criteria = []) ∧
      ∀ sc r, (a.map (Formula.truth sc r)).getD .yes =
        .all (criteria.map (Predicate.truth sc r)) := by
  cases hcriteria : criteria with
  | nil => exact ⟨none, rfl, by simp, fun _ _ ↦ rfl⟩
  | cons p ps =>
    have hne : criteria ≠ [] := by simp [hcriteria]
    obtain ⟨a, ha, htruth⟩ := read_conjunctionSigns hne h none
    rw [← hcriteria]
    refine ⟨some a, ?_, by simp [hne], fun sc r ↦ ?_⟩
    · rw [signs_whereClause hne hquoted, readWhere, ha]
      rfl
    · rw [Option.map_some, Option.getD_some, htruth, Option.map_none, Option.getD_none,
        Truth.yes_and]

/-- AND binds closer than OR. -/
example (p q : Parameter) : readFormula .sqlite [] {} .operand
    [.name "A", .symbol '=', .param p, .word "OR", .name "B", .symbol '=', .param q, .word "AND",
      .name "C", .word "IS", .word "NULL"] =
    some (.or (.equals "A" p) (.and (.equals "B" q) (.isNull "C"))) := rfl

end Reading

end SchemaSql
