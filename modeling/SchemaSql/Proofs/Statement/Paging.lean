import SchemaSql.Proofs.Statement.Clauses

/-!
How many rows a query asks its database for, and which: what each dialect reads in the clauses
behind SELECT, behind the source, for the order and at the end. Clauses that a dialect does not know
are not read, nor are clauses that do not go together.
-/

set_option autoImplicit false
set_option relaxedAutoImplicit false

namespace SchemaSql

/-- The rows that a query asks for. Without a number of them they are all the rows. -/
structure Paging where
  option : LimitOption := .none
  take : Option Int := none
  skip : Option Int := none
  seed : Option Int := none
deriving DecidableEq

def Value.integer? : Value → Option Int
  | .int n => some n.toInt
  | _ => none

/-- The order in which a query has its rows: sorted by columns, which are descending or not, or at
random. -/
inductive RowOrder
  | unordered
  | sorted (terms : List (String × Bool))
  | random (seed : Option Int)
deriving DecidableEq

namespace Dialect

/-! ### Behind SELECT -/

/-- A number of rows, which is bound in parentheses or written as it is. -/
def readAmount (value : Parameter → Value) : List Sign → Option (Int × List Sign)
  | .symbol '(' :: .param p :: .symbol ')' :: rest => (value p).integer?.map (·, rest)
  | signs => readInteger signs

def topOption? (d : Dialect) : List Sign → Option LimitOption
  | [] => some .rows
  | [.word "PERCENT"] => some .percentage
  | [.word "WITH", .word "TIES"] => if d = .sqlServer then some .rowsWithTies else none
  | [.word "PERCENT", .word "WITH", .word "TIES"] =>
    if d = .sqlServer then some .percentageWithTies else none
  | _ => none

/-- What stands behind SELECT, if anything does. -/
def readTop (d : Dialect) (value : Parameter → Value) :
    List Sign → Option (Option (LimitOption × Int))
  | [] => some none
  | .word "TOP" :: rest =>
    if d = .sqlServer ∨ d = .access then do
      let (n, rest) ← readAmount value rest
      let o ← d.topOption? rest
      some (some (o, n))
    else none
  | _ => none

/-! ### Behind the source -/

/-- The unit of a sample. A bare number is a percentage. -/
def readUnit (d : Dialect) : List Sign → Option (LimitOption × List Sign)
  | .symbol ')' :: rest => some (.randomSamplePercentage, rest)
  | .word "ROWS" :: .symbol ')' :: rest =>
    if d = .sqlServer then some (.randomSampleRows, rest) else none
  | .word "PERCENT" :: .symbol ')' :: rest =>
    if d = .sqlServer then some (.randomSamplePercentage, rest) else none
  | _ => none

def readSeed : List Sign → Option (Option Int)
  | [] => some none
  | .word "REPEATABLE" :: .symbol '(' :: rest =>
    match readInteger rest with
    | some (n, [.symbol ')']) => some (some n)
    | _ => none
  | _ => none

def readSample (d : Dialect) : List Sign → Option (Option (LimitOption × Int × Option Int))
  | [] => some none
  | .word "TABLESAMPLE" :: .word "SYSTEM" :: .symbol '(' :: rest =>
    if d = .sqlServer ∨ d = .postgreSql then do
      let (n, rest) ← readInteger rest
      let (o, rest) ← d.readUnit rest
      let seed ← readSeed rest
      some (some (o, n, seed))
    else none
  | _ => none

/-! ### Order -/

/-- What is handed to a function, up to the end of the call. -/
def readArgument : List Sign → Option (Option Int)
  | [.symbol ')'] => some none
  | signs =>
    match readInteger signs with
    | some (n, [.symbol ')']) => some (some n)
    | _ => none

/-- A call of the function by which a dialect shuffles rows. Only one of them takes a seed. -/
def readRandom (d : Dialect) (function : String) : List Sign → Option RowOrder
  | .symbol '(' :: rest =>
    match d, function with
    | .mySql, "RAND" => (readArgument rest).map .random
    | .sqlite, "RANDOM" => if readArgument rest = some none then some (.random none) else none
    | _, _ => none
  | _ => none

/-- The columns that rows are sorted by, at least one, and whether each is descending. -/
def readTerms : List Sign → Option (List (String × Bool))
  | [.name s] => some [(s, false)]
  | [.name s, .word "DESC"] => some [(s, true)]
  | .name s :: .symbol ',' :: rest => (readTerms rest).map ((s, false) :: ·)
  | .name s :: .word "DESC" :: .symbol ',' :: rest => (readTerms rest).map ((s, true) :: ·)
  | _ => none

def readOrder (d : Dialect) : List Sign → Option RowOrder
  | [] => some .unordered
  | .word "ORDER" :: .word "BY" :: .word function :: rest => d.readRandom function rest
  | .word "ORDER" :: .word "BY" :: rest => (readTerms rest).map .sorted
  | _ => none

section Terms

variable (s : String) (rest : List Sign)

@[simp] theorem readTerms_single : readTerms [.name s] = some [(s, false)] := rfl

@[simp] theorem readTerms_single_descending :
    readTerms [.name s, .word "DESC"] = some [(s, true)] := rfl

@[simp] theorem readTerms_cons : readTerms (.name s :: .symbol ',' :: rest) =
    (readTerms rest).map ((s, false) :: ·) := rfl

@[simp] theorem readTerms_cons_descending :
    readTerms (.name s :: .word "DESC" :: .symbol ',' :: rest) =
      (readTerms rest).map ((s, true) :: ·) := rfl

end Terms

/-! ### At the end -/

/-- Numbers of rows that stand for all of them, where rows are skipped only by also taking some. -/
def takesAll (d : Dialect) (n : Int) : Bool :=
  (d == .sqlite && n < 0) || (d == .mySql && 18446744073709551615 ≤ n)

/-- The number of rows behind LIMIT, which is `none` if all are taken. -/
def readTake (d : Dialect) (value : Parameter → Value) : List Sign → Option (Option Int × List Sign)
  | .param p :: rest => (value p).integer?.map (some ·, rest)
  | signs => (readInteger signs).map fun r ↦ (if d.takesAll r.1 then none else some r.1, r.2)

def readSkip (value : Parameter → Value) : List Sign → Option (Option Int)
  | [] => some none
  | [.word "OFFSET", .param p] => (value p).integer?.map some
  | _ => none

def readFetch (d : Dialect) (value : Parameter → Value) :
    List Sign → Option (LimitOption × Option Int)
  | [] => some (.none, none)
  | [.word "FETCH", .word "NEXT", .param p, .word "ROWS", .word "ONLY"] =>
    (value p).integer?.map fun n ↦ (.rows, some n)
  | [.word "FETCH", .word "FIRST", .param p, .word "ROWS", .word "WITH", .word "TIES"] =>
    if d = .postgreSql then (value p).integer?.map fun n ↦ (.rowsWithTies, some n) else none
  | _ => none

def readWindow (d : Dialect) (value : Parameter → Value) : List Sign → Option Paging
  | [] => some {}
  | .word "LIMIT" :: rest =>
    if d = .postgreSql ∨ d = .mySql ∨ d = .sqlite then do
      let (take, rest) ← d.readTake value rest
      let skip ← readSkip value rest
      some { option := if take.isSome then .rows else .none, take, skip }
    else none
  | .word "OFFSET" :: .param p :: .word "ROWS" :: rest =>
    if d = .sqlServer ∨ d = .postgreSql then do
      let skip ← (value p).integer?
      let (option, take) ← d.readFetch value rest
      some { option, take, skip := some skip }
    else none
  | .word "OFFSET" :: rest =>
    if d = .postgreSql then do
      let skip ← readSkip value (.word "OFFSET" :: rest)
      some { skip }
    else none
  | signs =>
    if d = .postgreSql then do
      let (option, take) ← d.readFetch value signs
      some { option, take }
    else none

section Windows

variable (d : Dialect) (value : Parameter → Value) (p q : Parameter) (rest : List Sign)

@[simp] theorem readTake_param :
    d.readTake value (.param p :: rest) = (value p).integer?.map (some ·, rest) := rfl

@[simp] theorem readSkip_nil : readSkip value [] = some none := rfl

@[simp] theorem readSkip_offset :
    readSkip value [.word "OFFSET", .param p] = (value p).integer?.map some := rfl

@[simp] theorem readFetch_nil : d.readFetch value [] = some (.none, none) := rfl

@[simp] theorem readFetch_next :
    d.readFetch value [.word "FETCH", .word "NEXT", .param p, .word "ROWS", .word "ONLY"] =
      (value p).integer?.map fun n ↦ (.rows, some n) := rfl

@[simp] theorem readFetch_first : postgreSql.readFetch value
    [.word "FETCH", .word "FIRST", .param p, .word "ROWS", .word "WITH", .word "TIES"] =
      (value p).integer?.map fun n ↦ (.rowsWithTies, some n) := rfl

theorem readWindow_limited (hd : d = .postgreSql ∨ d = .mySql ∨ d = .sqlite) :
    d.readWindow value (.word "LIMIT" :: rest) = (d.readTake value rest).bind fun r ↦
      (readSkip value r.2).bind fun skip ↦
        some { option := if r.1.isSome then .rows else .none, take := r.1, skip } :=
  if_pos hd

theorem readWindow_skipping (hd : d = .sqlServer ∨ d = .postgreSql) :
    d.readWindow value (.word "OFFSET" :: .param p :: .word "ROWS" :: rest) =
      (value p).integer?.bind fun skip ↦ (d.readFetch value rest).bind fun r ↦
        some { option := r.1, take := r.2, skip := some skip } :=
  if_pos hd

theorem readWindow_skipped : postgreSql.readWindow value [.word "OFFSET", .param p] =
    (readSkip value [.word "OFFSET", .param p]).bind fun skip ↦ some { skip } := rfl

theorem readWindow_fetching : postgreSql.readWindow value (.word "FETCH" :: rest) =
    (postgreSql.readFetch value (.word "FETCH" :: rest)).bind fun r ↦
      some { option := r.1, take := r.2 } := rfl

end Windows

end Dialect

/-- Puts together what the clauses of a query say. Rows in random order of which some are taken are
a sample. No two clauses may say how many rows there are. -/
def combine (top : Option (LimitOption × Int)) (sample : Option (LimitOption × Int × Option Int))
    (order : RowOrder) (window : Paging) : Option Paging :=
  match order, top, sample with
  | .random seed, none, none =>
    if window.option = .rows ∧ window.skip = none then
      some { window with option := .randomSampleRows, seed }
    else none
  | .random _, _, _ => none
  | _, none, none => some window
  | _, some (option, n), none => if window = {} then some { option, take := some n } else none
  | _, none, some (option, n, seed) =>
    if window = {} then some { option, take := some n, seed } else none
  | _, some _, some _ => none

/-- The order that the text of a query says, if it says one that the dialect knows. -/
def Select.order? (d : Dialect) (s : Select) : Option RowOrder :=
  d.readOrder ((Fragment.text s.order.clause).signs d)

/-- The order is the caller's, if there is one, and its columns are quoted for the dialect. -/
def Order.Plain (d : Dialect) : Order → Prop
  | .none => True
  | .by terms => terms ≠ [] ∧ ∀ t ∈ terms, t.column.quoted = d.quote t.column.name
  | .random .. => False

/-- The rows that a query asks for in a dialect, where parameters have values. -/
def Select.paging? (d : Dialect) (value : Parameter → Value) (s : Select) : Option Paging := do
  let top ← d.readTop value ((topClause s.top).signs d)
  let sample ← d.readSample ((Fragment.text (sampleClause s.sample)).signs d)
  let order ← s.order? d
  let window ← d.readWindow value (s.window.clause.signs d)
  combine top sample order window

/-! ### What clauses are read as -/

open Fragment

/-- The kind of limit that a front part of the rows is. -/
def Top.option (t : Top) : LimitOption :=
  match t.percent, t.ties with
  | false, false => .rows
  | true, false => .percentage
  | false, true => .rowsWithTies
  | true, true => .percentageWithTies

def SampleUnit.option : SampleUnit → LimitOption
  | .rows => .randomSampleRows
  | .percent => .randomSamplePercentage

def SampleUnit.word : SampleUnit → String
  | .rows => "ROWS"
  | .percent => "PERCENT"

namespace Dialect

variable {d : Dialect} {value : Parameter → Value} {p q : Parameter} {m n : Int}
  {u : Option SampleUnit}

theorem readAmount_integerSigns (n : Int) (rest : List Sign) :
    readAmount value (integerSigns n ++ rest) = some (n, rest) := by
  rw [← readInteger_integerSigns]
  cases n <;> rfl

theorem readTop_bound (hp : (value p).integer? = some n) (percent ties : Bool) :
    sqlServer.readTop value ((topClause (some ⟨.bound p, percent, ties⟩)).signs .sqlServer) =
      some (some (Top.option ⟨.bound p, percent, ties⟩, n)) := by
  rw [signs_topClause]
  cases percent <;> cases ties <;>
    simp [topSigns, Amount.signs, readTop, readAmount, hp, topOption?, Top.option]

theorem readTop_literal (n : Int64) (percent : Bool) :
    access.readTop value ((topClause (some ⟨.literal n, percent, false⟩)).signs .access) =
      some (some (Top.option ⟨.literal n, percent, false⟩, n.toInt)) := by
  rw [signs_topClause, topSigns, readTop, if_pos (.inr rfl), Amount.signs, readAmount_integerSigns]
  cases percent <;> rfl

theorem readSeed_clause (seed : Option Int64) :
    readSeed ((text ((seed.map fun n ↦ " REPEATABLE (" ++ integerText n ++ ")").getD "")).signs d) =
      some (seed.map Int64.toInt) := by
  have hopen (ms : List Mark) : signsFrom d .nothing (characters " REPEATABLE (" ++ ms) =
      .word "REPEATABLE" :: .symbol '(' :: signsFrom d .nothing ms := by cases d <;> rfl
  have hclose : signsFrom d .nothing (characters ")") = [.symbol ')'] := by cases d <;> rfl
  cases seed with
  | none => rfl
  | some n =>
    simp only [Option.map_some, Option.getD_some, signs, marks_text, characters_append,
      List.append_assoc, hopen, integerText]
    rw [signsFrom_integer _ (endsWord_of_head? rfl rfl), hclose, readSeed,
      readInteger_integerSigns]
    rfl

theorem signsFrom_sampling (ms : List Mark) :
    signsFrom d .nothing (characters " TABLESAMPLE SYSTEM (" ++ ms) =
      .word "TABLESAMPLE" :: .word "SYSTEM" :: .symbol '(' :: signsFrom d .nothing ms := by
  cases d <;> rfl

theorem readUnit_text (hu : u ≠ none → d = .sqlServer) (ms : List Mark) :
    d.readUnit (signsFrom d .nothing
      (characters ((u.map SampleUnit.text).getD "") ++ (characters ")" ++ ms))) =
        some ((u.map SampleUnit.option).getD .randomSamplePercentage, signsFrom d .nothing ms) := by
  cases u with
  | none => cases d <;> rfl
  | some u =>
    obtain rfl := hu (by simp)
    cases u <;> rfl

theorem endsWord_unit (ms : List Mark) :
    EndsWord (characters ((u.map SampleUnit.text).getD "") ++ (characters ")" ++ ms)) := by
  cases u with
  | none => exact endsWord_of_head? rfl rfl
  | some u => cases u <;> exact endsWord_of_head? rfl rfl

theorem readSample_clause (hd : d = .sqlServer ∨ d = .postgreSql) (n : Int64)
    (hu : u ≠ none → d = .sqlServer) (seed : Option Int64) :
    d.readSample ((text (sampleClause (some ⟨n, u, seed⟩))).signs d) =
      some (some ((u.map SampleUnit.option).getD .randomSamplePercentage, n.toInt,
        seed.map Int64.toInt)) := by
  have hseed := readSeed_clause (d := d) seed
  have htext : sampleClause (some ⟨n, u, seed⟩) =
      " TABLESAMPLE SYSTEM (" ++ integerText n ++ (u.map SampleUnit.text).getD "" ++ ")" ++
        (seed.map fun n ↦ " REPEATABLE (" ++ integerText n ++ ")").getD "" := rfl
  rw [htext]
  simp only [signs, marks_text, characters_append, List.append_assoc,
    signsFrom_sampling, integerText] at hseed ⊢
  rw [signsFrom_integer _ (endsWord_unit _), readSample, if_pos hd, readInteger_integerSigns]
  simp only [Option.bind_eq_bind, Option.bind_some, readUnit_text hu, hseed]

/-! ### Orders -/

theorem readArgument_integer (n : Int) :
    readArgument (integerSigns n ++ [.symbol ')']) = some (some n) := by
  have hargument : readArgument (integerSigns n ++ [.symbol ')']) =
      match readInteger (integerSigns n ++ [.symbol ')']) with
      | some (n, [.symbol ')']) => some (some n)
      | _ => none := by
    cases n <;> rfl
  rw [hargument, readInteger_integerSigns]
  rfl

theorem readOrder_rand (seed : Option Int64) :
    mySql.readOrder ((text (Order.random "RAND" seed).clause).signs .mySql) =
      some (.random (seed.map Int64.toInt)) := by
  have hopen (ms : List Mark) : signsFrom .mySql .nothing
      (characters " ORDER BY " ++ (characters "RAND" ++ (characters "(" ++ ms))) =
        .word "ORDER" :: .word "BY" :: .word "RAND" :: .symbol '(' ::
          signsFrom .mySql .nothing ms := rfl
  have hclose : signsFrom .mySql .nothing (characters ")") = [.symbol ')'] := rfl
  cases seed with
  | none => rfl
  | some n =>
    simp only [Order.clause, signs, marks_text, characters_append, List.append_assoc,
      hopen, Option.map_some, Option.getD_some, integerText]
    rw [signsFrom_integer _ (endsWord_of_head? rfl rfl), hclose, readOrder, readRandom,
      readArgument_integer]
    rfl

theorem readOrder_random :
    sqlite.readOrder ((text (Order.random "RANDOM" none).clause).signs .sqlite) =
      some (.random none) := by
  have hclause : (Order.random "RANDOM" none).clause = " ORDER BY RANDOM()" := by decide +kernel
  rw [hclause]
  rfl

theorem readTerms_termSigns {terms : List OrderTerm} (hne : terms ≠ []) :
    readTerms (termSigns terms) = some (terms.map fun t ↦ (t.column.name, t.descending)) := by
  induction terms using termSigns.induct with
  | case1 => exact absurd rfl hne
  | case2 t => cases hdescending : t.descending <;> simp [termSigns, OrderTerm.signs, hdescending]
  | case3 t ts hts ih =>
    have hrest := ih (by simpa using hts)
    rw [termSigns]
    · cases hdescending : t.descending <;> simp [OrderTerm.signs, hdescending, hrest]
    · exact hts

theorem readOrder_by {terms : List OrderTerm} (hne : terms ≠ [])
    (h : ∀ t ∈ terms, t.column.quoted = d.quote t.column.name) :
    d.readOrder ((text (Order.by terms).clause).signs d) =
      some (.sorted (terms.map fun t ↦ (t.column.name, t.descending))) := by
  have hname : ∃ name rest, termSigns terms = .name name :: rest := by
    cases terms using termSigns.induct with
    | case1 => exact absurd rfl hne
    | case2 t => exact ⟨_, _, rfl⟩
    | case3 t ts hts => exact ⟨_, _, by rw [termSigns]; rfl; exact hts⟩
  obtain ⟨name, rest, hsigns⟩ := hname
  rw [signs_orderClause h, hsigns, readOrder, ← hsigns, readTerms_termSigns hne]
  · rfl
  · simp

/-! ### Windows -/

variable {skip take : Option Parameter}

/-- The values that parameters, if there are any, are bound to. -/
def integers? (value : Parameter → Value) (p : Option Parameter) : Option (Option Int) :=
  match p with
  | none => some none
  | some p => (value p).integer?.map some

theorem readTake_integer (n : Int) (rest : List Sign) :
    d.readTake value (integerSigns n ++ rest) =
      some (if d.takesAll n then none else some n, rest) := by
  have htake : d.readTake value (integerSigns n ++ rest) =
      (readInteger (integerSigns n ++ rest)).map
        fun r ↦ (if d.takesAll r.1 then none else some r.1, r.2) := by
    cases n <;> rfl
  rw [htake, readInteger_integerSigns, Option.map_some]

theorem readWindow_limit (hd : d = .postgreSql ∨ d = .mySql ∨ d = .sqlite)
    (hp : (value p).integer? = some n) (skip : Option Parameter) :
    d.readWindow value ((Window.clause (.limit (.bound p) skip)).signs d) =
      (integers? value skip).map fun skip ↦ { option := .rows, take := some n, skip } := by
  rw [signs_windowClause, Window.signs, Take.signs, List.cons_append, readWindow_limited _ _ _ hd]
  cases skip with
  | none => simp [hp, integers?]
  | some q => cases hq : (value q).integer? <;> simp [hp, hq, integers?]

theorem readWindow_unlimited (hd : d = .mySql ∨ d = .sqlite) (hn : d.takesAll n)
    (hq : (value q).integer? = some m) :
    d.readWindow value ((Window.clause (.limit (.unlimited n) (some q))).signs d) =
      some { skip := some m } := by
  rw [signs_windowClause, Window.signs, Take.signs, List.cons_append,
    readWindow_limited _ _ _ (.inr hd), readTake_integer, if_pos hn]
  simp [hq]

theorem readWindow_offset (hd : skip ≠ none → d = .postgreSql) :
    d.readWindow value ((Window.clause (.limit .none skip)).signs d) =
      (integers? value skip).map fun skip ↦ { skip } := by
  rw [signs_windowClause]
  cases skip with
  | none => rfl
  | some q =>
    obtain rfl := hd (by simp)
    refine (readWindow_skipped value q).trans ?_
    cases hq : (value q).integer? <;> simp [hq, integers?]

theorem readWindow_next (hq : (value q).integer? = some m) (take : Option Parameter) :
    sqlServer.readWindow value ((Window.clause (.fetch (some q) take false)).signs .sqlServer) =
      (integers? value take).map fun take ↦
        { option := if take.isSome then .rows else .none, take, skip := some m } := by
  rw [signs_windowClause]
  refine (readWindow_skipping sqlServer value q _ (.inl rfl)).trans ?_
  cases take with
  | none => simp [hq, integers?]
  | some p => cases hp : (value p).integer? <;> simp [hq, hp, integers?]

theorem readWindow_ties (hp : (value p).integer? = some n) (skip : Option Parameter) :
    postgreSql.readWindow value ((Window.clause (.fetch skip (some p) true)).signs .postgreSql) =
      (integers? value skip).map fun skip ↦
        { option := .rowsWithTies, take := some n, skip } := by
  rw [signs_windowClause]
  cases skip with
  | none =>
    refine (readWindow_fetching value _).trans ?_
    simp [hp, integers?]
  | some q =>
    refine (readWindow_skipping postgreSql value q _ (.inr rfl)).trans ?_
    cases hq : (value q).integer? <;> simp [hp, hq, integers?]

end Dialect

/-! ### Queries -/

namespace Select

variable {d : Dialect} {value : Parameter → Value} {s : Select}

theorem paging?_eq {top : Option (LimitOption × Int)}
    {sample : Option (LimitOption × Int × Option Int)} {order : RowOrder} {window : Paging}
    (htop : d.readTop value ((topClause s.top).signs d) = some top)
    (hsample : d.readSample ((text (sampleClause s.sample)).signs d) = some sample)
    (horder : s.order? d = some order)
    (hwindow : d.readWindow value (s.window.clause.signs d) = some window) :
    s.paging? d value = combine top sample order window := by
  rw [paging?, htop, hsample, horder, hwindow]
  rfl

theorem readTop_none (h : s.top = none) :
    d.readTop value ((topClause s.top).signs d) = some none := by
  rw [h]
  rfl

theorem readSample_none (h : s.sample = none) :
    d.readSample ((text (sampleClause s.sample)).signs d) = some none := by
  rw [h]
  rfl

theorem readWindow_none (h : s.window = .none) :
    d.readWindow value (s.window.clause.signs d) = some {} := by
  rw [h]
  rfl

/-- The caller's order is read as the terms that it was made with, and is no sample. -/
theorem exists_order? (h : s.order.Plain d) :
    ∃ order, s.order? d = some order ∧ ∀ seed, order ≠ .random seed := by
  rw [order?]
  match horder : s.order with
  | .none => exact ⟨.unordered, rfl, by simp⟩
  | .by terms =>
    rw [horder] at h
    exact ⟨_, Dialect.readOrder_by h.1 h.2, by simp⟩
  | .random function seed =>
    rw [horder] at h
    exact h.elim

/-- How the caller sorts rows does not count for which of them are asked for. -/
theorem paging?_of_plain (horder : s.order.Plain d) {top : Option (LimitOption × Int)}
    {sample : Option (LimitOption × Int × Option Int)} {window : Paging}
    (htop : d.readTop value ((topClause s.top).signs d) = some top)
    (hsample : d.readSample ((text (sampleClause s.sample)).signs d) = some sample)
    (hwindow : d.readWindow value (s.window.clause.signs d) = some window) :
    s.paging? d value = combine top sample .unordered window := by
  obtain ⟨order, hread, hplain⟩ := exists_order? horder
  rw [paging?_eq htop hsample hread hwindow]
  cases order with
  | unordered => rfl
  | sorted terms => cases top <;> cases sample <;> rfl
  | random seed => exact absurd rfl (hplain seed)

theorem paging?_of_top (horder : s.order.Plain d)
    (hsample : s.sample = none) (hwindow : s.window = .none) {option : LimitOption} {n : Int}
    (htop : d.readTop value ((topClause s.top).signs d) = some (some (option, n))) :
    s.paging? d value = some { option, take := some n } := by
  rw [paging?_of_plain horder htop (readSample_none hsample) (readWindow_none hwindow)]
  rfl

theorem paging?_of_sample (horder : s.order.Plain d)
    (htop : s.top = none) (hwindow : s.window = .none) {option : LimitOption} {n : Int}
    {seed : Option Int} (hsample : d.readSample ((text (sampleClause s.sample)).signs d) =
      some (some (option, n, seed))) :
    s.paging? d value = some { option, take := some n, seed } := by
  rw [paging?_of_plain horder (readTop_none htop) hsample (readWindow_none hwindow)]
  rfl

theorem paging?_of_window (horder : s.order.Plain d)
    (htop : s.top = none) (hsample : s.sample = none) {window : Paging}
    (hwindow : d.readWindow value (s.window.clause.signs d) = some window) :
    s.paging? d value = some window := by
  rw [paging?_of_plain horder (readTop_none htop) (readSample_none hsample) hwindow]
  rfl

theorem paging?_of_random {seed : Option Int} (horder : s.order? d = some (.random seed))
    (htop : s.top = none) (hsample : s.sample = none) {n : Int}
    (hwindow : d.readWindow value (s.window.clause.signs d) =
      some { option := .rows, take := some n }) :
    s.paging? d value = some { option := .randomSampleRows, take := some n, seed } := by
  rw [paging?_eq (readTop_none htop) (readSample_none hsample) horder hwindow]
  rfl

end Select

end SchemaSql
