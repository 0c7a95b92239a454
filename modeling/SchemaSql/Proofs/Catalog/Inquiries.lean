import SchemaSql.Proofs.Catalog.Shelf
import SchemaSql.Proofs.Execution.History

/-!
Inquiries of a catalog over a static schema. What the schema itself answers to an inquiry is
`Schema.answer`; a catalog whose cache is sound answers the same, and the inquiry leaves the cache
sound, so that this goes on over every history of inquiries.
-/

set_option autoImplicit false
set_option relaxedAutoImplicit false

namespace SchemaSql

/-- What a catalog may be asked. -/
inductive Inquiry
  | table (name : String)
  | recordTable (typeName : String)
  | indexes (name : String)
  | procedure (name : String)
  | function (name : String)
  | preload
  | reset

inductive Finding
  | table (table : Table)
  | indexes (indexes : List Index)
  | procedure (procedure : Procedure)
  | function (function : TableFunction)
  | done

namespace Inquiry

variable {σ : Type} (tableOf : String → String)

/-- Carries an inquiry out, where `tableOf` tells the tables of record types. -/
def ask : Inquiry → Lookup σ Finding
  | .table n => Finding.table <$> Catalog.table n
  | .recordTable ty => Finding.table <$> Catalog.recordTable ty (tableOf ty)
  | .indexes n => Finding.indexes <$> Catalog.indexes n
  | .procedure n => Finding.procedure <$> Catalog.procedure n
  | .function n => Finding.function <$> Catalog.function n
  | .preload => (fun _ ↦ Finding.done) <$> Catalog.preload
  | .reset => (fun _ ↦ Finding.done) <$> Catalog.reset

/-- The name that an inquiry asks for, if it asks for one. -/
def name? : Inquiry → Option String
  | .table n | .indexes n | .procedure n | .function n => some n
  | .recordTable ty => some (tableOf ty)
  | .preload | .reset => none

/-- The inquiry asks for one of certain names, or for none. -/
def Within (names : String → Prop) (q : Inquiry) : Prop := ∀ n, q.name? tableOf = some n → names n

/-- A catalog and its database after inquiries, some of which may have failed. -/
def after (history : List Inquiry) (s : Catalog σ × σ) : Catalog σ × σ :=
  history.foldl (fun s q ↦ Action.left (q.ask tableOf) s) s

end Inquiry

/-! ### Answers of actions -/

namespace Action

variable {σ α β : Type}

/-- The result of an action without the state that it leaves. -/
def answer (a : Action σ α) (x : σ) : Except Error α :=
  match a x with
  | .ok v _ => .ok v
  | .error e _ => .error e

theorem answer_map (g : α → β) (a : Action σ α) (x : σ) :
    answer (g <$> a) x = (answer a x).map g := by
  simp only [answer, Functor.map, EStateM.map]
  cases a x <;> rfl

theorem apply_of_answer_ok {a : Action σ α} {x : σ} {v : α} (h : answer a x = .ok v) :
    a x = .ok v (left a x) := by
  rw [answer] at h
  rw [left]
  split at h
  · rename_i w y hx
    obtain rfl := Except.ok.inj h
    rw [hx]
  · cases h

theorem apply_of_answer_error {a : Action σ α} {x : σ} {e : Error} (h : answer a x = .error e) :
    a x = .error e (left a x) := by
  rw [answer] at h
  rw [left]
  split at h
  · cases h
  · rename_i e' y hx
    obtain rfl := Except.error.inj h
    rw [hx]

theorem discard_of_ok {a : Action σ α} {v : α} {x y : σ} (h : a x = .ok v y) :
    (discard a : Action σ PUnit) x = .ok ⟨⟩ y := by
  simp [discard, Functor.discard, Functor.mapConst, EStateM.map, h]

theorem bind_of_answer_ok {a : Action σ α} {x : σ} {v : α} (k : α → Action σ β)
    (h : answer a x = .ok v) : (a >>= k) x = k v (left a x) :=
  Connection.bind_of_ok k (apply_of_answer_ok h)

end Action

/-! ### Finding a name -/

/-- What is found under a name is on the shelf, or else it is what the source reports. -/
theorem Catalog.find_apply {σ α : Type} {shelf : Cache → Shelf α}
    {withShelf : Cache → Shelf α → Cache} {nameOf : α → ObjectName}
    {question : SchemaSource σ → ObjectName → Action σ (Option α)} (k : ObjectName)
    (cat : Catalog σ) (x : σ) :
    find shelf withShelf nameOf question k (cat, x) =
      match (shelf cat.cache).get? k with
      | some a => .ok (some a) (cat, x)
      | none =>
        match question cat.source k x with
        | .error e y => .error e (cat, y)
        | .ok none y => .ok none (cat, y)
        | .ok (some a) y =>
          let (kept, a) := (shelf cat.cache).store [k, nameOf a] a
          .ok (some a) ({ cat with cache := withShelf cat.cache kept }, y) := by
  have hlook : cache? (fun c ↦ (shelf c).get? k) (cat, x) =
      .ok ((shelf cat.cache).get? k) (cat, x) := rfl
  rw [find, Connection.bind_of_ok _ hlook]
  cases (shelf cat.cache).get? k with
  | some a => rfl
  | none =>
    dsimp only
    cases hrun : question cat.source k x with
    | error e y =>
      have hask : ask (fun s ↦ question s k) (cat, x) = .error e (cat, y) := by rw [ask, hrun]
      exact Connection.bind_of_error _ hask
    | ok found y =>
      have hask : ask (fun s ↦ question s k) (cat, x) = .ok found (cat, y) := by rw [ask, hrun]
      rw [Connection.bind_of_ok _ hask]
      cases found <;> rfl

/-! ### Catalogs of a schema -/

/-- What is reported under a written name, of which nothing may be known. -/
def reported {α : Type} (kind : ObjectKind) (name : String) (found : Option α) : Except Error α :=
  match found with
  | some a => .ok a
  | none => .error (.missingObject kind name)

/-- What a list has under a written name, in the default schema if it names none. -/
def Schema.named {α : Type} (kind : ObjectKind) (nameOf : α → ObjectName) (items : List α)
    (schema : Option String) (name : String) : Except Error α :=
  (ObjectName.parse name).bind fun n ↦
    reported kind name (lookup? nameOf items (n.orSchema schema))

theorem Schema.mem_of_named {α : Type} {kind : ObjectKind} {nameOf : α → ObjectName}
    {items : List α} {schema : Option String} {name : String} {a : α}
    (h : named kind nameOf items schema name = .ok a) : a ∈ items := by
  rw [named] at h
  cases hparse : ObjectName.parse name with
  | error e =>
    rw [hparse] at h
    cases h
  | ok n =>
    rw [hparse, Except.bind] at h
    cases hfound : lookup? nameOf items (n.orSchema schema) with
    | none =>
      rw [hfound] at h
      cases h
    | some b =>
      rw [hfound] at h
      obtain rfl := Except.ok.inj h
      exact mem_of_lookup? hfound

/-- What the names that are asked for stand for. -/
def Asked (names : String → Prop) (schema : Option String) (k : ObjectName) : Prop :=
  ∃ n m, names n ∧ ObjectName.parse n = .ok m ∧ m.orSchema schema = k

section Seen

variable {σ : Type} (S : Schema) (d : Dialect) (schema : Option String) (x : σ)

/-- A catalog of a schema with a cache. -/
def Schema.seen (c : Cache) : Catalog σ × σ := (⟨d, schema, S.source, c⟩, x)

/-- What the schema answers to an inquiry. -/
def Schema.answer (tableOf : String → String) : Inquiry → Except Error Finding
  | .table n => (named .tableOrView (·.name) S.tables schema n).map .table
  | .recordTable ty => (named .tableOrView (·.name) S.tables schema (tableOf ty)).map .table
  | .indexes n =>
    ((named .tableOrView (·.name) S.tables schema n).bind fun t ↦
      .ok (S.tableIndexes t.name)).map .indexes
  | .procedure n =>
    (if d.supportsProcedures then named .procedure (·.name) S.procedures schema n
      else .error (.unsupported d .storedProcedures)).map .procedure
  | .function n =>
    (if d.supportsTableFunctions then named .tableFunction (·.name) S.functions schema n
      else .error (.unsupported d .tableFunctions)).map .function
  | .preload | .reset => .ok .done

variable {S d schema x}

theorem Catalog.remember_seen {α : Type} (f : Cache → Cache × α) (c : Cache) :
    remember f (S.seen d schema x c) = .ok (f c).2 (S.seen d schema x (f c).1) :=
  rfl

/-- Finding a name fetches it on its shelf. -/
theorem Catalog.find_seen {α : Type} {shelf : Cache → Shelf α}
    {withShelf : Cache → Shelf α → Cache} {nameOf : α → ObjectName}
    {question : SchemaSource σ → ObjectName → Action σ (Option α)} {items : List α}
    (hshelf : ∀ c, withShelf c (shelf c) = c)
    (hquestion : ∀ k, question S.source k = pure (Schema.lookup? nameOf items k)) (c : Cache)
    (k : ObjectName) :
    find shelf withShelf nameOf question k (S.seen d schema x c) =
      .ok ((shelf c).fetch nameOf items k).2
        (S.seen d schema x (withShelf c ((shelf c).fetch nameOf items k).1)) := by
  rw [Schema.seen, find_apply, hquestion, Shelf.fetch]
  cases (shelf c).get? k with
  | some a =>
    simp only [hshelf]
    rfl
  | none =>
    cases Schema.lookup? nameOf items k with
    | none =>
      simp only [hshelf]
      rfl
    | some a => rfl

theorem Catalog.findTable_seen (c : Cache) (k : ObjectName) :
    findTable k (S.seen d schema x c) = .ok (c.tables.fetch (·.name) S.tables k).2
      (S.seen d schema x { c with tables := (c.tables.fetch (·.name) S.tables k).1 }) :=
  find_seen (fun _ ↦ rfl) (fun _ ↦ rfl) c k

theorem Catalog.findProcedure_seen (c : Cache) (k : ObjectName) :
    findProcedure k (S.seen d schema x c) = .ok (c.procedures.fetch (·.name) S.procedures k).2
      (S.seen d schema x { c with procedures := (c.procedures.fetch (·.name) S.procedures k).1 }) :=
  find_seen (fun _ ↦ rfl) (fun _ ↦ rfl) c k

theorem Catalog.findFunction_seen (c : Cache) (k : ObjectName) :
    findFunction k (S.seen d schema x c) = .ok (c.functions.fetch (·.name) S.functions k).2
      (S.seen d schema x { c with functions := (c.functions.fetch (·.name) S.functions k).1 }) :=
  find_seen (fun _ ↦ rfl) (fun _ ↦ rfl) c k

/-! ### Lookups by name -/

/-- The report that a finder has under a written name. -/
def Catalog.lookUp {α : Type} (kind : ObjectKind) (finder : ObjectName → Lookup σ (Option α))
    (name : String) : Lookup σ α := do
  let key ← resolve name
  required kind name (← finder key)

theorem Catalog.resolve_apply (name : String) (st : Catalog σ × σ) :
    resolve name st =
      match ObjectName.parse name with
      | .ok n => .ok (n.orSchema st.1.defaultSchema) st
      | .error e => .error e st := by
  rw [resolve]
  cases ObjectName.parse name <;> rfl

theorem Catalog.resolve_seen (name : String) (c : Cache) :
    resolve name (S.seen d schema x c) =
      match ObjectName.parse name with
      | .ok n => .ok (n.orSchema schema) (S.seen d schema x c)
      | .error e => .error e (S.seen d schema x c) :=
  resolve_apply name _

/-- What a dialect may not support is refused or goes on as it is. -/
theorem Catalog.guarded_apply {α : Type} (supports : Dialect → Bool) (feature : Feature)
    (l : Lookup σ α) (st : Catalog σ × σ) :
    (do
      let d := (← get).1.dialect
      if supports d then l else throw (.unsupported d feature) : Lookup σ α) st =
      if supports st.1.dialect then l st else .error (.unsupported st.1.dialect feature) st := by
  have hget : (get : Lookup σ _) st = .ok st st := rfl
  rw [Connection.bind_of_ok _ hget]
  by_cases hd : supports st.1.dialect
  · exact (congrFun (if_pos hd) _).trans (if_pos hd).symm
  · exact (congrFun (if_neg hd) _).trans (if_neg hd).symm

theorem Catalog.procedure_apply (name : String) (st : Catalog σ × σ) :
    procedure name st =
      if st.1.dialect.supportsProcedures then lookUp .procedure findProcedure name st
      else .error (.unsupported st.1.dialect .storedProcedures) st :=
  guarded_apply Dialect.supportsProcedures .storedProcedures _ st

theorem Catalog.function_apply (name : String) (st : Catalog σ × σ) :
    function name st =
      if st.1.dialect.supportsTableFunctions then lookUp .tableFunction findFunction name st
      else .error (.unsupported st.1.dialect .tableFunctions) st :=
  guarded_apply Dialect.supportsTableFunctions .tableFunctions _ st

theorem Catalog.procedure_seen (name : String) (c : Cache) :
    procedure name (S.seen d schema x c) =
      if d.supportsProcedures then lookUp .procedure findProcedure name (S.seen d schema x c)
      else .error (.unsupported d .storedProcedures) (S.seen d schema x c) :=
  procedure_apply name _

theorem Catalog.function_seen (name : String) (c : Cache) :
    function name (S.seen d schema x c) =
      if d.supportsTableFunctions then lookUp .tableFunction findFunction name (S.seen d schema x c)
      else .error (.unsupported d .tableFunctions) (S.seen d schema x c) :=
  function_apply name _

section Yields

variable {α β : Type} {P : Cache → Prop} {l : Lookup σ α} {c : Cache} {r : Except Error α}

variable (S d schema x) in
/-- From a cache an action answers this, and leaves a cache with the property. -/
def Yields (P : Cache → Prop) (l : Lookup σ α) (c : Cache) (r : Except Error α) : Prop :=
  ∃ c', P c' ∧ Action.answer l (S.seen d schema x c) = r ∧
    Action.left l (S.seen d schema x c) = S.seen d schema x c'

theorem Yields.of_ok {a : α} {c' : Cache} (hc' : P c')
    (h : l (S.seen d schema x c) = .ok a (S.seen d schema x c')) :
    Yields S d schema x P l c (.ok a) :=
  ⟨c', hc', by rw [Action.answer, h], Action.left_of_ok h⟩

theorem Yields.of_error {e : Error} {c' : Cache} (hc' : P c')
    (h : l (S.seen d schema x c) = .error e (S.seen d schema x c')) :
    Yields S d schema x P l c (.error e) :=
  ⟨c', hc', by rw [Action.answer, h], Action.left_of_error h⟩

theorem Yields.congr {l' : Lookup σ α} (h : Yields S d schema x P l' c r)
    (hl : l (S.seen d schema x c) = l' (S.seen d schema x c)) : Yields S d schema x P l c r := by
  rw [Yields, Action.answer, Action.left, hl]
  exact h

theorem Yields.guarded {l' : Lookup σ α} {supported : Bool} {e : Error} (hc : P c)
    (hl : l (S.seen d schema x c) =
      if supported then l' (S.seen d schema x c) else .error e (S.seen d schema x c))
    (h : supported → Yields S d schema x P l' c r) :
    Yields S d schema x P l c (if supported then r else .error e) := by
  split at hl
  · rename_i hsupported
    rw [if_pos hsupported]
    exact (h hsupported).congr hl
  · rename_i hsupported
    rw [if_neg hsupported]
    exact .of_error hc hl

theorem Yields.map (h : Yields S d schema x P l c r) (g : α → β) :
    Yields S d schema x P (g <$> l) c (r.map g) := by
  obtain ⟨c', hc', hanswer, hleft⟩ := h
  refine ⟨c', hc', ?_, ?_⟩
  · rw [Action.answer_map, hanswer]
  · rw [Action.left_map, hleft]

theorem Yields.bind {k : α → Lookup σ β} {f : α → Except Error β}
    (h : Yields S d schema x P l c r)
    (hk : ∀ a c', r = .ok a → P c' → Yields S d schema x P (k a) c' (f a)) :
    Yields S d schema x P (l >>= k) c (r.bind f) := by
  obtain ⟨c', hc', hanswer, hleft⟩ := h
  cases r with
  | error e =>
    have herror := Action.apply_of_answer_error hanswer
    rw [hleft] at herror
    exact .of_error hc' (Connection.bind_of_error k herror)
  | ok a =>
    obtain ⟨c'', hc'', hanswer', hleft'⟩ := hk a c' rfl hc'
    have hbind := Action.bind_of_answer_ok k hanswer
    rw [hleft] at hbind
    refine ⟨c'', hc'', ?_, ?_⟩
    · rw [Action.answer, hbind, ← Action.answer, hanswer']
      rfl
    · rw [Action.left, hbind, ← Action.left, hleft']

section LookUp

variable (kind : ObjectKind) {finder : ObjectName → Lookup σ (Option α)} {shelf : Cache → Shelf α}
  (withShelf : Cache → Shelf α → Cache) {nameOf : α → ObjectName} {items : List α}
  (hfinder : ∀ c k, finder k (S.seen d schema x c) = .ok ((shelf c).fetch nameOf items k).2
    (S.seen d schema x (withShelf c ((shelf c).fetch nameOf items k).1)))
include hfinder

/-- A lookup by name fetches what the name stands for and reports it. -/
theorem Catalog.lookUp_seen {name : String} {n : ObjectName}
    (hparse : ObjectName.parse name = .ok n) (c : Cache) :
    Action.answer (lookUp kind finder name) (S.seen d schema x c) =
        reported kind name ((shelf c).fetch nameOf items (n.orSchema schema)).2 ∧
      Action.left (lookUp kind finder name) (S.seen d schema x c) =
        S.seen d schema x (withShelf c ((shelf c).fetch nameOf items (n.orSchema schema)).1) := by
  have hresolve : resolve name (S.seen d schema x c) =
      .ok (n.orSchema schema) (S.seen d schema x c) := by
    rw [resolve_seen, hparse]
  have hrun : lookUp kind finder name (S.seen d schema x c) =
      required kind name ((shelf c).fetch nameOf items (n.orSchema schema)).2
        (S.seen d schema x
          (withShelf c ((shelf c).fetch nameOf items (n.orSchema schema)).1)) :=
    (Connection.bind_of_ok _ hresolve).trans (Connection.bind_of_ok _ (hfinder c _))
  rw [Action.answer, Action.left, hrun]
  cases ((shelf c).fetch nameOf items (n.orSchema schema)).2 <;> exact ⟨rfl, rfl⟩

/-- A lookup by name answers what the list has, if what is fetched is what the list has. -/
theorem Catalog.lookUp_yields {name : String} (hc : P c)
    (hfetch : ∀ n, ObjectName.parse name = .ok n →
      ((shelf c).fetch nameOf items (n.orSchema schema)).2 =
          Schema.lookup? nameOf items (n.orSchema schema) ∧
        P (withShelf c ((shelf c).fetch nameOf items (n.orSchema schema)).1)) :
    Yields S d schema x P (lookUp kind finder name) c
      (Schema.named kind nameOf items schema name) := by
  rw [Schema.named]
  cases hparse : ObjectName.parse name with
  | error e =>
    have hresolve : resolve name (S.seen d schema x c) = .error e (S.seen d schema x c) := by
      rw [resolve_seen, hparse]
    exact .of_error hc (Connection.bind_of_error _ hresolve)
  | ok n =>
    obtain ⟨hanswer, hleft⟩ := lookUp_seen kind withShelf hfinder hparse c
    obtain ⟨hfound, hkept⟩ := hfetch n hparse
    refine ⟨_, hkept, ?_, hleft⟩
    rw [hanswer, hfound]
    rfl

end LookUp

end Yields

/-! ### Preloading -/

variable (S d) in
/-- What a catalog keeps after it has looked an object up, if the dialect can use it. -/
def Schema.loaded (c : Cache) (o : SchemaObject) : Cache :=
  match o.kind with
  | .table | .view | .tableOrView =>
    { c with tables := (c.tables.fetch (·.name) S.tables o.name).1 }
  | .procedure =>
    if d.supportsProcedures then
      { c with procedures := (c.procedures.fetch (·.name) S.procedures o.name).1 }
    else c
  | .tableFunction =>
    if d.supportsTableFunctions then
      { c with functions := (c.functions.fetch (·.name) S.functions o.name).1 }
    else c

theorem Catalog.preloadAll_seen (os : List SchemaObject) (c : Cache) :
    preloadAll os (S.seen d schema x c) =
      .ok () (S.seen d schema x (os.foldl (S.loaded d) c)) := by
  induction os generalizing c with
  | nil => rfl
  | cons o os ih =>
    rw [List.foldl_cons, ← ih]
    have hget : (get : Lookup σ _) (S.seen d schema x c) =
      .ok (S.seen d schema x c) (S.seen d schema x c) := rfl
    have hdialect : (S.seen d schema x c).1.dialect = d := rfl
    rw [preloadAll, Connection.bind_of_ok _ hget, Schema.loaded]
    cases hkind : o.kind with
    | table | view | tableOrView =>
      exact Connection.bind_of_ok _ (Action.discard_of_ok (findTable_seen c o.name))
    | procedure =>
      by_cases hd : d.supportsProcedures
      · simp only [hdialect, if_pos hd]
        exact Connection.bind_of_ok _ (Action.discard_of_ok (findProcedure_seen c o.name))
      · simp only [hdialect, if_neg hd]
    | tableFunction =>
      by_cases hd : d.supportsTableFunctions
      · simp only [hdialect, if_pos hd]
        exact Connection.bind_of_ok _ (Action.discard_of_ok (findFunction_seen c o.name))
      · simp only [hdialect, if_neg hd]

theorem Catalog.preload_seen (c : Cache) :
    preload (S.seen d schema x c) =
      .ok () (S.seen d schema x (S.objects.foldl (S.loaded d) c)) := by
  have hobjects : objects (S.seen d schema x c) = .ok S.objects (S.seen d schema x c) := rfl
  rw [preload, Connection.bind_of_ok _ hobjects, preloadAll_seen]

/-! ### Sound caches -/

/-- What a catalog of a schema may keep when only certain names are asked for: on its shelves what
the schema has, indexes under the own names of their tables, and for a record type the table that
the schema has for it. -/
structure Cache.Sound (S : Schema) (schema : Option String) (tableOf : String → String)
    (names : String → Prop) (c : Cache) : Prop where
  tables : c.tables.Faithful (·.name) S.tables (WithOwn (·.name) S.tables (Asked names schema))
  procedures : c.procedures.Faithful (·.name) S.procedures
    (WithOwn (·.name) S.procedures (Asked names schema))
  functions : c.functions.Faithful (·.name) S.functions
    (WithOwn (·.name) S.functions (Asked names schema))
  indexes : ∀ e ∈ c.indexes, (∃ t ∈ S.tables, t.name = e.1) ∧ e.2 = S.tableIndexes e.1
  recordTables : ∀ e ∈ c.recordTables,
    Schema.named .tableOrView (·.name) S.tables schema (tableOf e.1) = .ok e.2

/-- The lists of a schema are steady under the names that a catalog of it may be asked for. -/
structure Schema.SteadyUnder (S : Schema) (d : Dialect) (names : ObjectName → Prop) : Prop where
  tables : Steady (·.name) S.tables names
  procedures : d.supportsProcedures → Steady (·.name) S.procedures names
  functions : d.supportsTableFunctions → Steady (·.name) S.functions names

section Sound

variable {tableOf : String → String} {names : String → Prop} {c : Cache}

theorem Cache.Sound.empty : Cache.Sound S schema tableOf names {} :=
  ⟨.nil, .nil, .nil, by simp, by simp⟩

variable (hS : S.SteadyUnder d (Asked names schema)) (hc : c.Sound S schema tableOf names)
include hS hc

/-- A sound cache stays sound when a table is fetched that is asked for or borne by the schema, and
the schema's table is what is found. -/
theorem Cache.Sound.fetchTable {k : ObjectName}
    (hk : WithOwn (·.name) S.tables (Asked names schema) k) :
    (c.tables.fetch (·.name) S.tables k).2 = S.table? k ∧ Cache.Sound S schema tableOf names
      { c with tables := (c.tables.fetch (·.name) S.tables k).1 } := by
  obtain ⟨hfound, hkept⟩ := hc.tables.fetch hS.tables.withOwn (fun a ha ↦ .inr ⟨a, ha, rfl⟩) hk
  exact ⟨hfound, { hc with tables := hkept }⟩

theorem Cache.Sound.fetchProcedure (hd : d.supportsProcedures) {k : ObjectName}
    (hk : WithOwn (·.name) S.procedures (Asked names schema) k) :
    (c.procedures.fetch (·.name) S.procedures k).2 = S.procedure? k ∧
      Cache.Sound S schema tableOf names
        { c with procedures := (c.procedures.fetch (·.name) S.procedures k).1 } := by
  obtain ⟨hfound, hkept⟩ :=
    hc.procedures.fetch (hS.procedures hd).withOwn (fun a ha ↦ .inr ⟨a, ha, rfl⟩) hk
  exact ⟨hfound, { hc with procedures := hkept }⟩

theorem Cache.Sound.fetchFunction (hd : d.supportsTableFunctions) {k : ObjectName}
    (hk : WithOwn (·.name) S.functions (Asked names schema) k) :
    (c.functions.fetch (·.name) S.functions k).2 = S.function? k ∧
      Cache.Sound S schema tableOf names
        { c with functions := (c.functions.fetch (·.name) S.functions k).1 } := by
  obtain ⟨hfound, hkept⟩ :=
    hc.functions.fetch (hS.functions hd).withOwn (fun a ha ↦ .inr ⟨a, ha, rfl⟩) hk
  exact ⟨hfound, { hc with functions := hkept }⟩

/-- Looking up an object of the schema leaves a cache sound. -/
theorem Cache.Sound.loaded {o : SchemaObject} (ho : o ∈ S.objects) :
    Cache.Sound S schema tableOf names (S.loaded d c o) := by
  simp only [Schema.objects, List.mem_append, List.mem_map] at ho
  rcases ho with (⟨t, ht, rfl⟩ | ⟨p, hp, rfl⟩) | ⟨f, hf, rfl⟩
  · have hfetched := (hc.fetchTable hS (.inr ⟨t, ht, rfl⟩)).2
    rw [Schema.loaded]
    cases t.isTable <;> exact hfetched
  · simp only [Schema.loaded]
    split
    · rename_i hd
      exact (hc.fetchProcedure hS hd (.inr ⟨p, hp, rfl⟩)).2
    · exact hc
  · simp only [Schema.loaded]
    split
    · rename_i hd
      exact (hc.fetchFunction hS hd (.inr ⟨f, hf, rfl⟩)).2
    · exact hc

theorem table_yields {n : String} (hn : names n) :
    Yields S d schema x (Cache.Sound S schema tableOf names) (Catalog.table n) c
      (Schema.named .tableOrView (·.name) S.tables schema n) :=
  Catalog.lookUp_yields _ (fun c tables ↦ { c with tables }) Catalog.findTable_seen hc fun m hm ↦
    hc.fetchTable hS (.inl ⟨n, m, hn, hm, rfl⟩)

theorem procedure_yields {n : String} (hn : names n) :
    Yields S d schema x (Cache.Sound S schema tableOf names) (Catalog.procedure n) c
      (if d.supportsProcedures then Schema.named .procedure (·.name) S.procedures schema n
        else .error (.unsupported d .storedProcedures)) :=
  .guarded hc (Catalog.procedure_seen n c) fun hd ↦
    Catalog.lookUp_yields _ (fun c procedures ↦ { c with procedures }) Catalog.findProcedure_seen hc
      fun m hm ↦ hc.fetchProcedure hS hd (.inl ⟨n, m, hn, hm, rfl⟩)

theorem function_yields {n : String} (hn : names n) :
    Yields S d schema x (Cache.Sound S schema tableOf names) (Catalog.function n) c
      (if d.supportsTableFunctions then Schema.named .tableFunction (·.name) S.functions schema n
        else .error (.unsupported d .tableFunctions)) :=
  .guarded hc (Catalog.function_seen n c) fun hd ↦
    Catalog.lookUp_yields _ (fun c functions ↦ { c with functions }) Catalog.findFunction_seen hc
      fun m hm ↦ hc.fetchFunction hS hd (.inl ⟨n, m, hn, hm, rfl⟩)

theorem recordTable_yields {ty : String} (hn : names (tableOf ty)) :
    Yields S d schema x (Cache.Sound S schema tableOf names)
      (Catalog.recordTable ty (tableOf ty)) c
      (Schema.named .tableOrView (·.name) S.tables schema (tableOf ty)) := by
  have hlook : Catalog.cache? (fun c ↦ c.recordTables.lookup ty) (S.seen d schema x c) =
    .ok (c.recordTables.lookup ty) (S.seen d schema x c) := rfl
  refine .congr ?_ (Connection.bind_of_ok _ hlook)
  cases hkept : c.recordTables.lookup ty with
  | some t =>
    obtain ⟨before, after, hentries, -⟩ := List.lookup_eq_some_iff.mp hkept
    have hmem : (ty, t) ∈ c.recordTables := hentries ▸ List.mem_append_right _ List.mem_cons_self
    rw [hc.recordTables _ hmem]
    exact .of_ok hc rfl
  | none =>
    have hbind (r : Except Error Table) : r = r.bind .ok := by cases r <;> rfl
    rw [hbind (Schema.named _ _ _ _ _)]
    refine (table_yields hS hc hn).bind fun t c' ht hc' ↦ ?_
    have hsound : Cache.Sound S schema tableOf names
        { c' with recordTables := c'.recordTables ++ [(ty, t)] } :=
      { hc' with
        recordTables := by
          intro e he
          rcases List.mem_append.mp he with he | he
          · exact hc'.recordTables e he
          · rw [List.mem_singleton.mp he]
            exact ht }
    exact .of_ok hsound rfl

/-- The indexes of a table are found under its own name. -/
theorem indexes_yields {n : String} (hn : names n) :
    Yields S d schema x (Cache.Sound S schema tableOf names) (Catalog.indexes n) c
      ((Schema.named .tableOrView (·.name) S.tables schema n).bind fun t ↦
        .ok (S.tableIndexes t.name)) := by
  refine (table_yields hS hc hn).bind fun t c' ht hc' ↦ ?_
  have hmem : t ∈ S.tables := Schema.mem_of_named ht
  have hlook : Catalog.cache? (fun c ↦ c.indexes.get? t.name) (S.seen d schema x c') =
    .ok (c'.indexes.get? t.name) (S.seen d schema x c') := rfl
  refine .congr ?_ (Connection.bind_of_ok _ hlook)
  cases hkept : c'.indexes.get? t.name with
  | some found =>
    obtain ⟨e, he, hsame, rfl⟩ := Shelf.exists_of_get? hkept
    obtain ⟨⟨u, hu, hkey⟩, hfound⟩ := hc'.indexes e he
    have htables : S.table? e.1 = S.table? t.name := Schema.lookup?_of_same_own hmem hsame
    rw [hfound, Schema.tableIndexes, htables, ← Schema.tableIndexes]
    exact .of_ok hc' rfl
  | none =>
    have hsound : Cache.Sound S schema tableOf names
        { c' with indexes := c'.indexes.keep t.name (S.tableIndexes t.name) } :=
      { hc' with
        indexes := by
          intro e he
          rcases Shelf.mem_keep he with he | rfl
          · exact hc'.indexes e he
          · exact ⟨⟨t, hmem, rfl⟩, rfl⟩ }
    have hask : Catalog.ask (fun s ↦ s.indexes t.name) (S.seen d schema x c') =
      .ok (S.tableIndexes t.name) (S.seen d schema x c') := rfl
    refine .of_ok hsound ((Connection.bind_of_ok _ hask).trans ?_)
    rw [Catalog.remember_seen]
    simp only [Shelf.store_single hkept]

theorem preload_yields :
    Yields S d schema x (Cache.Sound S schema tableOf names) Catalog.preload c (.ok ()) := by
  have hrun (os : List SchemaObject) (hos : ∀ o ∈ os, o ∈ S.objects) {c : Cache}
      (hc : c.Sound S schema tableOf names) :
      Cache.Sound S schema tableOf names (os.foldl (S.loaded d) c) := by
    induction os generalizing c with
    | nil => exact hc
    | cons o os ih =>
      obtain ⟨ho, hos⟩ := List.forall_mem_cons.mp hos
      exact ih hos (hc.loaded hS ho)
  exact .of_ok (hrun S.objects (fun _ h ↦ h) hc) (Catalog.preload_seen c)

/-- From a sound cache an inquiry is answered as the schema answers it, and the cache stays
sound. -/
theorem Inquiry.ask_yields {q : Inquiry} (hq : q.Within tableOf names) :
    Yields S d schema x (Cache.Sound S schema tableOf names) (q.ask tableOf) c
      (S.answer d schema tableOf q) := by
  cases q with
  | table n => exact (table_yields hS hc (hq n rfl)).map _
  | recordTable ty => exact (recordTable_yields hS hc (hq _ rfl)).map _
  | indexes n => exact (indexes_yields hS hc (hq n rfl)).map _
  | procedure n => exact (procedure_yields hS hc (hq n rfl)).map _
  | function n => exact (function_yields hS hc (hq n rfl)).map _
  | preload => exact (preload_yields hS hc).map _
  | reset => exact .of_ok .empty rfl

end Sound

/-- After every history of inquiries a cache is sound. -/
theorem Inquiry.after_sound {tableOf : String → String} {names : String → Prop}
    (hS : S.SteadyUnder d (Asked names schema)) {history : List Inquiry}
    (hhistory : ∀ q ∈ history, q.Within tableOf names) {c : Cache}
    (hc : c.Sound S schema tableOf names) :
    ∃ c', Cache.Sound S schema tableOf names c' ∧
      after tableOf history (S.seen d schema x c) = S.seen d schema x c' := by
  induction history generalizing c with
  | nil => exact ⟨c, hc, rfl⟩
  | cons q history ih =>
    obtain ⟨hq, hhistory⟩ := List.forall_mem_cons.mp hhistory
    obtain ⟨c', hc', -, hleft⟩ := ask_yields (x := x) hS hc hq
    obtain ⟨c'', hc'', hafter⟩ := ih hhistory hc'
    refine ⟨c'', hc'', ?_⟩
    rw [after, List.foldl_cons, hleft, ← after, hafter]

/-- After every history of inquiries an inquiry is answered as the schema answers it. -/
theorem Inquiry.answer_after {tableOf : String → String} {names : String → Prop}
    (hS : S.SteadyUnder d (Asked names schema)) {history : List Inquiry}
    (hhistory : ∀ q ∈ history, q.Within tableOf names) {next : Inquiry}
    (hnext : next.Within tableOf names) :
    Action.answer (next.ask tableOf) (after tableOf history (S.seen d schema x {})) =
      S.answer d schema tableOf next := by
  obtain ⟨c, hc, hafter⟩ := after_sound (x := x) hS hhistory .empty
  obtain ⟨-, -, hanswer, -⟩ := ask_yields (x := x) hS hc hnext
  rw [hafter, hanswer]

end Seen

end SchemaSql
