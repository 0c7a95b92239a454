import SchemaSql.Proofs.Catalog.Inquiries

/-!
Preloading twice. A source whose answers do not change is told by them, and what loading an object
comes to is a function of the answers and of the cache: whether it fails, what is kept, and which
questions are asked. The cache only grows, and what was loaded once is kept under the name that it
was asked for, whatever name it was reported with. So a second run over the same objects changes
nothing and fails where the first one failed, and asks again only for objects of which nothing was
reported.
-/

set_option autoImplicit false
set_option relaxedAutoImplicit false

namespace SchemaSql

/-! ### Questions and answers -/

/-- What a catalog may ask its source. -/
inductive Question
  | objects
  | table (name : ObjectName)
  | indexes (table : ObjectName)
  | procedure (name : ObjectName)
  | function (name : ObjectName)
deriving DecidableEq

/-- What a source answers to every question. -/
structure Answers where
  objects : Except Error (List SchemaObject)
  table : ObjectName → Except Error (Option Table)
  indexes : ObjectName → Except Error (List Index)
  procedure : ObjectName → Except Error (Option Procedure)
  function : ObjectName → Except Error (Option TableFunction)

/-- The question is about an object, and the answer is nothing or an error. -/
def Answers.Lack (A : Answers) : Question → Prop
  | .table n => ∀ t, A.table n ≠ .ok (some t)
  | .procedure n => ∀ p, A.procedure n ≠ .ok (some p)
  | .function n => ∀ f, A.function n ≠ .ok (some f)
  | .objects | .indexes _ => False

namespace SchemaSource

variable {σ α : Type}

/-- The answers of a source in a state of its database. -/
def answers (S : SchemaSource σ) (x : σ) : Answers where
  objects := Action.answer S.objects x
  table n := Action.answer (S.table n) x
  indexes n := Action.answer (S.indexes n) x
  procedure n := Action.answer (S.procedure n) x
  function n := Action.answer (S.function n) x

/-- The answers of the source do not change. -/
def Steady (S : SchemaSource σ) : Prop := ∀ x y, S.answers x = S.answers y

/-- The action of asking a question, which is noted behind those that were asked before. -/
def noted (q : Question) (a : Action σ α) : Action (σ × List Question) α := fun (x, asked) ↦
  match a x with
  | .ok v y => .ok v (y, asked ++ [q])
  | .error e y => .error e (y, asked ++ [q])

/-- The source with a note of every question that it is asked. -/
def noting (S : SchemaSource σ) : SchemaSource (σ × List Question) where
  objects := noted .objects S.objects
  table n := noted (.table n) (S.table n)
  indexes n := noted (.indexes n) (S.indexes n)
  procedure n := noted (.procedure n) (S.procedure n)
  function n := noted (.function n) (S.function n)

/-- A source that always gives certain answers, and in whose states it can be told which questions
it was asked. -/
structure Follows (S : SchemaSource σ) (A : Answers) (tells : σ → List Question → Prop) : Prop where
  answers : ∀ x, S.answers x = A
  objects : ∀ x asked, tells x asked → tells (Action.left S.objects x) (asked ++ [.objects])
  table : ∀ n x asked, tells x asked → tells (Action.left (S.table n) x) (asked ++ [.table n])
  procedure : ∀ n x asked, tells x asked →
    tells (Action.left (S.procedure n) x) (asked ++ [.procedure n])
  function : ∀ n x asked, tells x asked →
    tells (Action.left (S.function n) x) (asked ++ [.function n])

/-- Nothing is told of the questions that a source does not note. -/
theorem Steady.follows {S : SchemaSource σ} (h : S.Steady) (x : σ) :
    S.Follows (S.answers x) fun _ _ ↦ True where
  answers y := h y x
  objects _ _ _ := trivial
  table _ _ _ _ := trivial
  procedure _ _ _ _ := trivial
  function _ _ _ _ := trivial

theorem answer_noted (q : Question) (a : Action σ α) (x : σ × List Question) :
    Action.answer (noted q a) x = Action.answer a x.1 := by
  simp only [Action.answer, noted]
  cases a x.1 <;> rfl

theorem left_noted (q : Question) (a : Action σ α) (x : σ × List Question) :
    (Action.left (noted q a) x).2 = x.2 ++ [q] := by
  simp only [Action.left, noted]
  cases a x.1 <;> rfl

theorem Steady.noting_follows {S : SchemaSource σ} (h : S.Steady) (x : σ) :
    S.noting.Follows (S.answers x) fun y asked ↦ y.2 = asked where
  answers y := by
    rw [← h y.1 x]
    simp only [SchemaSource.answers, noting, answer_noted]
  objects y asked hasked := by rw [← hasked]; exact left_noted _ _ y
  table n y asked hasked := by rw [← hasked]; exact left_noted _ _ y
  procedure n y asked hasked := by rw [← hasked]; exact left_noted _ _ y
  function n y asked hasked := by rw [← hasked]; exact left_noted _ _ y

end SchemaSource

/-! ### Loading -/

/-- What loading objects comes to. -/
structure Loading where
  answer : Except Error Unit
  cache : Cache
  asked : List Question

namespace Loading

/-- Loads something and then, if that does not fail, something else. -/
def andThen (first second : Cache → Loading) (c : Cache) : Loading :=
  match (first c).answer with
  | .error _ => first c
  | .ok () =>
    let rest := second (first c).cache
    ⟨rest.answer, rest.cache, (first c).asked ++ rest.asked⟩

section AndThen

variable {first second : Cache → Loading} {c : Cache}

theorem andThen_of_error {e : Error} (h : (first c).answer = .error e) :
    andThen first second c = first c := by
  rw [andThen, h]

theorem andThen_of_ok (h : (first c).answer = .ok ()) :
    andThen first second c =
      ⟨(second (first c).cache).answer, (second (first c).cache).cache,
        (first c).asked ++ (second (first c).cache).asked⟩ := by
  rw [andThen, h]

end AndThen

/-- Loads the object of a name, unless something is kept under the name. -/
def ofName {α : Type} (shelf : Cache → Shelf α) (withShelf : Cache → Shelf α → Cache)
    (nameOf : α → ObjectName) (question : ObjectName → Question)
    (report : ObjectName → Except Error (Option α)) (k : ObjectName) (c : Cache) : Loading :=
  match (shelf c).get? k with
  | some _ => ⟨.ok (), c, []⟩
  | none =>
    match report k with
    | .error e => ⟨.error e, c, [question k]⟩
    | .ok none => ⟨.ok (), c, [question k]⟩
    | .ok (some a) => ⟨.ok (), withShelf c ((shelf c).store [k, nameOf a] a).1, [question k]⟩

end Loading

namespace Answers

variable (A : Answers) (d : Dialect)

def loadTable : ObjectName → Cache → Loading :=
  .ofName (·.tables) (fun c tables ↦ { c with tables }) (·.name) .table A.table

def loadProcedure : ObjectName → Cache → Loading :=
  .ofName (·.procedures) (fun c procedures ↦ { c with procedures }) (·.name) .procedure A.procedure

def loadFunction : ObjectName → Cache → Loading :=
  .ofName (·.functions) (fun c functions ↦ { c with functions }) (·.name) .function A.function

def loadAll : List SchemaObject → Cache → Loading
  | [] => fun c ↦ ⟨.ok (), c, []⟩
  | o :: rest =>
    match o.kind with
    | .table | .view | .tableOrView => Loading.andThen (A.loadTable o.name) (loadAll rest)
    | .procedure =>
      if d.supportsProcedures then Loading.andThen (A.loadProcedure o.name) (loadAll rest)
      else loadAll rest
    | .tableFunction =>
      if d.supportsTableFunctions then Loading.andThen (A.loadFunction o.name) (loadAll rest)
      else loadAll rest

def preload (c : Cache) : Loading :=
  match A.objects with
  | .error e => ⟨.error e, c, [.objects]⟩
  | .ok os =>
    let r := A.loadAll d os c
    ⟨r.answer, r.cache, .objects :: r.asked⟩

end Answers

/-! ### Loading again -/

/-- What one shelf keeps something under, the other does too. -/
def Shelf.Within {α : Type} (s s' : Shelf α) : Prop :=
  ∀ k, (s.get? k).isSome → (s'.get? k).isSome

structure Cache.Within (c c' : Cache) : Prop where
  tables : c.tables.Within c'.tables
  procedures : c.procedures.Within c'.procedures
  functions : c.functions.Within c'.functions

theorem Cache.Within.refl (c : Cache) : c.Within c := ⟨fun _ ↦ id, fun _ ↦ id, fun _ ↦ id⟩

theorem Cache.Within.trans {a b c : Cache} (h : a.Within b) (h' : b.Within c) : a.Within c :=
  ⟨fun k ↦ h'.tables k ∘ h.tables k, fun k ↦ h'.procedures k ∘ h.procedures k,
    fun k ↦ h'.functions k ∘ h.functions k⟩

/-- What is loaded is kept, and loading it again from a cache with everything that was kept gives
the same answer, changes nothing, and asks again only for what is lacking. If loading failed, this
is so for the cache that it left. -/
def Answers.Settles (A : Answers) (load : Cache → Loading) : Prop :=
  ∀ c, c.Within (load c).cache ∧ ∀ c', (load c).cache.Within c' →
    (∀ e, (load c).answer = .error e → c' = (load c).cache) →
    (load c').answer = (load c).answer ∧ (load c').cache = c' ∧
      (load c').asked.Sublist (load c).asked ∧ ∀ q ∈ (load c').asked, A.Lack q

section Settles

variable {A : Answers} {d : Dialect}

theorem settles_nothing : A.Settles fun c ↦ ⟨.ok (), c, []⟩ := fun c ↦
  ⟨.refl c, fun _ _ _ ↦ ⟨rfl, rfl, .refl [], by simp⟩⟩

theorem Answers.Settles.andThen {first second : Cache → Loading} (hfirst : A.Settles first)
    (hsecond : A.Settles second) : A.Settles (Loading.andThen first second) := by
  intro c
  obtain ⟨hwithin, hagain⟩ := hfirst c
  cases hanswer : (first c).answer with
  | error e =>
    rw [Loading.andThen_of_error hanswer]
    refine ⟨hwithin, fun c' hc' hsame ↦ ?_⟩
    obtain ⟨hanswer', hrest⟩ := hagain c' hc' hsame
    rw [Loading.andThen_of_error (hanswer'.trans hanswer)]
    exact ⟨hanswer', hrest⟩
  | ok =>
    rw [Loading.andThen_of_ok hanswer]
    obtain ⟨hwithin', hagain'⟩ := hsecond (first c).cache
    refine ⟨hwithin.trans hwithin', fun c' hc' hsame ↦ ?_⟩
    obtain ⟨hanswer', hcache, hasked, hlack⟩ := hagain c' (hwithin'.trans hc') fun e he ↦ by
      rw [hanswer] at he
      cases he
    obtain ⟨hanswer₂, hcache₂, hasked₂, hlack₂⟩ := hagain' c' hc' hsame
    rw [Loading.andThen_of_ok (hanswer'.trans hanswer), hcache]
    refine ⟨hanswer₂, hcache₂, hasked.append hasked₂, fun q hq ↦ ?_⟩
    exact (List.mem_append.mp hq).elim (hlack q) (hlack₂ q)

/-- Something is kept under the name that was asked for, and so is everything that was kept
before. -/
theorem Shelf.within_store {α : Type} {s : Shelf α} {k : ObjectName} (hk : s.get? k = none)
    (n : ObjectName) (a : α) :
    s.Within (s.store [k, n] a).1 ∧ ((s.store [k, n] a).1.get? k).isSome := by
  rw [store_pair hk]
  exact ⟨fun _ h ↦ isSome_get?_keep _ _ (isSome_get?_keep _ _ h),
    isSome_get?_keep _ _ (isSome_get?_keep_self _ _ _)⟩

theorem settles_ofName {α : Type} {shelf : Cache → Shelf α} {withShelf : Cache → Shelf α → Cache}
    {nameOf : α → ObjectName} {question : ObjectName → Question}
    {report : ObjectName → Except Error (Option α)} (k : ObjectName)
    (hshelf : ∀ c s, shelf (withShelf c s) = s)
    (hwith : ∀ c s, (shelf c).Within s → c.Within (withShelf c s))
    (hwithin : ∀ c c' : Cache, c.Within c' → (shelf c).Within (shelf c'))
    (hlack : A.Lack (question k) ↔ ∀ a, report k ≠ .ok (some a)) :
    A.Settles (.ofName shelf withShelf nameOf question report k) := by
  intro c
  have hkept {c' : Cache} (h : ((shelf c').get? k).isSome) :
      Loading.ofName shelf withShelf nameOf question report k c' = ⟨.ok (), c', []⟩ := by
    obtain ⟨a, ha⟩ := Option.isSome_iff_exists.mp h
    rw [Loading.ofName, ha]
  cases hget : (shelf c).get? k with
  | some a =>
    have hsome : ((shelf c).get? k).isSome := Option.isSome_iff_exists.mpr ⟨a, hget⟩
    rw [hkept hsome]
    refine ⟨.refl c, fun c' hc' _ ↦ ?_⟩
    rw [hkept (hwithin c c' hc' k hsome)]
    exact ⟨rfl, rfl, .refl [], by simp⟩
  | none =>
    rw [Loading.ofName, hget]
    cases hreport : report k with
    | error e =>
      refine ⟨.refl c, fun c' _ hsame ↦ ?_⟩
      obtain rfl := hsame e rfl
      rw [Loading.ofName, hget, hreport]
      refine ⟨rfl, rfl, .refl _, fun q hq ↦ ?_⟩
      rw [List.mem_singleton.mp hq, hlack, hreport]
      simp
    | ok found =>
      cases found with
      | none =>
        refine ⟨.refl c, fun c' hc' _ ↦ ?_⟩
        cases hget' : (shelf c').get? k with
        | some a =>
          rw [hkept (Option.isSome_iff_exists.mpr ⟨a, hget'⟩)]
          exact ⟨rfl, rfl, List.nil_sublist _, by simp⟩
        | none =>
          rw [Loading.ofName, hget', hreport]
          refine ⟨rfl, rfl, .refl _, fun q hq ↦ ?_⟩
          rw [List.mem_singleton.mp hq, hlack, hreport]
          simp
      | some a =>
        obtain ⟨hgrows, hstored⟩ := Shelf.within_store hget (nameOf a) a
        refine ⟨hwith _ _ hgrows, fun c' hc' _ ↦ ?_⟩
        have hkeeps := hwithin _ _ hc' k
        rw [hshelf] at hkeeps
        rw [hkept (hkeeps hstored)]
        exact ⟨rfl, rfl, List.nil_sublist _, by simp⟩

theorem settles_loadTable (k : ObjectName) : A.Settles (A.loadTable k) :=
  settles_ofName k (fun _ _ ↦ rfl) (fun _ _ h ↦ ⟨h, fun _ ↦ id, fun _ ↦ id⟩) (fun _ _ h ↦ h.tables)
    Iff.rfl

theorem settles_loadProcedure (k : ObjectName) : A.Settles (A.loadProcedure k) :=
  settles_ofName k (fun _ _ ↦ rfl) (fun _ _ h ↦ ⟨fun _ ↦ id, h, fun _ ↦ id⟩)
    (fun _ _ h ↦ h.procedures) Iff.rfl

theorem settles_loadFunction (k : ObjectName) : A.Settles (A.loadFunction k) :=
  settles_ofName k (fun _ _ ↦ rfl) (fun _ _ h ↦ ⟨fun _ ↦ id, fun _ ↦ id, h⟩)
    (fun _ _ h ↦ h.functions) Iff.rfl

theorem settles_loadAll (os : List SchemaObject) : A.Settles (A.loadAll d os) := by
  induction os with
  | nil => exact settles_nothing
  | cons o os ih =>
    rw [Answers.loadAll]
    cases o.kind with
    | table | view | tableOrView => exact (settles_loadTable o.name).andThen ih
    | procedure =>
      dsimp only
      split
      · exact (settles_loadProcedure o.name).andThen ih
      · exact ih
    | tableFunction =>
      dsimp only
      split
      · exact (settles_loadFunction o.name).andThen ih
      · exact ih

/-- Preloading from the cache that preloading has left. -/
theorem Answers.preload_again (A : Answers) (d : Dialect) (c : Cache) :
    (A.preload d (A.preload d c).cache).answer = (A.preload d c).answer ∧
      (A.preload d (A.preload d c).cache).cache = (A.preload d c).cache ∧
      (A.preload d (A.preload d c).cache).asked.Sublist (A.preload d c).asked ∧
      ∀ q ∈ (A.preload d (A.preload d c).cache).asked, q = .objects ∨ A.Lack q := by
  cases hobjects : A.objects with
  | error e => simp [preload, hobjects]
  | ok os =>
    obtain ⟨-, hagain⟩ := settles_loadAll (A := A) (d := d) os c
    obtain ⟨hanswer, hcache, hasked, hlack⟩ := hagain _ (.refl _) fun _ _ ↦ rfl
    simp only [preload, hobjects]
    refine ⟨hanswer, hcache, hasked.cons_cons _, fun q hq ↦ ?_⟩
    exact (List.mem_cons.mp hq).imp_right (hlack q)

end Settles

/-! ### Running -/

namespace Catalog

variable {σ α β : Type} {tells : σ → List Question → Prop} {cat : Catalog σ}

/-- The catalog with another cache. -/
def holding (cat : Catalog σ) (cache : Cache) : Catalog σ := { cat with cache }

/-- From every cache of the catalog a lookup does what loading comes to. -/
def Performs (tells : σ → List Question → Prop) (cat : Catalog σ) (l : Lookup σ α)
    (load : Cache → Loading) : Prop :=
  ∀ c x asked, tells x asked → ∃ y, tells y (asked ++ (load c).asked) ∧
    (Action.answer l (cat.holding c, x)).map (fun _ ↦ ()) = (load c).answer ∧
    Action.left l (cat.holding c, x) = (cat.holding (load c).cache, y)

variable {l : Lookup σ α} {load : Cache → Loading}

theorem Performs.bind {k : Lookup σ β} {rest : Cache → Loading} (h : Performs tells cat l load)
    (hk : Performs tells cat k rest) :
    Performs tells cat (l >>= fun _ ↦ k) (Loading.andThen load rest) := by
  intro c x asked htells
  obtain ⟨y, hy, hanswer, hleft⟩ := h c x asked htells
  cases hl : Action.answer l (cat.holding c, x) with
  | error e =>
    rw [hl] at hanswer
    rw [Loading.andThen_of_error hanswer.symm]
    have herror := Action.apply_of_answer_error hl
    rw [hleft] at herror
    have hrun := Connection.bind_of_error (fun _ ↦ k) herror
    exact ⟨y, hy, by rw [Action.answer, hrun, ← hanswer]; rfl, Action.left_of_error hrun⟩
  | ok a =>
    rw [hl] at hanswer
    rw [Loading.andThen_of_ok hanswer.symm]
    obtain ⟨z, hz, hanswer', hleft'⟩ := hk _ y _ hy
    have hrun := Action.bind_of_answer_ok (fun _ ↦ k) hl
    rw [hleft] at hrun
    refine ⟨z, by rwa [← List.append_assoc], ?_, ?_⟩
    · rw [Action.answer, hrun, ← Action.answer, hanswer']
    · rw [Action.left, hrun, ← Action.left, hleft']

theorem Performs.discarded (h : Performs tells cat l load) :
    Performs tells cat (discard l : Lookup σ Unit) load := by
  have hmap : (discard l : Lookup σ Unit) = (fun _ ↦ ()) <$> l := rfl
  intro c x asked htells
  obtain ⟨y, hy, hanswer, hleft⟩ := h c x asked htells
  refine ⟨y, hy, ?_, by rw [hmap, Action.left_map, hleft]⟩
  rw [hmap, Action.answer_map, ← hanswer]
  cases Action.answer l (cat.holding c, x) <;> rfl

theorem performs_find {shelf : Cache → Shelf α} {withShelf : Cache → Shelf α → Cache}
    {nameOf : α → ObjectName} {question : ObjectName → Question}
    {report : ObjectName → Except Error (Option α)}
    {put : SchemaSource σ → ObjectName → Action σ (Option α)}
    (hanswer : ∀ k x, Action.answer (put cat.source k) x = report k)
    (htells : ∀ k x asked, tells x asked →
      tells (Action.left (put cat.source k) x) (asked ++ [question k])) (k : ObjectName) :
    Performs tells cat (find shelf withShelf nameOf put k)
      (.ofName shelf withShelf nameOf question report k) := by
  intro c x asked hx
  rw [Action.answer, Action.left, find_apply, Loading.ofName]
  cases hget : (shelf c).get? k with
  | some a =>
    simp only [holding, hget]
    exact ⟨x, by simpa using hx, rfl, rfl⟩
  | none =>
    have hasked := htells k x asked hx
    have hreport := hanswer k x
    rw [Action.answer] at hreport
    simp only [holding, hget, ← hreport]
    cases hrun : put cat.source k x with
    | error e y =>
      rw [Action.left_of_error hrun] at hasked
      exact ⟨y, hasked, rfl, rfl⟩
    | ok found y =>
      rw [Action.left_of_ok hrun] at hasked
      cases found <;> exact ⟨y, hasked, rfl, rfl⟩

variable {A : Answers} (h : cat.source.Follows A tells)

include h

theorem performs_findTable (k : ObjectName) :
    Performs tells cat (findTable k) (A.loadTable k) :=
  performs_find (fun k x ↦ congrArg (Answers.table · k) (h.answers x)) h.table k

theorem performs_findProcedure (k : ObjectName) :
    Performs tells cat (findProcedure k) (A.loadProcedure k) :=
  performs_find (fun k x ↦ congrArg (Answers.procedure · k) (h.answers x)) h.procedure k

theorem performs_findFunction (k : ObjectName) :
    Performs tells cat (findFunction k) (A.loadFunction k) :=
  performs_find (fun k x ↦ congrArg (Answers.function · k) (h.answers x)) h.function k

theorem performs_preloadAll (os : List SchemaObject) :
    Performs tells cat (preloadAll os) (A.loadAll cat.dialect os) := by
  induction os with
  | nil => exact fun c x asked hx ↦ ⟨x, by simpa [Answers.loadAll] using hx, rfl, rfl⟩
  | cons o os ih =>
    intro c x asked hx
    have hget : (get : Lookup σ _) (cat.holding c, x) =
      .ok (cat.holding c, x) (cat.holding c, x) := rfl
    have hdialect : (cat.holding c).dialect = cat.dialect := rfl
    rw [Action.answer, Action.left, preloadAll, Connection.bind_of_ok _ hget, Answers.loadAll]
    cases o.kind with
    | table | view | tableOrView =>
      exact ((performs_findTable h o.name).discarded.bind ih) c x asked hx
    | procedure =>
      by_cases hd : cat.dialect.supportsProcedures
      · simp only [hdialect, if_pos hd]
        exact ((performs_findProcedure h o.name).discarded.bind ih) c x asked hx
      · simp only [hdialect, if_neg hd]
        exact ih c x asked hx
    | tableFunction =>
      by_cases hd : cat.dialect.supportsTableFunctions
      · simp only [hdialect, if_pos hd]
        exact ((performs_findFunction h o.name).discarded.bind ih) c x asked hx
      · simp only [hdialect, if_neg hd]
        exact ih c x asked hx

theorem performs_preload : Performs tells cat preload (A.preload cat.dialect) := by
  intro c x asked hx
  have hrun := h.objects x asked hx
  generalize hy : Action.left cat.source.objects x = y at hrun
  have hobjects := congrArg Answers.objects (h.answers x)
  cases hanswer : Action.answer cat.source.objects x with
  | error e =>
    have hask : objects (cat.holding c, x) = .error e (cat.holding c, y) := by
      simp only [objects, ask, holding, Action.apply_of_answer_error hanswer, hy]
    rw [Action.answer, Action.left, preload, Connection.bind_of_error _ hask, Answers.preload,
      ← hobjects, SchemaSource.answers, hanswer]
    exact ⟨y, hrun, rfl, rfl⟩
  | ok os =>
    have hask : objects (cat.holding c, x) = .ok os (cat.holding c, y) := by
      simp only [objects, ask, holding, Action.apply_of_answer_ok hanswer, hy]
    rw [Action.answer, Action.left, preload, Connection.bind_of_ok _ hask, Answers.preload,
      ← hobjects, SchemaSource.answers, hanswer]
    obtain ⟨z, hz, hrest⟩ := performs_preloadAll h os c y _ hrun
    rw [List.append_assoc] at hz
    exact ⟨z, hz, hrest⟩

omit h

/-- The catalog over a source that notes the questions that it is asked. -/
def noting (cat : Catalog σ) : Catalog (σ × List Question) where
  dialect := cat.dialect
  defaultSchema := cat.defaultSchema
  source := cat.source.noting
  cache := cat.cache

/-- The questions that a catalog asks its source as it is preloaded. -/
def preloadQuestions (s : Catalog σ × σ) : List Question :=
  (Action.left preload (s.1.noting, (s.2, []))).2.2

section Steady

variable (hsteady : cat.source.Steady) (c : Cache) (x y : σ)

include hsteady

theorem preloadQuestions_eq : preloadQuestions (cat.holding c, y) =
    ((cat.source.answers x).preload cat.dialect c).asked := by
  have hfollows : cat.noting.source.Follows (cat.source.answers x) fun y asked ↦ y.2 = asked :=
    hsteady.noting_follows x
  obtain ⟨z, hz, -, hleft⟩ := performs_preload hfollows c (y, []) [] rfl
  have hnoting : (cat.holding c).noting = cat.noting.holding c := rfl
  rw [preloadQuestions, hnoting, hleft]
  exact hz

theorem left_preload_eq : ∃ z, Action.left preload (cat.holding c, y) =
    (cat.holding ((cat.source.answers x).preload cat.dialect c).cache, z) := by
  obtain ⟨z, -, -, hleft⟩ := performs_preload (hsteady.follows x) c y [] trivial
  exact ⟨z, hleft⟩

theorem answer_preload_eq : Action.answer preload (cat.holding c, y) =
    ((cat.source.answers x).preload cat.dialect c).answer := by
  obtain ⟨-, -, hanswer, -⟩ := performs_preload (hsteady.follows x) c y [] trivial
  rw [← hanswer]
  cases Action.answer preload (cat.holding c, y) <;> rfl

end Steady

/-- If the answers of the source do not change, a second preload leaves the catalog as the first one
left it and comes to the same end. It asks nothing that the first did not ask, and nothing but for
the list of objects and for objects of which nothing is reported. -/
theorem preload_preload (cat : Catalog σ) (hsteady : cat.source.Steady) (x : σ) :
    (Action.left preload (Action.left preload (cat, x))).1 = (Action.left preload (cat, x)).1 ∧
      Action.answer preload (Action.left preload (cat, x)) = Action.answer preload (cat, x) ∧
      (preloadQuestions (Action.left preload (cat, x))).Sublist (preloadQuestions (cat, x)) ∧
      ∀ q ∈ preloadQuestions (Action.left preload (cat, x)),
        q = .objects ∨ (cat.source.answers x).Lack q := by
  have hcat : cat = cat.holding cat.cache := rfl
  obtain ⟨hanswer, hcache, hasked, hlack⟩ :=
    (cat.source.answers x).preload_again cat.dialect cat.cache
  obtain ⟨y, hfirst⟩ := left_preload_eq hsteady cat.cache x x
  rw [← hcat] at hfirst
  rw [hfirst]
  obtain ⟨z, hsecond⟩ := left_preload_eq hsteady
    ((cat.source.answers x).preload cat.dialect cat.cache).cache x y
  refine ⟨?_, ?_, ?_, ?_⟩
  · rw [hsecond, hcache]
  · rw [answer_preload_eq hsteady _ x, hanswer, ← answer_preload_eq hsteady _ x x, ← hcat]
  · have hquestions := preloadQuestions_eq hsteady cat.cache x x
    rw [← hcat] at hquestions
    rw [preloadQuestions_eq hsteady _ x, hquestions]
    exact hasked
  · rw [preloadQuestions_eq hsteady _ x]
    exact hlack

/-- A source of users, whom it reports under another name than it lists them, of a table that is
gone, and of a procedure that it cannot describe. -/
def userSource : SchemaSource Unit where
  objects := pure [⟨⟨none, "users"⟩, .table⟩, ⟨⟨none, "gone"⟩, .table⟩,
    ⟨⟨none, "greet"⟩, .procedure⟩]
  table n :=
    pure (if n.name = "users" then some (.make .postgreSql ⟨some "public", "Users"⟩ true [])
      else none)
  indexes _ := pure []
  procedure n := throw (.missingObject .procedure n.name)
  function _ := pure none

/-- Users are not asked for again. -/
theorem preload_users_again :
    .table ⟨none, "users"⟩ ∈ preloadQuestions (make .postgreSql none userSource, ()) ∧
      .table ⟨none, "users"⟩ ∉ preloadQuestions
        (Action.left preload (make .postgreSql none userSource, ())) := by
  have hasked :
      .table ⟨none, "users"⟩ ∈ preloadQuestions (make .postgreSql none userSource, ()) := by
    decide +kernel
  refine ⟨hasked, fun hagain ↦ ?_⟩
  obtain ⟨-, -, -, hlack⟩ := preload_preload (make .postgreSql none userSource) (fun _ _ ↦ rfl) ()
  rcases hlack _ hagain with hobjects | hlacks
  · cases hobjects
  · exact hlacks _ rfl

end Catalog

end SchemaSql
