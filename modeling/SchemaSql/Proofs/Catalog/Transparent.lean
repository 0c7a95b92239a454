import SchemaSql.Proofs.Catalog.Inquiries

/-!
When a catalog of a static schema answers as if it remembered nothing. It does so over every history
of inquiries exactly if the lists of the schema are steady under the names that are asked for: two
inquiries in a row tell names that are the same but found differently apart from a new catalog, and
preloading tells an item that is not found again by its own name. Names without letters beyond ASCII
always make a schema steady; others may not.
-/

set_option autoImplicit false
set_option relaxedAutoImplicit false

namespace SchemaSql

/-- Over every history of inquiries about certain names, each of them is answered as a new catalog
answers it. -/
def Inquiry.Transparent {σ : Type} (tableOf : String → String) (names : String → Prop)
    (new : Catalog σ × σ) : Prop :=
  ∀ (history : List Inquiry) (next : Inquiry), (∀ q ∈ history, q.Within tableOf names) →
    next.Within tableOf names →
    Action.answer (next.ask tableOf) (after tableOf history new) =
      Action.answer (next.ask tableOf) new

theorem reported_inj {α : Type} {kind : ObjectKind} {name : String} {r r' : Option α}
    (h : reported kind name r = reported kind name r') : r = r' := by
  cases r <;> cases r' <;> simp [reported] at h ⊢
  exact h

theorem except_map_inj {α β : Type} {f : α → β} (hf : Function.Injective f)
    {r r' : Except Error α} (h : r.map f = r'.map f) : r = r' := by
  cases r <;> cases r' <;> simp [Except.map] at h ⊢
  · exact h
  · exact hf h

section Seen

variable {σ : Type} {S : Schema} {d : Dialect} {schema : Option String} {x : σ}

/-! ### Preloaded catalogs -/

section Loaded

theorem loaded_tables (ts : List Table) (c : Cache) :
    (ts.map fun t ↦ (⟨t.name, if t.isTable then .table else .view⟩ : SchemaObject)).foldl
        (S.loaded d) c =
      { c with tables := c.tables.fetchAll (·.name) S.tables (ts.map (·.name)) } := by
  induction ts generalizing c with
  | nil => rfl
  | cons t ts ih =>
    rw [List.map_cons, List.foldl_cons, ih, Schema.loaded]
    cases t.isTable <;> rfl

theorem loaded_procedures (ps : List Procedure) (c : Cache) :
    (ps.map fun p ↦ (⟨p.name, .procedure⟩ : SchemaObject)).foldl (S.loaded d) c =
      if d.supportsProcedures then
        { c with procedures := c.procedures.fetchAll (·.name) S.procedures (ps.map (·.name)) }
      else c := by
  induction ps generalizing c with
  | nil => simp [Shelf.fetchAll]
  | cons p ps ih =>
    rw [List.map_cons, List.foldl_cons, ih, Schema.loaded]
    cases d.supportsProcedures <;> rfl

theorem loaded_functions (fs : List TableFunction) (c : Cache) :
    (fs.map fun f ↦ (⟨f.name, .tableFunction⟩ : SchemaObject)).foldl (S.loaded d) c =
      if d.supportsTableFunctions then
        { c with functions := c.functions.fetchAll (·.name) S.functions (fs.map (·.name)) }
      else c := by
  induction fs generalizing c with
  | nil => simp [Shelf.fetchAll]
  | cons f fs ih =>
    rw [List.map_cons, List.foldl_cons, ih, Schema.loaded]
    cases d.supportsTableFunctions <;> rfl

/-- A preloaded catalog has every object of the schema that the dialect can use. -/
theorem objects_loaded :
    (S.objects.foldl (S.loaded d) {}).tables.Stocked (·.name) S.tables S.tables ∧
      (d.supportsProcedures →
        (S.objects.foldl (S.loaded d) {}).procedures.Stocked (·.name) S.procedures S.procedures) ∧
      (d.supportsTableFunctions →
        (S.objects.foldl (S.loaded d) {}).functions.Stocked (·.name) S.functions S.functions) := by
  rw [Schema.objects, List.foldl_append, List.foldl_append, loaded_tables, loaded_procedures,
    loaded_functions]
  refine ⟨?_, fun hd ↦ ?_, fun hd ↦ ?_⟩
  · have htables := Shelf.stocked_fetchAll (·.name) S.tables
    cases d.supportsProcedures <;> cases d.supportsTableFunctions <;> exact htables
  · have hprocedures := Shelf.stocked_fetchAll (·.name) S.procedures
    rw [if_pos hd]
    cases d.supportsTableFunctions <;> exact hprocedures
  · have hfunctions := Shelf.stocked_fetchAll (·.name) S.functions
    rw [if_pos hd]
    cases d.supportsProcedures <;> exact hfunctions

end Loaded

/-! ### What answers tell of a list -/

section Answers

variable {α : Type} (kind : ObjectKind) {finder : ObjectName → Lookup σ (Option α)}
  {shelf : Cache → Shelf α} (withShelf : Cache → Shelf α → Cache) {nameOf : α → ObjectName}
  {items : List α}
  (hfinder : ∀ c k, finder k (S.seen d schema x c) = .ok ((shelf c).fetch nameOf items k).2
    (S.seen d schema x (withShelf c ((shelf c).fetch nameOf items k).1)))
  (hnew : shelf {} = []) (hkept : ∀ c s, shelf (withShelf c s) = s)
include hfinder hnew hkept

/-- If lookups are answered alike by a new catalog, after another lookup and after preloading, the
list is steady under their names. -/
theorem steady_of_answers {names : String → Prop} {c : Cache}
    (hloaded : (shelf c).Stocked nameOf items items)
    (hpair : ∀ n n' c', names n → names n' →
      Action.left (Catalog.lookUp kind finder n) (S.seen d schema x {}) = S.seen d schema x c' →
      Action.answer (Catalog.lookUp kind finder n') (S.seen d schema x c') =
        Action.answer (Catalog.lookUp kind finder n') (S.seen d schema x {}))
    (hpreload : ∀ n, names n → Action.answer (Catalog.lookUp kind finder n) (S.seen d schema x c) =
      Action.answer (Catalog.lookUp kind finder n) (S.seen d schema x {})) :
    Steady nameOf items (Asked names schema) := by
  have hfirst {n : String} {m : ObjectName} (hm : ObjectName.parse n = .ok m) :
      Action.answer (Catalog.lookUp kind finder n) (S.seen d schema x {}) =
        reported kind n (Schema.lookup? nameOf items (m.orSchema schema)) := by
    rw [(Catalog.lookUp_seen kind withShelf hfinder hm {}).1, hnew, Shelf.fetch_nil]
  -- What is found under one name is remembered under the other.
  have hfound : ∀ k k', Asked names schema k → Asked names schema k' → k.same k' → ∀ a,
      Schema.lookup? nameOf items k = some a → Schema.lookup? nameOf items k' = some a := by
    rintro _ _ ⟨n, m, hn, hm, rfl⟩ ⟨n', m', hn', hm', rfl⟩ hsame a ha
    have hanswer := hpair n n' _ hn hn' (Catalog.lookUp_seen kind withShelf hfinder hm {}).2
    rw [hfirst hm', (Catalog.lookUp_seen kind withShelf hfinder hm' _).1, hkept, hnew, Shelf.fetch,
      Shelf.get?_fetch_nil ha hsame] at hanswer
    exact (reported_inj hanswer).symm
  constructor
  · intro k k' hk hk' hsame
    cases ha : Schema.lookup? nameOf items k with
    | some a => exact (hfound k k' hk hk' hsame a ha).symm
    | none =>
      cases ha' : Schema.lookup? nameOf items k' with
      | none => rfl
      | some a =>
        rw [hfound k' k hk' hk (ObjectName.same_symm hsame) a ha'] at ha
        cases ha
  · rintro _ a ⟨n, m, hn, hm, rfl⟩ ha
    have hanswer := hpreload n hn
    rw [hfirst hm, (Catalog.lookUp_seen kind withShelf hfinder hm c).1, hloaded.fetch ha,
      ha] at hanswer
    exact reported_inj hanswer

variable {inquire : String → Inquiry} {wrap : α → Finding} {tableOf : String → String}

/-- The list behind transparent inquiries is steady. -/
theorem steady_of_transparent (hname : ∀ n, (inquire n).name? tableOf = some n)
    (hwrap : Function.Injective wrap)
    (hask : ∀ n c, (inquire n).ask tableOf (S.seen d schema x c) =
      (wrap <$> Catalog.lookUp kind finder n) (S.seen d schema x c))
    (hloaded : (shelf (S.objects.foldl (S.loaded d) {})).Stocked nameOf items items)
    {names : String → Prop}
    (h : Inquiry.Transparent tableOf names (S.seen d schema x {})) :
    Steady nameOf items (Asked names schema) := by
  have hwithin {n : String} (hn : names n) : (inquire n).Within tableOf names := by
    intro n' hn'
    rw [hname] at hn'
    exact Option.some.inj hn' ▸ hn
  have hwrapped (n : String) (c : Cache) :
      Action.answer ((inquire n).ask tableOf) (S.seen d schema x c) =
        (Action.answer (Catalog.lookUp kind finder n) (S.seen d schema x c)).map wrap := by
    rw [← Action.answer_map, Action.answer, hask, ← Action.answer]
  have hanswer {n : String} {c c' : Cache}
      (h : Action.answer ((inquire n).ask tableOf) (S.seen d schema x c) =
        Action.answer ((inquire n).ask tableOf) (S.seen d schema x c')) :
      Action.answer (Catalog.lookUp kind finder n) (S.seen d schema x c) =
        Action.answer (Catalog.lookUp kind finder n) (S.seen d schema x c') := by
    rw [hwrapped, hwrapped] at h
    exact except_map_inj hwrap h
  refine steady_of_answers kind withShelf hfinder hnew hkept hloaded ?_ ?_
  · intro n n' c hn hn' hleft
    refine hanswer ?_
    have hafter : Inquiry.after tableOf [inquire n] (S.seen d schema x {}) =
        S.seen d schema x c := by
      rw [← hleft, ← Action.left_map wrap, Inquiry.after, List.foldl_cons, List.foldl_nil,
        Action.left, Action.left, hask]
    rw [← hafter]
    exact h _ _ (by simpa using hwithin hn) (hwithin hn')
  · intro n hn
    refine hanswer ?_
    have hafter : Inquiry.after tableOf [.preload] (S.seen d schema x {}) =
        S.seen d schema x (S.objects.foldl (S.loaded d) {}) := by
      rw [Inquiry.after, List.foldl_cons, List.foldl_nil, Inquiry.ask, Action.left_map,
        Action.left_of_ok (Catalog.preload_seen {})]
    rw [← hafter]
    exact h _ _ (by simp [Inquiry.Within, Inquiry.name?]) (hwithin hn)

end Answers

end Seen

/-! ### Transparency -/

/-- A catalog of a schema answers every inquiry after every other as a new catalog does, the names
being of a certain kind, exactly if the lists of the schema are steady under what these names stand
for. -/
theorem Catalog.transparent_iff {σ : Type} (S : Schema) (d : Dialect)
    (defaultSchema : Option String) (tableOf : String → String) (names : String → Prop) (x : σ) :
    Inquiry.Transparent tableOf names (Catalog.make d defaultSchema S.source, x) ↔
      S.SteadyUnder d (Asked names (defaultSchema <|> d.defaultSchema?)) := by
  generalize hschema : (defaultSchema <|> d.defaultSchema?) = schema
  have hmake : (Catalog.make d defaultSchema S.source, x) = S.seen d schema x {} := by
    rw [← hschema]
    rfl
  rw [hmake]
  refine ⟨fun h ↦ ⟨?_, fun hd ↦ ?_, fun hd ↦ ?_⟩, fun hS history next hhistory hnext ↦ ?_⟩
  · exact steady_of_transparent .tableOrView (fun c tables ↦ { c with tables }) findTable_seen rfl
      (fun _ _ ↦ rfl) (fun n ↦ (rfl : (Inquiry.table n).name? tableOf = some n))
      (fun _ _ ↦ Finding.table.inj) (fun _ _ ↦ rfl) objects_loaded.1 h
  · have hask (n : String) (c : Cache) :
        (Inquiry.procedure n).ask tableOf (S.seen d schema x c) =
          (Finding.procedure <$> lookUp .procedure findProcedure n) (S.seen d schema x c) := by
      simp only [Inquiry.ask, Functor.map, EStateM.map]
      rw [procedure_seen, if_pos hd]
    exact steady_of_transparent .procedure (fun c procedures ↦ { c with procedures })
      findProcedure_seen rfl (fun _ _ ↦ rfl)
      (fun n ↦ (rfl : (Inquiry.procedure n).name? tableOf = some n))
      (fun _ _ ↦ Finding.procedure.inj) hask (objects_loaded.2.1 hd) h
  · have hask (n : String) (c : Cache) :
        (Inquiry.function n).ask tableOf (S.seen d schema x c) =
          (Finding.function <$> lookUp .tableFunction findFunction n) (S.seen d schema x c) := by
      simp only [Inquiry.ask, Functor.map, EStateM.map]
      rw [function_seen, if_pos hd]
    exact steady_of_transparent .tableFunction (fun c functions ↦ { c with functions })
      findFunction_seen rfl (fun _ _ ↦ rfl)
      (fun n ↦ (rfl : (Inquiry.function n).name? tableOf = some n))
      (fun _ _ ↦ Finding.function.inj) hask (objects_loaded.2.2 hd) h
  · have hnew : Action.answer (next.ask tableOf) (S.seen d schema x {}) =
        S.answer d schema tableOf next :=
      Inquiry.answer_after hS (List.forall_mem_nil _) hnext
    rw [Inquiry.answer_after hS hhistory hnext, hnew]

/-- A table with an accent in its name is missing when its name is asked for in capitals, and is
found under it once it was found in small letters. -/
theorem Catalog.not_transparent_accented :
    ¬ Inquiry.Transparent (fun typeName ↦ typeName) (fun _ ↦ True)
      (Catalog.make .sqlite none
        ({ tables := [.make .sqlite ⟨some "shop", "Café"⟩ true []] } : Schema).source, ()) := by
  intro h
  have hsteady := ((transparent_iff _ .sqlite none _ _ ()).mp h).tables
  have hcapitals : Asked (fun _ ↦ True) (none <|> Dialect.sqlite.defaultSchema?) ⟨none, "CAFÉ"⟩ :=
    ⟨"CAFÉ", ⟨none, "CAFÉ"⟩, trivial, by rfl, rfl⟩
  have hsmall : Asked (fun _ ↦ True) (none <|> Dialect.sqlite.defaultSchema?) ⟨none, "café"⟩ :=
    ⟨"café", ⟨none, "café"⟩, trivial, by rfl, rfl⟩
  exact absurd (hsteady.same _ _ hcapitals hsmall (by decide)) (by decide)

/-! ### Schemas whose catalogs are transparent -/

section SteadyUnder

variable {S : Schema} {d : Dialect} {names : ObjectName → Prop}

/-- A schema is steady where names that are the same differ in the case of ASCII letters only. -/
theorem Schema.SteadyUnder.of_sameAscii
    (h : ∀ k k', WithOwn (·.name) S.objects names k → WithOwn (·.name) S.objects names k' →
      k.same k' → Text.sameAscii k.name k'.name) : S.SteadyUnder d names := by
  have hsteady {α : Type} {nameOf : α → ObjectName} {items : List α}
      (hitems : ∀ a ∈ items, ∃ o ∈ S.objects, o.name = nameOf a) : Steady nameOf items names := by
    have hknown (k : ObjectName) (hk : WithOwn nameOf items names k) :
        WithOwn (·.name) S.objects names k := by
      rcases hk with hk | ⟨a, ha, rfl⟩
      · exact .inl hk
      · exact .inr (hitems a ha)
    exact .of_sameAscii fun k k' hk hk' ↦ h k k' (hknown k hk) (hknown k' hk')
  constructor
  · exact hsteady fun t ht ↦
      ⟨_, List.mem_append_left _ (List.mem_append_left _ (List.mem_map_of_mem ht)), rfl⟩
  · exact fun _ ↦ hsteady fun p hp ↦
      ⟨_, List.mem_append_left _ (List.mem_append_right _ (List.mem_map_of_mem hp)), rfl⟩
  · exact fun _ ↦ hsteady fun f hf ↦ ⟨_, List.mem_append_right _ (List.mem_map_of_mem hf), rfl⟩

/-- A schema is steady under names without letters beyond ASCII if its objects have none in
theirs. -/
theorem Schema.SteadyUnder.of_ascii
    (h : ∀ k, WithOwn (·.name) S.objects names k → ∀ c ∈ k.name.toList, c.toNat < 128) :
    S.SteadyUnder d names :=
  .of_sameAscii fun k k' hk hk' hsame ↦
    Text.sameAscii_of_lowercase (h k hk) (h k' hk')
      (congrArg (·.2) ((ObjectName.same_iff k k').mp hsame))

end SteadyUnder

end SchemaSql
