import SchemaSql.Proofs.Binding.Entries
import SchemaSql.Proofs.Command.Stages
import SchemaSql.Proofs.Relation.Upsert
import SchemaSql.Proofs.Users

/-!
What an upsert does to the rows of its table. Where the database fills no key column, the parts that
columns have in an upsert depend neither on the dialect nor on how the dialect finds the row, and
rules for other columns leave the key alone. So all dialects leave the same rows, those that an
upsert is to leave, except where a row is found by a clash of keys: then a column that is updated
but not inserted gets the value that the database would fill it with.
-/

set_option autoImplicit false
set_option relaxedAutoImplicit false

namespace SchemaSql

namespace Binding

variable {b c : Binding}

/-! ### Dialects and keys -/

def inDialect (d : Dialect) (b : Binding) : Binding := { b with dialect := d }

/-- An argument is bound alike in all dialects. -/
theorem bindArgument_inDialect (d : Dialect) (a : Argument) (marks : Bool) (b : Binding) :
    (b.inDialect d).apply (bindArgument a marks) =
      (b.apply (bindArgument a marks)).map (inDialect d) := by
  have hproperties (ps : List Property) (b : Binding) :
      (b.inDialect d).apply (bindProperties marks ps) =
        (b.apply (bindProperties marks ps)).map (inDialect d) := by
    induction ps generalizing b with
    | nil => rfl
    | cons p ps ih =>
      have hproperty : (b.inDialect d).apply (bindProperty marks p) =
          (b.apply (bindProperty marks p)).map (inDialect d) := by
        rw [bindProperty, apply_changeIfKnown, apply_changeIfKnown]
        change (if (b.entry? p.name).isSome then _ else if b.strict then _ else _) = _
        split
        · rfl
        · split <;> rfl
      rw [apply_bindProperties_cons, apply_bindProperties_cons, hproperty]
      cases b.apply (bindProperty marks p) with
      | error e => rfl
      | ok c => exact ih c
  have hmarked : (b.inDialect d).marked marks = (b.marked marks).inDialect d := by
    cases marks <;> rfl
  rw [apply_bindArgument, apply_bindArgument, hmarked, hproperties]
  split
  · rfl
  · cases (b.marked marks).apply (bindProperties marks a.toProperties) <;> rfl

/-- The binding for a dialect that inserts key columns even if the database would fill them, or
does not. -/
def under (d : Dialect) (keyInserts : Bool) (b : Binding) : Binding :=
  { b with dialect := d, keyInserts }

/-- The database fills no key column. -/
def WritesKeys (b : Binding) : Prop := ∀ c ∈ b.keyColumns, c.isWritable

theorem WritesKeys.isWritable (h : b.WritesKeys) {e : Entry} (he : e ∈ b.entries) (hkey : e.isKey) :
    e.column.isWritable :=
  h e.column (List.mem_map_of_mem (List.mem_filter.mpr ⟨he, hkey⟩))

theorem refreshed_under (h : b.WritesKeys) (d : Dialect) (keyInserts : Bool) :
    (b.under d keyInserts).refreshed = b.refreshed.under d keyInserts := by
  have hinsertable : ∀ e ∈ b.entries, (b.under d keyInserts).insertable e = b.insertable e := by
    intro e he
    cases hkey : e.isKey with
    | true => simp [insertable, h.isWritable he hkey]
    | false => simp [insertable, under, hkey]
  have hentries : b.entries.map (b.under d keyInserts).withParts = b.entries.map b.withParts := by
    refine List.map_congr_left fun e he ↦ ?_
    rw [withParts, withParts, hinsertable e he]
    rfl
  rw [refreshed, refreshed, mapEntries]
  simp only [under] at hentries ⊢
  rw [hentries]
  rfl

/-- The columns with their key marks. -/
def keyMarks (b : Binding) : List (Bool × Column) := b.entries.map fun e ↦ (e.isKey, e.column)

theorem keyColumns_of_keyMarks (h : c.keyMarks = b.keyMarks) : c.keyColumns = b.keyColumns := by
  have hmarks (b : Binding) : b.keyColumns = (b.keyMarks.filter (·.1)).map (·.2) := by
    simp [keyColumns, keyMarks, List.filter_map, Function.comp_def]
  rw [hmarks, hmarks, h]

theorem keyMarks_changed {name : String} {f : Entry → Entry}
    (hcolumn : ∀ e, (f e).column = e.column) (hkey : ∀ e, (f e).isKey = e.isKey) :
    (b.changed name f).keyMarks = b.keyMarks :=
  map_changeFirst fun e ↦ by rw [hcolumn, hkey]

theorem keyMarks_refreshed (b : Binding) : b.refreshed.keyMarks = b.keyMarks := by
  simp [keyMarks, refreshed, mapEntries, withParts, Function.comp_def]

theorem keyMarks_bindRule (name : String) (value : Value) (b : Binding) :
    (b.bindRule name value).keyMarks = b.keyMarks := by
  rw [bindRule]
  split
  · rw [keyMarks_refreshed]
    exact keyMarks_changed (f := Entry.bind value .audit) (fun _ ↦ rfl) fun _ ↦ rfl
  · rfl

theorem keyMarks_restrict (name : String) (insert update : Bool) (b : Binding) :
    (b.restrict name insert update).keyMarks = b.keyMarks :=
  keyMarks_changed
    (f := fun e ↦ { e with insert := e.insert && insert, update := e.update && update })
    (fun _ ↦ rfl) fun _ ↦ rfl

theorem keyMarks_bindUpsert (r : Rules) (now : Timestamp) (b : Binding) :
    (r.bindUpsert now b).keyMarks = b.keyMarks := by
  refine r.bindUpsert_induction (I := fun c ↦ c.keyMarks = b.keyMarks) now ?_ ?_ rfl
  · intro v _ c hc
    rw [keyMarks_bindRule, hc]
  · intro v _ c hc
    rw [keyMarks_restrict, hc]

theorem WritesKeys.congr (hb : b.WritesKeys) (h : c.keyMarks = b.keyMarks) : c.WritesKeys := by
  rw [WritesKeys, keyColumns_of_keyMarks h]
  exact hb

theorem bindRule_under (h : b.WritesKeys) (d : Dialect) (keyInserts : Bool) (name : String)
    (value : Value) :
    (b.under d keyInserts).bindRule name value = (b.bindRule name value).under d keyInserts := by
  have hchanged : (b.changed name (Entry.bind value .audit)).WritesKeys :=
    h.congr (keyMarks_changed (fun _ ↦ rfl) fun _ ↦ rfl)
  rw [bindRule, bindRule]
  change (if (b.entry? name).isSome then _ else _) = _
  split
  · exact refreshed_under hchanged d keyInserts
  · rfl

/-- Rules choose the same parts in every dialect. -/
theorem bindUpsert_under (h : b.WritesKeys) (r : Rules) (now : Timestamp) (d : Dialect)
    (keyInserts : Bool) :
    r.bindUpsert now (b.under d keyInserts) = (r.bindUpsert now b).under d keyInserts := by
  -- Rules keep the key marks, so the keys stay writable along the way.
  let Same (b c : Binding) : Prop := b.WritesKeys ∧ c = b.under d keyInserts
  have hsame : Same (r.bindUpsert now b) (r.bindUpsert now (b.under d keyInserts)) := by
    refine r.bindUpsert_relation now ?_ ?_ ⟨h, rfl⟩
    · rintro v - b _ ⟨hwrites, rfl⟩
      exact ⟨hwrites.congr (keyMarks_bindRule _ _ b), bindRule_under hwrites d keyInserts _ _⟩
    · rintro v - b _ ⟨hwrites, rfl⟩
      exact ⟨hwrites.congr (keyMarks_restrict _ _ _ b), rfl⟩
  exact hsame.2

theorem frame_under (d : Dialect) (keyInserts : Bool) (b : Binding) :
    (b.under d keyInserts).frame = (b.frame.1, d, b.frame.2.2) := rfl

end Binding

/-! ### Parts of an upsert -/

/-- An entry has parts only if it is bound; a key is inserted and not updated, and the database does
not fill it. -/
structure Entry.FitsUpsert (e : Entry) : Prop where
  insert : e.insert → e.isBound
  update : e.update → e.isBound
  key : e.isKey → e.insert = true ∧ e.update = false
  writable : e.isKey → e.column.isWritable

theorem Entry.FitsUpsert.bind {e : Entry} (h : e.FitsUpsert) (value : Value) (origin : Origin) :
    (e.bind value origin).FitsUpsert :=
  ⟨fun _ ↦ rfl, fun _ ↦ rfl, h.key, h.writable⟩

namespace Binding

variable {b c : Binding}

theorem fitsUpsert_withParts (hb : b.keyUpdates = false) {e : Entry}
    (hkey : e.isKey → e.isBound ∧ e.column.isWritable) : (b.withParts e).FitsUpsert where
  insert h := (Bool.and_eq_true_iff.mp h).1
  update h := (Bool.and_eq_true_iff.mp h).1
  key h := by
    obtain ⟨hbound, hwritable⟩ := hkey h
    have hisKey : e.isKey = true := h
    simp [withParts, insertable, updatable, hbound, hwritable, hisKey, hb]
  writable h := (hkey h).2

theorem keyUpdates_bindRule (name : String) (value : Value) (b : Binding) :
    (b.bindRule name value).keyUpdates = b.keyUpdates := by
  rw [bindRule]
  split <;> rfl

theorem fitsUpsert_bindRule (hb : b.keyUpdates = false) (h : ∀ e ∈ b.entries, e.FitsUpsert)
    (name : String) (value : Value) : ∀ e ∈ (b.bindRule name value).entries, e.FitsUpsert := by
  rw [bindRule]
  split
  · refine forall_mapEntries (P := Entry.FitsUpsert) (b := b.changed name (Entry.bind value .audit))
      (forall_changed h fun e _ he ↦ he.bind value .audit) fun e he ↦ ?_
    exact fitsUpsert_withParts hb fun hkey ↦ ⟨he.insert (he.key hkey).1, he.writable hkey⟩
  · exact h

theorem fitsUpsert_restrict (h : ∀ e ∈ b.entries, e.FitsUpsert) {name : String}
    (hkey : ∀ e, b.entry? name = some e → e.isKey = false) (insert update : Bool) :
    ∀ e ∈ (b.restrict name insert update).entries, e.FitsUpsert := by
  refine forall_changed h fun e hfound he ↦ ⟨?_, ?_, ?_, he.writable⟩
  · exact fun hinsert ↦ he.insert (Bool.and_eq_true_iff.mp hinsert).1
  · exact fun hupdate ↦ he.update (Bool.and_eq_true_iff.mp hupdate).1
  · intro hisKey
    rw [hkey e hfound] at hisKey
    simp at hisKey

/-! ### Columns that are read -/

theorem Upserts.of_unread (h : c.unread = b.unread) (honce : c.BoundOnce)
    (hb : ∀ e ∈ b.entries, e.FitsUpsert) : c.Upserts := by
  have hfits : ∀ e ∈ c.entries, e.FitsUpsert :=
    forall_of_unread h (fun e he ↦ ⟨he.insert, he.update, he.key, he.writable⟩)
      fun e he ↦ ⟨(hb e he).insert, (hb e he).update, (hb e he).key, (hb e he).writable⟩
  exact ⟨honce, fun e he ↦ (hfits e he).insert, fun e he ↦ (hfits e he).update,
    fun e he ↦ (hfits e he).key⟩

theorem valuesWhere_congr (h : c.unread = b.unread) {p : Entry → Bool}
    (hp : ∀ e, p { e with read := false } = p e) : c.valuesWhere p = b.valuesWhere p := by
  have hunread (b : Binding) : b.unread.valuesWhere p = b.valuesWhere p := by
    simp [valuesWhere, unread, mapEntries, List.filter_map, Function.comp_def, hp]
  rw [← hunread c, h, hunread]

theorem keyMarks_unread (h : c.unread = b.unread) : c.keyMarks = b.keyMarks := by
  have hunread (b : Binding) : b.unread.keyMarks = b.keyMarks := by
    simp [keyMarks, unread, mapEntries, Function.comp_def]
  rw [← hunread c, h, hunread]

end Binding

namespace Relation

variable {R : Relation} {b c : Binding} {rows : List Tuple}

theorem settled_congr (h : c.unread = b.unread) (updates : List (Column × Value)) :
    R.settled c updates rows = R.settled b updates rows := by
  have hkeys : c.keyValues = b.keyValues := Binding.valuesWhere_congr h fun _ ↦ rfl
  have hinserts : c.insertValues = b.insertValues := Binding.valuesWhere_congr h fun _ ↦ rfl
  rw [settled, settled, hkeys, hinserts]

theorem upserted_congr (h : c.unread = b.unread) : R.upserted c rows = R.upserted b rows := by
  have hupdates : c.updateValues = b.updateValues := Binding.valuesWhere_congr h fun _ ↦ rfl
  rw [upserted, upserted, hupdates, settled_congr h]

theorem FillsUpdates.congr (hb : R.FillsUpdates b rows) (h : c.unread = b.unread) :
    R.FillsUpdates c rows :=
  Binding.forall_of_unread (P := fun e ↦ e.update → e.insert = false →
    R.fill rows e.column = e.value.getD .null) h (fun _ ↦ id) hb

end Relation

/-! ### Bindings of arguments -/

namespace Binding

variable {b c : Binding}

/-- The entries have the parts that the binding's choices give them, and it makes none about
keys. -/
structure Plain (b : Binding) : Prop where
  refreshed : b.refreshed = b
  keyInserts : b.keyInserts = false
  keyUpdates : b.keyUpdates = false

theorem Plain.of_bindArgument {a : Argument} {marks : Bool} (hinserts : b.keyInserts = false)
    (hupdates : b.keyUpdates = false) (h : b.apply (bindArgument a marks) = .ok c) : c.Plain := by
  have hchoices : c.keyInserts = false ∧ c.keyUpdates = false := by
    refine bindArgument_induction (I := fun c ↦ c.keyInserts = false ∧ c.keyUpdates = false)
      (fun _ _ _ hc ↦ hc) (fun _ hc ↦ hc) ?_ h
    cases marks <;> exact ⟨hinserts, hupdates⟩
  refine ⟨?_, hchoices.1, hchoices.2⟩
  rw [apply_bindArgument] at h
  split at h
  · simp at h
  · obtain ⟨c, -, rfl⟩ := map_eq_ok.mp h
    exact refreshed_refreshed c

theorem Plain.withIdentities (h : b.Plain) (wanted : Bool) : (b.withIdentities wanted).Plain := by
  cases wanted with
  | false => exact h
  | true => exact ⟨refreshed_refreshed _, h.keyInserts, h.keyUpdates⟩

theorem BoundOnce.withIdentities (h : b.BoundOnce) (wanted : Bool) :
    (b.withIdentities wanted).BoundOnce := by
  cases wanted with
  | false => exact h
  | true => exact BoundOnce.refreshed (b := { b with identityInsert := true }) h

theorem Plain.fitsUpsert (h : b.Plain) (hwrites : b.WritesKeys) (hkeys : b.hasKeyValues) :
    ∀ e ∈ b.entries, e.FitsUpsert := by
  intro e he
  rw [← h.refreshed] at he
  obtain ⟨e, hentry, rfl⟩ := List.mem_map.mp he
  refine fitsUpsert_withParts h.keyUpdates fun hkey ↦ ⟨?_, hwrites.isWritable hentry hkey⟩
  simp only [hasKeyValues, Bool.and_eq_true, List.all_eq_true] at hkeys
  exact hkeys.2 e (List.mem_filter.mpr ⟨hentry, hkey⟩)

/-- Inserting key columns that the database does not fill is no choice. -/
theorem withKeyInserts_inDialect (h : b.Plain) (hwrites : b.WritesKeys) (d : Dialect)
    (wanted : Bool) : (b.inDialect d).withKeyInserts wanted = b.under d wanted := by
  cases wanted with
  | false =>
    have hsame : b.under d false = b.inDialect d := by
      rw [under, ← h.keyInserts]
      rfl
    exact hsame.symm
  | true =>
    have hrefreshed := refreshed_under hwrites d true
    rw [h.refreshed] at hrefreshed
    exact hrefreshed

end Binding

namespace Command

variable {env : Environment} {t : Table} {a : Argument} {o : UpsertOptions} {b : Binding}

/-- The binding of an upsert, apart from how its dialect finds the row. -/
def upsertBinding (env : Environment) (t : Table) (a : Argument) (o : UpsertOptions) :
    Except Error Binding :=
  ((binding env t).apply (Binding.bindArgument a o.useKeyMarks)).map fun b ↦
    env.rules.bindUpsert env.now (b.withIdentities o.identityInsert)

/-- No rule of an upsert is about a column of its key. -/
def LeavesKeys (env : Environment) (t : Table) (b : Binding) : Prop :=
  ∀ v ∈ env.rules.values, ∀ c, t.column? v.column = some c → c ∉ b.keyColumns

theorem fitsUpsert_bindUpsert {base : Binding} (hframe : base.frame = (binding env t).frame)
    (hupdates : base.keyUpdates = false) (hbase : ∀ e ∈ base.entries, e.FitsUpsert)
    (hrules : LeavesKeys env t base) :
    ∀ e ∈ (env.rules.bindUpsert env.now base).entries, e.FitsUpsert := by
  let Fits (b : Binding) : Prop := b.frame = (binding env t).frame ∧ b.keyUpdates = false ∧
    b.keyMarks = base.keyMarks ∧ ∀ e ∈ b.entries, e.FitsUpsert
  have hfits : Fits (env.rules.bindUpsert env.now base) := by
    refine env.rules.bindUpsert_induction env.now ?_ ?_ ⟨hframe, hupdates, rfl, hbase⟩
    · rintro v - b ⟨hframe, hupdates, hmarks, hb⟩
      exact ⟨(Binding.frame_bindRule _ _ b).trans hframe,
        (Binding.keyUpdates_bindRule _ _ b).trans hupdates,
        (Binding.keyMarks_bindRule _ _ b).trans hmarks,
        Binding.fitsUpsert_bindRule hupdates hb _ _⟩
    · rintro v hv b ⟨hframe, hupdates, hmarks, hb⟩
      have hother (e : Entry) (he : b.entry? v.column = some e) : e.isKey = false := by
        by_contra hkey
        have hmem : e.column ∈ b.keyColumns := List.mem_map_of_mem
          (List.mem_filter.mpr ⟨List.mem_of_find?_eq_some he, by simpa using hkey⟩)
        rw [Binding.keyColumns_of_keyMarks hmarks] at hmem
        have hcolumn := column?_of_entry? hframe he
        exact hrules v hv e.column hcolumn hmem
      exact ⟨(Binding.frame_restrict _ _ _ b).trans hframe, hupdates,
        (Binding.keyMarks_restrict _ _ _ b).trans hmarks,
        Binding.fitsUpsert_restrict hb hother _ _⟩
  exact hfits.2.2.2

/-- Neither the dialect nor its way to find the row is seen in the entries of the base. -/
theorem upsertBase_inDialect (hplain : (b.withIdentities o.identityInsert).Plain)
    (hwrites : (b.withIdentities o.identityInsert).WritesKeys) (d : Dialect) :
    upsertBase { env with dialect := d } (b.inDialect d) o =
      (b.withIdentities o.identityInsert).under d (findsByClash d) := by
  have hidentities : (b.inDialect d).withIdentities o.identityInsert =
      (b.withIdentities o.identityInsert).inDialect d := by
    cases o.identityInsert <;> rfl
  rw [upsertBase, hidentities]
  exact Binding.withKeyInserts_inDialect hplain hwrites d _

/-- The plan that an upsert is carried out by is made of the same binding in every dialect. -/
theorem prepareUpsert_ok (hb : upsertBinding env t a o = .ok b) (hkeys : b.WritesKeys)
    (hrules : LeavesKeys env t b) {d : Dialect} {desired : Desired} {chain : Chain}
    (h : prepareUpsert { env with dialect := d } desired t a o = .ok chain) :
    ∃ p : WritePlan, p.upsertChain = .ok chain ∧ p.check = .ignore ∧ p.dialect = d ∧
      p.target = t.target ∧ p.binding.unread = (b.under d (findsByClash d)).unread ∧
        p.binding.Upserts := by
  obtain ⟨c, hc, rfl⟩ := map_eq_ok.mp hb
  have hmarks := Binding.keyMarks_bindUpsert env.rules env.now (c.withIdentities o.identityInsert)
  have hplain := (Binding.Plain.of_bindArgument rfl rfl hc).withIdentities o.identityInsert
  have hwrites := hkeys.congr hmarks.symm
  have hframe : (c.withIdentities o.identityInsert).frame = (binding env t).frame := by
    rw [Binding.frame_withIdentities, Binding.frame_bindArgument hc]
  have honce : (c.withIdentities o.identityInsert).BoundOnce :=
    ((boundOnce_binding env t).bindArgument hc).withIdentities o.identityInsert
  rw [prepareUpsert_eq] at h
  obtain ⟨c', hc', h⟩ := bind_eq_ok.mp h
  have hsame : c' = c.inDialect d := by
    have hbound := Binding.bindArgument_inDialect d a o.useKeyMarks (binding env t)
    rw [hc] at hbound
    exact Except.ok.inj (hc'.symm.trans hbound)
  rw [hsame, upsertBase_inDialect hplain hwrites] at h
  split at h
  · simp at h
  rename_i hmissing
  have hvalues : (c.withIdentities o.identityInsert).hasKeyValues = true := by
    rw [Bool.not_eq_true, Bool.not_eq_false'] at hmissing
    exact hmissing
  split at h
  · simp at h
  obtain ⟨r, hr, h⟩ := bind_eq_ok.mp h
  rw [Binding.bindUpsert_under hwrites] at hr
  obtain ⟨hrframe, hunread, hronce⟩ := returningFor_ok hr
  have hfits := fitsUpsert_bindUpsert hframe hplain.keyUpdates
    (hplain.fitsUpsert hwrites hvalues) fun v hv c hc ↦ by
      rw [← Binding.keyColumns_of_keyMarks hmarks]
      exact hrules v hv c hc
  have hframed := hrframe.trans (Binding.frame_under d (findsByClash d) _)
  rw [Binding.frame_bindUpsert, hframe, frame_binding] at hframed
  refine ⟨_, h, rfl, congrArg (·.2.1) hframed, congrArg (·.1) hframed, hunread, ?_⟩
  exact Binding.Upserts.of_unread hunread (hronce (honce.bindUpsert _ _)) hfits

/-- Every upsert runs, and in every dialect it leaves the rows that it is to leave, unless a row is
found by a clash of keys while the database does not fill the columns that are updated but not
inserted with the values they are updated to. -/
theorem prepare_upsert (hb : upsertBinding env t a o = .ok b) (hkeys : b.WritesKeys)
    (hrules : LeavesKeys env t b) {d : Dialect} {desired : Desired} {chain : Chain}
    (h : prepare { env with dialect := d } desired (.upsert t a o) = .ok chain) {R : Relation}
    (htarget : R.target = t.target) (hkey : R.key = b.keyColumns) {rows : List Tuple}
    (hrows : R.Keyed rows) (s : Settings) (m : Materializer) :
    ∃ answer rows', R.connection.runChain s chain m rows = .ok answer rows' ∧
      (rows' = R.upserted b rows ↔
        (findsByClash d → rows.any (Tuple.matching b.keyValues) → R.FillsUpdates b rows)) := by
  obtain ⟨p, hchain, hcheck, rfl, hptarget, hunread, hupserts⟩ :=
    prepareUpsert_ok hb hkeys hrules h
  obtain ⟨steps, hsteps, hruns⟩ := p.upsertChain_ok hcheck hchain
  have hpkey : R.key = p.binding.keyColumns := by
    rw [hkey, Binding.keyColumns_of_keyMarks (Binding.keyMarks_unread hunread)]
    rfl
  have hleft := Relation.runSteps_upsert hupserts (htarget.trans hptarget.symm) hpkey hrows hsteps
  obtain ⟨answer, hanswer⟩ := Relation.runChain_ok hruns hleft s m
  refine ⟨answer, _, hanswer, ?_⟩
  have hupserted : R.upserted p.binding rows = R.upserted b rows :=
    Relation.upserted_congr (b := b.under p.dialect (findsByClash p.dialect)) hunread
  rw [← hupserted]
  cases hclash : findsByClash p.dialect with
  | false => exact ⟨fun _ hfound ↦ absurd hfound Bool.false_ne_true, fun _ ↦ rfl⟩
  | true =>
    have hkeyValues : p.binding.keyValues = b.keyValues :=
      Binding.valuesWhere_congr hunread fun _ ↦ rfl
    rw [if_pos rfl, Relation.settled_proposedUpdates_iff hupserts, hkeyValues]
    refine ⟨fun hfills _ hany ↦ ?_, fun hfills hany ↦ ?_⟩
    · exact Relation.FillsUpdates.congr (c := b.under p.dialect (findsByClash p.dialect))
        (hfills hany) hunread.symm
    · exact Relation.FillsUpdates.congr (b := b.under p.dialect (findsByClash p.dialect))
        (hfills rfl hany) hunread

/-- The binding of an upsert of a user by the key alone, with a name that a rule for updates
gives. -/
def keyedUser (d : Dialect) (key name : Value) : Binding where
  target := (Users.table d).target
  dialect := d
  strict := false
  entries :=
    [{ column := Users.id d, insert := true, isKey := true, value := some key },
      { column := Users.name d, update := true, isKey := false, value := some name
        origin := .audit },
      { column := Users.removed d, isKey := false }]

/-- Users without a name are stored with none. -/
def users (d : Dialect) : Relation where
  target := (Users.table d).target
  key := [Users.id d]
  fill _ _ := .null

/-- A user that has nothing but a key. -/
def bareUser (d : Dialect) (key : Value) : Tuple := fun c ↦ if c = Users.id d then key else .null

theorem upsert_user_unnamed :
    ∃ chain answer rows', prepare (Users.environment .sqlite (.bool true) (.text "Eve")) .none
        (.upsert (Users.table .sqlite) (.properties [⟨"Id", .int 1, false⟩]) {}) = .ok chain ∧
      (users .sqlite).connection.runChain {} chain .count [bareUser .sqlite (.int 1)] =
        .ok answer rows' ∧
      rows' ≠ (users .sqlite).upserted (keyedUser .sqlite (.int 1) (.text "Eve"))
        [bareUser .sqlite (.int 1)] := by
  have hbinding : upsertBinding (Users.environment .sqlite (.bool true) (.text "Eve"))
      (Users.table .sqlite) (.properties [⟨"Id", .int 1, false⟩]) {} =
        .ok (keyedUser .sqlite (.int 1) (.text "Eve")) := by decide +kernel
  have hwrites : (keyedUser .sqlite (.int 1) (.text "Eve")).WritesKeys := by
    change ∀ c ∈ [Users.id .sqlite], c.isWritable
    decide +kernel
  have hrules : LeavesKeys (Users.environment .sqlite (.bool true) (.text "Eve"))
      (Users.table .sqlite) (keyedUser .sqlite (.int 1) (.text "Eve")) := by
    intro v hv c hc
    obtain rfl := List.mem_singleton.mp hv
    have hname : (Users.table .sqlite).column? "Name" = some (Users.name .sqlite) := by
      decide +kernel
    obtain rfl := Option.some.inj (hname.symm.trans hc)
    decide +kernel
  have hrows : (users .sqlite).Keyed [bareUser .sqlite (.int 1)] := List.pairwise_singleton _ _
  have hok : (prepare (Users.environment .sqlite (.bool true) (.text "Eve")) .none
      (.upsert (Users.table .sqlite) (.properties [⟨"Id", .int 1, false⟩])
        {})).toOption.isSome := by decide +kernel
  obtain ⟨chain, hchain⟩ := exists_ok_of_isSome hok
  obtain ⟨answer, rows', hrun, hexactly⟩ :=
    prepare_upsert hbinding hwrites hrules hchain rfl rfl hrows {} .count
  refine ⟨chain, answer, rows', hchain, hrun, fun hleft ↦ ?_⟩
  have hfills := hexactly.mp hleft rfl (by decide +kernel)
  have hunnamed : Value.null = .text "Eve" :=
    hfills { column := Users.name .sqlite, update := true, isKey := false
             value := some (.text "Eve"), origin := .audit } (by simp [keyedUser]) rfl rfl
  simp at hunnamed

end Command

end SchemaSql
