import SchemaSql.Proofs.Binding.Bound

/-!
The entry that the names of a column mean: the first one with that column. Binding an argument or
rules is a run of changes by name, and seen from one column it is the run of those changes whose
names mean the column. So of all properties the last one that means a column decides on its value
and mark, of all rules the last one that means it decides on its value, and the parts of an upsert
are left to it by all rules that mean it.
-/

set_option autoImplicit false
set_option relaxedAutoImplicit false

namespace SchemaSql

/-- Those of some items whose names mean the column. -/
def Table.naming {α : Type} (t : Table) (c : Column) (name : α → String) (xs : List α) : List α :=
  xs.filter fun x ↦ t.column? (name x) = some c

namespace Binding

/-- The entry that the names of a column mean. -/
def entryOf? (b : Binding) (c : Column) : Option Entry := b.entries.find? fun e ↦ e.column = c

section Meant

variable {b : Binding} {c : Column} {e : Entry} {f : Entry → Entry}

theorem mem_of_entryOf? (h : b.entryOf? c = some e) : e ∈ b.entries := List.mem_of_find?_eq_some h

theorem column_of_entryOf? (h : b.entryOf? c = some e) : e.column = c := by
  simpa using List.find?_some h

theorem entryOf?_mapEntries (hf : ∀ e, (f e).column = e.column) (c : Column) :
    (b.mapEntries f).entryOf? c = (b.entryOf? c).map f := by
  rw [entryOf?, mapEntries, List.find?_map]
  congr 2
  funext e
  simp [hf]

theorem changed_of_none {name : String} (h : b.entry? name = none) : b.changed name f = b := by
  rw [changed, changeFirst_of_none h]

/-- A change by name is one of the entry that the name's column means. -/
theorem entryOf?_changed {name : String} (hf : ∀ e, (f e).column = e.column) (c : Column) :
    (b.changed name f).entryOf? c =
      if (b.entry? name).map (·.column) = some c then (b.entryOf? c).map f else b.entryOf? c := by
  cases hfound : b.entry? name with
  | none => rw [changed_of_none hfound, Option.map_none, if_neg (Option.some_ne_none c).symm]
  | some e₀ =>
    obtain ⟨before, after, hentries, hbefore, hchanged⟩ := changeFirst_eq (f := f) hfound
    rw [entryOf?, entryOf?, changed, hchanged, hentries, List.find?_append, List.find?_append,
      List.find?_cons, List.find?_cons, hf]
    by_cases hcolumn : e₀.column = c
    · -- The entries in front do not answer to the name, so that they have other columns.
      have hanswers : e₀.column.answersTo name = true := by simpa using List.find?_some hfound
      have hnone : before.find? (fun e ↦ decide (e.column = c)) = none := by
        refine List.find?_eq_none.mpr fun e he ↦ ?_
        rw [decide_eq_true_eq]
        intro hsame
        rw [hcolumn, ← hsame, hbefore e he] at hanswers
        simp at hanswers
      simp [hnone, hcolumn]
    · simp [hcolumn]

/-- A bound entry is the one that its column means. -/
theorem BoundOnce.entryOf?_eq (hb : b.BoundOnce) (he : e ∈ b.entries) (hbound : e.isBound) :
    b.entryOf? e.column = some e := by
  obtain ⟨before, after, hentries⟩ := List.append_of_mem he
  refine List.find?_eq_some_iff_append.mpr ⟨by simp, before, after, hentries, fun e' he' ↦ ?_⟩
  rw [BoundOnce, hentries] at hb
  have hdistinct := (List.pairwise_append.mp hb).2.2 e' he' e List.mem_cons_self hbound
  simpa using hdistinct.symm

/-- What holds of a bound entry with a column holds of the one that the column means. -/
theorem BoundOnce.exists_entry_iff (hb : b.BoundOnce) {P : Entry → Prop}
    (hP : ∀ e ∈ b.entries, P e → e.isBound) :
    (∃ e ∈ b.entries, P e ∧ e.column = c) ↔ ∃ e, b.entryOf? c = some e ∧ P e := by
  constructor
  · rintro ⟨e, he, hholds, rfl⟩
    exact ⟨e, hb.entryOf?_eq he (hP e he hholds), hholds⟩
  · rintro ⟨e, he, hholds⟩
    exact ⟨e, mem_of_entryOf? he, hholds, column_of_entryOf? he⟩

/-- Among bound entries there is but the one with its column. -/
theorem BoundOnce.filter_column (hb : b.BoundOnce) {p : Entry → Bool}
    (hp : ∀ e ∈ b.entries, p e → e.isBound) (he : e ∈ b.entries.filter p) :
    (b.entries.filter p).filter (fun e' ↦ e'.column = e.column) = [e] := by
  obtain ⟨before, after, hsplit⟩ := List.append_of_mem he
  have hpairwise : (b.entries.filter p).Pairwise fun e e' ↦ e.column ≠ e'.column := by
    refine List.Pairwise.imp_of_mem ?_ (List.Pairwise.filter p hb)
    intro e e' _ he' hdistinct hsame
    obtain ⟨hentry, hchosen⟩ := List.mem_filter.mp he'
    exact hdistinct (hp e' hentry hchosen) hsame.symm
  rw [hsplit] at hpairwise ⊢
  obtain ⟨-, hpost, hcross⟩ := List.pairwise_append.mp hpairwise
  have hbefore : before.filter (fun e' ↦ decide (e'.column = e.column)) = [] :=
    List.filter_eq_nil_iff.mpr fun e' he' ↦ by
      simpa using hcross e' he' e List.mem_cons_self
  have hafter : after.filter (fun e' ↦ decide (e'.column = e.column)) = [] :=
    List.filter_eq_nil_iff.mpr fun e' he' ↦ by
      simpa using ((List.pairwise_cons.mp hpost).1 e' he').symm
  simp [List.filter_append, hbefore, hafter]

end Meant

/-! ### Runs of changes -/

section Runs

variable {α : Type} {name : α → String} {f : α → Entry → Entry} {b : Binding} {t : Table}

/-- The binding after a change for each of some items. -/
def changedBy (name : α → String) (f : α → Entry → Entry) (xs : List α) (b : Binding) : Binding :=
  xs.foldl (fun b x ↦ b.changed (name x) (f x)) b

theorem columns_changed {name : String} {f : Entry → Entry} (hf : ∀ e, (f e).column = e.column) :
    (b.changed name f).entries.map (·.column) = b.entries.map (·.column) :=
  map_changeFirst hf

/-- Seen from one column, a run of changes is the run of those that mean it. -/
theorem entryOf?_changedBy (hf : ∀ x e, (f x e).column = e.column)
    (hb : b.entries.map (·.column) = t.columns) (xs : List α) (c : Column) :
    (b.changedBy name f xs).entryOf? c =
      (b.entryOf? c).map fun e ↦ (t.naming c name xs).foldl (fun e x ↦ f x e) e := by
  induction xs generalizing b with
  | nil => exact Option.map_id'.symm
  | cons x xs ih =>
    have hmeans : (b.entry? (name x)).map (·.column) = t.column? (name x) := by
      rw [Table.column?, ← hb, List.find?_map]
      rfl
    rw [changedBy, List.foldl_cons, ← changedBy, ih ((columns_changed (hf x)).trans hb),
      entryOf?_changed (hf x), hmeans, Table.naming, Table.naming]
    by_cases hx : t.column? (name x) = some c
    · simp [hx, Function.comp_def]
    · simp [hx]

/-- Where each change undoes those before it, the last one counts. -/
theorem foldl_of_overwrites (hf : ∀ x y e, f y (f x e) = f y e) (xs : List α) (e : Entry) :
    xs.foldl (fun e x ↦ f x e) e = xs.getLast?.elim e (f · e) := by
  induction xs generalizing e with
  | nil => rfl
  | cons x xs ih =>
    rw [List.foldl_cons, ih, List.getLast?_cons]
    cases xs.getLast? with
    | none => rfl
    | some y => exact hf x y e

end Runs

/-! ### Parts -/

section Parts

variable {b c : Binding}

/-- The choices that give the bound columns of a binding their parts. -/
def choices (b : Binding) : Bool × Bool × Bool := (b.identityInsert, b.keyInserts, b.keyUpdates)

theorem withParts_congr (h : c.choices = b.choices) : c.withParts = b.withParts := by
  simp only [choices, Prod.mk.injEq] at h
  obtain ⟨hidentities, hinserts, hupdates⟩ := h
  funext e
  simp only [withParts, insertable, updatable, hidentities, hinserts, hupdates]

theorem refreshed_refreshed (b : Binding) : b.refreshed.refreshed = b.refreshed := by
  simp [refreshed, mapEntries, Function.comp_def, withParts, insertable, updatable, Entry.isBound]

theorem entryOf?_refreshed (b : Binding) (c : Column) :
    b.refreshed.entryOf? c = (b.entryOf? c).map b.withParts :=
  entryOf?_mapEntries (f := b.withParts) (fun _ ↦ rfl) c

/-- In a refreshed binding entries have the parts that the binding's choices give them. -/
theorem withParts_of_entryOf? (hb : b.refreshed = b) {c : Column} {e : Entry}
    (he : b.entryOf? c = some e) : b.withParts e = e := by
  have hparts := entryOf?_refreshed b c
  rw [hb, he] at hparts
  exact (Option.some.inj hparts).symm

end Parts

/-! ### Arguments -/

section Arguments

variable {b c : Binding} {marks : Bool}

theorem isSome_entry?_changed {f : Entry → Entry} (hf : ∀ e, (f e).column = e.column)
    (b : Binding) (name other : String) :
    (Binding.entry? (b.changed name f) other).isSome = (b.entry? other).isSome := by
  rw [← Option.isSome_map (f := Entry.column), entry?_column, frame_changed hf, ← entry?_column,
    Option.isSome_map]

theorem changeIfKnown_eq_ok {name : String} {f : Entry → Entry} {missing : Binding → Error} :
    b.apply (changeIfKnown name f missing) = .ok c ↔
      (b.strict → (b.entry? name).isSome) ∧ b.changed name f = c := by
  rw [apply_changeIfKnown]
  by_cases hknown : (b.entry? name).isSome = true
  · simp [hknown, changed]
  · have hsame := changed_of_none (f := f) (Option.not_isSome_iff_eq_none.mp hknown)
    cases hstrict : b.strict <;> simp [hknown, hsame]

/-- Properties are bound if a strict binding knows them all; others are passed over. -/
theorem bindProperties_eq_ok {ps : List Property} :
    b.apply (bindProperties marks ps) = .ok c ↔
      (b.strict → ∀ p ∈ ps, (b.entry? p.name).isSome) ∧
        b.changedBy (·.name) (bound marks) ps = c := by
  induction ps generalizing b with
  | nil =>
    rw [show b.apply (bindProperties marks []) = .ok b from rfl]
    simp [changedBy]
  | cons p ps ih =>
    have hknown (q : Property) := isSome_entry?_changed (column_bound marks p) b p.name q.name
    simp only [apply_bindProperties_cons, bind_eq_ok, bindProperty, changeIfKnown_eq_ok, ih,
      List.forall_mem_cons]
    constructor
    · rintro ⟨_, ⟨hfirst, rfl⟩, hrest, rfl⟩
      exact ⟨fun hstrict ↦ ⟨hfirst hstrict, fun q hq ↦ hknown q ▸ hrest hstrict q hq⟩, rfl⟩
    · rintro ⟨hall, rfl⟩
      exact ⟨_, ⟨fun hstrict ↦ (hall hstrict).1, rfl⟩,
        fun hstrict q hq ↦ (hknown q).symm ▸ (hall hstrict).2 q hq, rfl⟩

/-- An argument is bound if a strict binding knows all its properties and, where its key marks are
to count, it has some. -/
theorem bindArgument_eq_ok {a : Argument} :
    b.apply (bindArgument a marks) = .ok c ↔
      (marks → a.toProperties.any (·.isKey)) ∧
        (b.strict → ∀ p ∈ a.toProperties, (b.entry? p.name).isSome) ∧
          ((b.marked marks).changedBy (·.name) (bound marks) a.toProperties).refreshed = c := by
  have hstrict : (b.marked marks).strict = b.strict := by cases marks <;> rfl
  have hknown (name : String) :
      (Binding.entry? (b.marked marks) name).isSome = (b.entry? name).isSome := by
    cases marks with
    | false => rfl
    | true =>
      have hcolumn : ∀ e : Entry, ({ e with isKey := false } : Entry).column = e.column :=
        fun _ ↦ rfl
      exact isSome_entry?_mapEntries hcolumn b name
  rw [apply_bindArgument]
  split
  · rename_i hmissing
    simp only [Bool.and_eq_true, Bool.not_eq_true'] at hmissing
    simp [hmissing.1, hmissing.2]
  · rename_i hmarked
    simp only [Bool.and_eq_true, Bool.not_eq_true', not_and, Bool.not_eq_false] at hmarked
    simp only [map_eq_ok, bindProperties_eq_ok, hstrict, hknown]
    constructor
    · rintro ⟨_, ⟨hall, rfl⟩, rfl⟩
      exact ⟨hmarked, hall, rfl⟩
    · rintro ⟨-, hall, rfl⟩
      exact ⟨_, ⟨hall, rfl⟩, rfl⟩

/-- The choices of a binding are not touched by changes of its entries. -/
theorem choices_changedBy {α : Type} (name : α → String) (f : α → Entry → Entry) (xs : List α)
    (b : Binding) : (b.changedBy name f xs).choices = b.choices := by
  induction xs generalizing b with
  | nil => rfl
  | cons x xs ih => exact ih (b.changed (name x) (f x))

end Arguments

end Binding

namespace Argument

/-- The value that the argument has for a column: the last one given under its names. -/
def valueFor? (a : Argument) (t : Table) (c : Column) : Option Value :=
  (t.naming c (·.name) a.toProperties).getLast?.map (·.value)

/-- What an argument makes of a column of a table: the last property that means the column binds it
and, if marks count, says whether it is part of the key. -/
def entryFor (a : Argument) (t : Table) (marks : Bool) (c : Column) : Entry :=
  (t.naming c (·.name) a.toProperties).getLast?.elim
    { column := c, isKey := !marks && c.isKey }
    fun p ↦ Binding.bound marks p { column := c, isKey := !marks && c.isKey }

section EntryFor

variable {a : Argument} {t : Table} {marks : Bool} {c : Column}

theorem entryFor_value : (a.entryFor t marks c).value = a.valueFor? t c := by
  rw [entryFor, valueFor?]
  cases (t.naming c (·.name) a.toProperties).getLast? with
  | none => rfl
  | some p => cases marks <;> rfl

theorem entryFor_origin : (a.entryFor t marks c).origin = .argument := by
  rw [entryFor]
  cases (t.naming c (·.name) a.toProperties).getLast? with
  | none => rfl
  | some p => cases marks <;> rfl

theorem entryFor_column : (a.entryFor t marks c).column = c := by
  rw [entryFor]
  cases (t.naming c (·.name) a.toProperties).getLast? with
  | none => rfl
  | some p => cases marks <;> rfl

/-- The key marks of an argument go by the last property that means a column. -/
theorem entryFor_isKey : (a.entryFor t marks c).isKey =
    if marks then (t.naming c (·.name) a.toProperties).getLast?.any (·.isKey) else c.isKey := by
  rw [entryFor]
  cases (t.naming c (·.name) a.toProperties).getLast? with
  | none => cases marks <;> rfl
  | some p => cases marks <;> rfl

end EntryFor

end Argument

namespace Binding

theorem bound_bound (marks : Bool) (p q : Property) (e : Entry) :
    bound marks q (bound marks p e) = bound marks q e := by
  cases marks <;> rfl

theorem entryOf?_marked {t : Table} {target : Target} {d : Dialect} {strict : Bool} (marks : Bool)
    (c : Column) : ((ofColumns target t.columns d strict).marked marks).entryOf? c =
      if c ∈ t.columns then some { column := c, isKey := !marks && c.isKey } else none := by
  have hentry : (ofColumns target t.columns d strict).entryOf? c =
      if c ∈ t.columns then some (Entry.ofColumn c) else none := by
    rw [entryOf?, ofColumns, List.find?_map]
    cases hfound : t.columns.find? ((fun e : Entry ↦ decide (e.column = c)) ∘ Entry.ofColumn) with
    | none =>
      have hmissing : c ∉ t.columns := fun hc ↦
        List.find?_eq_none.mp hfound c hc (decide_eq_true rfl)
      rw [if_neg hmissing, Option.map_none]
    | some c' =>
      have hsame := List.find?_some hfound
      obtain rfl : c' = c := of_decide_eq_true hsame
      rw [if_pos (List.mem_of_find?_eq_some hfound), Option.map_some]
  cases marks with
  | false => exact hentry
  | true =>
    refine (entryOf?_mapEntries (f := fun e ↦ { e with isKey := false }) (fun _ ↦ rfl) c).trans ?_
    rw [hentry]
    split <;> rfl

theorem entryOf?_bindArgument {t : Table} {target : Target} {d : Dialect} {strict marks : Bool}
    {a : Argument} {b : Binding}
    (h : (ofColumns target t.columns d strict).apply (bindArgument a marks) = .ok b) (c : Column) :
    b.entryOf? c = if c ∈ t.columns then some (b.withParts (a.entryFor t marks c)) else none := by
  obtain ⟨-, -, rfl⟩ := bindArgument_eq_ok.mp h
  have hcolumns : ((ofColumns target t.columns d strict).marked marks).entries.map (·.column) =
      t.columns := by
    cases marks <;> simp [marked, ofColumns, mapEntries, Entry.ofColumn, Function.comp_def]
  rw [entryOf?_refreshed, entryOf?_changedBy (column_bound marks) hcolumns, entryOf?_marked]
  split
  · simp only [Option.map_some, foldl_of_overwrites (bound_bound marks)]
    rfl
  · rfl

/-- What an argument has bound has the argument's value for its column, and comes from it. -/
theorem bound_of_bindArgument {t : Table} {target : Target} {d : Dialect} {strict marks : Bool}
    {a : Argument} {b : Binding}
    (h : (ofColumns target t.columns d strict).apply (bindArgument a marks) = .ok b)
    (hb : b.BoundOnce) {e : Entry} (he : e ∈ b.entries) (hbound : e.isBound) :
    a.valueFor? t e.column = e.value ∧ e.origin = .argument := by
  have hmade := hb.entryOf?_eq he hbound
  rw [entryOf?_bindArgument h, Option.ite_none_right_eq_some] at hmade
  obtain ⟨-, hentry⟩ := hmade
  have hvalue := congrArg Entry.value (Option.some.inj hentry)
  have horigin := congrArg Entry.origin (Option.some.inj hentry)
  exact ⟨Argument.entryFor_value.symm.trans hvalue,
    horigin.symm.trans Argument.entryFor_origin⟩

end Binding

/-! ### Rules -/

/-- The rules that mean a column. -/
def Rules.about (r : Rules) (t : Table) (c : Column) : List ValueRule :=
  t.naming c (·.column) r.values

theorem Rules.naming_filter (r : Rules) (t : Table) (c : Column) (p : ValueRule → Bool) :
    t.naming c (·.column) (r.values.filter p) = (r.about t c).filter p := by
  rw [about, Table.naming, Table.naming, List.filter_filter, List.filter_filter]
  simp only [Bool.and_comm]

/-- The entry as the last of some rules binds it. -/
def Entry.ruled (now : Timestamp) (rules : List ValueRule) (e : Entry) : Entry :=
  rules.getLast?.elim e fun v ↦ e.bind (v.value.resolve now) .audit

/-- The entry with the parts that some rules all leave to it. -/
def Entry.restricted (rules : List ValueRule) (e : Entry) : Entry :=
  { e with
    insert := e.insert && rules.all (·.onInsert)
    update := e.update && rules.all (·.onUpdate) }

namespace Binding

section Rules

variable {b : Binding}

/-- What a rule makes of the entry that it means in a refreshed binding. -/
def follow (b : Binding) (now : Timestamp) (v : ValueRule) (e : Entry) : Entry :=
  b.withParts (e.bind (v.value.resolve now) .audit)

/-- What a rule leaves of the parts of an entry. -/
def restrictBy (v : ValueRule) (e : Entry) : Entry :=
  { e with insert := e.insert && v.onInsert, update := e.update && v.onUpdate }

theorem foldl_restrictBy (rules : List ValueRule) (e : Entry) :
    rules.foldl (fun e v ↦ restrictBy v e) e = e.restricted rules := by
  induction rules generalizing e with
  | nil => simp [Entry.restricted]
  | cons v rules ih =>
    rw [List.foldl_cons, ih]
    simp [restrictBy, Entry.restricted, Bool.and_assoc]

/-- In a refreshed binding a rule changes nothing but the entry that it means. -/
theorem bindRule_eq (hb : b.refreshed = b) (now : Timestamp) (v : ValueRule) :
    b.bindRule v.column (v.value.resolve now) = b.changed v.column (b.follow now v) := by
  have hentries : b.entries.map b.withParts = b.entries := congrArg Binding.entries hb
  rw [bindRule]
  split
  · have hcolumn (e : Entry) : (b.withParts e).column = e.column := rfl
    have hbound (e : Entry) : b.withParts (e.bind (v.value.resolve now) .audit) =
        b.follow now v (b.withParts e) := rfl
    have hparts := changeFirst_map hcolumn hbound v.column b.entries
    rw [hentries] at hparts
    exact congrArg (fun entries ↦ { b with entries }) hparts
  · rename_i hunknown
    rw [changed_of_none (Option.not_isSome_iff_eq_none.mp hunknown)]

theorem refreshed_bindRule (hb : b.refreshed = b) (name : String) (value : Value) :
    (b.bindRule name value).refreshed = b.bindRule name value := by
  rw [bindRule]
  split
  · exact refreshed_refreshed _
  · exact hb

theorem choices_bindRule (name : String) (value : Value) (b : Binding) :
    (b.bindRule name value).choices = b.choices := by
  rw [bindRule]
  split <;> rfl

end Rules

end Binding

namespace Rules

variable {b : Binding} {t : Table}

/-- Rules that bind columns keep a binding refreshed, and its choices. -/
theorem refreshed_bindWhere (hb : b.refreshed = b) (r : Rules) (p : ValueRule → Bool)
    (now : Timestamp) : (r.bindWhere p now b).refreshed = r.bindWhere p now b ∧
      (r.bindWhere p now b).choices = b.choices := by
  refine r.bindWhere_induction (I := fun c ↦ c.refreshed = c ∧ c.choices = b.choices) p now ?_
    ⟨hb, rfl⟩
  rintro v - - c ⟨hc, hchoices⟩
  exact ⟨Binding.refreshed_bindRule hc _ _, (Binding.choices_bindRule _ _ c).trans hchoices⟩

theorem bindWhere_eq (hb : b.refreshed = b) (r : Rules) (p : ValueRule → Bool) (now : Timestamp) :
    r.bindWhere p now b = b.changedBy (·.column) (b.follow now) (r.values.filter p) := by
  have hrun (vs : List ValueRule) (c : Binding) (hc : c.refreshed = c)
      (hchoices : c.choices = b.choices) :
      vs.foldl (fun c v ↦ c.bindRule v.column (v.value.resolve now)) c =
        c.changedBy (·.column) (b.follow now) vs := by
    induction vs generalizing c with
    | nil => rfl
    | cons v vs ih =>
      have hfollow : c.follow now v = b.follow now v := by
        funext e
        rw [Binding.follow, Binding.withParts_congr hchoices, Binding.follow]
      rw [List.foldl_cons, ih _ (Binding.refreshed_bindRule hc _ _)
        ((Binding.choices_bindRule _ _ c).trans hchoices), Binding.bindRule_eq hc, hfollow]
      rfl
  exact hrun _ b hb rfl

/-- Of the rules that bind columns, the last one that means a column binds it. -/
theorem entryOf?_bindWhere (hb : b.refreshed = b)
    (hcolumns : b.entries.map (·.column) = t.columns) (r : Rules) (p : ValueRule → Bool)
    (now : Timestamp) (c : Column) : (r.bindWhere p now b).entryOf? c =
      (b.entryOf? c).map fun e ↦ b.withParts (e.ruled now ((r.about t c).filter p)) := by
  rw [bindWhere_eq hb, Binding.entryOf?_changedBy (f := b.follow now) (fun _ _ ↦ rfl) hcolumns,
    naming_filter]
  refine Option.map_congr fun e he ↦ ?_
  rw [Binding.foldl_of_overwrites (f := b.follow now) fun _ _ _ ↦ rfl, Entry.ruled]
  cases ((r.about t c).filter p).getLast? with
  | none => exact (Binding.withParts_of_entryOf? hb he).symm
  | some v => rfl

/-- The rules of an upsert bind a column by the last of them that is for a branch, and leave it in
the branches that all of them are for. -/
theorem entryOf?_bindUpsert (hb : b.refreshed = b)
    (hcolumns : b.entries.map (·.column) = t.columns) (r : Rules) (now : Timestamp) (c : Column) :
    (r.bindUpsert now b).entryOf? c = (b.entryOf? c).map fun e ↦
      (b.withParts (e.ruled now ((r.about t c).filter fun v ↦ v.onInsert || v.onUpdate))).restricted
        (r.about t c) := by
  have hbound := entryOf?_bindWhere hb hcolumns r (fun v ↦ v.onInsert || v.onUpdate) now c
  generalize hwhere : r.bindWhere (fun v ↦ v.onInsert || v.onUpdate) now b = b' at hbound
  have hcolumns' : b'.entries.map (·.column) = t.columns := by
    rw [← hcolumns, ← hwhere]
    exact congrArg (·.2.2) (Binding.frame_bindWhere r _ now b)
  have hrun : r.bindUpsert now b = b'.changedBy (·.column) Binding.restrictBy r.values := by
    rw [bindUpsert, hwhere]
    rfl
  rw [hrun, Binding.entryOf?_changedBy (f := Binding.restrictBy) (fun _ _ ↦ rfl) hcolumns', hbound,
    Option.map_map]
  congr 1
  funext e
  exact Binding.foldl_restrictBy _ _

end Rules

end SchemaSql
