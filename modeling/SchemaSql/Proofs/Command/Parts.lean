import SchemaSql.Proofs.Binding.Entries
import SchemaSql.Proofs.Command.Upsert

/-!
Which columns a binding inserts and updates, and with which values, said column by column. A binding
makes one entry of every column; the choices of the binding give the entry its parts, the argument
and then the rules its value. Its bound entries have different columns, so that the column of a pair
of column and value leads back to the entry.
-/

set_option autoImplicit false
set_option relaxedAutoImplicit false

namespace SchemaSql

/-! ### Values of columns -/

namespace Binding

variable {b : Binding} {p : Entry → Bool}

theorem valuesWhere_columns (b : Binding) (p : Entry → Bool) :
    (b.valuesWhere p).map (·.1) = (b.entries.filter p).map (·.column) := by
  rw [valuesWhere, List.map_map]
  rfl

theorem lookup_valuesWhere (b : Binding) (p : Entry → Bool) (c : Column) :
    (b.valuesWhere p).lookup c =
      ((b.entries.filter p).filter fun e ↦ e.column = c).head?.map (·.value.getD .null) := by
  rw [valuesWhere, List.head?_filter]
  induction b.entries.filter p with
  | nil => rfl
  | cons e es ih =>
    by_cases hcolumn : e.column = c
    · subst hcolumn
      simp
    · simp only [List.map_cons, List.lookup_cons, beq_eq_false_iff_ne.mpr (Ne.symm hcolumn), ih]
      simp [hcolumn]

/-- A bound column has its value among those of certain entries if its entry is one of them. -/
theorem BoundOnce.lookup_valuesWhere (hb : b.BoundOnce) (hp : ∀ e ∈ b.entries, p e → e.isBound)
    {e : Entry} (he : e ∈ b.entries) (hbound : e.isBound) :
    (b.valuesWhere p).lookup e.column = if p e then some (e.value.getD .null) else none := by
  rw [Binding.lookup_valuesWhere]
  split
  · rename_i hchosen
    rw [hb.filter_column hp (List.mem_filter.mpr ⟨he, hchosen⟩)]
    rfl
  · rename_i hleft
    have hnone : ((b.entries.filter p).filter fun e' ↦ e'.column = e.column) = [] := by
      refine List.filter_eq_nil_iff.mpr fun e' he' ↦ ?_
      obtain ⟨hmem, hchosen⟩ := List.mem_filter.mp he'
      rw [decide_eq_true_eq]
      intro hcolumn
      obtain rfl := hb.eq_of_column hmem he (hp e' hmem hchosen) hbound hcolumn
      exact hleft hchosen
    rw [hnone]
    rfl

theorem BoundOnce.mem_valuesWhere (hb : b.BoundOnce) (hp : ∀ e ∈ b.entries, p e → e.isBound)
    {c : Column} {v : Value} : (c, v) ∈ b.valuesWhere p ↔
      ∃ e, b.entryOf? c = some e ∧ p e ∧ e.value = some v := by
  rw [← hb.exists_entry_iff (P := fun e ↦ p e ∧ e.value = some v) fun e he h ↦ hp e he h.1]
  simp only [valuesWhere, List.mem_map, List.mem_filter, Prod.mk.injEq]
  constructor
  · rintro ⟨e, ⟨he, hchosen⟩, hcolumn, hvalue⟩
    obtain ⟨w, hw⟩ := Option.isSome_iff_exists.mp (hp e he hchosen)
    rw [hw, Option.getD_some] at hvalue
    exact ⟨e, he, ⟨hchosen, hvalue ▸ hw⟩, hcolumn⟩
  · rintro ⟨e, he, ⟨hchosen, hvalue⟩, hcolumn⟩
    exact ⟨e, ⟨he, hchosen⟩, hcolumn, by rw [hvalue, Option.getD_some]⟩

end Binding

/-! ### Parts of upserts -/

/-- An entry has parts only if it is bound; a key is bound and not updated. -/
structure Entry.SplitsParts (e : Entry) : Prop where
  insert : e.insert → e.isBound
  update : e.update → e.isBound ∧ e.isKey = false
  key : e.isKey → e.isBound

namespace Binding

variable {b c : Binding}

theorem splitsParts_withParts (hb : b.keyUpdates = false) {e : Entry}
    (hkey : e.isKey → e.isBound) : (b.withParts e).SplitsParts where
  insert h := (Bool.and_eq_true_iff.mp h).1
  update h := by
    obtain ⟨hbound, hupdatable⟩ := Bool.and_eq_true_iff.mp h
    have hkey := (Bool.and_eq_true_iff.mp hupdatable).2
    rw [hb, Bool.or_false, Bool.not_eq_true'] at hkey
    exact ⟨hbound, hkey⟩
  key := hkey

/-- What is bound once has parts by which the branches of an upsert are told apart. -/
structure Splits (b : Binding) : Prop where
  once : b.BoundOnce
  parts : ∀ e ∈ b.entries, e.SplitsParts

theorem Splits.insert (hb : b.Splits) : ∀ e ∈ b.entries, e.insert → e.isBound :=
  fun e he ↦ (hb.parts e he).insert

theorem Splits.update (hb : b.Splits) : ∀ e ∈ b.entries, e.update → e.isBound :=
  fun e he h ↦ ((hb.parts e he).update h).1

theorem Splits.of_unread (hb : b.Splits) (h : c.unread = b.unread) (honce : c.BoundOnce) :
    c.Splits := by
  refine ⟨honce, forall_of_unread h (fun e he ↦ ⟨he.insert, he.update, he.key⟩) fun e he ↦ ?_⟩
  obtain ⟨hinsert, hupdate, hkey⟩ := hb.parts e he
  exact ⟨hinsert, hupdate, hkey⟩

theorem Splits.bindUpsert (hb : b.Splits) (hupdates : b.keyUpdates = false) (r : Rules)
    (now : Timestamp) : (r.bindUpsert now b).Splits := by
  refine ⟨hb.once.bindUpsert r now, ?_⟩
  have hparts : (r.bindUpsert now b).keyUpdates = false ∧
      ∀ e ∈ (r.bindUpsert now b).entries, e.SplitsParts := by
    refine r.bindUpsert_induction (I := fun c ↦ c.keyUpdates = false ∧
      ∀ e ∈ c.entries, e.SplitsParts) now ?_ ?_ ⟨hupdates, hb.parts⟩
    · rintro v - c ⟨hupdates, hc⟩
      refine ⟨(keyUpdates_bindRule _ _ c).trans hupdates, ?_⟩
      rw [bindRule]
      split
      · have hkeys : ∀ e ∈ (c.changed v.column (Entry.bind (v.value.resolve now) .audit)).entries,
            e.isKey → e.isBound := forall_changed (fun e he ↦ (hc e he).key) fun _ _ _ _ ↦ rfl
        intro e he
        obtain ⟨e₀, he₀, rfl⟩ := List.mem_map.mp he
        exact splitsParts_withParts hupdates (hkeys e₀ he₀)
      · exact hc
    · rintro v - c ⟨hupdates, hc⟩
      refine ⟨hupdates, forall_changed hc fun e _ he ↦ ⟨fun h ↦ ?_, fun h ↦ ?_, he.key⟩⟩
      · exact he.insert (Bool.and_eq_true_iff.mp h).1
      · exact he.update (Bool.and_eq_true_iff.mp h).1
  exact hparts.2

end Binding

/-! ### What bindings make of columns -/

/-- Every column of a table means the entry that is made of it, with the parts that the choices of
the binding give it. -/
structure Binding.Makes (b : Binding) (t : Table) (choices : Bool × Bool × Bool)
    (f : Column → Entry) : Prop where
  refreshed : b.refreshed = b
  columns : b.entries.map (·.column) = t.columns
  choices : b.choices = choices
  entry : ∀ c, b.entryOf? c = if c ∈ t.columns then some (b.withParts (f c)) else none

/-- The last rule gives an entry its value. -/
theorem Entry.value_ruled (now : Timestamp) (rules : List ValueRule) (e : Entry) :
    (e.ruled now rules).value = match rules.getLast? with
      | some v => some (v.value.resolve now)
      | none => e.value := by
  rw [ruled]
  cases rules.getLast? <;> rfl

theorem Entry.ruled_value {e e' : Entry} (h : e.value = e'.value) (now : Timestamp)
    (rules : List ValueRule) : (e.ruled now rules).value = (e'.ruled now rules).value := by
  rw [value_ruled, value_ruled, h]

@[simp] theorem Entry.ruled_column (now : Timestamp) (rules : List ValueRule) (e : Entry) :
    (e.ruled now rules).column = e.column := by
  rw [ruled]
  cases rules.getLast? <;> rfl

@[simp] theorem Entry.ruled_isKey (now : Timestamp) (rules : List ValueRule) (e : Entry) :
    (e.ruled now rules).isKey = e.isKey := by
  rw [ruled]
  cases rules.getLast? <;> rfl

theorem Binding.insertable_eq {b : Binding} {identityInsert keyInserts keyUpdates : Bool}
    (h : b.choices = (identityInsert, keyInserts, keyUpdates)) (e : Entry) :
    b.insertable e = (e.column.isWritable || (identityInsert && e.column.isIdentity) ||
      (keyInserts && e.isKey && !e.column.isComputed)) := by
  simp only [choices, Prod.mk.injEq] at h
  rw [insertable, h.1, h.2.1]

theorem Binding.updatable_eq {b : Binding} {identityInsert keyInserts keyUpdates : Bool}
    (h : b.choices = (identityInsert, keyInserts, keyUpdates)) (e : Entry) :
    b.updatable e = (e.column.isWritable && (!e.isKey || keyUpdates)) := by
  simp only [choices, Prod.mk.injEq] at h
  rw [updatable, h.2.2]

theorem Binding.BoundOnce.withKeyInserts {b : Binding} (h : b.BoundOnce) (wanted : Bool) :
    (b.withKeyInserts wanted).BoundOnce := by
  cases wanted with
  | false => exact h
  | true => exact BoundOnce.refreshed (b := { b with keyInserts := true }) h

theorem Binding.BoundOnce.bindWhere {b : Binding} (h : b.BoundOnce) (r : Rules)
    (p : ValueRule → Bool) (now : Timestamp) : (r.bindWhere p now b).BoundOnce :=
  r.bindWhere_induction p now (fun _ _ _ _ hc ↦ hc.bindRule _ _) h

namespace Binding.Makes

variable {b : Binding} {t : Table} {identityInsert keyInserts keyUpdates : Bool}
  {f : Column → Entry}

theorem ofArgument {env : Environment} {a : Argument} {marks : Bool}
    (h : (Command.binding env t).apply (bindArgument a marks) = .ok b) :
    b.Makes t (false, false, false) (a.entryFor t marks) := by
  have hframe := frame_bindArgument h
  rw [Command.frame_binding] at hframe
  refine ⟨?_, congrArg (·.2.2) hframe, ?_, entryOf?_bindArgument h⟩
  · obtain ⟨-, -, rfl⟩ := bindArgument_eq_ok.mp h
    exact refreshed_refreshed _
  · obtain ⟨-, -, rfl⟩ := bindArgument_eq_ok.mp h
    refine (choices_changedBy _ _ _ _).trans ?_
    cases marks <;> rfl

/-- Other choices give the entries other parts. -/
theorem rechosen {choices : Bool × Bool × Bool} (h : b.Makes t choices f) {c : Binding}
    (hentries : c.entries = b.entries) : c.refreshed.Makes t c.choices f := by
  refine ⟨refreshed_refreshed c, ?_, rfl, fun column ↦ ?_⟩
  · rw [← h.columns, ← hentries]
    exact congrArg (·.2.2) (frame_refreshed c)
  · have hsame : c.entryOf? column = b.entryOf? column := by rw [entryOf?, hentries, entryOf?]
    rw [entryOf?_refreshed, hsame, h.entry]
    split <;> rfl

theorem withIdentities (h : b.Makes t (false, keyInserts, keyUpdates) f) (wanted : Bool) :
    (b.withIdentities wanted).Makes t (wanted, keyInserts, keyUpdates) f := by
  cases wanted with
  | false => exact h
  | true =>
    have hchoices : ({ b with identityInsert := true } : Binding).choices =
        (true, keyInserts, keyUpdates) := congrArg (true, ·.2) h.choices
    exact hchoices ▸ h.rechosen rfl

theorem withKeyInserts (h : b.Makes t (identityInsert, false, keyUpdates) f) (wanted : Bool) :
    (b.withKeyInserts wanted).Makes t (identityInsert, wanted, keyUpdates) f := by
  cases wanted with
  | false => exact h
  | true =>
    have hchoices : ({ b with keyInserts := true } : Binding).choices =
        (identityInsert, true, keyUpdates) := congrArg (fun x ↦ (x.1, true, x.2.2)) h.choices
    exact hchoices ▸ h.rechosen rfl

theorem withParts_ruled (b : Binding) (e : Entry) (now : Timestamp) (rules : List ValueRule) :
    b.withParts ((b.withParts e).ruled now rules) = b.withParts (e.ruled now rules) := by
  rw [Entry.ruled, Entry.ruled]
  cases rules.getLast? <;> rfl

theorem bindWhere {choices : Bool × Bool × Bool} (h : b.Makes t choices f) (r : Rules)
    (p : ValueRule → Bool) (now : Timestamp) : (r.bindWhere p now b).Makes t choices
      fun c ↦ (f c).ruled now ((r.about t c).filter p) := by
  obtain ⟨hrefreshed, hchoices⟩ := Rules.refreshed_bindWhere h.refreshed r p now
  refine ⟨hrefreshed, ?_, hchoices.trans h.choices, fun c ↦ ?_⟩
  · rw [← h.columns]
    exact congrArg (·.2.2) (frame_bindWhere r p now b)
  · rw [Rules.entryOf?_bindWhere h.refreshed h.columns, h.entry, withParts_congr hchoices]
    split
    · exact congrArg some (withParts_ruled b (f c) now _)
    · rfl

/-- Entries have parts only if they are bound. -/
theorem isBound {choices : Bool × Bool × Bool} (h : b.Makes t choices f) {e : Entry}
    (he : e ∈ b.entries) : (e.insert → e.isBound) ∧ (e.update → e.isBound) := by
  rw [← h.refreshed] at he
  obtain ⟨e, -, rfl⟩ := List.mem_map.mp he
  exact ⟨fun hinsert ↦ (Bool.and_eq_true_iff.mp hinsert).1,
    fun hupdate ↦ (Bool.and_eq_true_iff.mp hupdate).1⟩

/-- Values stand in the order of the table, and none of them twice. -/
theorem columns_valuesWhere {choices : Bool × Bool × Bool} (h : b.Makes t choices f)
    (hb : b.BoundOnce) {part : Entry → Bool} (hpart : ∀ e ∈ b.entries, part e → e.isBound) :
    ((b.valuesWhere part).map (·.1)).Sublist t.columns ∧
      ((b.valuesWhere part).map (·.1)).Nodup := by
  constructor
  · rw [valuesWhere_columns, ← h.columns]
    exact List.filter_sublist.map _
  · exact List.pairwise_map.mpr (hb.distinct hpart)

theorem mem_valuesWhere {choices : Bool × Bool × Bool} (h : b.Makes t choices f) (hb : b.BoundOnce)
    {part : Entry → Bool} (hpart : ∀ e ∈ b.entries, part e → e.isBound) {c : Column} {v : Value} :
    (c, v) ∈ b.valuesWhere part ↔
      c ∈ t.columns ∧ part (b.withParts (f c)) ∧ (f c).value = some v := by
  rw [hb.mem_valuesWhere hpart, h.entry]
  by_cases hc : c ∈ t.columns
  · rw [if_pos hc]
    simp [hc, withParts]
  · simp [hc]

theorem mem_insertValues {choices : Bool × Bool × Bool} (h : b.Makes t choices f)
    (hb : b.BoundOnce) {c : Column} {v : Value} : (c, v) ∈ b.insertValues ↔
      c ∈ t.columns ∧ b.insertable (f c) ∧ (f c).value = some v := by
  rw [insertValues, h.mem_valuesWhere hb fun e he ↦ (h.isBound he).1]
  refine and_congr_right fun _ ↦ and_congr_left fun hvalue ↦ ?_
  simp [withParts, Entry.isBound, hvalue]

theorem mem_updateValues {choices : Bool × Bool × Bool} (h : b.Makes t choices f)
    (hb : b.BoundOnce) {c : Column} {v : Value} : (c, v) ∈ b.updateValues ↔
      c ∈ t.columns ∧ b.updatable (f c) ∧ (f c).value = some v := by
  rw [updateValues, h.mem_valuesWhere hb fun e he ↦ (h.isBound he).2]
  refine and_congr_right fun _ ↦ and_congr_left fun hvalue ↦ ?_
  simp [withParts, Entry.isBound, hvalue]

theorem mem_boundValues {choices : Bool × Bool × Bool} (h : b.Makes t choices f)
    (hb : b.BoundOnce) {c : Column} {v : Value} : (c, v) ∈ b.valuesWhere (·.isBound) ↔
      c ∈ t.columns ∧ (f c).value = some v := by
  rw [h.mem_valuesWhere hb fun _ _ ↦ id]
  refine and_congr_right fun _ ↦ ⟨And.right, fun hvalue ↦ ⟨?_, hvalue⟩⟩
  simp [withParts, Entry.isBound, hvalue]

end Binding.Makes

end SchemaSql
