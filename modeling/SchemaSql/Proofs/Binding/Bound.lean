import Mathlib.Data.List.Nodup
import SchemaSql.Proofs.Binding.Steps
import SchemaSql.Rules

/-!
What steps over bindings preserve. A step changes the first entry that answers to a name, or every
entry alike, and never the column of one. So an invariant of single changes holds after a whole
argument, a list of updates or a list of rules. Two invariants follow: the columns stay, and no
bound entry has the column of an entry in front of it.
-/

set_option autoImplicit false
set_option relaxedAutoImplicit false

namespace SchemaSql

namespace Binding

/-! ### Changes of one entry -/

section ChangeFirst

variable {name : String} {f : Entry → Entry} {es : List Entry} {e₀ : Entry}

/-- The entry that is changed stands behind entries that do not answer to the name. -/
theorem changeFirst_eq (h : es.find? (fun e ↦ e.column.answersTo name) = some e₀) :
    ∃ before after, es = before ++ e₀ :: after ∧
      (∀ e ∈ before, e.column.answersTo name = false) ∧
      changeFirst name f es = before ++ f e₀ :: after := by
  induction es with
  | nil => simp at h
  | cons e es ih =>
    by_cases hanswers : e.column.answersTo name = true
    · rw [List.find?_cons, hanswers] at h
      obtain rfl := Option.some.inj h
      exact ⟨[], es, rfl, by simp, by simp [changeFirst, hanswers]⟩
    · rw [Bool.not_eq_true] at hanswers
      rw [List.find?_cons, hanswers] at h
      obtain ⟨before, after, rfl, hbefore, hchanged⟩ := ih h
      refine ⟨e :: before, after, rfl, ?_, by simp [changeFirst, hanswers, hchanged]⟩
      intro e' he'
      rcases List.mem_cons.mp he' with rfl | hmem
      · exact hanswers
      · exact hbefore e' hmem

theorem changeFirst_of_none (h : es.find? (fun e ↦ e.column.answersTo name) = none) :
    changeFirst name f es = es := by
  induction es with
  | nil => rfl
  | cons e es ih =>
    obtain ⟨hanswers, hrest⟩ := List.forall_mem_cons.mp (List.find?_eq_none.mp h)
    rw [changeFirst, if_neg hanswers, ih (List.find?_eq_none.mpr hrest)]

theorem mem_changeFirst {e : Entry} (h : e ∈ changeFirst name f es) :
    e ∈ es ∨ ∃ e₀, es.find? (fun e ↦ e.column.answersTo name) = some e₀ ∧ e = f e₀ := by
  cases hfound : es.find? fun e ↦ e.column.answersTo name with
  | none =>
    rw [changeFirst_of_none hfound] at h
    exact .inl h
  | some e₀ =>
    obtain ⟨before, after, rfl, -, hchanged⟩ := changeFirst_eq (f := f) hfound
    rw [hchanged] at h
    rcases List.mem_append.mp h with hmem | hmem
    · exact .inl (List.mem_append_left _ hmem)
    · rcases List.mem_cons.mp hmem with rfl | hmem
      · exact .inr ⟨e₀, rfl, rfl⟩
      · exact .inl (List.mem_append_right _ (List.mem_cons_of_mem _ hmem))

/-- What a change keeps of an entry it keeps of all. -/
theorem map_changeFirst {β : Type} {g : Entry → β} (hf : ∀ e, g (f e) = g e) :
    (changeFirst name f es).map g = es.map g := by
  induction es with
  | nil => rfl
  | cons e es ih =>
    rw [changeFirst]
    split
    · rw [List.map_cons, List.map_cons, hf]
    · rw [List.map_cons, List.map_cons, ih]

end ChangeFirst

/-! ### Runs of changes -/

/-- What a property makes of the entry that it names. -/
def bound (marks : Bool) (p : Property) (e : Entry) : Entry :=
  let e := e.bind p.value .argument
  if marks then { e with isKey := p.isKey } else e

/-- The binding with the first entry of a name changed. -/
def changed (name : String) (f : Entry → Entry) (b : Binding) : Binding :=
  { b with entries := changeFirst name f b.entries }

section Induction

variable {I : Binding → Prop} {b b' : Binding}

theorem apply_changeIfKnown_ok {name : String} {f : Entry → Entry} {missing : Binding → Error}
    (h : b.apply (changeIfKnown name f missing) = .ok b') :
    b' = b.changed name f ∨ b' = b := by
  rw [apply_changeIfKnown] at h
  split at h
  · exact .inl (Except.ok.inj h).symm
  · split at h
    · simp at h
    · exact .inr (Except.ok.inj h).symm

theorem bindProperties_induction {marks : Bool} {ps : List Property}
    (hstep : ∀ p ∈ ps, ∀ b, I b → I (b.changed p.name (bound marks p))) (hb : I b)
    (h : b.apply (bindProperties marks ps) = .ok b') : I b' := by
  induction ps generalizing b with
  | nil =>
    obtain rfl := Except.ok.inj h
    exact hb
  | cons p ps ih =>
    obtain ⟨hfirst, hrest⟩ := List.forall_mem_cons.mp hstep
    rw [apply_bindProperties_cons] at h
    obtain ⟨c, hbind, h⟩ := bind_eq_ok.mp h
    refine ih hrest ?_ h
    rcases apply_changeIfKnown_ok hbind with rfl | rfl
    · exact hfirst b hb
    · exact hb

theorem bindArgument_induction {marks : Bool} {a : Argument}
    (hstep : ∀ p ∈ a.toProperties, ∀ b, I b → I (b.changed p.name (bound marks p)))
    (hrefreshed : ∀ b, I b → I b.refreshed) (hb : I (b.marked marks))
    (h : b.apply (bindArgument a marks) = .ok b') : I b' := by
  rw [apply_bindArgument] at h
  split at h
  · simp at h
  · obtain ⟨c, hbind, rfl⟩ := map_eq_ok.mp h
    exact hrefreshed c (bindProperties_induction hstep hb hbind)

/-- The entry whose column is updated to a value. -/
def updated (value : Value) (origin : Origin) (e : Entry) : Entry :=
  { e.bind value origin with update := true }

theorem apply_change_ok {name : String} {f : Entry → Entry} {missing : Binding → Error}
    (h : b.apply (change name f missing) = .ok b') :
    (b.entry? name).isSome ∧ b' = b.changed name f := by
  rw [apply_change] at h
  split at h
  · exact ⟨‹_›, (Except.ok.inj h).symm⟩
  · simp at h

theorem bindUpdates_induction {values : List (String × Value)} {origin : Origin}
    (hstep : ∀ name value b, I b → I (b.changed name (updated value origin))) (hb : I b)
    (h : b.apply (bindUpdates origin values) = .ok b') : I b' := by
  induction values generalizing b with
  | nil =>
    obtain rfl := Except.ok.inj h
    exact hb
  | cons x rest ih =>
    rw [apply_bindUpdates_cons] at h
    obtain ⟨c, hchange, h⟩ := bind_eq_ok.mp h
    obtain ⟨-, rfl⟩ := apply_change_ok hchange
    exact ih (hstep x.1 x.2 b hb) h

theorem applyDesired_induction {desired : Desired}
    (hall : ∀ b, I b → I (b.mapEntries markRead))
    (hnamed : ∀ name b, I b → I (b.changed name markRead)) (hb : I b)
    (h : b.apply (applyDesired desired) = .ok b') : I b' := by
  have hread (names : List String) {b b' : Binding} (hb : I b)
      (h : b.apply (readNamed names) = .ok b') : I b' := by
    induction names generalizing b with
    | nil =>
      obtain rfl := Except.ok.inj h
      exact hb
    | cons name names ih =>
      rw [apply_readNamed_cons] at h
      obtain ⟨c, hmark, h⟩ := bind_eq_ok.mp h
      refine ih ?_ h
      rcases apply_changeIfKnown_ok hmark with rfl | rfl
      · exact hnamed name b hb
      · exact hb
  cases desired with
  | none =>
    obtain rfl := Except.ok.inj h
    exact hb
  | all =>
    obtain rfl := Except.ok.inj h
    exact hall b hb
  | named names =>
    cases names with
    | nil =>
      obtain rfl := Except.ok.inj h
      exact hb
    | cons name names =>
      rw [apply_applyDesired_named] at h
      obtain ⟨c, hmarks, h⟩ := bind_eq_ok.mp h
      split at h
      · obtain rfl := Except.ok.inj h
        exact hread _ hb hmarks
      · simp at h

end Induction

end Binding

/-! ### Rules -/

namespace Rules

section Relation

variable {I : Binding → Binding → Prop} {b c : Binding}

/-- What the rules keep between two bindings as they bind columns in both. -/
theorem bindWhere_relation (r : Rules) (p : ValueRule → Bool) (now : Timestamp)
    (hstep : ∀ v ∈ r.values, p v → ∀ b c, I b c →
      I (b.bindRule v.column (v.value.resolve now)) (c.bindRule v.column (v.value.resolve now)))
    (h : I b c) : I (r.bindWhere p now b) (r.bindWhere p now c) := by
  have hall : ∀ v ∈ r.values.filter p, ∀ b c, I b c →
      I (b.bindRule v.column (v.value.resolve now))
        (c.bindRule v.column (v.value.resolve now)) := by
    intro v hv
    obtain ⟨hmem, hp⟩ := List.mem_filter.mp hv
    exact hstep v hmem hp
  rw [bindWhere, bindWhere]
  generalize r.values.filter p = vs at hall
  induction vs generalizing b c with
  | nil => exact h
  | cons v vs ih =>
    obtain ⟨hfirst, hrest⟩ := List.forall_mem_cons.mp hall
    exact ih (hfirst b c h) hrest

theorem bindUpsert_relation (r : Rules) (now : Timestamp)
    (hrule : ∀ v ∈ r.values, ∀ b c, I b c →
      I (b.bindRule v.column (v.value.resolve now)) (c.bindRule v.column (v.value.resolve now)))
    (hrestrict : ∀ v ∈ r.values, ∀ b c, I b c →
      I (b.restrict v.column v.onInsert v.onUpdate) (c.restrict v.column v.onInsert v.onUpdate))
    (h : I b c) : I (r.bindUpsert now b) (r.bindUpsert now c) := by
  have hbound := r.bindWhere_relation (fun v ↦ v.onInsert || v.onUpdate) now
    (fun v hv _ ↦ hrule v hv) h
  rw [bindUpsert, bindUpsert]
  generalize r.bindWhere (fun v ↦ v.onInsert || v.onUpdate) now b = b' at hbound
  generalize r.bindWhere (fun v ↦ v.onInsert || v.onUpdate) now c = c' at hbound
  generalize r.values = vs at hrestrict
  induction vs generalizing b' c' with
  | nil => exact hbound
  | cons v vs ih =>
    obtain ⟨hfirst, hrest⟩ := List.forall_mem_cons.mp hrestrict
    exact ih _ _ (hfirst b' c' hbound) hrest

end Relation

variable {I : Binding → Prop} {b : Binding}

theorem bindWhere_induction (r : Rules) (p : ValueRule → Bool) (now : Timestamp)
    (hstep : ∀ v ∈ r.values, p v → ∀ b, I b → I (b.bindRule v.column (v.value.resolve now)))
    (hb : I b) : I (r.bindWhere p now b) :=
  r.bindWhere_relation (I := fun b _ ↦ I b) (c := b) p now (fun v hv hp b _ ↦ hstep v hv hp b) hb

theorem bindUpsert_induction (r : Rules) (now : Timestamp)
    (hrule : ∀ v ∈ r.values, ∀ b, I b → I (b.bindRule v.column (v.value.resolve now)))
    (hrestrict : ∀ v ∈ r.values, ∀ b, I b → I (b.restrict v.column v.onInsert v.onUpdate))
    (hb : I b) : I (r.bindUpsert now b) :=
  r.bindUpsert_relation (I := fun b _ ↦ I b) (c := b) now (fun v hv b _ ↦ hrule v hv b)
    (fun v hv b _ ↦ hrestrict v hv b) hb

end Rules

/-! ### What no step changes -/

namespace Binding

/-- What a binding is about, whatever part its columns take in it. -/
def frame (b : Binding) : Target × Dialect × List Column :=
  (b.target, b.dialect, b.entries.map (·.column))

section Frame

variable {b b' : Binding} {name : String} {f : Entry → Entry}

theorem frame_changed (hf : ∀ e, (f e).column = e.column) : (b.changed name f).frame = b.frame := by
  simp only [frame, changed, map_changeFirst hf]

theorem frame_mapEntries (hf : ∀ e, (f e).column = e.column) :
    (b.mapEntries f).frame = b.frame := by
  simp [frame, mapEntries, Function.comp_def, hf]

theorem frame_refreshed (b : Binding) : b.refreshed.frame = b.frame :=
  frame_mapEntries fun _ ↦ rfl

theorem frame_bindRule (name : String) (value : Value) (b : Binding) :
    (b.bindRule name value).frame = b.frame := by
  rw [bindRule]
  split
  · rw [frame_refreshed]
    exact frame_changed fun _ ↦ rfl
  · rfl

theorem frame_restrict (name : String) (insert update : Bool) (b : Binding) :
    (b.restrict name insert update).frame = b.frame :=
  frame_changed fun _ ↦ rfl

theorem column_bound (marks : Bool) (p : Property) (e : Entry) :
    (bound marks p e).column = e.column := by
  rw [bound]
  split <;> rfl

theorem frame_bindArgument {marks : Bool} {a : Argument}
    (h : b.apply (bindArgument a marks) = .ok b') : b'.frame = b.frame := by
  refine bindArgument_induction (I := fun c ↦ c.frame = b.frame) ?_ ?_ ?_ h
  · intro p _ c hc
    rw [frame_changed (column_bound marks p), hc]
  · intro c hc
    rw [frame_refreshed, hc]
  · rw [marked]
    split
    · exact frame_mapEntries fun _ ↦ rfl
    · rfl

theorem frame_applyDesired {desired : Desired} (h : b.apply (applyDesired desired) = .ok b') :
    b'.frame = b.frame := by
  refine applyDesired_induction (I := fun c ↦ c.frame = b.frame) ?_ ?_ rfl h
  · intro c hc
    exact (frame_mapEntries (f := markRead) fun _ ↦ rfl).trans hc
  · intro name c hc
    exact (frame_changed (f := markRead) fun _ ↦ rfl).trans hc

theorem frame_bindUpsert (r : Rules) (now : Timestamp) (b : Binding) :
    (r.bindUpsert now b).frame = b.frame := by
  refine r.bindUpsert_induction (I := fun c ↦ c.frame = b.frame) now ?_ ?_ rfl
  · intro v _ c hc
    rw [frame_bindRule, hc]
  · intro v _ c hc
    rw [frame_restrict, hc]

theorem frame_applyUpdateValues {values : List (String × Value)} {origin : Origin}
    (h : b.apply (applyUpdateValues values origin) = .ok b') : b'.frame = b.frame := by
  rw [apply_applyUpdateValues] at h
  refine bindUpdates_induction (I := fun c ↦ c.frame = b.frame) ?_ ?_ h
  · intro name value c hc
    exact (frame_changed (f := updated value origin) fun _ ↦ rfl).trans hc
  · exact frame_mapEntries fun _ ↦ rfl

/-- The binding without its choice of columns to read. -/
def unread (b : Binding) : Binding := b.mapEntries fun e ↦ { e with read := false }

theorem unread_applyDesired {desired : Desired} (h : b.apply (applyDesired desired) = .ok b') :
    b'.unread = b.unread := by
  refine applyDesired_induction (I := fun c ↦ c.unread = b.unread) ?_ ?_ rfl h
  · intro c hc
    rw [← hc]
    simp [unread, mapEntries, markRead, Function.comp_def]
  · intro name c hc
    have hentries : (changeFirst name markRead c.entries).map (fun e ↦ { e with read := false }) =
        c.entries.map fun e ↦ { e with read := false } := map_changeFirst fun _ ↦ rfl
    rw [← hc]
    simp only [unread, mapEntries, changed, hentries]

theorem frame_bindWhere (r : Rules) (p : ValueRule → Bool) (now : Timestamp) (b : Binding) :
    (r.bindWhere p now b).frame = b.frame := by
  refine r.bindWhere_induction (I := fun c ↦ c.frame = b.frame) p now ?_ rfl
  intro v _ _ c hc
  rw [frame_bindRule, hc]

end Frame

/-- A name means an entry of the column that the name means among the columns. -/
theorem entry?_column (b : Binding) (name : String) :
    (b.entry? name).map (·.column) = b.frame.2.2.find? fun c ↦ c.answersTo name := by
  rw [Binding.entry?, frame, List.find?_map]
  rfl

/-! ### Bound entries -/

section Forall

variable {b : Binding} {P : Entry → Prop}

theorem forall_changed {name : String} {f : Entry → Entry} (hb : ∀ e ∈ b.entries, P e)
    (hf : ∀ e, b.entry? name = some e → P e → P (f e)) :
    ∀ e ∈ (b.changed name f).entries, P e := by
  intro e he
  rcases mem_changeFirst he with hmem | ⟨e₀, hfound, rfl⟩
  · exact hb e hmem
  · exact hf e₀ hfound (hb e₀ (List.mem_of_find?_eq_some hfound))

theorem forall_mapEntries {f : Entry → Entry} (hb : ∀ e ∈ b.entries, P e)
    (hf : ∀ e, P e → P (f e)) : ∀ e ∈ (b.mapEntries f).entries, P e := by
  intro e he
  obtain ⟨e₀, hmem, rfl⟩ := List.mem_map.mp he
  exact hf e₀ (hb e₀ hmem)

/-- Bindings that differ in their choice of columns to read have alike entries otherwise. -/
theorem forall_of_unread {c : Binding} (h : c.unread = b.unread)
    (hP : ∀ e, P { e with read := false } → P e)
    (hb : ∀ e ∈ b.entries, P { e with read := false }) :
    ∀ e ∈ c.entries, P e := by
  intro e he
  have hmem : { e with read := false } ∈ b.unread.entries := by
    rw [← h]
    exact List.mem_map_of_mem he
  obtain ⟨e', he', heq⟩ := List.mem_map.mp hmem
  refine hP e ?_
  rw [← heq]
  exact hb e' he'

end Forall

/-- No bound entry has the column of an entry in front of it, since a name means the first one. -/
def BoundOnce (b : Binding) : Prop :=
  b.entries.Pairwise fun e e' ↦ e'.isBound → e'.column ≠ e.column

namespace BoundOnce

variable {b b' : Binding} {f : Entry → Entry}

theorem of_forall_not_isBound (h : ∀ e ∈ b.entries, e.isBound = false) : b.BoundOnce := by
  refine List.pairwise_iff_forall_sublist.mpr fun {e e'} hsub hbound ↦ ?_
  have hmem : e' ∈ b.entries := hsub.subset (by simp)
  rw [h e' hmem] at hbound
  simp at hbound

theorem changed (h : b.BoundOnce) (name : String) (hf : ∀ e, (f e).column = e.column) :
    (b.changed name f).BoundOnce := by
  cases hfound : b.entries.find? fun e ↦ e.column.answersTo name with
  | none =>
    rw [BoundOnce, Binding.changed, changeFirst_of_none hfound]
    exact h
  | some e₀ =>
    obtain ⟨before, after, hentries, hbefore, hchanged⟩ := changeFirst_eq (f := f) hfound
    rw [BoundOnce, hentries] at h
    rw [BoundOnce, Binding.changed, hchanged]
    obtain ⟨hpre, hpost, hcross⟩ := List.pairwise_append.mp h
    obtain ⟨hhead, htail⟩ := List.pairwise_cons.mp hpost
    refine List.pairwise_append.mpr ⟨hpre, List.pairwise_cons.mpr ⟨?_, htail⟩, ?_⟩
    · intro e he hbound
      rw [hf]
      exact hhead e he hbound
    · intro e he e' he'
      rcases List.mem_cons.mp he' with rfl | hmem
      · -- The changed entry answers to the name, which no entry in front of it does.
        intro _ hcolumn
        have hanswers : e₀.column.answersTo name = true := by simpa using List.find?_some hfound
        rw [hf] at hcolumn
        rw [hcolumn, hbefore e he] at hanswers
        simp at hanswers
      · exact hcross e he e' (List.mem_cons_of_mem _ hmem)

theorem mapEntries (h : b.BoundOnce) (hcolumn : ∀ e, (f e).column = e.column)
    (hbound : ∀ e, (f e).isBound → e.isBound) : (b.mapEntries f).BoundOnce := by
  refine List.pairwise_map.mpr (List.Pairwise.imp ?_ h)
  intro e e' hdistinct hisBound
  rw [hcolumn, hcolumn]
  exact hdistinct (hbound e' hisBound)

theorem refreshed (h : b.BoundOnce) : b.refreshed.BoundOnce :=
  h.mapEntries (fun _ ↦ rfl) fun _ ↦ id

theorem bindRule (h : b.BoundOnce) (name : String) (value : Value) :
    (b.bindRule name value).BoundOnce := by
  rw [Binding.bindRule]
  split
  · exact (h.changed name (f := Entry.bind value .audit) fun _ ↦ rfl).refreshed
  · exact h

theorem restrict (h : b.BoundOnce) (name : String) (insert update : Bool) :
    (b.restrict name insert update).BoundOnce :=
  h.changed name
    (f := fun e ↦ { e with insert := e.insert && insert, update := e.update && update })
    fun _ ↦ rfl

theorem bindUpsert (h : b.BoundOnce) (r : Rules) (now : Timestamp) :
    (r.bindUpsert now b).BoundOnce :=
  r.bindUpsert_induction now (fun _ _ _ hc ↦ hc.bindRule _ _) (fun _ _ _ hc ↦ hc.restrict _ _ _) h

theorem bindArgument {marks : Bool} {a : Argument} (h : b.BoundOnce)
    (hok : b.apply (Binding.bindArgument a marks) = .ok b') : b'.BoundOnce := by
  refine bindArgument_induction ?_ (fun _ hc ↦ hc.refreshed) ?_ hok
  · intro p _ c hc
    exact hc.changed p.name (column_bound marks p)
  · rw [marked]
    split
    · exact h.mapEntries (fun _ ↦ rfl) fun _ ↦ id
    · exact h

theorem applyDesired {desired : Desired} (h : b.BoundOnce)
    (hok : b.apply (Binding.applyDesired desired) = .ok b') : b'.BoundOnce := by
  refine applyDesired_induction ?_ ?_ h hok
  · intro c hc
    exact hc.mapEntries (f := markRead) (fun _ ↦ rfl) fun _ ↦ id
  · intro name c hc
    exact hc.changed (f := markRead) name fun _ ↦ rfl

/-- Bound entries have different columns. -/
theorem pairwise (h : b.BoundOnce) :
    (b.entries.filter (·.isBound)).Pairwise fun e e' ↦ e.column ≠ e'.column := by
  refine List.Pairwise.imp_of_mem ?_ (List.Pairwise.filter _ h)
  intro e e' _ he' hdistinct hcolumn
  exact hdistinct (List.mem_filter.mp he').2 hcolumn.symm

/-- Bound entries of one column are the same. -/
theorem eq_of_column (h : b.BoundOnce) {e e' : Entry} (he : e ∈ b.entries) (he' : e' ∈ b.entries)
    (hbound : e.isBound) (hbound' : e'.isBound) (hcolumn : e.column = e'.column) : e = e' := by
  have hdistinct : ((b.entries.filter (·.isBound)).map (·.column)).Nodup :=
    List.pairwise_map.mpr h.pairwise
  exact List.inj_on_of_nodup_map hdistinct (List.mem_filter.mpr ⟨he, hbound⟩)
    (List.mem_filter.mpr ⟨he', hbound'⟩) hcolumn

end BoundOnce

end Binding

end SchemaSql
