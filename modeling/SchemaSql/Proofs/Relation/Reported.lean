import SchemaSql.Proofs.Command.Branches

/-!
What an upsert of a relation answers with if a row with its key is there. A row that is read by its
key after the write is found. Where one statement writes and hands rows back, they are those that it
touches: a merge with nothing to update touches none, and an insert that resolves clashes touches
the row that has the key of the row it proposes, in which the database fills the key columns that
the insert leaves out.
-/

set_option autoImplicit false
set_option relaxedAutoImplicit false

namespace SchemaSql

namespace Relation

/-- One row is handed back, the given one after an update of the binding's columns. -/
def Effect.Returns (e : Effect) (b : Binding) (v : Tuple) : Prop :=
  ∃ w ∈ e.rows, e.touched = [w] ∧ ∀ c ∉ b.updateColumns, w c = v c

/-- Whether an upsert by the binding hands back a row that has its key. A merge must have something
to update; where rows clash, the database must fill the key columns that are not inserted with what
the row has there. -/
def Reports (R : Relation) (d : Dialect) (b : Binding) (rows : List Tuple) (v : Tuple) : Prop :=
  match d.upsertStrategy with
  | .merge => b.hasUpdates
  | .onConflict => ∀ c ∈ b.keyColumns, c ∉ b.insertColumns → (R.fill rows c).agrees (v c)
  | .onDuplicateKey | .updateThenInsert => True

/-- The row that has the key is handed back, or else no row that has it is. -/
structure Answered (R : Relation) (d : Dialect) (b : Binding) (rows : List Tuple) (v : Tuple)
    (e : Effect) : Prop where
  returns : R.Reports d b rows v → e.Returns b v
  misses : ¬ R.Reports d b rows v → ∀ w ∈ e.touched, w.matching b.keyValues = false

section Rows

variable {R : Relation} {b : Binding} {rows : List Tuple} {u v w : Tuple}

/-! ### Rows with one key -/

theorem agree_iff : R.agree v w ↔ ∀ c ∈ R.key, (v c).isNull = false ∧ v c = w c := by
  rw [agree, List.all_eq_true]
  exact forall₂_congr fun c _ ↦ Value.agrees_iff _ _

theorem agree_of_agree (hv : R.agree u v) (hw : R.agree u w) : R.agree v w := by
  rw [agree_iff] at hv hw ⊢
  intro c hc
  obtain ⟨hnull, hsame⟩ := hv c hc
  exact ⟨hsame ▸ hnull, hsame.symm.trans (hw c hc).2⟩

theorem agrees_of_matching {e : Entry} (he : e ∈ b.entries) (hkey : e.isKey)
    (hv : v.matching b.keyValues) : (v e.column).agrees (e.value.getD .null) :=
  List.all_eq_true.mp hv (e.column, e.value.getD .null)
    (List.mem_map_of_mem (List.mem_filter.mpr ⟨he, hkey⟩))

theorem agree_of_matching (hkey : R.key = b.keyColumns) (hv : v.matching b.keyValues)
    (hw : w.matching b.keyValues) : R.agree v w := by
  rw [agree_iff, hkey]
  intro c hc
  obtain ⟨e, he, rfl⟩ := List.mem_map.mp hc
  obtain ⟨hentry, hisKey⟩ := List.mem_filter.mp he
  obtain ⟨hnull, hsame⟩ := (Value.agrees_iff _ _).mp (agrees_of_matching hentry hisKey hv)
  have hsame' := ((Value.agrees_iff _ _).mp (agrees_of_matching hentry hisKey hw)).2
  exact ⟨hnull, hsame.trans hsame'.symm⟩

theorem matching_congr (h : ∀ c ∈ b.keyColumns, v c = w c) :
    v.matching b.keyValues = w.matching b.keyValues := by
  rw [Tuple.matching, Tuple.matching, Bool.eq_iff_iff, List.all_eq_true, List.all_eq_true]
  refine forall₂_congr fun x hx ↦ ?_
  obtain ⟨e, he, rfl⟩ := List.mem_map.mp hx
  rw [h e.column (List.mem_map_of_mem he)]

/-- Where no two rows agree on the key, one row alone meets a condition that makes rows agree. -/
theorem Keyed.filter_eq (hrows : R.Keyed rows) {chosen : Tuple → Bool}
    (hagree : ∀ v w, chosen v → chosen w → R.agree v w) (hv : v ∈ rows) (hchosen : chosen v) :
    rows.filter chosen = [v] := by
  have hapart : (rows.filter chosen).Pairwise fun v w ↦ R.agree v w = false :=
    List.Pairwise.filter chosen hrows
  have hall : ∀ w ∈ rows.filter chosen, chosen w := fun w hw ↦ (List.mem_filter.mp hw).2
  have hmem : v ∈ rows.filter chosen := List.mem_filter.mpr ⟨hv, hchosen⟩
  generalize rows.filter chosen = found at hapart hall hmem
  cases found with
  | nil => simp at hmem
  | cons w ws =>
    cases ws with
    | nil => rw [List.mem_singleton.mp hmem]
    | cons w' ws =>
      have hfalse := (List.pairwise_cons.mp hapart).1 w' List.mem_cons_self
      rw [hagree w w' (hall w (by simp)) (hall w' (by simp))] at hfalse
      simp at hfalse

/-- A row that is looked up by its key is found after changes that leave keys alone. -/
theorem filter_matching_map (hkey : R.key = b.keyColumns) (hrows : R.Keyed rows) {g : Tuple → Tuple}
    (hg : ∀ x, ∀ c ∈ b.keyColumns, g x c = x c) (hv : v ∈ rows)
    (hmatching : v.matching b.keyValues) :
    (rows.map g).filter (Tuple.matching b.keyValues) = [g v] := by
  have hsame : Tuple.matching b.keyValues ∘ g = Tuple.matching b.keyValues :=
    funext fun x ↦ matching_congr (hg x)
  rw [List.filter_map, hsame,
    hrows.filter_eq (fun _ _ ↦ agree_of_matching hkey) hv hmatching]
  rfl

/-- The row that an insert proposes has the key of a row if the database fills the key columns that
are not inserted with what the row has there. -/
theorem agree_propose_iff (hb : b.Splits) (hkey : R.key = b.keyColumns)
    (hv : v.matching b.keyValues) :
    R.agree (R.propose b.insertValues rows) v ↔
      ∀ c ∈ b.keyColumns, c ∉ b.insertColumns → (R.fill rows c).agrees (v c) := by
  rw [agree, hkey, List.all_eq_true]
  refine forall₂_congr fun c hc ↦ ?_
  obtain ⟨e, he, rfl⟩ := List.mem_map.mp hc
  obtain ⟨hentry, hisKey⟩ := List.mem_filter.mp he
  have hbound := (hb.parts e hentry).key hisKey
  cases hinsert : e.insert with
  | true =>
    have hinserted : e.column ∈ b.insertColumns :=
      List.mem_map_of_mem (List.mem_filter.mpr ⟨hentry, hinsert⟩)
    have hagrees := agrees_of_matching hentry hisKey hv
    rw [Value.agrees_comm] at hagrees
    rw [propose, Binding.insertValues, hb.once.overwrite_eq hb.insert hentry hinsert]
    exact ⟨fun _ hleft ↦ absurd hinserted hleft, fun _ ↦ hagrees⟩
  | false =>
    have hleft : e.column ∉ b.insertColumns := by
      intro hinserted
      obtain ⟨e', he', hcolumn⟩ := List.mem_map.mp hinserted
      obtain ⟨hentry', hinsert'⟩ := List.mem_filter.mp he'
      obtain rfl := hb.once.eq_of_column hentry' hentry (hb.insert e' hentry' hinsert') hbound
        hcolumn
      rw [hinsert] at hinsert'
      simp at hinsert'
    rw [propose, Binding.insertValues, hb.once.overwrite_ne hb.insert hentry hbound hinsert]
    exact ⟨fun hfill _ ↦ hfill, fun hfill ↦ hfill hleft⟩

/-! ### Clashes -/

/-- What an insert of a row does that changes the rows with its key, if there are any. -/
def clashed (R : Relation) (u : Tuple) (f : Tuple → Tuple) (rows : List Tuple) : Effect :=
  if rows.any (R.agree u) then
    ⟨rows.map fun x ↦ if R.agree u x then f x else x, (rows.filter (R.agree u)).map f⟩
  else ⟨rows ++ [u], [u]⟩

theorem resolve_eq (hrows : R.Keyed rows) {as : List Assignment} {f : Tuple → Tuple} (has : as ≠ [])
    (hf : ∀ x, R.agree u x → ∀ c ∈ R.key, f x c = x c) :
    (if rows.any (R.agree u) then R.changeBy (R.agree u) as f rows else R.add u rows) =
      .ok (R.clashed u f rows) := by
  rw [clashed]
  split
  · rw [changeBy, if_neg (by simpa using has), change_ok hrows hf]
  · rename_i hnone
    rw [add, if_neg hnone]

/-- The row with the key is handed back if it has the key of the proposed row; otherwise the rows
that are handed back have another key. -/
theorem clashed_touched (hkey : R.key = b.keyColumns) (hrows : R.Keyed rows) {f : Tuple → Tuple}
    (hapart : ∀ c ∈ b.keyColumns, c ∉ b.updateColumns)
    (hf : ∀ x, R.agree u x → ∀ c ∉ b.updateColumns, f x c = x c) (hv : v ∈ rows)
    (hmatching : v.matching b.keyValues) :
    (R.agree u v → (R.clashed u f rows).Returns b v) ∧
      (¬ R.agree u v → ∀ w ∈ (R.clashed u f rows).touched, w.matching b.keyValues = false) := by
  rw [clashed]
  constructor
  · intro hagree
    rw [if_pos (List.any_eq_true.mpr ⟨v, hv, hagree⟩)]
    refine ⟨f v, List.mem_map.mpr ⟨v, hv, if_pos hagree⟩, ?_, hf v hagree⟩
    rw [hrows.filter_eq (fun _ _ ↦ agree_of_agree) hv hagree]
    rfl
  · intro hother w hw
    refine Bool.eq_false_iff.mpr fun hmatching' ↦ hother ?_
    split at hw
    · obtain ⟨x, hx, rfl⟩ := List.mem_map.mp hw
      obtain ⟨hrow, hagree⟩ := List.mem_filter.mp hx
      -- The changed row has the key that it had, so that it is the row with the key.
      rw [matching_congr fun c hc ↦ hf x hagree c (hapart c hc)] at hmatching'
      have hsame := hrows.filter_eq (fun _ _ ↦ agree_of_matching hkey) hv hmatching
      have hfound : x ∈ rows.filter (Tuple.matching b.keyValues) :=
        List.mem_filter.mpr ⟨hrow, hmatching'⟩
      rw [hsame, List.mem_singleton] at hfound
      rwa [hfound] at hagree
    · rw [List.mem_singleton.mp hw] at hmatching'
      exact agree_of_matching hkey hmatching' hmatching

/-- Whichever row the proposed one clashes with, the row with the key is there afterwards. -/
theorem clashed_filter (hkey : R.key = b.keyColumns) (hrows : R.Keyed rows) {f : Tuple → Tuple}
    (hapart : ∀ c ∈ b.keyColumns, c ∉ b.updateColumns)
    (hf : ∀ x, R.agree u x → ∀ c ∉ b.updateColumns, f x c = x c) (hv : v ∈ rows)
    (hmatching : v.matching b.keyValues) :
    Effect.Returns ⟨(R.clashed u f rows).rows,
      (R.clashed u f rows).rows.filter (Tuple.matching b.keyValues)⟩ b v := by
  have hg (x : Tuple) : ∀ c ∉ b.updateColumns, (if R.agree u x then f x else x) c = x c :=
    fun c hc ↦ changed_eq fun hagree ↦ hf x hagree c hc
  rw [clashed]
  split
  · refine ⟨if R.agree u v then f v else v, List.mem_map_of_mem hv, ?_, hg v⟩
    exact filter_matching_map hkey hrows (fun x c hc ↦ hg x c (hapart c hc)) hv hmatching
  · rename_i hnone
    have hother : u.matching b.keyValues = false := by
      refine Bool.eq_false_iff.mpr fun hmatching' ↦ hnone ?_
      exact List.any_eq_true.mpr ⟨v, hv, agree_of_matching hkey hmatching' hmatching⟩
    refine ⟨v, List.mem_append_left _ hv, ?_, fun _ _ ↦ rfl⟩
    rw [List.filter_append, hrows.filter_eq (fun _ _ ↦ agree_of_matching hkey) hv hmatching,
      List.filter_singleton, hother]
    rfl

end Rows

/-! ### Answers of upserts -/

section Plans

variable {R : Relation} {p : WritePlan} {rows : List Tuple} {u v : Tuple}

theorem overwrite_updateValues {b : Binding} {c : Column} (hc : c ∉ b.updateColumns) (v : Tuple) :
    v.overwrite b.updateValues c = v c := by
  refine Tuple.overwrite_of_forall_ne (fun x hx hcolumn ↦ hc ?_) v
  rw [← hcolumn]
  exact updateValues_columns x hx

theorem updateColumns_ne_nil {b : Binding} (h : b.hasUpdates) : b.updateColumns ≠ [] := by
  obtain ⟨e, he, hupdate⟩ := List.any_eq_true.mp h
  exact List.ne_nil_of_mem (List.mem_map_of_mem (List.mem_filter.mpr ⟨he, hupdate⟩))

/-- A clash on the key leaves all columns that are not updated as they are: the key, if it is
assigned at all, has the value that it is assigned. -/
theorem assign_upsertColumns_ne (hkey : R.key = p.binding.keyColumns) (hagree : R.agree u v)
    {c : Column} (hc : c ∉ p.binding.updateColumns) :
    Tuple.assign Parameter.value u (p.upsertColumns.map fun c ↦ ⟨c, .supplied⟩) v c = v c := by
  rw [assign_supplied]
  by_cases hassigned : c ∈ p.upsertColumns
  · have hisKey := ((WritePlan.mem_upsertColumns hassigned).resolve_left hc).2
    rw [Tuple.overwrite_map_of_mem hassigned]
    exact (agree_iff.mp hagree c (hkey ▸ hisKey)).2
  · refine Tuple.overwrite_of_forall_ne (fun x hx hcolumn ↦ hassigned ?_) v
    obtain ⟨c', hc', rfl⟩ := List.mem_map.mp hx
    exact hcolumn ▸ hc'

theorem assign_duplicateConflict_ne (hkey : R.key = p.binding.keyColumns) (hagree : R.agree u v)
    {c : Column} (hc : c ∉ p.binding.updateColumns) :
    Tuple.assign Parameter.value u p.duplicateConflict.assignments v c = v c := by
  rw [duplicateConflict_assignments]
  cases p.binding.hasUpdates with
  | true => exact assign_upsertColumns_ne hkey hagree hc
  | false => exact congrFun (assign_unchanged _ _ _ v) c

/-- Where rows are wanted, an upsert assigns something to the row that is there. -/
theorem upsertColumns_ne_nil (hkeys : p.binding.keyColumns ≠ []) (hnew : p.returning = .new) :
    p.upsertColumns ≠ [] := by
  rw [WritePlan.upsertColumns]
  split
  · exact updateColumns_ne_nil ‹_›
  · rw [if_neg (by simp [hnew])]
    exact hkeys

theorem output_columns (hnew : p.returning = .new) (image : RowImage) :
    (p.output image).columns = p.binding.readColumns := by
  rw [WritePlan.output, hnew]
  rfl

theorem returned_columns (hnew : p.returning = .new) :
    p.returned.columns = p.binding.readColumns := by
  rw [WritePlan.returned, hnew]
  rfl

/-- A chain whose last step reads by the key answers with the rows that have it then. -/
theorem answersWith_reads (htarget : R.target = p.target) (front : List ChainStep)
    {reads : List ChainStep} (hreads : p.ReadsBack reads) (hsome : reads ≠ []) {rows' : List Tuple}
    (hfront : R.runSteps none front rows = .ok rows') :
    R.AnswersWith (front ++ reads) rows
      ⟨rows', rows'.filter (Tuple.matching p.binding.keyValues)⟩ p.binding.readColumns := by
  obtain ⟨criteria, hcriteria, rfl⟩ := hreads.resolve_left hsome
  obtain ⟨-, -, rfl⟩ := Binding.keyCriteria_ok hcriteria
  refine ⟨front, _, rows', rfl, rfl, rfl, hfront, ?_⟩
  simp only [exec_read htarget, satisfies_keys]

variable (hb : p.binding.Splits) (htarget : R.target = p.target)
  (hkey : R.key = p.binding.keyColumns) (hrows : R.Keyed rows)

include hb htarget hkey hrows

theorem exec_clash {s : Insert} (hs : s.target = p.target) (hrow : p.binding.insertRow = .ok s.row)
    (hfail : s.conflict ≠ .fail)
    (hkeys : ∀ keys as, s.conflict = .onKeys keys as → keys = p.binding.keyColumns)
    (has : s.conflict.assignments ≠ [])
    (hassign : ∀ x, R.agree (R.propose p.binding.insertValues rows) x →
      ∀ c ∉ p.binding.updateColumns, Tuple.assign Parameter.value
        (R.propose p.binding.insertValues rows) s.conflict.assignments x c = x c) :
    R.exec Parameter.value rows (.insert s) =
      .ok (R.clashed (R.propose p.binding.insertValues rows) (Tuple.assign Parameter.value
        (R.propose p.binding.insertValues rows) s.conflict.assignments) rows) := by
  rw [exec_insert (hs.trans htarget.symm),
    insert_eq hfail fun keys as h ↦ (hkeys keys as h).trans hkey.symm,
    WritePlan.insertRow_values hrow]
  refine resolve_eq hrows has fun x hx c hc ↦ hassign x hx c fun hupdated ↦ ?_
  exact WritePlan.not_mem_keyColumns hb hupdated (hkey ▸ hc)

variable (hv : v ∈ rows) (hmatching : v.matching p.binding.keyValues)

include hv hmatching

theorem updateThenInsert_answers {criteria : List Predicate} {as : List Assignment}
    {row : List Cell} {reads : List ChainStep}
    (hd : p.dialect.upsertStrategy = .updateThenInsert)
    (hcriteria : p.binding.keyCriteria = .ok criteria) (has : p.presenceAssignments = .ok as)
    (hreads : p.ReadsBack reads) (hsome : reads ≠ []) :
    ∃ e, R.AnswersWith ({ statement := .update ⟨p.target, as, criteria, .none⟩, counted := true } ::
        { statement := .insert ⟨p.target, row, .fail, false, false, .none⟩
          condition := .previousAffectedNone } :: reads) rows e p.binding.readColumns ∧
      R.Answered p.dialect p.binding rows v e := by
  obtain ⟨-, -, rfl⟩ := Binding.keyCriteria_ok hcriteria
  have hfound := hrows.filter_eq (fun _ _ ↦ agree_of_matching hkey) hv hmatching
  have hupdate := update_ok (fun _ ↦ WritePlan.not_mem_keyColumns hb) hkey hrows has
  rw [← exec_update htarget.symm, hfound] at hupdate
  -- The update has met the row, so that no row is added.
  have hfront : R.runSteps none
      [{ statement := .update ⟨p.target, as, (p.binding.entries.filter (·.isKey)).map fun e ↦
          .equals e.column e.parameter, .none⟩, counted := true },
        { statement := .insert ⟨p.target, row, .fail, false, false, .none⟩
          condition := .previousAffectedNone }] rows =
        .ok (rows.map fun x ↦
          if x.matching p.binding.keyValues then x.overwrite p.binding.updateValues else x) := by
    rw [runSteps_cons rfl hupdate, if_pos rfl, runSteps_skip (by simp [ChainStep.runsAfter?])]
    rfl
  refine ⟨_, answersWith_reads htarget [_, _] hreads hsome hfront, fun _ ↦ ?_,
    fun hmissed ↦ absurd (by rw [Reports, hd]; trivial) hmissed⟩
  have hkept (x : Tuple) : ∀ c ∉ p.binding.updateColumns,
      (if x.matching p.binding.keyValues then x.overwrite p.binding.updateValues else x) c =
        x c :=
    fun c hc ↦ changed_eq fun _ ↦ overwrite_updateValues hc x
  refine ⟨_, List.mem_map_of_mem hv, ?_, hkept v⟩
  refine filter_matching_map hkey hrows (fun x c hc ↦ hkept x c ?_) hv hmatching
  exact fun hupdated ↦ WritePlan.not_mem_keyColumns hb hupdated hc

variable (hnew : p.returning = .new)

include hnew

theorem merge_answers (announced : Bool) (hd : p.dialect.upsertStrategy = .merge) :
    ∃ e, R.AnswersWith [{ statement := .merge ⟨p.target, p.binding.boundCells,
        p.binding.keyColumns, p.binding.updateColumns, p.binding.insertColumns, announced,
        p.output .inserted⟩ }] rows e p.binding.readColumns ∧
      R.Answered p.dialect p.binding rows v e := by
  have hreports : R.Reports p.dialect p.binding rows v ↔ p.binding.hasUpdates := by
    rw [Reports, hd]
  have hmerge := merge_eq (R := R) hb.once (fun e he ↦ (hb.parts e he).key) hb.insert hb.update
    announced (p.output .inserted) rows
  rw [if_pos (List.any_eq_true.mpr ⟨v, hv, hmatching⟩), htarget] at hmerge
  cases hupdates : p.binding.hasUpdates with
  | true =>
    have hsome := updateColumns_ne_nil hupdates
    have hkeep (x : Tuple) : ∀ c ∈ R.key, x.overwrite p.binding.updateValues c = x c :=
      fun c hc ↦ overwrite_updateValues
        (fun hupdated ↦ WritePlan.not_mem_keyColumns hb hupdated (hkey ▸ hc)) x
    rw [changeBy, if_neg (by simpa using hsome), change_ok hrows fun x _ ↦ hkeep x,
      hrows.filter_eq (fun _ _ ↦ agree_of_matching hkey) hv hmatching] at hmerge
    have hexec := (exec_merge (s := ⟨p.target, _, _, _, _, _, _⟩) htarget.symm).trans hmerge
    refine ⟨_, ⟨[], _, rows, rfl, rfl, output_columns hnew _, rfl, hexec⟩, fun _ ↦ ?_,
      fun hmissed ↦ absurd (hreports.mpr hupdates) hmissed⟩
    exact ⟨v.overwrite p.binding.updateValues, List.mem_map.mpr ⟨v, hv, if_pos hmatching⟩, rfl,
      fun c hc ↦ overwrite_updateValues hc v⟩
  | false =>
    rw [(updateValues_of_not_hasUpdates hupdates).2] at hmerge
    refine ⟨⟨rows, []⟩, ⟨[], _, rows, rfl, rfl, output_columns hnew _, rfl, ?_⟩,
      fun hreported ↦ ?_, fun _ ↦ by simp⟩
    · rw [(updateValues_of_not_hasUpdates hupdates).2]
      exact (exec_merge htarget.symm).trans hmerge
    · have hhas := hreports.mp hreported
      rw [hupdates] at hhas
      simp at hhas

theorem onConflict_answers (hkeys : p.binding.keyColumns ≠ []) (overriding : Bool)
    {row : List Cell} (hd : p.dialect.upsertStrategy = .onConflict)
    (hrow : p.binding.insertRow = .ok row) :
    ∃ e, R.AnswersWith [{ statement := .insert ⟨p.target, row,
        .onKeys p.binding.keyColumns (p.upsertColumns.map fun c ↦ ⟨c, .supplied⟩), false,
        overriding, p.returned⟩ }] rows e p.binding.readColumns ∧
      R.Answered p.dialect p.binding rows v e := by
  have hreports : R.Reports p.dialect p.binding rows v ↔
      R.agree (R.propose p.binding.insertValues rows) v := by
    rw [Reports, hd, agree_propose_iff hb hkey hmatching]
  have hassign (x : Tuple) (hx : R.agree (R.propose p.binding.insertValues rows) x) :
      ∀ c ∉ p.binding.updateColumns, Tuple.assign Parameter.value
        (R.propose p.binding.insertValues rows) (p.upsertColumns.map fun c ↦ ⟨c, .supplied⟩) x c =
          x c :=
    fun c hc ↦ assign_upsertColumns_ne hkey hx hc
  have hexec := exec_clash hb htarget hkey hrows (s := ⟨p.target, row, .onKeys p.binding.keyColumns
    (p.upsertColumns.map fun c ↦ ⟨c, .supplied⟩), false, overriding, p.returned⟩) rfl hrow
    (by simp) (by simp +contextual [eq_comm])
    (by simpa [Conflict.assignments] using upsertColumns_ne_nil hkeys hnew) hassign
  obtain ⟨hreturns, hmisses⟩ := clashed_touched hkey hrows
    (fun c hc hupdated ↦ WritePlan.not_mem_keyColumns hb hupdated hc) hassign hv hmatching
  exact ⟨_, ⟨[], _, rows, rfl, rfl, returned_columns hnew, rfl, hexec⟩,
    fun hreported ↦ hreturns (hreports.mp hreported),
    fun hmissed ↦ hmisses fun hagree ↦ hmissed (hreports.mpr hagree)⟩

theorem onDuplicateKey_answers (hkeys : p.binding.keyColumns ≠ []) {row : List Cell}
    {reads : List ChainStep} (hd : p.dialect.upsertStrategy = .onDuplicateKey)
    (hrow : p.binding.insertRow = .ok row) (hreads : p.ReadsBack reads) (hsome : reads ≠ []) :
    ∃ e, R.AnswersWith ({ statement := .insert ⟨p.target, row, p.duplicateConflict, false, false,
        .none⟩ } :: reads) rows e p.binding.readColumns ∧
      R.Answered p.dialect p.binding rows v e := by
  have hassign (x : Tuple) (hx : R.agree (R.propose p.binding.insertValues rows) x) :
      ∀ c ∉ p.binding.updateColumns, Tuple.assign Parameter.value
        (R.propose p.binding.insertValues rows) p.duplicateConflict.assignments x c = x c :=
    fun c hc ↦ assign_duplicateConflict_ne hkey hx hc
  have has : p.duplicateConflict.assignments ≠ [] := by
    rw [duplicateConflict_assignments]
    simpa using upsertColumns_ne_nil hkeys hnew
  have hexec := exec_clash hb htarget hkey hrows (s := ⟨p.target, row, p.duplicateConflict, false,
    false, .none⟩) rfl hrow (by rcases duplicateConflict_cases p with h | ⟨as, h⟩ <;> simp [h])
    (by rcases duplicateConflict_cases p with h | ⟨as, h⟩ <;> simp [h]) has hassign
  refine ⟨_, answersWith_reads htarget [_] hreads hsome (runSteps_cons rfl hexec []),
    fun _ ↦ ?_, fun hmissed ↦ absurd (by rw [Reports, hd]; trivial) hmissed⟩
  exact clashed_filter hkey hrows
    (fun c hc hupdated ↦ WritePlan.not_mem_keyColumns hb hupdated hc) hassign hv hmatching

/-- An upsert answers with the row that has its key, or with no row that has it. -/
theorem upsertSteps_answer (hkeys : p.binding.keyColumns ≠ []) {steps : List ChainStep}
    (hsteps : p.UpsertSteps steps) :
    ∃ e, R.AnswersWith steps rows e p.binding.readColumns ∧
      R.Answered p.dialect p.binding rows v e := by
  have hwanted : p.returning ≠ .none := by simp [hnew]
  cases hsteps with
  | merge announced output hd houtput =>
    subst houtput
    exact merge_answers hb htarget hkey hrows hv hmatching hnew announced hd
  | onConflict overriding output hd hrow houtput =>
    subst houtput
    exact onConflict_answers hb htarget hkey hrows hv hmatching hnew hkeys overriding hd hrow
  | onDuplicateKey hd hrow hreads hsome =>
    exact onDuplicateKey_answers hb htarget hkey hrows hv hmatching hnew hkeys hd hrow hreads
      (hsome hwanted)
  | updateThenInsert hd hcriteria has _ hreads hsome =>
    exact updateThenInsert_answers hb htarget hkey hrows hv hmatching hd hcriteria has hreads
      (hsome hwanted)

end Plans

end Relation

end SchemaSql
