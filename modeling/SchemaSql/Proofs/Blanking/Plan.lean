import SchemaSql.Command.Upsert
import SchemaSql.Command.Write
import SchemaSql.Proofs.Blanking.Binding

/-!
Plans of writes without their values. Two outcomes are alike up to a view of results if they fail
with the same error or succeed with results that have the same view; plans that agree once values
are blanked have chains that are alike up to values in every dialect.
-/

set_option autoImplicit false
set_option relaxedAutoImplicit false

namespace SchemaSql

def AlikeBy {α β : Type} (f : α → β) (x y : Except Error α) : Prop := x.map f = y.map f

namespace AlikeBy

variable {α β γ δ : Type} {f : α → β} {g : γ → δ}

theorem refl (x : Except Error α) : AlikeBy f x x := Eq.refl (x.map f)

theorem ok {a b : α} (h : f a = f b) : AlikeBy f (.ok a) (.ok b) := congrArg Except.ok h

theorem iff_errors_or_results {x y : Except Error α} :
    AlikeBy f x y ↔ (∃ e, x = .error e ∧ y = .error e) ∨
      ∃ a b, x = .ok a ∧ y = .ok b ∧ f a = f b := by
  cases x <;> cases y <;> simp [AlikeBy, Except.map, eq_comm]

theorem bind {x y : Except Error α} {k l : α → Except Error γ} (h : AlikeBy f x y)
    (hkl : ∀ a b, f a = f b → AlikeBy g (k a) (l b)) : AlikeBy g (x >>= k) (y >>= l) := by
  rcases iff_errors_or_results.mp h with ⟨e, rfl, rfl⟩ | ⟨a, b, rfl, rfl, hab⟩
  · exact refl (f := g) (.error e)
  · exact hkl a b hab

theorem map {x y : Except Error α} {k l : α → γ} (h : AlikeBy f x y)
    (hkl : ∀ a b, f a = f b → g (k a) = g (l b)) : AlikeBy g (x.map k) (y.map l) := by
  rcases iff_errors_or_results.mp h with ⟨e, rfl, rfl⟩ | ⟨a, b, rfl, rfl, hab⟩
  · exact refl (f := g) (.error e)
  · exact ok (hkl a b hab)

/-- Where blanking commutes with a function, arguments alike give results alike. -/
theorem of_blank {x y : Except Error α} {x' y' : Except Error β} (hx : x' = x.map f)
    (hy : y' = y.map f) (h : x' = y') : AlikeBy f x y := by
  rw [AlikeBy, ← hx, ← hy, h]

end AlikeBy

theorem Link.ofStatement_alike (d : Dialect) (operation : String) {s s' : Statement}
    (hs : s.blank = s'.blank) :
    AlikeBy Link.blank (ofStatement d operation s) (ofStatement d operation s') :=
  .of_blank (ofStatement_blank d operation s) (ofStatement_blank d operation s') (by rw [hs])

/-! ### Bindings -/

namespace Binding

variable {b b' : Binding}

theorem insertRow_alike (hb : b.blank = b'.blank) :
    AlikeBy (List.map Cell.blank) b.insertRow b'.insertRow :=
  .of_blank b.insertRow_blank b'.insertRow_blank (by rw [hb])

theorem assignments_alike (hb : b.blank = b'.blank) :
    AlikeBy (List.map Assignment.blank) b.assignments b'.assignments :=
  .of_blank b.assignments_blank b'.assignments_blank (by rw [hb])

theorem keyCriteria_alike (hb : b.blank = b'.blank) :
    AlikeBy (List.map Predicate.blank) b.keyCriteria b'.keyCriteria :=
  .of_blank b.keyCriteria_blank b'.keyCriteria_blank (by rw [hb])

theorem readColumns_congr (hb : b.blank = b'.blank) : b.readColumns = b'.readColumns := by
  rw [← readColumns_blank, hb, readColumns_blank]

theorem keyColumns_congr (hb : b.blank = b'.blank) : b.keyColumns = b'.keyColumns := by
  rw [← keyColumns_blank, hb, keyColumns_blank]

theorem updateColumns_congr (hb : b.blank = b'.blank) : b.updateColumns = b'.updateColumns := by
  rw [← updateColumns_blank, hb, updateColumns_blank]

theorem insertColumns_congr (hb : b.blank = b'.blank) : b.insertColumns = b'.insertColumns := by
  rw [← insertColumns_blank, hb, insertColumns_blank]

theorem hasUpdates_congr (hb : b.blank = b'.blank) : b.hasUpdates = b'.hasUpdates := by
  rw [← hasUpdates_blank, hb, hasUpdates_blank]

theorem hasInserts_congr (hb : b.blank = b'.blank) : b.hasInserts = b'.hasInserts := by
  rw [← hasInserts_blank, hb, hasInserts_blank]

theorem hasKeyValues_congr (hb : b.blank = b'.blank) : b.hasKeyValues = b'.hasKeyValues := by
  rw [← hasKeyValues_blank, hb, hasKeyValues_blank]

theorem insertsIdentity_congr (hb : b.blank = b'.blank) :
    b.insertsIdentity = b'.insertsIdentity := by
  rw [← insertsIdentity_blank, hb, insertsIdentity_blank]

theorem generatedIdentity?_congr (hb : b.blank = b'.blank) :
    b.generatedIdentity? = b'.generatedIdentity? := by
  rw [← generatedIdentity?_blank, hb, generatedIdentity?_blank]

theorem boundCells_congr (hb : b.blank = b'.blank) :
    b.boundCells.map Cell.blank = b'.boundCells.map Cell.blank := by
  rw [← boundCells_blank, hb, boundCells_blank]

end Binding

/-! ### Plans -/

def WritePlan.blank (p : WritePlan) : WritePlan :=
  { p with binding := p.binding.blank, criteria := p.criteria.map Predicate.blank }

namespace WritePlan

variable {p p' : WritePlan}

theorem binding_congr (hp : p.blank = p'.blank) : p.binding.blank = p'.binding.blank :=
  congrArg binding hp

theorem criteria_congr (hp : p.blank = p'.blank) :
    p.criteria.map Predicate.blank = p'.criteria.map Predicate.blank :=
  congrArg criteria hp

theorem dialect_congr (hp : p.blank = p'.blank) : p.dialect = p'.dialect := (congrArg dialect hp :)

theorem target_congr (hp : p.blank = p'.blank) : p.target = p'.target := (congrArg target hp :)

theorem returning_congr (hp : p.blank = p'.blank) : p.returning = p'.returning :=
  (congrArg returning hp :)

theorem byKey_congr (hp : p.blank = p'.blank) : p.byKey = p'.byKey := (congrArg byKey hp :)

theorem object_congr (hp : p.blank = p'.blank) : p.binding.object = p'.binding.object :=
  congrArg (fun p ↦ p.binding.object) hp

theorem writesIdentity_congr (hp : p.blank = p'.blank) : p.writesIdentity = p'.writesIdentity := by
  have hinsert : p.identityInsert = p'.identityInsert := (congrArg identityInsert hp :)
  rw [writesIdentity, writesIdentity, hinsert, Binding.insertsIdentity_congr (binding_congr hp)]

theorem output_congr (hp : p.blank = p'.blank) (image : RowImage) :
    p.output image = p'.output image := by
  rw [output, output, returning_congr hp, Binding.readColumns_congr (binding_congr hp)]

theorem returned_congr (hp : p.blank = p'.blank) : p.returned = p'.returned := by
  rw [returned, returned, returning_congr hp, Binding.readColumns_congr (binding_congr hp)]

theorem writeLink_alike (hp : p.blank = p'.blank) {s s' : Statement} (hs : s.blank = s'.blank) :
    AlikeBy Link.blank (p.writeLink s) (p'.writeLink s') := by
  have hoperation : p.operation = p'.operation := (congrArg operation hp :)
  have hcheck : p.check = p'.check := (congrArg check hp :)
  rw [writeLink, writeLink, dialect_congr hp, hoperation, hcheck]
  refine (Link.ofStatement_alike _ _ hs).map fun l l' hl ↦ ?_
  exact congrArg (fun l ↦ l.checked p'.check) hl

theorem readLink_alike (hp : p.blank = p'.blank) (operation : String)
    {criteria criteria' : List Predicate}
    (hcriteria : criteria.map Predicate.blank = criteria'.map Predicate.blank) :
    AlikeBy Link.blank (p.readLink operation criteria) (p'.readLink operation criteria') := by
  rw [readLink, readLink, dialect_congr hp]
  refine Link.ofStatement_alike _ _ ?_
  simp only [readStatement, Statement.blank, Select.blank, hcriteria, target_congr hp,
    Binding.readColumns_congr (binding_congr hp)]

theorem finish_alike (hp : p.blank = p'.blank) {x y : Except Error Chain}
    (h : AlikeBy (List.map Link.blank) x y) :
    AlikeBy (List.map Link.blank) (p.finish <$> x) (p'.finish <$> y) := by
  refine AlikeBy.map h fun c c' hc ↦ ?_
  have hresult (l : Link) : l.withoutResult.blank = l.blank.withoutResult := by
    cases l with
    | mk operation statement text parameters kind mode condition check => cases mode <;> rfl
  have hresults (c : Chain) :
      (c.withoutResult).map Link.blank = Chain.withoutResult (c.map Link.blank) := by
    simp only [Chain.withoutResult, List.map_map]
    congr 1
    funext l
    exact hresult l
  rw [finish, finish, returning_congr hp]
  split
  · rw [hresults, hresults, hc]
  · exact hc

theorem ok_singleton {l l' : Link} (h : l.blank = l'.blank) :
    AlikeBy (List.map Link.blank) (pure [l]) (pure [l']) :=
  .ok (by simp [h])

theorem ok_pair {l l' m m' : Link} (hl : l.blank = l'.blank) (hm : m.blank = m'.blank) :
    AlikeBy (List.map Link.blank) (pure [l, m]) (pure [l', m']) :=
  .ok (by simp [hl, hm])

theorem ok_triple {l l' m m' n n' : Link} (hl : l.blank = l'.blank) (hm : m.blank = m'.blank)
    (hn : n.blank = n'.blank) :
    AlikeBy (List.map Link.blank) (pure [l, m, n]) (pure [l', m', n']) :=
  .ok (by simp [hl, hm, hn])

theorem counting_congr {l l' : Link} (h : l.blank = l'.blank) :
    l.counting.blank = l'.counting.blank :=
  congrArg Link.counting h

/-! ### Inserts -/

theorem outputInsert_alike (hp : p.blank = p'.blank) :
    AlikeBy (List.map Link.blank) p.outputInsert p'.outputInsert := by
  refine (Binding.insertRow_alike (binding_congr hp)).bind fun row row' hrow ↦ ?_
  refine (writeLink_alike hp ?_).bind fun write write' hwrite ↦ ok_singleton hwrite
  simp only [Statement.blank, Insert.blank, hrow, target_congr hp, output_congr hp,
    writesIdentity_congr hp]

theorem returningInsert_alike (hp : p.blank = p'.blank) :
    AlikeBy (List.map Link.blank) p.returningInsert p'.returningInsert := by
  refine (Binding.insertRow_alike (binding_congr hp)).bind fun row row' hrow ↦ ?_
  refine (writeLink_alike hp ?_).bind fun write write' hwrite ↦ ok_singleton hwrite
  simp only [Statement.blank, Insert.blank, hrow, target_congr hp, returned_congr hp,
    writesIdentity_congr hp, dialect_congr hp]

theorem insertedCriteria_alike (hp : p.blank = p'.blank) :
    AlikeBy (List.map Predicate.blank) p.insertedCriteria p'.insertedCriteria := by
  rw [insertedCriteria, insertedCriteria, Binding.generatedIdentity?_congr (binding_congr hp)]
  cases p'.binding.generatedIdentity? with
  | some identity => exact .refl _
  | none => exact Binding.keyCriteria_alike (binding_congr hp)

theorem blank_plainInsert (hp : p.blank = p'.blank) {row row' : List Cell}
    (hrow : row.map Cell.blank = row'.map Cell.blank) :
    (Statement.insert { target := p.target, row }).blank =
      (Statement.insert { target := p'.target, row := row' }).blank := by
  simp only [Statement.blank, Insert.blank, hrow, target_congr hp]

theorem readBackInsert_alike (hp : p.blank = p'.blank) :
    AlikeBy (List.map Link.blank) p.readBackInsert p'.readBackInsert := by
  refine (Binding.insertRow_alike (binding_congr hp)).bind fun row row' hrow ↦ ?_
  have hinsert := blank_plainInsert hp hrow
  rw [returning_congr hp]
  by_cases hreturning : p'.returning = .none
  · rw [if_pos hreturning, if_pos hreturning]
    exact (writeLink_alike hp hinsert).bind fun write write' hwrite ↦ ok_singleton hwrite
  · rw [if_neg hreturning, if_neg hreturning]
    refine (insertedCriteria_alike hp).bind fun criteria criteria' hcriteria ↦ ?_
    refine (writeLink_alike hp hinsert).bind fun write write' hwrite ↦ ?_
    refine (readLink_alike hp "ReadBack" hcriteria).bind fun read read' hread ↦ ?_
    exact ok_pair (counting_congr hwrite) hread

theorem forwardingInsert_alike (hp : p.blank = p'.blank) :
    AlikeBy (List.map Link.blank) p.forwardingInsert p'.forwardingInsert := by
  refine (Binding.insertRow_alike (binding_congr hp)).bind fun row row' hrow ↦ ?_
  refine (writeLink_alike hp (blank_plainInsert hp hrow)).bind fun write write' hwrite ↦ ?_
  rw [returning_congr hp]
  by_cases hreturning : p'.returning = .none
  · rw [if_pos hreturning, if_pos hreturning]
    exact ok_singleton hwrite
  · rw [if_neg hreturning, if_neg hreturning,
      Binding.generatedIdentity?_congr (binding_congr hp), dialect_congr hp]
    cases p'.binding.generatedIdentity? with
    | some identity =>
      refine (Link.ofStatement_alike _ "FetchIdentity" rfl).bind fun fetch fetch' hfetch ↦ ?_
      refine (readLink_alike hp "ReadBack" rfl).bind fun read read' hread ↦ ?_
      refine ok_triple (counting_congr hwrite) ?_ hread
      exact congrArg (fun l : Link ↦ { l with mode := .forward (some "@Identity") }) hfetch
    | none =>
      refine (Binding.keyCriteria_alike (binding_congr hp)).bind
        fun criteria criteria' hcriteria ↦ ?_
      refine (readLink_alike hp "ReadBack" hcriteria).bind fun read read' hread ↦ ?_
      exact ok_pair (counting_congr hwrite) hread

theorem insertChain_alike (hp : p.blank = p'.blank) :
    AlikeBy (List.map Link.blank) p.insertChain p'.insertChain := by
  rw [insertChain, insertChain, dialect_congr hp]
  refine finish_alike hp ?_
  cases p'.dialect with
  | sqlServer => exact outputInsert_alike hp
  | postgreSql => exact returningInsert_alike hp
  | sqlite => exact returningInsert_alike hp
  | mySql => exact readBackInsert_alike hp
  | access => exact forwardingInsert_alike hp

/-! ### Updates and deletes -/

theorem readingChain_alike (hp : p.blank = p'.blank) {write write' : Link}
    (hwrite : write.blank = write'.blank) (verb : String) :
    AlikeBy (List.map Link.blank) (p.readingChain write verb) (p'.readingChain write' verb) := by
  rw [readingChain, readingChain, returning_congr hp, byKey_congr hp, dialect_congr hp]
  cases p'.returning with
  | none => exact ok_singleton hwrite
  | new =>
    cases p'.byKey with
    | false => exact .refl (.error _)
    | true =>
      refine (readLink_alike hp _ (criteria_congr hp)).bind fun read read' hread ↦ ?_
      exact ok_pair (counting_congr hwrite) hread
  | old =>
    cases p'.byKey with
    | false => exact .refl (.error _)
    | true =>
      refine (readLink_alike hp _ (criteria_congr hp)).bind fun read read' hread ↦ ?_
      exact ok_pair hread (counting_congr hwrite)

theorem update_alike (hp : p.blank = p'.blank) {output output' : Output}
    (houtput : output = output') :
    AlikeBy Statement.blank (p.update output) (p'.update output') := by
  refine (Binding.assignments_alike (binding_congr hp)).bind fun as as' has ↦ .ok ?_
  simp only [Statement.blank, Update.blank, has, criteria_congr hp, target_congr hp, houtput]

theorem outputUpdate_alike (hp : p.blank = p'.blank) :
    AlikeBy (List.map Link.blank) p.outputUpdate p'.outputUpdate := by
  refine (update_alike hp (output_congr hp .inserted)).bind fun s s' hs ↦ ?_
  exact (writeLink_alike hp hs).bind fun write write' hwrite ↦ ok_singleton hwrite

theorem returningUpdate_alike (hp : p.blank = p'.blank) :
    AlikeBy (List.map Link.blank) p.returningUpdate p'.returningUpdate := by
  rw [returningUpdate, returningUpdate, returning_congr hp]
  by_cases hold : p'.returning = .old
  · rw [if_pos hold, if_pos hold]
    refine (update_alike hp rfl).bind fun s s' hs ↦ ?_
    refine (readLink_alike hp _ (criteria_congr hp)).bind fun before before' hbefore ↦ ?_
    refine (writeLink_alike hp hs).bind fun write write' hwrite ↦ ?_
    exact ok_pair hbefore (counting_congr hwrite)
  · rw [if_neg hold, if_neg hold]
    refine (update_alike hp (returned_congr hp)).bind fun s s' hs ↦ ?_
    exact (writeLink_alike hp hs).bind fun write write' hwrite ↦ ok_singleton hwrite

theorem readingUpdate_alike (hp : p.blank = p'.blank) :
    AlikeBy (List.map Link.blank) p.readingUpdate p'.readingUpdate := by
  refine (update_alike hp rfl).bind fun s s' hs ↦ ?_
  exact (writeLink_alike hp hs).bind fun write write' hwrite ↦
    readingChain_alike hp hwrite "Update"

theorem updateChain_alike (hp : p.blank = p'.blank) :
    AlikeBy (List.map Link.blank) p.updateChain p'.updateChain := by
  rw [updateChain, updateChain, dialect_congr hp]
  refine finish_alike hp ?_
  cases p'.dialect with
  | sqlServer => exact outputUpdate_alike hp
  | postgreSql => exact returningUpdate_alike hp
  | sqlite => exact returningUpdate_alike hp
  | mySql => exact readingUpdate_alike hp
  | access => exact readingUpdate_alike hp

theorem delete_congr (hp : p.blank = p'.blank) {output output' : Output}
    (houtput : output = output') : (p.delete output).blank = (p'.delete output').blank := by
  simp only [delete, Statement.blank, Delete.blank, criteria_congr hp, target_congr hp, houtput]

theorem deleteChain_alike (hp : p.blank = p'.blank) :
    AlikeBy (List.map Link.blank) p.deleteChain p'.deleteChain := by
  have hreturning : AlikeBy (List.map Link.blank) p.returningDelete p'.returningDelete :=
    (writeLink_alike hp (delete_congr hp (returned_congr hp))).bind
      fun write write' hwrite ↦ ok_singleton hwrite
  have hreading : AlikeBy (List.map Link.blank) p.readingDelete p'.readingDelete :=
    (writeLink_alike hp (delete_congr hp rfl)).bind
      fun write write' hwrite ↦ readingChain_alike hp hwrite "Delete"
  rw [deleteChain, deleteChain, dialect_congr hp]
  refine finish_alike hp ?_
  cases p'.dialect with
  | sqlServer =>
    exact (writeLink_alike hp (delete_congr hp (output_congr hp .deleted))).bind
      fun write write' hwrite ↦ ok_singleton hwrite
  | postgreSql => exact hreturning
  | sqlite => exact hreturning
  | mySql => exact hreading
  | access => exact hreading

/-! ### Upserts -/

theorem mergeUpsert_alike (hp : p.blank = p'.blank) :
    AlikeBy (List.map Link.blank) p.mergeUpsert p'.mergeUpsert := by
  have hb := binding_congr hp
  refine (writeLink_alike hp ?_).bind fun write write' hwrite ↦ ok_singleton hwrite
  simp only [Statement.blank, Merge.blank, Binding.boundCells_congr hb,
    Binding.keyColumns_congr hb, Binding.updateColumns_congr hb, Binding.insertColumns_congr hb,
    target_congr hp, output_congr hp, writesIdentity_congr hp]

theorem upsertColumns_congr (hp : p.blank = p'.blank) : p.upsertColumns = p'.upsertColumns := by
  have hb := binding_congr hp
  rw [upsertColumns, upsertColumns, Binding.hasUpdates_congr hb, Binding.updateColumns_congr hb,
    Binding.keyColumns_congr hb, returning_congr hp]

theorem onConflictUpsert_alike (hp : p.blank = p'.blank) :
    AlikeBy (List.map Link.blank) p.onConflictUpsert p'.onConflictUpsert := by
  refine (Binding.insertRow_alike (binding_congr hp)).bind fun row row' hrow ↦ ?_
  refine (writeLink_alike hp ?_).bind fun write write' hwrite ↦ ok_singleton hwrite
  simp only [Statement.blank, Insert.blank, hrow, target_congr hp, returned_congr hp,
    writesIdentity_congr hp, dialect_congr hp, upsertColumns_congr hp,
    Binding.keyColumns_congr (binding_congr hp)]

theorem duplicateConflict_congr (hp : p.blank = p'.blank) :
    p.duplicateConflict = p'.duplicateConflict := by
  rw [duplicateConflict, duplicateConflict, upsertColumns_congr hp,
    Binding.hasUpdates_congr (binding_congr hp)]

theorem onDuplicateUpsert_alike (hp : p.blank = p'.blank) :
    AlikeBy (List.map Link.blank) p.onDuplicateUpsert p'.onDuplicateUpsert := by
  have hb := binding_congr hp
  refine (Binding.insertRow_alike hb).bind fun row row' hrow ↦ ?_
  have hinsert : (Statement.insert
        { target := p.target, row, conflict := p.duplicateConflict }).blank =
      (Statement.insert
        { target := p'.target, row := row', conflict := p'.duplicateConflict }).blank := by
    simp only [Statement.blank, Insert.blank, hrow, target_congr hp, duplicateConflict_congr hp]
  rw [returning_congr hp]
  by_cases hreturning : p'.returning = .none
  · rw [if_pos hreturning, if_pos hreturning]
    exact (writeLink_alike hp hinsert).bind fun write write' hwrite ↦ ok_singleton hwrite
  · rw [if_neg hreturning, if_neg hreturning, Binding.hasKeyValues_congr hb, object_congr hp]
    cases p'.binding.hasKeyValues with
    | false => exact .refl (.error _)
    | true =>
      refine (Binding.keyCriteria_alike hb).bind fun criteria criteria' hcriteria ↦ ?_
      refine (writeLink_alike hp hinsert).bind fun write write' hwrite ↦ ?_
      refine (readLink_alike hp "ReadBack" hcriteria).bind fun read read' hread ↦ ?_
      exact ok_pair (counting_congr hwrite) hread

theorem presenceAssignments_alike (hp : p.blank = p'.blank) :
    AlikeBy (List.map Assignment.blank) p.presenceAssignments p'.presenceAssignments := by
  have hb := binding_congr hp
  rw [presenceAssignments, presenceAssignments, Binding.hasUpdates_congr hb,
    Binding.keyColumns_congr hb]
  split
  · exact Binding.assignments_alike hb
  · exact .refl _

theorem updateThenInsertUpsert_alike (hp : p.blank = p'.blank) :
    AlikeBy (List.map Link.blank) p.updateThenInsertUpsert p'.updateThenInsertUpsert := by
  have hb := binding_congr hp
  refine (Binding.keyCriteria_alike hb).bind fun criteria criteria' hcriteria ↦ ?_
  refine (presenceAssignments_alike hp).bind fun as as' has ↦ ?_
  rw [dialect_congr hp]
  refine (Link.ofStatement_alike _ "UpsertUpdate" ?_).bind fun update update' hupdate ↦ ?_
  · simp only [Statement.blank, Update.blank, has, hcriteria, target_congr hp]
  refine (Binding.insertRow_alike hb).bind fun row row' hrow ↦ ?_
  refine (Link.ofStatement_alike _ "UpsertInsert" (blank_plainInsert hp hrow)).bind
    fun insert insert' hinsert ↦ ?_
  have honce : Link.blank { insert with condition := .previousAffectedNone } =
      Link.blank { insert' with condition := .previousAffectedNone } :=
    congrArg (fun l : Link ↦ { l with condition := .previousAffectedNone }) hinsert
  rw [returning_congr hp]
  by_cases hreturning : p'.returning = .none
  · rw [if_pos hreturning, if_pos hreturning]
    exact ok_pair (counting_congr hupdate) honce
  · rw [if_neg hreturning, if_neg hreturning, Binding.hasKeyValues_congr hb, object_congr hp]
    cases p'.binding.hasKeyValues with
    | false => exact .refl (.error _)
    | true =>
      refine (readLink_alike hp "ReadBack" hcriteria).bind fun read read' hread ↦ ?_
      exact ok_triple (counting_congr hupdate) (counting_congr honce) hread

theorem upsertChain_alike (hp : p.blank = p'.blank) :
    AlikeBy (List.map Link.blank) p.upsertChain p'.upsertChain := by
  rw [upsertChain, upsertChain, dialect_congr hp]
  refine finish_alike hp ?_
  cases p'.dialect.upsertStrategy with
  | merge => exact mergeUpsert_alike hp
  | onConflict => exact onConflictUpsert_alike hp
  | onDuplicateKey => exact onDuplicateUpsert_alike hp
  | updateThenInsert => exact updateThenInsertUpsert_alike hp

end WritePlan

end SchemaSql
