import SchemaSql.Proofs.Command.Siblings
import SchemaSql.Proofs.Relation.Reported

/-!
Upserts that hand rows back, run where a row with their key is there. MySQL and Access read the row
by its key, so that they always answer with it. PostgreSQL and SQLite assign the key to itself if
there is nothing else to update, and answer with the row unless the insert leaves key columns out
which the database fills otherwise. SQL Server has no such assignment, so that a merge with nothing
to update answers with no row.
-/

set_option autoImplicit false
set_option relaxedAutoImplicit false

namespace SchemaSql.Command

variable {env : Environment} {desired : Desired} {t : Table} {a : Argument} {b : Binding}
  {o : UpsertOptions} {chain : Chain}

/-- The binding that an upsert is made of, after the rules and with the wanted columns marked. -/
def answeringBinding (env : Environment) (desired : Desired) (t : Table) (a : Argument)
    (o : UpsertOptions) : Except Error Binding :=
  ((binding env t).apply (Binding.bindArgument a o.useKeyMarks)).bind fun b ↦
    (env.rules.bindUpsert env.now (upsertBase env b o)).apply (Binding.applyDesired desired)

/-- The plan of an upsert that hands rows back is made of this binding. -/
theorem prepareUpsert_wanted (hb : answeringBinding env desired t a o = .ok b)
    (hdesired : desired.isNone = false) (h : prepareUpsert env desired t a o = .ok chain) :
    ∃ (p : WritePlan) (steps : List ChainStep), p.binding = b ∧ p.dialect = env.dialect ∧
      p.target = t.target ∧ p.returning = .new ∧ b.Splits ∧ b.keyColumns ≠ [] ∧
      p.UpsertSteps steps ∧ chain.Runs env.dialect steps ∧ chain.Answers := by
  obtain ⟨c, p, steps, hc, hkeys, hd, htarget, hr, hsteps, hruns, hanswers⟩ :=
    prepareUpsert_answers h
  obtain ⟨c', hc', hb⟩ := bind_eq_ok.mp hb
  obtain rfl := Except.ok.inj (hc.symm.trans hc')
  obtain ⟨-, hunread, honce⟩ := returningFor_ok hr
  have hruled := bindUpsert_splits hc (upsertBase_splits (o := o) hc hkeys)
  rw [returningFor, hdesired, if_neg Bool.false_ne_true] at hr
  obtain ⟨b', hb', hplan⟩ := map_eq_ok.mp hr
  obtain rfl := Except.ok.inj (hb.symm.trans hb')
  have hbinding : b = p.binding := congrArg (·.1) hplan
  have hnew : .new = p.returning := congrArg (·.2) hplan
  refine ⟨p, steps, hbinding.symm, hd, htarget, hnew.symm,
    hbinding ▸ hruled.of_unread hunread (honce hruled.once), ?_, hsteps, hruns,
    hanswers (by simp [← hnew])⟩
  have hmarks : b.keyMarks = (upsertBase env c o).keyMarks := by
    rw [hbinding, Binding.keyMarks_unread hunread, Binding.keyMarks_bindUpsert]
  rw [Binding.keyColumns_of_keyMarks hmarks]
  simp only [Binding.hasKeyValues, Bool.and_eq_true, Bool.not_eq_true'] at hkeys
  exact fun hnone ↦ by simp [List.map_eq_nil_iff.mp hnone] at hkeys

/-- An upsert that hands rows back runs where a row with its key is there, and answers with this
row, as it leaves it, but with no row that has the key in two cases: a merge has nothing to update,
or where rows clash the database fills key columns that are not inserted otherwise. -/
theorem prepare_upsert_reported (hb : answeringBinding env desired t a o = .ok b)
    (hdesired : desired.isNone = false) (h : prepare env desired (.upsert t a o) = .ok chain)
    {R : Relation} (htarget : R.target = t.target) (hkey : R.key = b.keyColumns)
    {rows : List Tuple} (hrows : R.Keyed rows) {v : Tuple} (hv : v ∈ rows)
    (hmatching : v.matching b.keyValues) (s : Settings) (wanted : Desired) :
    ∃ e, R.connection.runChain s chain (.rows wanted) rows =
        .ok (.rows (Relation.project b.readColumns e.touched)) e.rows ∧
      R.Answered env.dialect b rows v e := by
  obtain ⟨p, steps, rfl, hd, hptarget, hnew, hsplits, hkeys, hsteps, hruns, hanswers⟩ :=
    prepareUpsert_wanted hb hdesired h
  obtain ⟨e, hanswer, hanswered⟩ := Relation.upsertSteps_answer hsplits
    (htarget.trans hptarget.symm) hkey hrows hv hmatching hnew hkeys hsteps
  exact ⟨e, Relation.runChain_answer hruns hanswers hanswer s wanted, hd ▸ hanswered⟩

/-- A user that is there already and has nothing but a key is not handed back. -/
theorem merge_user_unreported :
    ∃ chain, ∃ e : Relation.Effect, prepare { dialect := .sqlServer } .all
        (.upsert (Users.table .sqlServer) (.properties [⟨"Id", .int 1, false⟩]) {}) = .ok chain ∧
      (users .sqlServer).connection.runChain {} chain (.rows .all) [bareUser .sqlServer (.int 1)] =
        .ok (.rows (Relation.project (Users.table .sqlServer).columns e.touched)) e.rows ∧
      bareUser .sqlServer (.int 1) ∉ e.touched := by
  have hok : (prepare { dialect := .sqlServer } .all
      (.upsert (Users.table .sqlServer)
        (.properties [⟨"Id", .int 1, false⟩]) {})).toOption.isSome := by decide +kernel
  have hbinding : (answeringBinding { dialect := .sqlServer } .all (Users.table .sqlServer)
      (.properties [⟨"Id", .int 1, false⟩]) {}).toOption.any fun b ↦
        b.keyColumns = [Users.id .sqlServer] ∧ b.keyValues = [(Users.id .sqlServer, .int 1)] ∧
          b.readColumns = (Users.table .sqlServer).columns ∧ b.hasUpdates = false := by
    decide +kernel
  obtain ⟨chain, hchain⟩ := exists_ok_of_isSome hok
  obtain ⟨b, hb, hbinding⟩ := exists_ok_of_any hbinding
  obtain ⟨hkey, hvalues, hreads, hupdates⟩ :
    b.keyColumns = [Users.id .sqlServer] ∧ b.keyValues = [(Users.id .sqlServer, .int 1)] ∧
      b.readColumns = (Users.table .sqlServer).columns ∧ b.hasUpdates = false :=
    of_decide_eq_true hbinding
  have hmatching : (bareUser .sqlServer (.int 1)).matching b.keyValues = true := by
    rw [hvalues]
    decide +kernel
  obtain ⟨e, hrun, hanswered⟩ := prepare_upsert_reported hb rfl hchain
    (R := users .sqlServer) rfl hkey.symm (List.pairwise_singleton _ _)
    (List.mem_singleton_self _) hmatching {} .all
  rw [hreads] at hrun
  refine ⟨chain, e, hchain, hrun, fun hreported ↦ ?_⟩
  have hother := hanswered.misses (fun hupdated : b.hasUpdates = true ↦ by
    rw [hupdates] at hupdated
    cases hupdated) _ hreported
  rw [hmatching] at hother
  cases hother

end SchemaSql.Command
