import SchemaSql.Proofs.Command.Inserted

/-!
Identities that a statement writes. Whether an identity column is inserted follows from the choices
of a binding, the key and the rules; whether the statement says that it writes one follows from a
choice of its plan. The two agree: the statement of SQL Server is enclosed in the switch for its
table, and that of PostgreSQL overrides the generated values, exactly if an identity column is among
those that it lists. One is listed only if the request asks for it, or if it is a key of an upsert
that finds its row by a clash.
-/

set_option autoImplicit false
set_option relaxedAutoImplicit false

namespace SchemaSql

/-- The columns that a statement lists to insert. -/
def Statement.insertList : Statement → List Column
  | .insert s => rowColumns s.row
  | .merge s => s.inserts
  | _ => []

namespace Link

/-- The text encloses a statement in the switch that lets identities of a target be written. -/
def Encloses (target : Target) (l : Link) : Prop :=
  ∃ body, l.text = "SET IDENTITY_INSERT " ++ target.quoted ++ " ON;\n" ++ body ++
    "\nSET IDENTITY_INSERT " ++ target.quoted ++ " OFF;"

/-- Behind the columns that it lists, the text says that identities are written in place of the
generated ones. -/
def Overrides (target : Target) (l : Link) : Prop :=
  ∃ rest, l.text = "INSERT INTO " ++ target.quoted ++ " (" ++
    columnsText l.statement.insertList ++ ")" ++ " OVERRIDING SYSTEM VALUE" ++ rest

/-! ### Texts -/

variable {d : Dialect} {l : Link} {target : Target}

/-- A statement that does not start with the switch is enclosed in it only if it is announced. -/
theorem encloses_iff {announced : Bool} {body : String}
    (hbody : ∀ rest, body ≠ "SET IDENTITY_INSERT " ++ rest)
    (h : l.text = announcedText announced target body) : l.Encloses target ↔ announced := by
  cases announced with
  | true => exact iff_of_true ⟨body, h⟩ rfl
  | false =>
    refine iff_of_false ?_ Bool.false_ne_true
    rintro ⟨inner, hinner⟩
    have hstarts : body = _ := h.symm.trans hinner
    simp only [String.append_assoc] at hstarts
    exact hbody _ hstarts

theorem WrittenIn.insert_encloses_iff {s : Insert} (h : l.WrittenIn d)
    (hs : l.statement = .insert s) : l.Encloses s.target ↔ s.announced := by
  have htext := Fragment.render_text h
  rw [hs, Statement.fragment, Insert.fragment, announce_text] at htext
  refine encloses_iff (fun rest hstarts ↦ ?_) htext
  have hchars := congrArg String.toList hstarts
  cases hconflict : s.conflict <;> simp [hconflict, Conflict.verb] at hchars

theorem WrittenIn.merge_encloses_iff {s : Merge} (h : l.WrittenIn d)
    (hs : l.statement = .merge s) : l.Encloses s.target ↔ s.announced := by
  have htext := Fragment.render_text h
  rw [hs, Statement.fragment, Merge.fragment, announce_text] at htext
  refine encloses_iff (fun rest hstarts ↦ ?_) htext
  have hchars := congrArg String.toList hstarts
  simp at hchars

/-- An insert that hands nothing back in front of its values overrides generated identities if it is
said to. -/
theorem WrittenIn.overrides_iff {s : Insert} (h : l.WrittenIn d) (hs : l.statement = .insert s)
    (hannounced : s.announced = false) (hverb : s.conflict.verb = "INSERT INTO ")
    (hearly : s.output.early = "") : l.Overrides s.target ↔ s.overriding := by
  obtain ⟨values, htext⟩ : ∃ values, l.text = "INSERT INTO " ++ (s.target.quoted ++ (" (" ++
      (columnsText (rowColumns s.row) ++ (")" ++
        ((if s.overriding then " OVERRIDING SYSTEM VALUE" else "") ++
          (" VALUES (" ++ values)))))) := by
    have htext := Fragment.render_text h
    rw [hs, Statement.fragment, Insert.fragment, announce_text, hannounced, hverb, hearly] at htext
    simp only [announcedText, Bool.false_eq_true, if_false, Fragment.textAfter_append,
      Fragment.textAfter_text, String.append_assoc, String.empty_append] at htext
    exact ⟨_, htext⟩
  rw [Overrides, htext, hs, Statement.insertList]
  simp only [String.append_assoc, String.append_right_inj]
  cases s.overriding with
  | true => exact iff_of_true ⟨_, rfl⟩ rfl
  | false =>
    refine iff_of_false ?_ Bool.false_ne_true
    rintro ⟨rest, hrest⟩
    have hchars := congrArg String.toList hrest
    simp at hchars

end Link

/-! ### Plans that write identities -/

namespace WritePlan

variable {p : WritePlan} {chain : Chain}

/-- A statement that adds rows with the columns that a plan inserts, and says in the words of SQL
Server and PostgreSQL that identities are among them. -/
inductive Adds (p : WritePlan) : Statement → Prop
  | insert {s : Insert} (htarget : s.target = p.target) (hrow : p.binding.insertRow = .ok s.row)
    (hannounced : s.announced = (p.dialect = .sqlServer && p.writesIdentity))
    (hoverriding : s.overriding = (p.dialect = .postgreSql && p.writesIdentity))
    (hverb : s.conflict.verb = "INSERT INTO ")
    (hearly : p.dialect ≠ .sqlServer → s.output.early = "") : Adds p (.insert s)
  | merge {s : Merge} (htarget : s.target = p.target)
    (hinserts : s.inserts = p.binding.insertColumns) (hd : p.dialect = .sqlServer)
    (hannounced : s.announced = p.writesIdentity) : Adds p (.merge s)

namespace Adds

variable {s : Statement} {l : Link}

theorem addsRows (h : p.Adds s) : s.AddsRows := by
  cases h <;> trivial

theorem insertList (h : p.Adds s) : s.insertList = p.binding.insertColumns := by
  cases h with
  | insert _ hrow => exact (Binding.insertRow_columns hrow).2
  | merge _ hinserts => exact hinserts

theorem encloses_iff (h : p.Adds l.statement) (hl : l.WrittenIn p.dialect)
    (hd : p.dialect = .sqlServer) : l.Encloses p.target ↔ p.writesIdentity := by
  generalize hs : l.statement = s at h
  cases h with
  | insert htarget _ hannounced =>
    rw [← htarget, hl.insert_encloses_iff hs, hannounced, hd]
    simp
  | merge htarget _ _ hannounced => rw [← htarget, hl.merge_encloses_iff hs, hannounced]

theorem overrides_iff (h : p.Adds l.statement) (hl : l.WrittenIn p.dialect)
    (hd : p.dialect = .postgreSql) : l.Overrides p.target ↔ p.writesIdentity := by
  generalize hs : l.statement = s at h
  cases h with
  | insert htarget _ hannounced hoverriding hverb hearly =>
    have hplain : p.dialect ≠ .sqlServer := by rw [hd]; exact Dialect.noConfusion
    rw [decide_eq_false hplain, Bool.false_and] at hannounced
    rw [← htarget, hl.overrides_iff hs hannounced hverb (hearly hplain), hoverriding, hd]
    simp
  | merge _ _ hserver =>
    rw [hd] at hserver
    cases hserver

end Adds

/-- The only link of the chain adds the rows of the plan. -/
def AddsAlone (p : WritePlan) (chain : Chain) : Prop :=
  ∃ write, chain = [write] ∧ write.WrittenIn p.dialect ∧ p.Adds write.statement

theorem AddsAlone.finish (h : p.AddsAlone chain) : p.AddsAlone (p.finish chain) := by
  obtain ⟨write, rfl, hwritten, hadds⟩ := h
  rw [WritePlan.finish]
  split
  · exact ⟨write.withoutResult, rfl, hwritten.withoutResult,
      (Link.withoutResult_statement write).symm ▸ hadds⟩
  · exact ⟨write, rfl, hwritten, hadds⟩

theorem outputInsert_addsAlone (hd : p.dialect = .sqlServer) (h : p.outputInsert = .ok chain) :
    p.AddsAlone chain := by
  obtain ⟨row, hrow, h⟩ := bind_eq_ok.mp h
  obtain ⟨write, hwrite, h⟩ := bind_eq_ok.mp h
  obtain rfl := Except.ok.inj h
  obtain ⟨hstatement, hwritten⟩ := writeLink_ok hwrite
  refine ⟨write, rfl, hwritten, hstatement ▸ .insert rfl hrow ?_ ?_ rfl (absurd hd)⟩ <;> simp [hd]

theorem returned_early (p : WritePlan) : p.returned.early = "" := by
  rw [returned]
  split <;> rfl

theorem returningInsert_addsAlone (hd : p.dialect = .postgreSql)
    (h : p.returningInsert = .ok chain) : p.AddsAlone chain := by
  obtain ⟨row, hrow, h⟩ := bind_eq_ok.mp h
  obtain ⟨write, hwrite, h⟩ := bind_eq_ok.mp h
  obtain rfl := Except.ok.inj h
  obtain ⟨hstatement, hwritten⟩ := writeLink_ok hwrite
  refine ⟨write, rfl, hwritten,
    hstatement ▸ .insert rfl hrow ?_ rfl rfl fun _ ↦ p.returned_early⟩
  simp [hd]

theorem mergeUpsert_addsAlone (hd : p.dialect = .sqlServer) (h : p.mergeUpsert = .ok chain) :
    p.AddsAlone chain := by
  obtain ⟨write, hwrite, h⟩ := bind_eq_ok.mp h
  obtain rfl := Except.ok.inj h
  obtain ⟨hstatement, hwritten⟩ := writeLink_ok hwrite
  exact ⟨write, rfl, hwritten, hstatement ▸ .merge rfl rfl hd rfl⟩

theorem onConflictUpsert_addsAlone (hd : p.dialect = .postgreSql)
    (h : p.onConflictUpsert = .ok chain) : p.AddsAlone chain := by
  obtain ⟨row, hrow, h⟩ := bind_eq_ok.mp h
  obtain ⟨write, hwrite, h⟩ := bind_eq_ok.mp h
  obtain rfl := Except.ok.inj h
  obtain ⟨hstatement, hwritten⟩ := writeLink_ok hwrite
  refine ⟨write, rfl, hwritten,
    hstatement ▸ .insert rfl hrow ?_ rfl rfl fun _ ↦ p.returned_early⟩
  simp [hd]

/-- A chain that carries out an insert or an upsert of the plan. -/
def CarriesOutAdding (p : WritePlan) (chain : Chain) : Prop :=
  p.insertChain = .ok chain ∨ p.check = .ignore ∧ p.upsertChain = .ok chain

namespace CarriesOutAdding

variable (h : p.CarriesOutAdding chain)

include h

theorem addsAlone (hd : p.dialect = .sqlServer ∨ p.dialect = .postgreSql) : p.AddsAlone chain := by
  rcases h with h | ⟨-, h⟩ <;> obtain ⟨c, hc, rfl⟩ := map_eq_ok.mp h <;> refine AddsAlone.finish ?_
  · rcases hd with hd | hd
    · exact outputInsert_addsAlone hd (by rwa [hd] at hc)
    · exact returningInsert_addsAlone hd (by rwa [hd] at hc)
  · rcases hd with hd | hd
    · exact mergeUpsert_addsAlone hd (by rwa [hd] at hc)
    · exact onConflictUpsert_addsAlone hd (by rwa [hd] at hc)

/-- No statement lists a column to insert that the binding does not insert. -/
theorem mem_insertColumns {l : Link} (hl : l ∈ chain) {c : Column}
    (hc : c ∈ l.statement.insertList) : c ∈ p.binding.insertColumns := by
  rcases h with h | ⟨hcheck, h⟩
  · obtain ⟨-, write, after, s, rfl, hwrite, -, -, hrow, hreads⟩ := insertChain_addsRow h
    rcases List.mem_cons.mp hl with rfl | hafter
    · rw [hwrite] at hc
      exact (Binding.insertRow_columns hrow).2 ▸ hc
    · rcases hreads.reads l hafter with ⟨q, hq⟩ | hq <;> rw [hq] at hc <;> cases hc
  · obtain ⟨steps, hsteps, hruns⟩ := upsertChain_ok hcheck h
    obtain ⟨step, hstep, hlink⟩ := hruns.exists_step hl
    have hlists := hsteps.lists step hstep
    rw [← hlink.statement] at hlists
    cases hs : l.statement with
    | insert s =>
      rw [hs] at hc hlists
      exact hlists.2.1 ▸ hc
    | merge s =>
      rw [hs] at hc hlists
      exact hlists.2.2.2 ▸ hc
    | _ =>
      rw [hs] at hc
      cases hc

end CarriesOutAdding

/-- A plan whose identities are inserted only if it allows that says so if it inserts one. -/
theorem writesIdentity_iff
    (hallowed : ∀ c ∈ p.binding.insertColumns, c.isIdentity → p.identityInsert) :
    p.writesIdentity ↔ ∃ c ∈ p.binding.insertColumns, c.isIdentity := by
  have hinserts : p.binding.insertsIdentity ↔ ∃ c ∈ p.binding.insertColumns, c.isIdentity := by
    simp [Binding.insertsIdentity, Binding.insertColumns, and_assoc]
  rw [writesIdentity, Bool.and_eq_true, hinserts]
  refine and_iff_right_of_imp ?_
  rintro ⟨c, hc, hidentity⟩
  exact hallowed c hc hidentity

end WritePlan

theorem Binding.mem_insertColumns_unread {b b' : Binding} (h : b'.unread = b.unread) {c : Column} :
    c ∈ b'.insertColumns ↔ ∃ v, (c, v) ∈ b.insertValues := by
  have hvalues : b'.insertValues = b.insertValues := valuesWhere_congr h fun _ ↦ rfl
  rw [insertColumns, ← valuesWhere_columns, ← insertValues, hvalues]
  simp

/-! ### Commands -/

namespace Command

variable {env : Environment} {desired : Desired} {t : Table} {a : Argument} {c : Command}
  {chain : Chain}

/-- An insert into a table, or an upsert. -/
def AddsTo (t : Table) : Command → Prop
  | .insert u _ _ | .upsert u _ _ => u = t
  | _ => False

/-- Whether a command may write the identity of a column: it asks for that, or it is an upsert that
finds its row by a clash and the column is a key. -/
def MayWriteIdentity (env : Environment) (k : Column) : Command → Prop
  | .insert _ _ o => o.identityInsert
  | .upsert t a o =>
    o.identityInsert ∨ findsByClash env.dialect ∧ (a.entryFor t o.useKeyMarks k).isKey
  | _ => False

theorem prepareInsert_carriesOutAdding {o : InsertOptions}
    (h : prepareInsert env desired t a o = .ok chain) :
    ∃ p : WritePlan, p.binding.frame = (t.target, env.dialect, t.columns) ∧
      p.CarriesOutAdding chain ∧ ∀ k ∈ p.binding.insertColumns, k.isIdentity →
        (insert t a o).MayWriteIdentity env k ∧ p.identityInsert := by
  rw [prepareInsert_eq] at h
  obtain ⟨b, hb, h⟩ := bind_eq_ok.mp h
  obtain ⟨r, hr, h⟩ := bind_eq_ok.mp h
  have hadded : insertBinding env t a o =
      .ok (env.rules.bindInsert env.now (b.withIdentities o.identityInsert)) := by
    rw [insertBinding, hb]
    rfl
  obtain ⟨hframe, hunread, -⟩ := returningFor_ok hr
  refine ⟨_, ?_, .inl h, fun k hk hidentity ↦ ?_⟩
  · rw [hframe, Rules.bindInsert, Binding.frame_bindWhere, Binding.frame_withIdentities,
      Binding.frame_bindArgument hb, frame_binding]
  · obtain ⟨v, hv⟩ := (Binding.mem_insertColumns_unread hunread).mp hk
    obtain ⟨-, hwritable | ⟨hwanted, -⟩, -⟩ := (mem_insertBinding_iff hadded).mp hv
    · simp [Column.isWritable, hidentity] at hwritable
    · exact ⟨hwanted, hwanted⟩

theorem prepareUpsert_carriesOutAdding {o : UpsertOptions}
    (h : prepareUpsert env desired t a o = .ok chain) :
    ∃ p : WritePlan, p.binding.frame = (t.target, env.dialect, t.columns) ∧
      p.CarriesOutAdding chain ∧ ∀ k ∈ p.binding.insertColumns, k.isIdentity →
        (upsert t a o).MayWriteIdentity env k ∧ p.identityInsert := by
  rw [prepareUpsert_eq] at h
  obtain ⟨b, hb, h⟩ := bind_eq_ok.mp h
  split at h
  · simp at h
  rename_i hkeys
  split at h
  · simp at h
  obtain ⟨r, hr, h⟩ := bind_eq_ok.mp h
  obtain ⟨hframe, hunread, -⟩ := returningFor_ok hr
  have hsplits := bindUpsert_splits hb (upsertBase_splits (o := o) hb (by simpa using hkeys))
  refine ⟨_, ?_, .inr ⟨rfl, h⟩, fun k hk hidentity ↦ ?_⟩
  · rw [hframe, Binding.frame_bindUpsert, frame_upsertBase, Binding.frame_bindArgument hb,
      frame_binding]
  · obtain ⟨v, hv⟩ := (Binding.mem_insertColumns_unread hunread).mp hk
    obtain ⟨-, hinsertable, -, -⟩ := (mem_insertValues_bindUpsert hb hsplits).mp hv
    rw [Binding.insertable_eq (upsertBase_makes hb).choices, upsertEntry, Entry.ruled_column,
      Entry.ruled_isKey, Argument.entryFor_column, Column.isWritable, hidentity] at hinsertable
    simp only [Bool.not_true, Bool.false_and, Bool.and_true, Bool.false_or, Bool.or_eq_true,
      Bool.and_eq_true] at hinsertable
    rcases hinsertable with hwanted | ⟨⟨hclash, hkey⟩, -⟩
    · exact ⟨.inl hwanted, by simp [hwanted]⟩
    · exact ⟨.inr ⟨hclash, hkey⟩, by simp [hclash]⟩

/-- If an insert or upsert can be carried out, SQL Server is told that it writes identities of the
table exactly if it lists an identity column, and so is PostgreSQL; and it lists none in any dialect
that it may not write. -/
theorem prepare_identities (hc : c.AddsTo t) (h : prepare env desired c = .ok chain) :
    (∀ l ∈ chain, ∀ k ∈ l.statement.insertList, k.isIdentity → c.MayWriteIdentity env k) ∧
      (env.dialect = .sqlServer → ∃ write, chain = [write] ∧ write.WrittenIn env.dialect ∧
        write.statement.AddsRows ∧
        (write.Encloses t.target ↔ ∃ k ∈ write.statement.insertList, k.isIdentity)) ∧
      (env.dialect = .postgreSql → ∃ write, chain = [write] ∧ write.WrittenIn env.dialect ∧
        write.statement.AddsRows ∧
        (write.Overrides t.target ↔ ∃ k ∈ write.statement.insertList, k.isIdentity)) := by
  obtain ⟨p, hframe, hadds, hallowed⟩ : ∃ p : WritePlan,
      p.binding.frame = (t.target, env.dialect, t.columns) ∧ p.CarriesOutAdding chain ∧
        ∀ k ∈ p.binding.insertColumns, k.isIdentity →
          c.MayWriteIdentity env k ∧ p.identityInsert := by
    cases c with
    | insert u a o =>
      obtain rfl := hc
      exact prepareInsert_carriesOutAdding h
    | upsert u a o =>
      obtain rfl := hc
      exact prepareUpsert_carriesOutAdding h
    | _ => exact hc.elim
  have htarget : p.target = t.target := congrArg (·.1) hframe
  have hdialect : p.dialect = env.dialect := congrArg (·.2.1) hframe
  have hsays := p.writesIdentity_iff fun k hk hidentity ↦ (hallowed k hk hidentity).2
  rw [← hdialect, ← htarget]
  refine ⟨fun l hl k hk hidentity ↦ ?_, fun hd ↦ ?_, fun hd ↦ ?_⟩
  · exact (hallowed k (hadds.mem_insertColumns hl hk) hidentity).1
  · obtain ⟨write, rfl, hwritten, hwrite⟩ := hadds.addsAlone (.inl hd)
    refine ⟨write, rfl, hwritten, hwrite.addsRows, ?_⟩
    rw [hwrite.encloses_iff hwritten hd, hsays, hwrite.insertList]
  · obtain ⟨write, rfl, hwritten, hwrite⟩ := hadds.addsAlone (.inr hd)
    refine ⟨write, rfl, hwritten, hwrite.addsRows, ?_⟩
    rw [hwrite.overrides_iff hwritten hd, hsays, hwrite.insertList]

/-- A user who is added with a number of their own. -/
theorem insert_numberedUser_encloses :
    ∃ write, prepare { dialect := .sqlServer } .none (.insert (numberedUsers .sqlServer)
        (plainUser (.int 1) (.text "Ann")) { identityInsert := true }) = .ok [write] ∧
      write.Encloses (numberedUsers .sqlServer).target := by
  have hidentity : (prepare { dialect := .sqlServer } .none (.insert (numberedUsers .sqlServer)
      (plainUser (.int 1) (.text "Ann")) { identityInsert := true })).toOption.any fun c ↦
        c.all fun l ↦ l.statement.insertList.any (·.isIdentity) := by decide +kernel
  obtain ⟨chain, hchain, hidentity⟩ := exists_ok_of_any hidentity
  have hadds : (insert (numberedUsers .sqlServer) (plainUser (.int 1) (.text "Ann"))
      { identityInsert := true }).AddsTo (numberedUsers .sqlServer) := rfl
  obtain ⟨-, hserver, -⟩ := prepare_identities hadds hchain
  obtain ⟨write, rfl, -, -, hencloses⟩ := hserver rfl
  have hlists := List.all_eq_true.mp hidentity write List.mem_cons_self
  exact ⟨write, hchain, hencloses.mpr (List.any_eq_true.mp hlists)⟩

end Command

end SchemaSql
