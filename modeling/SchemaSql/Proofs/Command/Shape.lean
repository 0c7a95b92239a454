import SchemaSql.Proofs.Command.Layout
import SchemaSql.Proofs.Command.Listed
import SchemaSql.Proofs.Command.Restriction

/-!
The shape of prepared chains. Whatever a request asks, the chain that it is prepared into can be
run: the values that it forwards arrive, so a run fails by the database or by a rejected number of
rows alone. A write whose rows nobody wants is made of links that count, any other chain has one
link that answers; only the one link that writes checks a number of rows; and links that read rows
for a write stand before it if the old rows were asked for, and behind it otherwise.
-/

set_option autoImplicit false
set_option relaxedAutoImplicit false

namespace SchemaSql

/-- The links that write stand together, with those that read rows before or behind them. -/
def Chain.ReadsAround (chain : Chain) (reads : Returning) : Prop :=
  ∃ before writes after, chain = before ++ writes ++ after ∧ writes ≠ [] ∧
    (∀ l ∈ writes, l.statement.role = .writes) ∧
    (∀ l ∈ before ++ after, l.statement.role = .reads) ∧
    (before ≠ [] ↔ reads = .old) ∧ (after ≠ [] ↔ reads = .new)

namespace Layout

variable {y : Layout} {check : RowCheck} {answer : LinkMode} {chain : Chain}

theorem readsAround (h : chain.map Link.profile = y.profiles check answer) :
    chain.ReadsAround y.reads := by
  obtain ⟨before, rest, rfl, hbefore, hrest⟩ := List.map_eq_append_iff.mp h
  obtain ⟨writes, after, rfl, hwrites, hafter⟩ := List.map_eq_append_iff.mp hrest
  have hnil {links : Chain} {xs : List Profile} (hlinks : links.map Link.profile = xs) :
      links ≠ [] ↔ xs ≠ [] := by
    rw [← hlinks, Ne, Ne, List.map_eq_nil_iff]
  refine ⟨before, writes, after, (List.append_assoc ..).symm, (hnil hwrites).mpr y.writes_ne_nil,
    fun l hl ↦ ?_, fun l hl ↦ ?_, (hnil hbefore).trans y.before_ne_nil_iff,
    (hnil hafter).trans y.after_ne_nil_iff⟩
  · exact y.role_of_mem_writes l.profile (hwrites ▸ List.mem_map_of_mem hl)
  · have hmem : l.profile ∈ (before ++ after).map Link.profile := List.mem_map_of_mem hl
    rw [List.map_append, hbefore, hafter] at hmem
    exact y.role_of_mem_around l.profile hmem

theorem mode_of_mem (hreads : y.reads = .none)
    (h : chain.map Link.profile = y.profiles check .count) :
    ∀ l ∈ chain, l.mode = .count := fun l hl ↦
  y.mode_of_mem_profiles hreads l.profile (h ▸ List.mem_map_of_mem hl)

theorem one_link_answers (h : chain.map Link.profile = y.profiles check .result) :
    (chain.filter (·.mode = .result)).length = 1 := by
  rw [← y.one_answers check, ← h, List.filter_map, List.length_map]
  rfl

theorem checked_link_writes (h : chain.map Link.profile = y.profiles check answer) :
    ∀ l ∈ chain, l.check ≠ .ignore → chain.filter (·.statement.role = .writes) = [l] := by
  intro l hl hchecked
  obtain ⟨hrole, hone⟩ :=
    y.writes_of_checked (x := l.profile) (h ▸ List.mem_map_of_mem hl) hchecked
  rw [← h, List.filter_map, List.length_map] at hone
  obtain ⟨w, hw⟩ := List.length_eq_one_iff.mp hone
  have hmem : l ∈ chain.filter ((fun x : Profile ↦ decide (x.role = .writes)) ∘ Link.profile) :=
    List.mem_filter.mpr ⟨hl, by simpa using hrole⟩
  rw [hw, List.mem_singleton] at hmem
  exact hmem ▸ hw

end Layout

namespace Command

/-- Whether a command writes rows of a table. -/
def writesRows : Command → Bool
  | .insert .. | .update .. | .updateWhere .. | .delete .. | .deleteKeys .. | .deleteWhere ..
  | .upsert .. => true
  | .query _ | .procedure .. | .written .. => false

/-- The rows that a write hands back if any are wanted: those it found or those it left. -/
def image : Command → Returning
  | .insert .. | .upsert .. => .new
  | .update _ _ o => oldOrNew o.returnOldValues
  | .updateWhere _ _ _ _ returnOldValues => oldOrNew returnOldValues
  | .delete .. | .deleteKeys .. | .deleteWhere .. => .old
  | .query _ | .procedure .. | .written .. => .none

/-- Whether a write gives rows that there are new values; deletes do that if rows are marked. -/
def updates (rules : Rules) : Command → Bool
  | .update .. | .updateWhere .. => true
  | .delete t _ _ | .deleteKeys t _ | .deleteWhere t _ _ => (rules.softDelete? t).isSome
  | _ => false

/-- The rows that a write reads by links of their own. -/
def readsApart (env : Environment) (desired : Desired) (c : Command) : Returning :=
  if desired.isNone then .none else env.dialect.readsApart (c.updates env.rules) c.image

/-- The chain has a layout that reads the rows that the write does not hand back. -/
def LaysOut (env : Environment) (desired : Desired) (c : Command) (chain : Chain) : Prop :=
  ∃ (y : Layout) (check : RowCheck), y.reads = c.readsApart env desired ∧
    chain.map Link.profile = y.profiles check (if desired.isNone then .count else .result) ∧
    chain.HandsOn

variable {env : Environment} {desired : Desired} {c : Command} {chain : Chain} {t : Table}

theorem returningFor_returning {b : Binding} {wanted : Returning} {r : Binding × Returning}
    (h : returningFor b desired wanted = .ok r) :
    r.2 = if desired.isNone then .none else wanted := by
  rw [returningFor] at h
  split at h
  · rename_i hnone
    obtain rfl := Except.ok.inj h
    rw [if_pos hnone]
  · rename_i hsome
    obtain ⟨b', -, rfl⟩ := map_eq_ok.mp h
    rw [if_neg hsome]

theorem LaysOut.of_lays {p : WritePlan} {updates : Bool} (h : p.Lays updates p.answer chain)
    (hd : p.dialect = env.dialect) (hupdates : c.updates env.rules = updates)
    (himage : c.image ≠ .none)
    (hreturning : p.returning = if desired.isNone then .none else c.image) :
    c.LaysOut env desired chain := by
  obtain ⟨y, hreads, hlaid⟩ := h
  have hanswer : p.answer = if desired.isNone then .count else .result := by
    rw [WritePlan.answer, hreturning]
    cases desired.isNone <;> simp [himage]
  refine ⟨y, p.check, ?_, hanswer ▸ hlaid.profiles, hlaid.handsOn⟩
  rw [hreads, hd, hreturning, readsApart, hupdates]
  split
  · rw [Dialect.readsApart_none]
  · rfl

theorem oldOrNew_ne_none (old : Bool) : oldOrNew old ≠ .none := by
  cases old <;> simp [oldOrNew]

theorem prepareDeletion_laysOut {b : Binding} {criteria : List Predicate} {byKey : Bool}
    {check : RowCheck} (hb : b.frame = (binding env t).frame) (himage : c.image = .old)
    (hupdates : c.updates env.rules = (env.rules.softDelete? t).isSome)
    (h : prepareDeletion env desired t b criteria byKey check = .ok chain) :
    c.LaysOut env desired chain := by
  have hsome : c.image ≠ .none := by simp [himage]
  cases hmarks : env.rules.softDeleteValues? env.now t with
  | none =>
    rw [prepareDeletion_of_none env desired t b criteria byKey check hmarks] at h
    obtain ⟨r, hr, h⟩ := bind_eq_ok.mp h
    rw [Rules.softDeleteValues?, Option.map_eq_none_iff] at hmarks
    refine .of_lays (WritePlan.deleteChain_lays h) (dialect_eq ((returningFor_ok hr).1.trans hb))
      (by rw [hupdates, hmarks]; rfl) hsome ?_
    rw [himage]
    exact returningFor_returning hr
  | some values =>
    rw [prepareDeletion_of_some env desired t b criteria byKey check hmarks] at h
    obtain ⟨b', hb', h⟩ := bind_eq_ok.mp h
    obtain ⟨r, hr, h⟩ := bind_eq_ok.mp h
    obtain ⟨s, hs, -⟩ := Option.map_eq_some_iff.mp hmarks
    refine .of_lays (WritePlan.updateChain_lays h) (dialect_eq ((returningFor_ok hr).1.trans
      ((Binding.frame_applyUpdateValues hb').trans hb))) (by rw [hupdates, hs]; rfl) hsome ?_
    rw [himage]
    exact returningFor_returning hr

theorem prepareInsert_laysOut {a : Argument} {o : InsertOptions}
    (h : prepareInsert env desired t a o = .ok chain) :
    (Command.insert t a o).LaysOut env desired chain := by
  rw [prepareInsert_eq] at h
  obtain ⟨b, hb, h⟩ := bind_eq_ok.mp h
  obtain ⟨r, hr, h⟩ := bind_eq_ok.mp h
  have hreturning := returningFor_returning hr
  have hold : r.2 ≠ .old := by
    rw [hreturning]
    split <;> simp
  have hframe : r.1.frame = (binding env t).frame :=
    calc r.1.frame = (env.rules.bindInsert env.now (b.withIdentities o.identityInsert)).frame :=
          (returningFor_ok hr).1
      _ = (b.withIdentities o.identityInsert).frame := Binding.frame_bindWhere _ _ _ _
      _ = b.frame := Binding.frame_withIdentities _ b
      _ = (binding env t).frame := Binding.frame_bindArgument hb
  exact .of_lays (WritePlan.insertChain_lays hold h) (dialect_eq hframe) rfl (by simp [image])
    hreturning

theorem prepareUpsert_laysOut {a : Argument} {o : UpsertOptions}
    (h : prepareUpsert env desired t a o = .ok chain) :
    (Command.upsert t a o).LaysOut env desired chain := by
  rw [prepareUpsert_eq] at h
  obtain ⟨b, hb, h⟩ := bind_eq_ok.mp h
  split at h
  · simp at h
  split at h
  · simp at h
  obtain ⟨r, hr, h⟩ := bind_eq_ok.mp h
  have hreturning := returningFor_returning hr
  have hold : r.2 ≠ .old := by
    rw [hreturning]
    split <;> simp
  have hframe : r.1.frame = (binding env t).frame :=
    calc r.1.frame = (env.rules.bindUpsert env.now (upsertBase env b o)).frame :=
          (returningFor_ok hr).1
      _ = (upsertBase env b o).frame := Binding.frame_bindUpsert _ _ _
      _ = b.frame := frame_upsertBase env b o
      _ = (binding env t).frame := Binding.frame_bindArgument hb
  exact .of_lays (WritePlan.upsertChain_lays hold h) (dialect_eq hframe) rfl (by simp [image])
    hreturning

theorem prepare_laysOut (hwrites : c.writesRows) (h : prepare env desired c = .ok chain) :
    c.LaysOut env desired chain := by
  cases c with
  | query | procedure | written => simp [writesRows] at hwrites
  | insert t a o => exact prepareInsert_laysOut h
  | upsert t a o => exact prepareUpsert_laysOut h
  | update t a o =>
    obtain ⟨b, hb, h⟩ := bind_eq_ok.mp h
    obtain ⟨_, -, h⟩ := bind_eq_ok.mp h
    obtain ⟨criteria, -, h⟩ := bind_eq_ok.mp h
    obtain ⟨r, hr, h⟩ := bind_eq_ok.mp h
    exact .of_lays (WritePlan.updateChain_lays h) (dialect_eq ((returningFor_ok hr).1.trans
      (frame_bindUpdate (Binding.frame_bindArgument hb)))) rfl (oldOrNew_ne_none _)
      (returningFor_returning hr)
  | updateWhere t a criteria allRows old =>
    rw [prepare, prepareUpdateWhere_eq] at h
    split at h
    · simp at h
    obtain ⟨b, hb, h⟩ := bind_eq_ok.mp h
    obtain ⟨_, -, h⟩ := bind_eq_ok.mp h
    obtain ⟨predicates, -, h⟩ := bind_eq_ok.mp h
    obtain ⟨r, hr, h⟩ := bind_eq_ok.mp h
    exact .of_lays (WritePlan.updateChain_lays h) (dialect_eq ((returningFor_ok hr).1.trans
      (frame_bindUpdate (Binding.frame_bindArgument hb)))) rfl (oldOrNew_ne_none _)
      (returningFor_returning hr)
  | delete t a o =>
    obtain ⟨b, hb, h⟩ := bind_eq_ok.mp h
    obtain ⟨criteria, -, h⟩ := bind_eq_ok.mp h
    exact prepareDeletion_laysOut (Binding.frame_bindArgument hb) rfl rfl h
  | deleteKeys t keys =>
    obtain ⟨criterion, -, h⟩ := bind_eq_ok.mp h
    exact prepareDeletion_laysOut rfl rfl rfl h
  | deleteWhere t criteria allRows =>
    rw [prepare, prepareDeleteWhere_eq] at h
    split at h
    · simp at h
    obtain ⟨predicates, -, h⟩ := bind_eq_ok.mp h
    exact prepareDeletion_laysOut rfl rfl rfl h

/-- A query, a procedure or a text of the caller's is one link that answers. -/
theorem prepare_single (hwrites : ¬ c.writesRows) (h : prepare env desired c = .ok chain) :
    ∃ l, chain = [l] ∧ l.mode = .result ∧ l.check = .ignore := by
  cases c with
  | query q =>
    obtain ⟨s, -, h⟩ := bind_eq_ok.mp h
    obtain ⟨l, hl, h⟩ := bind_eq_ok.mp h
    obtain ⟨-, -, -, hmode, -, hcheck, -⟩ := Link.ofStatement_ok hl
    exact ⟨l, (Except.ok.inj h).symm, hmode, hcheck⟩
  | procedure p a =>
    obtain ⟨ps, -, h⟩ := bind_eq_ok.mp h
    obtain ⟨l, hl, h⟩ := bind_eq_ok.mp h
    refine ⟨l, (Except.ok.inj h).symm, ?_⟩
    cases hd : env.dialect <;> simp only [procedureLink, hd] at hl
    case sqlServer | access =>
      obtain rfl := Except.ok.inj hl
      exact ⟨rfl, rfl⟩
    case postgreSql | mySql =>
      obtain ⟨-, -, -, hmode, -, hcheck, -⟩ := Link.ofStatement_ok hl
      exact ⟨hmode, hcheck⟩
    case sqlite => cases hl
  | written text a =>
    obtain ⟨l, hl, h⟩ := bind_eq_ok.mp h
    obtain ⟨-, -, -, hmode, -, hcheck, -⟩ := Link.ofStatement_ok hl
    exact ⟨l, (Except.ok.inj h).symm, hmode, hcheck⟩
  | insert | update | updateWhere | delete | deleteKeys | deleteWhere | upsert =>
    simp [writesRows] at hwrites

end Command

/-- A chain that the loop runs to its end but for the database and the checks of rows. -/
structure Chain.Executable (chain : Chain) : Prop where
  nonempty : chain ≠ []
  accepted : chain.checkForwards 0 = .ok ()
  handsOn : chain.HandsOn
  blocking : ∀ {σ : Type} (c : Connection σ) (s : Settings) (m : Materializer) (x y : σ) (e : Error),
    c.runChain s chain m x = .error e y → chain.Blames c.run e y
  awaited : ∀ {σ : Type} (c : AsyncConnection σ) (s : Settings) (m : Materializer) (x y : σ)
    (e : Error), (c.runChain s chain m).await x = .error e y →
      chain.Blames (fun mode call ↦ (c.run mode call).await) e y

theorem Chain.HandsOn.executable {chain : Chain} (h : chain.HandsOn) (hne : chain ≠ []) :
    chain.Executable where
  nonempty := hne
  accepted := h.checkForwards
  handsOn := h
  blocking _ _ _ _ _ _ hrun := h.runChain_blames hrun
  awaited _ _ _ _ _ _ hrun := h.await_runChain_blames hrun

namespace Command

variable {env : Environment} {desired : Desired} {c : Command} {chain : Chain}

/-- A prepared chain can be run. It counts if it writes and no rows are wanted, and has one link
that answers otherwise; a check of rows is on the only link that writes; and links that read rows
for a write stand before it if the old rows are wanted, and behind it if the new ones are. -/
theorem prepare_executable (h : prepare env desired c = .ok chain) :
    chain.Executable ∧
      (if c.writesRows ∧ desired.isNone then ∀ l ∈ chain, l.mode = .count
        else (chain.filter (·.mode = .result)).length = 1) ∧
      (∀ l ∈ chain, l.check ≠ .ignore → chain.filter (·.statement.role = .writes) = [l]) ∧
      (c.writesRows → chain.ReadsAround (c.readsApart env desired)) := by
  by_cases hwrites : c.writesRows
  · obtain ⟨y, check, hreads, hprofiles, hhandsOn⟩ := prepare_laysOut hwrites h
    have haround := Layout.readsAround hprofiles
    have hne : chain ≠ [] := by
      obtain ⟨before, writes, after, rfl, hwrites, -⟩ := haround
      simp [hwrites]
    refine ⟨hhandsOn.executable hne, ?_, Layout.checked_link_writes hprofiles,
      fun _ ↦ hreads ▸ haround⟩
    split
    · rename_i hnone
      rw [if_pos hnone.2] at hprofiles
      rw [readsApart, if_pos hnone.2] at hreads
      exact Layout.mode_of_mem hreads hprofiles
    · rename_i hsome
      rw [if_neg fun hnone ↦ hsome ⟨hwrites, hnone⟩] at hprofiles
      exact Layout.one_link_answers hprofiles
  · obtain ⟨l, rfl, hmode, hcheck⟩ := prepare_single hwrites h
    refine ⟨(Chain.HandsOn.of_modes (by simp [hmode])).executable (by simp), ?_, ?_,
      fun hw ↦ absurd hw hwrites⟩
    · rw [if_neg fun hnone ↦ hwrites hnone.1]
      simp [hmode]
    · simp [hcheck]

/-- An inserted user is read back by the number that the database has given it, which a link of its
own fetches and forwards. -/
theorem insert_numberedUser_fetched :
    ∃ chain, prepare { dialect := .access } .all
        (.insert (numberedUsers .access) (.properties [⟨"Name", .text "Ann", false⟩]) {}) =
          .ok chain ∧
      chain.map (·.mode) = [.count, .forward (some "@Identity"), .result] ∧ chain.Executable ∧
      (chain.filter (·.mode = .result)).length = 1 ∧ chain.ReadsAround .new := by
  have hmodes : (prepare { dialect := .access } .all (.insert (numberedUsers .access)
      (.properties [⟨"Name", .text "Ann", false⟩]) {})).toOption.any fun c ↦
        c.map (·.mode) = [.count, .forward (some "@Identity"), .result] := by decide +kernel
  obtain ⟨chain, hchain, hmodes⟩ := exists_ok_of_any hmodes
  obtain ⟨hexecutable, hanswers, -, haround⟩ := prepare_executable hchain
  exact ⟨chain, hchain, of_decide_eq_true hmodes, hexecutable, hanswers, haround rfl⟩

end Command

end SchemaSql
