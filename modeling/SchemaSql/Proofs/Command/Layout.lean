import SchemaSql.Proofs.Command.Chains
import SchemaSql.Proofs.Execution.Forwards

/-!
Layouts of chains that write. What matters of a link to the loop that runs it is its profile:
whether its statement writes or reads, how it is read, when it runs and how many rows it may affect.
The profiles of a plan's chain are those of one of six layouts, in which a dialect that does not
hand rows back by the statement that writes reads them before or behind it.
-/

set_option autoImplicit false
set_option relaxedAutoImplicit false

namespace SchemaSql

/-- What a statement does to the rows of its target, as far as it tells. -/
inductive Role
  | writes
  | reads
  | unknown
deriving DecidableEq

def Statement.role : Statement → Role
  | .insert _ | .update _ | .delete _ | .merge _ => .writes
  | .select _ | .lastIdentity | .discover .. => .reads
  | .call .. | .procedure .. | .written .. => .unknown

structure Profile where
  role : Role
  mode : LinkMode := .result
  condition : Condition := .always
  check : RowCheck := .ignore
deriving DecidableEq

def Link.profile (l : Link) : Profile := ⟨l.statement.role, l.mode, l.condition, l.check⟩

/-! ### Layouts -/

/-- How the links of a chain that writes stand. -/
inductive Layout
  | alone
  | readBefore
  | readAfter
  /-- A generated identity is read behind the write and handed to the link that reads the row. -/
  | fetched
  /-- A second write runs if the first has met no row. -/
  | twice
  | twiceReadAfter

namespace Layout

/-- The rows that a layout reads by links of their own: those before the write, or those it left. -/
def reads : Layout → Returning
  | .alone | .twice => .none
  | .readBefore => .old
  | .readAfter | .fetched | .twiceReadAfter => .new

def before : Layout → List Profile
  | .readBefore => [{ role := .reads }]
  | _ => []

/-- The profiles of the links that write. If nothing else answers, the last of them does. -/
def writes (check : RowCheck) (answer : LinkMode) : Layout → List Profile
  | .alone => [{ role := .writes, mode := answer, check }]
  | .readBefore | .readAfter | .fetched => [{ role := .writes, mode := .count, check }]
  | .twice =>
    [{ role := .writes, mode := .count },
      { role := .writes, mode := answer, condition := .previousAffectedNone }]
  | .twiceReadAfter =>
    [{ role := .writes, mode := .count },
      { role := .writes, mode := .count, condition := .previousAffectedNone }]

def after : Layout → List Profile
  | .readAfter | .twiceReadAfter => [{ role := .reads }]
  | .fetched => [{ role := .reads, mode := .forward (some "@Identity") }, { role := .reads }]
  | _ => []

def profiles (check : RowCheck) (answer : LinkMode) (y : Layout) : List Profile :=
  y.before ++ (y.writes check answer ++ y.after)

variable {check : RowCheck} {answer : LinkMode} (y : Layout)

theorem writes_ne_nil : y.writes check answer ≠ [] := by
  cases y <;> simp [writes]

theorem role_of_mem_writes : ∀ x ∈ y.writes check answer, x.role = .writes := by
  cases y <;> simp [writes]

theorem role_of_mem_around : ∀ x ∈ y.before ++ y.after, x.role = .reads := by
  cases y <;> simp [before, after]

theorem before_ne_nil_iff : y.before ≠ [] ↔ y.reads = .old := by
  cases y <;> simp [before, reads]

theorem after_ne_nil_iff : y.after ≠ [] ↔ y.reads = .new := by
  cases y <;> simp [after, reads]

/-- Without a read of its own nothing answers but what writes. -/
theorem mode_of_mem_profiles (hreads : y.reads = .none) :
    ∀ x ∈ y.profiles check .count, x.mode = .count := by
  cases y <;> simp [reads] at hreads <;> simp [profiles, before, writes, after]

theorem forward_not_mem_profiles (hreads : y.reads = .none) (hanswer : ∀ t, answer ≠ .forward t) :
    ∀ x ∈ y.profiles check answer, ∀ t, x.mode ≠ .forward t := by
  cases y <;> simp [reads] at hreads <;> simpa [profiles, before, writes, after] using hanswer

/-- One link answers, if any is to. -/
theorem one_answers (check : RowCheck) :
    ((y.profiles check .result).filter (·.mode = .result)).length = 1 := by
  cases y <;> rfl

/-- A number of rows is checked only of the one link that writes. -/
theorem writes_of_checked {x : Profile} (hx : x ∈ y.profiles check answer)
    (hchecked : x.check ≠ .ignore) :
    x.role = .writes ∧ ((y.profiles check answer).filter (·.role = .writes)).length = 1 := by
  cases y <;> simp [profiles, before, writes, after] at hx ⊢ <;> grind

end Layout

/-! ### Links of plans -/

/-- Of the rows that a write is to hand back, those that a dialect reads by links of their own. The
old rows of an update are beyond what PostgreSQL and SQLite hand back. -/
def Dialect.readsApart (d : Dialect) (updates : Bool) (wanted : Returning) : Returning :=
  match d with
  | .sqlServer => .none
  | .postgreSql | .sqlite => if updates ∧ wanted = .old then .old else .none
  | .mySql | .access => wanted

theorem Dialect.readsApart_none (d : Dialect) (updates : Bool) :
    d.readsApart updates .none = .none := by
  cases d <;> simp [readsApart]

theorem Link.ofStatement_profile {d : Dialect} {operation : String} {s : Statement} {l : Link}
    (h : Link.ofStatement d operation s = .ok l) : l.profile = { role := s.role } := by
  obtain ⟨-, -, hstatement, hmode, hcondition, hcheck, -⟩ := Link.ofStatement_ok h
  rw [Link.profile, hstatement, hmode, hcondition, hcheck]

namespace WritePlan

variable {p : WritePlan} {chain : Chain} {s : Statement} {operation : String}
  {criteria : List Predicate} {write read : Link} {y : Layout}

theorem writeLink_profile (hs : s.role = .writes) (h : p.writeLink s = .ok write) :
    write.profile = { role := .writes, check := p.check } := by
  rw [writeLink] at h
  obtain ⟨l, hl, rfl⟩ := map_eq_ok.mp h
  have hprofile := Link.ofStatement_profile hl
  rw [hs] at hprofile
  exact congrArg (fun x : Profile ↦ { x with check := p.check }) hprofile

theorem readLink_profile (h : p.readLink operation criteria = .ok read) :
    read.profile = { role := .reads } :=
  Link.ofStatement_profile h

/-- The links of a chain are profiled as a layout says, with the last of those that write answering
as `answer` says, and forwarded values arrive. -/
structure LaidOut (p : WritePlan) (answer : LinkMode) (y : Layout) (chain : Chain) : Prop where
  profiles : chain.map Link.profile = y.profiles p.check answer
  handsOn : chain.HandsOn

namespace LaidOut

/-- Where nothing is forwarded the profiles are enough. -/
theorem of_profiles {answer : LinkMode} (h : chain.map Link.profile = y.profiles p.check answer)
    (hanswer : ∀ x ∈ y.profiles p.check answer, ∀ t, x.mode ≠ .forward t) :
    p.LaidOut answer y chain :=
  ⟨h, .of_modes fun l hl ↦ hanswer l.profile (h ▸ List.mem_map_of_mem hl)⟩

theorem alone (hs : s.role = .writes) (hwrite : p.writeLink s = .ok write) :
    p.LaidOut .result .alone [write] :=
  of_profiles (congrArg (fun x ↦ [x]) (writeLink_profile hs hwrite))
    (Layout.forward_not_mem_profiles .alone rfl (by simp))

theorem counting_profile (hs : s.role = .writes) (hwrite : p.writeLink s = .ok write) :
    write.counting.profile = { role := .writes, mode := .count, check := p.check } :=
  congrArg (fun x : Profile ↦ { x with mode := .count }) (writeLink_profile hs hwrite)

theorem readAfter (hs : s.role = .writes) (hwrite : p.writeLink s = .ok write)
    (hread : p.readLink operation criteria = .ok read) :
    p.LaidOut .result .readAfter [write.counting, read] := by
  refine of_profiles ?_ (by simp [Layout.profiles, Layout.before, Layout.writes, Layout.after])
  rw [List.map_cons, List.map_singleton, counting_profile hs hwrite, readLink_profile hread]
  rfl

theorem readBefore (hs : s.role = .writes) (hwrite : p.writeLink s = .ok write)
    (hread : p.readLink operation criteria = .ok read) :
    p.LaidOut .result .readBefore [read, write.counting] := by
  refine of_profiles ?_ (by simp [Layout.profiles, Layout.before, Layout.writes, Layout.after])
  rw [List.map_cons, List.map_singleton, counting_profile hs hwrite, readLink_profile hread]
  rfl

end LaidOut

/-- The chain has a layout that reads the rows that the dialect does not hand back. -/
def Lays (p : WritePlan) (updates : Bool) (answer : LinkMode) (chain : Chain) : Prop :=
  ∃ y : Layout, y.reads = p.dialect.readsApart updates p.returning ∧ p.LaidOut answer y chain

theorem Lays.alone {updates : Bool} (hd : p.dialect.readsApart updates p.returning = .none)
    (hs : s.role = .writes) (hwrite : p.writeLink s = .ok write) :
    p.Lays updates .result [write] :=
  ⟨.alone, hd.symm, .alone hs hwrite⟩

/-- How the last write answers if nothing else does: its rows are counted unless some are wanted. -/
def answer (p : WritePlan) : LinkMode := if p.returning = .none then .count else .result

theorem Lays.finish {updates : Bool} (h : p.Lays updates .result chain) :
    p.Lays updates p.answer (p.finish chain) := by
  obtain ⟨y, hreads, hlaid⟩ := h
  refine ⟨y, hreads, ?_⟩
  rw [WritePlan.finish, answer]
  split
  · rename_i hnone
    rw [hnone, Dialect.readsApart_none] at hreads
    refine .of_profiles ?_ (Layout.forward_not_mem_profiles y hreads (by simp))
    have hwithout (l : Link) : l.withoutResult.profile =
        if l.profile.mode = .result then { l.profile with mode := .count } else l.profile := by
      rw [Link.withoutResult]
      cases hmode : l.mode <;> simp [Link.profile, Link.counting, hmode]
    rw [Chain.withoutResult, List.map_map, show Link.profile ∘ Link.withoutResult =
      (fun x : Profile ↦ if x.mode = .result then { x with mode := .count } else x) ∘ Link.profile
      from funext hwithout, ← List.map_map, hlaid.profiles]
    cases y <;> simp [Layout.reads] at hreads <;> rfl
  · exact hlaid

/-! ### Updates and deletes -/

theorem readingChain_lays {verb : String} {updates : Bool}
    (hd : p.dialect.readsApart updates p.returning = p.returning) (hs : s.role = .writes)
    (hwrite : p.writeLink s = .ok write) (h : p.readingChain write verb = .ok chain) :
    p.Lays updates .result chain := by
  rw [Lays, hd]
  rw [readingChain] at h
  split at h
  · rename_i hnone
    obtain rfl := Except.ok.inj h
    exact ⟨.alone, hnone.symm, .alone hs hwrite⟩
  · rename_i hnew
    split at h
    · obtain ⟨read, hread, h⟩ := bind_eq_ok.mp h
      obtain rfl := Except.ok.inj h
      exact ⟨.readAfter, hnew.symm, .readAfter hs hwrite hread⟩
    · simp at h
  · rename_i hold
    split at h
    · obtain ⟨read, hread, h⟩ := bind_eq_ok.mp h
      obtain rfl := Except.ok.inj h
      exact ⟨.readBefore, hold.symm, .readBefore hs hwrite hread⟩
    · simp at h

theorem update_role {output : Output} (h : p.update output = .ok s) : s.role = .writes := by
  obtain ⟨as, -, rfl⟩ := update_ok h
  rfl

theorem outputUpdate_lays (hd : p.dialect = .sqlServer) (h : p.outputUpdate = .ok chain) :
    p.Lays true .result chain := by
  obtain ⟨s, hs, h⟩ := bind_eq_ok.mp h
  obtain ⟨write, hwrite, h⟩ := bind_eq_ok.mp h
  obtain rfl := Except.ok.inj h
  exact .alone (by rw [hd]; rfl) (update_role hs) hwrite

theorem returningUpdate_lays
    (hd : p.dialect.readsApart true p.returning = if p.returning = .old then .old else .none)
    (h : p.returningUpdate = .ok chain) : p.Lays true .result chain := by
  rw [Lays, hd]
  rw [returningUpdate] at h
  split at h
  · rename_i hold
    obtain ⟨s, hs, h⟩ := bind_eq_ok.mp h
    obtain ⟨read, hread, h⟩ := bind_eq_ok.mp h
    obtain ⟨write, hwrite, h⟩ := bind_eq_ok.mp h
    obtain rfl := Except.ok.inj h
    exact ⟨.readBefore, by rw [if_pos hold]; rfl, .readBefore (update_role hs) hwrite hread⟩
  · rename_i hold
    obtain ⟨s, hs, h⟩ := bind_eq_ok.mp h
    obtain ⟨write, hwrite, h⟩ := bind_eq_ok.mp h
    obtain rfl := Except.ok.inj h
    exact ⟨.alone, by rw [if_neg hold]; rfl, .alone (update_role hs) hwrite⟩

theorem readingUpdate_lays (hd : p.dialect.readsApart true p.returning = p.returning)
    (h : p.readingUpdate = .ok chain) : p.Lays true .result chain := by
  obtain ⟨s, hs, h⟩ := bind_eq_ok.mp h
  obtain ⟨write, hwrite, h⟩ := bind_eq_ok.mp h
  exact readingChain_lays hd (update_role hs) hwrite h

theorem updateChain_lays (h : p.updateChain = .ok chain) : p.Lays true p.answer chain := by
  obtain ⟨c, hc, rfl⟩ := map_eq_ok.mp h
  refine Lays.finish ?_
  cases hd : p.dialect <;> rw [hd] at hc
  case sqlServer => exact outputUpdate_lays hd hc
  case postgreSql | sqlite => exact returningUpdate_lays (by simp [hd, Dialect.readsApart]) hc
  case mySql | access => exact readingUpdate_lays (by rw [hd]; rfl) hc

theorem outputDelete_lays (hd : p.dialect.readsApart false p.returning = .none)
    (h : p.outputDelete = .ok chain) : p.Lays false .result chain := by
  obtain ⟨write, hwrite, h⟩ := bind_eq_ok.mp h
  obtain rfl := Except.ok.inj h
  exact .alone hd rfl hwrite

theorem returningDelete_lays (hd : p.dialect.readsApart false p.returning = .none)
    (h : p.returningDelete = .ok chain) : p.Lays false .result chain := by
  obtain ⟨write, hwrite, h⟩ := bind_eq_ok.mp h
  obtain rfl := Except.ok.inj h
  exact .alone hd rfl hwrite

theorem deleteChain_lays (h : p.deleteChain = .ok chain) : p.Lays false p.answer chain := by
  obtain ⟨c, hc, rfl⟩ := map_eq_ok.mp h
  refine Lays.finish ?_
  cases hd : p.dialect <;> rw [hd] at hc
  case sqlServer => exact outputDelete_lays (by rw [hd]; rfl) hc
  case postgreSql | sqlite => exact returningDelete_lays (by simp [hd, Dialect.readsApart]) hc
  case mySql | access =>
    obtain ⟨write, hwrite, hc⟩ := bind_eq_ok.mp hc
    exact readingChain_lays (by rw [hd]; rfl) rfl hwrite hc

/-! ### Inserts -/

theorem outputInsert_lays (hd : p.dialect.readsApart false p.returning = .none)
    (h : p.outputInsert = .ok chain) : p.Lays false .result chain := by
  obtain ⟨row, -, h⟩ := bind_eq_ok.mp h
  obtain ⟨write, hwrite, h⟩ := bind_eq_ok.mp h
  obtain rfl := Except.ok.inj h
  exact .alone hd rfl hwrite

theorem returningInsert_lays (hd : p.dialect.readsApart false p.returning = .none)
    (h : p.returningInsert = .ok chain) : p.Lays false .result chain := by
  obtain ⟨row, -, h⟩ := bind_eq_ok.mp h
  obtain ⟨write, hwrite, h⟩ := bind_eq_ok.mp h
  obtain rfl := Except.ok.inj h
  exact .alone hd rfl hwrite

/-- Where rows that a write leaves are wanted, a dialect that reads them by itself reads new
ones. -/
theorem readsApart_eq_new (hd : p.dialect.readsApart false p.returning = p.returning)
    (hold : p.returning ≠ .old) (hnone : p.returning ≠ .none) :
    Returning.new = p.dialect.readsApart false p.returning := by
  rw [hd]
  cases hreturning : p.returning with
  | none => exact absurd hreturning hnone
  | new => rfl
  | old => exact absurd hreturning hold

theorem readBackInsert_lays (hd : p.dialect.readsApart false p.returning = p.returning)
    (hold : p.returning ≠ .old) (h : p.readBackInsert = .ok chain) : p.Lays false .result chain := by
  obtain ⟨row, -, h⟩ := bind_eq_ok.mp h
  split at h
  · rename_i hnone
    obtain ⟨write, hwrite, h⟩ := bind_eq_ok.mp h
    obtain rfl := Except.ok.inj h
    exact .alone (by rw [hd, hnone]) rfl hwrite
  · rename_i hnone
    obtain ⟨criteria, -, h⟩ := bind_eq_ok.mp h
    obtain ⟨write, hwrite, h⟩ := bind_eq_ok.mp h
    obtain ⟨read, hread, h⟩ := bind_eq_ok.mp h
    obtain rfl := Except.ok.inj h
    exact ⟨.readAfter, readsApart_eq_new hd hold hnone, .readAfter rfl hwrite hread⟩

theorem identityParameter_name (c : Column) : (identityParameter c).name = "@Identity" := by
  have hmarked : "@Identity".toList = '@' :: "Identity".toList := by decide +kernel
  simp [identityParameter, Parameter.make, hmarked, isMarker]

/-- The identity that a link fetches is handed to the link that reads the row by it. -/
theorem fetched_laidOut {identity : Column} {fetch : Link} (hs : s.role = .writes)
    (hwrite : p.writeLink s = .ok write)
    (hfetch : Link.ofStatement p.dialect "FetchIdentity" .lastIdentity = .ok fetch)
    (hread : p.readLink operation [.equals identity (identityParameter identity)] = .ok read) :
    p.LaidOut .result .fetched
      [write.counting, { fetch with mode := .forward (some "@Identity") }, read] := by
  have hreads := readLink_profile hread
  have hfetches : Link.profile { fetch with mode := .forward (some "@Identity") } =
      { role := .reads, mode := .forward (some "@Identity") } :=
    congrArg (fun x : Profile ↦ { x with mode := .forward (some "@Identity") })
      (Link.ofStatement_profile hfetch)
  have hparameters : read.parameters = [identityParameter identity] := by
    obtain ⟨hwritten, -, hstatement, -⟩ := Link.ofStatement_ok hread
    rw [(Fragment.render_ok hwritten).1, hstatement, readStatement, Statement.select_parameters]
    rfl
  have hmode : read.mode = .result := congrArg Profile.mode hreads
  have hwrites := LaidOut.counting_profile hs hwrite
  constructor
  · rw [List.map_cons, List.map_cons, List.map_singleton, hwrites, hfetches, hreads]
    rfl
  · refine .cons (by simp [Link.counting]) (.cons_forward rfl (congrArg Profile.condition hreads) ?_
      (.of_modes (by simp [hmode])))
    rw [hparameters]
    simp [identityParameter_name, Text.sameAscii_self]

theorem forwardingInsert_lays (hd : p.dialect.readsApart false p.returning = p.returning)
    (hold : p.returning ≠ .old) (h : p.forwardingInsert = .ok chain) :
    p.Lays false .result chain := by
  obtain ⟨row, -, h⟩ := bind_eq_ok.mp h
  obtain ⟨write, hwrite, h⟩ := bind_eq_ok.mp h
  split at h
  · rename_i hnone
    obtain rfl := Except.ok.inj h
    exact .alone (by rw [hd, hnone]) rfl hwrite
  · rename_i hnone
    split at h
    · obtain ⟨fetch, hfetch, h⟩ := bind_eq_ok.mp h
      obtain ⟨read, hread, h⟩ := bind_eq_ok.mp h
      obtain rfl := Except.ok.inj h
      exact ⟨.fetched, readsApart_eq_new hd hold hnone, fetched_laidOut rfl hwrite hfetch hread⟩
    · obtain ⟨criteria, -, h⟩ := bind_eq_ok.mp h
      obtain ⟨read, hread, h⟩ := bind_eq_ok.mp h
      obtain rfl := Except.ok.inj h
      exact ⟨.readAfter, readsApart_eq_new hd hold hnone, .readAfter rfl hwrite hread⟩

theorem insertChain_lays (hold : p.returning ≠ .old) (h : p.insertChain = .ok chain) :
    p.Lays false p.answer chain := by
  obtain ⟨c, hc, rfl⟩ := map_eq_ok.mp h
  refine Lays.finish ?_
  cases hd : p.dialect <;> rw [hd] at hc
  case sqlServer => exact outputInsert_lays (by rw [hd]; rfl) hc
  case postgreSql | sqlite => exact returningInsert_lays (by simp [hd, Dialect.readsApart]) hc
  case mySql => exact readBackInsert_lays (by rw [hd]; rfl) hold hc
  case access => exact forwardingInsert_lays (by rw [hd]; rfl) hold hc

/-! ### Upserts -/

theorem mergeUpsert_lays (hd : p.dialect.readsApart false p.returning = .none)
    (h : p.mergeUpsert = .ok chain) : p.Lays false .result chain := by
  obtain ⟨write, hwrite, h⟩ := bind_eq_ok.mp h
  obtain rfl := Except.ok.inj h
  exact .alone hd rfl hwrite

theorem onConflictUpsert_lays (hd : p.dialect.readsApart false p.returning = .none)
    (h : p.onConflictUpsert = .ok chain) : p.Lays false .result chain := by
  obtain ⟨row, -, h⟩ := bind_eq_ok.mp h
  obtain ⟨write, hwrite, h⟩ := bind_eq_ok.mp h
  obtain rfl := Except.ok.inj h
  exact .alone hd rfl hwrite

theorem onDuplicateUpsert_lays (hd : p.dialect.readsApart false p.returning = p.returning)
    (hold : p.returning ≠ .old) (h : p.onDuplicateUpsert = .ok chain) :
    p.Lays false .result chain := by
  obtain ⟨row, -, h⟩ := bind_eq_ok.mp h
  split at h
  · rename_i hnone
    obtain ⟨write, hwrite, h⟩ := bind_eq_ok.mp h
    obtain rfl := Except.ok.inj h
    exact .alone (by rw [hd, hnone]) rfl hwrite
  · rename_i hnone
    split at h
    · obtain ⟨criteria, -, h⟩ := bind_eq_ok.mp h
      obtain ⟨write, hwrite, h⟩ := bind_eq_ok.mp h
      obtain ⟨read, hread, h⟩ := bind_eq_ok.mp h
      obtain rfl := Except.ok.inj h
      exact ⟨.readAfter, readsApart_eq_new hd hold hnone, .readAfter rfl hwrite hread⟩
    · simp at h

theorem updateThenInsertUpsert_lays (hd : p.dialect.readsApart false p.returning = p.returning)
    (hold : p.returning ≠ .old) (h : p.updateThenInsertUpsert = .ok chain) :
    p.Lays false .result chain := by
  obtain ⟨criteria, -, h⟩ := bind_eq_ok.mp h
  obtain ⟨as, -, h⟩ := bind_eq_ok.mp h
  obtain ⟨update, hupdate, h⟩ := bind_eq_ok.mp h
  obtain ⟨row, -, h⟩ := bind_eq_ok.mp h
  obtain ⟨insert, hinsert, h⟩ := bind_eq_ok.mp h
  have hupdates : update.counting.profile = { role := .writes, mode := .count } :=
    congrArg (fun x : Profile ↦ { x with mode := .count }) (Link.ofStatement_profile hupdate)
  have hinserts : Link.profile { insert with condition := .previousAffectedNone } =
      { role := .writes, condition := .previousAffectedNone } :=
    congrArg (fun x : Profile ↦ { x with condition := .previousAffectedNone })
      (Link.ofStatement_profile hinsert)
  split at h
  · rename_i hnone
    obtain rfl := Except.ok.inj h
    refine ⟨.twice, by rw [hd, hnone]; rfl, .of_profiles ?_ (by simp [Layout.profiles,
      Layout.before, Layout.writes, Layout.after])⟩
    rw [List.map_cons, List.map_singleton, hupdates, hinserts]
    rfl
  · rename_i hnone
    split at h
    · obtain ⟨read, hread, h⟩ := bind_eq_ok.mp h
      obtain rfl := Except.ok.inj h
      refine ⟨.twiceReadAfter, readsApart_eq_new hd hold hnone, .of_profiles ?_
        (by simp [Layout.profiles, Layout.before, Layout.writes, Layout.after])⟩
      have hcounted : Link.profile (Link.counting { insert with condition := .previousAffectedNone })
          = { role := .writes, mode := .count, condition := .previousAffectedNone } :=
        congrArg (fun x : Profile ↦ { x with mode := .count }) hinserts
      rw [List.map_cons, List.map_cons, List.map_singleton, hupdates, hcounted,
        readLink_profile hread]
      rfl
    · simp at h

theorem upsertChain_lays (hold : p.returning ≠ .old) (h : p.upsertChain = .ok chain) :
    p.Lays false p.answer chain := by
  obtain ⟨c, hc, rfl⟩ := map_eq_ok.mp h
  refine Lays.finish ?_
  cases hd : p.dialect <;> rw [hd] at hc
  case sqlServer => exact mergeUpsert_lays (by rw [hd]; rfl) hc
  case postgreSql | sqlite => exact onConflictUpsert_lays (by simp [hd, Dialect.readsApart]) hc
  case mySql => exact onDuplicateUpsert_lays (by rw [hd]; rfl) hold hc
  case access => exact updateThenInsertUpsert_lays (by rw [hd]; rfl) hold hc

end WritePlan

end SchemaSql
