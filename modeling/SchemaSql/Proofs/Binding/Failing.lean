import SchemaSql.Proofs.Binding.Passes
import SchemaSql.Proofs.Execution.History

/-!
What failing passes leave behind. A pass over properties, values or desired columns makes its
changes one name after another and stops at the first name that means no column; nothing takes back
what was changed for the names in front of it, nor the key or the updates that were cleared before,
and parts are not computed anew. A list of keys is checked as a whole before anything is changed,
and so are the key marks of an argument. So a failed pass is told completely by the name that it
stopped at.
-/

set_option autoImplicit false
set_option relaxedAutoImplicit false

namespace SchemaSql

/-! ### Runs that stop -/

/-- The items in front of the first one whose name is not known, and this item. -/
inductive FirstUnknown {α : Type} (known : String → Bool) (name : α → String) :
    List α → List α → α → Prop
  | here {x : α} {xs : List α} (hx : known (name x) = false) : FirstUnknown known name (x :: xs) [] x
  | later {x y : α} {xs before : List α} (hx : known (name x))
    (h : FirstUnknown known name xs before y) :
    FirstUnknown known name (x :: xs) (x :: before) y

section FirstUnknown

variable {α : Type} {known : String → Bool} {name : α → String} {x y : α} {xs before : List α}

theorem firstUnknown_of_find? (h : xs.find? (fun x ↦ !known (name x)) = some x) :
    ∃ before, FirstUnknown known name xs before x := by
  induction xs with
  | nil => cases h
  | cons y ys ih =>
    cases hy : known (name y) with
    | false =>
      rw [List.find?_cons_of_pos (by simp [hy])] at h
      obtain rfl := Option.some.inj h
      exact ⟨[], .here hy⟩
    | true =>
      rw [List.find?_cons_of_neg (by simp [hy])] at h
      obtain ⟨before, hbefore⟩ := ih h
      exact ⟨y :: before, .later hy hbefore⟩

theorem FirstUnknown.find?_eq (h : FirstUnknown known name xs before x) :
    xs.find? (fun x ↦ !known (name x)) = some x := by
  induction h with
  | here hx => exact List.find?_cons_of_pos (by simp [hx])
  | later hx h ih => rwa [List.find?_cons_of_neg (by simp [hx])]

end FirstUnknown

namespace Binding

section Run

variable {α : Type} {name : α → String} {f : α → Entry → Entry} {step : α → Step}
  {mismatch : String → String → Mismatch} {b b' : Binding} {e : Error}

/-- Carries a step out for each of some items. -/
def forEach (step : α → Step) : List α → Step
  | [] => pure ()
  | x :: xs => do
    step x
    forEach step xs

theorem bindProperties_eq (marks : Bool) (ps : List Property) :
    bindProperties marks ps = forEach (bindProperty marks) ps := by
  induction ps with
  | nil => rfl
  | cons p ps ih => rw [bindProperties, forEach, ih]

theorem bindUpdates_eq (origin : Origin) (values : List (String × Value)) :
    bindUpdates origin values = forEach (fun x ↦ change x.1 (updated x.2 origin)
      fun b ↦ .mapping (.unknownColumn x.1 b.object)) values := by
  induction values with
  | nil => rfl
  | cons x rest ih =>
    rw [bindUpdates, forEach, ih]
    rfl

theorem readNamed_eq (names : List String) :
    readNamed names = forEach (fun n ↦ changeIfKnown n markRead
      fun b ↦ .mapping (.unknownDesired n b.object)) names := by
  induction names with
  | nil => rfl
  | cons n names ih => rw [readNamed, forEach, ih]

/-- A run of steps that must know the names stops at the first name it does not know, and keeps what
was changed for those in front of it. -/
theorem forEach_eq_error_iff {I : Binding → Prop} (hcolumn : ∀ x e, (f x e).column = e.column)
    (hkept : ∀ x c, I c → I (c.changed (name x) (f x)))
    (hstep : ∀ x c, I c → step x c =
      change (name x) (f x) (fun b ↦ .mapping (mismatch (name x) b.object)) c)
    (hb : I b) (xs : List α) :
    forEach step xs b = .error e b' ↔ ∃ before x, FirstUnknown b.known name xs before x ∧
      e = .mapping (mismatch (name x) b.object) ∧ b' = b.changedBy name f before := by
  induction xs generalizing b with
  | nil =>
    constructor
    · intro h
      cases h
    · rintro ⟨_, _, hfirst, -⟩
      cases hfirst
  | cons x xs ih =>
    cases hx : b.known (name x) with
    | false =>
      have hrun : step x b = .error (.mapping (mismatch (name x) b.object)) b := by
        rw [hstep x b hb, change, if_neg (by rw [← known, hx]; simp)]
      rw [forEach, Connection.bind_of_error _ hrun]
      constructor
      · intro h
        cases h
        exact ⟨[], x, .here hx, rfl, rfl⟩
      · rintro ⟨_, _, hfirst, rfl, rfl⟩
        cases hfirst with
        | here => rfl
        | later hknown =>
          rw [hx] at hknown
          cases hknown
    | true =>
      have hrun : step x b = .ok () (b.changed (name x) (f x)) := by
        rw [hstep x b hb, change, if_pos (by rw [← known, hx])]
        rfl
      have hknown : Binding.known (b.changed (name x) (f x)) = b.known :=
        known_of_frame (frame_changed (hcolumn x))
      have hobject : Binding.object (b.changed (name x) (f x)) = b.object := rfl
      rw [forEach, Connection.bind_of_ok _ hrun, ih (hkept x b hb), hknown, hobject]
      constructor
      · rintro ⟨before, y, hfirst, rfl, rfl⟩
        exact ⟨x :: before, y, .later hx hfirst, rfl, rfl⟩
      · rintro ⟨_, y, hfirst, rfl, rfl⟩
        cases hfirst with
        | here hunknown =>
          rw [hx] at hunknown
          cases hunknown
        | later _ hfirst => exact ⟨_, y, hfirst, rfl, rfl⟩

end Run

section Failing

variable {b b' c : Binding} {e : Error} {marks : Bool}

theorem apply_eq_ok_iff {s : Step} : b.apply s = .ok c ↔ s b = .ok () c := by
  rw [apply]
  cases s b <;> simp

/-- A strict binding minds every name that means no entry. -/
theorem changeIfKnown_of_strict (hb : b.strict) (name : String) (f : Entry → Entry)
    (missing : Binding → Error) : changeIfKnown name f missing b = change name f missing b := by
  rw [changeIfKnown, hb]
  rfl

theorem bindProperties_eq_error_iff {ps : List Property} :
    bindProperties marks ps b = .error e b' ↔ b.strict ∧ ∃ before p,
      FirstUnknown b.known (·.name) ps before p ∧
        e = .mapping (.unknownProperty p.name b.object) ∧
          b' = b.changedBy (·.name) (bound marks) before := by
  cases hb : b.strict with
  | true =>
    have hstep (p : Property) (c : Binding) (hc : c.strict) : bindProperty marks p c =
        change p.name (bound marks p) (fun b ↦ .mapping (.unknownProperty p.name b.object)) c :=
      changeIfKnown_of_strict hc _ _ _
    rw [bindProperties_eq, forEach_eq_error_iff (I := fun c ↦ c.strict) (column_bound marks)
      (fun _ _ hc ↦ hc) hstep hb]
    simp
  | false =>
    have hrun : b.apply (bindProperties marks ps) = .ok _ :=
      bindProperties_eq_ok.mpr ⟨fun h ↦ absurd (hb.symm.trans h) (by simp), rfl⟩
    rw [apply_eq_ok_iff.mp hrun]
    simp

theorem readNamed_eq_error_iff {names : List String} :
    readNamed names b = .error e b' ↔ b.strict ∧ ∃ before n,
      FirstUnknown b.known (fun n ↦ n) names before n ∧
        e = .mapping (.unknownDesired n b.object) ∧
          b' = b.changedBy (fun n ↦ n) (fun _ ↦ markRead) before := by
  cases hb : b.strict with
  | true =>
    have hstep (n : String) (c : Binding) (hc : c.strict) :
        changeIfKnown n markRead (fun b ↦ .mapping (.unknownDesired n b.object)) c =
          change n markRead (fun b ↦ .mapping (.unknownDesired n b.object)) c :=
      changeIfKnown_of_strict hc _ _ _
    rw [readNamed_eq, forEach_eq_error_iff (I := fun c ↦ c.strict) (f := fun _ ↦ markRead)
      (fun _ _ ↦ rfl) (fun _ _ hc ↦ hc) hstep hb]
    simp
  | false =>
    have hrun : b.apply (readNamed names) = .ok _ :=
      Pass.readNamed_eq_ok.mpr ⟨fun h ↦ absurd (hb.symm.trans h) (by simp), rfl⟩
    rw [apply_eq_ok_iff.mp hrun]
    simp

theorem bindUpdates_eq_error_iff {values : List (String × Value)} {origin : Origin} :
    bindUpdates origin values b = .error e b' ↔ ∃ before x,
      FirstUnknown b.known (·.1) values before x ∧
        e = .mapping (.unknownColumn x.1 b.object) ∧
          b' = b.changedBy (·.1) (fun x ↦ updated x.2 origin) before := by
  rw [bindUpdates_eq]
  exact forEach_eq_error_iff (I := fun _ ↦ True) (f := fun x ↦ updated x.2 origin) (fun _ _ ↦ rfl)
    (fun _ _ _ ↦ trivial) (fun _ _ _ ↦ rfl) trivial values

/-- Names that mean no column change nothing. -/
theorem changedBy_of_unknown {α : Type} {name : α → String} (f : α → Entry → Entry) {xs : List α}
    (h : ∀ x ∈ xs, b.known (name x) = false) : b.changedBy name f xs = b := by
  induction xs with
  | nil => rfl
  | cons x xs ih =>
    obtain ⟨hx, hxs⟩ := List.forall_mem_cons.mp h
    have hsame : b.changed (name x) (f x) = b :=
      changed_of_none (by rw [known] at hx; simpa using hx)
    rw [changedBy, List.foldl_cons, hsame]
    exact ih hxs

end Failing

end Binding

/-! ### Failing passes -/

/-- A pass over a binding that goes by names and fails where they mean nothing. -/
inductive NamingPass
  | argument (a : Argument) (marks : Bool)
  | keys (names : List String)
  | updates (values : List (String × Value)) (origin : Origin)
  | desired (d : Desired)

namespace NamingPass

def step : NamingPass → Step
  | .argument a marks => Binding.bindArgument a marks
  | .keys names => Binding.overrideKeys names
  | .updates values origin => Binding.applyUpdateValues values origin
  | .desired d => Binding.applyDesired d

/-- How a pass over a binding fails: with which error, and what it leaves of the binding. -/
inductive Fails (b : Binding) : NamingPass → Error → Binding → Prop
  | noKeyMarks {a : Argument} (h : a.toProperties.any (·.isKey) = false) :
    Fails b (.argument a true) (.mapping (.noKeyMarks b.object)) b
  | unknownProperty {a : Argument} {marks : Bool} {before : List Property} {p : Property}
    (hmarks : marks → a.toProperties.any (·.isKey)) (hstrict : b.strict)
    (h : FirstUnknown b.known (·.name) a.toProperties before p) :
    Fails b (.argument a marks) (.mapping (.unknownProperty p.name b.object))
      ((b.marked marks).changedBy (·.name) (Binding.bound marks) before)
  | noKeys : Fails b (.keys []) (.invalidOperation .noKeyColumns) b
  | unknownKey {names before : List String} {k : String}
    (h : FirstUnknown b.known (fun k ↦ k) names before k) :
    Fails b (.keys names) (.mapping (.unknownKey k b.object)) b
  | unknownColumn {values before : List (String × Value)} {x : String × Value} {origin : Origin}
    (h : FirstUnknown b.known (·.1) values before x) :
    Fails b (.updates values origin) (.mapping (.unknownColumn x.1 b.object))
      ((b.mapEntries fun e ↦ { e with update := false }).changedBy (·.1)
        (fun x ↦ Binding.updated x.2 origin) before)
  | unknownDesired {names before : List String} {n : String} (hstrict : b.strict)
    (h : FirstUnknown b.known (fun n ↦ n) names before n) :
    Fails b (.desired (.named names)) (.mapping (.unknownDesired n b.object))
      (b.changedBy (fun n ↦ n) (fun _ ↦ Binding.markRead) before)
  | noneDesired {names : List String} (hnames : names ≠ []) (hstrict : b.strict = false)
    (h : ∀ n ∈ names, b.known n = false) :
    Fails b (.desired (.named names)) (.mapping (.noneDesired names b.object)) b

section Fails

variable {b b' : Binding} {e : Error}

theorem bindProperties_marked_eq_error_iff {marks : Bool} {ps : List Property} :
    Binding.bindProperties marks ps (b.marked marks) = .error e b' ↔ b.strict ∧ ∃ before p,
      FirstUnknown b.known (·.name) ps before p ∧
        e = .mapping (.unknownProperty p.name b.object) ∧
          b' = (b.marked marks).changedBy (·.name) (Binding.bound marks) before := by
  have hframe : (b.marked marks).frame = b.frame := by
    cases marks with
    | false => rfl
    | true => exact Binding.frame_mapEntries fun _ ↦ rfl
  have hstrict : (b.marked marks).strict = b.strict := by cases marks <;> rfl
  have hobject : (b.marked marks).object = b.object :=
    congrArg (fun frame ↦ frame.1.quoted) hframe
  rw [Binding.bindProperties_eq_error_iff, Binding.known_of_frame hframe, hstrict, hobject]

theorem bindArgument_of_keyMarks {a : Argument} {marks : Bool}
    (h : marks → a.toProperties.any (·.isKey)) :
    Binding.bindArgument a marks b =
      (do Binding.bindProperties marks a.toProperties; Binding.refresh : Step) (b.marked marks) := by
  cases marks with
  | false => rfl
  | true =>
    simp only [Binding.bindArgument, h rfl]
    rfl

theorem bindArgument_of_no_keyMarks {a : Argument} (h : a.toProperties.any (·.isKey) = false) :
    Binding.bindArgument a true b = .error (.mapping (.noKeyMarks b.object)) b := by
  simp only [Binding.bindArgument, h]
  rfl

theorem bindArgument_eq_error_iff {a : Argument} {marks : Bool} :
    Binding.bindArgument a marks b = .error e b' ↔ Fails b (.argument a marks) e b' := by
  constructor
  · intro h
    by_cases hmarks : marks → a.toProperties.any (·.isKey)
    · rw [bindArgument_of_keyMarks hmarks] at h
      cases hproperties : Binding.bindProperties marks a.toProperties (b.marked marks) with
      | error e' c =>
        rw [Connection.bind_of_error _ hproperties] at h
        cases h
        obtain ⟨hstrict, before, p, hfirst, rfl, rfl⟩ :=
          bindProperties_marked_eq_error_iff.mp hproperties
        exact .unknownProperty hmarks hstrict hfirst
      | ok u c =>
        rw [Connection.bind_of_ok _ hproperties] at h
        cases h
    · obtain ⟨rfl, hnone⟩ := Classical.not_imp.mp hmarks
      have hnone := Bool.eq_false_iff.mpr hnone
      rw [bindArgument_of_no_keyMarks hnone] at h
      cases h
      exact .noKeyMarks hnone
  · intro h
    cases h with
    | noKeyMarks hnone => exact bindArgument_of_no_keyMarks hnone
    | @unknownProperty _ _ before p hmarks hstrict hfirst =>
      rw [bindArgument_of_keyMarks hmarks]
      exact Connection.bind_of_error _
        (bindProperties_marked_eq_error_iff.mpr ⟨hstrict, before, p, hfirst, rfl, rfl⟩)

theorem overrideKeys_of_unknown {names : List String} {k : String} (hne : names.isEmpty = false)
    (hk : names.find? (fun k ↦ !b.known k) = some k) :
    Binding.overrideKeys names b = .error (.mapping (.unknownKey k b.object)) b := by
  have hfind : names.find? (fun k ↦ (b.entry? k).isNone) = some k := by
    simpa [Binding.known] using hk
  have hget : (get : EStateM Error Binding Binding) b = .ok b b := rfl
  refine (Connection.bind_of_ok _ hget).trans ?_
  simp only [hne, hfind]
  rfl

theorem overrideKeys_eq_error_iff {names : List String} :
    Binding.overrideKeys names b = .error e b' ↔ Fails b (.keys names) e b' := by
  constructor
  · intro h
    cases hempty : names.isEmpty with
    | true =>
      obtain rfl := List.isEmpty_iff.mp hempty
      cases h
      exact .noKeys
    | false =>
      cases hk : names.find? fun k ↦ !b.known k with
      | none =>
        have hknown : ∀ k ∈ names, b.known k := by simpa using hk
        have hok := Pass.overrideKeys_eq_ok.mpr
          ⟨⟨List.isEmpty_eq_false_iff.mp hempty, hknown⟩, rfl⟩
        rw [Binding.apply_eq_ok_iff.mp hok] at h
        cases h
      | some k =>
        rw [overrideKeys_of_unknown hempty hk] at h
        cases h
        obtain ⟨before, hfirst⟩ := firstUnknown_of_find? hk
        exact .unknownKey hfirst
  · intro h
    cases h with
    | noKeys => rfl
    | unknownKey hfirst => exact overrideKeys_of_unknown (by cases hfirst <;> rfl) hfirst.find?_eq

/-- Once names have been marked, only names that mean nothing at all are in the way. -/
theorem applyDesired_of_readNamed {n : String} {names : List String} {c : Binding}
    (h : Binding.readNamed (n :: names) b = .ok () c) :
    Binding.applyDesired (.named (n :: names)) b =
      if (n :: names).any b.known then .ok () c
      else .error (.mapping (.noneDesired (n :: names) b.object)) c := by
  obtain ⟨-, rfl⟩ := Pass.readNamed_eq_ok.mp (Binding.apply_eq_ok_iff.mpr h)
  have hframe : (b.changedBy (fun n ↦ n) (fun _ ↦ Binding.markRead) (n :: names)).frame = b.frame :=
    Binding.frame_changedBy (f := fun _ ↦ Binding.markRead) (fun _ _ ↦ rfl) (n :: names) b
  have hobject := congrArg (fun frame ↦ frame.1.quoted) hframe
  refine (Connection.bind_of_ok _ h).trans ?_
  rw [← Binding.known_of_frame hframe, show b.object = _ from hobject.symm]
  cases hany : (n :: names).any (Binding.known _) with
  | true => exact congrFun (if_pos hany) _
  | false => exact congrFun (if_neg (Bool.eq_false_iff.mp hany)) _

theorem applyDesired_eq_error_iff {d : Desired} :
    Binding.applyDesired d b = .error e b' ↔ Fails b (.desired d) e b' := by
  constructor
  · intro h
    match d with
    | .none | .all | .named [] => cases h
    | .named (n :: names) =>
      cases hread : Binding.readNamed (n :: names) b with
      | error e' c =>
        rw [show Binding.applyDesired (.named (n :: names)) b = .error e' c from
          Connection.bind_of_error _ hread] at h
        cases h
        obtain ⟨hstrict, before, m, hfirst, rfl, rfl⟩ := Binding.readNamed_eq_error_iff.mp hread
        exact .unknownDesired hstrict hfirst
      | ok u c =>
        obtain ⟨hall, hmarked⟩ := Pass.readNamed_eq_ok.mp (Binding.apply_eq_ok_iff.mpr hread)
        rw [applyDesired_of_readNamed hread] at h
        split at h
        · cases h
        · rename_i hany
          cases h
          have hnone : ∀ m ∈ n :: names, b.known m = false := by simpa using hany
          rw [← hmarked, Binding.changedBy_of_unknown _ hnone]
          have hlenient : b.strict = false := by
            refine Bool.eq_false_iff.mpr fun hstrict ↦ ?_
            have hmeans := hall hstrict n List.mem_cons_self
            rw [hnone n List.mem_cons_self] at hmeans
            cases hmeans
          exact .noneDesired (List.cons_ne_nil n names) hlenient hnone
  · intro h
    cases h with
    | @unknownDesired names before m hstrict hfirst =>
      obtain ⟨n, rest, rfl⟩ : ∃ n rest, names = n :: rest := by cases hfirst <;> exact ⟨_, _, rfl⟩
      exact Connection.bind_of_error _
        (Binding.readNamed_eq_error_iff.mpr ⟨hstrict, before, m, hfirst, rfl, rfl⟩)
    | @noneDesired names hnames hlenient hnone =>
      obtain ⟨n, rest, rfl⟩ := List.exists_cons_of_ne_nil hnames
      have hread := Binding.apply_eq_ok_iff.mp (Pass.readNamed_eq_ok.mpr
        ⟨fun hstrict ↦ absurd (hlenient.symm.trans hstrict) (by simp),
          Binding.changedBy_of_unknown _ hnone⟩)
      have hany : ¬ (n :: rest).any b.known := by simpa using hnone
      rw [applyDesired_of_readNamed hread, if_neg hany]

/-- A pass fails in these ways only, each of which leaves exactly this. -/
theorem step_eq_error_iff (p : NamingPass) : p.step b = .error e b' ↔ p.Fails b e b' := by
  cases p with
  | argument a marks => exact bindArgument_eq_error_iff
  | keys names => exact overrideKeys_eq_error_iff
  | updates values origin =>
    have hknown : Binding.known (b.mapEntries fun e ↦ { e with update := false }) = b.known :=
      Binding.known_of_frame (Binding.frame_mapEntries fun _ ↦ rfl)
    have hobject : (b.mapEntries fun e ↦ { e with update := false }).object = b.object := rfl
    have hrun : Binding.applyUpdateValues values origin b =
        Binding.bindUpdates origin values (b.mapEntries fun e ↦ { e with update := false }) := rfl
    rw [step, hrun, Binding.bindUpdates_eq_error_iff, hknown, hobject]
    constructor
    · rintro ⟨before, x, hfirst, rfl, rfl⟩
      exact .unknownColumn hfirst
    · intro h
      cases h with
      | unknownColumn hfirst => exact ⟨_, _, hfirst, rfl, rfl⟩
  | desired d => exact applyDesired_eq_error_iff

end Fails

/-- An argument of which a strict binding does not know the second property has bound the first one
when it fails. -/
theorem not_traceless : ¬ ∀ (p : NamingPass) (b b' : Binding) (e : Error),
    p.step b = .error e b' → b'.entries = b.entries := by
  let b := Binding.ofColumns ⟨⟨none, "Users"⟩, Dialect.sqlite.quote "Users"⟩
    [(Column.make .sqlite "Id" "INTEGER").key, .make .sqlite "Name" "TEXT"] .sqlite true
  let a : Argument := .properties [⟨"Id", .int 1, false⟩, ⟨"Nickname", .text "Ann", false⟩]
  intro h
  have hfails : (NamingPass.argument a false).step b =
      .error (.mapping (.unknownProperty "Nickname" b.object))
        (b.changed "Id" (Binding.bound false ⟨"Id", .int 1, false⟩)) := by
    rfl
  exact absurd (h _ _ _ _ hfails) (by decide)

end NamingPass

end SchemaSql
