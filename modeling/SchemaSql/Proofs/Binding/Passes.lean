import Mathlib.Data.List.Pairwise
import SchemaSql.Proofs.Binding.Entries
import SchemaSql.Proofs.Users

/-!
The order of passes over a binding. A pass binds an argument, names the key, marks columns to read
or makes a choice about identities or keys. Whether it succeeds depends on names alone, which no
pass changes. What it does is a list of edits: each edit changes every entry, or the first that
answers to a name, in a datum that passes of other kinds leave alone, so that edits of different
passes commute. Parts are computed anew by every pass that they depend on. So a list of passes with
at most one argument, one key and one choice of columns leaves the same binding in every order, and
with it the same row, assignments, key criteria and columns to read.
-/

set_option autoImplicit false
set_option relaxedAutoImplicit false

namespace SchemaSql

/-! ### Edits -/

/-- A change of every entry alike, or of the first one that answers to a name. -/
inductive Edit
  | every (f : Entry → Entry)
  | first (name : String) (f : Entry → Entry)

/-- What the edit makes of an entry that it changes. -/
def Edit.made : Edit → Entry → Entry
  | .every f | .first _ f => f

/-- Neither of two edits touches columns, and what they make of an entry does not depend on their
order. -/
structure Edit.Apart (d d' : Edit) : Prop where
  column : ∀ e, (d.made e).column = e.column
  column' : ∀ e, (d'.made e).column = e.column
  comm : ∀ e, d.made (d'.made e) = d'.made (d.made e)

namespace Binding

def edited (b : Binding) : Edit → Binding
  | .every f => b.mapEntries f
  | .first name f => b.changed name f

def editedBy (b : Binding) (ds : List Edit) : Binding := ds.foldl edited b

theorem changeFirst_comm {f g : Entry → Entry} (hf : ∀ e, (f e).column = e.column)
    (hg : ∀ e, (g e).column = e.column) (hcomm : ∀ e, f (g e) = g (f e)) (name name' : String)
    (es : List Entry) :
    changeFirst name f (changeFirst name' g es) = changeFirst name' g (changeFirst name f es) := by
  induction es with
  | nil => rfl
  | cons e es ih =>
    by_cases hfirst : e.column.answersTo name = true <;>
      by_cases hsecond : e.column.answersTo name' = true <;>
        simp [changeFirst, hf, hg, hcomm, hfirst, hsecond, ih]

theorem edited_comm {d d' : Edit} (h : d.Apart d') (b : Binding) :
    (b.edited d).edited d' = (b.edited d').edited d := by
  obtain ⟨hcolumn, hcolumn', hcomm⟩ := h
  cases d with
  | every f =>
    cases d' with
    | every g =>
      have hmap : g ∘ f = f ∘ g := funext fun e ↦ (hcomm e).symm
      simp only [edited, mapEntries, List.map_map, hmap]
    | first name g =>
      have hmap := changeFirst_map hcolumn hcomm name b.entries
      exact congrArg (fun entries ↦ { b with entries }) hmap.symm
  | first name f =>
    cases d' with
    | every g =>
      have hmap := changeFirst_map hcolumn' (fun e ↦ (hcomm e).symm) name b.entries
      exact congrArg (fun entries ↦ { b with entries }) hmap
    | first name' g =>
      have hfirst := changeFirst_comm hcolumn' hcolumn (fun e ↦ (hcomm e).symm) name' name b.entries
      exact congrArg (fun entries ↦ { b with entries }) hfirst

/-- An edit that is apart from all others may be made before or after them. -/
theorem editedBy_edited {ds : List Edit} {d' : Edit} (h : ∀ d ∈ ds, d.Apart d') (b : Binding) :
    (b.editedBy ds).edited d' = (b.edited d').editedBy ds := by
  induction ds generalizing b with
  | nil => rfl
  | cons d ds ih =>
    obtain ⟨hd, hds⟩ := List.forall_mem_cons.mp h
    rw [editedBy, List.foldl_cons, ← editedBy, ih hds, edited_comm hd]
    rfl

theorem editedBy_comm {ds ds' : List Edit} (h : ∀ d ∈ ds, ∀ d' ∈ ds', d.Apart d') (b : Binding) :
    (b.editedBy ds).editedBy ds' = (b.editedBy ds').editedBy ds := by
  induction ds' generalizing b with
  | nil => rfl
  | cons d' ds' ih =>
    have hd' : ∀ d ∈ ds, d.Apart d' := fun d hd ↦ h d hd d' List.mem_cons_self
    have hds' : ∀ d ∈ ds, ∀ d' ∈ ds', d.Apart d' := fun d hd d' hd' ↦
      h d hd d' (List.mem_cons_of_mem _ hd')
    calc (b.editedBy ds).editedBy (d' :: ds')
        = ((b.editedBy ds).edited d').editedBy ds' := rfl
      _ = ((b.edited d').editedBy ds).editedBy ds' := by rw [editedBy_edited hd']
      _ = ((b.edited d').editedBy ds').editedBy ds := ih hds' _

/-- Edits change nothing but entries. -/
theorem editedBy_eq (ds : List Edit) (b : Binding) :
    b.editedBy ds = { b with entries := (b.editedBy ds).entries } := by
  induction ds generalizing b with
  | nil => rfl
  | cons d ds ih =>
    rw [editedBy, List.foldl_cons, ← editedBy, ih]
    cases d <;> rfl

theorem frame_editedBy {ds : List Edit} (h : ∀ d ∈ ds, ∀ e, (d.made e).column = e.column)
    (b : Binding) : (b.editedBy ds).frame = b.frame := by
  induction ds generalizing b with
  | nil => rfl
  | cons d ds ih =>
    obtain ⟨hd, hds⟩ := List.forall_mem_cons.mp h
    rw [editedBy, List.foldl_cons, ← editedBy, ih hds]
    cases d with
    | every f => exact frame_mapEntries hd
    | first name f => exact frame_changed hd

theorem editedBy_first {α : Type} (name : α → String) (f : α → Entry → Entry) (xs : List α)
    (b : Binding) :
    b.editedBy (xs.map fun x ↦ .first (name x) (f x)) = b.changedBy name f xs := by
  rw [editedBy, List.foldl_map, changedBy]
  rfl

/-! ### Choices and parts -/

/-- The binding after some choices, in addition to those made already. -/
def chosen (b : Binding) (c : Bool × Bool × Bool) : Binding :=
  { b with
    identityInsert := b.identityInsert || c.1
    keyInserts := b.keyInserts || c.2.1
    keyUpdates := b.keyUpdates || c.2.2 }

theorem chosen_none (b : Binding) : b.chosen (false, false, false) = b := by simp [chosen]

theorem chosen_comm (b : Binding) (c c' : Bool × Bool × Bool) :
    (b.chosen c).chosen c' = (b.chosen c').chosen c := by
  simp only [chosen, Bool.or_right_comm]

theorem editedBy_chosen (b : Binding) (c : Bool × Bool × Bool) (ds : List Edit) :
    (b.chosen c).editedBy ds = (b.editedBy ds).chosen c := by
  induction ds generalizing b with
  | nil => rfl
  | cons d ds ih =>
    have hfirst : (b.chosen c).edited d = (b.edited d).chosen c := by cases d <;> rfl
    rw [editedBy, List.foldl_cons, hfirst, ← editedBy, ih]
    rfl

/-- Takes the parts of every entry away. -/
def baring : Edit := .every fun e ↦ { e with insert := false, update := false }

/-- Parts are computed from everything else. -/
theorem refreshed_bared (b : Binding) : (b.edited baring).refreshed = b.refreshed := by
  simp [edited, baring, refreshed, mapEntries, Function.comp_def, withParts, insertable, updatable,
    Entry.isBound]

theorem bared_refreshed (b : Binding) : b.refreshed.edited baring = b.edited baring := by
  simp [edited, baring, refreshed, mapEntries, Function.comp_def, withParts]

end Binding

/-! ### Passes -/

/-- A pass over a binding whose key marks, if an argument has any, do not count. -/
inductive Pass
  | argument (a : Argument)
  | keys (names : List String)
  | desired (d : Desired)
  | identityInsert
  | keyInserts
  | keyUpdates

namespace Pass

def step : Pass → Step
  | .argument a => Binding.bindArgument a false
  | .keys names => Binding.overrideKeys names
  | .desired d => Binding.applyDesired d
  | .identityInsert => Binding.enableIdentityInsert
  | .keyInserts => Binding.insertKeyValues
  | .keyUpdates => Binding.allowKeyUpdates

/-- The later of two such passes has the last word, so that their order matters. -/
def rivals : Pass → Pass → Bool
  | .argument _, .argument _ | .keys _, .keys _ | .desired _, .desired _ => true
  | _, _ => false

/-- What has to be known of a binding for a pass to succeed: its strictness, and which names mean a
column. -/
def Allowed (strict : Bool) (known : String → Bool) : Pass → Prop
  | .argument a => strict → ∀ p ∈ a.toProperties, known p.name
  | .keys names => names ≠ [] ∧ ∀ k ∈ names, known k
  | .desired (.named names) =>
    names = [] ∨ (strict → ∀ n ∈ names, known n) ∧ ∃ n ∈ names, known n
  | _ => True

/-- The edits that a pass makes before parts are computed. -/
def edits : Pass → List Edit
  | .argument a => a.toProperties.map fun p ↦ .first p.name (Binding.bound false p)
  | .keys names => [.every fun e ↦ { e with isKey := names.any fun k ↦ e.column.answersTo k }]
  | .desired .all => [.every Binding.markRead]
  | .desired (.named names) => names.map fun n ↦ .first n Binding.markRead
  | _ => []

/-- The choices that a pass makes. -/
def choices : Pass → Bool × Bool × Bool
  | .identityInsert => (true, false, false)
  | .keyInserts => (false, true, false)
  | .keyUpdates => (false, false, true)
  | _ => (false, false, false)

/-- Whether a pass is followed by computing parts anew. -/
def refreshes : Pass → Bool
  | .desired _ => false
  | _ => true

/-- The binding after a pass, but for parts that it computes anew. -/
def change (p : Pass) (b : Binding) : Binding := (b.chosen p.choices).editedBy p.edits

def effect (p : Pass) (b : Binding) : Binding :=
  if p.refreshes then (p.change b).refreshed else p.change b

end Pass

namespace Binding

def known (b : Binding) (name : String) : Bool := (b.entry? name).isSome

theorem known_of_frame {b c : Binding} (h : c.frame = b.frame) : c.known = b.known := by
  funext name
  rw [known, known, ← Option.isSome_map (f := Entry.column), entry?_column, h, ← entry?_column,
    Option.isSome_map]

theorem frame_changedBy {α : Type} {name : α → String} {f : α → Entry → Entry}
    (hf : ∀ x e, (f x e).column = e.column) (xs : List α) (b : Binding) :
    (b.changedBy name f xs).frame = b.frame := by
  rw [← editedBy_first]
  refine frame_editedBy (fun d hd ↦ ?_) b
  obtain ⟨x, -, rfl⟩ := List.mem_map.mp hd
  exact hf x

theorem known_changedBy {α : Type} {name : α → String} {f : α → Entry → Entry}
    (hf : ∀ x e, (f x e).column = e.column) (xs : List α) (b : Binding) :
    Binding.known (b.changedBy name f xs) = b.known :=
  known_of_frame (frame_changedBy hf xs b)

/-- The binding after some passes in turn, or the error of the first one that fails. -/
def passed (b : Binding) : List Pass → Except Error Binding
  | [] => .ok b
  | p :: ps => (b.apply p.step).bind fun b ↦ b.passed ps

end Binding

namespace Pass

/-! ### Passes as edits -/

section Effect

variable {b c : Binding} {p q : Pass}

theorem column_made {d : Edit} (hd : d ∈ p.edits) (e : Entry) : (d.made e).column = e.column := by
  cases p with
  | argument a =>
    obtain ⟨x, -, rfl⟩ := List.mem_map.mp hd
    exact Binding.column_bound false x e
  | keys names =>
    obtain rfl := List.mem_singleton.mp hd
    rfl
  | desired d =>
    cases d with
    | none => cases hd
    | all =>
      obtain rfl := List.mem_singleton.mp hd
      rfl
    | named names =>
      obtain ⟨n, -, rfl⟩ := List.mem_map.mp hd
      rfl
  | identityInsert | keyInserts | keyUpdates => cases hd

theorem frame_change (p : Pass) (b : Binding) : (p.change b).frame = b.frame :=
  Binding.frame_editedBy (fun _ hd ↦ column_made hd) _

theorem frame_effect (p : Pass) (b : Binding) : (p.effect b).frame = b.frame := by
  rw [effect]
  split
  · rw [Binding.frame_refreshed, frame_change]
  · exact frame_change p b

/-- No pass changes which names mean a column. -/
theorem known_effect (p : Pass) (b : Binding) : (p.effect b).known = b.known :=
  Binding.known_of_frame (frame_effect p b)

theorem strict_effect (p : Pass) (b : Binding) : (p.effect b).strict = b.strict := by
  have hchange : (p.change b).strict = b.strict := by rw [change, Binding.editedBy_eq]; rfl
  rw [effect]
  split
  · exact hchange
  · exact hchange

/-- Columns are marked if a strict binding knows all their names; others are passed over. -/
theorem readNamed_eq_ok {names : List String} :
    b.apply (Binding.readNamed names) = .ok c ↔
      (b.strict → ∀ n ∈ names, b.known n) ∧
        b.changedBy (fun n ↦ n) (fun _ ↦ Binding.markRead) names = c := by
  induction names generalizing b with
  | nil =>
    rw [show b.apply (Binding.readNamed []) = .ok b from rfl]
    simp [Binding.changedBy]
  | cons n names ih =>
    have hknown (m : String) : Binding.known (b.changed n Binding.markRead) m = b.known m :=
      Binding.isSome_entry?_changed (f := Binding.markRead) (fun _ ↦ rfl) b n m
    simp only [Binding.apply_readNamed_cons, bind_eq_ok, Binding.changeIfKnown_eq_ok, ih,
      List.forall_mem_cons]
    constructor
    · rintro ⟨_, ⟨hfirst, rfl⟩, hrest, rfl⟩
      exact ⟨fun hstrict ↦ ⟨hfirst hstrict, fun m hm ↦ hknown m ▸ hrest hstrict m hm⟩, rfl⟩
    · rintro ⟨hall, rfl⟩
      exact ⟨_, ⟨fun hstrict ↦ (hall hstrict).1, rfl⟩,
        fun hstrict m hm ↦ (hknown m).symm ▸ (hall hstrict).2 m hm, rfl⟩

theorem apply_overrideKeys (b : Binding) (names : List String) :
    b.apply (Binding.overrideKeys names) =
      if names.isEmpty then .error (.invalidOperation .noKeyColumns)
      else match names.find? fun k ↦ (b.entry? k).isNone with
        | some k => .error (.mapping (.unknownKey k b.object))
        | none => .ok (b.mapEntries fun e ↦
            { e with isKey := names.any fun k ↦ e.column.answersTo k }).refreshed := by
  have hget : b.apply (Binding.overrideKeys names) = b.apply (do
      if names.isEmpty then throw (.invalidOperation .noKeyColumns)
      match names.find? fun k ↦ (b.entry? k).isNone with
      | some k => throw (.mapping (.unknownKey k b.object))
      | none => set (b.mapEntries fun e ↦
          { e with isKey := names.any fun k ↦ e.column.answersTo k }).refreshed) := rfl
  rw [hget]
  cases names.isEmpty with
  | true => rfl
  | false => cases names.find? fun k ↦ (b.entry? k).isNone <;> rfl

/-- The named columns become the key if there are some and the binding knows them all. -/
theorem overrideKeys_eq_ok {names : List String} :
    b.apply (Binding.overrideKeys names) = .ok c ↔
      (names ≠ [] ∧ ∀ k ∈ names, b.known k) ∧
        (b.mapEntries fun e ↦
          { e with isKey := names.any fun k ↦ e.column.answersTo k }).refreshed = c := by
  have hknown : (names.find? fun k ↦ (b.entry? k).isNone) = none ↔ ∀ k ∈ names, b.known k := by
    simp [List.find?_eq_none, Binding.known, Option.isSome_iff_ne_none]
  rw [apply_overrideKeys]
  by_cases hempty : names = []
  · simp [hempty]
  · rw [if_neg (by simpa using hempty), ← hknown]
    split
    · rename_i k hk
      simp [hk]
    · rename_i hnone
      simp [hnone, hempty]

/-- Columns are marked if there are no names, or if some name means a column and a strict binding
knows them all. -/
theorem applyDesired_named_eq_ok {names : List String} :
    b.apply (Binding.applyDesired (.named names)) = .ok c ↔
      (names = [] ∨ (b.strict → ∀ n ∈ names, b.known n) ∧ ∃ n ∈ names, b.known n) ∧
        b.changedBy (fun n ↦ n) (fun _ ↦ Binding.markRead) names = c := by
  cases names with
  | nil =>
    rw [show b.apply (Binding.applyDesired (.named [])) = .ok b from rfl]
    simp [Binding.changedBy]
  | cons n names =>
    have hknown (m : String) : (Binding.entry?
        (b.changedBy (fun n ↦ n) (fun _ ↦ Binding.markRead) (n :: names)) m).isSome = b.known m :=
      congrFun (Binding.known_changedBy (f := fun _ ↦ Binding.markRead) (fun _ _ ↦ rfl) _ b) m
    rw [Binding.apply_applyDesired_named, bind_eq_ok]
    simp only [readNamed_eq_ok]
    constructor
    · rintro ⟨_, ⟨hall, rfl⟩, hsome⟩
      simp only [hknown] at hsome
      split at hsome
      · rename_i hany
        exact ⟨.inr ⟨hall, List.any_eq_true.mp hany⟩, Except.ok.inj hsome⟩
      · simp at hsome
    · rintro ⟨hempty | ⟨hall, hany⟩, rfl⟩
      · exact absurd hempty (List.cons_ne_nil n names)
      · refine ⟨_, ⟨hall, rfl⟩, ?_⟩
        simp only [hknown]
        exact if_pos (List.any_eq_true.mpr hany)

theorem change_of_no_choices (h : p.choices = (false, false, false)) (b : Binding) :
    p.change b = b.editedBy p.edits := by
  rw [change, h, Binding.chosen_none]

theorem effect_of_no_edits (hedits : p.edits = []) (hrefreshes : p.refreshes) (b : Binding) :
    p.effect b = (b.chosen p.choices).refreshed := by
  rw [effect, if_pos hrefreshes, change, hedits]
  rfl

/-- A pass succeeds where it is allowed, and then has its effect. -/
theorem apply_step_eq_ok :
    b.apply p.step = .ok c ↔ p.Allowed b.strict b.known ∧ p.effect b = c := by
  have hchoice {f : Binding → Binding} :
      b.apply (modify f) = .ok c ↔ True ∧ f b = c := by simp
  cases p with
  | argument a =>
    have heffect : (argument a).effect b =
        (b.changedBy (·.name) (Binding.bound false) a.toProperties).refreshed := by
      rw [← Binding.editedBy_first, ← edits, ← change_of_no_choices rfl]
      rfl
    rw [step, Binding.bindArgument_eq_ok, heffect]
    simp [Allowed, Binding.known, Binding.marked]
  | keys names =>
    have heffect : (keys names).effect b = (b.mapEntries fun e ↦
        { e with isKey := names.any fun k ↦ e.column.answersTo k }).refreshed :=
      congrArg Binding.refreshed (change_of_no_choices rfl b)
    rw [step, overrideKeys_eq_ok, heffect]
    rfl
  | desired d =>
    have heffect : (desired d).effect b = b.editedBy (desired d).edits := change_of_no_choices rfl b
    rw [step, heffect]
    cases d with
    | none => exact hchoice (f := fun b ↦ b)
    | all => exact hchoice
    | named names =>
      rw [applyDesired_named_eq_ok, ← Binding.editedBy_first]
      rfl
  | identityInsert =>
    have hchosen : b.chosen (true, false, false) = { b with identityInsert := true } := by
      simp [Binding.chosen]
    rw [effect_of_no_edits rfl rfl, choices, hchosen]
    exact hchoice
  | keyInserts =>
    have hchosen : b.chosen (false, true, false) = { b with keyInserts := true } := by
      simp [Binding.chosen]
    rw [effect_of_no_edits rfl rfl, choices, hchosen]
    exact hchoice
  | keyUpdates =>
    have hchosen : b.chosen (false, false, true) = { b with keyUpdates := true } := by
      simp [Binding.chosen]
    rw [effect_of_no_edits rfl rfl, choices, hchosen]
    exact hchoice

/-! ### Passes that are no rivals -/

theorem made_argument {a : Argument} {d : Edit} (hd : d ∈ (argument a).edits) :
    ∃ x, d.made = Binding.bound false x := by
  obtain ⟨x, -, rfl⟩ := List.mem_map.mp hd
  exact ⟨x, rfl⟩

theorem made_desired {chosen : Desired} {d : Edit} (hd : d ∈ (desired chosen).edits) :
    d.made = Binding.markRead := by
  cases chosen with
  | none => cases hd
  | all =>
    obtain rfl := List.mem_singleton.mp hd
    rfl
  | named names =>
    obtain ⟨n, -, rfl⟩ := List.mem_map.mp hd
    rfl

/-- Passes that are no rivals write different data of entries. -/
theorem apart (h : p.rivals q = false) : ∀ d ∈ p.edits, ∀ d' ∈ q.edits, d.Apart d' := by
  intro d hd d' hd'
  refine ⟨column_made hd, column_made hd', fun e ↦ ?_⟩
  cases p with
  | argument a =>
    obtain ⟨x, hmade⟩ := made_argument hd
    cases q with
    | argument a' => cases h
    | keys names =>
      obtain rfl := List.mem_singleton.mp hd'
      rw [hmade]
      rfl
    | desired chosen =>
      rw [hmade, made_desired hd']
      rfl
    | identityInsert | keyInserts | keyUpdates => cases hd'
  | keys names =>
    obtain rfl := List.mem_singleton.mp hd
    cases q with
    | argument a =>
      obtain ⟨x, hmade⟩ := made_argument hd'
      rw [hmade]
      rfl
    | keys names' => cases h
    | desired chosen =>
      rw [made_desired hd']
      rfl
    | identityInsert | keyInserts | keyUpdates => cases hd'
  | desired chosen =>
    rw [made_desired hd]
    cases q with
    | argument a =>
      obtain ⟨x, hmade⟩ := made_argument hd'
      rw [hmade]
      rfl
    | keys names =>
      obtain rfl := List.mem_singleton.mp hd'
      rfl
    | desired chosen' => cases h
    | identityInsert | keyInserts | keyUpdates => cases hd'
  | identityInsert | keyInserts | keyUpdates => cases hd

/-- Both passes may be made in any order. -/
def Commutes (p q : Pass) : Prop := ∀ b, q.effect (p.effect b) = p.effect (q.effect b)

theorem change_comm (h : p.rivals q = false) (b : Binding) :
    q.change (p.change b) = p.change (q.change b) := by
  simp only [change, ← Binding.editedBy_chosen]
  rw [Binding.chosen_comm, Binding.editedBy_comm (apart h)]

theorem change_edited {d' : Edit} (h : ∀ d ∈ p.edits, d.Apart d') (b : Binding) :
    (p.change b).edited d' = p.change (b.edited d') := by
  have hchosen : (b.chosen p.choices).edited d' = (b.edited d').chosen p.choices := by
    cases d' <;> rfl
  rw [change, Binding.editedBy_edited h, hchosen, change]

/-- The parts that entries have before a pass do not count if it is followed by computing them. -/
theorem refreshed_change_refreshed (p : Pass) (b : Binding) :
    (p.change b.refreshed).refreshed = (p.change b).refreshed := by
  have hbaring : ∀ d ∈ p.edits, d.Apart Binding.baring := by
    intro d hd
    refine ⟨column_made hd, fun _ ↦ rfl, fun e ↦ ?_⟩
    cases p with
    | argument a =>
      obtain ⟨x, hmade⟩ := made_argument hd
      rw [hmade]
      rfl
    | keys names =>
      obtain rfl := List.mem_singleton.mp hd
      rfl
    | desired chosen =>
      rw [made_desired hd]
      rfl
    | identityInsert | keyInserts | keyUpdates => cases hd
  rw [← Binding.refreshed_bared, change_edited hbaring, Binding.bared_refreshed,
    ← change_edited hbaring, Binding.refreshed_bared]

/-- Marks of columns to read do not count for parts. -/
theorem change_refreshed (h : p.refreshes = false) (b : Binding) :
    p.change b.refreshed = (p.change b).refreshed := by
  cases p with
  | desired chosen =>
    have hparts : ∀ d ∈ (desired chosen).edits, d.Apart (.every b.withParts) := by
      intro d hd
      refine ⟨column_made hd, fun _ ↦ rfl, fun e ↦ ?_⟩
      rw [made_desired hd]
      rfl
    have hchoices : ((desired chosen).change b).choices = b.choices := by
      rw [change_of_no_choices rfl, Binding.editedBy_eq]
      rfl
    calc (desired chosen).change b.refreshed
        = ((desired chosen).change b).edited (.every b.withParts) := (change_edited hparts b).symm
      _ = ((desired chosen).change b).refreshed := by
          rw [Binding.refreshed, Binding.withParts_congr hchoices, Binding.edited]
  | argument | keys | identityInsert | keyInserts | keyUpdates => cases h

theorem commutes (h : p.rivals q = false) : p.Commutes q := by
  intro b
  simp only [effect]
  cases hp : p.refreshes with
  | true =>
    cases hq : q.refreshes with
    | true =>
      simp only [if_true, refreshed_change_refreshed, change_comm h]
    | false =>
      simp [change_refreshed hq, change_comm h]
  | false =>
    cases hq : q.refreshes with
    | true => simp [change_refreshed hp, change_comm h]
    | false => simp [change_comm h]

end Effect

end Pass

namespace Binding

variable {b c : Binding} {ps qs : List Pass}

/-- Passes succeed if each of them is allowed, and then have their effects in turn. -/
theorem passed_eq_ok : b.passed ps = .ok c ↔
    (∀ p ∈ ps, p.Allowed b.strict b.known) ∧ ps.foldl (fun b p ↦ p.effect b) b = c := by
  induction ps generalizing b with
  | nil => simp [passed]
  | cons p ps ih =>
    simp only [passed, bind_eq_ok, Pass.apply_step_eq_ok, ih, List.forall_mem_cons,
      List.foldl_cons]
    constructor
    · rintro ⟨_, ⟨hfirst, rfl⟩, hrest, hc⟩
      rw [Pass.strict_effect, Pass.known_effect] at hrest
      exact ⟨⟨hfirst, hrest⟩, hc⟩
    · rintro ⟨⟨hfirst, hrest⟩, hc⟩
      refine ⟨_, ⟨hfirst, rfl⟩, ?_, hc⟩
      rwa [Pass.strict_effect, Pass.known_effect]

/-- Passes with at most one argument, one key and one choice of columns that succeed do so in every
other order, and leave the same binding. -/
theorem passed_perm (hperm : ps.Perm qs) (hrivals : ps.Pairwise fun p q ↦ p.rivals q = false)
    (h : b.passed ps = .ok c) : b.passed qs = .ok c := by
  have hsymm : Std.Symm Pass.Commutes := ⟨fun _ _ hpq b ↦ (hpq b).symm⟩
  have hcomm := (hrivals.imp Pass.commutes).forall_of_forall fun _ _ _ ↦ rfl
  obtain ⟨hallowed, hc⟩ := passed_eq_ok.mp h
  refine passed_eq_ok.mpr ⟨fun p hp ↦ hallowed p (hperm.mem_iff.mpr hp), ?_⟩
  rw [← hc]
  exact (hperm.foldl_eq' (fun p hp q hq b ↦ hcomm hp hq b) b).symm

/-- Makes names the key of users, to be written though they are the key. -/
def rekeying : List Pass :=
  [.argument (.properties [⟨"Id", .int 1, false⟩, ⟨"Name", .text "Ann", false⟩]), .keyUpdates,
    .keys ["Name"], .desired (.named ["Id"]), .keyUpdates, .identityInsert, .keyInserts]

theorem passed_rekeying_reverse :
    ∃ c, (ofColumns (Users.table .sqlite).target (Users.table .sqlite).columns .sqlite true).passed
        rekeying = .ok c ∧
      (ofColumns (Users.table .sqlite).target (Users.table .sqlite).columns .sqlite true).passed
        rekeying.reverse = .ok c := by
  have hok : ((ofColumns (Users.table .sqlite).target (Users.table .sqlite).columns .sqlite
      true).passed rekeying).toOption.isSome := by decide +kernel
  obtain ⟨c, hpassed⟩ := exists_ok_of_isSome hok
  exact ⟨c, hpassed, passed_perm (List.reverse_perm rekeying).symm (by decide) hpassed⟩

end Binding

end SchemaSql
