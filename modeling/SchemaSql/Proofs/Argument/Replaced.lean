import SchemaSql.Argument
import SchemaSql.Proofs.Catalog.Answering

/-!
Setting a property twice. Of two values that are given to a property the last one counts, and the
other items of the argument stay what and where they are. An argument of parameters knows its items
by their names without markers, so it never finds a name that begins with a marker: it takes in such
a name again each time that it is set, and does not find it afterwards either.
-/

set_option autoImplicit false
set_option relaxedAutoImplicit false

namespace SchemaSql

namespace Argument

/-! ### The first item that fits -/

section Replacing

variable {α : Type} {p : α → Bool} {f g : α → α} {new new' : α} {as : List α}

theorem replaceFirst_cons (a : α) :
    replaceFirst p f new (a :: as) = if p a then f a :: as else a :: replaceFirst p f new as := rfl

/-- Where nothing fits, the new item comes last. -/
theorem replaceFirst_of_none (h : ∀ a ∈ as, p a = false) :
    replaceFirst p f new as = as ++ [new] := by
  induction as with
  | nil => rfl
  | cons a as ih =>
    obtain ⟨ha, has⟩ := List.forall_mem_cons.mp h
    rw [replaceFirst_cons, if_neg (by simp [ha]), ih has, List.cons_append]

theorem getElem?_replaceFirst {i : Nat} {a : α} (hi : as[i]? = some a) (ha : p a = false) :
    (replaceFirst p f new as)[i]? = some a := by
  induction as generalizing i with
  | nil => cases hi
  | cons b as ih =>
    rw [replaceFirst_cons]
    cases i with
    | zero =>
      obtain rfl := Option.some.inj hi
      rw [if_neg (by simp [ha])]
      rfl
    | succ i =>
      split
      · exact hi
      · exact ih hi

theorem length_replaceFirst_le : (replaceFirst p f new as).length ≤ as.length + 1 := by
  induction as with
  | nil => exact Nat.le_refl _
  | cons a as ih =>
    rw [replaceFirst_cons]
    split
    · exact Nat.le_succ _
    · exact Nat.succ_le_succ ih

section Found

variable (hf : ∀ a, p (f a) = p a) (hnew : p new)

include hf hnew

/-- What was replaced or taken in is the first item that fits. -/
theorem find?_replaceFirst : ∃ a, (replaceFirst p f new as).find? p = some a ∧
    (a = new ∨ ∃ b, a = f b) := by
  induction as with
  | nil => exact ⟨new, List.find?_cons_of_pos hnew, .inl rfl⟩
  | cons b as ih =>
    rw [replaceFirst_cons]
    split
    · rename_i hb
      exact ⟨f b, List.find?_cons_of_pos ((hf b).trans hb), .inr ⟨b, rfl⟩⟩
    · rename_i hb
      rw [List.find?_cons_of_neg hb]
      exact ih

/-- The second replacement finds what the first one has left. -/
theorem replaceFirst_replaceFirst (hg : ∀ a, g (f a) = g a) (hnew' : g new = new') :
    replaceFirst p g new' (replaceFirst p f new as) = replaceFirst p g new' as := by
  induction as with
  | nil =>
    change replaceFirst p g new' [new] = [new']
    rw [replaceFirst_cons, if_pos hnew, hnew']
  | cons a as ih =>
    by_cases ha : p a
    · rw [replaceFirst_cons, if_pos ha, replaceFirst_cons, if_pos ((hf a).trans ha), hg,
        replaceFirst_cons, if_pos ha]
    · rw [replaceFirst_cons, if_neg ha, replaceFirst_cons, if_neg ha, ih, replaceFirst_cons,
        if_neg ha]

end Found

theorem map_replaceFirst {β : Type} (h : α → β) {q : β → Bool} {k : β → β}
    (hq : ∀ a, q (h a) = p a) (hk : ∀ a, k (h a) = h (f a)) :
    (replaceFirst p f new as).map h = replaceFirst q k (h new) (as.map h) := by
  induction as with
  | nil => rfl
  | cons a as ih =>
    rw [replaceFirst_cons, List.map_cons, replaceFirst_cons, hq, hk]
    split
    · rfl
    · rw [List.map_cons, ih]

end Replacing

/-! ### Names with markers -/

/-- The name begins with a marker. -/
def isMarked (name : String) : Bool := name.toList.head?.any isMarker

theorem isMarked_bareName (name : String) : isMarked (bareName name) = false := by
  rw [isMarked, bareName, String.toList_ofList]
  cases hrest : name.toList.dropWhile isMarker with
  | nil => rfl
  | cons c cs =>
    have hfirst := List.head_dropWhile_not isMarker (l := name.toList) (by simp [hrest])
    simpa [hrest] using hfirst

theorem isMarked_congr {s t : String} (h : Text.sameAscii s t) : isMarked s = isMarked t := by
  have hlower (cs : List Char) :
      cs.head?.any isMarker = (cs.map Char.toLower).head?.any isMarker := by
    cases cs with
    | nil => rfl
    | cons c cs => exact (isMarker_toLower c).symm
  rw [isMarked, isMarked, hlower, hlower t.toList, (Text.sameAscii_iff s t).mp h]

theorem bareName_of_not_isMarked {name : String} (h : isMarked name = false) :
    bareName name = name := by
  rw [bareName, ← String.toList_inj, String.toList_ofList]
  cases hname : name.toList with
  | nil => rfl
  | cons c cs =>
    rw [isMarked, hname] at h
    exact List.dropWhile_cons_of_neg (Bool.eq_false_iff.mp h)

/-- A parameter that is made under a name without markers has that name. -/
theorem bare_make {name : String} (h : isMarked name = false) (v : Value) (o : Origin) :
    (Parameter.make name v o).bare = name := by
  have hmade : (Parameter.make name v o).name = "@" ++ name := by
    rw [isMarked] at h
    rw [Parameter.make]
    cases hname : name.toList with
    | nil => rfl
    | cons c cs =>
      rw [hname] at h
      exact if_neg (Bool.eq_false_iff.mp h)
  rw [Parameter.bare, hmade]
  calc bareName ("@" ++ name) = bareName name := by simp [bareName, isMarker]
    _ = name := bareName_of_not_isMarked h

/-! ### Items -/

/-- An item of an argument, whatever it is made of. -/
inductive Item
  | property (p : Property)
  | parameter (p : Parameter)
deriving DecidableEq

namespace Item

/-- The name under which the argument exposes the item. -/
def name : Item → String
  | .property p => p.name
  | .parameter p => p.bare

def value : Item → Value
  | .property p => p.value
  | .parameter p => p.value

def withValue (v : Value) : Item → Item
  | .property p => .property { p with value := v }
  | .parameter p => .parameter { p with value := v }

@[simp] theorem name_withValue (v : Value) (i : Item) : (i.withValue v).name = i.name := by
  cases i <;> rfl

@[simp] theorem value_withValue (v : Value) (i : Item) : (i.withValue v).value = v := by
  cases i <;> rfl

end Item

def isParameters : Argument → Bool
  | .parameters _ => true
  | _ => false

def items : Argument → List Item
  | .none => []
  | .properties ps => ps.map .property
  | .parameters ps => ps.map .parameter

/-- The item that an argument takes in under a new name. -/
def newItem (a : Argument) (name : String) (v : Value) : Item :=
  if a.isParameters then .parameter (.make name v .audit) else .property { name, value := v }

theorem items_set (a : Argument) (name : String) (v : Value) :
    (a.set name v).items =
      replaceFirst (Text.sameAscii ·.name name) (·.withValue v) (a.newItem name v) a.items := by
  cases a with
  | none => rfl
  | properties ps => exact map_replaceFirst _ (fun _ ↦ rfl) fun _ ↦ rfl
  | parameters ps => exact map_replaceFirst _ (fun _ ↦ rfl) fun _ ↦ rfl

theorem isParameters_set (a : Argument) (name : String) (v : Value) :
    (a.set name v).isParameters = a.isParameters := by
  cases a <;> rfl

/-- The argument does not find the name again once it has taken it in. -/
def Loses (a : Argument) (name : String) : Prop := a.isParameters ∧ isMarked name

instance (a : Argument) (name : String) : Decidable (a.Loses name) :=
  inferInstanceAs (Decidable (_ ∧ _))

variable {a : Argument} {name : String}

theorem loses_set (v : Value) : (a.set name v).Loses name ↔ a.Loses name := by
  rw [Loses, isParameters_set, Loses]

theorem sameAscii_newItem (h : ¬ a.Loses name) (v : Value) :
    Text.sameAscii (a.newItem name v).name name := by
  rw [newItem]
  split
  · rename_i hparameters
    have hname : isMarked name = false :=
      Bool.eq_false_iff.mpr fun hmarked ↦ h ⟨hparameters, hmarked⟩
    rw [Item.name, bare_make hname]
    exact Text.sameAscii_self name
  · exact Text.sameAscii_self name

/-! ### Setting -/

theorem getElem?_items_set {i : Nat} {item : Item} (hi : a.items[i]? = some item)
    (hname : ¬ Text.sameAscii item.name name) (v : Value) :
    (a.set name v).items[i]? = some item := by
  rw [items_set]
  exact getElem?_replaceFirst hi (Bool.eq_false_iff.mpr hname)

theorem length_items_set_le (a : Argument) (name : String) (v : Value) :
    (a.set name v).items.length ≤ a.items.length + 1 := by
  rw [items_set]
  exact length_replaceFirst_le

theorem value_set (h : ¬ a.Loses name) (v : Value) :
    ((a.set name v).items.find? (Text.sameAscii ·.name name)).map (·.value) = some v := by
  obtain ⟨i, hi, hvalue⟩ : ∃ i, (a.set name v).items.find? (Text.sameAscii ·.name name) = some i ∧
      (i = a.newItem name v ∨ ∃ j, i = Item.withValue v j) := by
    rw [items_set]
    exact find?_replaceFirst (fun i ↦ by simp) (sameAscii_newItem h v)
  obtain rfl | ⟨j, rfl⟩ := hvalue
  · rw [hi, newItem]
    split <;> rfl
  · rw [hi, Option.map_some, Item.value_withValue]

theorem set_set (h : ¬ a.Loses name) (v w : Value) : (a.set name v).set name w = a.set name w := by
  have hnew := sameAscii_newItem h v
  cases a with
  | none => exact congrArg properties (if_pos hnew)
  | properties ps =>
    exact congrArg properties (replaceFirst_replaceFirst (fun _ ↦ rfl) hnew (fun _ ↦ rfl) rfl)
  | parameters ps =>
    exact congrArg parameters (replaceFirst_replaceFirst (fun _ ↦ rfl) hnew (fun _ ↦ rfl) rfl)

/-- No parameter is known by a name that begins with a marker. -/
theorem not_sameAscii_of_loses (h : a.Loses name) {i : Item} (hi : i ∈ a.items) :
    Text.sameAscii i.name name = false := by
  obtain ⟨hparameters, hmarked⟩ := h
  cases a with
  | none => cases hi
  | properties ps => cases hparameters
  | parameters ps =>
    obtain ⟨p, -, rfl⟩ := List.mem_map.mp hi
    refine Bool.eq_false_iff.mpr fun hsame ↦ ?_
    rw [← isMarked_congr hsame] at hmarked
    exact absurd hmarked (Bool.eq_false_iff.mp (isMarked_bareName p.name))

theorem items_set_of_loses (h : a.Loses name) (v : Value) :
    (a.set name v).items = a.items ++ [.parameter (.make name v .audit)] := by
  rw [items_set, replaceFirst_of_none fun _ ↦ not_sameAscii_of_loses h, newItem, if_pos h.1]

/-- A value that is set replaces the one set before under the same name, except that parameters take
in a name that begins with a marker each time and do not find it again. In every case the items of
other names stay as they are, each at its place. -/
theorem set_set_iff (a : Argument) (name : String) (v w : Value) :
    ((a.set name v).set name w = a.set name w ↔ ¬ a.Loses name) ∧
      (((a.set name v).set name w).items.length ≤ a.items.length + 1 ↔ ¬ a.Loses name) ∧
      (((a.set name w).items.find? (Text.sameAscii ·.name name)).map (·.value) = some w ↔
        ¬ a.Loses name) ∧
      ∀ (i : Nat) (item : Item), a.items[i]? = some item → ¬ Text.sameAscii item.name name →
        ((a.set name v).set name w).items[i]? = some item := by
  have hothers (i : Nat) (item : Item) (hi : a.items[i]? = some item)
      (hname : ¬ Text.sameAscii item.name name) :
      ((a.set name v).set name w).items[i]? = some item :=
    getElem?_items_set (getElem?_items_set hi hname v) hname w
  by_cases h : a.Loses name
  · have honce := items_set_of_loses h w
    have htwice := items_set_of_loses ((loses_set v).mpr h) w
    rw [items_set_of_loses h v] at htwice
    refine ⟨iff_of_false (fun hsame ↦ ?_) (not_not_intro h),
      iff_of_false ?_ (not_not_intro h), iff_of_false ?_ (not_not_intro h), hothers⟩
    · rw [hsame, honce] at htwice
      simpa using congrArg List.length htwice
    · rw [htwice]
      simp
    · have hnone : (a.set name w).items.find? (Text.sameAscii ·.name name) = .none :=
        List.find?_eq_none.mpr fun i hi ↦
          Bool.eq_false_iff.mp (not_sameAscii_of_loses ((loses_set w).mpr h) hi)
      simp [hnone]
  · refine ⟨iff_of_true (set_set h v w) h, iff_of_true ?_ h, iff_of_true (value_set h w) h, hothers⟩
    rw [set_set h v w]
    exact length_items_set_le a name w

/-- A parameter `@Id` is there twice when it is set twice, while `Id` is there once. -/
theorem markedName_set_twice :
    ((Argument.parameters []).set "@Id" (.int 1)).set "@Id" (.int 2) ≠
        (Argument.parameters []).set "@Id" (.int 2) ∧
      ((Argument.parameters []).set "Id" (.int 1)).set "Id" (.int 2) =
        (Argument.parameters []).set "Id" (.int 2) :=
  ⟨fun h ↦ absurd (by decide) ((set_set_iff (.parameters []) "@Id" (.int 1) (.int 2)).1.mp h),
    (set_set_iff (.parameters []) "Id" (.int 1) (.int 2)).1.mpr (by decide)⟩

end Argument

end SchemaSql
