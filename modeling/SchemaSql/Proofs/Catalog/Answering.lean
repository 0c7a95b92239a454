import Mathlib.Data.List.Pairwise
import SchemaSql.Catalog.Descriptor
import SchemaSql.Proofs.Text.Lowered

/-!
The names that a column answers to. A name is asked for without the markers in front of it, and is
compared with the column's own name and with its property name, which is its own name cut down to
what an identifier may hold. No cut name begins with a marker, so a column always answers to its
property name. An own name that begins with one is lost in the asking: the column answers to it only
if what is left of it is already an identifier. Whatever name a column answers to is cut down to its
property name, so where property names differ no other column stands in its way.
-/

set_option autoImplicit false
set_option relaxedAutoImplicit false

namespace SchemaSql

/-! ### Characters of names -/

/-- Whether an identifier may begin with the character. -/
def startsName (c : Char) : Bool := c.isAlpha || c == '_'

theorem startsName_toLower (c : Char) : startsName c.toLower = startsName c := by
  rcases toLower_eq_or c with h | ⟨halpha, hlower⟩
  · rw [h]
  · simp [startsName, halpha, hlower]

theorem isPropertyChar_toLower (c : Char) : isPropertyChar c.toLower = isPropertyChar c := by
  rcases toLower_eq_or c with h | ⟨halpha, hlower⟩
  · rw [h]
  · simp [isPropertyChar, Char.isAlphanum, halpha, hlower]

theorem isPropertyChar_of_startsName {c : Char} (h : startsName c) : isPropertyChar c := by
  simp only [startsName, isPropertyChar, Char.isAlphanum, Bool.or_eq_true] at h ⊢
  exact h.imp_left .inl

theorem not_isPropertyChar_of_isMarker {c : Char} (h : isMarker c) :
    isPropertyChar c = false := by
  simp only [isMarker, Bool.or_eq_true, beq_iff_eq] at h
  rcases h with (rfl | rfl) | rfl <;> rfl

theorem toNat_lt_of_isPropertyChar {c : Char} (h : isPropertyChar c) : c.toNat < 128 := by
  simp only [isPropertyChar, Char.isAlphanum, Bool.or_eq_true, beq_iff_eq, isAlpha_iff, isUpper_iff,
    isLower_iff, isDigit_iff] at h
  rcases h with h | rfl
  · omega
  · decide

theorem isMarker_toLower (c : Char) : isMarker c.toLower = isMarker c := by
  rcases toLower_eq_or c with h | ⟨halpha, hlower⟩
  · rw [h]
  · have hnot {c : Char} (hc : c.isAlpha) : isMarker c = false := by
      refine Bool.eq_false_iff.mpr fun hmarker ↦ ?_
      have hname : isPropertyChar c := by simp [isPropertyChar, Char.isAlphanum, hc]
      rw [not_isPropertyChar_of_isMarker hmarker] at hname
      simp at hname
    rw [hnot hlower, hnot halpha]

theorem bareName_congr {s t : String} (h : Text.sameAscii s t) :
    Text.sameAscii (bareName s) (bareName t) := by
  have hlower (cs : List Char) :
      (cs.dropWhile isMarker).map Char.toLower = (cs.map Char.toLower).dropWhile isMarker := by
    rw [List.dropWhile_map]
    exact congrArg (fun p ↦ (cs.dropWhile p).map Char.toLower)
      (funext fun c ↦ (isMarker_toLower c).symm)
  rw [Text.sameAscii_iff] at h ⊢
  simp only [bareName, String.toList_ofList, hlower, h]

/-! ### Property names -/

/-- The characters, behind an underscore if an identifier may not begin with the first of them. -/
def headed : List Char → List Char
  | [] => ['_']
  | c :: cs => if startsName c then c :: cs else '_' :: c :: cs

theorem toList_propertyName (s : String) :
    (propertyName s).toList = headed (s.toList.filter isPropertyChar) := by
  rw [propertyName]
  cases s.toList.filter isPropertyChar with
  | nil => rfl
  | cons c cs =>
    change String.toList (if startsName c then _ else _) = if startsName c then _ else _
    split <;> simp

theorem map_toLower_headed (cs : List Char) :
    (headed cs).map Char.toLower = headed (cs.map Char.toLower) := by
  cases cs with
  | nil => rfl
  | cons c cs =>
    simp only [headed, List.map_cons, startsName_toLower]
    split <;> rfl

/-- A name in another letter case has its property name in another letter case. -/
theorem propertyName_congr {s t : String} (h : Text.sameAscii s t) :
    Text.sameAscii (propertyName s) (propertyName t) := by
  have hlower (cs : List Char) : (cs.filter isPropertyChar).map Char.toLower =
      (cs.map Char.toLower).filter isPropertyChar := by
    rw [List.filter_map]
    exact congrArg (fun p ↦ (cs.filter p).map Char.toLower)
      (funext fun c ↦ (isPropertyChar_toLower c).symm)
  rw [Text.sameAscii_iff] at h ⊢
  rw [toList_propertyName, toList_propertyName, map_toLower_headed, map_toLower_headed, hlower,
    hlower, h]

/-- Markers are no part of a property name. -/
theorem propertyName_bareName (s : String) : propertyName (bareName s) = propertyName s := by
  have hdropped (cs : List Char) :
      (cs.dropWhile isMarker).filter isPropertyChar = cs.filter isPropertyChar := by
    induction cs with
    | nil => rfl
    | cons c cs ih =>
      by_cases hc : isMarker c
      · rw [List.dropWhile_cons_of_pos hc, ih,
          List.filter_cons_of_neg (by simp [not_isPropertyChar_of_isMarker hc])]
      · rw [List.dropWhile_cons_of_neg hc]
  rw [← String.toList_inj, toList_propertyName, toList_propertyName, bareName,
    String.toList_ofList, hdropped]

/-- An identifier: letters, digits and underscores, of which no digit is the first. -/
def IsPropertyName (s : String) : Prop :=
  s.toList.all isPropertyChar ∧ s.toList.head?.any startsName

instance (s : String) : Decidable (IsPropertyName s) :=
  inferInstanceAs (Decidable (_ ∧ _))

theorem isPropertyName_propertyName (s : String) : IsPropertyName (propertyName s) := by
  rw [IsPropertyName, toList_propertyName, List.all_eq_true]
  have hkept : ∀ c ∈ s.toList.filter isPropertyChar, isPropertyChar c :=
    fun c hc ↦ (List.mem_filter.mp hc).2
  cases hcs : s.toList.filter isPropertyChar with
  | nil => exact ⟨List.forall_mem_singleton.mpr rfl, rfl⟩
  | cons c cs =>
    rw [hcs] at hkept
    rw [headed]
    split
    · rename_i hstart
      exact ⟨hkept, hstart⟩
    · exact ⟨List.forall_mem_cons.mpr ⟨rfl, hkept⟩, rfl⟩

theorem propertyName_eq_self_iff (s : String) : propertyName s = s ↔ IsPropertyName s := by
  constructor
  · intro h
    rw [← h]
    exact isPropertyName_propertyName s
  · rintro ⟨hchars, hhead⟩
    rw [← String.toList_inj, toList_propertyName,
      List.filter_eq_self.mpr (List.all_eq_true.mp hchars)]
    cases hs : s.toList with
    | nil => simp [hs] at hhead
    | cons c cs =>
      rw [hs] at hhead
      exact if_pos hhead

theorem IsPropertyName.of_sameAscii {s t : String} (hs : IsPropertyName s)
    (h : Text.sameAscii s t) : IsPropertyName t := by
  have hall (cs : List Char) :
      cs.all isPropertyChar = (cs.map Char.toLower).all isPropertyChar := by
    rw [List.all_map]
    exact congrArg cs.all (funext fun c ↦ (isPropertyChar_toLower c).symm)
  have hany (cs : List Char) :
      cs.head?.any startsName = (cs.map Char.toLower).head?.any startsName := by
    cases cs with
    | nil => rfl
    | cons c cs => exact (startsName_toLower c).symm
  rw [Text.sameAscii_iff] at h
  rw [IsPropertyName, hall, hany] at hs ⊢
  rwa [← h]

theorem IsPropertyName.bareName_eq {s : String} (hs : IsPropertyName s) : bareName s = s := by
  rw [bareName, ← String.toList_inj, String.toList_ofList]
  obtain ⟨-, hhead⟩ := hs
  cases hcs : s.toList with
  | nil => rfl
  | cons c cs =>
    rw [hcs] at hhead
    refine List.dropWhile_cons_of_neg fun hmarker ↦ ?_
    have hname := isPropertyChar_of_startsName hhead
    rw [not_isPropertyChar_of_isMarker hmarker] at hname
    simp at hname

/-! ### Columns -/

namespace Column

/-- A column whose property name is made of its own name. -/
def Derived (c : Column) : Prop := c.property = propertyName c.name

instance (c : Column) : Decidable c.Derived := inferInstanceAs (Decidable (_ = _))

/-- A column whose own name is not lost when it is asked for: no marker stands in front of it, or
what stands behind the markers is an identifier. -/
def Sayable (c : Column) : Prop := bareName c.name = c.name ∨ IsPropertyName (bareName c.name)

instance (c : Column) : Decidable c.Sayable := inferInstanceAs (Decidable (_ ∨ _))

variable {c : Column} {name : String}

/-- A name that a column answers to has the property name of the column. -/
theorem sameAscii_propertyName (hc : c.Derived) (h : c.answersTo name) :
    Text.sameAscii c.property (propertyName name) := by
  rw [answersTo, Bool.or_eq_true] at h
  rw [← propertyName_bareName name]
  rcases h with hown | hproperty
  · rw [hc]
    exact propertyName_congr hown
  · have hidentifier : propertyName c.property = c.property := by
      rw [propertyName_eq_self_iff, hc]
      exact isPropertyName_propertyName c.name
    rw [← hidentifier]
    exact propertyName_congr hproperty

theorem answersTo_of_property (hc : c.Derived) (hname : Text.sameAscii c.property name) :
    c.answersTo name := by
  have hidentifier : IsPropertyName c.property := hc ▸ isPropertyName_propertyName c.name
  rw [answersTo, (hidentifier.of_sameAscii hname).bareName_eq, hname, Bool.or_true]

theorem answersTo_own_iff (hc : c.Derived) (hname : Text.sameAscii c.name name) :
    c.answersTo name ↔ c.Sayable := by
  have hbare := bareName_congr hname
  have hsame (s : String) :
      Text.sameAscii s (bareName name) = Text.sameAscii s (bareName c.name) := by
    rw [Text.sameAscii, Text.sameAscii, (Text.sameAscii_iff _ _).mp hbare]
  rw [answersTo, Bool.or_eq_true, hsame, hsame, Sayable]
  refine or_congr ⟨fun h ↦ ?_, fun h ↦ by rw [h]; exact Text.sameAscii_self _⟩ ⟨fun h ↦ ?_, fun h ↦ ?_⟩
  · -- Nothing was taken off a name that is as long as before.
    have hlength := congrArg List.length ((Text.sameAscii_iff _ _).mp h)
    rw [List.length_map, List.length_map] at hlength
    have hsuffix : (bareName c.name).toList <:+ c.name.toList := by
      rw [bareName, String.toList_ofList]
      exact List.dropWhile_suffix _
    exact String.toList_inj.mp (hsuffix.eq_of_length hlength.symm)
  · have hidentifier : IsPropertyName c.property := hc ▸ isPropertyName_propertyName c.name
    exact hidentifier.of_sameAscii h
  · rw [hc, ← propertyName_bareName, (propertyName_eq_self_iff _).mpr h]
    exact Text.sameAscii_self _

end Column

/-- Columns have property names made of their own names, and no two of them the same one. -/
structure Table.Apart (t : Table) : Prop where
  derived : ∀ c ∈ t.columns, c.Derived
  distinct : t.columns.Pairwise fun c c' ↦ ¬ Text.sameAscii c.property c'.property

namespace Table.Apart

variable {t : Table} {c c' : Column} {name : String}

theorem eq_of_sameAscii (h : t.Apart) (hc : c ∈ t.columns) (hc' : c' ∈ t.columns)
    (hsame : Text.sameAscii c.property c'.property) : c = c' := by
  have hsymm : Std.Symm fun a b : Column ↦ ¬ Text.sameAscii a.property b.property :=
    ⟨fun a b hab ↦ by rwa [Text.sameAscii_comm]⟩
  by_contra hne
  exact h.distinct.forall hc hc' hne hsame

theorem nodup (h : t.Apart) : t.columns.Nodup :=
  h.distinct.imp fun {c c'} hdistinct (heq : c = c') ↦ hdistinct (heq ▸ Text.sameAscii_self _)

/-- Only one column answers to a name that has the property name of a column. -/
theorem eq_of_answersTo (h : t.Apart) (hc : c ∈ t.columns) (hc' : c' ∈ t.columns)
    (hname : Text.sameAscii c.property (propertyName name)) (hanswers : c'.answersTo name) :
    c' = c := by
  refine h.eq_of_sameAscii hc' hc ?_
  have hproperty := Column.sameAscii_propertyName (h.derived c' hc') hanswers
  rw [Text.sameAscii, (Text.sameAscii_iff _ _).mp hproperty, (Text.sameAscii_iff _ _).mp hname]
  exact beq_self_eq_true _

/-- A name that has the property name of a column means that column or none. -/
theorem column?_eq_some_iff (h : t.Apart) (hc : c ∈ t.columns)
    (hname : Text.sameAscii c.property (propertyName name)) :
    t.column? name = some c ↔ c.answersTo name := by
  refine ⟨fun hfound ↦ by simpa using List.find?_some hfound, fun hanswers ↦ ?_⟩
  cases hfound : t.column? name with
  | none => exact absurd hanswers (List.find?_eq_none.mp hfound c hc)
  | some c' =>
    rw [h.eq_of_answersTo hc (List.mem_of_find?_eq_some hfound) hname
      (by simpa using List.find?_some hfound)]

theorem column?_eq_none (h : t.Apart) (hc : c ∈ t.columns)
    (hname : Text.sameAscii c.property (propertyName name)) (hnot : ¬ c.answersTo name) :
    t.column? name = none := by
  refine List.find?_eq_none.mpr fun c' hc' hanswers ↦ hnot ?_
  rwa [← h.eq_of_answersTo hc hc' hname hanswers]

/-- A column is found by its own name exactly if that name is not lost. -/
theorem isSome_column?_own_iff (h : t.Apart) (hc : c ∈ t.columns) :
    (t.column? c.name).isSome ↔ c.Sayable := by
  have hderived := h.derived c hc
  have hname : Text.sameAscii c.property (propertyName c.name) := by
    rw [hderived]
    exact Text.sameAscii_self _
  rw [← Column.answersTo_own_iff hderived (Text.sameAscii_self c.name)]
  by_cases hanswers : c.answersTo c.name
  · rw [(h.column?_eq_some_iff hc hname).mpr hanswers]
    exact iff_of_true rfl hanswers
  · rw [h.column?_eq_none hc hname hanswers]
    exact iff_of_false (by simp) hanswers

end Table.Apart

end SchemaSql
