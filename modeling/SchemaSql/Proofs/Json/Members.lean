import SchemaSql.Json.Basic
import SchemaSql.Proofs.Text.Ordered

/-!
The members of an object. They are put in the order of their names, and of several members with one
name the last stands for all of them: an object has one member of every name that is written in it,
with the value that is written last.
-/

set_option autoImplicit false
set_option relaxedAutoImplicit false

namespace SchemaSql.Json

/-- The members are in the order of their names, so that no two have the same. -/
def Ordered (members : List (String × Json)) : Prop :=
  members.Pairwise fun m m' ↦ Text.precedes m.1.toList m'.1.toList

section Inserted

variable {members : List (String × Json)} {name other : String} {value : Json}

theorem ne_of_precedes (h : Text.precedes name.toList other.toList) : name ≠ other := by
  rintro rfl
  rw [Text.precedes_self] at h
  cases h

theorem precedes_of_not (hne : name ≠ other) (h : ¬ Text.precedes name.toList other.toList) :
    Text.precedes other.toList name.toList :=
  eq_true_of_ne_false fun hnot ↦ hne (String.toList_inj.mp
    (Text.eq_of_not_precedes (Bool.eq_false_iff.mpr h) hnot))

theorem mem_insertMember {m : String × Json} (h : m ∈ insertMember name value members) :
    m.1 = name ∨ m ∈ members := by
  induction members with
  | nil => exact .inl (congrArg Prod.fst (List.mem_singleton.mp h))
  | cons first rest ih =>
    obtain ⟨n, v⟩ := first
    rw [insertMember] at h
    split at h
    · rename_i hn
      rcases List.mem_cons.mp h with rfl | h
      · exact .inl (eq_of_beq hn)
      · exact .inr (List.mem_cons_of_mem _ h)
    · split at h
      · rcases List.mem_cons.mp h with rfl | h
        · exact .inl rfl
        · exact .inr h
      · rcases List.mem_cons.mp h with rfl | h
        · exact .inr List.mem_cons_self
        · exact (ih h).imp_right (List.mem_cons_of_mem _)

theorem Ordered.insertMember (h : Ordered members) (name : String) (value : Json) :
    Ordered (insertMember name value members) := by
  induction members with
  | nil => exact List.pairwise_singleton _ _
  | cons first rest ih =>
    obtain ⟨n, v⟩ := first
    obtain ⟨hfirst, hrest⟩ := List.pairwise_cons.mp h
    rw [Json.insertMember]
    split
    · exact List.pairwise_cons.mpr ⟨hfirst, hrest⟩
    · rename_i hne
      split
      · rename_i hbefore
        refine List.pairwise_cons.mpr ⟨List.forall_mem_cons.mpr ⟨hbefore, fun m hm ↦ ?_⟩, h⟩
        exact Text.precedes_trans hbefore (hfirst m hm)
      · rename_i hnot
        refine List.pairwise_cons.mpr ⟨fun m hm ↦ ?_, ih hrest⟩
        rcases mem_insertMember hm with hname | hm
        · rw [hname]
          exact precedes_of_not (fun hsame ↦ hne (beq_iff_eq.mpr hsame.symm)) hnot
        · exact hfirst m hm

/-- No member behind the place of a name has that name. -/
theorem filter_eq_nil_of_precedes (h : ∀ m ∈ members, Text.precedes name.toList m.1.toList) :
    members.filter (·.1 = name) = [] :=
  List.filter_eq_nil_iff.mpr fun m hm ↦ by simpa using (ne_of_precedes (h m hm)).symm

theorem filter_insertMember_self (h : Ordered members) :
    (insertMember name value members).filter (·.1 = name) = [(name, value)] := by
  induction members with
  | nil => simp [insertMember]
  | cons first rest ih =>
    obtain ⟨n, v⟩ := first
    obtain ⟨hfirst, hrest⟩ := List.pairwise_cons.mp h
    rw [insertMember]
    split
    · rename_i hn
      obtain rfl := eq_of_beq hn
      rw [List.filter_cons_of_pos (by simp), filter_eq_nil_of_precedes hfirst]
    · rename_i hne
      split
      · rename_i hbefore
        rw [List.filter_cons_of_pos (by simp), filter_eq_nil_of_precedes]
        exact List.forall_mem_cons.mpr
          ⟨hbefore, fun m hm ↦ Text.precedes_trans hbefore (hfirst m hm)⟩
      · rw [List.filter_cons_of_neg (by simpa using hne), ih hrest]

theorem filter_insertMember_ne (hne : name ≠ other) :
    (insertMember name value members).filter (·.1 = other) = members.filter (·.1 = other) := by
  induction members with
  | nil => simp [insertMember, hne]
  | cons first rest ih =>
    obtain ⟨n, v⟩ := first
    rw [insertMember]
    split
    · rename_i hn
      obtain rfl := eq_of_beq hn
      rw [List.filter_cons_of_neg (by simpa using hne), List.filter_cons_of_neg (by simpa using hne)]
    · split
      · rw [List.filter_cons_of_neg (by simpa using hne)]
      · rw [List.filter_cons, List.filter_cons, ih]

end Inserted

/-! ### Reading -/

/-- The last of the written members with a name has the value. -/
inductive Governs (name : String) (d : Document) : List (List TextUnit × Document) → Prop
  | last {key : List TextUnit} {members : List (List TextUnit × Document)}
    (hkey : textOf? key = some name) (hlater : ∀ m ∈ members, textOf? m.1 ≠ some name) :
    Governs name d ((key, d) :: members)
  | later {m : List TextUnit × Document} {members : List (List TextUnit × Document)}
    (h : Governs name d members) : Governs name d (m :: members)

variable {depth : Nat} {name : String} {members : List (List TextUnit × Document)}
  {read out : List (String × Json)}

theorem membersOf?_cons_eq_some {m : List TextUnit × Document} :
    membersOf? depth (m :: members) read = some out ↔
      ∃ n v, textOf? m.1 = some n ∧ ofDocument? depth m.2 = some v ∧
        membersOf? depth members (insertMember n v read) = some out := by
  obtain ⟨key, d⟩ := m
  simp [membersOf?, Option.bind_eq_some_iff]

theorem filter_membersOf?_of_unnamed (hname : ∀ m ∈ members, textOf? m.1 ≠ some name)
    (h : membersOf? depth members read = some out) :
    out.filter (·.1 = name) = read.filter (·.1 = name) := by
  induction members generalizing read with
  | nil =>
    obtain rfl := Option.some.inj h
    rfl
  | cons m members ih =>
    obtain ⟨hfirst, hrest⟩ := List.forall_mem_cons.mp hname
    obtain ⟨n, v, hn, -, h⟩ := membersOf?_cons_eq_some.mp h
    rw [ih hrest h, filter_insertMember_ne]
    rintro rfl
    exact hfirst hn

/-- An object has one member of a written name, with the value that is written last. -/
theorem Governs.filter_membersOf? {d : Document} (hgoverns : Governs name d members)
    (hread : Ordered read) (h : membersOf? depth members read = some out) :
    ∃ v, ofDocument? depth d = some v ∧ out.filter (·.1 = name) = [(name, v)] := by
  induction hgoverns generalizing read with
  | last hkey hlater =>
    obtain ⟨n, v, hn, hv, h⟩ := membersOf?_cons_eq_some.mp h
    obtain rfl := Option.some.inj (hkey.symm.trans hn)
    exact ⟨v, hv, by rw [filter_membersOf?_of_unnamed hlater h, filter_insertMember_self hread]⟩
  | later hgoverns ih =>
    obtain ⟨n, v, -, -, h⟩ := membersOf?_cons_eq_some.mp h
    exact ih (hread.insertMember n v) h

/-- The members are read if every one is. -/
theorem membersOf?_isSome_iff : (membersOf? depth members read).isSome ↔
    ∀ m ∈ members, (textOf? m.1).isSome ∧ (ofDocument? depth m.2).isSome := by
  induction members generalizing read with
  | nil => simp [membersOf?]
  | cons m members ih =>
    rw [List.forall_mem_cons, Option.isSome_iff_exists]
    constructor
    · rintro ⟨out, hout⟩
      obtain ⟨n, v, hn, hv, hout⟩ := membersOf?_cons_eq_some.mp hout
      exact ⟨⟨Option.isSome_of_eq_some hn, Option.isSome_of_eq_some hv⟩,
        ih.mp (Option.isSome_of_eq_some hout)⟩
    · rintro ⟨⟨hn, hv⟩, hrest⟩
      obtain ⟨n, hn⟩ := Option.isSome_iff_exists.mp hn
      obtain ⟨v, hv⟩ := Option.isSome_iff_exists.mp hv
      obtain ⟨out, hout⟩ : ∃ out, membersOf? depth members (insertMember n v read) = some out :=
        Option.isSome_iff_exists.mp (ih.mpr hrest)
      exact ⟨out, membersOf?_cons_eq_some.mpr ⟨n, v, hn, hv, hout⟩⟩

end SchemaSql.Json
