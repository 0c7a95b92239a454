import SchemaSql.Catalog.Cache

/-!
Shelves of reports over a static list of items. An item that bears a name is found under every name
that is the same; one that is only meant by a name may not be, since names are the same in any
letter case while the meaning of a name without a schema minds the case of letters beyond ASCII. A
shelf does not tell names apart that are the same, so what it reports is what the list has if the
list is `Steady` under the names that are asked for.
-/

set_option autoImplicit false
set_option relaxedAutoImplicit false

namespace SchemaSql

/-! ### Names that are the same -/

namespace ObjectName

theorem same_symm {a b : ObjectName} (h : a.same b) : b.same a :=
  (same_iff b a).mpr ((same_iff a b).mp h).symm

theorem same_congr {a b : ObjectName} (h : a.same b) (c : ObjectName) : c.same a = c.same b := by
  rw [same, same, (same_iff a b).mp h]

theorem isNone_schema_of_same {a b : ObjectName} (h : a.same b) :
    a.schema.isNone = b.schema.isNone := by
  have hschema := congrArg (fun f ↦ f.1.isNone) ((same_iff a b).mp h)
  simpa [folded] using hschema

end ObjectName

/-! ### Lookups in a list -/

namespace Schema

variable {α : Type} {nameOf : α → ObjectName} {items : List α} {k k' : ObjectName} {a b : α}

theorem lookup?_of_bears (h : items.find? (fun i ↦ (nameOf i).same k) = some a) :
    lookup? nameOf items k = some a := by
  rw [lookup?, h]

/-- Names that are the same are borne by the same first item. -/
theorem lookup?_congr (hsame : k.same k')
    (h : items.find? (fun i ↦ (nameOf i).same k) = some a) :
    lookup? nameOf items k' = lookup? nameOf items k := by
  have h' : items.find? (fun i ↦ (nameOf i).same k') = some a := by
    rw [← h]
    exact congrArg (List.find? · items) (funext fun i ↦ (ObjectName.same_congr hsame _).symm)
  rw [lookup?_of_bears h', lookup?_of_bears h]

theorem bears_of_mem (nameOf : α → ObjectName) (ha : a ∈ items) :
    ∃ b, items.find? (fun i ↦ (nameOf i).same (nameOf a)) = some b :=
  Option.isSome_iff_exists.mp (List.find?_isSome.mpr ⟨a, ha, ObjectName.same_self _⟩)

theorem mem_of_lookup? (h : lookup? nameOf items k = some a) : a ∈ items := by
  rw [lookup?] at h
  split at h
  · rename_i hbears
    exact Option.some.inj h ▸ List.mem_of_find?_eq_some hbears
  · exact List.mem_of_find?_eq_some h

/-- The item that is found by the own name of one has the same name. -/
theorem same_of_lookup?_own (ha : a ∈ items) (h : lookup? nameOf items (nameOf a) = some b) :
    (nameOf b).same (nameOf a) := by
  obtain ⟨b', hb'⟩ := bears_of_mem nameOf ha
  rw [lookup?_of_bears hb'] at h
  obtain rfl := Option.some.inj h
  simpa using List.find?_some hb'

/-- All names that are the same as the own name of an item find the same. -/
theorem lookup?_of_same_own (ha : a ∈ items) (h : k.same (nameOf a)) :
    lookup? nameOf items k = lookup? nameOf items (nameOf a) := by
  obtain ⟨b, hb⟩ := bears_of_mem nameOf ha
  exact lookup?_congr (ObjectName.same_symm h) hb

end Schema

/-! ### Steady lists -/

section Steady

variable {α : Type} (nameOf : α → ObjectName) (items : List α)

/-- Some names, or the own name of an item. -/
def WithOwn (names : ObjectName → Prop) (k : ObjectName) : Prop :=
  names k ∨ ∃ a ∈ items, nameOf a = k

/-- Under some names, those that are the same find the same, and what is found is found again by its
own name. -/
structure Steady (names : ObjectName → Prop) : Prop where
  same : ∀ k k', names k → names k' → k.same k' →
    Schema.lookup? nameOf items k = Schema.lookup? nameOf items k'
  own : ∀ k a, names k → Schema.lookup? nameOf items k = some a →
    Schema.lookup? nameOf items (nameOf a) = some a

variable {nameOf items} {names : ObjectName → Prop}

/-- A list that is steady under some names is so under the own names of its items too. -/
theorem Steady.withOwn (h : Steady nameOf items names) :
    Steady nameOf items (WithOwn nameOf items names) where
  same k k' hk hk' hsame := by
    rcases hk with hk | ⟨a, ha, rfl⟩
    · rcases hk' with hk' | ⟨a, ha, rfl⟩
      · exact h.same k k' hk hk' hsame
      · exact Schema.lookup?_of_same_own ha hsame
    · exact (Schema.lookup?_of_same_own ha (ObjectName.same_symm hsame)).symm
  own k a hk ha := by
    rcases hk with hk | ⟨b, hb, rfl⟩
    · exact h.own k a hk ha
    · rw [Schema.lookup?_of_same_own hb (Schema.same_of_lookup?_own hb ha), ha]

/-- Every list is steady under the own names of its items. -/
theorem Steady.ofOwn : Steady nameOf items (WithOwn nameOf items fun _ ↦ False) :=
  Steady.withOwn ⟨fun _ _ hk ↦ hk.elim, fun _ _ hk ↦ hk.elim⟩

end Steady

/-! ### Shelves -/

namespace Shelf

variable {α : Type} {nameOf : α → ObjectName} {items : List α} {names : ObjectName → Prop}
  {s : Shelf α} {k : ObjectName} {a : α}

/-- What is on a shelf after a name was asked for, and what is reported. -/
def fetch (nameOf : α → ObjectName) (items : List α) (s : Shelf α) (k : ObjectName) :
    Shelf α × Option α :=
  match s.get? k with
  | some a => (s, some a)
  | none =>
    match Schema.lookup? nameOf items k with
    | none => (s, none)
    | some a =>
      let (kept, a) := s.store [k, nameOf a] a
      (kept, some a)

/-- What the shelf keeps under a name, the list has under all names that are the same. -/
def Faithful (nameOf : α → ObjectName) (items : List α) (names : ObjectName → Prop)
    (s : Shelf α) : Prop :=
  ∀ e ∈ s, ∀ k, names k → e.1.same k → Schema.lookup? nameOf items k = some e.2

theorem Faithful.nil : Faithful nameOf items names ([] : Shelf α) := by
  simp [Faithful]

theorem exists_of_get? (h : s.get? k = some a) : ∃ e ∈ s, e.1.same k ∧ e.2 = a := by
  obtain ⟨e, he, rfl⟩ := Option.map_eq_some_iff.mp h
  have hsame : e.1.same k = true := by simpa using List.find?_some he
  exact ⟨e, List.mem_of_find?_eq_some he, hsame, rfl⟩

theorem Faithful.get? (h : s.Faithful nameOf items names) (hk : names k)
    (ha : s.get? k = some a) : Schema.lookup? nameOf items k = some a := by
  obtain ⟨e, he, hsame, rfl⟩ := exists_of_get? ha
  exact h e he k hk hsame

theorem mem_keep {e : ObjectName × α} (h : e ∈ s.keep k a) : e ∈ s ∨ e = (k, a) := by
  rw [Shelf.keep] at h
  split at h
  · exact .inl h
  · exact (List.mem_append.mp h).imp_right List.mem_singleton.mp

theorem Faithful.keep (h : s.Faithful nameOf items names)
    (ha : ∀ k', names k' → k.same k' → Schema.lookup? nameOf items k' = some a) :
    (s.keep k a).Faithful nameOf items names := by
  intro e he
  rcases mem_keep he with he | rfl
  · exact h e he
  · exact ha

theorem store_single (hk : s.get? k = none) (a : α) : s.store [k] a = (s.keep k a, a) := by
  simp [store, hk]

/-- The report that a shelf keeps under a new name and the own name of the item. -/
theorem store_pair (hk : s.get? k = none) (n : ObjectName) (a : α) :
    s.store [k, n] a =
      ((s.keep k ((s.get? n).getD a)).keep n ((s.get? n).getD a), (s.get? n).getD a) := by
  have hfirst : [k, n].findSome? s.get? = s.get? n := by
    cases hn : s.get? n <;> simp [hk, hn]
  simp [store, hfirst]

/-- A faithful shelf over a steady list reports what the list has, and stays faithful. -/
theorem Faithful.fetch (h : s.Faithful nameOf items names) (hsteady : Steady nameOf items names)
    (hown : ∀ a ∈ items, names (nameOf a)) (hk : names k) :
    (s.fetch nameOf items k).2 = Schema.lookup? nameOf items k ∧
      (s.fetch nameOf items k).1.Faithful nameOf items names := by
  rw [Shelf.fetch]
  cases hget : s.get? k with
  | some a => exact ⟨(h.get? hk hget).symm, h⟩
  | none =>
    cases hlookup : Schema.lookup? nameOf items k with
    | none => exact ⟨rfl, h⟩
    | some a =>
      have hname : names (nameOf a) := hown a (Schema.mem_of_lookup? hlookup)
      have hagain := hsteady.own k a hk hlookup
      -- What is kept under the item's own name can only be the item.
      have hkept : (s.get? (nameOf a)).getD a = a := by
        cases hfound : s.get? (nameOf a) with
        | none => rfl
        | some b =>
          rw [h.get? hname hfound] at hagain
          exact Option.some.inj hagain
      simp only [store_pair hget, hkept]
      refine ⟨trivial, (h.keep fun k' hk' hsame ↦ ?_).keep fun k' hk' hsame ↦ ?_⟩
      · rw [← hsteady.same k k' hk hk' hsame, hlookup]
      · rw [← hsteady.same _ k' hname hk' hsame, hagain]

/-- A new shelf keeps what it reports under every name that is the same. -/
theorem get?_fetch_nil {k' : ObjectName} (h : Schema.lookup? nameOf items k = some a)
    (hsame : k.same k') : (fetch nameOf items [] k).1.get? k' = some a := by
  have hnil : get? ([] : Shelf α) k = none := rfl
  have hfirst (n : ObjectName) : get? (keep [(k, a)] n a) k' = some a := by
    rw [Shelf.keep]
    split <;> simp [get?, hsame]
  rw [fetch, hnil]
  simp only [h, store_pair hnil]
  exact hfirst _

theorem fetch_nil (nameOf : α → ObjectName) (items : List α) (k : ObjectName) :
    (fetch nameOf items [] k).2 = Schema.lookup? nameOf items k := by
  have hnil : get? ([] : Shelf α) k = none := rfl
  rw [fetch, hnil]
  cases Schema.lookup? nameOf items k with
  | none => rfl
  | some a =>
    simp only [store_pair hnil]
    rfl

/-- A shelf with nothing but items under their own names, certain items among them. -/
structure Stocked (nameOf : α → ObjectName) (items as : List α) (s : Shelf α) : Prop where
  faithful : s.Faithful nameOf items (WithOwn nameOf items fun _ ↦ False)
  keys : ∀ e ∈ s, ∃ a ∈ items, nameOf a = e.1
  all : ∀ a ∈ as, (s.get? (nameOf a)).isSome

/-- A shelf with all items reports what stands under the own name of what a name means. -/
theorem Stocked.fetch (hs : s.Stocked nameOf items items)
    (h : Schema.lookup? nameOf items k = some a) :
    (s.fetch nameOf items k).2 = Schema.lookup? nameOf items (nameOf a) := by
  have ha := Schema.mem_of_lookup? h
  rw [Shelf.fetch]
  cases hget : s.get? k with
  | some b =>
    obtain ⟨e, he, hsame, rfl⟩ := exists_of_get? hget
    obtain ⟨c, hc, hkey⟩ := hs.keys e he
    have hown := hs.faithful e he e.1 (.inr ⟨c, hc, hkey⟩) (ObjectName.same_self _)
    rw [← hkey] at hsame hown
    rw [Schema.lookup?_of_same_own hc (ObjectName.same_symm hsame)] at h
    rw [Schema.lookup?_of_same_own hc (Schema.same_of_lookup?_own hc h), hown]
  | none =>
    obtain ⟨b, hb⟩ := Option.isSome_iff_exists.mp (hs.all a ha)
    simp only [h, store_pair hget, hb, Option.getD_some]
    exact (hs.faithful.get? (.inr ⟨a, ha, rfl⟩) hb).symm

/-! ### Stocking a shelf -/

theorem isSome_get?_keep (n : ObjectName) (a : α) (h : (s.get? k).isSome) :
    ((s.keep n a).get? k).isSome := by
  rw [Shelf.keep]
  split
  · exact h
  · simp only [get?, Option.isSome_map] at h ⊢
    simp [List.find?_append, h]

theorem isSome_get?_keep_self (s : Shelf α) (k : ObjectName) (a : α) :
    ((s.keep k a).get? k).isSome := by
  rw [Shelf.keep]
  split
  · assumption
  · simp [get?, List.find?_append, ObjectName.same_self]

/-- What a shelf reports stays on it, and so does what it reported before. -/
theorem isSome_get?_fetch {n : ObjectName}
    (h : (s.get? n).isSome ∨ n = k ∧ (Schema.lookup? nameOf items k).isSome) :
    ((s.fetch nameOf items k).1.get? n).isSome := by
  rw [fetch]
  cases hget : s.get? k with
  | some a =>
    rcases h with h | ⟨rfl, -⟩
    · exact h
    · exact Option.isSome_iff_exists.mpr ⟨a, hget⟩
  | none =>
    cases hlookup : Schema.lookup? nameOf items k with
    | none =>
      rw [hlookup] at h
      simpa using h
    | some a =>
      simp only [store_pair hget]
      refine isSome_get?_keep _ _ ?_
      rcases h with h | ⟨rfl, -⟩
      · exact isSome_get?_keep _ _ h
      · exact isSome_get?_keep_self s n _

theorem keys_fetch {e : ObjectName × α} (h : e ∈ (s.fetch nameOf items k).1) :
    e ∈ s ∨ e.1 = k ∨ ∃ a ∈ items, nameOf a = e.1 := by
  rw [fetch] at h
  cases hget : s.get? k with
  | some a =>
    rw [hget] at h
    exact .inl h
  | none =>
    cases hlookup : Schema.lookup? nameOf items k with
    | none =>
      simp only [hget, hlookup] at h
      exact .inl h
    | some a =>
      simp only [hget, hlookup, store_pair hget] at h
      rcases mem_keep h with h | rfl
      · exact (mem_keep h).imp_right fun he ↦ .inl (congrArg (·.1) he)
      · exact .inr (.inr ⟨a, Schema.mem_of_lookup? hlookup, rfl⟩)

/-- What is on a shelf after names were asked for one after another. -/
def fetchAll (nameOf : α → ObjectName) (items : List α) (s : Shelf α) (ks : List ObjectName) :
    Shelf α :=
  ks.foldl (fun s k ↦ (s.fetch nameOf items k).1) s

theorem Stocked.nil : Stocked nameOf items [] ([] : Shelf α) :=
  ⟨.nil, by simp, by simp⟩

/-- Asking for an item by its own name adds it to those on the shelf. -/
theorem Stocked.add {as : List α} (hs : s.Stocked nameOf items as) (ha : a ∈ items) :
    (s.fetch nameOf items (nameOf a)).1.Stocked nameOf items (as ++ [a]) where
  faithful := (hs.faithful.fetch .ofOwn (fun b hb ↦ .inr ⟨b, hb, rfl⟩) (.inr ⟨a, ha, rfl⟩)).2
  keys e he := by
    rcases keys_fetch he with he | he | he
    · exact hs.keys e he
    · exact ⟨a, ha, he.symm⟩
    · exact he
  all b hb := by
    rcases List.mem_append.mp hb with hb | hb
    · exact isSome_get?_fetch (.inl (hs.all b hb))
    · obtain rfl := List.mem_singleton.mp hb
      obtain ⟨c, hc⟩ := Schema.bears_of_mem nameOf ha
      refine isSome_get?_fetch (.inr ⟨rfl, ?_⟩)
      rw [Schema.lookup?_of_bears hc]
      rfl

theorem Stocked.fetchAll {as : List α} (hs : s.Stocked nameOf items as) (bs : List α)
    (hbs : ∀ b ∈ bs, b ∈ items) :
    (s.fetchAll nameOf items (bs.map nameOf)).Stocked nameOf items (as ++ bs) := by
  induction bs generalizing s as with
  | nil => exact (List.append_nil as).symm ▸ hs
  | cons b bs ih =>
    obtain ⟨hb, hbs⟩ := List.forall_mem_cons.mp hbs
    have hrest := ih (hs.add hb) hbs
    rwa [List.append_assoc, List.singleton_append] at hrest

/-- Once every item was asked for by its own name, a new shelf has them all. -/
theorem stocked_fetchAll (nameOf : α → ObjectName) (items : List α) :
    (fetchAll nameOf items [] (items.map nameOf)).Stocked nameOf items items :=
  Stocked.nil.fetchAll items fun _ h ↦ h

end Shelf

/-! ### Names that differ in ASCII letters only -/

namespace Text

theorem lowerAfter_of_ascii (before cs : List Char) (h : ∀ c ∈ cs, c.toNat < 128) :
    lowerAfter before cs = cs.map Char.toLower := by
  induction cs generalizing before with
  | nil => rfl
  | cons c cs ih =>
    obtain ⟨hc, hcs⟩ := List.forall_mem_cons.mp h
    have hdotted : (c.toNat == 0x130) = false := by rw [beq_eq_false_iff_ne]; omega
    have hsigma : (c.toNat == 0x3A3) = false := by rw [beq_eq_false_iff_ne]; omega
    simp [lowerAfter, lowerChar, hdotted, hsigma, hc, ih (c :: before) hcs]

/-- Texts of ASCII characters whose lowercase forms are equal differ in the case of ASCII letters
only. -/
theorem sameAscii_of_lowercase {s t : String} (hs : ∀ c ∈ s.toList, c.toNat < 128)
    (ht : ∀ c ∈ t.toList, c.toNat < 128) (h : lowercase s = lowercase t) : sameAscii s t := by
  rw [lowercase, lowercase, lowerChars, lowerChars, lowerAfter_of_ascii _ _ hs,
    lowerAfter_of_ascii _ _ ht] at h
  exact (sameAscii_iff s t).mpr (String.ofList_injective h)

end Text

section SameAscii

variable {α : Type} {nameOf : α → ObjectName} {items : List α} {names : ObjectName → Prop}

/-- The first item of one kind is the first of another if it is of that kind too and all of the
second kind are of the first. -/
theorem find?_eq_of_imp {p q : α → Bool} {a : α} (h : items.find? p = some a) (ha : q a)
    (himp : ∀ i ∈ items, q i → p i) : items.find? q = some a := by
  rw [List.find?_eq_some_iff_append] at h ⊢
  obtain ⟨-, before, after, rfl, hbefore⟩ := h
  refine ⟨ha, before, after, rfl, fun i hi ↦ ?_⟩
  rw [Bool.not_eq_true']
  refine Bool.eq_false_iff.mpr fun hq ↦ ?_
  have hp := himp i (List.mem_append_left _ hi) hq
  have hnot := hbefore i hi
  simp [hp] at hnot

/-- A list is steady where names that are the same differ in the case of ASCII letters only. -/
theorem Steady.of_sameAscii
    (h : ∀ k k', WithOwn nameOf items names k → WithOwn nameOf items names k' → k.same k' →
      Text.sameAscii k.name k'.name) : Steady nameOf items names where
  same k k' hk hk' hsame := by
    cases hbears : items.find? fun i ↦ (nameOf i).same k with
    | some a => exact (Schema.lookup?_congr hsame hbears).symm
    | none =>
      have hbears' : items.find? (fun i ↦ (nameOf i).same k') = none := by
        rw [← hbears]
        exact congrArg (List.find? · items) (funext fun i ↦ (ObjectName.same_congr hsame _).symm)
      have hname := (Text.sameAscii_iff _ _).mp (h k k' (.inl hk) (.inl hk') hsame)
      have hloosely : (fun i ↦ Schema.loosely (nameOf i) k) =
          fun i ↦ Schema.loosely (nameOf i) k' := by
        funext i
        rw [Schema.loosely, Schema.loosely, Text.sameAscii, Text.sameAscii, hname,
          ObjectName.isNone_schema_of_same hsame]
      rw [Schema.lookup?, Schema.lookup?, hbears, hbears', hloosely]
  own k a hk ha := by
    have hmem := Schema.mem_of_lookup? ha
    cases hbears : items.find? fun i ↦ (nameOf i).same k with
    | some b =>
      rw [Schema.lookup?_of_bears hbears] at ha
      obtain rfl := Option.some.inj ha
      have hsame : (nameOf b).same k := by simpa using List.find?_some hbears
      rw [Schema.lookup?_congr (ObjectName.same_symm hsame) hbears, Schema.lookup?_of_bears hbears]
    | none =>
      have hmeant : items.find? (fun i ↦ Schema.loosely (nameOf i) k) = some a := by
        rwa [Schema.lookup?, hbears] at ha
      -- Whatever bears the name of the item is meant by the name that means the item.
      refine Schema.lookup?_of_bears
        (find?_eq_of_imp hmeant (ObjectName.same_self _) fun i hi hsame ↦ ?_)
      have hname := (Text.sameAscii_iff _ _).mp
        (h _ _ (.inr ⟨i, hi, rfl⟩) (.inr ⟨a, hmem, rfl⟩) hsame)
      have hloosely : Schema.loosely (nameOf a) k := by simpa using List.find?_some hmeant
      rwa [Schema.loosely, Text.sameAscii, hname, ObjectName.isNone_schema_of_same hsame,
        ← Text.sameAscii, ← Schema.loosely]

end SameAscii

end SchemaSql
