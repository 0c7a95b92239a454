import Mathlib.Data.List.Destutter
import Mathlib.Data.List.Pairwise
import Mathlib.Data.List.Perm.Basic
import SchemaSql.Proofs.Catalog.Inquiries
import SchemaSql.Proofs.Text.Ordered

/-!
The listing of the tables in a cache, in whatever order the cache hands them out. A table that is
kept under several names is listed once for each until repeats are dropped, but only next to each
other, and the text that the names are sorted by does not tell all names apart: a dot may be part of
a schema or of a name. Whatever a catalog was asked, its cache keeps one table for each name, under
that name. So the listing is sorted and has the names of the cached tables and no others, and it has
none twice in any order exactly if no table that is kept under several names is sorted like another.
-/

set_option autoImplicit false
set_option relaxedAutoImplicit false

namespace SchemaSql

/-- What names are sorted by. -/
def ObjectName.sortKey (n : ObjectName) : List Char := (Text.asciiLower n.display).toList

/-- No name precedes one in front of it. -/
def Sorted (names : List ObjectName) : Prop :=
  names.Pairwise fun n m ↦ Text.precedes m.sortKey n.sortKey = false

namespace Catalog

/-! ### Sorting -/

section Sorting

variable {n : ObjectName} {names : List ObjectName}

theorem insertSorted_cons (n m : ObjectName) (rest : List ObjectName) :
    insertSorted n (m :: rest) =
      if Text.precedes n.sortKey m.sortKey then n :: m :: rest else m :: insertSorted n rest := rfl

theorem insertSorted_perm (n : ObjectName) (names : List ObjectName) :
    (insertSorted n names).Perm (n :: names) := by
  induction names with
  | nil => exact .refl _
  | cons m rest ih =>
    rw [insertSorted_cons]
    split
    · exact .refl _
    · exact (ih.cons m).trans (.swap n m rest)

theorem sublist_insertSorted (n : ObjectName) (names : List ObjectName) :
    names.Sublist (insertSorted n names) := by
  induction names with
  | nil => exact List.nil_sublist _
  | cons m rest ih =>
    rw [insertSorted_cons]
    split
    · exact List.sublist_cons_self n _
    · exact ih.cons_cons m

theorem sorted_insertSorted (h : Sorted names) : Sorted (insertSorted n names) := by
  induction names with
  | nil => exact List.pairwise_singleton _ _
  | cons m rest ih =>
    obtain ⟨hm, hrest⟩ := List.pairwise_cons.mp h
    rw [insertSorted_cons]
    split
    · rename_i hfirst
      refine List.pairwise_cons.mpr ⟨fun x hx ↦ ?_, h⟩
      rw [Bool.eq_false_iff]
      intro hprecedes
      rcases List.mem_cons.mp hx with rfl | hx
      · have hself := Text.precedes_trans hfirst hprecedes
        rw [Text.precedes_self] at hself
        cases hself
      · have hbefore := Text.precedes_trans hprecedes hfirst
        rw [hm x hx] at hbefore
        cases hbefore
    · rename_i hfirst
      refine List.pairwise_cons.mpr ⟨fun x hx ↦ ?_, ih hrest⟩
      rcases List.mem_cons.mp ((insertSorted_perm n rest).mem_iff.mp hx) with rfl | hx
      · simpa using hfirst
      · exact hm x hx

/-- Some names in the order in which they are listed, before repeats are dropped. -/
def sortNames (names : List ObjectName) : List ObjectName :=
  names.foldl (fun sorted n ↦ insertSorted n sorted) []

/-- Inserting names one after another keeps those that were there in their order. -/
theorem foldl_insertSorted (names sorted : List ObjectName) (h : Sorted sorted) :
    Sorted (names.foldl (fun sorted n ↦ insertSorted n sorted) sorted) ∧
      (names.foldl (fun sorted n ↦ insertSorted n sorted) sorted).Perm (names ++ sorted) ∧
      sorted.Sublist (names.foldl (fun sorted n ↦ insertSorted n sorted) sorted) := by
  induction names generalizing sorted with
  | nil => exact ⟨h, .refl _, .refl _⟩
  | cons n names ih =>
    obtain ⟨hsorted, hperm, hsublist⟩ := ih (insertSorted n sorted) (sorted_insertSorted h)
    refine ⟨hsorted, ?_, (sublist_insertSorted n sorted).trans hsublist⟩
    exact (hperm.trans ((insertSorted_perm n sorted).append_left names)).trans List.perm_middle

theorem sorted_sortNames (names : List ObjectName) : Sorted (sortNames names) :=
  (foldl_insertSorted names [] .nil).1

theorem sortNames_perm (names : List ObjectName) : (sortNames names).Perm names := by
  have hperm := (foldl_insertSorted names [] .nil).2.1
  rwa [List.append_nil] at hperm

/-- A name stays behind those that are sorted alike. -/
theorem insertSorted_of_alike (h : ∀ m ∈ names, m.sortKey = n.sortKey) :
    insertSorted n names = names ++ [n] := by
  induction names with
  | nil => rfl
  | cons m rest ih =>
    obtain ⟨hm, hrest⟩ := List.forall_mem_cons.mp h
    rw [insertSorted_cons, hm, Text.precedes_self, ih hrest]
    rfl

/-- The first names to be sorted stay in their order if they are sorted alike. -/
theorem sublist_sortNames {n m : ObjectName} (h : m.sortKey = n.sortKey)
    (rest : List ObjectName) : [n, m, n].Sublist (sortNames (n :: m :: n :: rest)) := by
  have hfirst : sortNames [n, m, n] = [n, m, n] := by
    have hsecond : insertSorted m [n] = [n, m] := insertSorted_of_alike (by simp [h])
    have hthird : insertSorted n [n, m] = [n, m, n] := insertSorted_of_alike (by simp [h])
    rw [sortNames, List.foldl_cons, List.foldl_cons, List.foldl_cons, List.foldl_nil,
      insertSorted, hsecond, hthird]
  have hsorted := hfirst ▸ sorted_sortNames [n, m, n]
  change [n, m, n].Sublist (sortNames ([n, m, n] ++ rest))
  rw [sortNames, List.foldl_append, ← sortNames, hfirst]
  exact (foldl_insertSorted rest _ hsorted).2.2

/-- Sorted names between two that are sorted alike are sorted like them. -/
theorem sortKey_eq_of_between {n k m : ObjectName} (h : Sorted names)
    (hbetween : [n, k, m].Sublist names) (hends : m.sortKey = n.sortKey) :
    k.sortKey = n.sortKey := by
  have hsorted := h.sublist hbetween
  simp only [List.pairwise_cons, List.mem_cons, List.not_mem_nil, or_false, forall_eq_or_imp,
    forall_eq] at hsorted
  obtain ⟨⟨hk, -⟩, hm, -⟩ := hsorted
  exact Text.eq_of_not_precedes hk (hends ▸ hm)

end Sorting

/-! ### Dropping repeats -/

section Repeats

variable {α : Type} {l part : List α}

/-- Where neighbours differ and nothing stands around something else, nothing is repeated. -/
theorem nodup_of_isChain (h : l.IsChain (· ≠ ·))
    (hbetween : ∀ a b, [a, b, a].Sublist l → b = a) : l.Nodup := by
  induction l with
  | nil => exact .nil
  | cons a l ih =>
    refine List.nodup_cons.mpr ⟨fun ha ↦ ?_, ih h.tail fun b c hsub ↦ hbetween b c (hsub.cons a)⟩
    cases l with
    | nil => cases ha
    | cons b l =>
      have hab := (List.isChain_cons_cons.mp h).1
      rcases List.mem_cons.mp ha with rfl | ha
      · exact hab rfl
      · exact hab (hbetween a b (((List.singleton_sublist.mpr ha).cons_cons b).cons_cons a)).symm

variable [DecidableEq α]

/-- What is left of a list without repeats next to each other has every sublist that has none. -/
theorem sublist_destutter' {a : α} (hpart : part.IsChain (· ≠ ·)) (h : part.Sublist (a :: l)) :
    part.Sublist (l.destutter' (· ≠ ·) a) := by
  induction l generalizing a part with
  | nil => exact h
  | cons b l ih =>
    by_cases hab : a ≠ b
    · rw [List.destutter'_cons_pos _ hab]
      cases h with
      | cons _ h => exact (ih hpart h).cons a
      | cons_cons _ h => exact (ih hpart.tail h).cons_cons a
    · rw [List.destutter'_cons_neg _ hab]
      obtain rfl := not_not.mp hab
      cases h with
      | cons _ h => exact ih hpart h
      | cons_cons _ h =>
        -- The second of two equal neighbours cannot be in the sublist as well.
        refine ih hpart ?_
        cases h with
        | cons _ h => exact h.cons_cons a
        | cons_cons _ h => exact absurd rfl (List.isChain_cons_cons.mp hpart).1

theorem sublist_destutter (hpart : part.IsChain (· ≠ ·)) (h : part.Sublist l) :
    part.Sublist (l.destutter (· ≠ ·)) := by
  cases l with
  | nil => exact h
  | cons a l => exact sublist_destutter' hpart h

/-- Once repeats next to each other are dropped there are none at all, exactly if nothing stood
around something else. -/
theorem nodup_destutter_iff :
    (l.destutter (· ≠ ·)).Nodup ↔ ∀ a b, [a, b, a].Sublist l → b = a := by
  refine ⟨fun hnodup a b hsub ↦ ?_, fun hbetween ↦ ?_⟩
  · by_contra hba
    have hchain : [a, b, a].IsChain (· ≠ ·) :=
      List.isChain_cons_cons.mpr ⟨Ne.symm hba, List.isChain_cons_cons.mpr ⟨hba, .singleton a⟩⟩
    have htwice := hnodup.sublist (sublist_destutter hchain hsub)
    simp at htwice
  · exact nodup_of_isChain (List.isChain_destutter _ l) fun a b hsub ↦
      hbetween a b (hsub.trans (List.destutter_sublist _ l))

/-- Names that are the same are equal. -/
def Spelled (names : List ObjectName) : Prop := ∀ n ∈ names, ∀ m ∈ names, n.same m → n = m

variable {names : List ObjectName}

theorem dropRepeats_go_eq {kept : ObjectName} (h : Spelled (kept :: names)) :
    kept :: dropRepeats.go kept names = names.destutter' (· ≠ ·) kept := by
  induction names generalizing kept with
  | nil => rfl
  | cons n rest ih =>
    rw [dropRepeats.go]
    split
    · rename_i hsame
      obtain rfl := h n (by simp) kept (by simp) hsame
      rw [List.destutter'_cons_neg _ (not_not.mpr rfl)]
      exact ih fun a ha b hb ↦ h a (List.mem_cons_of_mem _ ha) b (List.mem_cons_of_mem _ hb)
    · rename_i hsame
      have hne : kept ≠ n := fun heq ↦ hsame (heq ▸ ObjectName.same_self _)
      rw [List.destutter'_cons_pos _ hne,
        ih fun a ha b hb ↦ h a (List.mem_cons_of_mem _ ha) b (List.mem_cons_of_mem _ hb)]

theorem dropRepeats_eq (h : Spelled names) : dropRepeats names = names.destutter (· ≠ ·) := by
  cases names with
  | nil => rfl
  | cons n rest => exact dropRepeats_go_eq h

end Repeats

end Catalog

/-! ### Settled shelves -/

namespace Shelf

variable {α : Type} {nameOf : α → ObjectName} {s : Shelf α} {k n : ObjectName} {a b : α}

/-- No two reports are kept under names that are the same, and every report is kept under its own
name. -/
structure Settled (nameOf : α → ObjectName) (s : Shelf α) : Prop where
  apart : s.Pairwise fun e e' ↦ ¬ e.1.same e'.1
  own : ∀ e ∈ s, s.get? (nameOf e.2) = some e.2

theorem Settled.nil : Settled nameOf [] := ⟨.nil, by simp⟩

/-- Reports with names that are the same are the same report. -/
theorem Settled.eq_of_same (h : s.Settled nameOf) {e e' : ObjectName × α} (he : e ∈ s)
    (he' : e' ∈ s) (hsame : (nameOf e.2).same (nameOf e'.2)) : e.2 = e'.2 := by
  have hget : s.get? (nameOf e.2) = s.get? (nameOf e'.2) := by
    simp only [get?, ObjectName.same_congr hsame]
  rw [h.own e he, h.own e' he'] at hget
  exact Option.some.inj hget

theorem get?_keep (hk : s.get? k = none) (a : α) (n : ObjectName) :
    (s.keep k a).get? n = (s.get? n).or (if k.same n then some a else none) := by
  have hnew : s.keep k a = s ++ [(k, a)] := by simp [keep, hk]
  rw [hnew, get?, get?, List.find?_append]
  cases s.find? fun e ↦ e.1.same n with
  | some e => rfl
  | none => by_cases hsame : k.same n <;> simp [hsame]

theorem get?_keep_of_some (h : s.get? n = some b) (k : ObjectName) (a : α) :
    (s.keep k a).get? n = some b := by
  cases hk : s.get? k with
  | some c => simpa [keep, hk] using h
  | none => simp [get?_keep hk, h]

theorem apart_keep (h : s.Pairwise fun e e' ↦ ¬ e.1.same e'.1) (k : ObjectName) (a : α) :
    (s.keep k a).Pairwise fun e e' ↦ ¬ e.1.same e'.1 := by
  rw [keep]
  split
  · exact h
  · rename_i hk
    refine List.pairwise_append.mpr ⟨h, List.pairwise_singleton _ _, fun e he e' he' hsame ↦ hk ?_⟩
    obtain rfl := List.mem_singleton.mp he'
    rw [get?, Option.isSome_map]
    exact List.find?_isSome.mpr ⟨e, he, hsame⟩

theorem Settled.keep_keep (h : s.Settled nameOf)
    (hb : ((s.keep k b).keep n b).get? (nameOf b) = some b) :
    ((s.keep k b).keep n b).Settled nameOf where
  apart := apart_keep (apart_keep h.apart k b) n b
  own e he := by
    rcases mem_keep he with he | rfl
    · rcases mem_keep he with he | rfl
      · exact get?_keep_of_some (get?_keep_of_some (h.own e he) k b) n b
      · exact hb
    · exact hb

/-- A shelf stays settled when a report is stored under a new name and its own. -/
theorem Settled.store (h : s.Settled nameOf) (hk : s.get? k = none) (a : α) :
    (s.store [k, nameOf a] a).1.Settled nameOf := by
  rw [store_pair hk]
  refine h.keep_keep ?_
  -- What is stored is what was kept under the report's own name, or else the report itself, which
  -- is found under its own name whether or not that is the same as the new one.
  cases hown : s.get? (nameOf a) with
  | some b =>
    obtain ⟨e, he, -, rfl⟩ := exists_of_get? hown
    exact get?_keep_of_some (get?_keep_of_some (h.own e he) _ _) _ _
  | none =>
    have hget := get?_keep hk a (nameOf a)
    rw [hown, Option.none_or] at hget
    split at hget
    · exact get?_keep_of_some hget _ _
    · simp [get?_keep hget, hget, ObjectName.same_self]

end Shelf

/-! ### Listings -/

namespace Cache

variable {c : Cache} {names : List ObjectName}

/-- The tables of the cache are settled under their names. -/
def Settled (c : Cache) : Prop := c.tables.Settled (·.name)

/-- What may be listed of a cache that hands out its tables in any order. -/
def Lists (c : Cache) (names : List ObjectName) : Prop :=
  ∃ tables : Shelf Table, tables.Perm c.tables ∧ { c with tables }.tableNames = names

/-- No table that is kept under several names is sorted like another one. -/
def TellsApart (c : Cache) : Prop :=
  ∀ e ∈ c.tables, ∀ e' ∈ c.tables, e.1 ≠ e'.1 → e.2 = e'.2 →
    ∀ f ∈ c.tables, f.2.name.sortKey = e.2.name.sortKey → f.2 = e.2

section Listing

variable (h : c.Settled) {tables : Shelf Table} (hperm : tables.Perm c.tables)

include h in
theorem Settled.eq_of_name {e e' : ObjectName × Table} (he : e ∈ c.tables) (he' : e' ∈ c.tables)
    (hname : e.2.name = e'.2.name) : e.2 = e'.2 :=
  h.eq_of_same he he' (by simp [hname, ObjectName.same_self])

include hperm in
theorem mem_sortNames_iff (n : ObjectName) :
    n ∈ Catalog.sortNames (tables.map fun e ↦ e.2.name) ↔ ∃ e ∈ c.tables, e.2.name = n := by
  rw [(Catalog.sortNames_perm _).mem_iff, List.mem_map]
  simp only [hperm.mem_iff]

include h hperm

theorem Settled.spelled : Catalog.Spelled (Catalog.sortNames (tables.map fun e ↦ e.2.name)) := by
  intro n hn m hm hsame
  obtain ⟨e, he, rfl⟩ := (mem_sortNames_iff hperm n).mp hn
  obtain ⟨f, hf, rfl⟩ := (mem_sortNames_iff hperm m).mp hm
  rw [h.eq_of_same he hf hsame]

theorem Settled.tableNames_eq : { c with tables }.tableNames =
    (Catalog.sortNames (tables.map fun e ↦ e.2.name)).destutter (· ≠ ·) :=
  Catalog.dropRepeats_eq (h.spelled hperm)

theorem Settled.sorted_tableNames : Sorted { c with tables }.tableNames := by
  rw [h.tableNames_eq hperm]
  exact (Catalog.sorted_sortNames _).sublist (List.destutter_sublist _ _)

theorem Settled.mem_tableNames (n : ObjectName) :
    n ∈ { c with tables }.tableNames ↔ ∃ e ∈ c.tables, e.2.name = n := by
  rw [h.tableNames_eq hperm, ← mem_sortNames_iff hperm n]
  refine ⟨fun hn ↦ (List.destutter_sublist _ _).subset hn, fun hn ↦ ?_⟩
  exact List.singleton_sublist.mp
    (Catalog.sublist_destutter (.singleton n) (List.singleton_sublist.mpr hn))

/-- If no table that is kept under several names is sorted like another one, no name is listed
twice. -/
theorem Settled.nodup_tableNames (hapart : c.TellsApart) : { c with tables }.tableNames.Nodup := by
  rw [h.tableNames_eq hperm, Catalog.nodup_destutter_iff]
  intro n k hsub
  by_contra hkn
  obtain ⟨f, hf, rfl⟩ := (mem_sortNames_iff hperm k).mp (hsub.subset (by simp))
  have hkey := Catalog.sortKey_eq_of_between (Catalog.sorted_sortNames _) hsub rfl
  -- A table that is listed around another one sorted like it is kept once only.
  have honce : c.tables.Pairwise fun e e' ↦ ¬ (e.2.name = n ∧ e'.2.name = n) := by
    refine h.apart.imp_of_mem ?_
    rintro e e' he he' hdiffer ⟨hn, hn'⟩
    have hkeys : e.1 ≠ e'.1 := fun heq ↦ hdiffer (heq ▸ ObjectName.same_self _)
    have htable := h.eq_of_name he he' (hn.trans hn'.symm)
    rw [← hn] at hkn hkey
    exact hkn (congrArg Table.name (hapart e he e' he' hkeys htable f hf hkey))
  have hentries : tables.Pairwise fun e e' ↦ ¬ (e.2.name = n ∧ e'.2.name = n) :=
    (hperm.pairwise_iff fun hnot ↦ hnot ∘ And.symm).mpr honce
  have hnames : (Catalog.sortNames (tables.map fun e ↦ e.2.name)).Pairwise
      fun m m' ↦ ¬ (m = n ∧ m' = n) :=
    ((Catalog.sortNames_perm _).pairwise_iff fun hnot ↦ hnot ∘ And.symm).mpr
      (List.pairwise_map.mpr hentries)
  have htwice := hnames.sublist hsub
  simp at htwice

end Listing

/-- If in no order a name is listed twice, no table that is kept under several names is sorted like
another one. -/
theorem Settled.tellsApart (h : c.Settled) (hnodup : ∀ names, c.Lists names → names.Nodup) :
    c.TellsApart := by
  intro e he e' he' hkeys htable f hf hkey
  by_contra hdiffer
  let rest := ((c.tables.erase e).erase f).erase e'
  have hperm : (e :: f :: e' :: rest).Perm c.tables := by
    have hfe : f ≠ e := fun heq ↦ hdiffer (congrArg Prod.snd heq)
    have hee : e' ≠ e := fun heq ↦ hkeys (congrArg Prod.fst heq).symm
    have hef : e' ≠ f := fun heq ↦ hdiffer ((congrArg Prod.snd heq).symm.trans htable.symm)
    have hfirst := List.perm_cons_erase he
    have hmiddle := List.perm_cons_erase ((List.mem_erase_of_ne hfe).mpr hf)
    have hlast := List.perm_cons_erase
      ((List.mem_erase_of_ne hef).mpr ((List.mem_erase_of_ne hee).mpr he'))
    exact (hfirst.trans ((hmiddle.trans (hlast.cons f)).cons e)).symm
  have hlisted := hnodup _ ⟨_, hperm, rfl⟩
  rw [h.tableNames_eq hperm, Catalog.nodup_destutter_iff] at hlisted
  have hbetween := Catalog.sublist_sortNames hkey (rest.map fun e ↦ e.2.name)
  have hname := hlisted e.2.name f.2.name (by simpa only [List.map_cons, ← htable] using hbetween)
  exact hdiffer (h.eq_of_name hf he hname)

end Cache

/-! ### Reached catalogs -/

namespace Catalog

variable {σ α β : Type} {P : Cache → Prop} {l : Lookup σ α}

/-- From a cache with the property a lookup leaves one with it, whether it succeeds or fails. -/
def Keeps (P : Cache → Prop) (l : Lookup σ α) : Prop :=
  ∀ s, P s.1.cache → P (Action.left l s).1.cache

theorem Keeps.of_still (h : ∀ s, (Action.left l s).1.cache = s.1.cache) : Keeps P l :=
  fun s hs ↦ (h s).symm ▸ hs

theorem Keeps.pure (a : α) : Keeps P (Pure.pure a : Lookup σ α) := .of_still fun _ ↦ rfl

theorem Keeps.bind {k : α → Lookup σ β} (h : Keeps P l) (hk : ∀ a, Keeps P (k a)) :
    Keeps P (l >>= k) := by
  intro s hs
  have hleft := h s hs
  cases hrun : l s with
  | ok a s' =>
    rw [Action.left_of_ok hrun] at hleft
    rw [Action.left, Connection.bind_of_ok k hrun]
    exact hk a s' hleft
  | error e s' =>
    rw [Action.left_of_error hrun] at hleft
    rwa [Action.left_of_error (Connection.bind_of_error k hrun)]

theorem Keeps.map (h : Keeps P l) (g : α → β) : Keeps P (g <$> l) := fun s hs ↦ by
  rw [Action.left_map]
  exact h s hs

theorem keeps_get : Keeps P (get : Lookup σ (Catalog σ × σ)) := .of_still fun _ ↦ rfl

theorem keeps_throw (e : Error) : Keeps P (throw e : Lookup σ α) := .of_still fun _ ↦ rfl

theorem keeps_cache? (look : Cache → Option α) : Keeps P (cache? look : Lookup σ (Option α)) :=
  .of_still fun _ ↦ rfl

theorem keeps_ask (question : SchemaSource σ → Action σ α) : Keeps P (ask question) := by
  refine .of_still fun ⟨cat, x⟩ ↦ ?_
  rw [Action.left, ask]
  cases question cat.source x <;> rfl

theorem keeps_resolve (name : String) : Keeps P (resolve name : Lookup σ ObjectName) := by
  rw [resolve]
  cases ObjectName.parse name with
  | ok n => exact keeps_get.bind fun _ ↦ .pure _
  | error e => exact keeps_throw e

theorem keeps_required (kind : ObjectKind) (name : String) (found : Option α) :
    Keeps P (required kind name found : Lookup σ α) := by
  cases found with
  | some a => exact .pure a
  | none => exact keeps_throw _

theorem keeps_remember {f : Cache → Cache × α} (h : ∀ c, P c → P (f c).1) :
    Keeps P (remember f : Lookup σ α) :=
  fun s hs ↦ h s.1.cache hs

/-- A finder keeps what is kept by storing a report under a name that nothing was kept under. -/
theorem keeps_find {shelf : Cache → Shelf α} {withShelf : Cache → Shelf α → Cache}
    {nameOf : α → ObjectName} {question : SchemaSource σ → ObjectName → Action σ (Option α)}
    {k : ObjectName}
    (hstore : ∀ c a, P c → (shelf c).get? k = none →
      P (withShelf c ((shelf c).store [k, nameOf a] a).1)) :
    Keeps P (find shelf withShelf nameOf question k) := by
  rintro ⟨cat, x⟩ hs
  rw [Action.left, find_apply]
  cases hget : (shelf cat.cache).get? k with
  | some a => exact hs
  | none =>
    dsimp only
    cases question cat.source k x with
    | error e y => exact hs
    | ok found y =>
      cases found with
      | none => exact hs
      | some a => exact hstore cat.cache a hs hget

theorem keeps_findTable (k : ObjectName) :
    Keeps Cache.Settled (findTable k : Lookup σ (Option Table)) :=
  keeps_find fun _ a hc hk ↦ hc.store hk a

theorem keeps_findProcedure (k : ObjectName) :
    Keeps Cache.Settled (findProcedure k : Lookup σ (Option Procedure)) :=
  keeps_find fun _ _ hc _ ↦ hc

theorem keeps_findFunction (k : ObjectName) :
    Keeps Cache.Settled (findFunction k : Lookup σ (Option TableFunction)) :=
  keeps_find fun _ _ hc _ ↦ hc

theorem keeps_lookUp (kind : ObjectKind) {finder : ObjectName → Lookup σ (Option α)}
    (h : ∀ k, Keeps P (finder k)) (name : String) : Keeps P (lookUp kind finder name) :=
  (keeps_resolve name).bind fun k ↦ (h k).bind fun found ↦ keeps_required kind name found

theorem keeps_table (name : String) : Keeps Cache.Settled (table name : Lookup σ Table) :=
  keeps_lookUp .tableOrView keeps_findTable name

theorem keeps_recordTable (typeName tableName : String) :
    Keeps Cache.Settled (recordTable typeName tableName : Lookup σ Table) := by
  refine (keeps_cache? _).bind fun found ↦ ?_
  cases found with
  | some t => exact .pure t
  | none => exact (keeps_table tableName).bind fun _ ↦ keeps_remember fun _ hc ↦ hc

theorem keeps_indexes (name : String) :
    Keeps Cache.Settled (indexes name : Lookup σ (List Index)) := by
  refine (keeps_table name).bind fun t ↦ (keeps_cache? _).bind fun found ↦ ?_
  cases found with
  | some is => exact .pure is
  | none => exact (keeps_ask _).bind fun _ ↦ keeps_remember fun _ hc ↦ hc

theorem keeps_guarded (supports : Dialect → Bool) (feature : Feature) (h : Keeps P l) :
    Keeps P (do
      let d := (← get).1.dialect
      if supports d then l else throw (.unsupported d feature) : Lookup σ α) := by
  refine keeps_get.bind fun s ↦ ?_
  dsimp only
  split
  · exact h
  · exact keeps_throw _

theorem keeps_procedure (name : String) :
    Keeps Cache.Settled (procedure name : Lookup σ Procedure) :=
  keeps_guarded Dialect.supportsProcedures .storedProcedures
    (keeps_lookUp .procedure keeps_findProcedure name)

theorem keeps_function (name : String) :
    Keeps Cache.Settled (function name : Lookup σ TableFunction) :=
  keeps_guarded Dialect.supportsTableFunctions .tableFunctions
    (keeps_lookUp .tableFunction keeps_findFunction name)

theorem keeps_preloadAll (os : List SchemaObject) :
    Keeps Cache.Settled (preloadAll os : Lookup σ Unit) := by
  induction os with
  | nil => exact .pure ()
  | cons o os ih =>
    refine keeps_get.bind fun s ↦ ?_
    dsimp only
    cases o.kind with
    | table | view | tableOrView => exact ((keeps_findTable o.name).map _).bind fun _ ↦ ih
    | procedure =>
      dsimp only
      split
      · exact ((keeps_findProcedure o.name).map _).bind fun _ ↦ ih
      · exact ih
    | tableFunction =>
      dsimp only
      split
      · exact ((keeps_findFunction o.name).map _).bind fun _ ↦ ih
      · exact ih

/-- No inquiry unsettles the tables of a cache. -/
theorem keeps_ask_inquiry (tableOf : String → String) (q : Inquiry) :
    Keeps Cache.Settled (q.ask tableOf : Lookup σ Finding) := by
  cases q with
  | table n => exact (keeps_table n).map _
  | recordTable ty => exact (keeps_recordTable ty _).map _
  | indexes n => exact (keeps_indexes n).map _
  | procedure n => exact (keeps_procedure n).map _
  | function n => exact (keeps_function n).map _
  | preload => exact ((keeps_ask _).bind keeps_preloadAll).map _
  | reset => exact (keeps_remember fun _ _ ↦ Shelf.Settled.nil).map _

/-- The catalogs that inquiries and new sources lead to. Their databases may be in any state
whenever they are asked. -/
inductive Reached (tableOf : String → String) : Catalog σ → Prop
  | make (d : Dialect) (schema : Option String) (source : SchemaSource σ) :
    Reached tableOf (make d schema source)
  | ask {cat : Catalog σ} (before : Reached tableOf cat) (q : Inquiry) (x : σ) :
    Reached tableOf (Action.left (q.ask tableOf) (cat, x)).1
  | resetWith {cat : Catalog σ} (before : Reached tableOf cat) (source : SchemaSource σ) (x : σ) :
    Reached tableOf (Action.left (resetWith source) (cat, x)).1

variable {tableOf : String → String} {cat : Catalog σ}

theorem Reached.settled (h : Reached tableOf cat) : cat.cache.Settled := by
  induction h with
  | make d schema source => exact Shelf.Settled.nil
  | ask before q x ih => exact keeps_ask_inquiry tableOf q _ ih
  | resetWith before source x ih => exact Shelf.Settled.nil

/-- Inquiries reach a catalog from one that is reached. -/
theorem Reached.after {s : Catalog σ × σ} (h : Reached tableOf s.1) (history : List Inquiry) :
    Reached tableOf (Inquiry.after tableOf history s).1 := by
  induction history generalizing s with
  | nil => exact h
  | cons q history ih => exact ih (h.ask q s.2)

/-- In whatever order a reached catalog hands out its tables, the listing of their names is sorted
and has the names of all of them and no others. That no order has a name listed twice is so exactly
if no table that is kept under several names is sorted like another one. -/
theorem Reached.listing (h : Reached tableOf cat) :
    (∀ names, cat.cache.Lists names →
      Sorted names ∧ ∀ n, n ∈ names ↔ ∃ e ∈ cat.cache.tables, e.2.name = n) ∧
    ((∀ names, cat.cache.Lists names → names.Pairwise fun n m ↦ ¬ n.same m) ↔
      cat.cache.TellsApart) := by
  refine ⟨?_, fun hdiffer ↦ h.settled.tellsApart ?_, ?_⟩
  · rintro names ⟨tables, hperm, rfl⟩
    exact ⟨h.settled.sorted_tableNames hperm, h.settled.mem_tableNames hperm⟩
  · intro names hnames
    refine (hdiffer names hnames).imp fun hsame heq ↦ hsame ?_
    rw [heq]
    exact ObjectName.same_self _
  · rintro hapart names ⟨tables, hperm, rfl⟩
    refine (h.settled.nodup_tableNames hperm hapart).imp_of_mem fun hn hm hne hsame ↦ hne ?_
    obtain ⟨e, he, rfl⟩ := (h.settled.mem_tableNames hperm _).mp hn
    obtain ⟨f, hf, rfl⟩ := (h.settled.mem_tableNames hperm _).mp hm
    rw [h.settled.eq_of_same he hf hsame]

/-- A catalog of two tables, one of them with a dot in its name and one with a schema in the place
of what is before the dot. The first one was asked for by two names. -/
def dottedCatalog : Catalog Unit :=
  let schema : Schema := { tables := [.make .sqlite ⟨none, "a.b"⟩ true [],
    .make .sqlite ⟨some "a", "b"⟩ true []] }
  (Inquiry.after id [.table "[a.b]", .table "s.[a.b]", .table "a.b"]
    (make .sqlite none schema.source, ())).1

/-- In some order its listing has a name twice. -/
theorem dottedCatalog_repeats : Reached id dottedCatalog ∧
    ∃ names, dottedCatalog.cache.Lists names ∧ ¬ names.Pairwise fun n m ↦ ¬ n.same m := by
  have hreached : Reached id dottedCatalog := Reached.after (.make _ _ _) _
  refine ⟨hreached, ?_⟩
  by_contra hnever
  have hapart := (Reached.listing hreached).2.mp fun names hnames ↦ by
    by_contra hrepeats
    exact hnever ⟨names, hnames, hrepeats⟩
  revert hapart
  unfold Cache.TellsApart
  decide +kernel

end Catalog

end SchemaSql
