import SchemaSql.Proofs.Name.Quoted

/-!
Written names behind a written schema and a dot. A text that is one part is read up to the dot, so
that joined texts have the part of the first and the parts of the second. A name without a schema is
thereby given the schema that the first text stands for, unless it is written in several parts of
which the last but one is empty: then the empty part is the schema. What a text stands for is the
text itself exactly if it is plain, without quotes in it and blanks at its ends; of every other text
something is left out.
-/

set_option autoImplicit false
set_option relaxedAutoImplicit false

namespace SchemaSql

namespace ObjectName

/-! ### Reading parts -/

/-- How a text is read into its parts, from within quotes or outside of them. -/
inductive Reads : Option Char → List Char → List (List Char) → Prop
  | stop : Reads none [] [[]]
  | opening {c q : Char} {cs : List Char} {ps : List (List Char)} (hc : closer? c = some q)
    (h : Reads (some q) cs ps) : Reads none (c :: cs) ps
  | dot {cs : List Char} {ps : List (List Char)} (h : Reads none cs ps) :
    Reads none ('.' :: cs) ([] :: ps)
  | plain {c : Char} {cs : List Char} {ps : List (List Char)} (hc : closer? c = none)
    (hdot : c ≠ '.') (h : Reads none cs ps) : Reads none (c :: cs) (consPart c ps)
  | doubled {q : Char} {cs : List Char} {ps : List (List Char)} (h : Reads (some q) cs ps) :
    Reads (some q) (q :: q :: cs) (consPart q ps)
  | closing {q : Char} {cs : List Char} {ps : List (List Char)} (hcs : cs.head? ≠ some q)
    (h : Reads none cs ps) : Reads (some q) (q :: cs) ps
  | inside {c q : Char} {cs : List Char} {ps : List (List Char)} (hc : c ≠ q)
    (h : Reads (some q) cs ps) : Reads (some q) (c :: cs) (consPart c ps)

section Parts

variable {closing : Option Char} {cs rest p : List Char} {ps qs : List (List Char)}

theorem reads_of_splitParts (h : splitParts closing cs = some ps) : Reads closing cs ps := by
  induction closing, cs using splitParts.induct generalizing ps with
  | case1 =>
    obtain rfl := Option.some.inj h
    exact .stop
  | case2 q => simp [splitParts] at h
  | case3 c cs q hc ih =>
    rw [splitParts, hc] at h
    exact .opening hc (ih h)
  | case4 cs hc ih =>
    obtain ⟨qs, hqs, rfl⟩ : ∃ qs, splitParts none cs = some qs ∧ [] :: qs = ps := by
      simpa [splitParts, hc] using h
    exact .dot (ih hqs)
  | case5 c cs hc hdot ih =>
    obtain ⟨qs, hqs, rfl⟩ : ∃ qs, splitParts none cs = some qs ∧ consPart c qs = ps := by
      simpa [splitParts, hc, hdot] using h
    exact .plain hc hdot (ih hqs)
  | case6 q =>
    rw [splitParts, if_pos rfl] at h
    obtain rfl := Option.some.inj h
    exact .closing (by simp) .stop
  | case7 q c hc => simp [splitParts, hc] at h
  | case8 q cs ih =>
    obtain ⟨qs, hqs, rfl⟩ : ∃ qs, splitParts (some q) cs = some qs ∧ consPart q qs = ps := by
      simpa [splitParts] using h
    exact .doubled (ih hqs)
  | case9 q d cs hd ih =>
    rw [splitParts, if_pos rfl, if_neg hd] at h
    exact .closing (by simpa using hd) (ih h)
  | case10 q c d cs hc ih =>
    obtain ⟨qs, hqs, rfl⟩ : ∃ qs, splitParts (some q) (d :: cs) = some qs ∧ consPart c qs = ps := by
      simpa [splitParts, hc] using h
    exact .inside hc (ih hqs)

theorem Reads.splitParts_eq (h : Reads closing cs ps) : splitParts closing cs = some ps := by
  induction h with
  | stop => rfl
  | opening hc h ih => rw [splitParts, hc]; exact ih
  | dot h ih =>
    have hplain : closer? '.' = none := by decide
    simp [splitParts, hplain, ih]
  | plain hc hdot h ih => simp [splitParts, hc, hdot, ih]
  | doubled h ih => simp [splitParts, ih]
  | @closing q cs ps hcs h ih =>
    cases cs with
    | nil =>
      obtain rfl := Option.some.inj ih
      simp [splitParts]
    | cons d ds =>
      have hd : d ≠ q := fun hd ↦ hcs (congrArg some hd)
      rw [splitParts, if_pos rfl, if_neg hd, ih]
  | @inside c q cs ps hc h ih =>
    have hcs : cs ≠ [] := by
      rintro rfl
      cases h
    rw [splitParts_of_ne hc hcs, ih]
    rfl

theorem flatten_consPart (c : Char) (ps : List (List Char)) :
    (consPart c ps).flatten = c :: ps.flatten := by
  cases ps <;> rfl

/-- What is read of a text is left of it when some characters are left out. -/
theorem Reads.sublist (h : Reads closing cs ps) : ps.flatten.Sublist cs := by
  induction h with
  | stop => exact .slnil
  | opening hc h ih => exact ih.cons _
  | dot h ih => exact ih.cons _
  | plain hc hdot h ih => exact flatten_consPart _ _ ▸ ih.cons_cons _
  | doubled h ih => exact flatten_consPart _ _ ▸ (ih.cons_cons _).cons _
  | closing hcs h ih => exact ih.cons _
  | inside hc h ih => exact flatten_consPart _ _ ▸ ih.cons_cons _

/-- A text outside of quotes has none in it, or something is left out. -/
theorem Reads.plain_or_length_lt (h : Reads closing cs ps) (hclosing : closing = none) :
    (∀ c ∈ cs, closer? c = none) ∨ ps.flatten.length < cs.length := by
  induction h with
  | stop => exact .inl (List.forall_mem_nil _)
  | opening hc h ih => exact .inr (Nat.lt_succ_of_le h.sublist.length_le)
  | dot h ih =>
    have hdot : closer? '.' = none := by decide
    exact (ih rfl).imp (fun hcs ↦ List.forall_mem_cons.mpr ⟨hdot, hcs⟩) Nat.lt_succ_of_lt
  | plain hc hdot h ih =>
    rw [flatten_consPart]
    exact (ih rfl).imp (fun hcs ↦ List.forall_mem_cons.mpr ⟨hc, hcs⟩) Nat.succ_lt_succ
  | doubled | closing | inside => cases hclosing

theorem consPart_ne_nil (c : Char) (ps : List (List Char)) : consPart c ps ≠ [] := by
  cases ps <;> simp [consPart]

theorem Reads.ne_nil (h : Reads closing cs ps) : ps ≠ [] := by
  induction h with
  | stop | dot => simp
  | opening hc h ih => exact ih
  | closing hcs h ih => exact ih
  | plain | doubled | inside => exact consPart_ne_nil _ _

theorem eq_of_consPart_eq {c : Char} (hps : ps ≠ []) (h : consPart c ps = [p]) :
    ∃ p', ps = [p'] ∧ p = c :: p' := by
  cases ps with
  | nil => exact absurd rfl hps
  | cons p' ps =>
    obtain ⟨rfl, rfl⟩ := List.cons.inj h
    exact ⟨p', rfl, rfl⟩

/-- A text of one part without quotes is this part. -/
theorem Reads.eq_of_plain (h : Reads none cs [p]) (hcs : ∀ c ∈ cs, closer? c = none) : p = cs := by
  induction cs generalizing p with
  | nil =>
    cases h
    rfl
  | cons c cs ih =>
    obtain ⟨hc, hcs⟩ := List.forall_mem_cons.mp hcs
    generalize hps : [p] = ps at h
    cases h with
    | opening hquote h =>
      rw [hc] at hquote
      cases hquote
    | dot h => exact absurd (List.cons.inj hps).2.symm h.ne_nil
    | plain _ hdot h =>
      obtain ⟨p', rfl, rfl⟩ := eq_of_consPart_eq h.ne_nil hps.symm
      rw [ih h hcs]

/-- What stands behind a text of one part belongs to this part up to the next dot. -/
theorem Reads.append (h : Reads closing cs [p]) (hqs : Reads none rest qs)
    (hrest : ∀ c q, closer? c = some q → rest.head? ≠ some q)
    (hclosing : ∀ q, closing = some q → rest.head? ≠ some q) :
    Reads closing (cs ++ rest) (consChars p qs) := by
  generalize hps : [p] = ps at h
  induction h generalizing p with
  | stop =>
    obtain rfl := (List.cons.inj hps).1
    exact hqs
  | @opening c q cs ps hc h ih =>
    refine .opening hc (ih (fun q' hq ↦ ?_) hps)
    obtain rfl := Option.some.inj hq
    exact hrest c q hc
  | dot h ih => exact absurd (List.cons.inj hps).2.symm h.ne_nil
  | plain hc hdot h ih =>
    obtain ⟨p', rfl, rfl⟩ := eq_of_consPart_eq h.ne_nil hps.symm
    exact .plain hc hdot (ih hclosing rfl)
  | doubled h ih =>
    obtain ⟨p', rfl, rfl⟩ := eq_of_consPart_eq h.ne_nil hps.symm
    exact .doubled (ih hclosing rfl)
  | @closing q cs ps hcs h ih =>
    refine .closing ?_ (ih (by simp) hps)
    cases cs with
    | nil => exact hclosing q rfl
    | cons d ds => exact hcs
  | inside hc h ih =>
    obtain ⟨p', rfl, rfl⟩ := eq_of_consPart_eq h.ne_nil hps.symm
    exact .inside hc (ih hclosing rfl)

/-- Blanks and dots do not end quotes. -/
theorem ne_closer {c q d : Char} (h : closer? c = some q) (hd : Text.isBlank d ∨ d = '.') :
    d ≠ q := by
  have hq : q = ']' ∨ q = backquote ∨ q = '"' := by
    rw [closer?] at h
    split at h
    · exact .inl (Option.some.inj h).symm
    · split at h
      · rename_i hc
        exact .inr (Option.some.inj h ▸ hc)
      · cases h
  rintro rfl
  rcases hq with rfl | rfl | rfl <;> exact absurd hd (by decide)

/-- A text of one part, a dot and another text, with blanks at the ends of both but the outer ones,
have the part of the first and those of the other. -/
theorem Reads.joined (h : Reads none cs [p]) (hrest : Reads none rest ps) {back front : List Char}
    (hback : ∀ c ∈ back, Text.isBlank c) (hfront : ∀ c ∈ front, Text.isBlank c) :
    Reads none (cs ++ (back ++ '.' :: (front ++ rest))) ((p ++ back) :: consChars front ps) := by
  have hblanks (w : List Char) (hw : ∀ c ∈ w, Text.isBlank c) {cs : List Char}
      {ps : List (List Char)} (h : Reads none cs ps) : Reads none (w ++ cs) (consChars w ps) := by
    induction w with
    | nil => exact h
    | cons c w ih =>
      obtain ⟨hc, hw⟩ := List.forall_mem_cons.mp hw
      exact .plain (plain_of_isBlank hc).1 (plain_of_isBlank hc).2 (ih hw)
  have hbehind := hblanks back hback (hblanks front hfront hrest).dot
  have hpart := h.append hbehind (fun c q hc ↦ ?_) (by simp)
  · simpa using hpart
  · intro hhead
    cases back with
    | nil => exact ne_closer hc (.inr rfl) (Option.some.inj hhead)
    | cons d back => exact ne_closer hc (.inl (hback d List.mem_cons_self)) (Option.some.inj hhead)

end Parts

/-! ### Joined names -/

/-- The name that trimmed parts stand for. -/
def ofRead (parts : List (List Char)) : Option ObjectName :=
  match parts.reverse with
  | [] => none
  | name :: rest =>
    if name.isEmpty then none
    else
      let schema := rest.head?.filter fun s ↦ !s.isEmpty
      some ⟨schema.map String.ofList, String.ofList name⟩

theorem parse?_eq (input : String) : parse? input =
    (splitParts none (Text.trimChars input.toList)).bind fun parts ↦
      ofRead (parts.map Text.trimChars) := rfl

/-- The text is written as one part. -/
def OnePart (text : String) : Prop :=
  (splitParts none (Text.trimChars text.toList)).map List.length = some 1

instance (text : String) : Decidable (OnePart text) := inferInstanceAs (Decidable (_ = _))

/-- The text is written without quotes and without blanks at its ends. -/
def Plain (text : String) : Prop :=
  Text.Unpadded text ∧ ∀ c ∈ text.toList, closer? c = none

-- Decided along the text, since the quantifier alone would be tried on every character.
instance (text : String) : Decidable (Plain text) :=
  decidable_of_iff (Text.Unpadded text ∧ text.toList.all fun c ↦ (closer? c).isNone) (by
    simp only [Plain, List.all_eq_true, Option.isNone_iff_eq_none])

section Joined

variable {s n schema : String} {m : ObjectName}

/-- What a text of one part stands for, if that is a name. -/
theorem exists_part (hs : OnePart s) (hparse : parse s = .ok m) :
    ∃ p, Reads none (Text.trimChars s.toList) [p] ∧ Text.trimChars p ≠ [] ∧
      m = ⟨none, String.ofList (Text.trimChars p)⟩ := by
  obtain ⟨ps, hps, hlength⟩ := Option.map_eq_some_iff.mp hs
  obtain ⟨p, rfl⟩ := List.length_eq_one_iff.mp hlength
  refine ⟨p, reads_of_splitParts hps, ?_⟩
  have hread := parse_eq_ok_iff.mp hparse
  rw [parse?_eq, hps] at hread
  simp only [Option.bind_some, List.map_cons, List.map_nil, ofRead, List.reverse_singleton] at hread
  split at hread
  · cases hread
  · rename_i hne
    exact ⟨fun h ↦ hne (by simp [h]), (Option.some.inj hread).symm⟩

theorem trimChars_consChars {front : List Char} (hfront : ∀ c ∈ front, Text.isBlank c)
    {ps : List (List Char)} (hps : ps ≠ []) :
    (consChars front ps).map Text.trimChars = ps.map Text.trimChars := by
  cases ps with
  | nil => exact absurd rfl hps
  | cons p ps => simp [Text.trimChars_append_left hfront]

/-- Texts that are joined by a dot begin and end where the trimmed texts do. -/
theorem trimChars_joined {cs ds : List Char} (hcs : Text.trimChars cs ≠ [])
    (hds : Text.trimChars ds ≠ []) : ∃ back front, (∀ c ∈ back, Text.isBlank c) ∧
      (∀ c ∈ front, Text.isBlank c) ∧ Text.trimChars (cs ++ '.' :: ds) =
        Text.trimChars cs ++ (back ++ '.' :: (front ++ Text.trimChars ds)) := by
  obtain ⟨front₁, back, hfront₁, hback, hcut⟩ := Text.exists_blanks cs
  obtain ⟨front, back₁, hfront, hback₁, hcut'⟩ := Text.exists_blanks ds
  refine ⟨back, front, hback, hfront, ?_⟩
  have hwhole : cs ++ '.' :: ds = front₁ ++ ((Text.trimChars cs ++
      (back ++ '.' :: (front ++ Text.trimChars ds))) ++ back₁) := by
    conv_lhs => rw [hcut, hcut']
    simp
  rw [hwhole, Text.trimChars_append_left hfront₁, Text.trimChars_append_right hback₁,
    Text.trimChars_eq_self_iff]
  have hfirst := (Text.trimChars_eq_self_iff _).mp (Text.trimChars_trimChars cs)
  have hlast := (Text.trimChars_eq_self_iff _).mp (Text.trimChars_trimChars ds)
  constructor
  · rw [List.head?_append_of_ne_nil _ hcs]
    exact hfirst.1
  · rw [← List.cons_append, ← List.append_assoc, ← List.append_assoc,
      List.getLast?_append_of_ne_nil _ hds]
    exact hlast.2

/-- A part in front of others is the schema if only the name stands behind it. -/
theorem ofRead_cons {part : List Char} (hpart : part ≠ []) {parts : List (List Char)}
    (h : ofRead parts = some m) (hm : m.schema = none) :
    ofRead (part :: parts) =
      some (if parts.length = 1 then ⟨some (String.ofList part), m.name⟩ else m) := by
  rw [ofRead] at h
  split at h
  · cases h
  · rename_i name rest hparts
    have hlength : parts.length = rest.length + 1 := by
      rw [← List.length_reverse, hparts, List.length_cons]
    have hread : (part :: parts).reverse = name :: (rest ++ [part]) := by
      rw [List.reverse_cons, hparts, List.cons_append]
    split at h
    · cases h
    · rename_i hname
      obtain rfl := Option.some.inj h
      simp only [ofRead, hread, if_neg hname, hlength, Option.some.injEq]
      cases rest with
      | nil => simp [hpart]
      | cons q rest => simp

/-- A name without a schema behind a written schema is in the schema that this stands for, unless it
is itself written in several parts. -/
theorem parse_joined (hs : OnePart s) (hschema : parse s = .ok ⟨none, schema⟩)
    (hn : parse n = .ok m) (hm : m.schema = none) :
    parse (s ++ "." ++ n) = .ok (if OnePart n then ⟨some schema, m.name⟩ else m) := by
  obtain ⟨p, hp, hpart, hstands⟩ := exists_part hs hschema
  obtain rfl : schema = String.ofList (Text.trimChars p) := congrArg ObjectName.name hstands
  have hread := parse_eq_ok_iff.mp hn
  rw [parse?_eq, Option.bind_eq_some_iff] at hread
  obtain ⟨ps, hps, hread⟩ := hread
  have hfirst : Text.trimChars s.toList ≠ [] := by
    intro hnil
    rw [hnil] at hp
    have hempty := List.sublist_nil.mp hp.sublist
    rw [List.flatten_singleton] at hempty
    exact hpart (by rw [hempty]; rfl)
  have hsecond : Text.trimChars n.toList ≠ [] := by
    intro hnil
    rw [hnil] at hps
    obtain rfl := Option.some.inj hps
    cases hread
  obtain ⟨back, front, hback, hfront, htrim⟩ := trimChars_joined hfirst hsecond
  have hsplit := (hp.joined (reads_of_splitParts hps) hback hfront).splitParts_eq
  have hone : (ps.map Text.trimChars).length = 1 ↔ OnePart n := by
    rw [OnePart, hps, List.length_map, Option.map_some, Option.some_inj]
  have htext : (s ++ "." ++ n).toList = s.toList ++ '.' :: n.toList := by simp
  rw [parse_eq_ok_iff, parse?_eq, htext, htrim, hsplit, Option.bind_some, List.map_cons,
    Text.trimChars_append_right hback, trimChars_consChars hfront (reads_of_splitParts hps).ne_nil,
    ofRead_cons hpart hread hm, Option.some_inj]
  exact if_congr hone rfl rfl

/-- A text of one part stands for itself exactly if it is plain; otherwise something is left out. -/
theorem part_eq_self_iff (hs : OnePart s) (hschema : parse s = .ok ⟨none, schema⟩) :
    schema.toList.Sublist s.toList ∧ (schema = s ↔ Plain s) := by
  obtain ⟨p, hp, -, hstands⟩ := exists_part hs hschema
  obtain rfl : schema = String.ofList (Text.trimChars p) := congrArg ObjectName.name hstands
  have hread : p.Sublist (Text.trimChars s.toList) := by simpa using hp.sublist
  have htrim := Text.trimChars_sublist s.toList
  have hpart := Text.trimChars_sublist p
  have hsublist := (hpart.trans hread).trans htrim
  rw [String.toList_ofList]
  refine ⟨hsublist, ?_⟩
  rw [← String.toList_inj, String.toList_ofList]
  constructor
  · intro hsame
    -- None of the three steps has left anything out.
    have hlength := congrArg List.length hsame
    have hsame₁ : Text.trimChars s.toList = s.toList :=
      htrim.eq_of_length_le (hlength.symm.le.trans (hpart.trans hread).length_le)
    refine ⟨(Text.trim_eq_self_iff s).mp ?_, ?_⟩
    · rw [Text.trim, hsame₁, String.ofList_toList]
    · rw [hsame₁] at hp
      rcases hp.plain_or_length_lt rfl with hplain | hshorter
      · exact hplain
      · have hle := hpart.length_le
        simp only [List.flatten_singleton] at hshorter
        omega
  · rintro ⟨hunpadded, hplain⟩
    have hsame₁ : Text.trimChars s.toList = s.toList := by
      rw [← String.toList_inj.mpr ((Text.trim_eq_self_iff s).mpr hunpadded), Text.trim,
        String.toList_ofList, Text.trimChars_trimChars]
    rw [hsame₁] at hp
    rw [hp.eq_of_plain hplain, hsame₁]

end Joined

end ObjectName

end SchemaSql
