import SchemaSql.Dialect.Quote

/-!
Quoted identifiers at the front of a text. A scanner stops at the first closing character that is
not doubled, and quoting doubles all of them, so a scan ends where the quotes end and finds what was
quoted, whatever characters that has. Only a closing character right behind the quotes would be
taken for a part of them. So different identifiers are quoted differently, and the parts of a quoted
name are told apart.
-/

set_option autoImplicit false
set_option relaxedAutoImplicit false

namespace SchemaSql

namespace Dialect

/-! ### Identifiers -/

section Closing

variable {q c : Char} {cs text rest : List Char}

theorem scanClosing?_of_ne (h : c ≠ q) :
    scanClosing? q (c :: cs) = (scanClosing? q cs).map fun r ↦ (c :: r.1, r.2) := by
  cases cs with
  | nil => simp [scanClosing?, h]
  | cons d ds => rw [scanClosing?, if_neg h]

/-- What was doubled is scanned up to the closing character. -/
theorem scanClosing?_double (hrest : rest.head? ≠ some q) :
    scanClosing? q (double q cs ++ q :: rest) = some (cs, rest) := by
  induction cs with
  | nil =>
    rw [double, List.nil_append]
    cases rest with
    | nil => simp [scanClosing?]
    | cons d ds =>
      have hd : d ≠ q := fun h ↦ hrest (congrArg some h)
      simp [scanClosing?, hd]
  | cons c cs ih =>
    rw [double]
    split
    · rename_i hc
      rw [hc, List.cons_append, List.cons_append, scanClosing?, if_pos rfl, if_pos rfl, ih]
      rfl
    · rename_i hc
      rw [List.cons_append, scanClosing?_of_ne hc, ih]
      rfl

/-- A scan finds nothing but what was doubled. -/
theorem eq_of_scanClosing? (h : scanClosing? q text = some (cs, rest)) :
    text = double q cs ++ q :: rest ∧ rest.head? ≠ some q := by
  induction text using scanClosing?.induct q generalizing cs with
  | case1 => simp [scanClosing?] at h
  | case2 =>
    obtain ⟨rfl, rfl⟩ : [] = cs ∧ [] = rest := by simpa [scanClosing?] using h
    simp [double]
  | case3 c hc => simp [scanClosing?, hc] at h
  | case4 ds ih =>
    rw [scanClosing?, if_pos rfl, if_pos rfl] at h
    obtain ⟨⟨cs, rest⟩, hscan, hpair⟩ := Option.map_eq_some_iff.mp h
    obtain ⟨rfl, rfl⟩ := Prod.mk.inj hpair
    obtain ⟨rfl, hrest⟩ := ih hscan
    exact ⟨by simp [double], hrest⟩
  | case5 d ds hd =>
    rw [scanClosing?, if_pos rfl, if_neg hd] at h
    obtain ⟨rfl, rfl⟩ := Prod.mk.inj (Option.some.inj h)
    exact ⟨rfl, fun hhead ↦ hd (Option.some.inj hhead)⟩
  | case6 c d ds hc ih =>
    rw [scanClosing?_of_ne hc] at h
    obtain ⟨⟨cs, rest⟩, hscan, hpair⟩ := Option.map_eq_some_iff.mp h
    obtain ⟨rfl, rfl⟩ := Prod.mk.inj hpair
    obtain ⟨htext, hrest⟩ := ih hscan
    exact ⟨by rw [htext]; simp [double, hc], hrest⟩

end Closing

section Identifier

variable {d : Dialect} {text name rest : List Char}

/-- An identifier is scanned exactly if it stands quoted at the front, and no closing character
follows it. -/
theorem scanQuoted?_eq_some_iff : d.scanQuoted? text = some (name, rest) ↔
    text = d.quoteChars name ++ rest ∧ rest.head? ≠ some d.closeQuote := by
  constructor
  · intro h
    cases text with
    | nil => simp [scanQuoted?] at h
    | cons c cs =>
      rw [scanQuoted?] at h
      split at h
      · rename_i hopen
        obtain ⟨rfl, hrest⟩ := eq_of_scanClosing? h
        exact ⟨by simp [quoteChars, hopen], hrest⟩
      · cases h
  · rintro ⟨rfl, hrest⟩
    rw [quoteChars, List.cons_append, scanQuoted?, if_pos rfl, List.append_assoc]
    exact scanClosing?_double hrest

theorem scanQuoted?_quoteChars_iff : d.scanQuoted? (d.quoteChars name ++ rest) = some (name, rest) ↔
    rest.head? ≠ some d.closeQuote := by
  rw [scanQuoted?_eq_some_iff]
  simp

theorem toList_quote (d : Dialect) (s : String) : (d.quote s).toList = d.quoteChars s.toList := by
  rw [quote, String.toList_ofList]

end Identifier

/-! ### Names with their schemas -/

/-- What a dialect sees of a name: Access has no schemas. -/
def seen (d : Dialect) (n : ObjectName) : ObjectName :=
  if d = .access then { n with schema := none } else n

/-- Scans an identifier behind a dot, in dialects with schemas. -/
def scanBehindDot? (d : Dialect) : List Char → Option (List Char × List Char)
  | '.' :: text => if d = .access then none else d.scanQuoted? text
  | _ => none

/-- Scans a quoted name: one identifier, or two with a dot between them. -/
def scanName? (d : Dialect) (text : List Char) : Option (ObjectName × List Char) :=
  (d.scanQuoted? text).map fun first ↦
    match d.scanBehindDot? first.2 with
    | some second => (⟨some (String.ofList first.1), String.ofList second.1⟩, second.2)
    | none => (⟨none, String.ofList first.1⟩, first.2)

section Name

variable {d : Dialect} {text rest : List Char} {schema name : String}

theorem scanName?_eq_unqualified_iff : d.scanName? text = some (⟨none, name⟩, rest) ↔
    d.scanQuoted? text = some (name.toList, rest) ∧ d.scanBehindDot? rest = none := by
  rw [scanName?, Option.map_eq_some_iff]
  constructor
  · rintro ⟨⟨first, behind⟩, hscan, hname⟩
    split at hname
    · simp at hname
    · rename_i hnone
      obtain ⟨rfl, rfl⟩ : String.ofList first = name ∧ behind = rest := by simpa using hname
      exact ⟨by rw [hscan, String.toList_ofList], hnone⟩
  · rintro ⟨hscan, hnone⟩
    exact ⟨_, hscan, by simp [hnone]⟩

theorem scanName?_eq_qualified_iff : d.scanName? text = some (⟨some schema, name⟩, rest) ↔
    ∃ behind, d.scanQuoted? text = some (schema.toList, behind) ∧
      d.scanBehindDot? behind = some (name.toList, rest) := by
  rw [scanName?, Option.map_eq_some_iff]
  constructor
  · rintro ⟨⟨first, behind⟩, hscan, hname⟩
    split at hname
    · rename_i second hsecond
      obtain ⟨⟨rfl, rfl⟩, rfl⟩ : (String.ofList first = schema ∧ String.ofList second.1 = name) ∧
          second.2 = rest := by simpa using hname
      exact ⟨behind, by rw [hscan, String.toList_ofList], by simpa using hsecond⟩
    · simp at hname
  · rintro ⟨behind, hscan, hsecond⟩
    exact ⟨_, hscan, by simp [hsecond]⟩

theorem quoteName_unqualified (d : Dialect) (name : String) :
    d.quoteName ⟨none, name⟩ = d.quote name := by
  cases d <;> rfl

theorem quoteName_seen (d : Dialect) (n : ObjectName) : d.quoteName (d.seen n) = d.quoteName n := by
  cases d <;> rfl

theorem quoteName_qualified (hd : d ≠ .access) (schema name : String) (rest : List Char) :
    (d.quoteName ⟨some schema, name⟩).toList ++ rest =
      d.quoteChars schema.toList ++ '.' :: (d.quoteChars name.toList ++ rest) := by
  have htext : d.quoteName ⟨some schema, name⟩ = d.quote schema ++ "." ++ d.quote name := by
    cases d with
    | access => exact absurd rfl hd
    | _ => rfl
  rw [htext]
  simp [toList_quote]

/-- An identifier that no dot follows is a name without a schema. -/
theorem scanName?_quote_iff (hrest : d.scanBehindDot? rest = none) :
    d.scanName? ((d.quote name).toList ++ rest) = some (⟨none, name⟩, rest) ↔
      rest.head? ≠ some d.closeQuote := by
  rw [scanName?_eq_unqualified_iff, toList_quote, scanQuoted?_quoteChars_iff]
  exact and_iff_left hrest

/-- Both parts of a name with a schema are found again, or the one that the dialect sees. -/
theorem scanName?_quoteName_iff :
    d.scanName? ((d.quoteName ⟨some schema, name⟩).toList ++ rest) =
        some (d.seen ⟨some schema, name⟩, rest) ↔ rest.head? ≠ some d.closeQuote := by
  by_cases hd : d = .access
  · subst hd
    exact scanName?_quote_iff (by unfold scanBehindDot?; split <;> rfl)
  · rw [seen, if_neg hd, quoteName_qualified hd, scanName?_eq_qualified_iff]
    have hdot : ('.' :: (d.quoteChars name.toList ++ rest)).head? ≠ some d.closeQuote := by
      cases d <;> exact fun h ↦ absurd (Option.some.inj h) (by decide)
    rw [scanQuoted?_quoteChars_iff.mpr hdot]
    simp [scanBehindDot?, hd, scanQuoted?_quoteChars_iff]

/-- A quoted name is scanned for what the dialect sees of it. -/
theorem scanName?_quoteName (d : Dialect) (n : ObjectName) :
    d.scanName? (d.quoteName n).toList = some (d.seen n, []) := by
  have hend : ([] : List Char).head? ≠ some d.closeQuote := by simp
  rw [← List.append_nil (d.quoteName n).toList]
  obtain ⟨schema, name⟩ := n
  cases schema with
  | none =>
    have hseen : d.seen ⟨none, name⟩ = ⟨none, name⟩ := by cases d <;> rfl
    rw [quoteName_unqualified, hseen]
    exact (scanName?_quote_iff rfl).mpr hend
  | some schema => exact scanName?_quoteName_iff.mpr hend

/-- Names are quoted alike only if the dialect sees no difference between them. -/
theorem quoteName_inj {n m : ObjectName} :
    d.quoteName n = d.quoteName m ↔ d.seen n = d.seen m := by
  constructor
  · intro h
    have hboth : some (d.seen n, ([] : List Char)) = some (d.seen m, []) := by
      rw [← scanName?_quoteName, ← scanName?_quoteName, h]
    simpa using hboth
  · intro h
    rw [← quoteName_seen d n, h, quoteName_seen]

end Name

/-- No identifier gets out of its quotes. Scanned from the front of any text it is found as it was,
and the scan ends right behind it, unless a closing character follows; so identifiers that are
quoted alike are the same, and so are names with their schemas, as far as the dialect sees them. -/
theorem quote_scanned (d : Dialect) :
    (∀ (s : String) (rest : List Char),
      d.scanQuoted? ((d.quote s).toList ++ rest) = some (s.toList, rest) ↔
        rest.head? ≠ some d.closeQuote) ∧
      Function.Injective d.quote ∧
      (∀ (schema name : String) (rest : List Char),
        d.scanName? ((d.quoteName ⟨some schema, name⟩).toList ++ rest) =
            some (d.seen ⟨some schema, name⟩, rest) ↔ rest.head? ≠ some d.closeQuote) ∧
      ∀ n m : ObjectName, d.quoteName n = d.quoteName m ↔ d.seen n = d.seen m := by
  refine ⟨fun s rest ↦ ?_, fun s s' h ↦ ?_, fun _ _ _ ↦ scanName?_quoteName_iff,
    fun _ _ ↦ quoteName_inj⟩
  · rw [toList_quote]
    exact scanQuoted?_quoteChars_iff
  · have hname : d.quoteName ⟨none, s⟩ = d.quoteName ⟨none, s'⟩ := by
      rw [quoteName_unqualified, quoteName_unqualified, h]
    have hseen := quoteName_inj.mp hname
    cases d <;> simpa [seen] using hseen

end Dialect

end SchemaSql
