import SchemaSql.Dialect.Quote
import SchemaSql.Error
import SchemaSql.Proofs.Text.Trimmed

/-!
Quoted names that are read back. The reader of names takes a quoted part for what was quoted,
whatever characters that has and in whichever style, and keeps it apart from the other part. But it
trims the parts once their quotes are gone, so that blanks at the ends of a part are lost inside
quotes as they are outside: a name is read back exactly if no end of its parts is blank.
-/

set_option autoImplicit false
set_option relaxedAutoImplicit false

namespace SchemaSql

namespace ObjectName

/-! ### Parts of a written name -/

/-- Puts characters in front of the first part. -/
def consChars (cs : List Char) (parts : List (List Char)) : List (List Char) :=
  cs.foldr consPart parts

@[simp] theorem consChars_cons (cs p : List Char) (ps : List (List Char)) :
    consChars cs (p :: ps) = (cs ++ p) :: ps := by
  induction cs with
  | nil => rfl
  | cons c cs ih =>
    rw [consChars, List.foldr_cons, ← consChars, ih]
    rfl

/-- A character that does not end the quotes is read into the part. -/
theorem splitParts_of_ne {q c : Char} (h : c ≠ q) {cs : List Char} (hcs : cs ≠ []) :
    splitParts (some q) (c :: cs) = (splitParts (some q) cs).map (consPart c) := by
  cases cs with
  | nil => exact absurd rfl hcs
  | cons d ds => rw [splitParts, if_neg h]

/-- What was quoted is read up to the closing character, and the rest from there. -/
theorem splitParts_double (q : Char) (cs : List Char) {rest : List Char}
    (hrest : rest.head? ≠ some q) :
    splitParts (some q) (Dialect.double q cs ++ q :: rest) =
      (splitParts none rest).map (consChars cs) := by
  induction cs with
  | nil =>
    rw [Dialect.double, List.nil_append]
    refine Eq.trans ?_ Option.map_id'.symm
    cases rest with
    | nil => simp [splitParts]
    | cons d ds =>
      have hd : d ≠ q := fun h ↦ hrest (congrArg some h)
      simp [splitParts, hd]
  | cons c cs ih =>
    have hcons : consChars (c :: cs) = consPart c ∘ consChars cs := rfl
    rw [Dialect.double, hcons, ← Option.map_map, ← ih]
    split
    · rename_i hc
      rw [hc, List.cons_append, List.cons_append, splitParts, if_pos rfl, if_pos rfl]
    · rename_i hc
      exact splitParts_of_ne hc (by simp)

/-- Characters without a meaning of their own are read into the first part. -/
theorem splitParts_append {w : List Char} (hw : ∀ c ∈ w, closer? c = none ∧ c ≠ '.')
    (rest : List Char) :
    splitParts none (w ++ rest) = (splitParts none rest).map (consChars w) := by
  induction w with
  | nil => exact Option.map_id'.symm
  | cons c w ih =>
    obtain ⟨⟨hquote, hdot⟩, hw⟩ := List.forall_mem_cons.mp hw
    have hcons : consChars (c :: w) = consPart c ∘ consChars w := rfl
    rw [List.cons_append, splitParts, hquote, hcons, ← Option.map_map, ← ih hw]
    exact if_neg hdot

theorem plain_of_isBlank {c : Char} (h : Text.isBlank c) : closer? c = none ∧ c ≠ '.' := by
  have hne (d : Char) (hd : Text.isBlank d = false) : c ≠ d := by
    rintro rfl
    rw [hd] at h
    cases h
  have hbracket := hne '[' (by decide)
  have hback := hne backquote (by decide)
  have hdouble := hne '"' (by decide)
  exact ⟨by simp [closer?, hbracket, hback, hdouble], hne '.' (by decide)⟩

theorem splitParts_quoteChars (d : Dialect) (cs : List Char) {rest : List Char}
    (hrest : rest.head? ≠ some d.closeQuote) :
    splitParts none (d.quoteChars cs ++ rest) = (splitParts none rest).map (consChars cs) := by
  have hquote : closer? d.openQuote = some d.closeQuote := by cases d <;> rfl
  rw [Dialect.quoteChars, List.cons_append, List.append_assoc, splitParts, hquote]
  exact splitParts_double d.closeQuote cs hrest

/-- What is read of parts: each of them without the blanks at its ends. A schema with nothing left
is no schema, and without a name there is none. -/
def trimmed? (schema : Option String) (name : String) : Option ObjectName :=
  if (Text.trim name).isEmpty then none
  else some ⟨(schema.map Text.trim).filter fun s ↦ !s.isEmpty, Text.trim name⟩

theorem isEmpty_ofList (cs : List Char) : (String.ofList cs).isEmpty = cs.isEmpty := by
  cases cs <;> simp

theorem parse?_of_parts {input : String} (schema : Option (List Char)) (name : List Char)
    (h : splitParts none (Text.trimChars input.toList) = some (schema.toList ++ [name])) :
    parse? input = trimmed? (schema.map String.ofList) (String.ofList name) := by
  have hschema : ((schema.map String.ofList).map Text.trim).filter (fun s ↦ !s.isEmpty) =
      ((schema.map Text.trimChars).filter fun cs ↦ !cs.isEmpty).map String.ofList := by
    have htrim : Text.trim ∘ String.ofList = String.ofList ∘ Text.trimChars := by
      funext cs
      simp [Text.trim]
    have hempty : (fun s : String ↦ !s.isEmpty) ∘ String.ofList = fun cs ↦ !cs.isEmpty := by
      funext cs
      exact congrArg not (isEmpty_ofList cs)
    rw [Option.map_map, htrim, ← Option.map_map, Option.filter_map, hempty]
  rw [parse?, h, trimmed?, hschema, Text.trim, isEmpty_ofList, String.toList_ofList]
  cases schema <;> simp

/-! ### Quoted parts with blanks around them -/

section Blanks

variable {w w₁ w₂ w₃ w₄ : List Char}

/-- A text that begins and ends with quotes is not trimmed. -/
theorem trimChars_of_quotes (d₁ d₂ : Dialect) {cs : List Char}
    (hhead : cs.head? = some d₁.openQuote) (hlast : cs.getLast? = some d₂.closeQuote) :
    Text.trimChars cs = cs := by
  have hopen : Text.isBlank d₁.openQuote = false := by cases d₁ <;> decide
  have hclose : Text.isBlank d₂.closeQuote = false := by cases d₂ <;> decide
  rw [Text.trimChars_eq_self_iff, hhead, hlast]
  simp [hopen, hclose]

theorem getLast?_quoteChars (d : Dialect) (cs : List Char) :
    (d.quoteChars cs).getLast? = some d.closeQuote := by
  rw [Dialect.quoteChars, ← List.cons_append, List.getLast?_concat]

/-- Blanks do not end quotes. -/
theorem head?_append_ne (hw : ∀ c ∈ w, Text.isBlank c) (d : Dialect) {rest : List Char}
    (hrest : rest.head? ≠ some d.closeQuote) : (w ++ rest).head? ≠ some d.closeQuote := by
  cases w with
  | nil => exact hrest
  | cons c w =>
    intro h
    obtain rfl := Option.some.inj h
    have hblank := hw d.closeQuote List.mem_cons_self
    cases d <;> exact absurd hblank (by decide)

theorem splitParts_quoteChars_nil (d : Dialect) (cs : List Char) :
    splitParts none (d.quoteChars cs) = some [cs] := by
  have hend : ([] : List Char).head? ≠ some d.closeQuote := by simp
  have hread := splitParts_quoteChars d cs hend
  rw [List.append_nil] at hread
  simpa [splitParts] using hread

/-- The parts of a quoted name are what was quoted, with the blanks between the quotes and the
dot. -/
theorem splitParts_quoted (hw₂ : ∀ c ∈ w₂, Text.isBlank c) (hw₃ : ∀ c ∈ w₃, Text.isBlank c)
    (d₁ d₂ : Dialect) (schema name : List Char) :
    splitParts none (d₁.quoteChars schema ++ (w₂ ++ '.' :: (w₃ ++ d₂.quoteChars name))) =
      some [schema ++ w₂, w₃ ++ name] := by
  have hdot : ('.' :: (w₃ ++ d₂.quoteChars name)).head? ≠ some d₁.closeQuote := by
    cases d₁ <;> exact fun h ↦ absurd (Option.some.inj h) (by decide)
  have hplain : closer? '.' = none := by decide
  rw [splitParts_quoteChars d₁ schema (head?_append_ne hw₂ d₁ hdot),
    splitParts_append fun c hc ↦ plain_of_isBlank (hw₂ c hc), splitParts, hplain]
  simp only [if_true]
  rw [splitParts_append (fun c hc ↦ plain_of_isBlank (hw₃ c hc)), splitParts_quoteChars_nil]
  simp

/-- A name is read as its quoted parts, each trimmed, in whatever styles they are quoted. -/
theorem parse?_quoted (hw₁ : ∀ c ∈ w₁, Text.isBlank c) (hw₂ : ∀ c ∈ w₂, Text.isBlank c)
    (hw₃ : ∀ c ∈ w₃, Text.isBlank c) (hw₄ : ∀ c ∈ w₄, Text.isBlank c) (d₁ d₂ : Dialect)
    (schema name : String) :
    parse? (String.ofList (w₁ ++ d₁.quoteChars schema.toList ++ w₂ ++ ['.'] ++ w₃ ++
        d₂.quoteChars name.toList ++ w₄)) = trimmed? (some schema) name := by
  have htrim : Text.trimChars (w₁ ++ d₁.quoteChars schema.toList ++ w₂ ++ ['.'] ++ w₃ ++
      d₂.quoteChars name.toList ++ w₄) =
        d₁.quoteChars schema.toList ++ (w₂ ++ '.' :: (w₃ ++ d₂.quoteChars name.toList)) := by
    rw [Text.trimChars_append_right hw₄]
    simp only [List.append_assoc]
    rw [Text.trimChars_append_left hw₁, List.singleton_append]
    exact trimChars_of_quotes d₁ d₂ rfl (by simp [getLast?_quoteChars, List.getLast?_cons])
  rw [parse?_of_parts (some (schema.toList ++ w₂)) (w₃ ++ name.toList)]
  · simp only [trimmed?, Text.trim, String.toList_ofList, Option.map_some,
      Text.trimChars_append_right hw₂, Text.trimChars_append_left hw₃]
    rfl
  · rw [String.toList_ofList, htrim]
    exact splitParts_quoted hw₂ hw₃ d₁ d₂ _ _

end Blanks

/-- A name is read as a dialect quotes it, each part trimmed; what is written for Access has no
schema. -/
theorem parse?_quoteName (d : Dialect) (schema : Option String) (name : String) :
    parse? (d.quoteName ⟨schema, name⟩) =
      trimmed? (if d = .access then none else schema) name := by
  have hname : parse? (d.quote name) = trimmed? none name := by
    rw [parse?_of_parts none name.toList, String.ofList_toList, Option.map_none]
    rw [Dialect.quote, String.toList_ofList,
      trimChars_of_quotes d d rfl (getLast?_quoteChars d _)]
    exact splitParts_quoteChars_nil d name.toList
  cases schema with
  | none => cases d <;> exact hname
  | some schema =>
    have hparts : parse? (d.quote schema ++ "." ++ d.quote name) = trimmed? (some schema) name := by
      have hnone : ∀ c ∈ ([] : List Char), Text.isBlank c := by simp
      rw [← parse?_quoted hnone hnone hnone hnone d d]
      congr 1
      simp [Dialect.quote, ← String.toList_inj]
    cases d with
    | access => exact hname
    | _ => exact hparts

theorem parse_eq_ok_iff {input : String} {n : ObjectName} :
    parse input = .ok n ↔ parse? input = some n := by
  rw [parse]
  cases parse? input <;> simp

/-- Parts are read as they are if no end of them is blank. -/
theorem trimmed?_eq_some_iff {schema : Option String} {name : String} (hschema : schema ≠ some "")
    (hname : name ≠ "") : trimmed? schema name = some ⟨schema, name⟩ ↔
      (∀ s ∈ schema, Text.Unpadded s) ∧ Text.Unpadded name := by
  have hread : (schema.map Text.trim).filter (fun s ↦ !s.isEmpty) = schema ↔
      ∀ s ∈ schema, Text.trim s = s := by
    cases schema with
    | none => simp
    | some s =>
      have hs : s ≠ "" := fun h ↦ hschema (congrArg some h)
      constructor
      · intro h t ht
        obtain rfl := Option.some.inj ht
        rw [Option.map_some, Option.filter_some] at h
        split at h
        · exact Option.some.inj h
        · cases h
      · intro h
        rw [Option.map_some, h s rfl, Option.filter_some]
        simp [hs]
  simp only [← Text.trim_eq_self_iff, ← hread]
  rw [trimmed?]
  split
  · rename_i hempty
    have hlost : Text.trim name ≠ name := fun h ↦ hname (String.isEmpty_iff.mp (h ▸ hempty))
    simp [hlost]
  · simp

/-- Names are read back as they are quoted if no end of their parts is blank, and only then: as a
dialect quotes them, where Access leaves the schema out, and with their parts in any styles and
blanks around the quotes. -/
theorem parse_quoted_iff {schema name : String} (hschema : schema ≠ "") (hname : name ≠ "") :
    (∀ d : Dialect, d ≠ .access →
      (parse (d.quoteName ⟨some schema, name⟩) = .ok ⟨some schema, name⟩ ↔
        Text.Unpadded schema ∧ Text.Unpadded name)) ∧
      (parse (Dialect.access.quoteName ⟨some schema, name⟩) = .ok ⟨none, name⟩ ↔
        Text.Unpadded name) ∧
      ∀ (d₁ d₂ : Dialect) (w₁ w₂ w₃ w₄ : List Char),
        (∀ c ∈ w₁ ++ w₂ ++ w₃ ++ w₄, Text.isBlank c) →
        (parse (String.ofList (w₁ ++ d₁.quoteChars schema.toList ++ w₂ ++ ['.'] ++ w₃ ++
            d₂.quoteChars name.toList ++ w₄)) = .ok ⟨some schema, name⟩ ↔
          Text.Unpadded schema ∧ Text.Unpadded name) := by
  have hboth : trimmed? (some schema) name = some ⟨some schema, name⟩ ↔
      Text.Unpadded schema ∧ Text.Unpadded name := by
    rw [trimmed?_eq_some_iff (fun h ↦ hschema (Option.some.inj h)) hname]
    simp
  refine ⟨fun d hd ↦ ?_, ?_, fun d₁ d₂ w₁ w₂ w₃ w₄ hw ↦ ?_⟩
  · rw [parse_eq_ok_iff, parse?_quoteName, if_neg hd, hboth]
  · rw [parse_eq_ok_iff, parse?_quoteName, if_pos rfl, trimmed?_eq_some_iff (by simp) hname]
    simp
  · simp only [List.forall_mem_append] at hw
    obtain ⟨⟨⟨hw₁, hw₂⟩, hw₃⟩, hw₄⟩ := hw
    rw [parse_eq_ok_iff, parse?_quoted hw₁ hw₂ hw₃ hw₄, hboth]

/-- A name that begins with a blank is not read back as it is quoted, though one with a blank, a dot
and quotes inside is, in any styles. -/
theorem indentedName_not_read :
    parse (Dialect.sqlite.quoteName ⟨some "app", " Users"⟩) ≠ .ok ⟨some "app", " Users"⟩ ∧
      parse (String.ofList (Dialect.sqlServer.quoteChars "my.app".toList ++ [' ', '.'] ++
        Dialect.mySql.quoteChars "All ]Users".toList)) = .ok ⟨some "my.app", "All ]Users"⟩ := by
  constructor
  · intro hread
    have hschema : "app" ≠ "" := by decide
    have hname : " Users" ≠ "" := by decide
    have hvisible := (((parse_quoted_iff hschema hname).1 .sqlite (by decide)).mp hread).2
    exact absurd hvisible (by decide)
  · have hschema : "my.app" ≠ "" := by decide
    have hname : "All ]Users" ≠ "" := by decide
    have hblank : ∀ c ∈ [] ++ [' '] ++ [] ++ [], Text.isBlank c := by simp; rfl
    exact ((parse_quoted_iff hschema hname).2.2 .sqlServer .mySql [] [' '] [] [] hblank).mpr
      ⟨by decide, by decide⟩

end ObjectName

end SchemaSql
