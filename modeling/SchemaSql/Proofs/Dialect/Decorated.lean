import SchemaSql.Dialect.Types
import SchemaSql.Proofs.Catalog.Answering
import SchemaSql.Proofs.Text.Trimmed

/-!
Type names with arguments. A type name is read up to its first parenthesis, so its arguments are
never looked at, but neither is any word that stands behind them. A name with arguments has the type
of the words in front of them. Where nothing but blanks and the word `unsigned` follows, that is the
type of the name without its arguments, in every dialect and letter case; any other word that
follows makes the two differ under some words in front of it, and SQL has such names: a timestamp
with a precision and a time zone is read as one without a time zone.
-/

set_option autoImplicit false
set_option relaxedAutoImplicit false

namespace SchemaSql

/-! ### Parts that are cut, removed and trimmed -/

namespace Text

variable {part cs a b : List Char} {c : Char}

/-- A text ends before a character that it does not have. -/
theorem prefix_append_iff (hc : c ∉ part) : part <+: a ++ c :: b ↔ part <+: a := by
  refine ⟨fun h ↦ ?_, fun h ↦ h.trans (List.prefix_append a _)⟩
  have hstop : a ++ [c] <+: a ++ c :: b := ⟨b, by simp⟩
  rcases List.prefix_or_prefix_of_prefix h hstop with h | h
  · rcases List.prefix_concat_iff.mp h with rfl | h
    · exact absurd (by simp) hc
    · exact h
  · exact absurd (h.subset (by simp)) hc

/-- A text is removed on either side of a character that it does not have. -/
theorem removeAll_append (hc : c ∉ part) (b : List Char) {skip : Nat} (hskip : skip ≤ a.length) :
    removeAll part skip (a ++ c :: b) = removeAll part skip a ++ c :: removeAll part 0 b := by
  induction a generalizing skip with
  | nil =>
    obtain rfl : skip = 0 := Nat.le_zero.mp hskip
    have hnot : ¬ (part ≠ [] ∧ part.isPrefixOf (c :: b)) := by
      rintro ⟨hne, hprefix⟩
      exact hne (List.prefix_nil.mp
        ((prefix_append_iff (a := []) hc).mp (List.isPrefixOf_iff_prefix.mp hprefix)))
    simp only [List.nil_append, removeAll, if_neg hnot]
  | cons x a ih =>
    cases skip with
    | zero =>
      have hsame : part.isPrefixOf (x :: (a ++ c :: b)) = part.isPrefixOf (x :: a) := by
        rw [Bool.eq_iff_iff, List.isPrefixOf_iff_prefix, List.isPrefixOf_iff_prefix,
          ← List.cons_append, prefix_append_iff hc]
      simp only [List.cons_append, removeAll, hsame]
      split
      · rename_i hfound
        have hlength := (List.isPrefixOf_iff_prefix.mp hfound.2).length_le
        exact ih (by simp only [List.length_cons] at hlength; omega)
      · rw [ih (Nat.zero_le _)]
        rfl
    | succ skip => exact ih (Nat.le_of_succ_le_succ hskip)

theorem trimChars_eq_nil_iff : trimChars cs = [] ↔ ∀ c ∈ cs, isBlank c := by
  rw [trimChars, dropTrailing_eq, List.rdropWhile_eq_nil_iff]
  refine ⟨fun h ↦ List.dropWhile_eq_nil_iff.mp ?_,
    fun h c hc ↦ h c ((List.dropWhile_suffix _).subset hc)⟩
  cases hrest : cs.dropWhile isBlank with
  | nil => rfl
  | cons d ds =>
    have hfirst := List.head_dropWhile_not isBlank (l := cs) (by simp [hrest])
    simp only [hrest, List.head_cons] at hfirst
    rw [h d (by simp [hrest])] at hfirst
    cases hfirst

/-- Trimming does not reach what stands in front of a character that is not blank. -/
theorem prefix_trimChars (hc : isBlank c = false) (hb : trimChars b ≠ []) :
    c :: a <+: trimChars (c :: a ++ b) := by
  have hfront : (c :: a ++ b).dropWhile isBlank = c :: a ++ b :=
    List.dropWhile_cons_of_neg (by simp [hc])
  have hback : (b.reverse.dropWhile isBlank).isEmpty = false := by
    rw [List.isEmpty_eq_false_iff]
    intro h
    refine hb (trimChars_eq_nil_iff.mpr fun c hc ↦ ?_)
    exact List.dropWhile_eq_nil_iff.mp h c (List.mem_reverse.mpr hc)
  rw [trimChars, dropTrailing_eq, hfront, List.rdropWhile, List.reverse_append,
    List.dropWhile_append, hback]
  simp

end Text

namespace Dialect

/-! ### Type names -/

variable {head args tail text text' : String}

/-- A type name of some words and some more. -/
def plainName (head tail : String) : String := if tail.isEmpty then head else head ++ " " ++ tail

/-- A type name with arguments behind some of its words. -/
def decoratedName (head args tail : String) : String := plainName (head ++ "(" ++ args ++ ")") tail

/-- The type of a name does not depend on its letter case. -/
theorem dbType?_congr (d : Dialect) (h : Text.sameAscii text text') :
    d.dbType? text = d.dbType? text' := by
  rw [Text.sameAscii_iff] at h
  simp only [dbType?, baseTypeName, h]

/-- What is left of a type name in front of its arguments, in small letters. -/
def keptName (typeName : List Char) : List Char :=
  Text.removeAll "unsigned".toList 0 ((typeName.map Char.toLower).takeWhile fun c ↦ c != '(')

theorem baseTypeName_eq (cs : List Char) : baseTypeName cs = Text.trimChars (keptName cs) := rfl

section Words

variable {cs : List Char} (hcs : '(' ∉ cs)
include hcs

/-- No letter is a parenthesis in small letters. -/
theorem lower_ne_paren : ∀ c ∈ cs.map Char.toLower, (c != '(') = true := by
  intro c hc
  obtain ⟨x, hx, rfl⟩ := List.mem_map.mp hc
  refine bne_iff_ne.mpr fun hparen ↦ ?_
  rcases toLower_eq_or x with hsame | ⟨-, halpha⟩
  · exact hcs (hparen ▸ hsame.symm ▸ hx)
  · rw [hparen] at halpha
    cases halpha

/-- Arguments and what stands behind them are cut off. -/
theorem keptName_arguments (rest : List Char) : keptName (cs ++ '(' :: rest) = keptName cs := by
  have hparen : ('('.toLower != '(') = false := rfl
  simp only [keptName, List.map_append, List.map_cons, List.takeWhile_cons, hparen,
    List.takeWhile_append_of_pos (lower_ne_paren hcs),
    List.takeWhile_eq_self_iff.mpr (lower_ne_paren hcs)]
  simp

/-- What is left of some words and some more is what is left of both. -/
theorem keptName_words (tail : List Char) :
    keptName (cs ++ ' ' :: tail) = keptName cs ++ ' ' :: keptName tail := by
  have hspace : (' '.toLower != '(') = true := rfl
  have hnot : ' ' ∉ "unsigned".toList := by decide
  simp only [keptName, List.map_append, List.map_cons, List.takeWhile_cons, hspace, if_true,
    List.takeWhile_append_of_pos (lower_ne_paren hcs),
    List.takeWhile_eq_self_iff.mpr (lower_ne_paren hcs)]
  exact Text.removeAll_append hnot _ (Nat.zero_le _)

end Words

/-- Arguments and all that stands behind them are not looked at. -/
theorem dbType?_decoratedName (d : Dialect) (hhead : '(' ∉ head.toList) (args tail : String) :
    d.dbType? (decoratedName head args tail) = d.dbType? head := by
  have hcut : ∃ rest, (decoratedName head args tail).toList = head.toList ++ '(' :: rest := by
    rw [decoratedName, plainName]
    split <;> simp
  obtain ⟨rest, hcut⟩ := hcut
  rw [dbType?, hcut, baseTypeName_eq, keptName_arguments hhead, ← baseTypeName_eq, ← dbType?]

theorem toList_plainName (head : String) (htail : tail.isEmpty = false) :
    (plainName head tail).toList = head.toList ++ ' ' :: tail.toList := by
  simp [plainName, htail]

/-- A tail that is nothing but blanks and `unsigned` adds nothing to a type name. -/
theorem dbType?_plainName (d : Dialect) (hhead : '(' ∉ head.toList)
    (htail : baseTypeName tail.toList = []) : d.dbType? (plainName head tail) = d.dbType? head := by
  cases hempty : tail.isEmpty with
  | true => rw [plainName, if_pos hempty]
  | false =>
    have hblank : ∀ c ∈ ' ' :: keptName tail.toList, Text.isBlank c :=
      List.forall_mem_cons.mpr ⟨by decide, Text.trimChars_eq_nil_iff.mp htail⟩
    rw [dbType?, toList_plainName head hempty, baseTypeName_eq, keptName_words hhead,
      Text.trimChars_append_right hblank, ← baseTypeName_eq, ← dbType?]

/-- No dialect lists a name that begins with the word `date`, nor takes one for a date by a part
of it. -/
theorem dbType?_dated (d : Dialect) (h : baseTypeName tail.toList ≠ []) :
    d.dbType? (plainName "date" tail) ≠ d.dbType? "date" := by
  have hempty : tail.isEmpty = false := by
    rw [Bool.eq_false_iff]
    intro hempty
    rw [String.isEmpty_iff.mp hempty] at h
    exact h rfl
  have hbase : "date ".toList <+: baseTypeName (plainName "date" tail).toList := by
    rw [toList_plainName _ hempty, baseTypeName_eq, keptName_words (by decide)]
    exact Text.prefix_trimChars (a := "ate ".toList) (by decide) h
  have hlisted : ∀ e ∈ d.typeNames, ∀ n ∈ e.1, ¬ "date ".toList <+: n.toList := by
    cases d <;> decide
  have hparts : ∀ e ∈ d.typeNameParts, some e.2 ≠ d.dbType? "date" := by
    cases d <;> decide
  have hknown : d.dbType? "date" ≠ none := by cases d <;> decide
  rw [dbType?]
  split
  · rename_i e he
    -- A listed name would have to begin with the word and a blank.
    have hany := List.find?_some he
    obtain ⟨n, hn, hsame⟩ := List.any_eq_true.mp hany
    rw [← eq_of_beq hsame] at hbase
    exact absurd hbase (hlisted e (List.mem_of_find?_eq_some he) n hn)
  · cases hpart : d.typeNameParts.find? fun e ↦ e.1.any fun n ↦
        Text.occursIn n.toList (baseTypeName (plainName "date" tail).toList) with
    | none => exact fun h ↦ hknown h.symm
    | some e => exact hparts e (List.mem_of_find?_eq_some hpart)

/-- A type name with arguments has the type of the words in front of them, in any letter case. For
all words in front and all arguments that is the type of the name without its arguments exactly if
the words behind them are no other than `unsigned`. -/
theorem dbType?_decorated (d : Dialect) (tail : String) :
    (∀ head args text : String, '(' ∉ head.toList →
        Text.sameAscii text (decoratedName head args tail) → d.dbType? text = d.dbType? head) ∧
      ((∀ head args text text' : String, '(' ∉ head.toList → ')' ∉ head.toList →
          '(' ∉ args.toList → ')' ∉ args.toList →
          Text.sameAscii text (decoratedName head args tail) →
          Text.sameAscii text' (plainName head tail) → d.dbType? text = d.dbType? text') ↔
        baseTypeName tail.toList = []) := by
  have hcut (head args text : String) (hhead : '(' ∉ head.toList)
      (htext : Text.sameAscii text (decoratedName head args tail)) :
      d.dbType? text = d.dbType? head := by
    rw [dbType?_congr d htext, dbType?_decoratedName d hhead]
  refine ⟨hcut, fun h ↦ ?_, fun htail head args text text' hhead _ _ _ htext htext' ↦ ?_⟩
  · by_contra htail
    refine dbType?_dated d htail ?_
    have hsame := h "date" "" _ _ (by decide) (by decide) (by decide) (by decide)
      (Text.sameAscii_self _) (Text.sameAscii_self _)
    rw [← hsame]
    exact dbType?_decoratedName d (by decide) "" tail
  · rw [hcut head args text hhead htext, dbType?_congr d htext', dbType?_plainName d hhead htail]

/-- The time zone of a timestamp is not seen behind its precision, while `unsigned` is not missed
behind a length. -/
theorem zonedTimestamp_misread :
    postgreSql.dbType? "timestamp(3) with time zone" = some .dateTime ∧
      postgreSql.dbType? "timestamp with time zone" = some .dateTimeOffset ∧
      mySql.dbType? "INT(10) UNSIGNED" = mySql.dbType? "int Unsigned" := by
  refine ⟨?_, by decide, ?_⟩
  · rw [(dbType?_decorated .postgreSql "with time zone").1 "timestamp" "3" _ (by decide) (by decide)]
    decide
  · exact (dbType?_decorated .mySql "unsigned").2.mpr (by decide) "int" "10" _ _ (by decide)
      (by decide) (by decide) (by decide) (by decide) (by decide)

end Dialect

end SchemaSql
