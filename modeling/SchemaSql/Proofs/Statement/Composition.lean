import Mathlib.Tactic.ByContra
import SchemaSql.Proofs.Statement.Texts

/-!
Fragments that are put together are rendered one after another. Only their parameters decide whether
they can be: no two of all of them may share a name. The text is then that of the first fragment
with that of the second behind it, of which nothing changes but the numbers of placeholders, where
placeholders are numbered: these go on behind the parameters of the first. What a fragment consists
of is kept, although texts that meet become one piece.
-/

set_option autoImplicit false
set_option relaxedAutoImplicit false

namespace SchemaSql

/-- What a piece consists of: a text of its characters, and any other piece of itself. -/
def Piece.units : Piece → List Piece
  | .text s => s.toList.map fun c ↦ .text (String.singleton c)
  | piece => [piece]

/-- Two of the parameters share a name, in whatever letter case. -/
def NameShared (ps : List Parameter) : Prop :=
  ∃ (i j : Nat) (p q : Parameter), i < j ∧ ps[i]? = some p ∧ ps[j]? = some q ∧
    Text.lowercase p.name = Text.lowercase q.name

theorem nameShared_iff (ps : List Parameter) : NameShared ps ↔ ¬ DistinctNames ps := by
  rw [DistinctNames, List.pairwise_iff_getElem]
  constructor
  · rintro ⟨i, j, p, q, hij, hp, hq, hsame⟩ hdistinct
    obtain ⟨hi, rfl⟩ := List.getElem?_eq_some_iff.mp hp
    obtain ⟨hj, rfl⟩ := List.getElem?_eq_some_iff.mp hq
    exact hdistinct i j hi hj hij hsame
  · intro hshared
    by_contra hnone
    refine hshared fun i j hi hj hij hsame ↦ hnone ⟨i, j, ps[i], ps[j], hij, ?_, ?_, hsame⟩
    · exact List.getElem?_eq_getElem hi
    · exact List.getElem?_eq_getElem hj

namespace Fragment

/-! ### What fragments consist of -/

def units (f : Fragment) : List Piece := f.pieces.flatMap Piece.units

@[simp] theorem units_text (s : String) : (text s).units = (Piece.text s).units := by
  rw [text]
  split
  · rename_i hempty
    rw [String.isEmpty_iff.mp hempty]
    rfl
  · exact List.flatMap_singleton ..

theorem flatMap_units_joinPieces (as bs : List Piece) :
    (joinPieces as bs).flatMap Piece.units = as.flatMap Piece.units ++ bs.flatMap Piece.units := by
  induction as, bs using joinPieces.induct with
  | case1 bs => rfl
  | case2 s t bs => simp [joinPieces, Piece.units]
  | case3 a as bs hjoined ih =>
    rw [joinPieces, List.flatMap_cons, ih, List.flatMap_cons, List.append_assoc]
    exact hjoined

theorem units_append (a b : Fragment) : (a ++ b).units = a.units ++ b.units :=
  flatMap_units_joinPieces a.pieces b.pieces

theorem units_join (separator : String) (fs : List Fragment) :
    (join separator fs).units =
      (Piece.text separator).units.intercalate (fs.map units) := by
  induction fs using join.induct with
  | case1 => rfl
  | case2 f => simp [join]
  | case3 f fs hfs ih =>
    have hne : fs.map units ≠ [] := by simpa using hfs
    rw [join, units_append, units_append, units_text, ih, List.map_cons,
      List.intercalate_cons_of_ne_nil hne, List.append_assoc]
    exact hfs

/-! ### Texts -/

variable {style : PlaceholderStyle}

/-- Only numbered placeholders depend on what stands in front of them. -/
theorem textAfter_eq_of_unnumbered (h : style ≠ .numbered) (count : Nat) (f : Fragment) :
    f.textAfter style count = f.textAfter style 0 := by
  have hpiece (count : Nat) (piece : Piece) :
      pieceText style count piece = pieceText style 0 piece := by
    cases style with
    | named | positional => cases piece <;> rfl
    | numbered => exact absurd rfl h
  have hpieces (pieces : List Piece) (count : Nat) :
      textFrom style count pieces = textFrom style 0 pieces := by
    induction pieces generalizing count with
    | nil => rfl
    | cons piece rest ih => rw [textFrom, textFrom, hpiece, ih, ih (0 + _)]
  exact hpieces f.pieces count

theorem textFrom_append (count : Nat) (as bs : List Piece) :
    textFrom style count (as ++ bs) =
      textFrom style count as ++
        textFrom style (count + (as.flatMap Piece.parameters).length) bs := by
  induction as generalizing count with
  | nil => simp [textFrom]
  | cons a as ih =>
    rw [List.cons_append, textFrom, ih, textFrom, List.flatMap_cons, List.length_append,
      String.append_assoc, Nat.add_assoc]

/-- How a parameter is written that has a number of others in front of it. -/
def signOf (style : PlaceholderStyle) (p : Parameter) (before : Nat) : String :=
  match style with
  | .named => p.name
  | .numbered => "$" ++ toString (before + 1)
  | .positional => "?"

/-- Where a parameter stands in a text behind a number of others, it is written as its name or as
the number of its place among all. -/
def PlacesParameters (style : PlaceholderStyle) (count : Nat) (f : Fragment) (text : String) : Prop :=
  ∀ before p after, f.pieces = before ++ .param p :: after →
    ∃ k, k = (Fragment.mk before).parameters.length ∧ f.parameters[k]? = some p ∧
      text = (Fragment.mk before).textAfter style count ++ signOf style p (count + k) ++
        (Fragment.mk after).textAfter style (count + k + 1)

theorem placesParameters (style : PlaceholderStyle) (count : Nat) (f : Fragment) :
    f.PlacesParameters style count (f.textAfter style count) := by
  intro before p after hpieces
  refine ⟨_, rfl, ?_, ?_⟩
  · rw [parameters, hpieces, List.flatMap_append, List.flatMap_cons]
    simp [parameters, Piece.parameters]
  · rw [textAfter, hpieces, textFrom_append, textFrom, String.append_assoc]
    cases style <;> rfl

/-! ### Rendering -/

theorem render_eq_ok_iff {f : Fragment} {text : String} {ps : List Parameter} :
    f.render style = .ok (text, ps) ↔
      ¬ NameShared f.parameters ∧ ps = f.parameters ∧ text = f.textAfter style 0 := by
  rw [nameShared_iff, not_not]
  constructor
  · intro h
    obtain ⟨rfl, hdistinct⟩ := render_ok h
    exact ⟨hdistinct, rfl, render_text h⟩
  · rintro ⟨hdistinct, rfl, rfl⟩
    have hpieces : DistinctNames ([] ++ f.pieces.flatMap Piece.parameters) := hdistinct
    obtain ⟨⟨text, ps⟩, h⟩ := renderFrom_of_distinctNames style hpieces
    obtain ⟨rfl, -⟩ := render_ok h
    exact (render_text h) ▸ h

theorem exists_render_error_iff {f : Fragment} :
    (∃ e, f.render style = .error e) ↔ NameShared f.parameters := by
  cases h : f.render style with
  | error e =>
    refine ⟨fun _ ↦ ?_, fun _ ↦ ⟨e, rfl⟩⟩
    by_contra hshared
    rw [render_eq_ok_iff.mpr ⟨hshared, rfl, rfl⟩] at h
    cases h
  | ok r =>
    have hdistinct := (render_eq_ok_iff.mp h).1
    exact ⟨fun hfails ↦ by simp at hfails, fun hshared ↦ absurd hshared hdistinct⟩

/-- A fragment behind another is rendered as it would be with as many parameters in front of it, and
the parameters of both are those of the call, in order. -/
theorem render_append (d : Dialect) (a b : Fragment) :
    ((∃ e, (a ++ b).render d.placeholderStyle = .error e) ↔
        NameShared (a.parameters ++ b.parameters)) ∧
      (∀ text ps, (a ++ b).render d.placeholderStyle = .ok (text, ps) ↔
        ¬ NameShared (a.parameters ++ b.parameters) ∧ ps = a.parameters ++ b.parameters ∧
          text = a.textAfter d.placeholderStyle 0 ++
            b.textAfter d.placeholderStyle a.parameters.length) ∧
      (d.placeholderStyle ≠ .numbered → ∀ count,
        b.textAfter d.placeholderStyle count = b.textAfter d.placeholderStyle 0) ∧
      (∀ count, b.PlacesParameters d.placeholderStyle count
        (b.textAfter d.placeholderStyle count)) ∧
      (∀ f text ps, render d.placeholderStyle f = .ok (text, ps) →
        ps = f.parameters ∧ text = f.textAfter d.placeholderStyle 0 ∧
          f.PlacesParameters d.placeholderStyle 0 text) ∧
      (a ++ b).units = a.units ++ b.units ∧
      ∀ separator fs, (join separator fs).units =
        (Piece.text separator).units.intercalate (fs.map units) := by
  have hparameters := parameters_append a b
  refine ⟨?_, fun text ps ↦ ?_, fun hstyle count ↦ textAfter_eq_of_unnumbered hstyle count b,
    fun count ↦ b.placesParameters d.placeholderStyle count, fun f text ps h ↦ ?_,
    units_append a b, units_join⟩
  · rw [exists_render_error_iff, hparameters]
  · rw [render_eq_ok_iff, hparameters, textAfter_append, Nat.zero_add]
  · obtain ⟨-, rfl, rfl⟩ := render_eq_ok_iff.mp h
    exact ⟨rfl, rfl, f.placesParameters d.placeholderStyle 0⟩

end Fragment

end SchemaSql
