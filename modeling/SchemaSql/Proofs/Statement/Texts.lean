import SchemaSql.Proofs.Statement.Rendering

/-!
The text that a fragment is rendered as. Whether it can be rendered depends on the names of its
parameters, but the text itself only on its pieces and on how many parameters stand in front of
them, so that it is put together as the fragment is. Of an insert this gives the whole text: the
list of columns and, in the same order, the placeholders of their parameters.
-/

set_option autoImplicit false
set_option relaxedAutoImplicit false

namespace SchemaSql

namespace Fragment

variable (style : PlaceholderStyle)

/-- The text of pieces that stand behind a number of parameters. -/
def textFrom (count : Nat) : List Piece → String
  | [] => ""
  | piece :: rest =>
    pieceText style count piece ++ textFrom (count + piece.parameters.length) rest

/-- The text of a fragment that stands behind a number of parameters. -/
def textAfter (count : Nat) (f : Fragment) : String := textFrom style count f.pieces

/-- The placeholders of parameters that stand behind a number of others. -/
def placeholdersAfter (count : Nat) (ps : List Parameter) : List String :=
  ps.mapIdx fun i p ↦ placeholder style (count + i + 1) p

variable {style}

theorem renderFrom_text {written : List Parameter} {pieces : List Piece} {text : String}
    {all : List Parameter} (h : renderFrom style written pieces = .ok (text, all))
    (hwritten : DistinctNames written) : text = textFrom style written.length pieces := by
  induction pieces generalizing written text with
  | nil =>
    obtain ⟨rfl, -⟩ := Prod.mk.inj (Except.ok.inj h)
    rfl
  | cons piece rest ih =>
    rw [renderFrom] at h
    cases hregister : register written piece.parameters with
    | error e => rw [hregister] at h; simp at h
    | ok written' =>
      rw [hregister] at h
      obtain ⟨hall, hdistinct⟩ := register_ok hregister hwritten
      cases hrest : renderFrom style written' rest with
      | error e => simp only [hrest, reduceCtorEq] at h
      | ok r =>
        simp only [hrest, Except.ok.injEq, Prod.mk.injEq] at h
        obtain ⟨rfl, rfl⟩ := h
        rw [ih hrest hdistinct, hall, List.length_append, textFrom]

theorem render_text {f : Fragment} {text : String} {ps : List Parameter}
    (h : f.render style = .ok (text, ps)) : text = f.textAfter style 0 :=
  renderFrom_text h List.Pairwise.nil

/-! ### Texts of composed fragments -/

variable (count : Nat)

theorem textFrom_joinPieces (as bs : List Piece) :
    textFrom style count (joinPieces as bs) =
      textFrom style count as ++
        textFrom style (count + (as.flatMap Piece.parameters).length) bs := by
  induction as, bs using joinPieces.induct generalizing count with
  | case1 bs => simp [joinPieces, textFrom]
  | case2 s t bs =>
    simp [joinPieces, textFrom, pieceText, Piece.parameters, String.append_assoc]
  | case3 a as bs hjoined ih =>
    rw [joinPieces, textFrom, ih, textFrom, List.flatMap_cons, List.length_append,
      String.append_assoc, Nat.add_assoc]
    exact hjoined

@[simp] theorem textAfter_empty : empty.textAfter style count = "" := rfl

@[simp] theorem textAfter_text (s : String) : (text s).textAfter style count = s := by
  rw [text]
  split
  · rename_i hempty
    rw [String.isEmpty_iff.mp hempty]
    rfl
  · simp [textAfter, textFrom, pieceText]

@[simp] theorem textAfter_param (p : Parameter) :
    (param p).textAfter style count = placeholder style (count + 1) p := by
  simp [param, textAfter, textFrom, pieceText]

@[simp] theorem textAfter_raw (s : String) (ps : List Parameter) :
    (raw s ps).textAfter style count = pieceText style count (.raw s ps) := by
  simp [raw, textAfter, textFrom]

@[simp] theorem textAfter_append (a b : Fragment) :
    (a ++ b).textAfter style count =
      a.textAfter style count ++ b.textAfter style (count + a.parameters.length) :=
  textFrom_joinPieces count a.pieces b.pieces

/-- The texts of fragments that stand one after another behind a number of parameters. -/
def textsAfter (style : PlaceholderStyle) (count : Nat) : List Fragment → List String
  | [] => []
  | f :: fs => f.textAfter style count :: textsAfter style (count + f.parameters.length) fs

theorem textAfter_join (separator : String) (fs : List Fragment) :
    (join separator fs).textAfter style count =
      String.intercalate separator (textsAfter style count fs) := by
  induction fs using join.induct generalizing count with
  | case1 => rfl
  | case2 f => simp [join, textsAfter]
  | case3 f fs hfs ih =>
    have hne (k : Nat) : textsAfter style k fs ≠ [] := by
      cases fs with
      | nil => exact absurd rfl hfs
      | cons g gs => simp [textsAfter]
    rw [join, textAfter_append, textAfter_append, textAfter_text, ih, textsAfter,
      String.intercalate_cons_of_ne_nil (hne _)]
    · simp [String.append_assoc]
    · exact hfs

theorem textsAfter_param (ps : List Parameter) :
    textsAfter style count (ps.map param) = placeholdersAfter style count ps := by
  rw [placeholdersAfter]
  induction ps generalizing count with
  | nil => rfl
  | cons p ps ih =>
    have hindex (i : Nat) : count + (i + 1) + 1 = count + 1 + i + 1 := by omega
    simp only [List.map_cons, List.mapIdx_cons, hindex, textsAfter, textAfter_param,
      parameters_param, List.length_singleton, ih, Nat.add_zero]

/-- Parameters with commas between them are written as their placeholders. -/
@[simp] theorem textAfter_parameterList (ps : List Parameter) :
    (parameterList ps).textAfter style count =
      commaSeparated (placeholdersAfter style count ps) := by
  rw [parameterList, textAfter_join, textsAfter_param, commaSeparated]

/-! ### Placeholders -/

/-- The parameter that the placeholder at a place of a call stands for: the one with its name, the
one with its number or, where all placeholders are the same, the one at its place. -/
def standsFor? (style : PlaceholderStyle) (ps : List Parameter) (i : Nat) (placeholder : String) :
    Option Parameter :=
  match style with
  | .named => ps.find? fun p ↦ p.name == placeholder
  | .numbered => ((ps.zipIdx 1).find? fun x ↦ "$" ++ toString x.2 == placeholder).map (·.1)
  | .positional => ps[i]?

theorem find?_of_pairwise {α β : Type} [DecidableEq β] {key : α → β} {xs : List α}
    (h : xs.Pairwise fun x y ↦ key x ≠ key y) {x : α} (hx : x ∈ xs) :
    (xs.find? fun y ↦ key y == key x) = some x := by
  obtain ⟨before, after, rfl⟩ := List.append_of_mem hx
  have hbefore : ∀ y ∈ before, key y ≠ key x := fun y hy ↦
    (List.pairwise_append.mp h).2.2 y hy x List.mem_cons_self
  have hnone : (before.find? fun y ↦ key y == key x) = none := by simpa using hbefore
  rw [List.find?_append, hnone]
  simp

theorem numbers_distinct (ps : List Parameter) (k : Nat) :
    (ps.zipIdx k).Pairwise fun x y ↦ "$" ++ toString x.2 ≠ "$" ++ toString y.2 := by
  induction ps generalizing k with
  | nil => simp
  | cons p ps ih =>
    refine List.pairwise_cons.mpr ⟨fun x hx hsame ↦ ?_, ih (k + 1)⟩
    have hdigits : Nat.toDigits 10 k = Nat.toDigits 10 x.2 :=
      String.ofList_injective ((String.append_right_inj "$").mp hsame)
    have hnumber : k = x.2 :=
      calc
        k = Nat.ofDigitChars 10 (Nat.toDigits 10 k) 0 := Nat.ofDigitChars_ten_toDigits.symm
        _ = Nat.ofDigitChars 10 (Nat.toDigits 10 x.2) 0 := by rw [hdigits]
        _ = x.2 := Nat.ofDigitChars_ten_toDigits
    have hbehind := List.le_snd_of_mem_zipIdx hx
    omega

/-- Of parameters with distinct names a placeholder stands for its own. -/
theorem standsFor?_placeholder (style : PlaceholderStyle) {ps : List Parameter}
    (h : DistinctNames ps) {i : Nat} {p : Parameter} (hp : ps[i]? = some p) :
    standsFor? style ps i (placeholder style (i + 1) p) = some p := by
  cases style with
  | named =>
    have hnames : ps.Pairwise fun p q ↦ p.name ≠ q.name :=
      h.imp fun hdistinct hsame ↦ hdistinct (congrArg Text.lowercase hsame)
    exact find?_of_pairwise hnames (List.mem_of_getElem? hp)
  | numbered =>
    have hmem : (p, i + 1) ∈ ps.zipIdx 1 :=
      List.mk_mem_zipIdx_iff_le_and_getElem?_sub.mpr ⟨by omega, hp⟩
    exact congrArg (Option.map (·.1)) (find?_of_pairwise (numbers_distinct ps 1) hmem)
  | positional => exact hp

end Fragment

open Fragment

/-! ### Inserts -/

/-- The text that is enclosed in the switch that lets identities of a target be written. -/
def announcedText (announced : Bool) (target : Target) (statement : String) : String :=
  if announced then
    "SET IDENTITY_INSERT " ++ target.quoted ++ " ON;\n" ++ statement ++
      "\nSET IDENTITY_INSERT " ++ target.quoted ++ " OFF;"
  else statement

theorem announce_text (style : PlaceholderStyle) (announced : Bool) (target : Target)
    (f : Fragment) : (announce announced target f).textAfter style 0 =
      announcedText announced target (f.textAfter style 0) := by
  cases announced <;> simp [announce, announcedText, String.append_assoc]

end SchemaSql
