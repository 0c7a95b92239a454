import SchemaSql.Argument
import SchemaSql.Proofs.Json.Integers

/-!
The integers of an object argument. The member of a name that is written last is bound as one
property. An integer that 64 bits hold, signed or not, is bound with all its digits; any other is
bound as a float, if the argument is not refused.
-/

set_option autoImplicit false
set_option relaxedAutoImplicit false

namespace SchemaSql

open Json

/-- The value is the integer, or the text of its digits. -/
def Value.Keeps : Value → Int → Prop
  | .int i, n => i.toInt = n
  | .text s, n => s = toString n
  | .null, _ | .bool _, _ | .float _, _ | .blob _, _ | .timestamp _, _ => False

theorem Value.keeps_ofJson (n : Int) : (Value.ofJson (.number (.integer n))).Keeps n := by
  rw [Value.ofJson]
  split
  · rename_i hrange
    obtain ⟨hlow, hhigh⟩ := (isInt64_iff n).mp hrange
    exact Int64.toInt_ofInt_of_le hlow hhigh
  · rfl

/-! ### Parts of documents -/

namespace Json.Document

def members? : Document → Option (List (List TextUnit × Document))
  | .object members => some members
  | _ => none

def literal? : Document → Option NumberLiteral
  | .number l => some l
  | _ => none

variable {d : Document} {members : List (List TextUnit × Document)} {l : NumberLiteral}

theorem members?_eq_some_iff : d.members? = some members ↔ d = .object members := by
  cases d <;> simp [members?]

theorem literal?_eq_some_iff : d.literal? = some l ↔ d = .number l := by
  cases d <;> simp [literal?]

end Json.Document

/-! ### Arguments -/

namespace Argument

/-- An integer keeps its digits exactly if 64 bits hold it, signed or not. -/
theorem keeps_iff {depth : Nat} {n : Int} {j : Json}
    (h : ofDocument? depth (.number (.ofInt n)) = some j) :
    ((Value.ofJson j).Keeps n ↔ -2 ^ 63 ≤ n ∧ n < 2 ^ 64) ∧
      ((Value.ofJson j).Keeps n ∨
        ∃ x, (NumberLiteral.ofInt n).float? = some x ∧ Value.ofJson j = .float x) := by
  by_cases hrange : -2 ^ 63 ≤ n ∧ n < 2 ^ 64
  · obtain rfl := Option.some.inj ((ofDocument?_ofInt_of_mem hrange).symm.trans h)
    exact ⟨iff_of_true (Value.keeps_ofJson n) hrange, .inl (Value.keeps_ofJson n)⟩
  · rw [ofDocument?_ofInt_of_not_mem hrange] at h
    obtain ⟨x, hx, rfl⟩ := Option.map_eq_some_iff.mp h
    exact ⟨iff_of_false id hrange, .inr ⟨x, hx, rfl⟩⟩

variable {s name : String} {members : List (List TextUnit × Document)}

/-- An object is read if all its members are. -/
theorem read?_isSome_iff (hs : Document.read? s = some (.object members)) :
    (Json.read? s).isSome ↔
      ∀ m ∈ members, (textOf? m.1).isSome ∧ (ofDocument? (depthLimit - 1) m.2).isSome := by
  rw [Json.read?, hs, Option.bind_some, ofDocument?, if_neg (by decide), Option.isSome_map,
    membersOf?_isSome_iff]

/-- The member of a name that is written last is bound as the one property of the name. -/
theorem ofJson_governed {d : Document} {j : Json} (hs : Document.read? s = some (.object members))
    (hgoverns : Governs name d members) (hj : Json.read? s = some j) :
    ∃ ps j', Argument.ofJson j = .ok (.properties ps) ∧ ofDocument? (depthLimit - 1) d = some j' ∧
      ps.filter (·.name = name) = [{ name, value := Value.ofJson j' }] := by
  rw [Json.read?, hs, Option.bind_some, ofDocument?, if_neg (by decide),
    Option.map_eq_some_iff] at hj
  obtain ⟨out, hout, rfl⟩ := hj
  obtain ⟨j', hj', hfilter⟩ := hgoverns.filter_membersOf? List.Pairwise.nil hout
  refine ⟨_, j', rfl, hj', ?_⟩
  have hname : (fun p : Property ↦ decide (p.name = name)) ∘
      (fun m : String × Json ↦ ({ name := m.1, value := Value.ofJson m.2 } : Property)) =
        fun m ↦ decide (m.1 = name) := rfl
  rw [List.filter_map, hname, hfilter]
  rfl

/-- The text of an integer, and no other, is read as its literal. Where the literal is the last
member with its name, it is bound under the name, alone, and with its digits exactly if 64 bits hold
the integer, signed or not; else it is bound as a float. The argument is refused if a member cannot
be read. Within an array or object the text of the integer is kept in the same case. -/
theorem integer_bound_iff (n : Int) :
    (∀ fuel cs rest, readValue (fuel + 1) cs = some (.number (.ofInt n), rest) ↔
      skipGap cs = (toString n).toList ++ rest ∧ EndsNumber rest) ∧
    (∀ s members name, Document.read? s = some (.object members) →
      Governs name (.number (.ofInt n)) members →
      ((Json.read? s).isSome ↔
        ∀ m ∈ members, (textOf? m.1).isSome ∧ (ofDocument? (depthLimit - 1) m.2).isSome) ∧
      ∀ j, Json.read? s = some j → ∃ ps v, Argument.ofJson j = .ok (.properties ps) ∧
        ps.filter (·.name = name) = [{ name, value := v }] ∧
        (v.Keeps n ↔ -2 ^ 63 ≤ n ∧ n < 2 ^ 64) ∧
        (v.Keeps n ∨ ∃ x, (NumberLiteral.ofInt n).float? = some x ∧ v = .float x)) ∧
    ∀ depth, (∃ j, ofDocument? depth (.number (.ofInt n)) = some j ∧ j.render = toString n) ↔
      -2 ^ 63 ≤ n ∧ n < 2 ^ 64 := by
  refine ⟨fun _ _ _ ↦ readValue_eq_ofInt_iff, fun s members name hs hgoverns ↦
    ⟨read?_isSome_iff hs, fun j hj ↦ ?_⟩, fun _ ↦ exists_render_eq_toString_iff⟩
  obtain ⟨ps, j', hps, hj', hfilter⟩ := ofJson_governed hs hgoverns hj
  exact ⟨ps, _, hps, hfilter, keeps_iff hj'⟩

/-- The greatest unsigned integer of 64 bits is bound with all its digits, the second after it as a
float. -/
theorem integer_bound_beyond_64_bits : ∃ j ps v x,
    Json.read? "\x7b\"No\": 18446744073709551615, \"Id\": 18446744073709551617\x7d" = some j ∧
      Argument.ofJson j = .ok (.properties ps) ∧
      ps.filter (·.name = "No") = [{ name := "No", value := v }] ∧ v.Keeps 18446744073709551615 ∧
      ps.filter (·.name = "Id") = [{ name := "Id", value := .float x }] := by
  have hwritten : ((Document.read?
      "\x7b\"No\": 18446744073709551615, \"Id\": 18446744073709551617\x7d").bind
        Document.members?).map (·.map fun m ↦ (m.1, m.2.literal?)) =
          some [([.char 'N', .char 'o'], some (.ofInt 18446744073709551615)),
            ([.char 'I', .char 'd'], some (.ofInt 18446744073709551617))] := by decide +kernel
  obtain ⟨members, hs, hmembers⟩ := Option.map_eq_some_iff.mp hwritten
  obtain ⟨d, hs, hd⟩ := Option.bind_eq_some_iff.mp hs
  obtain rfl := Document.members?_eq_some_iff.mp hd
  simp only [List.map_eq_cons_iff, List.map_eq_nil_iff, Prod.mk.injEq] at hmembers
  obtain ⟨⟨_, _⟩, _, rfl, ⟨rfl, hno⟩, ⟨_, _⟩, _, rfl, ⟨rfl, hid⟩, rfl⟩ := hmembers
  obtain rfl := Document.literal?_eq_some_iff.mp hno
  obtain rfl := Document.literal?_eq_some_iff.mp hid
  obtain ⟨-, hbound, -⟩ := integer_bound_iff 18446744073709551615
  obtain ⟨-, hbound', -⟩ := integer_bound_iff 18446744073709551617
  obtain ⟨hread, hbound⟩ := hbound _ _ "No" hs (.last rfl (by decide))
  obtain ⟨-, hbound'⟩ := hbound' _ _ "Id" hs (.later (.last rfl (by decide)))
  obtain ⟨j, hj⟩ := Option.isSome_iff_exists.mp (hread.mpr (by decide +kernel))
  obtain ⟨ps, v, hps, hv, hkeeps, -⟩ := hbound j hj
  obtain ⟨ps', v', hps', hv', hkeeps', hfloat⟩ := hbound' j hj
  obtain rfl := Argument.properties.inj (Except.ok.inj (hps.symm.trans hps'))
  obtain ⟨x, -, rfl⟩ := hfloat.resolve_left (mt hkeeps'.mp (by decide))
  exact ⟨j, ps, v, x, hj, hps, hv, hkeeps.mpr (by decide), hv'⟩

end Argument

end SchemaSql
