/-!
Truth values of conditions on rows that may hold nulls. A comparison with null is neither true nor
false, and only a row for which a condition is true is selected.
-/

set_option autoImplicit false
set_option relaxedAutoImplicit false

namespace SchemaSql

inductive Truth
  | yes
  | no
  | unknown
deriving DecidableEq, Inhabited

namespace Truth

def ofBool (b : Bool) : Truth := if b then yes else no

def not : Truth → Truth
  | yes => no
  | no => yes
  | unknown => unknown

def and : Truth → Truth → Truth
  | no, _ | _, no => no
  | yes, b => b
  | a, yes => a
  | unknown, unknown => unknown

def or : Truth → Truth → Truth
  | yes, _ | _, yes => yes
  | no, b => b
  | a, no => a
  | unknown, unknown => unknown

def all (ts : List Truth) : Truth := ts.foldr and yes

def any (ts : List Truth) : Truth := ts.foldr or no

@[simp] theorem ofBool_eq_yes (b : Bool) : ofBool b = yes ↔ b = true := by
  cases b <;> simp [ofBool]

theorem not_eq_yes (a : Truth) : a.not = yes ↔ a = no := by
  cases a <;> simp [not]

theorem and_eq_yes (a b : Truth) : a.and b = yes ↔ a = yes ∧ b = yes := by
  cases a <;> cases b <;> simp [and]

theorem or_eq_yes (a b : Truth) : a.or b = yes ↔ a = yes ∨ b = yes := by
  cases a <;> cases b <;> simp [or]

theorem all_eq_yes (ts : List Truth) : all ts = yes ↔ ∀ t ∈ ts, t = yes := by
  induction ts with
  | nil => simp [all]
  | cons t ts ih =>
    rw [all, List.foldr_cons, and_eq_yes, ← all, ih]
    simp

theorem any_eq_yes (ts : List Truth) : any ts = yes ↔ ∃ t ∈ ts, t = yes := by
  induction ts with
  | nil => simp [any]
  | cons t ts ih =>
    rw [any, List.foldr_cons, or_eq_yes, ← any, ih]
    simp [eq_comm]

end Truth

end SchemaSql
