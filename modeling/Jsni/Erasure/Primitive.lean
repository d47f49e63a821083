/-!
# Primitive types

Each primitive type has a keyword and a one-letter code in descriptors.
-/

namespace Jsni

inductive Primitive where
  | boolean
  | byte
  | char
  | short
  | int
  | long
  | float
  | double
deriving DecidableEq, Repr, Inhabited

namespace Primitive

def all : List Primitive :=
  [boolean, byte, char, short, int, long, float, double]

def code : Primitive → Char
  | boolean => 'Z'
  | byte    => 'B'
  | char    => 'C'
  | short   => 'S'
  | int     => 'I'
  | long    => 'J'
  | float   => 'F'
  | double  => 'D'

def keyword : Primitive → String
  | boolean => "boolean"
  | byte    => "byte"
  | char    => "char"
  | short   => "short"
  | int     => "int"
  | long    => "long"
  | float   => "float"
  | double  => "double"

def ofCode? (c : Char) : Option Primitive :=
  all.find? (·.code == c)

def ofKeyword? (keyword : String) : Option Primitive :=
  all.find? (·.keyword == keyword)

@[simp] theorem mem_all (p : Primitive) : p ∈ all := by cases p <;> decide

@[simp] theorem ofCode?_code (p : Primitive) : ofCode? p.code = some p := by
  cases p <;> rfl

@[simp] theorem ofKeyword?_keyword (p : Primitive) : ofKeyword? p.keyword = some p := by
  cases p <;> rfl

theorem ofCode?_eq_some_iff {c : Char} {p : Primitive} : ofCode? c = some p ↔ c = p.code := by
  constructor
  · intro h
    exact (beq_iff_eq.1 (List.find?_some h :)).symm
  · rintro rfl
    exact ofCode?_code p

theorem ofKeyword?_eq_some_iff {k : String} {p : Primitive} :
    ofKeyword? k = some p ↔ k = p.keyword := by
  constructor
  · intro h
    exact (beq_iff_eq.1 (List.find?_some h :)).symm
  · rintro rfl
    exact ofKeyword?_keyword p

end Primitive

end Jsni
