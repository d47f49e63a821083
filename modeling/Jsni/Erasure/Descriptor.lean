import Jsni.Erasure.Basic
import Jsni.Index.Error

/-!
# Type descriptors

A descriptor spells an erased type in one unit: any number of `[`, then a primitive's code or
`Lpackage/Name;`. A parameter list is the concatenation of its units. `descriptorOf` writes such a
list and `ErasedType.readList` reads it.
-/

namespace Jsni

namespace ErasedType

/-! ## Writing -/

/-- The separator of package names in descriptors is a slash. -/
def slashed (c : Char) : Char :=
  if c = '.' then '/' else c

def descriptorChars : ErasedType → List Char
  | primitive p   => [p.code]
  | named name    => 'L' :: name.toList.map slashed ++ [';']
  | array element => '[' :: element.descriptorChars

def descriptor (t : ErasedType) : String :=
  String.ofList t.descriptorChars

/-! ## Reading -/

def dotted (c : Char) : Char :=
  if c = '/' then '.' else c

/-- Read one unit off the front of a descriptor. -/
def readUnit : List Char → Option (ErasedType × List Char)
  | []        => none
  | '[' :: cs => (readUnit cs).map fun (element, rest) => (array element, rest)
  | 'L' :: cs =>
    match cs.dropWhile (· ≠ ';') with
    | []        => none
    | _ :: rest =>
      if cs.takeWhile (· ≠ ';') = [] then none
      else some (named (String.ofList ((cs.takeWhile (· ≠ ';')).map dotted)), rest)
  | c :: cs   => (Primitive.ofCode? c).map fun p => (primitive p, cs)

theorem readUnit_length_lt {cs rest : List Char} {t : ErasedType}
    (h : readUnit cs = some (t, rest)) : rest.length < cs.length := by
  fun_induction readUnit cs generalizing t with
  | case1 => simp at h
  | case2 cs ih =>
    obtain ⟨⟨element, rest'⟩, hread, heq⟩ := Option.map_eq_some_iff.1 h
    simp only [Prod.mk.injEq] at heq
    have := ih (heq.2 ▸ hread)
    simp only [List.length_cons]
    omega
  | case3 => simp at h
  | case4 => simp at h
  | case5 cs head tail hrest =>
    have hle := (List.dropWhile_sublist (· ≠ ';') (l := cs)).length_le
    simp only [Option.some.injEq, Prod.mk.injEq] at h
    simp only [hrest, List.length_cons] at hle ⊢
    rw [← h.2]
    omega
  | case6 c cs =>
    obtain ⟨p, _, heq⟩ := Option.map_eq_some_iff.1 h
    simp only [Prod.mk.injEq] at heq
    simp [← heq.2]

/-- Read units until the text is used up. -/
def readUnits (cs : List Char) : Option (List ErasedType) :=
  match cs with
  | []      => some []
  | c :: cs =>
    match _h : readUnit (c :: cs) with
    | none           => none
    | some (t, rest) => (readUnits rest).map (t :: ·)
termination_by cs.length
decreasing_by exact readUnit_length_lt _h

/-- The types of a parameter list's descriptor, without its parentheses. -/
def readList (text : String) : Except IndexError (List ErasedType) :=
  match readUnits text.toList with
  | some ts => .ok ts
  | none    => .error (.invalidDescriptor text)

/-- The type of a descriptor that holds exactly one. -/
def read (text : String) : Except IndexError ErasedType :=
  match readUnits text.toList with
  | some [t] => .ok t
  | _        => .error (.invalidDescriptor text)

end ErasedType

/-- The descriptor of a parameter list, without its parentheses. -/
def descriptorOf (parameters : List ErasedType) : String :=
  String.ofList (parameters.flatMap ErasedType.descriptorChars)

end Jsni
