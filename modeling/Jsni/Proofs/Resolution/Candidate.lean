import Mathlib
import Jsni.Index.Fault
import Jsni.Index.Static
import Jsni.Proofs.Reference.Grammar
import Jsni.Resolution.Basic

/-!
# The names that a class name may stand for

All scopes together come to one list of fully qualified names, and the first of them that the index
has an answer for decides. A class name with `$` gives two lists, one with dots for its `$` and one
with its `$` kept. A name that begins with `$` gives none.
-/

namespace Jsni

/-! ## Candidates -/

namespace ImportContext

/-- The fully qualified names that a class name may stand for, in the order they are tried. -/
def candidates (context : ImportContext) (n : TypeName) : List String :=
  context.enclosing.map (· ++ "." ++ n.full)
    ++ (context.imports.filter fun i => i = n.head ∨ '.' :: n.head.toList <:+ i.toList).map
      (· ++ n.tail)
    ++ context.onDemand.map (· ++ "." ++ n.full)
    ++ (if '.' ∈ n.full.toList then [n.full] else [])
    ++ [(context.package.filter (· ≠ "")).elim n.full (· ++ "." ++ n.full)]
    ++ ["java.lang." ++ n.full]

/-- The names tried for a class name as a reference writes it. -/
def namesOf (context : ImportContext) (className : String) : List String :=
  context.candidates (.ofBinary className)
    ++ if '$' ∈ className.toList then context.candidates (.verbatim className) else []

end ImportContext

theorem qualify_append (package : Option String) (name rest : String) :
    qualify package name ++ rest
      = (package.filter (· ≠ "")).elim (name ++ rest) (· ++ "." ++ (name ++ rest)) := by
  cases package with
  | none => rfl
  | some p => by_cases hp : p = "" <;> simp [qualify, hp, Option.filter, String.append_assoc]

/-- Without `$` there is one spelling only. -/
theorem TypeName.ofBinary_eq_verbatim {className : String} (h : '$' ∉ className.toList) :
    ofBinary className = verbatim className := by
  have hsame : className.toList.map (fun c => if c = '$' then '.' else c) = className.toList := by
    refine (List.map_congr_left fun c hc => ?_).trans (List.map_id _)
    exact if_neg fun heq : c = '$' => h (heq ▸ hc)
  rw [ofBinary, sourceName, hsame, String.ofList_toList]
  rfl

theorem ImportContext.forall_mem_namesOf_iff {context : ImportContext} {className : String}
    {P : String → Prop} :
    (∀ name ∈ context.namesOf className, P name)
      ↔ (∀ name ∈ context.candidates (.ofBinary className), P name)
        ∧ ∀ name ∈ context.candidates (.verbatim className), P name := by
  rw [namesOf, List.forall_mem_append]
  split
  · rfl
  · rename_i hdollar
    simp [TypeName.ofBinary_eq_verbatim hdollar]

theorem IsQualifiedName.head_ne_dot {n : List Char} (hn : IsQualifiedName n) {c : Char}
    (hc : n.head? = some c) : c ≠ '.' := by
  obtain ⟨d, hd, hpart⟩ := hn.begins.continues
  obtain rfl := Option.some.inj (hc.symm.trans hd)
  rintro rfl
  simp [isIdentifierPart_mark] at hpart

/-- A name has no first segment in its dotted spelling just where it begins with `$`. -/
theorem TypeName.head_ofBinary_eq_iff {className : String}
    (hname : IsQualifiedName className.toList) :
    (ofBinary className).head = "" ↔ className.toList.head? = some '$' := by
  obtain ⟨c, cs, hcs⟩ := List.exists_cons_of_ne_nil hname.ne_nil
  have hdot : c ≠ '.' := hname.head_ne_dot (by rw [hcs]; rfl)
  rw [head, ofBinary, sourceName, hcs, String.toList_ofList]
  by_cases hc : c = '$' <;> simp [hc, hdot]

namespace Scope

theorem mem_all (scope : Scope) : scope ∈ all := by
  cases scope <;> decide

theorem importsAs_iff {imported simpleName : String} :
    importsAs imported simpleName
      ↔ imported = simpleName ∨ '.' :: simpleName.toList <:+ imported.toList := by
  simp [importsAs]

/-- The scopes in their order are one list of names. -/
theorem flatMap_candidates (context : ImportContext) (n : TypeName) :
    all.flatMap (·.candidates context n) = context.candidates n := by
  have hfull (p : String) : p ++ n.head ++ n.tail = p ++ n.full := by
    rw [String.append_assoc, n.head_append_tail]
  have himports : (fun i => importsAs i n.head)
      = fun i => decide (i = n.head ∨ '.' :: n.head.toList <:+ i.toList) := by
    funext i
    rw [Bool.eq_iff_iff, importsAs_iff, decide_eq_true_iff]
  simp only [all, List.flatMap_cons, List.flatMap_nil, candidates, ImportContext.candidates, hfull,
    himports, qualify_append, n.head_append_tail, TypeName.isQualified, List.contains_iff_mem,
    List.append_assoc, List.append_nil]

end Scope

/-! ## First answers -/

namespace TypeIndex

variable {idx : TypeIndex}

/-- The answer is the first one other than `none` that the index has for some names, be it a type or
a failure, or it is `none` and there is no such answer. -/
inductive IsFirstAnswer (idx : TypeIndex) (names : List String)
    (answer : Except IndexError (Option JavaType)) : Prop where
  | found {before after : List String} {name : String} :
    names = before ++ name :: after → (∀ n ∈ before, idx.findType n = .ok none) →
    idx.findType name = answer → answer ≠ .ok none → IsFirstAnswer idx names answer
  | missing :
    (∀ n ∈ names, idx.findType n = .ok none) → answer = .ok none →
    IsFirstAnswer idx names answer

theorem findFirst_of_forall_none {names : List String}
    (h : ∀ n ∈ names, idx.findType n = .ok none) : idx.findFirst names = .ok none := by
  induction names with
  | nil => rfl
  | cons name names ih =>
    obtain ⟨hname, hnames⟩ := List.forall_mem_cons.1 h
    rw [findFirst, hname]
    exact ih hnames

theorem isFirstAnswer_findFirst (idx : TypeIndex) (names : List String) :
    idx.IsFirstAnswer names (idx.findFirst names) := by
  induction names with
  | nil => exact .missing (by simp) rfl
  | cons name names ih =>
    rw [findFirst]
    cases hname : idx.findType name with
    | error e => exact .found (List.nil_append _).symm (by simp) hname (by simp)
    | ok found =>
      cases found with
      | some t => exact .found (List.nil_append _).symm (by simp) hname (by simp)
      | none =>
        -- The name is one more that the index has nothing for.
        cases ih with
        | found hnames hbefore hanswer hsome =>
          refine .found (by rw [hnames, List.cons_append]) ?_ hanswer hsome
          exact List.forall_mem_cons.2 ⟨hname, hbefore⟩
        | missing hnames hnone => exact .missing (List.forall_mem_cons.2 ⟨hname, hnames⟩) hnone

theorem findFirst_eq_iff {names : List String} {answer : Except IndexError (Option JavaType)} :
    idx.findFirst names = answer ↔ idx.IsFirstAnswer names answer := by
  constructor
  · rintro rfl
    exact isFirstAnswer_findFirst idx names
  · intro h
    cases h with
    | found hnames hbefore hanswer hsome =>
      rw [hnames, findFirst_append, findFirst_of_forall_none hbefore]
      simp only [findFirst, hanswer]
      split
      · rfl
      · rfl
      · exact absurd rfl hsome
    | missing hnames hnone => rw [findFirst_of_forall_none hnames, hnone]

theorem findFirst_eq_ok_none_iff {names : List String} :
    idx.findFirst names = .ok none ↔ ∀ n ∈ names, idx.findType n = .ok none := by
  constructor
  · intro h
    cases findFirst_eq_iff.1 h with
    | found _ _ _ hsome => exact absurd rfl hsome
    | missing hnames => exact hnames
  · exact findFirst_of_forall_none

/-! ## Class names -/

theorem resolveName_eq_findFirst (idx : TypeIndex) (context : ImportContext) (n : TypeName) :
    idx.resolveName context n = idx.findFirst (context.candidates n) := by
  rw [resolveName, resolveAlong_eq_findFirst, Scope.flatMap_candidates]

theorem resolveType_of_head_eq (idx : TypeIndex) (context : ImportContext) {className : String}
    (hhead : (TypeName.ofBinary className).head = "") :
    idx.resolveType context className = .ok none := by
  rw [resolveType, if_pos hhead]
  rfl

theorem resolveType_of_head_ne (idx : TypeIndex) (context : ImportContext) {className : String}
    (hhead : (TypeName.ofBinary className).head ≠ "") :
    idx.resolveType context className = idx.findFirst (context.namesOf className) := by
  rw [resolveType, if_neg hhead, ImportContext.namesOf, findFirst_append]
  simp only [resolveName_eq_findFirst, List.contains_iff_mem]
  cases idx.findFirst (context.candidates (.ofBinary className)) with
  | error e => rfl
  | ok found =>
    cases found with
    | some t => rfl
    | none =>
      simp only [bind, Except.bind]
      split <;> rfl

/-- A class name whose dotted spelling has a first segment stands for what the first of its
candidates does that the index has an answer for. -/
theorem resolveType_eq_iff (idx : TypeIndex) (context : ImportContext) {className : String}
    (hhead : (TypeName.ofBinary className).head ≠ "")
    (answer : Except IndexError (Option JavaType)) :
    idx.resolveType context className = answer
      ↔ idx.IsFirstAnswer (context.namesOf className) answer := by
  rw [resolveType_of_head_ne idx context hhead]
  exact findFirst_eq_iff

/-- A class whose name has `$`, in an index that fails for the nested type of the same spelling. -/
def staleNested : TypeIndex :=
  (StaticIndex.empty.applyAll [.addClass "a.Gen$X" none]).toIndex.withFaults
    [⟨.findType, "java.lang.Gen.X", .stale "java.lang"⟩]

theorem resolveType_eq_iff_stale :
    let context : ImportContext := ⟨some "a", ["b.Gen", "b.Gen.X"], ["c"], ["a.W"]⟩
    (TypeName.ofBinary "Gen$X").head ≠ ""
      ∧ context.namesOf "Gen$X" = [
        "a.W.Gen.X", "b.Gen.X", "c.Gen.X", "Gen.X", "a.Gen.X", "java.lang.Gen.X",
        "a.W.Gen$X", "c.Gen$X", "a.Gen$X", "java.lang.Gen$X"]
      ∧ staleNested.findType "a.Gen$X" = .ok (some ⟨"a.Gen$X", .classKind⟩)
      ∧ staleNested.resolveType context "Gen$X" = .error (.stale "java.lang")
      ∧ staleNested.IsFirstAnswer (context.namesOf "Gen$X") (.error (.stale "java.lang")) := by
  intro context
  have hhead : (TypeName.ofBinary "Gen$X").head ≠ "" := by decide
  have hresolve : staleNested.resolveType context "Gen$X" = .error (.stale "java.lang") := by
    cbv
  exact ⟨hhead, by decide, by cbv, hresolve,
    (resolveType_eq_iff staleNested context hhead _).1 hresolve⟩

/-! ## Names with `$` -/

theorem forall_candidates_iff {context : ImportContext} {n : TypeName} :
    (∀ name ∈ context.candidates n, idx.findType name = .ok none)
      ↔ ∀ scope, idx.resolveIn context n scope = .ok none := by
  simp only [resolveIn, findFirst_eq_ok_none_iff, ← Scope.flatMap_candidates, List.mem_flatMap]
  constructor
  · intro h scope name hname
    exact h name ⟨scope, scope.mem_all, hname⟩
  · rintro h name ⟨scope, -, hname⟩
    exact h scope name hname

/-- No type is found for a class name just where no scope knows it in either spelling, or where it
begins with `$`. -/
theorem resolveType_eq_ok_none_iff (idx : TypeIndex) (context : ImportContext) {className : String}
    (hname : IsQualifiedName className.toList) :
    idx.resolveType context className = .ok none
      ↔ className.toList.head? = some '$'
        ∨ ∀ scope, idx.resolveIn context (.ofBinary className) scope = .ok none
          ∧ idx.resolveIn context (.verbatim className) scope = .ok none := by
  rw [← TypeName.head_ofBinary_eq_iff hname]
  by_cases hhead : (TypeName.ofBinary className).head = ""
  · exact iff_of_true (resolveType_of_head_eq idx context hhead) (.inl hhead)
  · rw [resolveType_of_head_ne idx context hhead, findFirst_eq_ok_none_iff, or_iff_right hhead,
      forall_and, ← forall_candidates_iff, ← forall_candidates_iff,
      ImportContext.forall_mem_namesOf_iff]

def dollarClass : StaticIndex :=
  StaticIndex.empty.applyAll [.addClass "$Gen" none]

theorem resolveType_eq_ok_none_iff_dollar :
    IsQualifiedName "Gen$X".toList
      ∧ dollarClass.toIndex.resolveType {} "Gen$X" = .ok none
      ∧ ∀ scope, dollarClass.toIndex.resolveIn {} (.ofBinary "Gen$X") scope = .ok none
        ∧ dollarClass.toIndex.resolveIn {} (.verbatim "Gen$X") scope = .ok none := by
  have hname : IsQualifiedName "Gen$X".toList := .identifier (by
    simp [IsIdentifier, isIdentifierStart, isIdentifierPart, Text.isAlphanumeric,
      Text.isAlphabetic_of_ascii])
  have hnone : dollarClass.toIndex.resolveType {} "Gen$X" = .ok none := by cbv
  have hscopes := (resolveType_eq_ok_none_iff dollarClass.toIndex {} hname).1 hnone
  exact ⟨hname, hnone, hscopes.resolve_left (by decide)⟩

/-- A class whose name begins with `$` is not found by its name, although its package has it. -/
theorem resolveType_leadingDollar :
    IsQualifiedName "$Gen".toList
      ∧ dollarClass.toIndex.resolveIn {} (.verbatim "$Gen") .samePackage
        = .ok (some ⟨"$Gen", .classKind⟩)
      ∧ dollarClass.toIndex.resolveType {} "$Gen" = .ok none := by
  have hname : IsQualifiedName "$Gen".toList := .identifier (by
    simp [IsIdentifier, isIdentifierStart, isIdentifierPart, Text.isAlphanumeric,
      Text.isAlphabetic_of_ascii])
  exact ⟨hname, by cbv, by cbv⟩

end TypeIndex

end Jsni
