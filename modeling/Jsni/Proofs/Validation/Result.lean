import Jsni.Index.Static
import Jsni.Proofs.Validation.Site

/-!
# What results hold

A result is put together block by block, from what is wrong with the blocks, from their tokens and
from the outcomes of their references. Severities only take problems out of it.
-/

namespace Jsni

/-! ## Lists -/

theorem filterMap_singleton_eq_filter {f : α → Option β} {p : β → Bool} {x : α} {y : β}
    (h : f x = (some y).filter p) : [x].filterMap f = [y].filter p := by
  rw [List.filterMap_cons, h, Option.filter_some, List.filter_singleton]
  cases p y <;> rfl

theorem eraseDups_filter [DecidableEq α] (p : α → Bool) (xs : List α) :
    (xs.filter p).eraseDups = xs.eraseDups.filter p := by
  match xs with
  | []      => rfl
  | x :: xs =>
    have hrest := eraseDups_filter p (xs.filter (! · == x))
    rw [List.filter_filter] at hrest
    rw [List.eraseDups_cons, List.filter_cons, List.filter_cons, ← hrest]
    split
    · simp only [List.eraseDups_cons, List.filter_filter, Bool.and_comm]
    · rename_i hx
      -- What passes the filter is not `x`, so leaving that out changes nothing.
      refine congrArg List.eraseDups (List.filter_congr fun y _ => ?_)
      by_cases hy : y = x <;> simp_all
termination_by xs.length
decreasing_by exact Nat.lt_succ_of_le (List.length_filter_le ..)

theorem eraseDups_append_eq [DecidableEq α] (xs ys : List α) :
    (xs ++ ys).eraseDups = xs.eraseDups ++ ys.eraseDups.filter (· ∉ xs.eraseDups) := by
  rw [List.eraseDups_append, List.removeAll, eraseDups_filter]
  refine congrArg (xs.eraseDups ++ ·) (List.filter_congr fun y _ => ?_)
  simp [List.mem_eraseDups]

theorem eraseDups_concat [DecidableEq α] (xs : List α) (x : α) :
    (xs ++ [x]).eraseDups = if x ∈ xs.eraseDups then xs.eraseDups else xs.eraseDups ++ [x] := by
  rw [eraseDups_append_eq, List.eraseDups_cons]
  split <;> simp_all

/-! ## Results from findings -/

attribute [ext] ValidationResult

namespace ValidationResult

theorem addFinding_path (s : Severities) (r : ValidationResult) (f : Finding) :
    (r.addFinding s f).path = r.path := by
  change (f.dependency?.elim r r.addDependency).path = r.path
  cases f.dependency? with
  | none => rfl
  | some name =>
    rw [Option.elim_some, addDependency]
    split <;> rfl

theorem ofFindings_path (s : Severities) (path : Path) (fs : List Finding) :
    (ofFindings s path fs).path = path := by
  suffices h : ∀ r : ValidationResult, (fs.foldl (addFinding s) r).path = r.path from h { path }
  intro r
  induction fs generalizing r with
  | nil => rfl
  | cons f fs ih => rw [List.foldl_cons, ih, addFinding_path]

theorem addFinding_typeDependencies (s : Severities) {r : ValidationResult} {names : List String}
    (hr : r.typeDependencies = names.eraseDups) (f : Finding) :
    (r.addFinding s f).typeDependencies = (names ++ f.dependency?.toList).eraseDups := by
  change (f.dependency?.elim r r.addDependency).typeDependencies = _
  cases f.dependency? with
  | none => simpa using hr
  | some name =>
    rw [Option.elim_some, Option.toList_some, eraseDups_concat, ← hr, addDependency]
    split <;> rfl

theorem ofFindings_typeDependencies (s : Severities) (path : Path) (fs : List Finding) :
    (ofFindings s path fs).typeDependencies = (fs.filterMap Finding.dependency?).eraseDups := by
  -- The names met so far have their duplicates removed at every step.
  suffices h : ∀ (r : ValidationResult) (names : List String),
      r.typeDependencies = names.eraseDups →
        (fs.foldl (addFinding s) r).typeDependencies
          = (names ++ fs.filterMap Finding.dependency?).eraseDups from h { path } [] rfl
  induction fs with
  | nil =>
    intro r names hr
    simpa using hr
  | cons f fs ih =>
    intro r names hr
    rw [List.foldl_cons, ih _ _ (addFinding_typeDependencies s hr f), List.append_assoc,
      List.filterMap_cons]
    cases f.dependency? <;> rfl

/-- One result after another of the same source. Types seen before are not named again. -/
def append (a b : ValidationResult) : ValidationResult where
  path := a.path
  references := a.references ++ b.references
  problems := a.problems ++ b.problems
  typeDependencies :=
    a.typeDependencies ++ b.typeDependencies.filter (· ∉ a.typeDependencies)

theorem ofFindings_append (s : Severities) (path : Path) (fs gs : List Finding) :
    ofFindings s path (fs ++ gs) = (ofFindings s path fs).append (ofFindings s path gs) := by
  apply ValidationResult.ext
  · simp only [append, ofFindings_path]
  · simp only [append, ofFindings_references, List.filterMap_append]
  · simp only [append, ofFindings_problems, List.filterMap_append]
  · simp only [append, ofFindings_typeDependencies, List.filterMap_append, eraseDups_append_eq]

end ValidationResult

/-! ## Problems before any is ignored -/

namespace Severities

/-- A problem of the configured severity, even if that is to ignore it. -/
def grade (s : Severities) (kind : ProblemKind) (offset length : Nat) (args : List String)
    (typeDependencies : List String := []) : Problem :=
  ⟨kind, s.of kind, offset, length, args, typeDependencies⟩

/-- What is wrong with a block as such. -/
def blockProblems (s : Severities) (b : Block) : List Problem :=
  (if b.isNative then []
    else [s.grade .parseError b.offset b.length
      ["JSNI block on non-native method '" ++ b.method ++ "'"]])
    ++ if b.terminated then []
      else [s.grade .parseError b.offset b.length
        ["unterminated JSNI block, expected '" ++ .ofList Block.closing ++ "'"]]

/-- The problem of a reference with a failed outcome. It depends on the owner. -/
def outcomeProblem? (s : Severities) (r : Reference) : Outcome → Option Problem
  | .unresolvedType     => some (s.grade .unresolvedType r.offset r.length [r.className])
  | .unresolvedMethod t =>
    some (s.grade .unresolvedMethod r.offset r.length [t.name, r.memberName] [t.name])
  | .unresolvedField t  =>
    some (s.grade .unresolvedField r.offset r.length [t.name, r.memberName] [t.name])
  | .ambiguous t ms     =>
    some (s.grade .ambiguous r.offset r.length [t.name, r.memberName, toString ms.length] [t.name])
  | _                   => none

def tokenProblem? (s : Severities) (outcome : Reference → Outcome) : Token → Option Problem
  | .malformed m =>
    some (s.grade .parseError m.offset m.length [m.reason.message ++ " in '" ++ m.text ++ "'"])
  | .reference r => s.outcomeProblem? r (outcome r)

/-- The problems of blocks, in order: of each block as such, then of its tokens. -/
def problems (s : Severities) (outcome : Block → Reference → Outcome) (bs : List Block) :
    List Problem :=
  bs.flatMap fun b => s.blockProblems b ++ b.tokens.filterMap (s.tokenProblem? (outcome b))

theorem report_eq (s : Severities) (kind : ProblemKind) (offset length : Nat)
    (args typeDependencies : List String) :
    s.report kind offset length args typeDependencies
      = (some (s.grade kind offset length args typeDependencies)).filter
          (·.severity ≠ .ignore) := by
  unfold report
  by_cases hs : s.of kind = .ignore <;> simp [hs, grade, Option.filter]

theorem reportOutcome_eq (s : Severities) (r : Reference) (o : Outcome) :
    s.reportOutcome r o = (s.outcomeProblem? r o).filter (·.severity ≠ .ignore) := by
  cases o with
  | unresolvedType => exact s.report_eq ..
  | unresolvedMethod t => exact s.report_eq ..
  | unresolvedField t => exact s.report_eq ..
  | ambiguous t ms => exact s.report_eq ..
  | resolvedMethod t m => rfl
  | resolvedField t f => rfl
  | resolvedConstructor t m => rfl
  | resolvedClass t => rfl
  | ignoredNull => rfl

theorem problem?_finding (s : Severities) (outcome : Reference → Outcome) (t : Token) :
    (t.finding outcome).problem? s
      = (s.tokenProblem? outcome t).filter (·.severity ≠ .ignore) := by
  cases t with
  | malformed m => exact s.report_eq ..
  | reference r => exact s.reportOutcome_eq ..

theorem filterMap_problem?_findings (s : Severities) (outcome : Reference → Outcome) (b : Block) :
    (b.findings outcome).filterMap (Finding.problem? s)
      = (s.blockProblems b ++ b.tokens.filterMap (s.tokenProblem? outcome)).filter
          (·.severity ≠ .ignore) := by
  rw [Block.findings, blockProblems, List.filterMap_append, List.filterMap_append,
    List.filter_append, List.filter_append, List.filterMap_map, List.filter_filterMap]
  refine congrArg₂ _ (congrArg₂ _ ?_ ?_) ?_
  · cases b.isNative with
    | true => rfl
    | false => exact filterMap_singleton_eq_filter (s.report_eq ..)
  · cases b.terminated with
    | true => rfl
    | false => exact filterMap_singleton_eq_filter (s.report_eq ..)
  · exact List.filterMap_congr fun t _ => s.problem?_finding outcome t

theorem mem_problems_iff {s : Severities} {outcome : Block → Reference → Outcome}
    {bs : List Block} {p : Problem} :
    p ∈ s.problems outcome bs
      ↔ ∃ b ∈ bs,
        p ∈ s.blockProblems b ∨ ∃ t ∈ b.tokens, s.tokenProblem? (outcome b) t = some p := by
  simp only [problems, List.mem_flatMap, List.mem_append, List.mem_filterMap]

theorem exists_of_mem_blockProblems {s : Severities} {b : Block} {p : Problem}
    (hp : p ∈ s.blockProblems b) :
    ∃ detail, p = s.grade .parseError b.offset b.length [detail] := by
  unfold blockProblems at hp
  rcases List.mem_append.1 hp with hp | hp <;> split at hp
  · cases hp
  · exact ⟨_, List.mem_singleton.1 hp⟩
  · cases hp
  · exact ⟨_, List.mem_singleton.1 hp⟩

theorem typeDependencies_of_outcomeProblem? {s : Severities} {r : Reference} {o : Outcome}
    {p : Problem} (hp : s.outcomeProblem? r o = some p) :
    p.typeDependencies = o.owner?.toList.map JavaType.name := by
  unfold outcomeProblem? at hp
  split at hp <;> cases hp <;> rfl

/-- Of the failed outcomes only a missing field makes a problem of its kind. -/
theorem eq_unresolvedField_of_outcomeProblem? {s : Severities} {r : Reference} {o : Outcome}
    {p : Problem} (hp : s.outcomeProblem? r o = some p) (hkind : p.kind = .unresolvedField) :
    ∃ t, o = .unresolvedField t ∧ p.args = [t.name, r.memberName] := by
  cases o <;> cases hp <;> cases hkind
  exact ⟨_, rfl, rfl⟩

end Severities

/-! ## Results from outcomes -/

namespace Block

/-- Where nothing comes of what is wrong with the block as such, only its tokens count. -/
theorem filterMap_findings {f : Finding → Option α} (outcome : Reference → Outcome) {b : Block}
    (hnotNative : f (.notNative b) = none) (hunterminated : f (.unterminated b) = none) :
    (b.findings outcome).filterMap f = b.tokens.filterMap fun t => f (t.finding outcome) := by
  rw [findings, List.filterMap_append, List.filterMap_append, List.filterMap_map]
  cases b.isNative <;> cases b.terminated <;> simp [hnotNative, hunterminated]

theorem filterMap_reference?_findings (outcome : Reference → Outcome) (b : Block) :
    (b.findings outcome).filterMap Finding.reference? = b.references := by
  rw [filterMap_findings outcome rfl rfl, references]
  refine List.filterMap_congr fun t _ => ?_
  cases t <;> rfl

theorem filterMap_dependency?_findings (outcome : Reference → Outcome) (b : Block) :
    (b.findings outcome).filterMap Finding.dependency?
      = b.references.filterMap fun r => (outcome r).owner?.map JavaType.name := by
  rw [filterMap_findings outcome rfl rfl, references, List.filterMap_filterMap]
  refine List.filterMap_congr fun t _ => ?_
  cases t <;> rfl

end Block

namespace SourceUnit

/-- The names of the types that the references of a unit turned out to be about, in order. -/
def owners (u : SourceUnit) (outcome : Block → Reference → Outcome) : List String :=
  u.sites.filterMap fun site => (outcome site.1 site.2).owner?.map JavaType.name

/-- The result of a unit whose references have the given outcomes. -/
def result (s : Severities) (outcome : Block → Reference → Outcome) (u : SourceUnit) :
    ValidationResult where
  path := u.path
  references := u.blocks.flatMap Block.references
  problems := (s.problems outcome u.blocks).filter (·.severity ≠ .ignore)
  typeDependencies := (u.owners outcome).eraseDups

theorem mem_owners_of_mem_problems {s : Severities} {outcome : Block → Reference → Outcome}
    {u : SourceUnit} {p : Problem} (hp : p ∈ s.problems outcome u.blocks) {name : String}
    (hname : name ∈ p.typeDependencies) : name ∈ u.owners outcome := by
  obtain ⟨b, hb, hblock | ⟨t, ht, htoken⟩⟩ := Severities.mem_problems_iff.1 hp
  · obtain ⟨_, rfl⟩ := Severities.exists_of_mem_blockProblems hblock
    cases hname
  · cases t with
    | malformed m =>
      cases htoken
      cases hname
    | reference r =>
      -- The problem depends on the owner, which the reference hands to the result as well.
      rw [Severities.typeDependencies_of_outcomeProblem? htoken] at hname
      refine List.mem_filterMap.2 ⟨(b, r), mem_sites_iff.2 ⟨hb, Block.mem_references_iff.2 ht⟩, ?_⟩
      obtain ⟨t, ht, rfl⟩ := List.mem_map.1 hname
      rw [Option.mem_toList.1 ht]
      rfl

theorem ofFindings_findings (s : Severities) (outcome : Block → Reference → Outcome)
    (u : SourceUnit) :
    ValidationResult.ofFindings s u.path (u.blocks.flatMap fun b => b.findings (outcome b))
      = u.result s outcome := by
  apply ValidationResult.ext
  · exact ValidationResult.ofFindings_path ..
  · simp only [ValidationResult.ofFindings_references, List.filterMap_flatMap,
      Block.filterMap_reference?_findings, result]
  · simp only [ValidationResult.ofFindings_problems, List.filterMap_flatMap,
      Severities.filterMap_problem?_findings, result, Severities.problems, List.filter_flatMap]
  · simp only [ValidationResult.ofFindings_typeDependencies, List.filterMap_flatMap,
      Block.filterMap_dependency?_findings, result, owners, sites, List.filterMap_map]
    rfl

end SourceUnit

namespace TypeIndex

variable {idx : TypeIndex} {s : Severities} {u : SourceUnit}

/-- Validation succeeds just where every reference resolves, and the outcomes make the result. -/
theorem validate_eq_ok_iff_resolves {result : ValidationResult} :
    idx.validate s u = .ok result
      ↔ ∃ outcome, u.Resolves idx outcome ∧ result = u.result s outcome := by
  rw [validate_eq_ok_iff]
  constructor
  · rintro ⟨fs, hfs, rfl⟩
    obtain ⟨outcome, hresolves, rfl⟩ := findUnit_eq_ok_iff_resolves.1 hfs
    exact ⟨outcome, hresolves, u.ofFindings_findings s outcome⟩
  · rintro ⟨outcome, hresolves, rfl⟩
    exact ⟨_, findUnit_eq_ok_of_resolves hresolves, (u.ofFindings_findings s outcome).symm⟩

/-- The findings of a unit are those of its blocks, so they can be had in two parts. -/
theorem findUnit_append (idx : TypeIndex) (u : SourceUnit) (first second : List Block) :
    idx.findUnit { u with blocks := first ++ second } = do
      let fs ← idx.findUnit { u with blocks := first }
      let gs ← idx.findUnit { u with blocks := second }
      return fs ++ gs := by
  have hcontext : ∀ bs : List Block, SourceUnit.context { u with blocks := bs } = u.context :=
    fun _ => rfl
  simp only [findUnit, hcontext, List.mapM_append, bind_assoc, pure_bind, List.flatten_append]

theorem validate_append (idx : TypeIndex) (s : Severities) (u : SourceUnit)
    (first second : List Block) :
    idx.validate s { u with blocks := first ++ second } = do
      let a ← idx.validate s { u with blocks := first }
      let b ← idx.validate s { u with blocks := second }
      return a.append b := by
  unfold validate
  rw [findUnit_append]
  cases idx.findUnit { u with blocks := first } with
  | error e => rfl
  | ok fs =>
    cases idx.findUnit { u with blocks := second } with
    | error e => rfl
    | ok gs => exact congrArg Except.ok (ValidationResult.ofFindings_append s u.path fs gs)

/-- A result lists the references of the terminated blocks, the problems that are not ignored and
each owner once. Blocks contribute one after the other, and no problem depends on a type that the
result does not depend on. -/
theorem result_of_validate {result : ValidationResult} (h : idx.validate s u = .ok result) :
    (∃ outcome, u.Resolves idx outcome
        ∧ result.path = u.path
        ∧ result.references = ((u.blocks.filter (·.terminated)).flatMap fun b =>
            references b.body b.bodyOffset b.owner)
        ∧ result.problems = (s.problems outcome u.blocks).filter (·.severity ≠ .ignore)
        ∧ result.typeDependencies = (u.owners outcome).eraseDups)
      ∧ (∀ first second : List Block, idx.validate s { u with blocks := first ++ second } = do
          let a ← idx.validate s { u with blocks := first }
          let b ← idx.validate s { u with blocks := second }
          return a.append b)
      ∧ (∀ p ∈ result.problems, p.severity ≠ .ignore)
      ∧ ∀ p ∈ result.problems, ∀ name ∈ p.typeDependencies, name ∈ result.typeDependencies := by
  obtain ⟨outcome, hresolves, rfl⟩ := validate_eq_ok_iff_resolves.1 h
  refine ⟨⟨outcome, hresolves, rfl, Block.flatMap_references u.blocks, rfl, rfl⟩,
    validate_append idx s u, ?_, ?_⟩
  · intro p hp
    exact of_decide_eq_true (List.mem_filter.1 hp).2
  · intro p hp name hname
    exact List.mem_eraseDups.2
      (SourceUnit.mem_owners_of_mem_problems (List.mem_filter.1 hp).1 hname)

/-- A source with a reference in a block of a native method and an open block after a method that
is not native. -/
def mixedSource : String :=
  "package a;class A{native void m()/*-{@B::new(I)}-*/;void n()/*-{}*/{}}"

def callBlock : Block :=
  ⟨"a.A", "m", true, ["a.A"], 33, 18, "@B::new(I)", 37, true⟩

def openBlock : Block :=
  ⟨"a.A", "n", false, ["a.A"], 60, 7, "\x7d*/", 64, false⟩

def mixedUnit : SourceUnit where
  path := "A.java"
  source := mixedSource
  package := some "a"
  blocks := [callBlock, openBlock]

def callReference : Reference :=
  ⟨37, 10, "B", "new", .constructor, "I", "a.A#m"⟩

/-- An index where the class of the reference has only the constructor without parameters. -/
def emptyClass : StaticIndex :=
  StaticIndex.empty.applyAll [.addClass "a.B" none]

def mixedResult (s : Severities) : ValidationResult where
  path := "A.java"
  references := [callReference]
  problems := [
    s.grade .unresolvedMethod 37 10 ["a.B", "new"] ["a.B"],
    s.grade .parseError 60 7 ["JSNI block on non-native method 'n'"],
    s.grade .parseError 60 7 ["unterminated JSNI block, expected '\x7d-*/'"]].filter
      (·.severity ≠ .ignore)
  typeDependencies := ["a.B"]

theorem ofSource_mixed : SourceUnit.ofSource "A.java" mixedSource = mixedUnit := by
  decide +kernel

theorem tokens_callBlock : callBlock.tokens = [.reference callReference] := by
  let r : Reading := .call ['B'] ['n', 'e', 'w'] ['I']
  have hfits : r.Fits [] := .call (.identifier (by decide)) (by decide) (by decide)
  exact Block.tokens_of_fits hfits rfl rfl

theorem tokens_openBlock : openBlock.tokens = [] :=
  rfl

theorem sites_mixed : mixedUnit.sites = [(callBlock, callReference)] := by
  change [callBlock, openBlock].flatMap _ = _
  simp only [List.flatMap_cons, List.flatMap_nil, Block.references, tokens_callBlock,
    tokens_openBlock]
  rfl

/-- The result if the constructor is not found. -/
theorem result_mixed (s : Severities) :
    mixedUnit.result s (fun _ _ => .unresolvedMethod ⟨"a.B", .classKind⟩) = mixedResult s := by
  apply ValidationResult.ext
  · rfl
  · change [callBlock, openBlock].flatMap Block.references = _
    simp only [List.flatMap_cons, List.flatMap_nil, Block.references, tokens_callBlock,
      tokens_openBlock]
    rfl
  · change (Severities.problems _ _ [callBlock, openBlock]).filter _ = _
    simp only [Severities.problems, List.flatMap_cons, List.flatMap_nil, tokens_callBlock,
      tokens_openBlock]
    rfl
  · rw [SourceUnit.result, SourceUnit.owners, sites_mixed]
    rfl

theorem validate_mixed (s : Severities) :
    emptyClass.toIndex.validate s (.ofSource "A.java" mixedSource) = .ok (mixedResult s) := by
  rw [ofSource_mixed]
  exact validate_eq_ok_iff_resolves.2
    ⟨_, SourceUnit.resolves_of_sites_eq sites_mixed rfl, (result_mixed s).symm⟩

theorem result_of_validate_mixed :
    emptyClass.toIndex.validate .default (.ofSource "A.java" mixedSource)
        = .ok (mixedResult .default)
      ∧ (∃ outcome, (SourceUnit.ofSource "A.java" mixedSource).Resolves emptyClass.toIndex outcome
        ∧ (mixedResult .default).typeDependencies
          = ((SourceUnit.ofSource "A.java" mixedSource).owners outcome).eraseDups)
      ∧ "a.B" ∈ (mixedResult .default).typeDependencies := by
  obtain ⟨⟨outcome, hresolves, -, -, -, hnames⟩, -, -, hdependencies⟩ :=
    result_of_validate (validate_mixed .default)
  exact ⟨validate_mixed .default, ⟨outcome, hresolves, hnames⟩,
    hdependencies _ (List.mem_cons_self ..) "a.B" (List.mem_cons_self ..)⟩

end TypeIndex

end Jsni
