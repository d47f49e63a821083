import Jsni.Proofs.Java.Leaf
import Jsni.Proofs.Reference.Scan

/-!
# The types around a block

The enclosing types of a block are the type declarations around its method, each qualified by the
one around it and the outermost one by the package. The declaring type is the innermost of them,
and the owner of a reference in the block leads back to it.
-/

namespace Jsni

/-! ## Members -/

theorem splitAtLast_eq_none {separator : Char} {cs : List Char} (h : separator ∉ cs) :
    splitAtLast separator cs = none := by
  induction cs with
  | nil => rfl
  | cons c cs ih =>
    have hcs : separator ∉ cs := fun hmem => h (List.mem_cons_of_mem c hmem)
    have hc : c ≠ separator := fun heq => h (heq ▸ List.mem_cons_self ..)
    rw [splitAtLast, ih hcs]
    exact if_neg hc

theorem splitAtLast_append_cons {separator : Char} (before : List Char) {after : List Char}
    (h : separator ∉ after) :
    splitAtLast separator (before ++ separator :: after) = some (before, after) := by
  induction before with
  | nil => simp [splitAtLast, splitAtLast_eq_none h]
  | cons c before ih => simp [splitAtLast, ih]

theorem typeOfMemberKey_memberKey (typeName : String) {member : String}
    (h : '#' ∉ member.toList) : typeOfMemberKey (memberKey typeName member) = typeName := by
  have hkey : (memberKey typeName member).toList
      = typeName.toList ++ '#' :: member.toList := by
    simp [memberKey]
  simp [typeOfMemberKey, splitMemberKey?, hkey, splitAtLast_append_cons _ h]

theorem owner_of_mem_references {body owner : String} {offset : Nat} {r : Reference}
    (hr : r ∈ references body offset owner) : r.owner = owner := by
  obtain ⟨t, ht, hreference⟩ := List.mem_filterMap.1 hr
  obtain ⟨_, reading, _, -, -, rfl⟩ := exists_of_mem_scanChars ht
  cases reading <;> cases hreference <;> rfl

namespace Java

/-! ## Nested names -/

/-- Names qualified one by the other, innermost first: each by the next one, and the outermost by
the package, if there is one. -/
structure AreNested (package : Option String) (names qualified : List String) : Prop where
  length_eq : qualified.length = names.length
  outermost_of_none : package = none → qualified.getLast? = names.getLast?
  outermost : ∀ p, package = some p → p ≠ "" →
    qualified.getLast? = names.getLast?.map fun name => p ++ "." ++ name
  nested : ∀ i outer name, qualified[i + 1]? = some outer → names[i]? = some name →
    qualified[i]? = some (outer ++ "." ++ name)

theorem qualify_of_ne {enclosing : String} (h : enclosing ≠ "") (name : String) :
    qualify (some enclosing) name = enclosing ++ "." ++ name :=
  if_neg h

theorem qualify_ne_empty (package : Option String) {name : String} (h : name ≠ "") :
    qualify package name ≠ "" := by
  unfold qualify
  split
  · exact h
  · split
    · exact h
    · simp [h]

theorem areNested_singleton (package : Option String) (name : String) :
    AreNested package [name] [qualify package name] where
  length_eq := rfl
  outermost_of_none := by
    rintro rfl
    rfl
  outermost := by
    rintro p rfl hp
    rw [qualify_of_ne hp]
    rfl
  nested i outer _ houter _ := by simp at houter

theorem AreNested.cons {package : Option String} {outer qualified : List String}
    {enclosing : String} (h : AreNested package outer (enclosing :: qualified)) (name : String) :
    AreNested package (name :: outer)
      ((enclosing ++ "." ++ name) :: enclosing :: qualified) := by
  have hlast : (name :: outer).getLast? = outer.getLast? := by
    cases outer with
    | nil => cases h.length_eq
    | cons => rfl
  refine ⟨congrArg (· + 1) h.length_eq, fun hnone => ?_, fun p hsome hp => ?_, ?_⟩
  · rw [hlast, ← h.outermost_of_none hnone]
    rfl
  · rw [hlast, ← h.outermost p hsome hp]
    rfl
  · rintro (_ | i) q n hq hn
    · cases hq
      cases hn
      rfl
    · exact h.nested i q n hq hn

theorem qualifiedNames_cons {package : Option String} {outer qualified : List String}
    {enclosing : String} (h : qualifiedNames package outer = enclosing :: qualified)
    (hne : enclosing ≠ "") (name : String) :
    qualifiedNames package (name :: outer)
      = (enclosing ++ "." ++ name) :: enclosing :: qualified := by
  rw [qualifiedNames, h]
  exact congrArg (· :: _) (qualify_of_ne hne name)

theorem areNested_qualifiedNames (package : Option String) {names : List String}
    (h : ∀ name ∈ names, name ≠ "") : AreNested package names (qualifiedNames package names) := by
  -- No qualified name is empty either, so that each is a proper part of the next.
  suffices AreNested package names (qualifiedNames package names)
      ∧ ∀ q ∈ qualifiedNames package names, q ≠ "" from this.1
  induction names with
  | nil => exact ⟨⟨rfl, fun _ => rfl, fun _ _ _ => rfl, by simp [qualifiedNames]⟩,
      by simp [qualifiedNames]⟩
  | cons name outer ih =>
    obtain ⟨hname, houter⟩ := List.forall_mem_cons.1 h
    obtain ⟨hnested, hne⟩ := ih houter
    cases hall : qualifiedNames package outer with
    | nil =>
      rw [hall] at hnested
      obtain rfl : outer = [] := List.length_eq_zero_iff.1 hnested.length_eq.symm
      exact ⟨areNested_singleton package name,
        List.forall_mem_singleton.2 (qualify_ne_empty package hname)⟩
    | cons enclosing qualified =>
      rw [hall] at hnested hne
      have henclosing := hne enclosing (List.mem_cons_self ..)
      rw [qualifiedNames_cons hall henclosing]
      exact ⟨hnested.cons name, List.forall_mem_cons.2 ⟨by simp [hname], hne⟩⟩

/-! ## Declarations -/

mutual

/-- The roles of the branches of a tree. -/
def Node.roles : Node → List Role
  | .leaf _               => []
  | .branch role children => role :: rolesOf children

def rolesOf : List Node → List Role
  | []      => []
  | n :: ns => n.roles ++ rolesOf ns

end

/-- An identifier: letters, digits, `_` and `$`. -/
def IsName (name : String) : Prop :=
  name ≠ "" ∧ ∀ c ∈ name.toList, isWordChar c

instance (name : String) : Decidable (IsName name) :=
  decidable_of_iff (name ≠ "" ∧ name.toList.all isWordChar) (by rw [IsName, List.all_eq_true])

/-- The types and methods that a branch declares are named by identifiers. -/
def Role.IsNamed : Role → Prop
  | typeDeclaration name   => IsName name
  | methodDeclaration name => IsName name
  | _                      => True

instance : DecidablePred Role.IsNamed
  | .typeDeclaration name   => inferInstanceAs (Decidable (IsName name))
  | .methodDeclaration name => inferInstanceAs (Decidable (IsName name))
  | .modifiers              => .isTrue trivial
  | .packageDeclaration     => .isTrue trivial
  | .importDeclaration      => .isTrue trivial
  | .other                  => .isTrue trivial

theorem IsName.hash_not_mem {name : String} (h : IsName name) : '#' ∉ name.toList :=
  fun hmem => absurd (h.2 '#' hmem) (by decide)

theorem roles_subset_rolesOf {n : Node} {ns : List Node} (h : n ∈ ns) :
    n.roles ⊆ rolesOf ns := by
  induction ns with
  | nil => cases h
  | cons m ns ih =>
    rw [rolesOf]
    rcases List.mem_cons.1 h with rfl | h
    · exact List.subset_append_left ..
    · exact List.Subset.trans (ih h) (List.subset_append_right ..)

theorem mem_roles_branch (role : Role) (children : List Node) :
    role ∈ (Node.branch role children).roles := by
  rw [Node.roles]
  exact List.mem_cons_self ..

theorem Node.Contains.roles_subset {root n : Node} {around : List Ancestor}
    (h : root.Contains around n) :
    n.roles ⊆ root.roles ∧ ∀ a ∈ around, a.node.roles ⊆ root.roles := by
  induction h with
  | root => exact ⟨List.Subset.refl _, by simp⟩
  | @child around role before n after _ ih =>
    obtain ⟨hparent, haround⟩ := ih
    refine ⟨List.Subset.trans ?_ hparent, List.forall_mem_cons.2 ⟨hparent, haround⟩⟩
    rw [Node.roles]
    exact List.Subset.trans (roles_subset_rolesOf (by simp)) (List.subset_cons_self ..)

theorem mem_typeNames {around : List Ancestor} {name : String} (h : name ∈ typeNames around) :
    ∃ a ∈ around, Role.typeDeclaration name ∈ a.node.roles := by
  obtain ⟨a, ha, htype⟩ := List.mem_filterMap.1 h
  refine ⟨a, ha, ?_⟩
  unfold Node.typeName? at htype
  split at htype
  · cases htype
    rename_i hnode
    rw [hnode]
    exact mem_roles_branch ..
  · cases htype

end Java

/-! ## Blocks -/

/-- The enclosing types of a block are the type declarations around its method, whatever else is
around it. The references in the block know the innermost one as the type of their owner. -/
theorem SourceUnit.blocks_nested (path : Path) (source : String) {root : Java.Node}
    (hnamed : ∀ role ∈ root.roles, role.IsNamed) {b : Block}
    (hb : b ∈ (ofTree path source root).blocks) :
    ∃ x m, root.HasLeaf x ∧ Java.IsComment x.lexeme b ∧ x.BelongsTo m
      ∧ root.Contains m.ancestors m.node ∧ b.method = m.name
      ∧ Java.AreNested (ofTree path source root).package (Java.typeNames m.ancestors) b.enclosing
      ∧ b.enclosing.head? = some b.declaringType
      ∧ b.owner = b.declaringType ++ "#" ++ m.name
      ∧ ∀ r ∈ references b.body b.bodyOffset b.owner,
          r.owner = b.owner ∧ r.ownerType = b.declaringType := by
  obtain ⟨x, m, hx, hcomment, hm, hof⟩ := exists_leaf_of_mem_blocks hb
  have hcontains := hm.contains hx
  obtain ⟨hroles, haround⟩ := hcontains.roles_subset
  have htypes : ∀ name ∈ Java.typeNames m.ancestors, name ≠ "" := by
    intro name hname
    obtain ⟨a, ha, hrole⟩ := Java.mem_typeNames hname
    exact (hnamed _ (haround a ha hrole)).1
  have hmethod : Java.IsName m.name := hnamed _ (hroles (Java.mem_roles_branch ..))
  refine ⟨x, m, hx, hcomment, hm, hcontains, hof.method, ?_, hof.declaringType, ?_, ?_⟩
  · rw [hof.enclosing]
    exact Java.areNested_qualifiedNames _ htypes
  · rw [← hof.method]
    rfl
  · intro r hr
    have howner := owner_of_mem_references hr
    refine ⟨howner, ?_⟩
    rw [Reference.ownerType, howner, Block.owner, hof.method]
    exact typeOfMemberKey_memberKey _ hmethod.hash_not_mem

/-- A method of a constant of an enum, itself in an anonymous class. -/
def anonymousSource : String :=
  "package p.q;class A\x7bObject o=new B()\x7benum E\x7bX\x7bnative void f()/*-\x7b@C::d\x7d-*/;\x7d;\x7d\x7d;\x7d"

def constantBlock : Block :=
  ⟨"p.q.A.E", "f", true, ["p.q.A.E", "p.q.A"], 61, 13, "@C::d", 65, true⟩

theorem read_anonymous :
    SourceUnit.ofSource "A.java" anonymousSource
        = { path := "A.java", source := anonymousSource, package := some "p.q"
            blocks := [constantBlock] }
      ∧ ∀ role ∈ (Java.parse anonymousSource).roles, role.IsNamed := by
  decide +kernel

theorem SourceUnit.blocks_nested_anonymous :
    (∀ role ∈ (Java.parse anonymousSource).roles, role.IsNamed)
      ∧ constantBlock ∈ (ofSource "A.java" anonymousSource).blocks
      ∧ ∃ x m, (Java.parse anonymousSource).HasLeaf x
        ∧ Java.IsComment x.lexeme constantBlock ∧ x.BelongsTo m
        ∧ (Java.parse anonymousSource).Contains m.ancestors m.node ∧ m.name = "f"
        ∧ Java.AreNested (some "p.q") (Java.typeNames m.ancestors) ["p.q.A.E", "p.q.A"]
        ∧ ∀ r ∈ references "@C::d" 65 "p.q.A.E#f", r.ownerType = "p.q.A.E" := by
  obtain ⟨hunit, hnamed⟩ := read_anonymous
  have hmem : constantBlock ∈ (ofSource "A.java" anonymousSource).blocks := by
    rw [hunit]
    exact List.mem_singleton_self _
  have hpackage : (ofTree "A.java" anonymousSource (Java.parse anonymousSource)).package
      = some "p.q" :=
    congrArg package hunit
  obtain ⟨x, m, hx, hcomment, hm, hcontains, hmethod, hnested, -, -, hreferences⟩ :=
    blocks_nested "A.java" anonymousSource hnamed hmem
  rw [hpackage] at hnested
  exact ⟨hnamed, hmem, x, m, hx, hcomment, hm, hcontains, hmethod.symm, hnested,
    fun r hr => (hreferences r hr).2⟩

end Jsni
