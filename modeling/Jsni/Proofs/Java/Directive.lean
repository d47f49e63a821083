import Jsni.Proofs.Java.Leaf
import Jsni.Proofs.Java.Spelling
import Mathlib.Data.List.Flatten

/-!
# Packages and imports

The tokens of a directive say what it declares, whatever white space and comments stand between
them. The name read off its text is the declared one unless a comment stands inside the name.
-/

namespace Jsni

open Text

namespace Java

/-! ## Directives -/

inductive DirectiveKind where
  | package
  | imports (isStatic onDemand : Bool)
deriving DecidableEq, Repr

/-- The declaration of a package, or an import. -/
structure Directive where
  kind : DirectiveKind
  identifiers : List String
  ne_nil : identifiers ≠ []
  /-- Keywords are no identifiers. -/
  not_static : "static" ∉ identifiers

def Lexeme.spelling (l : Lexeme) : LexemeKind × List Char :=
  (l.kind, l.text)

def wordSpelling (word : String) : LexemeKind × List Char :=
  (.word, word.toList)

def markSpelling (c : Char) : LexemeKind × List Char :=
  (.mark, [c])

/-- The tokens of a name: identifiers with a dot between any two. -/
def nameSpellings : List String → List (LexemeKind × List Char)
  | []        => []
  | [id]      => [wordSpelling id]
  | id :: ids => wordSpelling id :: markSpelling '.' :: nameSpellings ids

namespace DirectiveKind

def role : DirectiveKind → Role
  | package     => .packageDeclaration
  | imports _ _ => .importDeclaration

/-- The tokens before the name, without the first one. -/
def modifiers : DirectiveKind → List (LexemeKind × List Char)
  | imports true _ => [wordSpelling "static"]
  | _              => []

def keyword : DirectiveKind → String
  | package     => "package"
  | imports _ _ => "import"

/-- The tokens after the name. -/
def ending : DirectiveKind → List (LexemeKind × List Char)
  | imports _ true => [markSpelling '.', markSpelling '*', markSpelling ';']
  | _              => [markSpelling ';']

end DirectiveKind

namespace Directive

def spellings (d : Directive) : List (LexemeKind × List Char) :=
  wordSpelling d.kind.keyword
    :: (d.kind.modifiers ++ (nameSpellings d.identifiers ++ d.kind.ending))

/-- The identifiers joined by dots. -/
def name (d : Directive) : String :=
  ".".intercalate d.identifiers

/-- The package that is declared. -/
def package? (d : Directive) : Option String :=
  match d.kind with
  | .package => some d.name
  | _        => none

/-- What is imported, unless it is static. -/
def import? (d : Directive) : Option String :=
  match d.kind with
  | .imports false onDemand => some (d.name ++ if onDemand then ".*" else "")
  | _                       => none

/-- From its keyword on, the tokens of the node are those of the directive. Annotations, which have
other words, may stand before it. -/
structure IsWritten (d : Directive) (n : Node) : Prop where
  node : n = .branch d.kind.role n.children
  spellings : ((n.lexemes.filter (! ·.isComment)).map Lexeme.spelling).dropWhile
    (· ≠ wordSpelling d.kind.keyword) = d.spellings

instance (d : Directive) (n : Node) : Decidable (d.IsWritten n) :=
  decidable_of_iff
    (n = .branch d.kind.role n.children
      ∧ ((n.lexemes.filter (! ·.isComment)).map Lexeme.spelling).dropWhile
        (· ≠ wordSpelling d.kind.keyword) = d.spellings)
    ⟨fun ⟨hnode, hspellings⟩ => ⟨hnode, hspellings⟩, fun h => ⟨h.node, h.spellings⟩⟩

end Directive

/-! ## White space -/

theorem squeeze_eq_self {cs : List Char} (h : ∀ c ∈ cs, isBlank c = false) : squeeze cs = cs :=
  List.filter_eq_self.2 fun c hc => by simp [h c hc]

namespace Lexeme.IsSpelled

variable {l : Lexeme}

theorem squeeze_chars (h : l.IsSpelled) : squeeze l.chars = squeeze l.text := by
  have hblank : squeeze l.blank = [] := List.filter_eq_nil_iff.2 fun c hc => by simp [h.blank c hc]
  rw [chars, squeeze, List.filter_append]
  change squeeze l.blank ++ _ = _
  rw [hblank, List.nil_append, squeeze]

theorem squeeze_ne_nil (h : l.IsSpelled) : squeeze l.text ≠ [] := by
  obtain ⟨c, text, htext⟩ := List.exists_cons_of_ne_nil h.ne_nil
  have hc := h.not_blank c (by rw [htext]; rfl)
  rw [htext, squeeze, List.filter_cons_of_pos (by simp [hc])]
  exact List.cons_ne_nil _ _

/-- There is no white space in a word or a mark. -/
theorem squeeze_text (h : l.IsSpelled) (hkind : l.kind = .word ∨ l.kind = .mark) :
    squeeze l.text = l.text := by
  apply squeeze_eq_self
  rcases hkind with hkind | hkind
  · exact fun c hc => isBlank_of_isWordChar (h.word hkind c hc)
  · intro c hc
    obtain ⟨d, htext⟩ := List.length_eq_one_iff.1 (h.mark hkind)
    apply h.not_blank
    rw [htext, List.mem_singleton] at hc
    rw [htext, hc]
    rfl

end Lexeme.IsSpelled

theorem squeeze_sourceText {ls : List Lexeme} (h : ∀ l ∈ ls, l.IsSpelled) :
    squeeze (sourceText ls) = ls.flatMap fun l => squeeze l.text := by
  cases ls with
  | nil => rfl
  | cons l ls =>
    have hchars : squeeze (ls.flatMap Lexeme.chars) = ls.flatMap fun l => squeeze l.text := by
      rw [squeeze, List.filter_flatMap]
      exact List.flatMap_congr fun m hm => (h m (List.mem_cons_of_mem _ hm)).squeeze_chars
    rw [sourceText, squeeze, List.filter_append, List.flatMap_cons, ← hchars, squeeze, squeeze]

/-! ## Comments -/

/-- What is left out of a text can be told from its length. -/
theorem flatMap_filter_eq_iff {p : α → Bool} {f : α → List β} {xs : List α}
    (h : ∀ x ∈ xs, f x ≠ []) : xs.flatMap f = (xs.filter p).flatMap f ↔ ∀ x ∈ xs, p x := by
  constructor
  · intro heq
    induction xs with
    | nil => nofun
    | cons x xs ih =>
      obtain ⟨hx, hxs⟩ := List.forall_mem_cons.1 h
      by_cases hp : p x
      · rw [List.filter_cons_of_pos hp, List.flatMap_cons, List.flatMap_cons] at heq
        exact List.forall_mem_cons.2 ⟨hp, ih hxs (List.append_cancel_left heq)⟩
      · have hle := ((List.filter_sublist (p := p) (l := xs)).flatMap f).length_le
        have hlength := congrArg List.length heq
        have hpos := List.length_pos_of_ne_nil hx
        rw [List.filter_cons_of_neg hp, List.flatMap_cons, List.length_append] at hlength
        omega
  · intro hp
    rw [List.filter_eq_self.2 hp]

theorem filter_dropWhile {p q : α → Bool} (h : ∀ x, p x = false → q x) (xs : List α) :
    (xs.dropWhile q).filter p = (xs.filter p).dropWhile q := by
  induction xs with
  | nil => rfl
  | cons x xs ih =>
    by_cases hq : q x
    · rw [List.dropWhile_cons_of_pos hq, ih]
      by_cases hp : p x
      · rw [List.filter_cons_of_pos hp, List.dropWhile_cons_of_pos hq]
      · rw [List.filter_cons_of_neg hp]
    · have hp : p x := by
        by_contra hp
        exact hq (h x (by simpa using hp))
      rw [List.dropWhile_cons_of_neg hq, List.filter_cons_of_pos hp,
        List.dropWhile_cons_of_neg hq]

/-- The name without its comments is the name among the tokens. -/
theorem filter_nameLexemes (ls : List Lexeme) :
    (nameLexemes ls).filter (! ·.isComment) = nameLexemes (ls.filter (! ·.isComment)) := by
  have hcomment : ∀ l : Lexeme, (! l.isComment) = false → decide (l.kind ≠ .word) := by
    intro l hl
    rcases l with ⟨_ | _ | _ | _ | _, _⟩ <;> simp_all [Lexeme.isComment]
  simp only [nameLexemes, List.filter_reverse, filter_dropWhile hcomment]

/-! ## Names -/

theorem nameLexemes_append {ls ms : List Lexeme} (hfirst : ∀ l ∈ ls.head?, l.kind = .word)
    (hlast : ∀ l ∈ ls.getLast?, l.kind = .word) (hms : ∀ l ∈ ms, l.kind ≠ .word)
    (hne : ls ≠ []) : nameLexemes (ls ++ ms) = ls := by
  have hfront : (ls ++ ms).dropWhile (·.kind ≠ .word) = ls ++ ms := by
    obtain ⟨l, rest, rfl⟩ := List.exists_cons_of_ne_nil hne
    exact List.dropWhile_cons_of_neg (by simp [hfirst l rfl])
  have hback : (ls ++ ms).reverse.dropWhile (·.kind ≠ .word) = ls.reverse := by
    obtain ⟨init, l, rfl⟩ := (List.eq_nil_or_concat' ls).resolve_left hne
    have hl := hlast l (by simp)
    rw [List.reverse_append, List.dropWhile_append_of_pos (by simpa using hms),
      List.reverse_append, List.reverse_singleton, List.singleton_append,
      List.dropWhile_cons_of_neg (by simp [hl])]
  rw [nameLexemes, hfront, hback, List.reverse_reverse]

theorem nameLexemes_subset (ls : List Lexeme) : nameLexemes ls ⊆ ls := by
  intro l hl
  have hback := (List.dropWhile_sublist _).subset (List.mem_reverse.1 hl)
  exact (List.dropWhile_sublist _).subset (List.mem_reverse.1 hback)

theorem kind_of_mem_nameSpellings {ids : List String} {s : LexemeKind × List Char}
    (h : s ∈ nameSpellings ids) : s.1 = .word ∨ s = markSpelling '.' := by
  fun_induction nameSpellings ids with
  | case1 => cases h
  | case2 id =>
    rw [List.mem_singleton] at h
    exact .inl (by rw [h]; rfl)
  | case3 id ids _ ih =>
    rcases List.mem_cons.1 h with rfl | h
    · exact .inl rfl
    · rcases List.mem_cons.1 h with rfl | h
      · exact .inr rfl
      · exact ih h

theorem head?_nameSpellings {ids : List String} (h : ids ≠ []) :
    (nameSpellings ids).head? = ids.head?.map wordSpelling := by
  fun_cases nameSpellings ids with
  | case1 => exact absurd rfl h
  | case2 => rfl
  | case3 => rfl

theorem getLast?_nameSpellings (ids : List String) :
    (nameSpellings ids).getLast? = ids.getLast?.map wordSpelling := by
  fun_induction nameSpellings ids with
  | case1 => rfl
  | case2 => rfl
  | case3 id ids hids ih =>
    obtain ⟨id', rest, rfl⟩ := List.exists_cons_of_ne_nil hids
    rw [List.getLast?_cons_cons, List.getLast?_cons, ih, List.getLast?_cons_cons,
      List.getLast?_cons]
    rfl

theorem flatMap_nameSpellings (ids : List String) :
    (nameSpellings ids).flatMap Prod.snd = (".".intercalate ids).toList := by
  fun_induction nameSpellings ids with
  | case1 => rfl
  | case2 id => simp [wordSpelling]
  | case3 id ids hids ih =>
    rw [List.flatMap_cons, List.flatMap_cons, ih, String.intercalate_cons_of_ne_nil hids]
    simp [wordSpelling, markSpelling]

/-- Among tokens, the name ends before the marks after it. -/
theorem spellings_nameLexemes {ls : List Lexeme} {ids : List String}
    {ending : List (LexemeKind × List Char)} (hne : ids ≠ [])
    (hending : ∀ s ∈ ending, s.1 ≠ .word)
    (h : ls.map Lexeme.spelling = nameSpellings ids ++ ending) :
    (nameLexemes ls).map Lexeme.spelling = nameSpellings ids := by
  obtain ⟨name, rest, rfl, hname, hrest⟩ := List.map_eq_append_iff.1 h
  have hfirst : ∀ l ∈ name.head?, l.kind = .word := by
    intro l hl
    have hhead := congrArg List.head? hname
    rw [List.head?_map, hl, head?_nameSpellings hne] at hhead
    obtain ⟨id, -, hid⟩ := Option.map_eq_some_iff.1 hhead.symm
    exact congrArg Prod.fst hid.symm
  have hlast : ∀ l ∈ name.getLast?, l.kind = .word := by
    intro l hl
    have hback := congrArg List.getLast? hname
    rw [List.getLast?_map, hl, getLast?_nameSpellings] at hback
    obtain ⟨id, -, hid⟩ := Option.map_eq_some_iff.1 hback.symm
    exact congrArg Prod.fst hid.symm
  have hmarks : ∀ l ∈ rest, l.kind ≠ .word := by
    intro l hl
    apply hending l.spelling
    rw [← hrest]
    exact List.mem_map_of_mem hl
  have hname_ne : name ≠ [] := by
    rintro rfl
    have hhead := head?_nameSpellings hne
    rw [← hname, List.head?_eq_some_head hne] at hhead
    cases hhead
  rw [nameLexemes_append hfirst hlast hmarks hname_ne, hname]

/-- The text of a name is its identifiers joined by dots unless a comment stands in it. -/
theorem nameText_eq_iff {ls : List Lexeme} {ids : List String}
    {ending : List (LexemeKind × List Char)} (hls : ∀ l ∈ ls, l.IsSpelled) (hne : ids ≠ [])
    (hending : ∀ s ∈ ending, s.1 ≠ .word)
    (h : (ls.filter (! ·.isComment)).map Lexeme.spelling = nameSpellings ids ++ ending) :
    nameText ls = ".".intercalate ids ↔ ∀ l ∈ nameLexemes ls, ¬ l.isComment := by
  have hspelled : ∀ l ∈ nameLexemes ls, l.IsSpelled :=
    fun l hl => hls l (nameLexemes_subset ls hl)
  have hname := spellings_nameLexemes hne hending h
  rw [← filter_nameLexemes] at hname
  have hdeclared : (".".intercalate ids).toList
      = ((nameLexemes ls).filter (! ·.isComment)).flatMap fun l => squeeze l.text := by
    rw [← flatMap_nameSpellings, ← hname, List.flatMap_map]
    refine List.flatMap_congr fun l hl => ?_
    have hkind := kind_of_mem_nameSpellings (hname ▸ List.mem_map_of_mem hl)
    have hl := hspelled l (List.mem_of_mem_filter hl)
    exact (hl.squeeze_text (hkind.imp_right (congrArg Prod.fst))).symm
  rw [← String.toList_inj, nameText, String.toList_ofList, squeeze_sourceText hspelled, hdeclared,
    flatMap_filter_eq_iff fun l hl => (hspelled l hl).squeeze_ne_nil]
  simp

/-! ## Reading directives -/

theorem Lexeme.isWord_iff {l : Lexeme} {word : String} :
    l.isWord word ↔ l.spelling = wordSpelling word := by
  simp only [isWord, Bool.and_eq_true, decide_eq_true_eq, spelling, wordSpelling, Prod.mk.injEq]

theorem Lexeme.isMark_iff {l : Lexeme} {c : Char} : l.isMark c ↔ l.spelling = markSpelling c := by
  simp only [isMark, Bool.and_eq_true, decide_eq_true_eq, spelling, markSpelling, Prod.mk.injEq]

theorem head?_any_isWord_iff {ls : List Lexeme} {word : String} :
    ls.head?.any (·.isWord word)
      ↔ (ls.map Lexeme.spelling).head? = some (wordSpelling word) := by
  cases ls with
  | nil => simp
  | cons l ls => simp [Lexeme.isWord_iff]

theorem any_isMark_iff {ls : List Lexeme} {c : Char} :
    ls.any (·.isMark c) ↔ markSpelling c ∈ ls.map Lexeme.spelling := by
  simp [Lexeme.isMark_iff]

theorem wordSpelling_injective : Function.Injective wordSpelling := by
  intro word word' h
  exact String.toList_inj.1 (congrArg Prod.snd h)

/-- Comments make no difference to which tokens stand after a word. -/
theorem spellings_after {word : String} {ls : List Lexeme} {rest : List (LexemeKind × List Char)}
    (h : ((ls.filter (! ·.isComment)).map Lexeme.spelling).dropWhile (· ≠ wordSpelling word)
      = wordSpelling word :: rest) :
    ((after word ls).filter (! ·.isComment)).map Lexeme.spelling = rest := by
  unfold after
  induction ls with
  | nil => cases h
  | cons l ls ih =>
    by_cases hword : l.isWord word
    · have hcomment : (! l.isComment) = true := by
        rcases l with ⟨_ | _ | _ | _ | _, _⟩ <;> simp_all [Lexeme.isComment, Lexeme.isWord]
      have hspelling := Lexeme.isWord_iff.1 hword
      rw [List.filter_cons_of_pos (p := fun l : Lexeme => ! l.isComment) hcomment, List.map_cons,
        List.dropWhile_cons_of_neg (by simpa using hspelling)] at h
      rw [List.dropWhile_cons_of_neg (by simpa using hword)]
      exact (List.cons.inj h).2
    · have hspelling := mt Lexeme.isWord_iff.2 hword
      have hskip : ((ls.filter (! ·.isComment)).map Lexeme.spelling).dropWhile
          (· ≠ wordSpelling word) = wordSpelling word :: rest := by
        by_cases hcomment : l.isComment
        · rwa [List.filter_cons_of_neg (by simpa using hcomment)] at h
        · rwa [List.filter_cons_of_pos (by simpa using hcomment), List.map_cons,
            List.dropWhile_cons_of_pos (by simpa using hspelling)] at h
      rw [List.dropWhile_cons_of_pos (by simpa using hword)]
      exact ih hskip

/-- No comment stands between the tokens of the name of a directive. -/
def Node.HasPlainName (n : Node) : Prop :=
  ∀ l ∈ nameLexemes n.afterKeyword, ¬ l.isComment

instance : DecidablePred Node.HasPlainName :=
  fun n => inferInstanceAs (Decidable (∀ l ∈ nameLexemes n.afterKeyword, ¬ l.isComment))

theorem Node.afterKeyword_subset (n : Node) : n.afterKeyword ⊆ n.lexemes := by
  have hafter (word : String) (ls : List Lexeme) : after word ls ⊆ ls :=
    fun l hl => (List.dropWhile_sublist _).subset (List.mem_of_mem_drop hl)
  unfold afterKeyword
  split
  · rw [Node.lexemes_branch]
    exact hafter ..
  · rw [Node.lexemes_branch]
    exact hafter ..
  · exact List.nil_subset _

namespace Directive

variable {d : Directive} {n : Node}

theorem IsWritten.afterKeyword_eq (h : d.IsWritten n) :
    n.afterKeyword = after d.kind.keyword n.lexemes := by
  rw [h.node]
  cases d.kind <;> rfl

theorem IsWritten.spellings_afterKeyword (h : d.IsWritten n) :
    (n.afterKeyword.filter (! ·.isComment)).map Lexeme.spelling
      = d.kind.modifiers ++ (nameSpellings d.identifiers ++ d.kind.ending) := by
  rw [h.afterKeyword_eq]
  exact spellings_after h.spellings

theorem word_not_mem_ending (kind : DirectiveKind) : ∀ s ∈ kind.ending, s.1 ≠ .word := by
  unfold DirectiveKind.ending
  split <;> simp [markSpelling]

/-- The part after the keyword is read as the declared name if no comment stands in it. -/
theorem IsWritten.nameText_eq_iff (h : d.IsWritten n) (hls : ∀ l ∈ n.lexemes, l.IsSpelled)
    (hmodifiers : d.kind.modifiers = []) :
    nameText n.afterKeyword = d.name ↔ n.HasPlainName := by
  have hspellings := h.spellings_afterKeyword
  rw [hmodifiers, List.nil_append] at hspellings
  exact Java.nameText_eq_iff (fun l hl => hls l (n.afterKeyword_subset hl)) d.ne_nil
    (word_not_mem_ending d.kind) hspellings

theorem IsWritten.isStatic_iff (h : d.IsWritten n) :
    (n.afterKeyword.filter (! ·.isComment)).head?.any (·.isWord "static")
      ↔ d.kind.modifiers ≠ [] := by
  rw [head?_any_isWord_iff, h.spellings_afterKeyword]
  have hname : (nameSpellings d.identifiers ++ d.kind.ending).head?
      ≠ some (wordSpelling "static") := by
    have hne : nameSpellings d.identifiers ≠ [] := by
      intro hnil
      have hhead := head?_nameSpellings d.ne_nil
      rw [hnil, List.head?_eq_some_head d.ne_nil] at hhead
      cases hhead
    rw [List.head?_append_of_ne_nil _ hne, head?_nameSpellings d.ne_nil]
    intro hstatic
    obtain ⟨id, hid, hword⟩ := Option.map_eq_some_iff.1 hstatic
    obtain rfl := wordSpelling_injective hword
    exact d.not_static (List.mem_of_head? hid)
  unfold DirectiveKind.modifiers
  split
  · simp
  · simpa using hname

theorem IsWritten.onDemand_iff (h : d.IsWritten n) :
    (n.afterKeyword.filter (! ·.isComment)).any (·.isMark '*')
      ↔ ∃ isStatic, d.kind = .imports isStatic true := by
  rw [any_isMark_iff, h.spellings_afterKeyword]
  have hname : markSpelling '*' ∉ nameSpellings d.identifiers := by
    intro hmem
    rcases kind_of_mem_nameSpellings hmem with hword | hdot
    · cases hword
    · simp [markSpelling] at hdot
  simp only [List.mem_append, hname, false_or]
  cases d.kind with
  | package => simp [DirectiveKind.modifiers, DirectiveKind.ending, markSpelling]
  | imports isStatic onDemand =>
    cases isStatic <;> cases onDemand <;>
      simp [DirectiveKind.modifiers, DirectiveKind.ending, markSpelling, wordSpelling]

theorem IsWritten.package?_eq (h : d.IsWritten n) :
    n.package? = if d.kind = .package then some (nameText n.afterKeyword) else none := by
  rw [h.node]
  cases d.kind with
  | package =>
    rw [if_pos rfl]
    rfl
  | imports =>
    rw [if_neg nofun]
    rfl

theorem IsWritten.import?_eq (h : d.IsWritten n) :
    n.import? = match d.kind with
      | .imports false onDemand =>
        some (nameText n.afterKeyword ++ if onDemand then ".*" else "")
      | _ => none := by
  have hnode := h.node
  cases hkind : d.kind with
  | package =>
    rw [hnode, hkind]
    rfl
  | imports isStatic onDemand =>
    have hstatic := h.isStatic_iff
    have hdemand := h.onDemand_iff
    rw [hkind] at hnode hstatic hdemand
    rw [hnode] at hstatic hdemand ⊢
    change (if _ then none else some (_ ++ if _ then ".*" else "")) = _
    cases isStatic with
    | true => rw [if_pos (hstatic.2 (List.cons_ne_nil _ _))]
    | false =>
      rw [if_neg fun hmodifier => hstatic.1 hmodifier rfl]
      cases onDemand with
      | true =>
        rw [if_pos (hdemand.2 ⟨false, rfl⟩)]
        rfl
      | false =>
        have hmark : ¬ ∃ isStatic, DirectiveKind.imports false false = .imports isStatic true := by
          rintro ⟨_, h⟩
          cases h
        rw [if_neg (mt hdemand.1 hmark)]
        rfl

/-- The package is read as it is declared if no comment stands in its name. -/
theorem IsWritten.package?_eq_iff (h : d.IsWritten n) (hls : ∀ l ∈ n.lexemes, l.IsSpelled) :
    d.package? = n.package? ↔ (n.package?.isSome → n.HasPlainName) := by
  rw [h.package?_eq, package?]
  cases hkind : d.kind with
  | package =>
    have hmodifiers : d.kind.modifiers = [] := by rw [hkind]; rfl
    simp [← h.nameText_eq_iff hls hmodifiers, eq_comm]
  | imports => simp

/-- What is imported is read as it is declared if no comment stands in its name. -/
theorem IsWritten.import?_eq_iff (h : d.IsWritten n) (hls : ∀ l ∈ n.lexemes, l.IsSpelled) :
    d.import? = n.import? ↔ (n.import?.isSome → n.HasPlainName) := by
  rw [h.import?_eq, import?]
  cases hkind : d.kind with
  | package => simp
  | imports isStatic onDemand =>
    cases isStatic with
    | true => simp
    | false =>
      have hmodifiers : d.kind.modifiers = [] := by rw [hkind]; rfl
      simp [← h.nameText_eq_iff hls hmodifiers, eq_comm]

theorem IsWritten.isSome_package? (h : d.IsWritten n) : d.package?.isSome = n.package?.isSome := by
  rw [h.package?_eq, package?]
  cases d.kind <;> rfl

theorem IsWritten.isSome_import? (h : d.IsWritten n) : d.import?.isSome = n.import?.isSome := by
  rw [h.import?_eq, import?]
  rcases d.kind with _ | ⟨_ | _, _⟩ <;> rfl

end Directive

/-! ## Directives of a tree -/

/-- What `y` is read as is what `x` declares exactly if `y` is plain. -/
structure ReadsAs (f : α → Option γ) (g : β → Option γ) (plain : β → Prop) (x : α) (y : β) :
    Prop where
  isSome : (f x).isSome = (g y).isSome
  eq_iff : f x = g y ↔ ((g y).isSome → plain y)

section ReadsAs

variable {f : α → Option γ} {g : β → Option γ} {plain : β → Prop} {xs : List α} {ys : List β}

theorem filterMap_eq_iff (h : List.Forall₂ (ReadsAs f g plain) xs ys) :
    xs.filterMap f = ys.filterMap g ↔ ∀ y ∈ ys, (g y).isSome → plain y := by
  induction h with
  | nil => simp
  | @cons x y xs ys hxy _ ih =>
    have hsome := hxy.isSome
    have heq := hxy.eq_iff
    rw [List.forall_mem_cons, ← ih, ← heq, List.filterMap_cons, List.filterMap_cons]
    cases hf : f x with
    | none =>
      cases hg : g y with
      | none => simp
      | some b => simp [hf, hg] at hsome
    | some a =>
      cases hg : g y with
      | none => simp [hf, hg] at hsome
      | some b => simp

theorem findSome?_eq_iff (h : List.Forall₂ (ReadsAs f g plain) xs ys) :
    xs.findSome? f = ys.findSome? g ↔ ∀ y ∈ ys.find? (fun y => (g y).isSome), plain y := by
  induction h with
  | nil => simp
  | @cons x y xs ys hxy _ ih =>
    have hsome := hxy.isSome
    have heq := hxy.eq_iff
    rw [List.findSome?_cons, List.findSome?_cons, List.find?_cons]
    cases hf : f x with
    | none =>
      cases hg : g y with
      | none => simpa using ih
      | some b => simp [hf, hg] at hsome
    | some a =>
      cases hg : g y with
      | none => simp [hf, hg] at hsome
      | some b => simpa [hf, hg] using heq

end ReadsAs

namespace Node

def isDirective : Node → Bool
  | branch .packageDeclaration _ => true
  | branch .importDeclaration _  => true
  | _                            => false

/-- The declarations of packages and imports, in order. -/
def directives (root : Node) : List Node :=
  root.children.filter isDirective

/-- The tree is one of the source, cut into lexemes, and its directives are written as the given
ones. -/
structure Declares (root : Node) (source : String) (ds : List Directive) : Prop where
  tree : root.IsTreeOf source
  spelled : AreSpelled root.lexemes
  written : List.Forall₂ Directive.IsWritten ds root.directives

/-- The declaration of the package: the last one. -/
def packageNode? (root : Node) : Option Node :=
  root.directives.reverse.find? (·.package?.isSome)

/-- No comment stands between the tokens of the name of the package or of an import. -/
structure HasPlainNames (root : Node) : Prop where
  package : ∀ n ∈ root.packageNode?, n.HasPlainName
  imports : ∀ n ∈ root.directives, n.import?.isSome → n.HasPlainName

theorem filterMap_directives {f : Node → Option String} {root : Node}
    (h : ∀ n, (f n).isSome → n.isDirective) :
    root.directives.filterMap f = root.children.filterMap f := by
  rw [directives, List.filterMap_filter]
  refine List.filterMap_congr fun n _ => ?_
  split
  · rfl
  · rename_i hn
    cases hf : f n with
    | none => rfl
    | some name => exact absurd (h n (by rw [hf]; rfl)) hn

theorem isDirective_of_package? {n : Node} (h : n.package?.isSome) : n.isDirective := by
  unfold package? at h
  split at h
  · rfl
  · cases h

theorem isDirective_of_import? {n : Node} (h : n.import?.isSome) : n.isDirective := by
  unfold import? at h
  split at h
  · rfl
  · cases h

theorem lexemes_isInfix_of_mem_children {root n : Node} (h : n ∈ root.children) :
    n.lexemes <:+: root.lexemes := by
  cases root with
  | leaf l => cases h
  | branch role children =>
    obtain ⟨before, after, hchildren⟩ := List.append_of_mem h
    change children = _ at hchildren
    rw [hchildren]
    exact Contains.root.child.lexemes_isInfix

variable {root : Node} {source : String} {ds : List Directive}

theorem Declares.isSpelled (h : root.Declares source ds) :
    ∀ n ∈ root.directives, ∀ l ∈ n.lexemes, l.IsSpelled := by
  intro n hn l hl
  apply h.spelled.each
  exact (lexemes_isInfix_of_mem_children (List.mem_of_mem_filter hn)).subset hl

theorem Declares.written_spelled (h : root.Declares source ds) :
    List.Forall₂ (fun d n => d.IsWritten n ∧ ∀ l ∈ n.lexemes, l.IsSpelled) ds root.directives := by
  have hboth := (List.forall₂_and_left _ _).2 ⟨h.isSpelled, h.written.flip⟩
  exact hboth.flip.imp fun _ _ h => ⟨h.2, h.1⟩

end Node

def declaredPackage? (ds : List Directive) : Option String :=
  (ds.filterMap Directive.package?).getLast?

def declaredImports (ds : List Directive) : List String :=
  ds.filterMap Directive.import?

namespace Node.Declares

variable {root : Node} {source : String} {ds : List Directive}

/-- The last package is the one declared if there is no comment in its name. -/
theorem package?_eq_iff (h : root.Declares source ds) :
    Java.package? root = declaredPackage? ds ↔ ∀ n ∈ root.packageNode?, n.HasPlainName := by
  have hreads : List.Forall₂ (ReadsAs Directive.package? package? HasPlainName) ds
      root.directives :=
    h.written_spelled.imp fun _ _ h => ⟨h.1.isSome_package?, h.1.package?_eq_iff h.2⟩
  rw [Java.package?, ← filterMap_directives fun _ => isDirective_of_package?, declaredPackage?,
    List.getLast?_filterMap, List.getLast?_filterMap, eq_comm, packageNode?]
  exact findSome?_eq_iff (List.rel_reverse hreads)

/-- The imports are those declared if there is no comment in their names. -/
theorem imports_eq_iff (h : root.Declares source ds) :
    Java.imports root = declaredImports ds
      ↔ ∀ n ∈ root.directives, n.import?.isSome → n.HasPlainName := by
  have hreads : List.Forall₂ (ReadsAs Directive.import? import? HasPlainName) ds
      root.directives :=
    h.written_spelled.imp fun _ _ h => ⟨h.1.isSome_import?, h.1.import?_eq_iff h.2⟩
  rw [Java.imports, ← filterMap_directives fun _ => isDirective_of_import?, declaredImports,
    eq_comm]
  exact filterMap_eq_iff hreads

end Node.Declares

end Java

/-! ## Sources -/

/-- Whatever the layout of a source is, its package and its imports are the declared identifiers
joined by dots exactly if no comment stands inside their names. Sources that declare the same then
have the same package, the same imports and the same meaning of class names. -/
theorem SourceUnit.directives_read {source : String} {root : Java.Node}
    {ds : List Java.Directive} (h : root.Declares source ds) (path : Path) :
    ((ofTree path source root).package = Java.declaredPackage? ds
        ↔ ∀ n ∈ root.packageNode?, n.HasPlainName)
      ∧ ((ofTree path source root).imports = Java.declaredImports ds
        ↔ ∀ n ∈ root.directives, n.import?.isSome → n.HasPlainName)
      ∧ ∀ (path' : Path) (source' : String) (root' : Java.Node), root'.Declares source' ds →
        root.HasPlainNames → root'.HasPlainNames →
          (ofTree path source root).package = (ofTree path' source' root').package
            ∧ (ofTree path source root).imports = (ofTree path' source' root').imports
            ∧ ∀ b : Block,
              (ofTree path source root).context b = (ofTree path' source' root').context b := by
  refine ⟨h.package?_eq_iff, h.imports_eq_iff, fun path' source' root' h' hplain hplain' => ?_⟩
  have hpackage : (ofTree path source root).package = (ofTree path' source' root').package :=
    (h.package?_eq_iff.2 hplain.package).trans (h'.package?_eq_iff.2 hplain'.package).symm
  have himports : (ofTree path source root).imports = (ofTree path' source' root').imports :=
    (h.imports_eq_iff.2 hplain.imports).trans (h'.imports_eq_iff.2 hplain'.imports).symm
  refine ⟨hpackage, himports, fun b => ?_⟩
  rw [context, context, hpackage, himports]

/-! ## A comment within a name -/

namespace Java

/-- The package `a.b`, a type and a package on demand. -/
def exampleDirectives : List Directive :=
  [⟨.package, ["a", "b"], by simp, by simp⟩, ⟨.imports false false, ["x", "Y"], by simp, by simp⟩,
    ⟨.imports false true, ["z"], by simp, by simp⟩]

end Java

def laidOutSource : String :=
  "package a . b;import/**/x\n.Y;import z . *;"

def commentedSource : String :=
  "package a./**/b;import x./**/Y;import z.*;"

theorem parse_directives :
    List.Forall₂ Java.Directive.IsWritten Java.exampleDirectives
        (Java.parse laidOutSource).directives
      ∧ List.Forall₂ Java.Directive.IsWritten Java.exampleDirectives
        (Java.parse commentedSource).directives
      ∧ (∀ n ∈ (Java.parse laidOutSource).directives, n.HasPlainName)
      ∧ (Java.package? (Java.parse commentedSource)) = some "a./**/b"
      ∧ Java.imports (Java.parse commentedSource) = ["x./**/Y", "z.*"] := by
  decide +kernel

theorem declared_example :
    Java.declaredPackage? Java.exampleDirectives = some "a.b"
      ∧ Java.declaredImports Java.exampleDirectives = ["x.Y", "z.*"] :=
  ⟨rfl, rfl⟩

/-- The comments in the names become part of the package and of an import. -/
theorem SourceUnit.exists_package_and_imports_ne :
    (Java.parse commentedSource).Declares commentedSource Java.exampleDirectives
      ∧ (ofSource "A.java" commentedSource).package ≠ Java.declaredPackage? Java.exampleDirectives
      ∧ (ofSource "A.java" commentedSource).imports
        ≠ Java.declaredImports Java.exampleDirectives := by
  obtain ⟨-, hwritten, -, hpackage, himports⟩ := parse_directives
  refine ⟨⟨Java.isTreeOf_parse _, Java.areSpelled_parse _, hwritten⟩, ?_, ?_⟩
  · rw [declared_example.1]
    change Java.package? _ ≠ _
    rw [hpackage]
    decide
  · rw [declared_example.2]
    change Java.imports _ ≠ _
    rw [himports]
    decide

/-- White space and comments elsewhere make no difference. -/
theorem SourceUnit.directives_read_laid_out :
    (Java.parse laidOutSource).Declares laidOutSource Java.exampleDirectives
      ∧ (Java.parse laidOutSource).HasPlainNames
      ∧ (ofSource "A.java" laidOutSource).package = some "a.b"
      ∧ (ofSource "A.java" laidOutSource).imports = ["x.Y", "z.*"] := by
  obtain ⟨hwritten, -, hplain, -⟩ := parse_directives
  have hdeclares : (Java.parse laidOutSource).Declares laidOutSource Java.exampleDirectives :=
    ⟨Java.isTreeOf_parse _, Java.areSpelled_parse _, hwritten⟩
  have hpackage : ∀ n ∈ (Java.parse laidOutSource).packageNode?, n.HasPlainName :=
    fun n hn => hplain n (List.mem_reverse.1 (List.mem_of_find?_eq_some hn))
  obtain ⟨hpackage_iff, himports_iff, -⟩ := directives_read hdeclares "A.java"
  refine ⟨hdeclares, ⟨hpackage, fun n hn _ => hplain n hn⟩, ?_, ?_⟩
  · exact (hpackage_iff.2 hpackage).trans declared_example.1
  · exact (himports_iff.2 fun n hn _ => hplain n hn).trans declared_example.2

end Jsni
