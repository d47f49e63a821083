import Jsni.Proofs.Text.Place
import Jsni.Proofs.Validation.Place
import Jsni.Proofs.Validation.Result

/-!
# The order of results

The blocks of a source stand one after the other and so do the tokens in each, so references and
problems come in the order of the source. The places of problems keep this order.
-/

namespace Jsni

open Text

theorem filter_eq_singleton {p : α → Bool} {xs : List α} {x : α}
    (h : xs.Pairwise fun y z => ¬ (p y ∧ p z)) (hx : x ∈ xs) (hp : p x) : xs.filter p = [x] := by
  induction xs with
  | nil => cases hx
  | cons y ys ih =>
    obtain ⟨hy, hys⟩ := List.pairwise_cons.1 h
    rcases List.mem_cons.1 hx with rfl | hx
    · have hrest : ys.filter p = [] := List.filter_eq_nil_iff.2 fun z hz hpz => hy z hz ⟨hp, hpz⟩
      rw [List.filter_cons_of_pos hp, hrest]
    · have hnot : ¬ p y := fun hpy => hy x hx ⟨hpy, hp⟩
      rw [List.filter_cons_of_neg hnot, ih hys hx]

/-! ## Blocks -/

namespace Block

/-- The range lies in the body of the block. -/
def Holds (b : Block) (offset length : Nat) : Prop :=
  b.bodyOffset ≤ offset ∧ offset + length ≤ b.bodyOffset + b.body.utf8ByteSize

instance (b : Block) (offset length : Nat) : Decidable (b.Holds offset length) :=
  inferInstanceAs (Decidable (_ ∧ _))

theorem holds_of_mem_scan {b : Block} {t : Token}
    (ht : t ∈ scan b.body b.bodyOffset b.owner) : b.Holds t.offset t.length := by
  obtain ⟨hle, hslice⟩ := slice_of_mem_scan ht
  have hend := add_le_of_slice? hslice
  exact ⟨hle, by omega⟩

theorem mem_scan_of_mem_tokens {b : Block} {t : Token} (ht : t ∈ b.tokens) :
    t ∈ scan b.body b.bodyOffset b.owner := by
  unfold tokens at ht
  split at ht
  · exact ht
  · cases ht

theorem pairwise_tokens (b : Block) :
    b.tokens.Pairwise fun t u => t.offset < u.offset ∧ t.offset + t.length ≤ u.offset := by
  unfold tokens
  split
  · exact (isScan_scan b.body b.bodyOffset b.owner).ordered
  · exact .nil

theorem pairwise_references (b : Block) :
    b.references.Pairwise fun r t => r.offset < t.offset ∧ r.offset + r.length ≤ t.offset := by
  refine b.pairwise_tokens.filterMap _ ?_
  rintro (r | m) (t | m') hle _ ⟨⟩ _ ⟨⟩
  exact hle

theorem range_of_mem_references {b : Block} {r : Reference} (hr : r ∈ b.references) :
    b.Holds r.offset r.length ∧ 0 < r.length := by
  have ht := mem_scan_of_mem_tokens (mem_references_iff.1 hr)
  exact ⟨holds_of_mem_scan ht, length_pos_of_mem_scan ht⟩

end Block

/-! ## Problems of a block -/

namespace Severities

theorem range_of_tokenProblem? {s : Severities} {outcome : Reference → Outcome} {t : Token}
    {p : Problem} (hp : s.tokenProblem? outcome t = some p) :
    p.offset = t.offset ∧ p.length = t.length := by
  cases t with
  | malformed m =>
    cases hp
    exact ⟨rfl, rfl⟩
  | reference r =>
    simp only [tokenProblem?, outcomeProblem?] at hp
    split at hp <;> cases hp <;> exact ⟨rfl, rfl⟩

/-- The problems of a block, first of the block as such and then of its tokens. -/
def problemsOf (s : Severities) (outcome : Reference → Outcome) (b : Block) : List Problem :=
  s.blockProblems b ++ b.tokens.filterMap (s.tokenProblem? outcome)

end Severities

/-- Blocks that stand one after the other, each around its body. -/
structure AreOrdered (bs : List Block) : Prop where
  pairwise : bs.Pairwise fun b c => b.offset + b.length ≤ c.offset
  body : ∀ b ∈ bs, b.offset ≤ b.bodyOffset
    ∧ b.bodyOffset + b.body.utf8ByteSize ≤ b.offset + b.length

theorem SourceUnit.IsParsed.areOrdered_blocks {u : SourceUnit} (hu : u.IsParsed) :
    AreOrdered u.blocks where
  pairwise := hu.pairwise_blocks
  body b hb := by
    obtain ⟨l, hcomment, -⟩ := hu.exists_lexeme hb
    exact hcomment.body_range

namespace AreOrdered

variable {bs : List Block}

theorem span_of_holds (h : AreOrdered bs) {b : Block} (hb : b ∈ bs) {offset length : Nat}
    (hrange : b.Holds offset length) :
    b.offset ≤ offset ∧ offset + length ≤ b.offset + b.length := by
  obtain ⟨hbegin, hend⟩ := h.body b hb
  exact ⟨Nat.le_trans hbegin hrange.1, Nat.le_trans hrange.2 hend⟩

/-- No two blocks hold the same range, unless it is empty. -/
theorem filter_holds (h : AreOrdered bs) {b : Block} (hb : b ∈ bs) {offset length : Nat}
    (hpos : 0 < length) (hrange : b.Holds offset length) :
    bs.filter (·.Holds offset length) = [b] := by
  refine filter_eq_singleton (h.pairwise.imp_of_mem ?_) hb (decide_eq_true hrange)
  rintro c d hc hd hle ⟨hholds, hholds'⟩
  have hcspan := h.span_of_holds hc (of_decide_eq_true hholds)
  have hdspan := h.span_of_holds hd (of_decide_eq_true hholds')
  omega

theorem pairwise_references (h : AreOrdered bs) :
    (bs.flatMap Block.references).Pairwise fun r t =>
      r.offset < t.offset ∧ r.offset + r.length ≤ t.offset := by
  refine List.pairwise_flatMap.2 ⟨fun b _ => b.pairwise_references, h.pairwise.imp_of_mem ?_⟩
  intro b c hb hc hle r hr t ht
  obtain ⟨hrange, hpos⟩ := Block.range_of_mem_references hr
  have hspan := h.span_of_holds hb hrange
  have hspan' := h.span_of_holds hc (Block.range_of_mem_references ht).1
  omega

theorem span_of_mem_problemsOf (h : AreOrdered bs) {b : Block} (hb : b ∈ bs) {s : Severities}
    {outcome : Reference → Outcome} {p : Problem} (hp : p ∈ s.problemsOf outcome b) :
    b.offset ≤ p.offset ∧ p.offset + p.length ≤ b.offset + b.length := by
  rcases List.mem_append.1 hp with hblock | htoken
  · obtain ⟨_, rfl⟩ := Severities.exists_of_mem_blockProblems hblock
    exact ⟨Nat.le_refl _, Nat.le_refl _⟩
  · obtain ⟨t, ht, hproblem⟩ := List.mem_filterMap.1 htoken
    obtain ⟨hoffset, hlength⟩ := Severities.range_of_tokenProblem? hproblem
    rw [hoffset, hlength]
    exact h.span_of_holds hb (Block.holds_of_mem_scan (Block.mem_scan_of_mem_tokens ht))

/-- What is wrong with a block as such is reported at its beginning, before all in its body. -/
theorem pairwise_problemsOf (h : AreOrdered bs) {b : Block} (hb : b ∈ bs) (s : Severities)
    (outcome : Reference → Outcome) :
    (s.problemsOf outcome b).Pairwise fun p q => p.offset ≤ q.offset := by
  have hblock (p : Problem) (hp : p ∈ s.blockProblems b) : p.offset = b.offset := by
    obtain ⟨_, rfl⟩ := Severities.exists_of_mem_blockProblems hp
    rfl
  refine List.pairwise_append.2 ⟨?_, ?_, fun p hp q hq => ?_⟩
  · refine List.pairwise_of_forall_mem_list fun p hp q hq => ?_
    exact Nat.le_of_eq ((hblock p hp).trans (hblock q hq).symm)
  · refine b.pairwise_tokens.filterMap _ fun t u hle p hp q hq => ?_
    rw [(Severities.range_of_tokenProblem? hp).1, (Severities.range_of_tokenProblem? hq).1]
    exact Nat.le_of_lt hle.1
  · rw [hblock p hp]
    exact (h.span_of_mem_problemsOf hb (List.mem_append_right _ hq)).1

theorem pairwise_problems (h : AreOrdered bs) (s : Severities)
    (outcome : Block → Reference → Outcome) :
    (s.problems outcome bs).Pairwise fun p q => p.offset ≤ q.offset := by
  refine List.pairwise_flatMap.2
    ⟨fun b hb => h.pairwise_problemsOf hb s (outcome b), h.pairwise.imp_of_mem ?_⟩
  intro b c hb hc hle p hp q hq
  have hspan := h.span_of_mem_problemsOf hb hp
  have hspan' := h.span_of_mem_problemsOf hc hq
  omega

end AreOrdered

/-! ## Results -/

namespace TypeIndex

variable {idx : TypeIndex} {s : Severities} {u : SourceUnit} {result : ValidationResult}

theorem pairwise_references_of_validate (hu : u.IsParsed) (h : idx.validate s u = .ok result) :
    result.references.Pairwise fun r t =>
      r.offset < t.offset ∧ r.offset + r.length ≤ t.offset := by
  obtain ⟨outcome, -, rfl⟩ := validate_eq_ok_iff_resolves.1 h
  exact hu.areOrdered_blocks.pairwise_references

theorem filter_holds_of_validate (hu : u.IsParsed) (h : idx.validate s u = .ok result)
    {r : Reference} (hr : r ∈ result.references) :
    ∃ b, u.blocks.filter (·.Holds r.offset r.length) = [b] ∧ b.terminated := by
  obtain ⟨b, hb, hterminated, hscan⟩ := exists_block_of_mem_references h hr
  exact ⟨b, hu.areOrdered_blocks.filter_holds hb (length_pos_of_mem_scan hscan)
    (Block.holds_of_mem_scan hscan), hterminated⟩

theorem pairwise_problems_of_validate (hu : u.IsParsed) (h : idx.validate s u = .ok result) :
    result.problems.Pairwise fun p q => p.offset ≤ q.offset := by
  obtain ⟨outcome, -, rfl⟩ := validate_eq_ok_iff_resolves.1 h
  exact (hu.areOrdered_blocks.pairwise_problems s outcome).filter _

theorem pairwise_problems_validateOrSkip (idx : TypeIndex) (s : Severities) (hu : u.IsParsed) :
    (idx.validateOrSkip s u).problems.Pairwise fun p q => p.offset ≤ q.offset := by
  unfold validateOrSkip
  split
  · rename_i h
    exact pairwise_problems_of_validate hu h
  · exact .nil

end TypeIndex

/-! ## Reports -/

namespace Report

/-- The markers of a file and the rows that show them follow the order of places. -/
structure InOrder (path : Path) (markers : List FileMarker) : Prop where
  places : markers.Pairwise fun m n => m.place ≤ n.place
  /-- Each row begins with the path and one of the places, which are in order. -/
  rows : ∃ places : List LineColumn, places.Pairwise (· ≤ ·)
    ∧ (markers.map FileMarker.cells).map List.head? = places.map fun p =>
        some (path.display ++ ":" ++ toString p.line ++ ":" ++ toString p.column)

theorem inOrder_of_unitMarkers {u : SourceUnit} {result : ValidationResult}
    (hproblems : result.problems.Pairwise fun p q => p.offset ≤ q.offset)
    {markers : List FileMarker} (h : unitMarkers u result = some markers) :
    InOrder u.path markers := by
  have heach := mapM_eq_some_iff.1 h
  have hplaces : markers.Pairwise fun m n => m.place ≤ n.place := by
    have hmarkers : result.markers.Pairwise fun x y => x.offset ≤ y.offset :=
      List.pairwise_map.2 hproblems
    refine pairwise_of_forall₂ heach (fun x y m n hm hn hle => ?_) hmarkers
    obtain ⟨p, hp, rfl⟩ := Option.map_eq_some_iff.1 hm
    obtain ⟨q, hq, rfl⟩ := Option.map_eq_some_iff.1 hn
    exact lineColumn_mono hp hq hle
  refine ⟨hplaces, markers.map FileMarker.place, List.pairwise_map.2 hplaces, ?_⟩
  rw [List.map_map, List.map_map]
  refine List.map_congr_left fun m hm => ?_
  obtain ⟨x, -, hx⟩ := exists_of_mem_forall₂ heach hm
  obtain ⟨p, -, rfl⟩ := Option.map_eq_some_iff.1 hx
  rfl

/-- The markers of a report are those of its files, one file after the other. -/
theorem exists_markers_checkUnits (idx : TypeIndex) (s : Severities) {units : List SourceUnit}
    (hunits : ∀ u ∈ units, u.IsParsed) :
    ∃ mss, (checkUnits idx s units).markers = some mss.flatten
      ∧ List.Forall₂ (fun u ms =>
          unitMarkers u (idx.validateOrSkip s u) = some ms ∧ InOrder u.path ms) units mss := by
  obtain ⟨all, hall⟩ := Option.isSome_iff_exists.1 (markers_checkUnits_isSome idx s hunits)
  obtain ⟨mss, hmss, rfl⟩ := Option.map_eq_some_iff.1 hall
  rw [checkUnits_entries, mapM_eq_some_iff, List.forall₂_map_left_iff] at hmss
  have hparsed := (List.forall₂_and_left _ _).2 ⟨hunits, hmss⟩
  refine ⟨mss, hall, hparsed.imp fun u ms ⟨hu, hms⟩ => ⟨hms, ?_⟩⟩
  exact inOrder_of_unitMarkers (idx.pairwise_problems_validateOrSkip s hu) hms

end Report

namespace TypeIndex

/-- Whatever the tree of a source is, references stand one after the other, each in the body of one
terminated block. Problems come in order, and so do the markers of each file in a report and the
rows of its table. -/
theorem ordered_of_validate {idx : TypeIndex} {s : Severities} {path : Path} {source : String}
    {root : Java.Node} {result : ValidationResult} (htree : root.IsTreeOf source)
    (h : idx.validate s (.ofTree path source root) = .ok result) :
    result.references.Pairwise (fun r t => r.offset < t.offset ∧ r.offset + r.length ≤ t.offset)
      ∧ (∀ r ∈ result.references, ∃ b,
          (SourceUnit.ofTree path source root).blocks.filter (·.Holds r.offset r.length) = [b]
            ∧ b.terminated)
      ∧ result.problems.Pairwise (fun p q => p.offset ≤ q.offset)
      ∧ (∃ ms, Report.unitMarkers (.ofTree path source root) result = some ms
          ∧ Report.InOrder path ms)
      ∧ ∀ units : List SourceUnit, (∀ u ∈ units, u.IsParsed) → ∃ mss,
          (checkUnits idx s units).markers = some mss.flatten
            ∧ List.Forall₂ (fun u ms => Report.unitMarkers u (idx.validateOrSkip s u) = some ms
                ∧ Report.InOrder u.path ms) units mss := by
  have hparsed : (SourceUnit.ofTree path source root).IsParsed := SourceUnit.isParsed_ofTree htree
  have hproblems := pairwise_problems_of_validate hparsed h
  obtain ⟨ms, hms⟩ := Option.isSome_iff_exists.1 (Report.unitMarkers_isSome hparsed h)
  exact ⟨pairwise_references_of_validate hparsed h,
    fun r hr => filter_holds_of_validate hparsed h hr, hproblems,
    ⟨ms, hms, Report.inOrder_of_unitMarkers hproblems hms⟩,
    fun units => Report.exists_markers_checkUnits idx s⟩

theorem ordered_of_validate_mixed :
    (Java.parse mixedSource).IsTreeOf mixedSource
      ∧ emptyClass.toIndex.validate .default (.ofSource "A.java" mixedSource)
        = .ok (mixedResult .default)
      ∧ (∃ b, (SourceUnit.ofSource "A.java" mixedSource).blocks.filter (·.Holds 37 10) = [b]
        ∧ b.terminated)
      ∧ (mixedResult .default).problems.map Problem.offset = [37, 60, 60]
      ∧ (mixedResult .default).problems.Pairwise (fun p q => p.offset ≤ q.offset)
      ∧ ∃ ms, Report.unitMarkers (.ofSource "A.java" mixedSource) (mixedResult .default) = some ms
        ∧ ms.map FileMarker.place = [⟨1, 38⟩, ⟨1, 61⟩, ⟨1, 61⟩]
        ∧ Report.InOrder "A.java" ms := by
  have htree := Java.isTreeOf_parse mixedSource
  obtain ⟨-, hholds, hproblems, ⟨ms, hms, horder⟩, -⟩ :=
    ordered_of_validate htree (validate_mixed .default)
  have hplaces : (Report.unitMarkers (.ofSource "A.java" mixedSource) (mixedResult .default)).map
      (·.map FileMarker.place) = some [⟨1, 38⟩, ⟨1, 61⟩, ⟨1, 61⟩] :=
    rfl
  rw [SourceUnit.ofSource, hms] at hplaces
  exact ⟨htree, validate_mixed .default, hholds callReference (List.mem_cons_self ..), rfl,
    hproblems, ms, hms, Option.some.inj hplaces, horder⟩

end TypeIndex

end Jsni
