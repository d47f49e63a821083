import Jsni.Proofs.Java.Block
import Jsni.Proofs.Reference.Scan
import Jsni.Proofs.Validation.Finding
import Jsni.Report

/-!
# Where results stand

The references of a result are written where they say, and problems are about whole blocks or about
what was read within one. So each has a line and a column.
-/

namespace Jsni

open Text

/-! ## Ranges -/

namespace SourceUnit

/-- The range is that of a block, or of a token in a terminated one. -/
def IsRange (u : SourceUnit) (offset length : Nat) : Prop :=
  ∃ b ∈ u.blocks, (offset = b.offset ∧ length = b.length)
    ∨ b.terminated ∧ ∃ t ∈ scan b.body b.bodyOffset b.owner,
        offset = t.offset ∧ length = t.length

theorem IsParsed.slice?_of_mem_scan {u : SourceUnit} (hu : u.IsParsed) {b : Block}
    (hb : b ∈ u.blocks) {t : Token} (ht : t ∈ scan b.body b.bodyOffset b.owner) :
    slice? u.source t.offset t.length = some t.text := by
  obtain ⟨hle, hslice⟩ := slice_of_mem_scan ht
  have hsource := slice?_trans (hu.slice?_body hb) hslice
  rwa [Nat.add_sub_cancel' hle] at hsource

theorem IsParsed.exists_slice {u : SourceUnit} (hu : u.IsParsed) {offset length : Nat}
    (h : u.IsRange offset length) : ∃ text, slice? u.source offset length = some text := by
  obtain ⟨b, hb, ⟨rfl, rfl⟩ | ⟨-, t, ht, rfl, rfl⟩⟩ := h
  · exact Option.isSome_iff_exists.1 (hu.slice?_isSome hb)
  · exact ⟨t.text, hu.slice?_of_mem_scan hb ht⟩

end SourceUnit

theorem Finding.IsOf.isRange {u : SourceUnit} {b : Block} (hb : b ∈ u.blocks) {f : Finding}
    (hf : f.IsOf b) : u.IsRange f.span.1 f.span.2 := by
  cases hf with
  | notNative => exact ⟨b, hb, .inl ⟨rfl, rfl⟩⟩
  | unterminated => exact ⟨b, hb, .inl ⟨rfl, rfl⟩⟩
  | malformed hterminated hm => exact ⟨b, hb, .inr ⟨hterminated, _, hm, rfl, rfl⟩⟩
  | resolved hterminated hr => exact ⟨b, hb, .inr ⟨hterminated, _, hr, rfl, rfl⟩⟩

namespace TypeIndex

variable {idx : TypeIndex} {s : Severities}

theorem isRange_of_mem_problems {u : SourceUnit} {result : ValidationResult}
    (h : idx.validate s u = .ok result) {p : Problem} (hp : p ∈ result.problems) :
    u.IsRange p.offset p.length := by
  obtain ⟨fs, hfs, rfl⟩ := validate_eq_ok_iff.1 h
  rw [ValidationResult.ofFindings_problems] at hp
  obtain ⟨f, hf, hproblem⟩ := List.mem_filterMap.1 hp
  obtain ⟨b, hb, hof⟩ := exists_block_of_mem_findUnit hfs hf
  have hrange := hof.isRange hb
  rwa [Finding.span_of_problem? hproblem] at hrange

theorem exists_block_of_mem_references {u : SourceUnit} {result : ValidationResult}
    (h : idx.validate s u = .ok result) {r : Reference} (hr : r ∈ result.references) :
    ∃ b ∈ u.blocks, b.terminated ∧ .reference r ∈ scan b.body b.bodyOffset b.owner := by
  obtain ⟨fs, hfs, rfl⟩ := validate_eq_ok_iff.1 h
  rw [ValidationResult.ofFindings_references] at hr
  obtain ⟨f, hf, href⟩ := List.mem_filterMap.1 hr
  obtain ⟨b, hb, hof⟩ := exists_block_of_mem_findUnit hfs hf
  cases hof with
  | notNative => cases href
  | unterminated => cases href
  | malformed => cases href
  | resolved hterminated hscan =>
    cases href
    exact ⟨b, hb, hterminated, hscan⟩

end TypeIndex

/-! ## Markers -/

theorem mapM_isSome {f : α → Option β} {xs : List α} (h : ∀ x ∈ xs, (f x).isSome) :
    (xs.mapM f).isSome := by
  induction xs with
  | nil => rfl
  | cons x xs ih =>
    obtain ⟨hx, hxs⟩ := List.forall_mem_cons.1 h
    obtain ⟨y, hy⟩ := Option.isSome_iff_exists.1 hx
    obtain ⟨ys, hys⟩ := Option.isSome_iff_exists.1 (ih hxs)
    rw [List.mapM_cons, hy, hys]
    rfl

namespace Report

theorem unitMarkers_isSome {idx : TypeIndex} {s : Severities} {u : SourceUnit}
    {result : ValidationResult} (hu : u.IsParsed) (h : idx.validate s u = .ok result) :
    (unitMarkers u result).isSome := by
  refine mapM_isSome fun marker hmarker => ?_
  obtain ⟨p, hp, rfl⟩ := List.mem_map.1 hmarker
  obtain ⟨text, hslice⟩ := hu.exists_slice (TypeIndex.isRange_of_mem_problems h hp)
  rw [Option.isSome_map]
  exact lineColumn_isSome_of_slice? hslice

theorem checkUnits_entries (idx : TypeIndex) (s : Severities) (units : List SourceUnit) :
    (checkUnits idx s units).entries = units.map fun u => (u, idx.validateOrSkip s u) :=
  List.map_prod_left_eq_zip.symm

theorem markers_checkUnits_isSome (idx : TypeIndex) (s : Severities) {units : List SourceUnit}
    (hunits : ∀ u ∈ units, u.IsParsed) : (checkUnits idx s units).markers.isSome := by
  rw [markers, Option.isSome_map, checkUnits_entries]
  refine mapM_isSome fun entry hentry => ?_
  obtain ⟨u, hu, rfl⟩ := List.mem_map.1 hentry
  change (unitMarkers u (idx.validateOrSkip s u)).isSome
  rw [TypeIndex.validateOrSkip]
  -- A unit that the index fails for has no problems.
  cases h : idx.validate s u with
  | ok result => exact unitMarkers_isSome (hunits u hu) h
  | error e => rfl

end Report

/-! ## Results -/

namespace TypeIndex

/-- Whatever the tree of a source is, references are written where they stand, problems are about a
block or a token of one, and all of them can be shown with line and column. -/
theorem slices_of_validate {idx : TypeIndex} {s : Severities} {path : Path} {source : String}
    {root : Java.Node} {result : ValidationResult} (htree : root.IsTreeOf source)
    (h : idx.validate s (.ofTree path source root) = .ok result) :
    (∀ r ∈ result.references, slice? source r.offset r.length = some r.text)
      ∧ (∀ p ∈ result.problems,
          p.offset + p.length ≤ source.utf8ByteSize
            ∧ (slice? source p.offset p.length).isSome
            ∧ (SourceUnit.ofTree path source root).IsRange p.offset p.length)
      ∧ ∀ units : List SourceUnit, (∀ u ∈ units, u.IsParsed) →
          (checkUnits idx s units).markers.isSome := by
  have hparsed : (SourceUnit.ofTree path source root).IsParsed := SourceUnit.isParsed_ofTree htree
  refine ⟨fun r hr => ?_, fun p hp => ?_, fun units => Report.markers_checkUnits_isSome idx s⟩
  · obtain ⟨b, hb, -, hscan⟩ := exists_block_of_mem_references h hr
    exact hparsed.slice?_of_mem_scan hb hscan
  · have hrange := isRange_of_mem_problems h hp
    obtain ⟨text, hslice⟩ : ∃ text, slice? source p.offset p.length = some text :=
      hparsed.exists_slice hrange
    exact ⟨add_le_of_slice? hslice, by rw [hslice]; rfl, hrange⟩

/-- A source with a character of two bytes before its reference. -/
def accentedSource : String :=
  "class A{native void m()/*-{é@a.B}-*/;}"

def accentedBlock : Block :=
  ⟨"A", "m", true, ["A"], 23, 14, "é@a.B", 27, true⟩

def accentedReference : Reference :=
  ⟨29, 4, "a.B", "", .classOnly, "", "A#m"⟩

def accentedResult : ValidationResult where
  path := "A.java"
  references := [accentedReference]
  problems := [⟨.unresolvedType, .error, 29, 4, ["a.B"], []⟩]

theorem ofSource_accented :
    SourceUnit.ofSource "A.java" accentedSource
      = { path := "A.java", source := accentedSource, blocks := [accentedBlock] } := by
  decide +kernel

theorem scan_accented :
    scan accentedBlock.body accentedBlock.bodyOffset accentedBlock.owner
      = [.reference accentedReference] := by
  have howner : accentedBlock.owner = "A#m" := by decide +kernel
  have hname : IsQualifiedName (['a'] ++ '.' :: ['B']) :=
    .dotted (by decide) (.identifier (by decide))
  have hfits : (Reading.classOnly ['a', '.', 'B']).Fits [] :=
    .classOnly hname (by simp [ContinuesName, ContinuesIdentifier]) (by decide)
  have hat : '@' ∉ ['é'] := by decide
  have hskip := scanChars_append_of_not_mem "A#m" 27 hat ['@', 'a', '.', 'B']
  have hread := scanChars_at_of_fits "A#m" 29 hfits
  rw [howner]
  refine (hskip.trans hread).trans ?_
  rw [scanChars]
  rfl

theorem validate_accented :
    StaticIndex.empty.toIndex.validate .default (.ofSource "A.java" accentedSource)
      = .ok accentedResult := by
  have hresolve : StaticIndex.empty.toIndex.resolve (.ofImports none [] ["A"]) accentedReference
      = .ok .unresolvedType := by decide +kernel
  have hfind : StaticIndex.empty.toIndex.findToken (.ofImports none [] ["A"])
      (.reference accentedReference) = .ok (.resolved accentedReference .unresolvedType) := by
    rw [findToken, hresolve]
    rfl
  have hblock : StaticIndex.empty.toIndex.findBlock (.ofImports none [] ["A"]) accentedBlock
      = .ok [.resolved accentedReference .unresolvedType] := by
    have hterminated : accentedBlock.terminated := rfl
    refine findBlock_eq_ok_iff.2 ⟨[.resolved accentedReference .unresolvedType], ?_, rfl⟩
    rw [if_pos hterminated, scan_accented]
    exact .cons hfind .nil
  rw [ofSource_accented]
  exact validate_eq_ok_iff.2 ⟨_, findUnit_eq_ok_iff.2 ⟨_, .cons hblock .nil, rfl⟩, rfl⟩

theorem slices_of_validate_accented :
    (Java.parse accentedSource).IsTreeOf accentedSource
      ∧ StaticIndex.empty.toIndex.validate .default (.ofSource "A.java" accentedSource)
        = .ok accentedResult
      ∧ slice? accentedSource 29 4 = some accentedReference.text
      ∧ (SourceUnit.ofSource "A.java" accentedSource).IsRange 29 4 := by
  have htree := Java.isTreeOf_parse accentedSource
  obtain ⟨hreferences, hproblems, -⟩ := slices_of_validate htree validate_accented
  exact ⟨htree, validate_accented, hreferences accentedReference (List.mem_cons_self ..),
    (hproblems _ (List.mem_cons_self ..)).2.2⟩

end TypeIndex

end Jsni
