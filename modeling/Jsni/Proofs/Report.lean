import Jsni.Program
import Jsni.Proofs.CommandLine
import Jsni.Proofs.Json.Reader
import Jsni.Proofs.Validation.Change
import Jsni.Proofs.Validation.Failure
import Jsni.Proofs.Validation.Place

/-!
# Checking files

A check fails as the first of its inputs that cannot be used, in the order they are read. Else no
unit is skipped, for validation never fails with an index from a file. Every problem is shown at its
place in its own file, and the exit code tells whether there are errors. JSON can also fail to be
written: it cannot name a file whose path is not a text.
-/

namespace Jsni

/-! ## Inputs -/

/-- A file that a check reads, with what it is read for. -/
inductive CheckInput where
  | index (path : Path)
  | severities (path : Path)
  | source (path : Path)

namespace CheckInput

def path : CheckInput → Path
  | index path      => path
  | severities path => path
  | source path     => path

/-- The input cannot be read, or what is read cannot be loaded. Sources need no loading. -/
inductive FailsWith (read : FileReader) : CheckInput → CheckError → Prop where
  | unreadable {i : CheckInput} {e : FileError} :
    read i.path = .error e → FailsWith read i (.file e)
  | index {path : Path} {text : String} {e : Json.ReadError} :
    read path = .ok text → StaticIndex.ofJson text = .error e →
      FailsWith read (.index path) (.json e)
  | severities {path : Path} {text : String} {e : SeverityFileError} :
    read path = .ok text → Severities.ofJson text = .error e →
      FailsWith read (.severities path) (.ofSeverityFile e)

end CheckInput

variable {parse : Java.Parser} {read : FileReader} {path : Path}

namespace CheckInput

theorem readIndex_eq_error_iff {e : CheckError} :
    readIndex read path = .error e ↔ (index path).FailsWith read e := by
  simp only [readIndex, bind_eq_error_iff, mapError_eq_error_iff, mapError_eq_ok_iff]
  constructor
  · rintro (⟨e, hread, rfl⟩ | ⟨text, hread, e, hload, rfl⟩)
    · exact .unreadable hread
    · exact .index hread hload
  · intro h
    cases h with
    | unreadable hread => exact .inl ⟨_, hread, rfl⟩
    | index hread hload => exact .inr ⟨_, hread, _, hload, rfl⟩

theorem readSeverities_eq_error_iff {e : CheckError} :
    readSeverities read (some path) = .error e ↔ (severities path).FailsWith read e := by
  simp only [readSeverities, bind_eq_error_iff, mapError_eq_error_iff, mapError_eq_ok_iff]
  constructor
  · rintro (⟨e, hread, rfl⟩ | ⟨text, hread, e, hload, rfl⟩)
    · exact .unreadable hread
    · exact .severities hread hload
  · intro h
    cases h with
    | unreadable hread => exact .inl ⟨_, hread, rfl⟩
    | severities hread hload => exact .inr ⟨_, hread, _, hload, rfl⟩

theorem readUnit_eq_error_iff {e : CheckError} :
    readUnit parse read path = .error e ↔ (source path).FailsWith read e := by
  simp only [readUnit, bind_eq_error_iff, mapError_eq_error_iff]
  constructor
  · rintro (⟨e, hread, rfl⟩ | ⟨text, -, h⟩)
    · exact .unreadable hread
    · cases h
  · intro h
    cases h with
    | unreadable hread => exact .inl ⟨_, hread, rfl⟩

/-- The error of an input that is used alone. -/
def failure? (parse : Java.Parser) (read : FileReader) : CheckInput → Option CheckError
  | index path      => Jsni.failure? (readIndex read path)
  | severities path => Jsni.failure? (readSeverities read (some path))
  | source path     => Jsni.failure? (readUnit parse read path)

theorem failure?_eq_some_iff {i : CheckInput} {e : CheckError} :
    i.failure? parse read = some e ↔ i.FailsWith read e := by
  cases i with
  | index path => exact Jsni.failure?_eq_some_iff.trans readIndex_eq_error_iff
  | severities path => exact Jsni.failure?_eq_some_iff.trans readSeverities_eq_error_iff
  | source path => exact Jsni.failure?_eq_some_iff.trans readUnit_eq_error_iff

theorem failure?_eq_none_iff {i : CheckInput} :
    i.failure? parse read = none ↔ ∀ e, ¬ i.FailsWith read e := by
  rw [Option.eq_none_iff_forall_ne_some]
  exact forall_congr' fun e => not_congr failure?_eq_some_iff

end CheckInput

/-! ## Results -/

/-- The files are parsed cleanly: what each of them holds is the text of its tree. -/
def Java.Parser.Parses (parse : Java.Parser) (read : FileReader) (files : List Path) : Prop :=
  ∀ path ∈ files, ∀ source, read path = .ok source → (parse source).IsTreeOf source

/-- The report pairs every file with the whole result of validating what it holds. -/
def Report.Covers (r : Report) (parse : Java.Parser) (read : FileReader) (idx : StaticIndex)
    (s : Severities) (files : List Path) : Prop :=
  List.Forall₂ (fun path entry => ∃ source, read path = .ok source
    ∧ entry.1 = SourceUnit.ofTree path source (parse source)
    ∧ idx.toIndex.validate s entry.1 = .ok entry.2) files r.entries

namespace Report

/-- The problems in the order of the files, and of each file in the order found. -/
def placedProblems (r : Report) : List (SourceUnit × Problem) :=
  r.entries.flatMap fun (u, result) => result.problems.map (u, ·)

section Covers

variable {r : Report} {idx : StaticIndex} {s : Severities} {files : List Path}

theorem Covers.isParsed (h : r.Covers parse read idx s files) (hparses : parse.Parses read files)
    {u : SourceUnit} {result : ValidationResult} (hentry : (u, result) ∈ r.entries) :
    u.IsParsed ∧ idx.toIndex.validate s u = .ok result := by
  obtain ⟨path, hpath, source, hsource, hu, hresult⟩ := exists_of_mem_forall₂ h hentry
  obtain rfl : u = _ := hu
  exact ⟨SourceUnit.isParsed_ofTree (hparses path hpath source hsource), hresult⟩

/-- Every problem is about a piece of its own source. -/
theorem Covers.slice?_isSome (h : r.Covers parse read idx s files)
    (hparses : parse.Parses read files) {x : SourceUnit × Problem} (hx : x ∈ r.placedProblems) :
    (Text.slice? x.1.source x.2.offset x.2.length).isSome := by
  obtain ⟨⟨u, result⟩, hentry, hx⟩ := List.mem_flatMap.1 hx
  obtain ⟨p, hp, rfl⟩ := List.mem_map.1 hx
  obtain ⟨hparsed, hresult⟩ := h.isParsed hparses hentry
  exact Option.isSome_iff_exists.2
    (hparsed.exists_slice (TypeIndex.isRange_of_mem_problems hresult hp))

end Covers

end Report

end Jsni
