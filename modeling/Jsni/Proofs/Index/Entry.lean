import Jsni.Proofs.Index.Signature
import Jsni.Proofs.Json.Reader

/-!
# Reading entries back

A decoder reads a value back if it makes of the written value what was written. Lists, options and
records are read back if what they hold is, and types if their class names are plain. So every
entry that was read from a text is read back from the text that it is written as.
-/

namespace Jsni

namespace Json.Decode

/-- What is written is decoded as what it stands for. -/
def ReadsBack (decode : Decoder α) (toJson : α → Json) (a : α) : Prop :=
  decode (toJson a).draft = .ok a

variable {decode : Decoder α} {toJson : α → Json}

theorem readsBack_string (s : String) : ReadsBack string .string s :=
  rfl

theorem readsBack_option_string (s : Option String) :
    ReadsBack (option string) (·.elim .null .string) s := by
  cases s <;> rfl

theorem ReadsBack.list {as : List α} (h : ∀ a ∈ as, ReadsBack decode toJson a) :
    ReadsBack (list decode) (fun as => .array (as.map toJson)) as := by
  have hitems : (draftItems (as.map toJson)).mapM decode = .ok as := by
    rw [mapM_eq_ok_iff, draftItems_eq, List.map_map, List.forall₂_map_left_iff, List.forall₂_same]
    exact h
  exact bind_eq_ok_iff.2 ⟨as, hitems, rfl⟩

/-- The value of a field that is not there yet. -/
theorem ReadsBack.once {a : α} (h : ReadsBack decode toJson a) (name : String) :
    once name none decode (toJson a).draft = .ok (some a) :=
  map_eq_ok_iff.2 ⟨a, h, rfl⟩

/-- Members that are taken one after another make up the record. -/
theorem record_draft {format : RecordFormat σ α} {members : List (String × Json)} {a : α}
    (known : σ) (hmembers : members.foldlM (fun s m => format.member s m.1 m.2.draft) format.start
      = .ok known) (hfinish : format.finish known = .ok a) :
    record format (Json.object members).draft = .ok a := by
  have hdrafts : (draftMembers members).foldlM
      (fun s m => do format.member s (← text m.1) m.2) format.start = .ok known := by
    rw [draftMembers_eq, List.foldlM_map]
    exact hmembers
  exact bind_eq_ok_iff.2 ⟨known, hdrafts, hfinish⟩

end Json.Decode

open Json.Decode

theorem ErasedType.readsBack {t : ErasedType} (h : t.HasPlainName) :
    ReadsBack ErasedType.decode ErasedType.toJson t := by
  have hread : ErasedType.read t.descriptor = .ok t :=
    read_eq_ok_iff.2 (by rw [descriptor, String.toList_ofList]; exact h.spells)
  rw [ReadsBack, toJson, Json.draft, ErasedType.decode]
  refine bind_eq_ok_iff.2 ⟨t.descriptor, rfl, ?_⟩
  rw [hread]
  rfl

theorem readsBack_parameters {ts : List ErasedType} (h : ∀ t ∈ ts, t.HasPlainName) :
    ReadsBack (list ErasedType.decode) parametersToJson ts :=
  ReadsBack.list fun t ht => ErasedType.readsBack (h t ht)

theorem TypeKind.readsBack (k : TypeKind) : ReadsBack TypeKind.decode (.string ·.keyword) k := by
  cases k <;> rfl

theorem FieldDecl.readsBack {f : FieldDecl} (h : f.type.HasPlainName) :
    ReadsBack (record FieldDecl.format) FieldDecl.toJson f := by
  have hname := (readsBack_string f.name).once "name"
  have htype := (ErasedType.readsBack h).once "type"
  refine record_draft ⟨some f.name, some f.type⟩ ?_ rfl
  simp [format, hname, htype, ok_bind]

theorem MethodDecl.readsBack {m : MethodDecl} (h : ∀ t ∈ m.parameters, t.HasPlainName) :
    ReadsBack (record MethodDecl.format) MethodDecl.toJson m := by
  have hname := (readsBack_string m.name).once "name"
  have hparameters := (readsBack_parameters h).once "params"
  refine record_draft ⟨some m.name, some m.parameters⟩ ?_ rfl
  simp [format, hname, hparameters, ok_bind]

theorem readsBack_constructor {ts : List ErasedType} (h : ∀ t ∈ ts, t.HasPlainName) :
    ReadsBack (record constructorFormat) constructorToJson ts := by
  have hparameters := (readsBack_parameters h).once "params"
  refine record_draft (some ts) ?_ rfl
  simp [constructorFormat, hparameters]

/-- All types of a declaration's members have plain class names. -/
structure TypeDecl.HasPlainNames (d : TypeDecl) : Prop where
  fields : ∀ f ∈ d.fields, f.type.HasPlainName
  methods : ∀ m ∈ d.methods, ∀ t ∈ m.parameters, t.HasPlainName
  constructors : ∀ ts ∈ d.constructors, ∀ t ∈ ts, t.HasPlainName

theorem TypeDecl.IsRead.hasPlainNames {d : TypeDecl} (h : d.IsRead) : d.HasPlainNames where
  fields f hf := (h.fields f hf).hasPlainName
  methods m hm t ht := (h.methods m hm t ht).hasPlainName
  constructors ts hts t ht := (h.constructors ts hts t ht).hasPlainName

theorem TypeEntry.readsBack {e : TypeEntry} (h : e.decl.HasPlainNames) :
    ReadsBack TypeEntry.decode TypeEntry.toJson e := by
  obtain ⟨name, kind, superclass, interfaces, fields, methods, constructors⟩ := e
  have hname := (readsBack_string name).once "fqn"
  have hkind := (TypeKind.readsBack kind).once "kind"
  have hsuperclass := (readsBack_option_string superclass).once "superclass"
  have hinterfaces := (ReadsBack.list fun s (_ : s ∈ interfaces) => readsBack_string s).once
    "interfaces"
  have hfields := (ReadsBack.list fun f hf => FieldDecl.readsBack (h.fields f hf)).once "fields"
  have hmethods := (ReadsBack.list fun m hm => MethodDecl.readsBack (h.methods m hm)).once
    "methods"
  have hconstructors :=
    (ReadsBack.list fun ts hts => readsBack_constructor (h.constructors ts hts)).once
      "constructors"
  refine record_draft ⟨some name, some kind, some superclass, some interfaces, some fields,
    some methods, some constructors⟩ ?_ rfl
  simp [format, hname, hkind, hsuperclass, hinterfaces, hfields, hmethods, hconstructors, ok_bind]

/-- An entry is read back just where all class names in its types are plain. -/
theorem TypeEntry.ofDocument_draft_iff {e : TypeEntry} :
    ofDocument ⟨e.toJson.draft, false⟩ = .ok e ↔ e.decl.HasPlainNames := by
  constructor
  · intro h
    -- Whatever document an entry comes from, its types were read from descriptors.
    exact (TypeEntry.yields_decode.of_decode h).hasPlainNames
  · intro h
    exact bind_eq_ok_iff.2 ⟨e, readsBack h, rfl⟩

section Texts

variable {read : String → Json.Document} {print : Json → String}

/-- With a reader and a printer of texts that are inverse, an entry that was read from a text is
read back from the text that it is written as, and the text stays the same when it is written
again. -/
theorem TypeEntry.ofDocument_read_print (hinverse : Json.ReadsPrinted read print) {text : String}
    {e : TypeEntry} (h : ofDocument (read text) = .ok e) :
    ofDocument (read (print e.toJson)) = .ok e
      ∧ (ofDocument (read (print e.toJson))).map (fun again => print again.toJson)
        = .ok (print e.toJson) := by
  have hplain := (TypeEntry.yields_decode.of_decode h).hasPlainNames
  have hback : ofDocument (read (print e.toJson)) = .ok e := by
    rw [hinverse]
    exact ofDocument_draft_iff.2 hplain
  exact ⟨hback, by rw [hback]; rfl⟩

end Texts

/-- Members in an order of their own, one of them unknown, defaults, escapes, and dots and slashes
in one descriptor. -/
def TypeEntry.unusualText : String :=
  "\x7b \"methods\": [\x7b\"name\": \"caf\\u00e9\\n\"\x7d,"
    ++ " \x7b\"params\": [\"[La.b/C;\"], \"name\": \"\\\"é\"\x7d],"
    ++ " \"since\": [1.5e3], \"superclass\": null, \"fqn\": \"a.\\ud835\\udc9c\" \x7d"

def TypeEntry.unusual : TypeEntry :=
  ⟨"a.𝒜", { methods := [⟨"café\n", []⟩, ⟨"\"é", [.array (.named "a.b.C")]⟩] }⟩

theorem TypeEntry.ofDocument_read_print_unusual :
    ofJson unusualText = .ok unusual
      ∧ unusual.toJson.render ≠ unusualText
      ∧ ofJson unusual.toJson.render = .ok unusual
      ∧ (ofJson unusual.toJson.render).map (·.toJson.render) = .ok unusual.toJson.render := by
  have hread : ofJson unusualText = .ok unusual := by decide +kernel
  exact ⟨hread, by cbv, ofDocument_read_print Json.readsPrinted_render hread⟩

end Jsni
