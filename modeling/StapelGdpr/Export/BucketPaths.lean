import StapelGdpr.Export.Keys
import StapelGdpr.Lib.Lexical

/-!
# StapelGdpr.Export.BucketPaths

Where a key that passes the contract lies. `is_safe_bucket_path` never parses the path: it looks
for substrings and for the formatted template in front. That is enough (`safe_path_confined`):
what it accepts normalises to a place within `gdpr/<correlation id>`, and within no other
export's; and without the prefix it still stays within the storage.

Here the template is formatted as the source does it. `Exporter.isSafeBucketPath` is the same
check with the outcome of the formatting as a parameter (`Exporter.isSafeBucketPath_eq`).
-/

namespace StapelGdpr.Export

open Prog
open Lexical (IsName Location locate)

/-! ### `str.format` -/

inductive FormatError
  /-- A brace that opens or closes nothing. -/
  | valueError
  /-- What the lookup or the formatting of a field raised. -/
  | field
  deriving DecidableEq, Repr

/-- Where `str.format` is in a template, with the replacement field read so far. -/
inductive Scan
  | text
  | name (field : List Char)
  /-- Between `[` and `]` in a field name, where a brace is a character. -/
  | index (field : List Char)
  /-- After `!`. -/
  | conversion (field : List Char)
  | converted (field : List Char)
  /-- After `:`, with the braces that are open in the format spec. -/
  | spec (depth : Nat) (field : List Char)

/-- What a field other than `{correlation_id}` becomes: a conversion, a format spec, an attribute
or an index of the id, or the error of a name there is no argument for. -/
abbrev Fields := List Char → String → Except FormatError (List Char)

def replacement (fields : Fields) (correlationId : String) (field : List Char) :
    Except FormatError (List Char) :=
  if field = "correlation_id".toList then .ok correlationId.toList
  else fields field correlationId

/-- The rest of a template, formatted. -/
def formatFrom (fields : Fields) (correlationId : String) :
    Scan → List Char → Except FormatError (List Char)
  | .text, [] => .ok []
  | .text, '{' :: '{' :: rest => ('{' :: ·) <$> formatFrom fields correlationId .text rest
  | .text, ['{'] => .error .valueError
  | .text, '{' :: rest => formatFrom fields correlationId (.name []) rest
  | .text, '}' :: '}' :: rest => ('}' :: ·) <$> formatFrom fields correlationId .text rest
  | .text, '}' :: _ => .error .valueError
  | .text, c :: rest => (c :: ·) <$> formatFrom fields correlationId .text rest
  | .name field, '}' :: rest => do
      let value ← replacement fields correlationId field
      (value ++ ·) <$> formatFrom fields correlationId .text rest
  | .name _, '{' :: _ => .error .valueError
  | .name field, '[' :: rest => formatFrom fields correlationId (.index (field ++ ['['])) rest
  | .name field, '!' :: rest => formatFrom fields correlationId (.conversion (field ++ ['!'])) rest
  | .name field, ':' :: rest => formatFrom fields correlationId (.spec 0 (field ++ [':'])) rest
  | .name field, c :: rest => formatFrom fields correlationId (.name (field ++ [c])) rest
  | .index field, ']' :: rest => formatFrom fields correlationId (.name (field ++ [']'])) rest
  | .index field, c :: rest => formatFrom fields correlationId (.index (field ++ [c])) rest
  | .conversion field, c :: rest =>
      formatFrom fields correlationId (.converted (field ++ [c])) rest
  | .converted field, '}' :: rest => do
      let value ← replacement fields correlationId field
      (value ++ ·) <$> formatFrom fields correlationId .text rest
  | .converted field, ':' :: rest => formatFrom fields correlationId (.spec 0 (field ++ [':'])) rest
  | .converted _, _ :: _ => .error .valueError
  | .spec depth field, '{' :: rest =>
      formatFrom fields correlationId (.spec (depth + 1) (field ++ ['{'])) rest
  | .spec 0 field, '}' :: rest => do
      let value ← replacement fields correlationId field
      (value ++ ·) <$> formatFrom fields correlationId .text rest
  | .spec (depth + 1) field, '}' :: rest =>
      formatFrom fields correlationId (.spec depth (field ++ ['}'])) rest
  | .spec depth field, c :: rest =>
      formatFrom fields correlationId (.spec depth (field ++ [c])) rest
  | _, [] => .error .valueError

/-! ### The contract -/

/-- `BUCKET_PATH_PREFIX_TEMPLATE`, the default of `EXPORT_BUCKET_PREFIX`. -/
def bucketPathPrefixTemplate : String := "gdpr/{correlation_id}/"

/-- `export_bucket_prefix`. -/
def exportBucketPrefix (fields : Fields) (template correlationId : String) :
    Except FormatError String :=
  if template = "" then .ok ""
  else String.ofList <$> formatFrom fields correlationId .text template.toList

/-- `is_safe_bucket_path`. -/
def isSafeBucketPath (fields : Fields) (template bucketPath correlationId : String) :
    Except FormatError Bool :=
  if bucketPath = "" then .ok false
  else if bucketPath.startsWith "/" || bucketPath.startsWith "~" then .ok false
  else if bucketPathRejected.any (contains bucketPath) then .ok false
  else do
    let start ← exportBucketPrefix fields template correlationId
    return start = "" || bucketPath.startsWith start

/-- The path of a key, normalised. -/
def location (bucketPath : String) : Location '.' := locate '/' '.' bucketPath.toList

/-- The path is relative, and never climbs above the storage root. -/
def InStorage (bucketPath : String) : Prop :=
  (location bucketPath).absolute = false ∧ (location bucketPath).up = 0

/-- The path leads to `gdpr/<correlation id>`, or to something under it. -/
def InExport (bucketPath correlationId : String) : Prop :=
  InStorage bucketPath ∧
    ["gdpr".toList, correlationId.toList] <+: (location bucketPath).names

/-- An id that is one segment of a path, and names something. -/
def IsExportId (correlationId : String) : Prop :=
  correlationId ≠ "" ∧ '/' ∉ correlationId.toList ∧ correlationId ≠ "." ∧
    contains correlationId ".." = false

instance (correlationId : String) : Decidable (IsExportId correlationId) := by
  unfold IsExportId
  infer_instance

variable {fields : Fields} {template key c c' : String}

theorem exportBucketPrefix_default :
    exportBucketPrefix fields bucketPathPrefixTemplate c = .ok ("gdpr/" ++ c ++ "/") := by
  have hformat : formatFrom fields c .text bucketPathPrefixTemplate.toList =
      .ok ("gdpr/".toList ++ (c.toList ++ ['/'])) := rfl
  have htext : String.ofList ("gdpr/".toList ++ (c.toList ++ ['/'])) = "gdpr/" ++ c ++ "/" :=
    String.toList_inj.mp (by simp)
  rw [exportBucketPrefix, if_neg (by decide), hformat, ← htext]
  rfl

/-- What the rules on the shape of a key let through. -/
def Shaped (key : String) : Prop :=
  key ≠ "" ∧ key.startsWith "/" = false ∧ key.startsWith "~" = false ∧
    bucketPathRejected.any (contains key) = false

theorem isSafeBucketPath_of_shaped (h : Shaped key) :
    isSafeBucketPath fields template key c = (do
      let start ← exportBucketPrefix fields template c
      return start = "" || key.startsWith start) := by
  obtain ⟨hkey, hroot, hhome, hrejected⟩ := h
  rw [isSafeBucketPath, if_neg hkey, hroot, hhome, hrejected]
  rfl

theorem isSafeBucketPath_of_not_shaped (h : ¬Shaped key) :
    isSafeBucketPath fields template key c = .ok false := by
  rw [isSafeBucketPath]
  split
  · rfl
  rename_i hkey
  split
  · rfl
  rename_i hfirst
  split
  · rfl
  rename_i hrejected
  rw [Bool.or_eq_true, not_or, Bool.not_eq_true, Bool.not_eq_true] at hfirst
  exact absurd ⟨hkey, hfirst.1, hfirst.2, Bool.not_eq_true _ ▸ hrejected⟩ h

/-- Whatever the template is, and also where it does not format. -/
theorem shaped_of_isSafeBucketPath (h : isSafeBucketPath fields template key c = .ok true) :
    Shaped key := by
  by_contra hshape
  rw [isSafeBucketPath_of_not_shaped hshape] at h
  cases h

/-- With the default template a shaped key needs the prefix. -/
theorem isSafeBucketPath_default (h : Shaped key) :
    isSafeBucketPath fields bucketPathPrefixTemplate key c =
      .ok (key.startsWith ("gdpr/" ++ c ++ "/")) := by
  have hne : "gdpr/" ++ c ++ "/" ≠ "" := by
    intro hempty
    have hlength := congrArg String.length hempty
    simp at hlength
  rw [isSafeBucketPath_of_shaped h, exportBucketPrefix_default]
  change Except.ok (decide ("gdpr/" ++ c ++ "/" = "") || _) = _
  rw [decide_eq_false hne, Bool.false_or]

/-! ### Where a key lies -/

theorem isName_of_isExportId (h : IsExportId c) : IsName '.' c.toList := by
  obtain ⟨hne, -, hdot, hdots⟩ := h
  refine ⟨?_, ?_, ?_⟩
  · simpa using hne
  · intro hc
    exact hdot (String.toList_inj.mp hc)
  · intro hc
    rw [contains, decide_eq_false_iff_not, hc] at hdots
    exact hdots (List.infix_refl _)

/-- A shaped key has no segment "..". -/
theorem Shaped.no_parent (h : Shaped key) : ['.', '.'] ∉ key.toList.splitOn '/' := by
  intro hparent
  have hinfix := Lexical.infix_of_mem_splitOn hparent
  have hfalse : contains key ".." = false :=
    Bool.not_eq_true _ ▸ List.any_eq_false.mp h.2.2.2 ".." (by decide)
  rw [contains, decide_eq_false_iff_not] at hfalse
  exact hfalse hinfix

theorem Shaped.relative (h : Shaped key) : key.toList.head? ≠ some '/' := by
  intro hhead
  obtain ⟨rest, hrest⟩ := List.head?_eq_some_iff.mp hhead
  have hstart : key.startsWith "/" = true := by
    rw [String.startsWith_string_iff, hrest]
    exact ⟨rest, rfl⟩
  exact absurd hstart (by rw [h.2.1]; decide)

theorem Shaped.inStorage (h : Shaped key) : InStorage key := by
  have hwithin : (location key).Within (.start '.' (key.toList.head? = some '/')) :=
    Lexical.locate_within_start h.no_parent
  obtain ⟨habsolute, hup, -⟩ := hwithin
  exact ⟨habsolute.trans (decide_eq_false h.relative), hup⟩

/-- The directory of an export. -/
theorem names_of_isExportId (h : IsExportId c) :
    (location ("gdpr/" ++ c)).names = ["gdpr".toList, c.toList] := by
  have hchars : ("gdpr/" ++ c).toList = "gdpr".toList ++ '/' :: c.toList := by simp
  rw [location, hchars, Lexical.locate_name_append (by decide) (isName_of_isExportId h) h.2.1]
  rfl

/-- A key under the prefix of an export lies in its directory. -/
theorem Shaped.inExport (h : Shaped key) (hid : IsExportId c)
    (hstart : key.startsWith ("gdpr/" ++ c ++ "/") = true) : InExport key c := by
  obtain ⟨rest, hrest⟩ := String.startsWith_string_iff.mp hstart
  have hchars : key.toList = ("gdpr/" ++ c).toList ++ '/' :: rest := by
    rw [← hrest]
    simp
  have hno := h.no_parent
  rw [hchars, List.splitOn_append_cons_self, List.mem_append, not_or] at hno
  have hunder : (location key).Within (location ("gdpr/" ++ c)) := by
    rw [location, hchars]
    exact Lexical.locate_within (by simp) hno.2
  refine ⟨h.inStorage, ?_⟩
  rw [← names_of_isExportId hid]
  exact hunder.2.2

/-- Ids are single segments, so a key is under the prefix of one only. -/
theorem eq_of_startsWith (hid : IsExportId c) (hid' : IsExportId c')
    (h : key.startsWith ("gdpr/" ++ c ++ "/") = true)
    (h' : key.startsWith ("gdpr/" ++ c' ++ "/") = true) : c = c' := by
  have hcut := takeWhile_of_startsWith hid.2.1 h
  have hcut' := takeWhile_of_startsWith hid'.2.1 h'
  exact String.toList_inj.mp (hcut.symm.trans hcut')

/-- What `is_safe_bucket_path` accepts stays in the storage, whatever the template; with the
default one it is in the directory of its own export, and refused for any other. -/
theorem safe_path_confined (fields : Fields) :
    (∀ c key, IsExportId c →
      isSafeBucketPath fields bucketPathPrefixTemplate key c = .ok true →
        InExport key c ∧
        ∀ c', IsExportId c' → c' ≠ c →
          isSafeBucketPath fields bucketPathPrefixTemplate key c' = .ok false) ∧
    ∀ template c key, isSafeBucketPath fields template key c = .ok true → InStorage key := by
  constructor
  · intro c key hid h
    have hshape := shaped_of_isSafeBucketPath h
    rw [isSafeBucketPath_default hshape] at h
    have hstart := Except.ok.inj h
    refine ⟨hshape.inExport hid hstart, ?_⟩
    intro c' hid' hne
    rw [isSafeBucketPath_default hshape]
    by_contra hother
    have hstart' : key.startsWith ("gdpr/" ++ c' ++ "/") = true := by simpa using hother
    exact hne (eq_of_startsWith hid' hid hstart' hstart)
  · intro template c key h
    exact (shaped_of_isSafeBucketPath h).inStorage

/-- A slice of the export `7`, which is no key of the export `8`. -/
theorem safe_path_confined_slice :
    InExport "gdpr/7/media//./export.json" "7" ∧
      isSafeBucketPath (fun _ _ => .error .field) bucketPathPrefixTemplate
        "gdpr/7/media//./export.json" "8" = .ok false := by
  have hshape : Shaped "gdpr/7/media//./export.json" := by
    refine ⟨by decide +kernel, ?_, ?_, by decide +kernel⟩ <;>
      exact Bool.eq_false_iff.mpr fun h =>
        absurd (String.startsWith_string_iff.mp h) (by decide +kernel)
  have hsafe : isSafeBucketPath (fun _ _ => .error .field) bucketPathPrefixTemplate
      "gdpr/7/media//./export.json" "7" = .ok true := by
    rw [isSafeBucketPath_default hshape, String.startsWith_string_iff.mpr (by decide +kernel)]
  obtain ⟨hunder, hother⟩ :=
    (safe_path_confined fun _ _ => .error .field).1 "7" _ (by decide +kernel) hsafe
  exact ⟨hunder, hother "8" (by decide +kernel) (by decide +kernel)⟩

/-! ### The exporter -/

/-- `str(correlation_id)`. -/
def idText (id : Option Uuid) : String := id.elim "None" toString

/-- An id formats to letters and digits. -/
theorem isAlphanum_of_mem_idText {id : Option Uuid} {ch : Char} (h : ch ∈ (idText id).toList) :
    ch.isAlphanum = true := by
  cases id with
  | none =>
      have hletters : "None".toList.all Char.isAlphanum = true := by decide
      exact List.all_eq_true.mp hletters ch h
  | some n =>
      have hdigit := Nat.isDigit_of_mem_toDigits (b := 10) (n := n) (c := ch) (by decide)
        (by decide) (by simpa [idText] using h)
      rw [Char.isAlphanum, hdigit, Bool.or_true]

/-- The ids of the orchestrator are such. -/
theorem isExportId_idText (id : Option Uuid) : IsExportId (idText id) := by
  have hdot : '.' ∉ (idText id).toList := fun h => absurd (isAlphanum_of_mem_idText h) (by decide)
  refine ⟨?_, fun h => absurd (isAlphanum_of_mem_idText h) (by decide), ?_, ?_⟩
  · cases id with
    | none => decide
    | some n =>
        intro h
        have hchars := congrArg String.toList h
        simp [idText] at hchars
  · intro h
    exact hdot (by rw [h]; decide)
  · rw [contains, decide_eq_false_iff_not]
    intro h
    exact hdot (h.subset (by decide))

theorem Exporter.shaped_of_safe {x : Exporter} {id : Option Uuid}
    (h : x.isSafeBucketPath key id = true) : Shaped key := by
  simp only [Exporter.isSafeBucketPath, Bool.and_eq_true, Bool.not_eq_true',
    decide_eq_true_eq] at h
  obtain ⟨⟨⟨⟨hkey, hroot⟩, hhome⟩, hrejected⟩, -⟩ := h
  exact ⟨hkey, hroot, hhome, hrejected⟩

/-- The check of an exporter is this one, at what the template formats to. -/
theorem Exporter.isSafeBucketPath_eq {x : Exporter} {id : Option Uuid}
    (h : exportBucketPrefix fields template (idText id) = .ok (x.bucketPrefix id)) :
    Export.isSafeBucketPath fields template key (idText id) = .ok (x.isSafeBucketPath key id) := by
  by_cases hshape : Shaped key
  · rw [isSafeBucketPath_of_shaped hshape, h, Exporter.isSafeBucketPath]
    obtain ⟨hkey, hroot, hhome, hrejected⟩ := hshape
    rw [decide_eq_true hkey, hroot, hhome, hrejected]
    rfl
  · rw [isSafeBucketPath_of_not_shaped hshape]
    exact congrArg Except.ok (Bool.eq_false_iff.mpr fun hsafe => hshape (shaped_of_safe hsafe)).symm

/-- With the default prefix, a key that passes the contract lies in the directory of its own
request. -/
theorem Keyed.inExport {x : Exporter} {db : ExportDb} {pk : Nat} (h : Keyed x db pk key)
    (hx : x.bucketPrefix = ({} : Exporter).bucketPrefix) :
    ∃ r, db.requests.get? pk = some r ∧ InExport key (idText r.correlationId) := by
  obtain ⟨r, hr, hsafe, -⟩ := h
  have hformats : exportBucketPrefix (fun _ _ => .error .field) bucketPathPrefixTemplate
      (idText r.correlationId) = .ok (x.bucketPrefix r.correlationId) := by
    rw [hx]
    exact exportBucketPrefix_default
  have hshape := Exporter.shaped_of_safe hsafe
  have heq : Export.isSafeBucketPath (fun _ _ => .error .field) bucketPathPrefixTemplate key
      (idText r.correlationId) = .ok (x.isSafeBucketPath key r.correlationId) :=
    Exporter.isSafeBucketPath_eq hformats
  rw [isSafeBucketPath_default hshape, hsafe] at heq
  exact ⟨r, hr, hshape.inExport (isExportId_idText _) (Except.ok.inj heq)⟩

/-- So what a step opens lies in the directory of the request it builds. -/
theorem KeysHold.inExport {κ : Type} {x : Exporter} {e : Pool.Event κ ExportOp ExportDb}
    {pk : Nat} {service : String} (h : KeysHold x e)
    (hx : x.bucketPrefix = ({} : Exporter).bucketPrefix)
    (hopen : e.label = .openPart pk service key) :
    ∃ r, e.before.requests.get? pk = some r ∧ InExport key (idText r.correlationId) :=
  (h.1 pk service key hopen).inExport hx

end StapelGdpr.Export
