import StapelGdpr.Export.Slices

/-!
# StapelGdpr.Export.Keys

Which keys of `default_storage` an export opens and deletes. The key contract is checked when
a completion is taken, and again before a slice is opened; but a part whose file is already in
staging is taken for staged *before* the second check, and what is staged is deleted
(`foreign_key_deleted`).

`keys_contract` is what holds: where a file found in place belongs to a path that passes the
contract, every key that is opened or deleted does. With the default prefix it then lies under
no other request's (`default_prefix_disjoint`).
-/

namespace StapelGdpr.Export

open Prog

variable {κ : Type} [DecidableEq κ] {calls : κ → Exporter × Caller} {may : κ → ExportOp → Prop}
  {P : Pool ExportOp ExportDb ExportError Unit κ} {start a b db : ExportDb} {x y : Exporter}
  {tr past : List (Pool.Event κ ExportOp ExportDb)} {phases : κ → Phase} {k : κ} {pk i : Nat}
  {m m' : Phase} {op : ExportOp} {ok : Bool} {key service : String} {bytes : Bytes}
  {part : Stored DataExportPart} {p : DataExportPart} {e : Pool.Event κ ExportOp ExportDb}

/-! ### The default prefix -/

/-- What an id is formatted to: the digits of a number, or "None". -/
theorem slash_notMem (id : Option Uuid) : '/' ∉ (id.elim "None" toString).toList := by
  cases id with
  | none => decide
  | some n =>
      intro h
      have hdigit := Nat.isDigit_of_mem_toDigits (b := 10) (by decide) (by decide)
        (show '/' ∈ Nat.toDigits 10 n by simpa using h)
      exact absurd hdigit (by decide)

theorem format_injective {id id' : Option Uuid}
    (h : id.elim "None" toString = id'.elim "None" toString) : id = id' := by
  have hnone : ∀ n : Uuid, toString n ≠ "None" := by
    intro n heq
    have hdigit := Nat.isDigit_of_mem_toDigits (b := 10) (n := n) (c := 'N') (by decide) (by decide)
      (by
        have hchars := congrArg String.toList heq
        have : Nat.toDigits 10 n = "None".toList := by simpa using hchars
        rw [this]
        decide)
    exact absurd hdigit (by decide)
  cases id with
  | none =>
      cases id' with
      | none => rfl
      | some n => exact absurd h.symm (hnone n)
  | some n =>
      cases id' with
      | none => exact absurd h (hnone n)
      | some n' =>
          have hdigits : Nat.toDigits 10 n = Nat.toDigits 10 n' := by
            simpa using congrArg String.toList h
          rw [← Nat.ofDigitChars_ten_toDigits (n := n), hdigits, Nat.ofDigitChars_ten_toDigits]

/-- What stands before the first slash. -/
theorem takeWhile_slash {name rest : List Char} (h : '/' ∉ name) :
    (name ++ '/' :: rest).takeWhile (· ≠ '/') = name := by
  have hname : ∀ c ∈ name, (decide (c ≠ '/')) = true := by
    intro c hc
    rw [decide_eq_true_eq]
    rintro rfl
    exact h hc
  rw [List.takeWhile_append_of_pos hname, List.takeWhile_cons_of_neg (by simp), List.append_nil]

/-- The second segment of a key under the default prefix. -/
theorem takeWhile_of_startsWith {id : String} (hid : '/' ∉ id.toList)
    (h : key.startsWith ("gdpr/" ++ id ++ "/") = true) :
    (key.toList.drop 5).takeWhile (· ≠ '/') = id.toList := by
  obtain ⟨rest, hrest⟩ := String.startsWith_string_iff.mp h
  have hchars : key.toList = "gdpr/".toList ++ (id.toList ++ '/' :: rest) := by
    rw [← hrest]
    simp
  rw [hchars]
  exact takeWhile_slash hid

/-- No key is under the default prefix of two ids. -/
theorem default_prefix_disjoint {id id' : Option Uuid}
    (h : key.startsWith (({} : Exporter).bucketPrefix id) = true)
    (h' : key.startsWith (({} : Exporter).bucketPrefix id') = true) : id = id' := by
  have hcut := takeWhile_of_startsWith (slash_notMem id) h
  have hcut' := takeWhile_of_startsWith (slash_notMem id') h'
  exact format_injective (String.toList_inj.mp (hcut.symm.trans hcut'))

/-! ### The contract -/

/-- The key passes the contract of the request; with the default prefix, it lies under that of
no other id. -/
def Keyed (x : Exporter) (db : ExportDb) (pk : Nat) (key : String) : Prop :=
  ∃ r, db.requests.get? pk = some r ∧ x.isSafeBucketPath key r.correlationId = true ∧
    (x.bucketPrefix = ({} : Exporter).bucketPrefix → ∀ id, id ≠ r.correlationId →
      key.startsWith (x.bucketPrefix id) = false)

/-- What a step opens or deletes passes the contract. -/
def KeysHold (x : Exporter) (e : Pool.Event κ ExportOp ExportDb) : Prop :=
  (∀ pk service key, e.label = .openPart pk service key → Keyed x e.before pk key) ∧
  ∀ i key, e.label = .bucketDelete i key → e.before.readObject key ≠ none →
    ∃ p, e.before.parts.get? i = some p ∧ Keyed x e.before p.request key

/-- The condition on a step: a file that is already in the place of a slice belongs to a path
that passes the contract. -/
def Contracted (x : Exporter) (e : Pool.Event κ ExportOp ExportDb) : Prop :=
  match e.label with
  | .fileExists pk service key => e.before.hasFile pk (exportPath service) = true →
      SafeFor x e.before pk key
  | _ => True

/-! This can be evaluated. -/

instance (x : Exporter) (e : Pool.Event κ ExportOp ExportDb) : Decidable (Contracted x e) := by
  obtain ⟨thread, label, before, after, ok⟩ := e
  induction label using ExportOp.casesOn with
  | fileExists pk service key =>
      exact inferInstanceAs (Decidable (before.hasFile pk (exportPath service) = true →
        SafeFor x before pk key))
  | _ => exact .isTrue trivial

/-- A safe key starts with the prefix of its request. -/
theorem Exporter.startsWith_of_safe {id : Option Uuid} (h : x.isSafeBucketPath key id = true) :
    x.bucketPrefix id = "" ∨ key.startsWith (x.bucketPrefix id) = true := by
  simp only [Exporter.isSafeBucketPath, Bool.and_eq_true, Bool.or_eq_true,
    decide_eq_true_eq] at h
  exact h.2

/-- The contract depends on the prefix setting only. -/
theorem Exporter.isSafeBucketPath_congr {id : Option Uuid} (h : y.bucketPrefix = x.bucketPrefix) :
    y.isSafeBucketPath key id = x.isSafeBucketPath key id := by
  rw [Exporter.isSafeBucketPath, Exporter.isSafeBucketPath, h]

theorem SafeFor.congr (h : SafeFor y db pk key) (hx : y.bucketPrefix = x.bucketPrefix) :
    SafeFor x db pk key := by
  obtain ⟨r, hr, hsafe⟩ := h
  exact ⟨r, hr, by rwa [← Exporter.isSafeBucketPath_congr hx]⟩

theorem SafeFor.later (h : SafeFor x a pk key) (hl : Later a b) : SafeFor x b pk key := by
  obtain ⟨r, hr, hsafe⟩ := h
  obtain ⟨r', hr', hrow⟩ := hl.rows pk r hr
  exact ⟨r', hr', by rwa [hrow.correlation]⟩

theorem SafeFor.keyed (h : SafeFor x db pk key) : Keyed x db pk key := by
  obtain ⟨r, hr, hsafe⟩ := h
  refine ⟨r, hr, hsafe, fun hdefault id hne => ?_⟩
  by_contra hother
  rw [hdefault] at hother
  rcases Exporter.startsWith_of_safe hsafe with hempty | hstart
  · rw [hdefault] at hempty
    have hlength := congrArg String.length hempty
    simp at hlength
  · rw [hdefault] at hstart
    exact hne (default_prefix_disjoint (by simpa using hother) hstart)

/-! ### What a build counts on -/

/-- The path is empty, or passes the contract. -/
def Fine (x : Exporter) (db : ExportDb) (pk : Nat) (path : Option String) : Prop :=
  ∀ key, path = some key → key ≠ "" → SafeFor x db pk key

/-- The row of the part names the path that was listed, or a fine one. -/
def Known (x : Exporter) (db : ExportDb) (pk : Nat) (part : Stored DataExportPart) : Prop :=
  ∃ p, db.parts.get? part.pk = some p ∧ p.request = pk ∧
    (p.bucketPath = part.row.bucketPath ∨ Fine x db pk p.bucketPath)

/-- The row of the part names a fine path. -/
def Proper (x : Exporter) (db : ExportDb) (pk : Nat) (part : Stored DataExportPart) : Prop :=
  ∃ p, db.parts.get? part.pk = some p ∧ p.request = pk ∧ Fine x db pk p.bucketPath

theorem Fine.later {path : Option String} (h : Fine x a pk path) (hl : Later a b) :
    Fine x b pk path := fun key hkey hne => (h key hkey hne).later hl

theorem Known.proper (h : Known x db pk part) (hsafe : SafeFor x db pk (sliceKey part)) :
    Proper x db pk part := by
  obtain ⟨p, hp, hreq, hpath | hfine⟩ := h
  · refine ⟨p, hp, hreq, fun key hkey _ => ?_⟩
    have hslice : sliceKey part = key := by rw [sliceKey, ← hpath, hkey]; rfl
    rwa [← hslice]
  · exact ⟨p, hp, hreq, hfine⟩

/-- A step leaves the path of a part, or gives it a fine one. -/
theorem Step.path (h : Step y m op ok a b m') (hx : y.bucketPrefix = x.bucketPrefix)
    (hp : a.parts.get? i = some p) : ∃ p', b.parts.get? i = some p' ∧ p'.request = p.request ∧
      (p'.bucketPath = p.bucketPath ∨ Fine x b p.request p'.bucketPath) := by
  cases h with
  | partCreated => exact ⟨p, Table.get?_insert_of_some _ hp, rfl, .inl rfl⟩
  | @partSaved j =>
      by_cases hj : i = j
      · subst hj
        exact ⟨_, Table.get?_modify_self _ hp, rfl, .inl rfl⟩
      · exact ⟨p, (Table.get?_modify_of_ne _ hj).trans hp, rfl, .inl rfl⟩
  | @partReady pk' service path _ hpath =>
      have hget := (Table.get?_update a.parts (·.awaits pk' service) (fun p : DataExportPart =>
        { p with status := .done, bucketPath := path, completedAt := some y.env.now }) i).trans
        (congrArg _ hp)
      by_cases hawaits : p.awaits pk' service = true
      · -- a completion is taken for a path that passes
        have hreq : p.request = pk' := by
          simp only [DataExportPart.awaits, Bool.and_eq_true, decide_eq_true_eq] at hawaits
          exact hawaits.1.1
        refine ⟨_, hget, by simp [hawaits], .inr fun key hkey hne => ?_⟩
        simp only [hawaits, if_true] at hkey
        rw [hreq]
        obtain ⟨r, hr, hsafe⟩ := hpath key hkey hne
        exact SafeFor.congr ⟨r, hr, hsafe⟩ hx
      · refine ⟨_, hget, ?_, .inl ?_⟩ <;> simp [hawaits]
  | @partPurged j =>
      by_cases hj : i = j
      · subst hj
        exact ⟨_, Table.get?_modify_self _ hp, rfl, .inr fun key hkey => absurd hkey (by simp)⟩
      · exact ⟨p, (Table.get?_modify_of_ne _ hj).trans hp, rfl, .inl rfl⟩
  | exported | archiveDeleted => exact ⟨p, by simpa using hp, rfl, .inl rfl⟩
  | _ => exact ⟨p, hp, rfl, .inl rfl⟩

theorem Known.step (h : Known x a pk part) (hstep : Step y m op ok a b m') (hl : Later a b)
    (hx : y.bucketPrefix = x.bucketPrefix) : Known x b pk part := by
  obtain ⟨p, hp, hreq, hpath⟩ := h
  obtain ⟨p', hp', hreq', hpath'⟩ := hstep.path hx hp
  refine ⟨p', hp', hreq'.trans hreq, ?_⟩
  rcases hpath' with hsame | hfine
  · rw [hsame]
    exact hpath.imp_right fun hfine => hfine.later hl
  · exact .inr (hreq ▸ hfine)

theorem Proper.step (h : Proper x a pk part) (hstep : Step y m op ok a b m') (hl : Later a b)
    (hx : y.bucketPrefix = x.bucketPrefix) : Proper x b pk part := by
  obtain ⟨p, hp, hreq, hfine⟩ := h
  obtain ⟨p', hp', hreq', hpath'⟩ := hstep.path hx hp
  refine ⟨p', hp', hreq'.trans hreq, ?_⟩
  rcases hpath' with hsame | hfine'
  · rw [hsame]
    exact hfine.later hl
  · exact hreq ▸ hfine'

/-- What a call counts on: it stages parts with fine paths only. -/
def Lawful (x : Exporter) (db : ExportDb) : Phase → Prop
  | .idle | .held _ => True
  | .building pk todo staged => (∀ part ∈ todo, Known x db pk part) ∧
      ∀ part ∈ staged, Proper x db pk part
  | .copying pk part _ todo staged => (∀ part ∈ todo, Known x db pk part) ∧
      ∀ other ∈ staged ++ [part], Proper x db pk other
  | .judged pk staged .. | .zipped pk staged .. | .saved pk staged .. | .published pk staged _ =>
      ∀ part ∈ staged, Proper x db pk part
  | .purging pk todo _ => ∀ part ∈ todo, PartOf db part.pk pk ∧ Fine x db pk part.row.bucketPath

/-- Every step leaves it true. -/
theorem Lawful.keep {n : Phase} (h : Lawful x a n) (hstep : Step y m op ok a b m')
    (hl : Later a b) (hx : y.bucketPrefix = x.bucketPrefix) : Lawful x b n := by
  cases n with
  | idle | held => trivial
  | building | copying =>
      exact ⟨fun part hpart => (h.1 part hpart).step hstep hl hx,
        fun part hpart => (h.2 part hpart).step hstep hl hx⟩
  | judged | zipped | saved | published =>
      exact fun part hpart => (h part hpart).step hstep hl hx
  | purging pk todo archive =>
      exact fun part hpart => ⟨hl.partOf (h part hpart).1, (h part hpart).2.later hl⟩

omit [DecidableEq κ] in
/-- And a build's own steps lead to what the next phase counts on. -/
theorem Lawful.own (h : Lawful x a m) (hstep : Step y m op ok a b m') (hl : Later a b)
    (hx : y.bucketPrefix = x.bucketPrefix) (hH : Contracted x ⟨k, op, a, b, ok⟩) :
    Lawful x b m' := by
  have hkept : Lawful x b m := h.keep hstep hl hx
  cases hstep with
  | stays | written | copied | zipped | saved | published | cleared | partPurged => exact hkept
  | listed =>
      refine ⟨fun part hpart => ?_, fun part hpart => absurd hpart List.not_mem_nil⟩
      obtain ⟨hp, hreq, -⟩ := ExportDb.mem_uploadedParts.mp hpart
      exact ⟨part.row, hp, hreq, .inl rfl⟩
  | found hfile =>
      obtain ⟨hknown, hproper⟩ := h
      obtain ⟨hpart, hrest⟩ := List.forall_mem_cons.mp hknown
      refine ⟨hrest, fun other hother => ?_⟩
      rcases List.mem_append.mp hother with hother | hother
      · exact hproper other hother
      · rw [List.mem_singleton.mp hother]
        exact hpart.proper (hH hfile)
  | refused | notOpened =>
      exact ⟨fun part hpart => h.1 part (List.mem_cons_of_mem _ hpart), h.2⟩
  | opened hsafe =>
      obtain ⟨hknown, hproper⟩ := h
      obtain ⟨hpart, hrest⟩ := List.forall_mem_cons.mp hknown
      refine ⟨hrest, fun other hother => ?_⟩
      rcases List.mem_append.mp hother with hother | hother
      · exact hproper other hother
      · rw [List.mem_singleton.mp hother]
        exact hpart.proper (hsafe.congr hx)
  | notCopied => exact ⟨h.1, fun part hpart => h.2 part (List.mem_append_left _ hpart)⟩
  | judged => exact h.2
  | stagedListed =>
      intro part hpart
      obtain ⟨hselect, hmem⟩ := List.mem_filter.mp hpart
      obtain ⟨hget, hp⟩ := Table.mem_select.mp hselect
      simp only [Bool.and_eq_true, decide_eq_true_eq] at hp
      obtain ⟨other, hother, heq⟩ := List.mem_map.mp (of_decide_eq_true hmem)
      obtain ⟨p, hp', hreq, hfine⟩ := h other hother
      rw [heq, hget] at hp'
      obtain rfl := Option.some.inj hp'
      exact ⟨⟨part.row, hget, hp.1⟩, hfine⟩
  | gone | bucketDeleted | notDeleted =>
      exact fun part hpart => hkept part (List.mem_cons_of_mem _ hpart)
  | _ => trivial

/-! ### Every run -/

/-- A slice is opened where the contract lets it. -/
theorem Step.openPart (h : Step y m (.openPart pk service key) ok a b m') : SafeFor y a pk key := by
  generalize hop : ExportOp.openPart pk service key = op at h
  cases h with
  | stays hrest =>
      subst hop
      exact absurd hrest.1 (by simp [ExportOp.turns])
  | opened hsafe | notOpened hsafe =>
      obtain ⟨rfl, -, rfl⟩ := ExportOp.openPart.inj hop
      exact hsafe
  | notCopied hcopy => exact absurd hop (by rcases hcopy with rfl | rfl <;> simp)
  | notPublished hlast => exact absurd hop (by rcases hlast with rfl | rfl <;> simp)
  | notDeleted hdelete => exact absurd hop (by rcases hdelete with rfl | rfl <;> simp)
  | _ => exact absurd hop (by simp)

/-- Deletions are part of a purge. -/
theorem Step.bucketDelete (h : Step y m (.bucketDelete i key) ok a b m') :
    ∃ pk part todo archive, m = .purging pk (part :: todo) archive ∧ part.pk = i ∧
      sliceKey part = key := by
  generalize hop : ExportOp.bucketDelete i key = op at h
  cases h with
  | stays hrest =>
      subst hop
      exact absurd hrest.1 (by simp [ExportOp.turns])
  | bucketDeleted =>
      obtain ⟨rfl, rfl⟩ := ExportOp.bucketDelete.inj hop
      exact ⟨_, _, _, _, rfl, rfl, rfl⟩
  | notCopied hcopy => exact absurd hop (by rcases hcopy with rfl | rfl <;> simp)
  | notPublished hlast => exact absurd hop (by rcases hlast with rfl | rfl <;> simp)
  | notDeleted hdelete =>
      rcases hdelete with rfl | rfl
      · exact absurd hop (by simp)
      · obtain ⟨rfl, rfl⟩ := ExportOp.bucketDelete.inj hop
        exact ⟨_, _, _, _, rfl, rfl, rfl⟩
  | _ => exact absurd hop (by simp)

/-- What the calls count on, and what was opened and deleted so far. -/
structure Ruled (x : Exporter) (past : List (Pool.Event κ ExportOp ExportDb))
    (phases : κ → Phase) (db : ExportDb) : Prop where
  lawful : ∀ k, Lawful x db (phases k)
  named : ∀ o ∈ db.bucket, o.1 ≠ ""
  keys : ∀ e ∈ past, KeysHold x e

theorem Ruled.step (h : Ruled x past phases e.before) (hexcl : Exclusive phases e.before)
    (hstep : Step y (phases e.thread) e.label e.ok e.before e.after m)
    (hx : y.bucketPrefix = x.bucketPrefix) (hH : Contracted x e) :
    Ruled x (past ++ [e]) (Function.update phases e.thread m) e.after := by
  have hl := hstep.later (hexcl.guard e.thread)
  constructor
  · intro j
    by_cases hj : j = e.thread
    · subst hj
      rw [Function.update_self]
      exact Lawful.own (h.lawful _) hstep hl hx hH
    · rw [Function.update_of_ne hj]
      exact (h.lawful j).keep hstep hl hx
  · rw [hstep.bucket]
    exact h.named
  · intro f hf
    rcases List.mem_append.mp hf with hf | hf
    · exact h.keys f hf
    obtain rfl := List.mem_singleton.mp hf
    constructor
    · intro pk service key hlabel
      rw [hlabel] at hstep
      exact (hstep.openPart.congr hx).keyed
    · intro i key hlabel hthere
      rw [hlabel] at hstep
      obtain ⟨pk, part, todo, archive, hphase, rfl, rfl⟩ := hstep.bucketDelete
      have hlawful := h.lawful f.thread
      rw [hphase] at hlawful
      obtain ⟨⟨p, hp, rfl⟩, hfine⟩ := hlawful part List.mem_cons_self
      refine ⟨p, hp, ?_⟩
      obtain ⟨bytes, hread⟩ := Option.ne_none_iff_exists'.mp hthere
      have hname : sliceKey part ≠ "" := h.named _ (ExportDb.mem_bucket hread)
      cases hpath : part.row.bucketPath with
      | none => exact absurd (by rw [sliceKey, hpath]; rfl) hname
      | some key =>
          have hslice : sliceKey part = key := by rw [sliceKey, hpath]; rfl
          rw [hslice] at hname ⊢
          exact (hfine key hpath hname).keyed

/-- **Every key passes the contract**, in every run of a deployment with one prefix setting in
which a file found in place belongs to a path that passes it: each key an assembly opens, and
each object it deletes. -/
theorem keys_contract (hs : Sound start) (hnamed : ∀ o ∈ start.bucket, o.1 ≠ "")
    (hmay : ∀ k op, may k op → op.outside = true)
    (hx : ∀ k, (calls k).1.bucketPrefix = x.bucketPrefix)
    (hrun : Pool.Runs may (callers calls) start tr P db) (hcontract : ∀ e ∈ tr, Contracted x e) :
    ∀ e ∈ tr, KeysHold x e := by
  obtain ⟨phases, -, hruled, -⟩ := runs_invariant hs hmay
    (J := fun past phases db => Ruled x past phases db) (H := fun _ e => Contracted x e)
    (fun _ _ _ _ hexcl h hstep hH => h.step hexcl hstep (hx _) hH)
    ⟨fun _ => trivial, hnamed, fun e h => absurd h List.not_mem_nil⟩ hrun
    fun pre e post hcut => hcontract e (by simp [hcut])
  exact hruled.keys

theorem keys_contract_raced : (∃ e ∈ raceRun.1, e.label = .openPart 0 "media" mediaKey) ∧
    (∃ e ∈ raceRun.1, e.label = .bucketDelete 1 mediaKey) ∧ ∀ e ∈ raceRun.1, KeysHold exporter e :=
  ⟨by decide +kernel, by decide +kernel, keys_contract (sound_of_empty rfl rfl rfl)
    (by decide +kernel) (fun _ _ h => h) race_bucketPrefix
    (Pool.runs_schedule (fun _ op => op.outside = true) raceOrder (callers race) uploaded)
    (by decide +kernel)⟩

/-- A row from before the rule: its path is another request's, and a file is in its place. -/
def beforeRule : ExportDb where
  requests := ⟨[{
    userId := "u1"
    status := .processing
    correlationId := some 0
    expectedServices := ["media"]
    createdAt := 0
    deadline := 0 }]⟩
  parts := ⟨[{
    request := 0
    service := "media"
    status := .done
    bucketPath := some "gdpr/1/media/export.json" }]⟩
  staging := [⟨0, exportPath "media", [1]⟩]
  bucket := [("gdpr/1/media/export.json", [7])]

theorem sound_beforeRule : Sound beforeRule where
  blank pk r hr hs := by
    have hr : beforeRule.requests.rows[pk]? = some r := hr
    obtain ⟨rfl, rfl⟩ : pk = 0 ∧ _ = r := by
      rcases pk with _ | pk
      · exact ⟨rfl, Option.some.inj hr⟩
      · exact absurd hr (by simp [beforeRule])
    exact ⟨rfl, rfl, rfl, rfl⟩
  announced _ h := absurd h List.not_mem_nil
  once := List.nodup_nil
  enrolled i p hp := by
    have hp : beforeRule.parts.rows[i]? = some p := hp
    obtain ⟨rfl, rfl⟩ : i = 0 ∧ _ = p := by
      rcases i with _ | i
      · exact ⟨rfl, Option.some.inj hp⟩
      · exact absurd hp (by simp [beforeRule])
    exact ⟨_, rfl, List.mem_singleton_self _⟩
  unique i j p q hp hq _ _ := by
    have hi := Table.get?_lt hp
    have hj := Table.get?_lt hq
    change i < 1 at hi
    change j < 1 at hj
    omega

/-- The hourly sweep. -/
def sweeping : Unit → Exporter × Caller := fun _ => (exporter, .sweep)

def sweepingRun : List (Pool.Event Unit ExportOp ExportDb) ×
    Pool ExportOp ExportDb ExportError Unit Unit × ExportDb :=
  Pool.schedule (List.replicate 20 ()) (callers sweeping) beforeRule

/-- The object of the other request is deleted. -/
theorem foreign_key_deleted : ¬ ∀ (calls : Unit → Exporter × Caller) (may : Unit → ExportOp → Prop)
    (start db : ExportDb) (tr : List (Pool.Event Unit ExportOp ExportDb))
    (P : Pool ExportOp ExportDb ExportError Unit Unit) (x : Exporter), Sound start →
    (∀ o ∈ start.bucket, o.1 ≠ "") → (∀ k op, may k op → op.outside = true) →
    (∀ k, (calls k).1.bucketPrefix = x.bucketPrefix) →
    Pool.Runs may (callers calls) start tr P db → ∀ e ∈ tr, KeysHold x e := by
  intro hclaim
  have hrun := Pool.runs_schedule (fun _ op => op.outside = true) (List.replicate 20 ())
    (callers sweeping) beforeRule
  have hdeleted : ∃ e ∈ sweepingRun.1, e.label = .bucketDelete 0 "gdpr/1/media/export.json" ∧
      e.before.readObject "gdpr/1/media/export.json" ≠ none ∧
      (e.before.requests.get? 0).map (·.correlationId) = some (some 0) ∧
      (e.before.parts.get? 0).map (·.request) = some 0 := by
    decide +kernel
  obtain ⟨e, he, hlabel, hthere, hid, hpart⟩ := hdeleted
  obtain ⟨p, hp, r, hr, hsafe, -⟩ := (hclaim _ _ _ _ _ _ exporter sound_beforeRule
    (by decide +kernel) (fun _ _ h => h) (fun _ => rfl) hrun e he).2 0 _ hlabel hthere
  rw [hp] at hpart
  have hreq : p.request = 0 := Option.some.inj hpart
  rw [hreq] at hr
  rw [hr] at hid
  have hid : r.correlationId = some 0 := Option.some.inj hid
  rw [hid] at hsafe
  exact absurd hsafe (by decide +kernel)

end StapelGdpr.Export
