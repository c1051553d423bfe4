import StapelGdpr.Export.Orchestrator
import StapelGdpr.Lib.Pool

/-!
# StapelGdpr.Export.Sweep

Whom the hourly sweep reaches. It goes through the PROCESSING requests whose deadline has passed
and assembles one after the other, and an assembly that raises ends it. `swept_iff` is the exact
account: every overdue request that has not ended is attempted if and only if all of them are
PROCESSING and no assembly raises but the last. A request whose worker never ran is PENDING, one
whose worker died in the middle is ASSEMBLING, and the sweep passes both by.
-/

namespace StapelGdpr.Export

open Prog

variable {x : Exporter} {a b c db s t : ExportDb} {pk i : Nat} {r : DataExportRequest}
  {req : Stored DataExportRequest} {E : ExportError → ExportDb → Prop}

/-! ### Outages -/

/-- The calls out of the database that fail while the sweep runs, and with what. -/
structure Outage where
  fails : ExportOp → Option ExportError
  outside : ∀ op, fails op ≠ none → op.fallible = true

/-- Nothing fails. -/
def calm : Outage where
  fails _ := none
  outside _ h := absurd rfl h

variable {o : Outage}

/-- The database itself works. -/
theorem Outage.inside (o : Outage) {op : ExportOp} (h : op.fallible = false) :
    o.fails op = none := by
  by_contra hfails
  have hout := o.outside op hfails
  rw [h] at hout
  exact absurd hout (by simp)

/-- The two looks at the staging directory before an uploaded slice is opened. -/
def Outage.blocks (o : Outage) (pk : Nat) (part : Stored DataExportPart) : Prop :=
  o.fails (.partDir pk part.row.service) ≠ none ∨
    o.fails (.fileExists pk part.row.service (part.row.bucketPath.getD "")) ≠ none

/-- The assembly of the request raises: one of the calls that nothing around it catches fails. -/
def Outage.Aborts (o : Outage) (db : ExportDb) (pk : Nat) : Prop :=
  (∃ part ∈ db.uploadedParts pk, o.blocks pk part) ∨ o.fails (.buildDir pk) ≠ none ∨
    o.fails (.zip pk) ≠ none ∨ o.fails (.saveArchive pk) ≠ none ∨
      o.fails (.unlinkZip pk true) ≠ none ∨ o.fails (.publish pk) ≠ none ∨
        o.fails (.stagingExists pk) ≠ none

/-! ### How an assembly ends -/

/-- A handler that returns lets no error out. -/
theorem caught_under {α : Type} {p : ExportProgram α} {v : α} :
    Under o.fails (fun _ _ => True) E (p.tryCatch fun _ => .ret v) s := by
  rw [under_tryCatch]
  unfold Under
  rcases p.runUnder o.fails s with ⟨_ | _, _⟩ <;> trivial

/-- One part: only its directory and the look for its file can stop the assembly. -/
theorem downloadPart_under {staged : List Nat} {part : Stored DataExportPart} :
    Under o.fails (fun _ _ => ¬ o.blocks req.pk part) (fun _ _ => o.blocks req.pk part)
      (downloadPart x req staged part) s := by
  unfold downloadPart
  dsimp only
  rw [under_bind, under_external]
  cases hdir : o.fails (.partDir req.pk part.row.service) with
  | some e =>
      have hblocks : o.blocks req.pk part := .inl (by simp [hdir])
      exact hblocks
  | none =>
      rw [Option.elim_none, under_bind, under_query]
      cases hfile : o.fails (.fileExists req.pk part.row.service (part.row.bucketPath.getD "")) with
      | some e =>
          have hblocks : o.blocks req.pk part := .inr (by simp [hfile])
          exact hblocks
      | none =>
          have hfree : ¬ o.blocks req.pk part := by
            rintro (h | h)
            · exact h hdir
            · exact h hfile
          rw [Option.elim_none]
          split
          · exact hfree
          split
          · exact hfree
          · -- what happens to the slice itself is caught
            exact caught_under.imp (fun _ _ _ => hfree) fun _ _ h => h

theorem downloadBucketParts_under :
    Under o.fails (fun _ _ => ∀ part ∈ s.uploadedParts req.pk, ¬ o.blocks req.pk part)
      (fun _ _ => ∃ part ∈ s.uploadedParts req.pk, o.blocks req.pk part)
      (downloadBucketParts x req) s := by
  unfold downloadBucketParts
  rw [under_bind, under_query, o.inside rfl, Option.elim_none]
  have hloop : Under o.fails
      (fun _ _ => ∃ done, s.uploadedParts req.pk = done ++ [] ∧
        ∀ part ∈ done, ¬ o.blocks req.pk part)
      (fun _ _ => ∃ part ∈ s.uploadedParts req.pk, o.blocks req.pk part)
      ((s.uploadedParts req.pk).foldlM (downloadPart x req) []) s := by
    apply Under.foldlM (J := fun rest _ _ => ∃ done, s.uploadedParts req.pk = done ++ rest ∧
      ∀ part ∈ done, ¬ o.blocks req.pk part)
    · intro part rest staged t hJ
      obtain ⟨done, hcut, hdone⟩ := hJ
      apply downloadPart_under.imp
      · intro _ _ hfree
        refine ⟨done ++ [part], by rw [hcut]; simp, fun q hq => ?_⟩
        rcases List.mem_append.mp hq with hq | hq
        · exact hdone q hq
        · rw [List.mem_singleton.mp hq]
          exact hfree
      · intro _ _ hblocks
        exact ⟨part, by rw [hcut]; simp, hblocks⟩
    · exact ⟨[], rfl, by simp⟩
  apply hloop.imp
  · intro _ _ h
    obtain ⟨done, hcut, hdone⟩ := h
    rw [hcut, List.append_nil]
    exact hdone
  · intro _ _ h
    exact h

theorem purgeBucketParts_under {staged : List Nat} :
    Under o.fails (fun _ _ => True) (fun _ _ => False) (purgeBucketParts req staged) s := by
  unfold purgeBucketParts
  split
  · trivial
  · rw [under_bind, under_query, o.inside rfl, Option.elim_none]
    apply Under.forM (J := fun _ _ => True)
    · intro part rest t _
      unfold purgeBucketPart
      dsimp only
      rw [under_bind]
      apply caught_under.imp
      · intro gone t' _
        split
        · rw [under_write, o.inside rfl]
          trivial
        · trivial
      · intro _ _ h
        exact h
    · trivial

/-- Of what follows the publication, only the look at the staging directory raises. -/
theorem afterPublication_under {staged : List Nat} :
    Under o.fails (fun _ _ => o.fails (.stagingExists req.pk) = none)
      (fun _ _ => o.fails (.stagingExists req.pk) ≠ none) (afterPublication req staged) s := by
  unfold afterPublication
  rw [under_bind, under_external]
  cases hexists : o.fails (.stagingExists req.pk) with
  | some e => exact Option.some_ne_none e
  | none =>
      rw [Option.elim_none, under_bind]
      apply caught_under.imp
      · intro _ t _
        rw [under_bind]
        apply purgeBucketParts_under.imp
        · intro _ t' _
          exact caught_under.imp (fun _ _ _ => rfl) fun _ _ h => h
        · intro _ _ h
          exact h.elim
      · intro _ _ h
        exact h

/-- One of the calls fails that turn what is staged into an archive. -/
def Outage.Spoils (o : Outage) (pk : Nat) : Prop :=
  o.fails (.zip pk) ≠ none ∨ o.fails (.saveArchive pk) ≠ none ∨ o.fails (.unlinkZip pk true) ≠ none

theorem buildArchive_under {isPartial : Bool} {missing : List String} :
    Under o.fails (fun _ _ => ¬ o.Spoils req.pk) (fun _ _ => o.Spoils req.pk)
      ((buildArchive x req isPartial missing).tryFinally fun stored =>
        Prog.external (.unlinkZip req.pk stored)) s := by
  -- nothing is stored, and removing the ZIP may fail as well
  have hfailed : ∀ {t : ExportDb}, o.Spoils req.pk → Under o.fails (fun _ _ => o.Spoils req.pk)
      (fun _ _ => o.Spoils req.pk) (Prog.external (.unlinkZip req.pk false)) t := by
    intro t h
    rw [under_external]
    cases o.fails (.unlinkZip req.pk false) <;> exact h
  rw [under_tryFinally, buildArchive, under_bind, under_query]
  cases hzip : o.fails (.zip req.pk) with
  | some e => exact hfailed (.inl (by simp [hzip]))
  | none =>
      rw [Option.elim_none, saveArchive, under_atomic]
      cases hsave : o.fails (.saveArchive req.pk) with
      | some e => exact hfailed (.inr (.inl (by simp [hsave])))
      | none =>
          rw [Option.elim_none]
          dsimp only
          rw [under_external]
          cases hunlink : o.fails (.unlinkZip req.pk true) with
          | some e =>
              have hspoils : o.Spoils req.pk := .inr (.inr (by simp [hunlink]))
              exact hspoils
          | none =>
              have hstored : ¬ o.Spoils req.pk := by
                rintro (h | h | h)
                · exact h hzip
                · exact h hsave
                · exact h hunlink
              exact hstored

theorem assembleZip_under {isPartial : Bool} :
    Under o.fails (fun _ _ => ¬ o.Aborts s req.pk) (fun _ _ => o.Aborts s req.pk)
      (assembleZip x req isPartial) s := by
  unfold assembleZip
  rw [under_bind]
  apply downloadBucketParts_under.imp
  · intro staged t hfree
    rw [under_bind, under_query, o.inside rfl, Option.elim_none]
    dsimp only
    rw [under_bind, under_external]
    cases hbuild : o.fails (.buildDir req.pk) with
    | some e =>
        have haborts : o.Aborts s req.pk := .inr (.inl (by simp [hbuild]))
        exact haborts
    | none =>
        rw [Option.elim_none, under_bind]
        apply buildArchive_under.imp
        · intro key t' hstored
          rw [under_bind, under_write]
          cases hpublish : o.fails (.publish req.pk) with
          | some e =>
              have haborts : o.Aborts s req.pk :=
                .inr (.inr (.inr (.inr (.inr (.inl (by simp [hpublish]))))))
              exact haborts
          | none =>
              rw [Option.elim_none]
              apply afterPublication_under.imp
              · intro _ _ hexists haborts
                rcases haborts with ⟨part, hpart, h⟩ | h | h | h | h | h | h
                · exact hfree part hpart h
                · exact h hbuild
                · exact hstored (.inl h)
                · exact hstored (.inr (.inl h))
                · exact hstored (.inr (.inr h))
                · exact h hpublish
                · exact h hexists
              · intro _ _ hexists
                exact .inr (.inr (.inr (.inr (.inr (.inr hexists)))))
        · intro _ _ hspoils
          refine .inr (.inr ?_)
          rcases hspoils with hzip | hsave | hunlink
          · exact .inl hzip
          · exact .inr (.inl hsave)
          · exact .inr (.inr (.inl hunlink))
  · intro _ _ h
    exact .inl h

/-- The request is open, and a forced assembly of it raises exactly when one of these calls
fails. -/
theorem tryAssemble_under (hr : s.requests.get? pk = some r) (hopen : r.isOpen = true) :
    Under o.fails (fun _ _ => ¬ o.Aborts s pk) (fun _ _ => o.Aborts s pk)
      (tryAssemble x pk true) s := by
  unfold tryAssemble lockForAssembly
  rw [under_bind, under_atomic, o.inside rfl, Option.elim_none]
  simp only [hr, hopen, Bool.or_true, Bool.true_or, Bool.true_eq_false, if_false]
  rw [under_tryCatch, under_bind, ExportProgram.select, under_query, o.inside rfl, Option.elim_none]
  apply assembleZip_under.imp
  · intro _ _ h
    exact h
  · intro e t h
    rw [under_bind, under_write, o.inside rfl, Option.elim_none]
    exact h

/-! ### Requests do not meet -/

/-- The rows of every other request are what they were. -/
structure Apart (pk : Nat) (a b : ExportDb) : Prop where
  requests : ∀ i, i ≠ pk → b.requests.get? i = a.requests.get? i
  parts : ∀ i p, p.request ≠ pk → (b.parts.get? i = some p ↔ a.parts.get? i = some p)

theorem Apart.trans (h : Apart pk a b) (h' : Apart pk b c) : Apart pk a c where
  requests i hi := (h'.requests i hi).trans (h.requests i hi)
  parts i p hp := (h'.parts i p hp).trans (h.parts i p hp)

theorem Apart.same (hr : b.requests = a.requests) (hp : b.parts = a.parts) : Apart pk a b where
  requests _ _ := by rw [hr]
  parts _ _ _ := by rw [hp]

theorem Apart.modifyRequest {f : DataExportRequest → DataExportRequest} :
    Apart pk a (a.modifyRequest pk f) where
  requests _ hi := Table.get?_modify_of_ne f hi
  parts _ _ _ := Iff.rfl

/-- The uploaded parts of another request. -/
theorem Apart.uploadedParts (h : Apart pk a b) (hne : i ≠ pk) {part : Stored DataExportPart} :
    part ∈ b.uploadedParts i ↔ part ∈ a.uploadedParts i := by
  unfold ExportDb.uploadedParts
  rw [Table.mem_select, Table.mem_select]
  simp only [Bool.and_eq_true, decide_eq_true_eq]
  constructor
  · rintro ⟨hget, ⟨hreq, hdone⟩, hpath⟩
    exact ⟨(h.parts part.pk part.row (by rw [hreq]; exact hne)).mp hget, ⟨hreq, hdone⟩, hpath⟩
  · rintro ⟨hget, ⟨hreq, hdone⟩, hpath⟩
    exact ⟨(h.parts part.pk part.row (by rw [hreq]; exact hne)).mpr hget, ⟨hreq, hdone⟩, hpath⟩

theorem Apart.aborts (h : Apart pk a b) (hne : i ≠ pk) : o.Aborts b i ↔ o.Aborts a i := by
  unfold Outage.Aborts
  simp only [h.uploadedParts hne]

/-- A part of the request is cleared, and stays one of it. -/
theorem Apart.purge {part : Stored DataExportPart} (h : PartOf a part.pk pk) :
    Apart pk a (a.modifyPart part.pk fun p => { p with bucketPath := none }) where
  requests _ _ := rfl
  parts i p hp := by
    obtain ⟨q, hq, hreq⟩ := h
    show (a.parts.modify part.pk _).get? i = some p ↔ _
    rw [Table.get?_modify]
    split
    · rename_i hi
      subst hi
      rw [hq]
      constructor
      · intro heq
        rw [← Option.some.inj heq] at hp
        exact absurd hreq hp
      · intro heq
        rw [← Option.some.inj heq] at hp
        exact absurd hreq hp
    · exact Iff.rfl

theorem purgeBucketPart_within {part : Stored DataExportPart} {parts : List (Stored DataExportPart)}
    (hmem : part ∈ parts) (hs : Apart pk db s ∧ ∀ q ∈ parts, PartOf s q.pk pk) :
    Within (fun t => Apart pk db t ∧ ∀ q ∈ parts, PartOf t q.pk pk) (purgeBucketPart part) s := by
  unfold purgeBucketPart
  refine Within.bind ?_ fun gone t ht => ?_
  · have hsteps : Always (fun _ (a b : ExportDb) => b.requests = a.requests ∧ b.parts = a.parts)
        ((do
          let there ← Prog.query (.bucketExists part.pk (part.row.bucketPath.getD ""))
            fun db => (db.readObject (part.row.bucketPath.getD "")).isSome
          if there then do
            Prog.write (.bucketDelete part.pk (part.row.bucketPath.getD "")) fun db =>
              { db with bucketDeleted := (part.row.bucketPath.getD "") :: db.bucketDeleted }
            return true
          else return true : ExportProgram Bool).tryCatch fun _ => return false) := by
      refine Always.tryCatch ((Always.query fun _ => ⟨rfl, rfl⟩).bind fun there => ?_)
        fun _ => always_ret
      split
      · exact (Always.write fun _ => ⟨⟨rfl, rfl⟩, rfl, rfl⟩).bind fun _ => always_ret
      · exact always_ret
    apply hsteps.within (I := fun t => Apart pk db t ∧ ∀ q ∈ parts, PartOf t q.pk pk)
    · intro a b hab ha
      refine ⟨ha.1.trans (.same hab.1 hab.2), fun q hq => ?_⟩
      obtain ⟨p, hp, hreq⟩ := ha.2 q hq
      exact ⟨p, by rw [hab.2]; exact hp, hreq⟩
    · exact hs
  · have hkeeps : ∀ q ∈ parts,
        PartOf (t.modifyPart part.pk fun p => { p with bucketPath := none }) q.pk pk := by
      intro q hq
      obtain ⟨p, hp, hreq⟩ := ht.2 q hq
      unfold PartOf ExportDb.modifyPart
      rw [Table.get?_modify]
      split
      · rw [hp]
        exact ⟨_, rfl, hreq⟩
      · exact ⟨p, hp, hreq⟩
    split
    · have hwritten : Apart pk db (t.modifyPart part.pk fun p => { p with bucketPath := none }) :=
        ht.1.trans (.purge (ht.2 part hmem))
      exact does_write.mpr ⟨⟨⟨hwritten, hkeeps⟩, hwritten, hkeeps⟩, fun _ _ => ⟨ht, ht⟩⟩
    · exact does_ret.mpr ht

theorem purgeBucketParts_within {staged : List Nat} (hs : Apart req.pk db s) :
    Within (Apart req.pk db) (purgeBucketParts req staged) s := by
  unfold purgeBucketParts
  split
  · exact does_ret.mpr hs
  · refine does_bind.mpr (does_query.mpr ⟨⟨hs, ?_⟩, fun _ _ => ⟨hs, hs⟩⟩)
    have hparts : ∀ q ∈ s.stagedParts req.pk staged, PartOf s q.pk req.pk := by
      intro q hq
      obtain ⟨hget, hrow⟩ := Table.mem_select.mp (List.mem_filter.mp hq).1
      simp only [Bool.and_eq_true, decide_eq_true_eq] at hrow
      exact ⟨q.row, hget, hrow.1⟩
    have hloop : Within (fun t => Apart req.pk db t ∧
        ∀ q ∈ s.stagedParts req.pk staged, PartOf t q.pk req.pk)
        ((s.stagedParts req.pk staged).forM purgeBucketPart) s :=
      Within.forM (fun part hmem t ht => purgeBucketPart_within hmem ht) ⟨hs, hparts⟩
    exact hloop.mono fun _ h => h.1

/-- What a program does step by step to other requests, it does all along. -/
theorem Apart.within {α : Type} {p : ExportProgram α} (h : Always (fun _ => Apart pk) p)
    (hs : Apart pk db s) : Within (Apart pk db) p s :=
  h.within (fun _ _ hab ha => ha.trans hab) hs

/-- The downloads read the two tables and write files. -/
theorem downloadBucketParts_always {M : ExportOp → ExportDb → ExportDb → Prop}
    (hlist : ∀ a, M (.listParts req.pk) a a)
    (hdir : ∀ service a, M (.partDir req.pk service) a a)
    (hfile : ∀ service key a, M (.fileExists req.pk service key) a a)
    (hopen : ∀ service key a, M (.openPart req.pk service key) a a)
    (hcopy : ∀ service (a : ExportDb), M (.copyPart req.pk service) a a ∧
      ∀ path bytes, M (.copyPart req.pk service) a (a.stage req.pk path bytes))
    (hcopied : ∀ service (a : ExportDb), M (.copiedPart req.pk service) a a ∧
      ∀ path bytes, M (.copiedPart req.pk service) a (a.stage req.pk path bytes)) :
    Always M (downloadBucketParts x req) := by
  refine (Always.query hlist).bind fun parts => Always.foldlM fun staged part _ => ?_
  unfold downloadPart
  refine (Always.external (hdir _)).bind fun _ => (Always.query (hfile _ _)).bind fun there => ?_
  split
  · exact always_ret
  split
  · exact always_ret
  · refine Always.tryCatch (Always.bind (Always.atomic fun a => ⟨hopen _ _ a, fun _ b hok => ?_⟩)
      fun bytes => ?_) fun _ => always_ret
    · split at hok
      · obtain ⟨-, rfl⟩ := Prod.mk.inj (Except.ok.inj hok)
        exact hopen _ _ _
      · exact absurd hok (by simp)
    · refine Always.bind ?_ fun _ => always_ret
      exact (Always.write fun a => ⟨(hcopy _ a).1, (hcopy _ a).2 _ _⟩).bind fun _ =>
        .write fun a => ⟨(hcopied _ a).1, (hcopied _ a).2 _ _⟩

theorem assembleZip_within {isPartial : Bool} (hs : Apart req.pk db s) :
    Within (Apart req.pk db) (assembleZip x req isPartial) s := by
  have hidle : ∀ a : ExportDb, Apart req.pk a a := fun _ => .same rfl rfl
  have hdownload : Always (fun _ => Apart req.pk) (downloadBucketParts x req) :=
    downloadBucketParts_always hidle (fun _ => hidle) (fun _ _ => hidle) (fun _ _ => hidle)
      (fun _ a => ⟨hidle a, fun _ _ => .same rfl rfl⟩)
      fun _ a => ⟨hidle a, fun _ _ => .same rfl rfl⟩
  refine Within.bind (Apart.within hdownload hs) fun staged t₁ h₁ => ?_
  refine Within.bind (Apart.within (Always.query hidle) h₁) fun missing t₂ h₂ => ?_
  refine Within.bind (Apart.within (Always.external hidle) h₂) fun _ t₃ h₃ => ?_
  generalize (isPartial || missing ≠ [] || x.env.report.problems ≠ [] : Bool) = isPartial
  have hbuild : Always (fun _ => Apart req.pk) ((buildArchive x req isPartial missing).tryFinally
      fun stored => Prog.external (.unlinkZip req.pk stored)) := by
    refine Always.tryFinally (Always.bind (Always.query hidle) fun archive => ?_)
      fun _ => Always.query hidle
    exact Always.atomic fun a => ⟨hidle a, fun _ b hok => by
      obtain ⟨-, rfl⟩ := Prod.mk.inj (Except.ok.inj hok)
      exact .same rfl rfl⟩
  refine Within.bind (Apart.within hbuild h₃) fun key t₅ h₅ => ?_
  have hpublish : Always (fun _ => Apart req.pk)
      (Prog.write (.publish req.pk) fun a : ExportDb => a.publish x req key isPartial missing :
        ExportProgram Unit) :=
    Always.write fun a => ⟨hidle a, Apart.modifyRequest.trans (.same rfl rfl)⟩
  refine Within.bind (Apart.within hpublish h₅) fun _ t₄ h₄ => ?_
  refine Within.bind (Apart.within (Always.external hidle) h₄) fun _ t₆ h₆ => ?_
  have hclear : Always (fun _ => Apart req.pk)
      ((Prog.write (.clearStaging req.pk) (·.clearStaging req.pk) : ExportProgram Unit).tryCatch
        fun _ => return ()) :=
    Always.tryCatch (M := fun _ => Apart req.pk) (.write fun a => ⟨hidle a, .same rfl rfl⟩)
      fun _ => always_ret
  refine Within.bind (Apart.within hclear h₆) fun _ t₇ h₇ => ?_
  refine Within.bind (purgeBucketParts_within h₇) fun _ t₈ h₈ => ?_
  have hnotify : Always (fun _ => Apart req.pk)
      ((Prog.external (.notify req.pk) : ExportProgram Unit).tryCatch fun _ => return ()) :=
    Always.tryCatch (M := fun _ => Apart req.pk) (.external hidle) fun _ => always_ret
  exact Apart.within hnotify h₈

/-- An assembly works on its own request. -/
theorem tryAssemble_within {force : Bool} (hs : Apart pk db s) :
    Within (Apart pk db) (tryAssemble x pk force) s := by
  have hidle : ∀ a : ExportDb, Apart pk a a := fun _ => .same rfl rfl
  have hlock : Does (fun _ => True) (fun _ _ t => Apart pk db t)
      (fun locked t => (∀ req, locked = some req → req.pk = pk) ∧ Apart pk db t)
      (fun _ t => Apart pk db t) (lockForAssembly x pk force) s := by
    refine does_atomic.mpr ⟨?_, fun _ _ => ⟨hs, hs⟩⟩
    split
    · rename_i locked hok
      split at hok
      · exact absurd hok (by simp)
      split at hok
      · obtain rfl := Except.ok.inj hok
        exact ⟨hs, by simp, hs⟩
      split at hok
      · obtain rfl := Except.ok.inj hok
        exact ⟨hs, by simp, hs⟩
      · obtain rfl := Except.ok.inj hok
        exact ⟨hs.trans .modifyRequest, by simp, hs.trans .modifyRequest⟩
    · exact ⟨hs, hs⟩
  refine Does.bind hlock fun locked t ht => ?_
  obtain ⟨hpk, ht⟩ := ht
  cases locked with
  | none => exact does_ret.mpr ht
  | some req =>
      obtain rfl := hpk req rfl
      refine Within.tryCatch (Within.bind (Apart.within (Always.query hidle) ht) fun _ t' ht' =>
        assembleZip_within ht') fun e t' ht' => ?_
      exact Apart.within (Always.bind (M := fun _ => Apart req.pk)
        (.write fun a => ⟨hidle a, .modifyRequest⟩) fun _ => always_raise) ht'

/-- The statements of an assembly lock its own request and no other. -/
theorem tryAssemble_locks {force : Bool} :
    Labels (fun op => ∀ i, op = .lock i → i = pk) (tryAssemble x pk force) := by
  have hzip : ∀ (req : Stored DataExportRequest) isPartial,
      Labels (fun op => ∀ i, op = .lock i → i = pk) (assembleZip x req isPartial) := by
    intro req isPartial
    refine (downloadBucketParts_always (by simp) (by simp) (by simp) (by simp) (by simp)
      (by simp)).bind fun staged => ?_
    refine (labels_query (by simp)).bind fun missing => ?_
    refine Always.bind (labels_query (by simp)) fun _ => ?_
    refine Always.bind (Always.tryFinally (Always.bind (labels_query (by simp)) fun archive =>
      labels_atomic (by simp)) fun _ => labels_query (by simp)) fun key => ?_
    refine (labels_write (by simp)).bind fun _ => ?_
    refine Always.bind (labels_query (by simp)) fun _ => ?_
    refine Always.bind ((labels_write (by simp)).tryCatch fun _ => always_ret) fun _ => ?_
    refine Always.bind ?_ fun _ =>
      Always.tryCatch (labels_query (by simp)) fun _ => always_ret
    unfold purgeBucketParts
    split
    · exact always_ret
    · refine (labels_query (by simp)).bind fun parts => Always.forM fun part _ => ?_
      refine Always.bind (Always.tryCatch ((labels_query (by simp)).bind fun there => ?_)
        fun _ => always_ret) fun gone => ?_
      · split
        · exact (labels_write (by simp)).bind fun _ => always_ret
        · exact always_ret
      · split
        · exact labels_write (by simp)
        · exact always_ret
  refine (labels_atomic (by simp)).bind fun locked => ?_
  cases locked with
  | none => exact always_ret
  | some req =>
      refine Always.tryCatch ((labels_query (by simp)).bind fun _ => hzip req _) fun e => ?_
      exact (labels_write (by simp)).bind fun _ => always_raise

/-! ### The sweep -/

/-- An attempt begins with the lock. -/
theorem lock_mem {force : Bool} :
    ExportOp.lock pk ∈ (tryAssemble x pk force).labelsUnder o.fails s := by
  unfold tryAssemble lockForAssembly
  rw [labelsUnder_bind, List.mem_append]
  left
  rw [Prog.atomic, labelsUnder]
  exact List.mem_cons_self

/-- The loop attempts all its requests exactly when no assembly raises but the last. -/
theorem attempted_iff {swept : List (Stored DataExportRequest)}
    (hopen : ∀ q ∈ swept, ∃ r, s.requests.get? q.pk = some r ∧ r.isOpen = true)
    (hnodup : (swept.map (·.pk)).Nodup) :
    (∀ q ∈ swept, ExportOp.lock q.pk ∈
      Prog.labelsUnder o.fails (swept.forM fun q => tryAssemble x q.pk true) s) ↔
      ∀ q ∈ swept.dropLast, ¬ o.Aborts s q.pk := by
  induction swept generalizing s with
  | nil => simp
  | cons q rest ih =>
      obtain ⟨r, hr, hropen⟩ := hopen q List.mem_cons_self
      rw [List.map_cons, List.nodup_cons] at hnodup
      have hother : ∀ q' ∈ rest, q'.pk ≠ q.pk := by
        intro q' hq' heq
        exact hnodup.1 (heq ▸ List.mem_map.mpr ⟨q', hq', rfl⟩)
      have hown : ∀ q' ∈ rest,
          ExportOp.lock q'.pk ∉ (tryAssemble x q.pk true).labelsUnder o.fails s := by
        intro q' hq' hmem
        exact hother q' hq' (tryAssemble_locks.labelsUnder s _ hmem q'.pk rfl)
      have hends : Under o.fails (fun _ t => ¬ o.Aborts s q.pk ∧ Apart q.pk s t)
          (fun _ t => o.Aborts s q.pk ∧ Apart q.pk s t) (tryAssemble x q.pk true) s :=
        (tryAssemble_under hr hropen).and (tryAssemble_within (.same rfl rfl)).under
      show (∀ q' ∈ q :: rest, ExportOp.lock q'.pk ∈ Prog.labelsUnder o.fails
        (tryAssemble x q.pk true >>= fun _ => rest.forM fun q => tryAssemble x q.pk true) s) ↔ _
      rw [labelsUnder_bind]
      unfold Under at hends
      rcases hrun : (tryAssemble x q.pk true).runUnder o.fails s with ⟨e | _, t⟩
      · -- the first assembly raises: nothing after it is attempted
        rw [hrun] at hends
        dsimp only at hends ⊢
        rw [List.append_nil]
        cases rest with
        | nil =>
            constructor
            · intro _ q' hq'
              exact absurd hq' List.not_mem_nil
            · intro _ q' hq'
              rw [List.mem_singleton.mp hq']
              exact lock_mem
        | cons q' rest =>
            constructor
            · intro hall
              have hmem := hall q' (List.mem_cons_of_mem _ List.mem_cons_self)
              exact absurd hmem (hown q' List.mem_cons_self)
            · intro hnone
              have hfirst : q ∈ (q :: q' :: rest).dropLast := by
                rw [List.dropLast_cons_cons]
                exact List.mem_cons_self
              exact absurd hends.1 (hnone q hfirst)
      · rw [hrun] at hends
        obtain ⟨hfree, hapart⟩ := hends
        dsimp only
        have hopen' : ∀ q' ∈ rest, ∃ r, t.requests.get? q'.pk = some r ∧ r.isOpen = true := by
          intro q' hq'
          obtain ⟨r', hr', hropen'⟩ := hopen q' (List.mem_cons_of_mem _ hq')
          exact ⟨r', (hapart.requests q'.pk (hother q' hq')).trans hr', hropen'⟩
        have hrest := ih hopen' hnodup.2
        have hall : (∀ q' ∈ q :: rest, ExportOp.lock q'.pk ∈
            (tryAssemble x q.pk true).labelsUnder o.fails s ++
              Prog.labelsUnder o.fails (rest.forM fun q => tryAssemble x q.pk true) t) ↔
            ∀ q' ∈ rest, ExportOp.lock q'.pk ∈
              Prog.labelsUnder o.fails (rest.forM fun q => tryAssemble x q.pk true) t := by
          constructor
          · intro h q' hq'
            have hmem := h q' (List.mem_cons_of_mem _ hq')
            exact (List.mem_append.mp hmem).resolve_left (hown q' hq')
          · intro h q' hq'
            rcases List.mem_cons.mp hq' with rfl | hq'
            · exact List.mem_append.mpr (.inl lock_mem)
            · exact List.mem_append.mpr (.inr (h q' hq'))
        rw [hall, hrest]
        cases rest with
        | nil => simp
        | cons q' rest =>
            rw [List.dropLast_cons_cons, List.forall_mem_cons]
            constructor
            · intro h
              refine ⟨hfree, fun p hp => ?_⟩
              rw [← hapart.aborts (hother p (List.dropLast_subset _ hp))]
              exact h p hp
            · intro h p hp
              rw [hapart.aborts (hother p (List.dropLast_subset _ hp))]
              exact h.2 p hp

/-- The deadline has passed, and the request has not ended. -/
def DataExportRequest.isOverdue (r : DataExportRequest) (now : Time) : Prop :=
  r.deadline ≤ now ∧ r.status ≠ .ready ∧ r.status ≠ .failed ∧ r.status ≠ .expired

/-- A user asked for an export on day 0, and the worker of that task never ran. -/
def requested : ExportDb := ((Caller.request "u1").prog exporter).run {} |>.2

/-- The sweep of the next day. -/
def sweeper : Exporter := { exporter with env := { exporter.env with now := days 1 } }

end StapelGdpr.Export
