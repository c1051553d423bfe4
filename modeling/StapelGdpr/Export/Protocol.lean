import StapelGdpr.Export.Machine

/-!
# StapelGdpr.Export.Protocol

Every call of the export side follows the protocol of `StapelGdpr.Export.Machine`, with
failures at any of the calls of `ExportOp.outside` (`Caller.typed`). One lemma for each function,
in the order of `StapelGdpr.Export.Orchestrator`.
-/

namespace StapelGdpr.Export

open Prog

variable {x : Exporter} {may : ExportOp → Prop} {α β : Type} {Q : α → Phase → ExportDb → Prop}
  {E : ExportError → Phase → ExportDb → Prop} {m m' : Phase} {op : ExportOp} {s t : ExportDb}
  {pk : Nat}

/-- The program follows the protocol from phase `m` on, and ends with `Q` or `E`. -/
abbrev Typed (x : Exporter) (may : ExportOp → Prop) (Q : α → Phase → ExportDb → Prop)
    (E : ExportError → Phase → ExportDb → Prop) (p : ExportProgram α) (m : Phase) (s : ExportDb) :
    Prop :=
  Phased Guard Later may (Step x) Q E p m s

/-- The call is in phase `m₀`, whatever it has returned or raised. -/
def inPhase {α : Type} (m₀ : Phase) (_ : α) (m : Phase) (_ : ExportDb) : Prop := m = m₀

/-- The call builds nothing. -/
abbrev atRest {α : Type} : α → Phase → ExportDb → Prop := inPhase .idle

/-- The call holds the request, and nothing of it is in the export store. -/
def drafting {α : Type} (pk : Nat) (_ : α) (m : Phase) (_ : ExportDb) : Prop := m.drafts = some pk

/-! ### The ways programs are built -/

theorem typed_ret {a : α} (h : ∀ t, Later s t → Guard m t → Q a m t) :
    Typed x may Q E (ret a) m s := phased_ret.mpr h

theorem typed_raise {e : ExportError} (h : ∀ t, Later s t → Guard m t → E e m t) :
    Typed x may Q E (raise e) m s := phased_raise.mpr h

/-- What a call has done is among what every call relies on. -/
theorem Typed.keeps {p : ExportProgram α} (h : Typed x may Q E p m s) :
    Typed x may (fun a m t => Later s t ∧ Q a m t) (fun e m t => Later s t ∧ E e m t) p m s :=
  Phased.keeps (R := Later) (I := Guard) (T := Step x) Later.trans Step.later h (.refl s)

theorem Typed.bind {P : α → Phase → ExportDb → Prop} {Q : β → Phase → ExportDb → Prop}
    {p : ExportProgram α} {k : α → ExportProgram β} (hp : Typed x may P E p m s)
    (hk : ∀ a m t, Later s t → P a m t → Typed x may Q E (k a) m t) :
    Typed x may Q E (p >>= k) m s :=
  Phased.bind Later.refl (hp.keeps.post (fun _ _ _ h => h) fun _ _ _ h => h.2)
    fun a m t h => hk a m t h.1 h.2

/-- Sequencing after a part that ends in a known phase. -/
theorem Typed.next {n : Phase} {Q : β → Phase → ExportDb → Prop} {p : ExportProgram α}
    {k : α → ExportProgram β} (hp : Typed x may (inPhase n) E p m s)
    (hk : ∀ a t, Later s t → Typed x may Q E (k a) n t) : Typed x may Q E (p >>= k) m s :=
  hp.bind fun a m t ht hm => by
    obtain rfl : m = n := hm
    exact hk a t ht

theorem Typed.tryCatch {X : ExportError → Phase → ExportDb → Prop} {p : ExportProgram α}
    {h : ExportError → ExportProgram α} (hp : Typed x may Q X p m s)
    (hh : ∀ e m t, Later s t → X e m t → Typed x may Q E (h e) m t) :
    Typed x may Q E (p.tryCatch h) m s :=
  Phased.tryCatch Later.refl (hp.keeps.post (fun _ _ _ h => h.2) fun _ _ _ h => h)
    fun e m t h => hh e m t h.1 h.2

/-- A loop that goes on from phase to phase, each turn of which needs a fact that lasts. -/
theorem typed_loop {δ : Type} {f : δ → ExportProgram PUnit} {F : δ → ExportDb → Prop}
    {n : List δ → Phase} {ys : List δ} (hF : ∀ y a b, Later a b → F y a → F y b)
    (hbody : ∀ y ys t, F y t → Typed x may (inPhase (n ys)) E (f y) (n (y :: ys)) t)
    (hs : ∀ y ∈ ys, F y s) : Typed x may (inPhase (n [])) E (ys.forM f) (n ys) s := by
  induction ys generalizing s with
  | nil => exact typed_ret fun _ _ _ => rfl
  | cons y ys ih =>
      obtain ⟨hy, hrest⟩ := List.forall_mem_cons.mp hs
      exact (hbody y ys s hy).next fun _ t ht => ih fun z hz => hF z s t ht (hrest z hz)

/-- A loop of a call at rest. -/
theorem typed_forM {δ : Type} {f : δ → ExportProgram PUnit} {F : δ → ExportDb → Prop}
    {ys : List δ} (hF : ∀ y a b, Later a b → F y a → F y b)
    (hbody : ∀ y t, F y t → Typed x may atRest E (f y) .idle t) (hs : ∀ y ∈ ys, F y s) :
    Typed x may atRest E (ys.forM f) .idle s :=
  typed_loop (n := fun _ => .idle) hF (fun y _ => hbody y) hs

/-- A fold, with the phases its turns lead through: `A` says what phase a call is in with the
rest of the list and the value so far. -/
theorem typed_foldlM {δ : Type} {f : β → δ → ExportProgram β} {F : ExportDb → Prop}
    {A : List δ → β → Phase → Prop} {ys : List δ} {b : β}
    (hF : ∀ a b, Later a b → F a → F b)
    (hbody : ∀ b y ys m t, F t → A (y :: ys) b m →
      Typed x may (fun b m _ => A ys b m) E (f b y) m t)
    (hs : F s) (hA : A ys b m) : Typed x may (fun b m _ => A [] b m) E (ys.foldlM f b) m s := by
  induction ys generalizing b m s with
  | nil => exact typed_ret fun _ _ _ => hA
  | cons y ys ih =>
      rw [List.foldlM_cons]
      exact (hbody b y ys m s hs hA).bind fun b m t ht hA => ih (hF s t ht hs) hA

theorem typed_query (hop : op.RestsIn m) {g : ExportDb → α}
    (hQ : ∀ a t, Later s a → Guard m a → Later a t → Guard m t → Q (g a) m t)
    (hE : may op → ∀ e t, Later s t → Guard m t → E e m t) :
    Typed x may Q E (Prog.query op g) m s :=
  Phased.query (n := fun _ => m) (fun _ _ _ => .stays hop) (fun _ _ => .stays hop) hQ
    fun hl e _ t ha ht hg => hE hl e t (ha.trans ht) hg

/-- A database query, which does not fail. -/
theorem typed_select (hmay : ∀ op, may op → op.outside = true) {g : ExportDb → α}
    (hQ : ∀ a t, Later s a → Guard m a → Later a t → Guard m t → Q (g a) m t) :
    Typed x may Q E (ExportProgram.select g) m s :=
  typed_query ⟨rfl, .inl rfl⟩ hQ fun hop => absurd (hmay _ hop) (by simp [ExportOp.outside])

theorem typed_external {Q : Unit → Phase → ExportDb → Prop}
    (hop : op.RestsIn m) (hQ : ∀ t, Later s t → Guard m t → Q () m t)
    (hE : ∀ e t, Later s t → Guard m t → E e m t) :
    Typed x may Q E (Prog.external op) m s :=
  typed_query hop (fun _ t ha _ ht hg => hQ t (ha.trans ht) hg) fun _ => hE

theorem typed_write {Q : Unit → Phase → ExportDb → Prop} {u : ExportDb → ExportDb}
    (hop : op.RestsIn m) (hT : ∀ a, Later s a → Guard m a → Step x m op true a (u a) m')
    (hQ : ∀ t, Later s t → Guard m' t → Q () m' t)
    (hE : may op → ∀ e t, Later s t → Guard m t → E e m t) :
    Typed x may Q E (Prog.write op u) m s :=
  Phased.write hT (fun _ _ _ _ => .stays hop)
    (fun a t ha hg ht hg' => hQ t (ha.trans (((hT a ha hg).later hg).trans ht)) hg')
    fun hl e _ t ha ht hg => hE hl e t (ha.trans ht) hg

theorem typed_atomic (hop : op.RestsIn m)
    {u : ExportDb → Except ExportError (α × ExportDb)}
    (hok : ∀ a b r, Later s a → Guard m a → u a = .ok (r, b) → ∃ m', Step x m op true a b m' ∧
      ∀ t, Later s t → Later b t → Guard m' t → Q r m' t)
    (hE : ∀ e t, Later s t → Guard m t → E e m t) :
    Typed x may Q E (Prog.atomic op u) m s := by
  refine Phased.atomic (fun a b r ha hg hu => ?_) (fun a e ha _ _ => ?_) fun _ a e ha _ => ?_
  · obtain ⟨m', hstep, hQ⟩ := hok a b r ha hg hu
    exact ⟨m', hstep, fun t ht hg' => hQ t (ha.trans ((hstep.later hg).trans ht)) ht hg'⟩
  · exact ⟨m, .stays hop, fun t ht hg => hE e t (ha.trans ht) hg⟩
  · exact ⟨m, .stays hop, fun t ht hg => hE e t (ha.trans ht) hg⟩

/-! ### Requesting an export -/

theorem createPart_typed {service : String} (h : s.expects pk service) :
    Typed x may atRest atRest (createPart pk service) .idle s := by
  refine typed_atomic ⟨rfl, .inl rfl⟩ (fun a b r ha _ hu => ?_) fun _ _ _ _ => rfl
  split at hu
  · exact absurd hu (by simp)
  · rename_i hany
    obtain ⟨-, rfl⟩ := Prod.mk.inj (Except.ok.inj hu)
    refine ⟨.idle, .partCreated (h.later ha) fun i p hp hreq hservice => hany ?_, fun _ _ _ _ => rfl⟩
    exact Table.any_eq_true.mpr ⟨i, p, hp, by simp [hreq, hservice]⟩

theorem requestExport_typed (hmay : ∀ op, may op → op.outside = true) {userId : UserId} :
    Typed x may atRest atRest (requestExport x userId) .idle s := by
  refine Typed.next (n := .idle) (typed_select hmay fun _ _ _ _ _ _ => rfl) fun recent s _ => ?_
  split
  · exact typed_raise fun _ _ _ => rfl
  · refine Typed.bind (P := fun req m s => m = .idle ∧ Snapshot s req)
      (typed_atomic ⟨rfl, .inl rfl⟩ (fun a b r ha _ hu => ?_) fun _ _ _ _ => rfl)
      fun req m s _ hreq => ?_
    · obtain ⟨rfl, rfl⟩ := Prod.mk.inj (Except.ok.inj hu)
      have hsnap : Snapshot { a with requests := a.requests.insert (newRequest x userId a.uuid4) }
          ⟨a.requests.nextPk, newRequest x userId a.uuid4⟩ :=
        ⟨_, Table.get?_insert_nextPk .., rfl, rfl⟩
      exact ⟨.idle, .created, fun t _ ht _ => ⟨rfl, ht.snapshot hsnap⟩⟩
    · obtain ⟨rfl, r, hr, hexp, -⟩ := hreq
      refine Typed.next (n := .idle) (typed_forM (F := fun service s => s.expects req.pk service)
        (fun _ _ _ hl h => h.later hl) (fun _ _ h => createPart_typed h) fun service hmem =>
        ⟨r, hr, by rw [hexp]; exact hmem⟩) fun _ s _ => ?_
      exact Typed.next (n := .idle)
        (typed_external ⟨rfl, .inl rfl⟩ (fun _ _ _ => rfl) fun _ _ _ _ => rfl)
        fun _ _ _ => typed_ret fun _ _ _ => rfl

/-! ### Assembling the archive -/

variable {req : Stored DataExportRequest}

/-- The key contract is judged by the id the copy in hand carries, which is the row's. -/
theorem Snapshot.safeFor {db : ExportDb} {key : String} (h : Snapshot db req) :
    SafeFor x db req.pk key ↔ x.isSafeBucketPath key req.row.correlationId = true := by
  obtain ⟨r, hr, -, hid⟩ := h
  constructor
  · intro ⟨r', hr', hsafe⟩
    obtain rfl : r = r' := Option.some.inj (hr.symm.trans hr')
    rwa [hid] at hsafe
  · intro hsafe
    exact ⟨r, hr, by rwa [hid]⟩

variable {part : Stored DataExportPart} {todo staged : List (Stored DataExportPart)}

/-- The slice is copied whole, or left where it is. -/
theorem copyPart_typed {bytes : Bytes} :
    Typed x may (fun _ m _ => m = .building pk todo (staged ++ [part]))
      (inPhase (.building pk todo staged)) (copyPart x pk part.row.service bytes)
      (.copying pk part bytes todo staged) s := by
  refine Typed.next (n := .copying pk part bytes todo staged) (Phased.write
    (fun _ _ _ => .written) (fun _ _ _ _ => .notCopied (.inl rfl)) (fun _ _ _ _ _ _ => rfl)
    fun _ _ _ _ _ _ _ => rfl) fun _ s _ => ?_
  exact Phased.write (fun _ _ _ => .copied) (fun _ _ _ _ => .notCopied (.inr rfl))
    (fun _ _ _ _ _ _ => rfl) fun _ _ _ _ _ _ _ => rfl

/-- The slice is opened only where the contract lets it. -/
theorem openPart_typed (hsafe : ∀ t, Later s t → SafeFor x t pk (sliceKey part)) :
    Typed x may (fun bytes m _ => m = .copying pk part bytes todo staged)
      (inPhase (.building pk todo staged)) (openPart pk part.row.service (sliceKey part))
      (.building pk (part :: todo) staged) s := by
  refine Phased.atomic (fun a b bytes ha _ hu => ?_) (fun a e ha _ hu => ?_) fun _ a e ha _ => ?_
  · split at hu
    · rename_i hread
      obtain ⟨rfl, rfl⟩ := Prod.mk.inj (Except.ok.inj hu)
      exact ⟨_, .opened (hsafe a ha) hread, fun _ _ _ => rfl⟩
    · exact absurd hu (by simp)
  · split at hu
    · exact absurd hu (by simp)
    · rename_i hnone
      exact ⟨_, .notOpened (hsafe a ha) fun _ => hnone, fun _ _ _ => rfl⟩
  · exact ⟨_, .notOpened (hsafe a ha) fun h => absurd h (by simp), fun _ _ _ => rfl⟩

/-- The phase of a call that has looked for the file of the part. -/
def afterLook (x : Exporter) (req : Stored DataExportRequest) (part : Stored DataExportPart)
    (todo staged : List (Stored DataExportPart)) (there : Bool) : Phase :=
  if there then .building req.pk todo (staged ++ [part])
  else if x.isSafeBucketPath (sliceKey part) req.row.correlationId = false then
    .building req.pk todo staged
  else .building req.pk (part :: todo) staged

theorem fileExists_typed (hsnap : Snapshot s req) :
    Typed x may (fun there m _ => m = afterLook x req part todo staged there)
      (drafting req.pk) (Prog.query (.fileExists req.pk part.row.service (sliceKey part))
        (·.hasFile req.pk (exportPath part.row.service)))
      (.building req.pk (part :: todo) staged) s := by
  refine Phased.query (n := fun t => afterLook x req part todo staged
    (t.hasFile req.pk (exportPath part.row.service))) (fun t ht _ => ?_)
    (fun _ _ => .stays ⟨rfl, .inr rfl⟩) (fun _ _ _ _ _ _ => rfl) fun _ _ _ _ _ _ _ => rfl
  unfold afterLook
  split
  · rename_i hfile
    exact .found hfile
  split
  · rename_i hunsafe
    refine .refused fun hsafe => ?_
    rw [(ht.snapshot hsnap).safeFor, hunsafe] at hsafe
    exact absurd hsafe (by simp)
  · exact .stays ⟨rfl, .inr rfl⟩

/-- What the download of one part leads to: the part is staged, or it is left out. -/
theorem downloadPart_typed (hsnap : Snapshot s req) :
    Typed x may (fun ids m _ => ∃ staged', ids = staged'.map (·.pk) ∧
      m = .building req.pk todo staged') (drafting req.pk)
      (downloadPart x req (staged.map (·.pk)) part) (.building req.pk (part :: todo) staged) s := by
  have hids : staged.map (·.pk) ++ [part.pk] = (staged ++ [part]).map (·.pk) := by simp
  refine Typed.next (n := .building req.pk (part :: todo) staged)
    (typed_external ⟨rfl, .inr rfl⟩ (fun _ _ _ => rfl) fun _ _ _ _ => rfl) fun _ s₁ h₁ => ?_
  refine (fileExists_typed (h₁.snapshot hsnap)).bind fun there m s₂ h₂ hm => ?_
  obtain rfl := hm
  have hsnap := (h₁.trans h₂).snapshot hsnap
  cases there with
  | true => exact typed_ret fun _ _ _ => ⟨staged ++ [part], hids, rfl⟩
  | false =>
      change Typed x may _ _ (if x.isSafeBucketPath (sliceKey part) req.row.correlationId = false then
        _ else _) _ s₂
      by_cases hunsafe : x.isSafeBucketPath (sliceKey part) req.row.correlationId = false
      · have hphase : afterLook x req part todo staged false = .building req.pk todo staged :=
          if_pos hunsafe
        rw [if_pos hunsafe, hphase]
        exact typed_ret fun _ _ _ => ⟨staged, rfl, rfl⟩
      · have hphase : afterLook x req part todo staged false =
            .building req.pk (part :: todo) staged := if_neg hunsafe
        rw [if_neg hunsafe, hphase]
        -- a failed open or copy leaves the part out, and the download goes on
        refine Typed.tryCatch (X := inPhase (.building req.pk todo staged)) ?_ fun _ m _ _ hm => ?_
        · have hsafe : ∀ t, Later s₂ t → SafeFor x t req.pk (sliceKey part) := fun t ht =>
            (ht.snapshot hsnap).safeFor.mpr (by simpa using hunsafe)
          refine (openPart_typed hsafe).bind fun bytes m s _ hm => ?_
          obtain rfl := hm
          refine copyPart_typed.bind fun _ m s _ hm => ?_
          obtain rfl := hm
          exact typed_ret fun _ _ _ => ⟨staged ++ [part], hids, rfl⟩
        · obtain rfl : m = .building req.pk todo staged := hm
          exact typed_ret fun _ _ _ => ⟨staged, rfl, rfl⟩

theorem downloadBucketParts_typed (hmay : ∀ op, may op → op.outside = true)
    (hsnap : Snapshot s req) :
    Typed x may (fun ids m _ => ∃ staged, ids = staged.map (·.pk) ∧ m = .building req.pk [] staged)
      (drafting req.pk) (downloadBucketParts x req) (.held req.pk) s := by
  have hfail : ∀ {C : Prop}, may (.listParts req.pk) → C := fun hop =>
    absurd (hmay _ hop) (by simp [ExportOp.outside])
  refine Typed.bind (P := fun parts m _ => m = .building req.pk parts []) (Phased.query
    (d := .held req.pk) (n := fun t => .building req.pk (t.uploadedParts req.pk) [])
    (fun _ _ _ => .listed) (fun hop => hfail hop) (fun _ _ _ _ _ _ => rfl) fun hop => hfail hop)
    fun parts m s₁ h₁ hm => ?_
  obtain rfl := hm
  refine typed_foldlM (F := fun t => Snapshot t req) (A := fun todo ids m => ∃ staged,
    ids = staged.map (·.pk) ∧ m = .building req.pk todo staged) (fun _ _ hl h => hl.snapshot h)
    (fun ids part todo m t hsnap hm => ?_) (h₁.snapshot hsnap) ⟨[], rfl, rfl⟩
  obtain ⟨staged, rfl, rfl⟩ := hm
  exact downloadPart_typed hsnap

variable {archive : Archive}

/-- One slice is purged, as far as that goes. -/
theorem purgeBucketPart_typed (hmay : ∀ op, may op → op.outside = true) (hs : Settled s pk)
    (hpart : PartOf s part.pk pk) :
    Typed x may (inPhase (.purging pk todo archive)) E (purgeBucketPart part)
      (.purging pk (part :: todo) archive) s := by
  refine Typed.next (n := .purging pk todo archive) (Typed.tryCatch
    (X := inPhase (.purging pk todo archive)) ?_ fun _ m _ _ hm => ?_) fun gone t ht => ?_
  · refine Typed.bind (P := fun there m _ => m = .purging pk (if there then part :: todo else todo)
      archive) (Phased.query (n := fun t => .purging pk (if (t.readObject (sliceKey part)).isSome
        then part :: todo else todo) archive) (fun t _ _ => ?_)
      (fun _ _ => .notDeleted (.inl rfl)) (fun _ _ _ _ _ _ => rfl) fun _ _ _ _ _ _ _ => rfl)
      fun there m s _ hm => ?_
    · cases hread : t.readObject (sliceKey part) with
      | none => exact .gone hread
      | some bytes => exact .stays ⟨rfl, .inl rfl⟩
    · obtain rfl := hm
      cases there with
      | false => exact typed_ret fun _ _ _ => rfl
      | true =>
          refine Typed.next (n := .purging pk todo archive) (Phased.write
            (fun _ _ _ => .bucketDeleted) (fun _ _ _ _ => .notDeleted (.inr rfl))
            (fun _ _ _ _ _ _ => rfl) fun _ _ _ _ _ _ _ => rfl) fun _ _ _ => ?_
          exact typed_ret fun _ _ _ => rfl
  · obtain rfl : m = .purging pk todo archive := hm
    exact typed_ret fun _ _ _ => rfl
  · split
    · exact typed_write ⟨rfl, .inl rfl⟩ (fun a ha _ => .partPurged ((ht.trans ha).settled hs)
        ((ht.trans ha).partOf hpart)) (fun _ _ _ => rfl)
        fun hop => absurd (hmay _ hop) (by simp [ExportOp.outside])
    · exact typed_ret fun _ _ _ => rfl

/-- It never raises. -/
theorem purgeBucketParts_typed (hmay : ∀ op, may op → op.outside = true)
    (hs : Settled s req.pk) :
    Typed x may (fun _ m _ => m = .published req.pk [] archive ∨ m = .purging req.pk [] archive) E
      (purgeBucketParts req (staged.map (·.pk))) (.published req.pk staged archive) s := by
  unfold purgeBucketParts
  split
  · rename_i hnil
    obtain rfl := List.map_eq_nil_iff.mp hnil
    exact typed_ret fun _ _ _ => .inl rfl
  have hfail : ∀ {C : Prop}, may (.listStaged req.pk) → C := fun hop =>
    absurd (hmay _ hop) (by simp [ExportOp.outside])
  refine Typed.bind (P := fun parts m t => m = .purging req.pk parts archive ∧
    ∀ part ∈ parts, PartOf t part.pk req.pk) (Phased.query (d := .published req.pk staged archive)
    (n := fun t => .purging req.pk (t.stagedParts req.pk (staged.map (·.pk))) archive)
    (fun _ _ _ => .stagedListed) (fun hop => hfail hop)
    (fun a t _ _ ht _ => ⟨rfl, fun part hmem => ?_⟩) fun hop => hfail hop) fun parts m t ht hm => ?_
  · obtain ⟨hget, hp⟩ := Table.mem_select.mp (List.mem_filter.mp hmem).1
    simp only [Bool.and_eq_true, decide_eq_true_eq] at hp
    exact ht.partOf ⟨part.row, hget, hp.1⟩
  · obtain ⟨rfl, hparts⟩ := hm
    refine Phased.post (typed_loop (n := fun todo => .purging req.pk todo archive)
      (F := fun (part : Stored DataExportPart) t => PartOf t part.pk req.pk ∧ Settled t req.pk)
      (fun _ _ _ hl h => ⟨hl.partOf h.1, hl.settled h.2⟩)
      (fun part todo t h => purgeBucketPart_typed hmay h.2 h.1)
      fun part hmem => ⟨hparts part hmem, ht.settled hs⟩) (fun _ _ _ hm => .inr hm)
      fun _ _ _ h => h

/-- It never raises: nothing sends a published request back. -/
theorem afterPublication_typed (hmay : ∀ op, may op → op.outside = true)
    (hs : Settled s req.pk) :
    Typed x may atRest E (afterPublication req (staged.map (·.pk)))
      (.published req.pk staged archive) s := by
  refine Typed.next (n := .published req.pk staged archive) (typed_query ⟨rfl, .inl rfl⟩
    (fun _ _ _ _ _ _ => rfl) fun hop => absurd (hmay _ hop) (by simp [ExportOp.outside]))
    fun _ s h₀ => ?_
  have hs := h₀.settled hs
  refine Typed.next (n := .published req.pk staged archive) (Typed.tryCatch
    (X := inPhase (.published req.pk staged archive)) (typed_write ⟨rfl, .inl rfl⟩
    (fun a ha _ => .cleared (ha.settled hs)) (fun _ _ _ => rfl) fun _ _ _ _ _ => rfl)
    fun _ m _ _ hm => ?_) fun _ t ht => ?_
  · obtain rfl : m = .published req.pk staged archive := hm
    exact typed_ret fun _ _ _ => rfl
  · refine (purgeBucketParts_typed hmay (ht.settled hs)).bind fun _ m _ _ hm => ?_
    refine Typed.tryCatch (X := atRest) (Phased.query (n := fun _ => .idle)
      (fun _ _ _ => .notified hm) (fun _ _ => .notified hm) (fun _ _ _ _ _ _ => rfl)
      fun _ _ _ _ _ _ _ => rfl) fun _ m _ _ hm => ?_
    obtain rfl : m = .idle := hm
    exact typed_ret fun _ _ _ => rfl

/-- What `_missing_services` counts on: it asks for every service of the request. -/
theorem mem_missingServices {report : RegistryReport} {db : ExportDb} {service : String}
    (hsnap : Snapshot db req) (h : db.expects req.pk service) :
    service ∈ db.doneServices req.pk ∨ service ∈ missingServices report db req := by
  by_cases hdone : service ∈ db.doneServices req.pk
  · exact .inl hdone
  · obtain ⟨r, hr, hmem⟩ := h
    obtain ⟨r₀, hr₀, heq, -⟩ := hsnap
    obtain rfl : r₀ = r := Option.some.inj (hr₀.symm.trans hr)
    refine .inr (List.mem_filter.mpr ⟨?_, by simpa using hdone⟩)
    by_cases hname : service ∈ report.names
    · exact List.mem_append.mpr (.inl hname)
    · exact List.mem_append.mpr (.inr (List.mem_filter.mpr ⟨heq ▸ hmem, by simpa using hname⟩))

theorem saveArchive_typed {missing : List String} {isPartial : Bool} :
    Typed x may (fun key m _ => m = .saved req.pk staged missing isPartial archive key)
      (drafting req.pk) (saveArchive x req archive)
      (.zipped req.pk staged missing isPartial archive) s := by
  refine typed_atomic ⟨rfl, .inr rfl⟩ (fun a b r _ _ hu => ?_) fun _ _ _ _ => rfl
  obtain ⟨rfl, rfl⟩ := Prod.mk.inj (Except.ok.inj hu)
  exact ⟨_, .saved (x.names.fresh _ _) ⟨_, _, rfl⟩, fun _ _ _ _ => rfl⟩

/-- The archive is stored when the temporary ZIP is gone, or nothing of it is. -/
theorem buildArchive_typed {missing : List String} {isPartial : Bool} :
    Typed x may (fun key m _ => ∃ archive, m = .saved req.pk staged missing isPartial archive key)
      (drafting req.pk) ((buildArchive x req isPartial missing).tryFinally fun stored =>
        Prog.external (.unlinkZip req.pk stored)) (.judged req.pk staged missing isPartial) s := by
  refine Typed.bind (P := fun key m _ => ∃ archive,
    m = .saved req.pk staged missing isPartial archive key) (Typed.tryCatch
    (X := drafting req.pk) ?_ fun e m t _ hm => ?_) fun key m t _ hm => ?_
  · refine Typed.bind (P := fun archive m _ => m = .zipped req.pk staged missing isPartial archive)
      (Phased.query (n := fun a => .zipped req.pk staged missing isPartial
        (zipArchive x req isPartial missing a)) (fun _ _ _ => .zipped rfl)
        (fun _ _ => .stays ⟨rfl, .inr rfl⟩) (fun _ _ _ _ _ _ => rfl) fun _ _ _ _ _ _ _ => rfl)
      fun archive m s _ hm => ?_
    obtain rfl := hm
    exact saveArchive_typed.post (fun _ _ _ hm => ⟨archive, hm⟩) fun _ _ _ h => h
  · have hrests : (ExportOp.unlinkZip req.pk false).RestsIn m :=
      ⟨rfl, .inr (Phase.builds_of_drafts hm).symm⟩
    exact Typed.bind (P := fun _ m _ => m.drafts = some req.pk)
      (typed_external hrests (fun _ _ _ => hm) fun _ _ _ _ => hm)
      fun _ m _ _ hm => typed_raise fun _ _ _ => hm
  · obtain ⟨archive, rfl⟩ := hm
    refine Typed.bind (P := fun _ m _ => m = .saved req.pk staged missing isPartial archive key)
      (Phased.query (n := fun _ => .saved req.pk staged missing isPartial archive key)
        (fun _ _ _ => .stays ⟨rfl, .inr rfl⟩) (fun _ _ => .notPublished (.inl rfl))
        (fun _ _ _ _ _ _ => rfl) fun _ _ _ _ _ _ _ => rfl) fun _ m _ _ hm => ?_
    exact typed_ret fun _ _ _ => ⟨archive, hm⟩

theorem assembleZip_typed (hmay : ∀ op, may op → op.outside = true) {isPartial : Bool}
    (hsnap : Snapshot s req) :
    Typed x may atRest (drafting req.pk) (assembleZip x req isPartial) (.held req.pk) s := by
  refine (downloadBucketParts_typed hmay hsnap).bind fun ids m s hs hm => ?_
  obtain ⟨staged, rfl, rfl⟩ := hm
  have hsnap := hs.snapshot hsnap
  refine Typed.bind (P := fun missing m _ => m = .judged req.pk staged missing
    (isPartial || missing ≠ [] || x.env.report.problems ≠ [])) (Phased.query
    (n := fun a => .judged req.pk staged (missingServices x.env.report a req)
      (isPartial || missingServices x.env.report a req ≠ [] || x.env.report.problems ≠ []))
    (fun a ha _ => .judged fun service hexp => ?_) (fun _ _ => .stays ⟨rfl, .inr rfl⟩)
    (fun _ _ _ _ _ _ => rfl) fun _ _ _ _ _ _ _ => rfl) fun missing m s _ hm => ?_
  · refine (mem_missingServices (ha.snapshot hsnap) hexp).imp_right fun hmem => ⟨hmem, ?_⟩
    simp [List.ne_nil_of_mem hmem]
  · obtain rfl := hm
    generalize (isPartial || missing ≠ [] || x.env.report.problems ≠ [] : Bool) = isPartial
    refine Typed.next (n := .judged req.pk staged missing isPartial)
      (typed_external ⟨rfl, .inr rfl⟩ (fun _ _ _ => rfl) fun _ _ _ _ => rfl) fun _ s _ => ?_
    refine Typed.bind buildArchive_typed fun key m s _ hm => ?_
    obtain ⟨archive, rfl⟩ := hm
    -- the unit is the last thing that can send the request back
    refine Typed.bind (P := fun _ m t => m = .published req.pk staged archive ∧ Settled t req.pk)
      (Phased.write (fun _ _ _ => .published) (fun _ _ _ _ => .notPublished (.inr rfl))
      (fun a t _ hg ht _ => ⟨rfl, ht.settled ?_⟩) fun _ _ _ _ _ _ _ => rfl) fun _ m t _ hm => ?_
    · obtain ⟨r, hr, -⟩ := hg.2 req.pk rfl
      exact ⟨_, Table.get?_modify_self _ hr, by
        simp [DataExportRequest.publish, DataExportRequest.isSettled]⟩
    · obtain ⟨rfl, hset⟩ := hm
      exact afterPublication_typed hmay hset

theorem lockForAssembly_typed {force : Bool} :
    Typed x may (fun locked m t => match locked with
      | none => m = .idle
      | some req => req.pk = pk ∧ m = .held pk ∧ Snapshot t req)
      atRest (lockForAssembly x pk force) .idle s := by
  refine typed_atomic ⟨rfl, .inl rfl⟩ (fun a b r _ _ hu => ?_) fun _ _ _ _ => rfl
  split at hu
  · exact absurd hu (by simp)
  · rename_i row hrow
    split at hu
    · obtain ⟨rfl, rfl⟩ := Prod.mk.inj (Except.ok.inj hu)
      exact ⟨.idle, .stays ⟨rfl, .inl rfl⟩, fun _ _ _ _ => rfl⟩
    split at hu
    · obtain ⟨rfl, rfl⟩ := Prod.mk.inj (Except.ok.inj hu)
      exact ⟨.idle, .stays ⟨rfl, .inl rfl⟩, fun _ _ _ _ => rfl⟩
    · rename_i hopen _
      obtain ⟨rfl, rfl⟩ := Prod.mk.inj (Except.ok.inj hu)
      refine ⟨_, .locked hrow (by simpa using hopen), fun t _ ht _ => ⟨rfl, rfl, ht.snapshot ?_⟩⟩
      exact ⟨_, Table.get?_modify_self _ hrow, rfl, rfl⟩

/-- **One attempt.** Whatever fails of `ExportOp.outside`, the call ends without the request:
it was not to build it, it has published it, or it has given it back. -/
theorem tryAssemble_typed (hmay : ∀ op, may op → op.outside = true) {force : Bool} :
    Typed x may atRest atRest (tryAssemble x pk force) .idle s := by
  refine Typed.bind lockForAssembly_typed fun locked m s _ hm => ?_
  cases locked with
  | none =>
      obtain rfl := hm
      exact typed_ret fun _ _ _ => rfl
  | some req =>
      obtain ⟨rfl, rfl, hsnap⟩ := hm
      refine Typed.tryCatch (X := drafting req.pk) (Typed.next (n := .held req.pk)
        (typed_select hmay fun _ _ _ _ _ _ => rfl) fun _ s hs =>
        assembleZip_typed hmay (hs.snapshot hsnap)) fun e m s _ hm => ?_
      exact Typed.next (n := .idle) (typed_write ⟨rfl, .inr (Phase.builds_of_drafts hm).symm⟩
        (fun _ _ _ => .gaveBack hm) (fun _ _ _ => rfl)
        fun hop => absurd (hmay _ hop) (by simp [ExportOp.outside]))
        fun _ _ _ => typed_raise fun _ _ _ => rfl

/-! ### The callers of assembly -/

theorem exportPart_typed (hmay : ∀ op, may op → op.outside = true) {service : String} :
    Typed x may atRest atRest (exportPart x req service) .idle s := by
  refine Typed.next (n := .idle) (typed_select hmay fun _ _ _ _ _ _ => rfl) fun found s _ => ?_
  cases found with
  | none => exact typed_ret fun _ _ _ => rfl
  | some part =>
      dsimp only
      split
      · exact typed_ret fun _ _ _ => rfl
      refine Typed.next (n := .idle) (Typed.tryCatch (X := atRest) ?_ fun _ m _ _ hm => ?_)
        fun outcome _ _ => ?_
      · refine Typed.next (n := .idle)
          (typed_external ⟨rfl, .inl rfl⟩ (fun _ _ _ => rfl) fun _ _ _ _ => rfl)
          fun _ _ _ => ?_
        refine Typed.next (n := .idle)
          (typed_write ⟨rfl, .inl rfl⟩ (fun _ _ _ => .exported) (fun _ _ _ => rfl)
          fun _ _ _ _ _ => rfl) fun _ _ _ => ?_
        exact Typed.next (n := .idle)
          (typed_external ⟨rfl, .inl rfl⟩ (fun _ _ _ => rfl) fun _ _ _ _ => rfl)
          fun _ _ _ => typed_ret fun _ _ _ => rfl
      · obtain rfl : m = .idle := hm
        exact typed_ret fun _ _ _ => rfl
      · exact typed_write ⟨rfl, .inl rfl⟩ (fun _ _ _ => .partSaved) (fun _ _ _ => rfl)
          fun hop => absurd (hmay _ hop) (by simp [ExportOp.outside])

theorem runExport_typed (hmay : ∀ op, may op → op.outside = true) :
    Typed x may atRest atRest (runExport x pk) .idle s := by
  refine Typed.next (n := .idle)
    (typed_atomic ⟨rfl, .inl rfl⟩ (fun a b r _ _ hu => ?_) fun _ _ _ _ => rfl)
    fun started s _ => ?_
  · split at hu
    · exact absurd hu (by simp)
    rename_i row hrow
    split at hu
    · obtain ⟨rfl, rfl⟩ := Prod.mk.inj (Except.ok.inj hu)
      exact ⟨.idle, .stays ⟨rfl, .inl rfl⟩, fun _ _ _ _ => rfl⟩
    · rename_i hopen
      obtain ⟨rfl, rfl⟩ := Prod.mk.inj (Except.ok.inj hu)
      exact ⟨.idle, .started hrow (by simpa using hopen), fun _ _ _ _ => rfl⟩
  · cases started with
    | none => exact typed_ret fun _ _ _ => rfl
    | some req =>
        refine Typed.next (n := .idle)
          (typed_external ⟨rfl, .inl rfl⟩ (fun _ _ _ => rfl) fun _ _ _ _ => rfl)
          fun _ _ _ => ?_
        refine Typed.next (n := .idle) (typed_forM (F := fun _ _ => True) (fun _ _ _ _ h => h)
          (fun _ _ _ => exportPart_typed hmay) fun _ _ => trivial) fun _ _ _ => ?_
        exact tryAssemble_typed hmay

theorem markPartReady_typed (hmay : ∀ op, may op → op.outside = true) {id : Uuid}
    {service : String} {path : Option String} :
    Typed x may atRest atRest (markPartReady x id service path) .idle s := by
  refine Typed.bind (P := fun found m t => m = .idle ∧ ∀ req, found = some req → Snapshot t req)
    (typed_select hmay fun a t _ _ ht _ => ⟨rfl, fun req hreq => ht.snapshot ?_⟩)
    fun found m s _ hm => ?_
  · exact ⟨req.row, (Table.first?_some hreq).1, rfl, rfl⟩
  obtain ⟨rfl, hsnap⟩ := hm
  cases found with
  | none => exact typed_ret fun _ _ _ => rfl
  | some req =>
      dsimp only
      split
      · exact typed_ret fun _ _ _ => rfl
      rename_i haccepts
      refine Typed.next (n := .idle) (typed_atomic ⟨rfl, .inl rfl⟩ (fun a b r ha _ hu => ?_)
        fun _ _ _ _ => rfl) fun updated s _ => ?_
      · obtain ⟨-, rfl⟩ := Prod.mk.inj (Except.ok.inj hu)
        refine ⟨.idle, .partReady fun key hkey hne => ?_, fun _ _ _ _ => rfl⟩
        rw [(ha.snapshot (hsnap req rfl)).safeFor]
        simpa [refusesPath, hkey, hne] using haccepts
      split
      · exact typed_ret fun _ _ _ => rfl
      refine Typed.next (n := .idle) (typed_select hmay fun _ _ _ _ _ _ => rfl) fun fresh _ _ => ?_
      cases fresh with
      | none => exact typed_raise fun _ _ _ => rfl
      | some _ => exact tryAssemble_typed hmay

theorem sweepDeadlines_typed (hmay : ∀ op, may op → op.outside = true) :
    Typed x may atRest atRest (sweepDeadlines x) .idle s :=
  Typed.next (n := .idle) (typed_select hmay fun _ _ _ _ _ _ => rfl) fun _ _ _ =>
    typed_forM (F := fun _ _ => True) (fun _ _ _ _ h => h) (fun _ _ _ => tryAssemble_typed hmay)
      fun _ _ => trivial

/-! ### Retention and download -/

theorem deleteArchive_typed {stored : String} :
    Typed x may atRest atRest (deleteArchive stored) .idle s := by
  unfold deleteArchive
  split
  · exact typed_ret fun _ _ _ => rfl
  refine Typed.tryCatch (X := atRest) (Phased.atomic (fun a b r _ _ hu => ?_)
    (fun _ _ _ _ hu => absurd hu (by simp)) fun _ _ _ _ _ => ⟨.idle, .archiveKept, fun _ _ _ => rfl⟩)
    fun e m _ _ hm => ?_
  · obtain ⟨-, rfl⟩ := Prod.mk.inj (Except.ok.inj hu)
    exact ⟨.idle, .archiveDeleted, fun _ _ _ => rfl⟩
  · obtain rfl : m = .idle := hm
    split
    · exact typed_ret fun _ _ _ => rfl
    · exact typed_raise fun _ _ _ => rfl

theorem storedArchiveExists_typed {stored : Option String} :
    Typed x may atRest atRest (storedArchiveExists stored) .idle s := by
  unfold storedArchiveExists
  split
  · exact typed_ret fun _ _ _ => rfl
  · exact typed_ret fun _ _ _ => rfl
  refine Typed.tryCatch (X := atRest)
    (typed_query ⟨rfl, .inl rfl⟩ (fun _ _ _ _ _ _ => rfl) fun _ _ _ _ _ => rfl)
    fun e m _ _ hm => ?_
  obtain rfl : m = .idle := hm
  split
  · exact typed_ret fun _ _ _ => rfl
  · exact typed_raise fun _ _ _ => rfl

theorem deleteStored_typed {stored : Option String} :
    Typed x may atRest atRest (deleteStored stored) .idle s := by
  unfold deleteStored
  split
  · exact typed_ret fun _ _ _ => rfl
  · exact typed_ret fun _ _ _ => rfl
  refine deleteArchive_typed.next fun deleted _ _ => ?_
  split
  · exact typed_ret fun _ _ _ => rfl
  · exact storedArchiveExists_typed.next fun _ _ _ => typed_ret fun _ _ _ => rfl

theorem expireExport_typed (hmay : ∀ op, may op → op.outside = true) (hs : Settled s req.pk) :
    Typed x may atRest atRest (expireExport req) .idle s :=
  deleteStored_typed.next fun _ _ ht =>
    typed_write ⟨rfl, .inl rfl⟩ (fun _ ha _ => .expired ((ht.trans ha).settled hs))
    (fun _ _ _ => rfl) fun hop => absurd (hmay _ hop) (by simp [ExportOp.outside])

/-- What is on a row says that it is published. -/
theorem Sound.settled {db : ExportDb} {row : DataExportRequest} (h : Sound db)
    (hr : db.requests.get? pk = some row) (hblank : ¬ row.Blank) : Settled db pk := by
  refine ⟨row, hr, ?_⟩
  by_contra hno
  exact hblank (h.blank pk row hr (by simpa using hno))

theorem purgeExpiredExports_typed (hmay : ∀ op, may op → op.outside = true) :
    Typed x may atRest atRest (purgeExpiredExports x) .idle s := by
  have hloop : ∀ {reqs : List (Stored DataExportRequest)} {t : ExportDb},
      (∀ req ∈ reqs, Settled t req.pk) →
      Typed x may atRest atRest (reqs.forM expireExport) .idle t :=
    fun h => typed_forM (F := fun (req : Stored DataExportRequest) t => Settled t req.pk)
      (fun _ _ _ hl h => hl.settled h) (fun _ _ h => expireExport_typed hmay h) h
  refine Typed.bind (P := fun reqs m t => m = .idle ∧ ∀ req ∈ reqs, Settled t req.pk)
    (typed_select hmay fun a t _ hg ht _ => ⟨rfl, fun req hmem => ht.settled ?_⟩)
    fun stale m t _ hm => ?_
  · obtain ⟨hget, hp⟩ := Table.mem_select.mp (mem_newestFirst.mp hmem)
    refine hg.1.settled hget fun hblank => ?_
    rw [hblank.2.2.2] at hp
    exact absurd hp (by simp)
  obtain ⟨rfl, hstale⟩ := hm
  refine (hloop hstale).next fun _ _ _ => ?_
  refine Typed.bind (P := fun reqs m t => m = .idle ∧ ∀ req ∈ reqs, Settled t req.pk)
    (typed_select hmay fun a t _ hg ht _ => ⟨rfl, fun req hmem => ht.settled ?_⟩)
    fun orphans m t _ hm => ?_
  · obtain ⟨hget, hp⟩ := Table.mem_select.mp (mem_newestFirst.mp hmem)
    refine hg.1.settled hget fun hblank => ?_
    rw [hblank.1] at hp
    exact absurd hp (by simp)
  obtain ⟨rfl, horphans⟩ := hm
  exact (hloop horphans).next fun _ _ _ => typed_ret fun _ _ _ => rfl

theorem serve_typed (hmay : ∀ op, may op → op.outside = true) {userId : UserId}
    {token : Option TokenHash} : Typed x may atRest atRest (serve x userId token) .idle s := by
  unfold serve
  split
  · exact typed_ret fun _ _ _ => rfl
  rename_i token
  refine Typed.bind (P := fun found m t => m = .idle ∧ ∀ req, found = some req →
    Settled t req.pk) (typed_select hmay fun a t _ hg ht _ => ⟨rfl, fun req hreq => ht.settled ?_⟩)
    fun found m s _ hm => ?_
  · -- the token was found on the row
    obtain ⟨hget, hp⟩ := Table.first?_some hreq
    refine hg.1.settled hget fun hblank => ?_
    rw [hblank.2.1] at hp
    exact absurd hp (by simp)
  obtain ⟨rfl, hset⟩ := hm
  cases found with
  | none => exact typed_ret fun _ _ _ => rfl
  | some req =>
      have hset := hset req rfl
      dsimp only
      split
      · exact typed_ret fun _ _ _ => rfl
      split
      · exact typed_ret fun _ _ _ => rfl
      split
      · exact (expireExport_typed hmay hset).next fun _ _ _ => typed_ret fun _ _ _ => rfl
      refine storedArchiveExists_typed.next fun there s₁ h₁ => ?_
      split
      · exact typed_ret fun _ _ _ => rfl
      refine Typed.next (n := .idle)
        (typed_atomic ⟨rfl, .inl rfl⟩ (fun a b r ha _ hu => ?_) fun _ _ _ _ => rfl)
        fun spent s₂ h₂ => ?_
      · obtain ⟨-, rfl⟩ := Prod.mk.inj (Except.ok.inj hu)
        split
        · exact ⟨.idle, .consumed ((h₁.trans ha).settled hset), fun _ _ _ _ => rfl⟩
        · exact ⟨.idle, .stays ⟨rfl, .inl rfl⟩, fun _ _ _ _ => rfl⟩
      split
      · exact typed_ret fun _ _ _ => rfl
      refine Typed.next (n := .idle)
        (typed_atomic ⟨rfl, .inl rfl⟩ (fun a b r _ _ hu => ?_) fun _ _ _ _ => rfl)
        fun archive s₃ h₃ => ?_
      · split at hu
        · obtain ⟨-, rfl⟩ := Prod.mk.inj (Except.ok.inj hu)
          exact ⟨.idle, .stays ⟨rfl, .inl rfl⟩, fun _ _ _ _ => rfl⟩
        · exact absurd hu (by simp)
      refine deleteArchive_typed.next fun _ s₄ h₄ => ?_
      refine Typed.next (n := .idle)
        (typed_write ⟨rfl, .inl rfl⟩ (fun a ha _ => .pathNulled (Later.settled
        (((h₁.trans h₂).trans (h₃.trans h₄)).trans ha) hset)) (fun _ _ _ => rfl)
        fun hop => absurd (hmay _ hop) (by simp [ExportOp.outside]))
        fun _ _ _ => typed_ret fun _ _ _ => rfl

/-- **Every call follows the protocol**, whatever fails of `ExportOp.outside`. -/
theorem Caller.typed (hmay : ∀ op, may op → op.outside = true) (x : Exporter) (caller : Caller) :
    Typed x may atRest atRest (caller.prog x) .idle s := by
  have hret : ∀ {α : Type} {p : ExportProgram α}, Typed x may atRest atRest p .idle s →
      Typed x may atRest atRest (p >>= fun _ => pure ()) .idle s :=
    fun h => h.next fun _ _ _ => typed_ret fun _ _ _ => rfl
  cases caller with
  | request userId => exact hret (requestExport_typed hmay)
  | run pk => exact runExport_typed hmay
  | partReady id service path => exact markPartReady_typed hmay
  | sweep => exact sweepDeadlines_typed hmay
  | purge => exact hret (purgeExpiredExports_typed hmay)
  | download userId token => exact hret (serve_typed hmay)

/-! ### Runs -/

variable {κ : Type} [DecidableEq κ] {calls : κ → Exporter × Caller} {may : κ → ExportOp → Prop}
  {P : Pool ExportOp ExportDb ExportError Unit κ} {start db : ExportDb}
  {tr past : List (Pool.Event κ ExportOp ExportDb)} {phases : κ → Phase}

/-- Who builds what: each call may count on its phase, and no request is built twice at once. -/
structure Exclusive (phases : κ → Phase) (db : ExportDb) : Prop where
  sound : Sound db
  held : ∀ k pk, (phases k).builds = some pk → Assembling db pk
  one : ∀ j k pk, (phases j).builds = some pk → (phases k).builds = some pk → j = k

omit [DecidableEq κ] in
theorem Exclusive.guard (h : Exclusive phases db) (k : κ) : Guard (phases k) db :=
  ⟨h.sound, h.held k⟩

omit [DecidableEq κ] in
theorem exclusive_idle (h : Sound db) : Exclusive (fun _ : κ => .idle) db where
  sound := h
  held _ _ hb := absurd hb (by simp [Phase.builds])
  one _ _ _ hb := absurd hb (by simp [Phase.builds])

/-- A protocol step of one call leaves every call with its own. -/
theorem Exclusive.step {e : Pool.Event κ ExportOp ExportDb} (h : Exclusive phases e.before)
    (hstep : Step x (phases e.thread) e.label e.ok e.before e.after m) :
    Exclusive (Function.update phases e.thread m) e.after := by
  have hg := h.guard e.thread
  -- what another call builds is held before, and not by this one
  have hothers : ∀ j pk, j ≠ e.thread → (phases j).builds = some pk →
      Assembling e.after pk ∧ m.builds ≠ some pk := fun j pk hj hb =>
    hstep.others hg (h.held j pk hb) fun hk => hj (h.one j e.thread pk hb hk)
  constructor
  · exact hstep.sound hg
  · intro j pk hb
    by_cases hj : j = e.thread
    · subst hj
      rw [Function.update_self] at hb
      exact (hstep.guard hg).2 pk hb
    · rw [Function.update_of_ne hj] at hb
      exact (hothers j pk hj hb).1
  · intro i j pk hi hj
    by_cases hie : i = e.thread
    · by_cases hje : j = e.thread
      · rw [hie, hje]
      · rw [hie, Function.update_self] at hi
        rw [Function.update_of_ne hje] at hj
        exact absurd hi (hothers j pk hje hj).2
    · rw [Function.update_of_ne hie] at hi
      by_cases hje : j = e.thread
      · rw [hje, Function.update_self] at hj
        exact absurd hj (hothers i pk hie hi).2
      · rw [Function.update_of_ne hje] at hj
        exact h.one i j pk hi hj

/-- **The rule of the export side.** What every step of the protocol adds to exclusion, every
run has: an invariant of the past, the phases and the store. -/
theorem runs_invariant (hs : Sound start) (hmay : ∀ k op, may k op → op.outside = true)
    {J : List (Pool.Event κ ExportOp ExportDb) → (κ → Phase) → ExportDb → Prop}
    {H : List (Pool.Event κ ExportOp ExportDb) → Pool.Event κ ExportOp ExportDb → Prop}
    (hJ : ∀ past phases (e : Pool.Event κ ExportOp ExportDb) m, Exclusive phases e.before →
      J past phases e.before →
      Step (calls e.thread).1 (phases e.thread) e.label e.ok e.before e.after m → H past e →
      J (past ++ [e]) (Function.update phases e.thread m) e.after)
    (hstart : J [] (fun _ => .idle) start) (hrun : Pool.Runs may (callers calls) start tr P db)
    (hH : ∀ pre e post, tr = pre ++ e :: post → H pre e) :
    ∃ phases, Exclusive phases db ∧ J tr phases db ∧ ∀ k, (P k).Done → phases k = .idle := by
  have htyped : Pool.Phased Guard Later may (fun k => Step (calls k).1) (fun _ => atRest)
      (fun _ => atRest) (callers calls) (fun _ => .idle) start :=
    fun k => (calls k).2.typed (hmay k) (calls k).1
  obtain ⟨phases, hend, hexcl, hj⟩ := Pool.Runs.phased (R := Later) Later.refl Later.trans
    (J := fun past phases db => Exclusive phases db ∧ J past phases db) 
    (fun _ _ _ h => h.1.guard) (fun past phases e m h hstep he =>
      ⟨⟨h.1.step hstep, hJ past phases e m h.1 h.2 hstep he⟩, hstep.later (h.1.guard e.thread)⟩)
    htyped ⟨exclusive_idle hs, hstart⟩ hrun hH
  refine ⟨phases, hexcl, hj, fun k hdone => ?_⟩
  rcases hend.finished Later.refl (hexcl.guard k) hdone with ⟨_, h⟩ | ⟨_, h⟩
  · exact h
  · exact h

end StapelGdpr.Export
