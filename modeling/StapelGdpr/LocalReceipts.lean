import StapelGdpr.Invariants
import StapelGdpr.Statements

/-!
# StapelGdpr.LocalReceipts

What a local receipt stands for. `execute_deletion` runs every provider twice over, collects the
sections that raised, and receipts the parts of the declared local owners that are registered
and not among them. `local_receipts` says so for a call in which any of its statements may fail,
the saving of a receipt apart: the part of a local owner is DONE afterwards exactly when it was
DONE before or both calls of its provider returned, every other part is as it was, and after a
provider that raised nothing of what follows the receipts happens.
-/

namespace StapelGdpr

open Prog

variable {env : Env} {op : Op} {db db' db₁ s t : Db} {plan : Op → Option Error} {userId : UserId}
  {closure : Stored AccountClosureRequest}

/-! ### One slot for each owner -/

/-- `(request, owner)` is unique among the parts. -/
def Slotted (l : Ledger) : Prop :=
  ∀ i j p q, l.parts.get? i = some p → l.parts.get? j = some q → p.request = q.request →
    p.owner = q.owner → i = j

/-- The slots of a new request have distinct owners. -/
theorem nodup_slots {st : String} {request : Nat} (h : env.distinctOwners st = true) :
    ((env.slots st request).map (·.owner)).Nodup := by
  have hnames : (env.slots st request).map (·.owner) =
      (env.report.ownersFor st).map DataOwner.name := by
    rw [Env.slots, List.map_map]
    rfl
  rw [hnames]
  exact of_decide_eq_true h

/-- Only the opening of an erasure adds parts, and what it adds are slots. -/
theorem Move.slots {i : Nat} {p : ErasurePart} (h : Move env op db db')
    (hno : db.parts.get? i = none) (hp : db'.parts.get? i = some p) :
    ∃ st, env.distinctOwners st = true ∧
      db'.parts = db.parts.insertAll (env.slots st db.requests.nextPk) := by
  cases h with
  | @erasureOpened _ _ st sk args request ho =>
      obtain ⟨by', -, -, -, hdistinct, hdb⟩ := openErasure_ok ho
      exact ⟨st, hdistinct, by rw [hdb]⟩
  | obligation hr ho =>
      obtain ⟨-, -, -, rfl⟩ := createObligation_ok ho
      exact absurd (hp.symm.trans hno) (by simp)
  | localReceipt | receipted | partsTimedOut =>
      simp only [Table.get?_modify, Table.get?_update, hno] at hp
      simp at hp
  | _ => exact absurd (hp.symm.trans hno) (by simp)

theorem Slotted.step (hs : Slotted db.toLedger) (hl : Linked db.toLedger)
    (h : Move env op db db') : Slotted db'.toLedger := by
  intro i j p q hp hq hreq howner
  rcases h.parts.row hp with ⟨p₀, hp₀, hstep⟩ | ⟨hpno, hpnew⟩
  · obtain ⟨hreq₀, howner₀, -⟩ := hstep.slot
    rcases h.parts.row hq with ⟨q₀, hq₀, hstep'⟩ | ⟨-, hqnew⟩
    · obtain ⟨hreq₁, howner₁, -⟩ := hstep'.slot
      exact hs i j p₀ q₀ hp₀ hq₀ (by rw [← hreq₀, ← hreq₁, hreq])
        (by rw [← howner₀, ← howner₁, howner])
    · have hold := hl i p₀ hp₀
      have hnew := hqnew.request
      omega
  · rcases h.parts.row hq with ⟨q₀, hq₀, hstep'⟩ | ⟨hqno, -⟩
    · have hold := hl j q₀ hq₀
      have hnew := hpnew.request
      have hreq₁ := hstep'.slot.1
      omega
    · -- both are slots of the request that is opened
      obtain ⟨st, hdistinct, hparts⟩ := h.slots hpno hp
      rw [hparts] at hp hq
      obtain ⟨a, ha, hpa⟩ := Table.get?_insertAll_new hpno hp
      obtain ⟨b, hb, hqb⟩ := Table.get?_insertAll_new hqno hq
      have hmap : ∀ {k : Nat} {r : ErasurePart}, (env.slots st db.requests.nextPk)[k]? = some r →
          ((env.slots st db.requests.nextPk).map (·.owner))[k]? = some r.owner := by
        intro k r hr
        rw [List.getElem?_map, hr]
        rfl
      have hlt : a < ((env.slots st db.requests.nextPk).map (·.owner)).length := by
        rw [List.length_map]
        exact (List.getElem?_eq_some_iff.mp hpa).1
      have hab : a = b := (List.getElem?_inj hlt (nodup_slots hdistinct)).mp (by
        rw [hmap hpa, hmap hqb, howner])
      omega

theorem Reachable.slotted (h : Reachable s) : Slotted s.toLedger := by
  have hboth : Linked s.toLedger ∧ Slotted s.toLedger :=
    h.induct (P := fun db => Linked db.toLedger ∧ Slotted db.toLedger)
      (fun _ _ _ _ hm hc => ⟨hc.1.step hm, hc.2.step hc.1 hm⟩) (fun _ _ _ _ hc => hc)
      ⟨fun i p hp => absurd hp (by simp [Table.get?]),
        fun i j p q hp => absurd hp (by simp [Table.get?])⟩
  exact hboth.2

theorem Slotted.evolves {l l' : Ledger} (h : Slotted l) {R : Nat → ErasurePart → ErasurePart → Prop}
    (hev : Table.Evolves R (fun _ _ => False) l.parts l'.parts)
    (hR : ∀ i p p', R i p p' → p'.request = p.request ∧ p'.owner = p.owner) : Slotted l' := by
  intro i j p' q' hp hq hreq howner
  obtain ⟨p, hp₀, hRp⟩ := (hev.row hp).resolve_right fun hnew => hnew.2
  obtain ⟨q, hq₀, hRq⟩ := (hev.row hq).resolve_right fun hnew => hnew.2
  obtain ⟨hpr, hpo⟩ := hR i p p' hRp
  obtain ⟨hqr, hqo⟩ := hR j q q' hRq
  exact h i j p q hp₀ hq₀ (by rw [← hpr, ← hqr, hreq]) (by rw [← hpo, ← hqo, howner])

/-! ### The two loops over the providers -/

/-- One of the two calls of the section's provider raised. -/
def Raised (plan : Op → Option Error) (userId : UserId) (name : String) : Prop :=
  plan (.anonymize name userId) ≠ none ∨ plan (.delete name userId) ≠ none

/-- A loop that collects the names whose call raised. -/
theorem collect_under {E : Error → Db → Prop} {label : String → Op}
    {f : List String → String → Program (List String)} {names start : List String}
    (hf : ∀ failed name, Under plan (fun failed' t => t = s ∧ ∀ n, n ∈ failed' ↔
      n ∈ failed ∨ n = name ∧ plan (label name) ≠ none) E (f failed name) s) :
    Under plan (fun failed t => t = s ∧ ∀ n, n ∈ failed ↔
      n ∈ start ∨ n ∈ names ∧ plan (label n) ≠ none) E (names.foldlM f start) s := by
  have hloop : Under plan (fun failed t => t = s ∧ ∃ done, names = done ++ [] ∧ ∀ n, n ∈ failed ↔
      n ∈ start ∨ n ∈ done ∧ plan (label n) ≠ none) E (names.foldlM f start) s := by
    apply Under.foldlM (J := fun rest failed t => t = s ∧ ∃ done, names = done ++ rest ∧
      ∀ n, n ∈ failed ↔ n ∈ start ∨ n ∈ done ∧ plan (label n) ≠ none)
    · intro name rest failed t hJ
      obtain ⟨rfl, done, hnames, hfailed⟩ := hJ
      apply (hf failed name).imp
      · intro failed' t' h
        obtain ⟨rfl, hstep⟩ := h
        have hcut : names = (done ++ [name]) ++ rest := by rw [hnames]; simp
        refine ⟨rfl, done ++ [name], hcut, fun n => ?_⟩
        rw [hstep, hfailed, List.mem_append, List.mem_singleton]
        constructor
        · rintro ((h | h) | ⟨rfl, h⟩)
          · exact .inl h
          · exact .inr ⟨.inl h.1, h.2⟩
          · exact .inr ⟨.inr rfl, h⟩
        · rintro (h | ⟨h | rfl, h'⟩)
          · exact .inl (.inl h)
          · exact .inl (.inr ⟨h, h'⟩)
          · exact .inr ⟨rfl, h'⟩
      · intro e t' h
        exact h
    · exact ⟨rfl, [], rfl, fun n => by simp⟩
  apply hloop.imp
  · intro failed t h
    obtain ⟨ht, done, hdone, hfailed⟩ := h
    rw [List.append_nil] at hdone
    exact ⟨ht, hdone ▸ hfailed⟩
  · intro e t h
    exact h

theorem anonymizeSection_under {E : Error → Db → Prop} {failed : List String} {name : String} :
    Under plan (fun failed' t => t = s ∧ ∀ n, n ∈ failed' ↔
      n ∈ failed ∨ n = name ∧ plan (.anonymize name userId) ≠ none) E
      (anonymizeSection userId failed name) s := by
  unfold anonymizeSection
  rw [under_tryCatch, under_bind, Prog.external, under_query]
  cases hp : plan (.anonymize name userId) with
  | none => exact ⟨rfl, fun n => by simp⟩
  | some e => exact ⟨rfl, fun n => by simp⟩

theorem deleteSection_under {E : Error → Db → Prop} {failed : List String} {name : String} :
    Under plan (fun failed' t => t = s ∧ ∀ n, n ∈ failed' ↔
      n ∈ failed ∨ n = name ∧ plan (.delete name userId) ≠ none) E
      (deleteSection userId failed name) s := by
  unfold deleteSection
  rw [under_tryCatch, under_bind, Prog.external, under_query]
  cases hp : plan (.delete name userId) with
  | none => exact ⟨rfl, fun n => by simp⟩
  | some e =>
      refine ⟨rfl, fun n => ?_⟩
      -- a crash is collected once
      by_cases hin : name ∈ failed
      · rw [if_pos hin]
        constructor
        · exact .inl
        · rintro (h | ⟨rfl, -⟩)
          · exact h
          · exact hin
      · rw [if_neg hin]
        simp

/-- `_run_deletion_inprocess` touches nothing here, and returns the sections that raised. -/
theorem runDeletionInprocess_under {E : Error → Db → Prop} :
    Under plan (fun failed t => t = s ∧ ∀ n, n ∈ failed ↔
      n ∈ env.sections ∧ Raised plan userId n) E (runDeletionInprocess env userId) s := by
  unfold runDeletionInprocess
  rw [under_bind]
  apply (collect_under fun _ _ => anonymizeSection_under).imp
  · intro failed t h
    obtain ⟨rfl, hfirst⟩ := h
    apply (collect_under fun _ _ => deleteSection_under).imp
    · intro failed' t' h'
      obtain ⟨ht', hsecond⟩ := h'
      refine ⟨ht', fun n => ?_⟩
      rw [hsecond, hfirst, Raised]
      simp only [List.not_mem_nil, false_or]
      exact and_or_left.symm
    · intro e t' h'
      exact h'
  · intro e t h
    exact h

/-! ### The loop over the owners -/

/-- The part's owner is one of these, local, registered, and its provider did not raise. -/
def Served (env : Env) (request : Nat) (failed : List String) (owners : List DataOwner)
    (p : ErasurePart) : Prop :=
  p.request = request ∧ ∃ o ∈ owners, o.name = p.owner ∧ o.isLocal = true ∧ o.name ∉ failed ∧
    o.name ∉ env.report.missing

/-- What the receipts of these owners make of a part. -/
structure Receipted (env : Env) (request : Nat) (failed : List String) (owners : List DataOwner)
    (p p' : ErasurePart) : Prop where
  ofRequest : p'.request = p.request
  ofOwner : p'.owner = p.owner
  served : Served env request failed owners p → p'.state = .done
  others : ¬ Served env request failed owners p → p' = p

variable {request : Nat} {failed : List String} {owners : List DataOwner} {o : DataOwner}
  {p p' p₁ : ErasurePart}

theorem served_append : Served env request failed (owners ++ [o]) p ↔
    Served env request failed owners p ∨ Served env request failed [o] p := by
  simp only [Served, List.mem_append, or_and_right, exists_or, and_or_left]

theorem Served.slot (h : Served env request failed owners p) (hreq : p₁.request = p.request)
    (howner : p₁.owner = p.owner) : Served env request failed owners p₁ := by
  unfold Served at h ⊢
  rw [hreq, howner]
  exact h

/-- A part that is not served is left as it is. -/
theorem Receipted.same (h : Served env request failed owners p → p.state = .done) :
    Receipted env request failed owners p p := ⟨rfl, rfl, h, fun _ => rfl⟩

theorem Receipted.append (h : Receipted env request failed owners p p₁)
    (h' : Receipted env request failed [o] p₁ p') :
    Receipted env request failed (owners ++ [o]) p p' where
  ofRequest := h'.ofRequest.trans h.ofRequest
  ofOwner := h'.ofOwner.trans h.ofOwner
  served hserved := by
    by_cases hlast : Served env request failed [o] p₁
    · exact h'.served hlast
    · rw [h'.others hlast]
      rcases served_append.mp hserved with hbefore | hnow
      · exact h.served hbefore
      · exact absurd (hnow.slot h.ofRequest h.ofOwner) hlast
  others hskip := by
    have hbefore : ¬ Served env request failed owners p :=
      fun hserved => hskip (served_append.mpr (.inl hserved))
    have hp₁ := h.others hbefore
    have hlast : ¬ Served env request failed [o] p₁ :=
      fun hserved => hskip (served_append.mpr (.inr (hp₁ ▸ hserved)))
    rw [h'.others hlast, hp₁]

/-- One owner of `_record_local_receipts`. -/
theorem recordLocalReceipt_under {E : Error → Db → Prop} (hselect : plan .select = none)
    (hplan : ∀ i, plan (.localReceipt i) = none) (hs : Slotted s.toLedger) :
    Under plan (fun _ t => Table.Evolves (fun _ => Receipted env request failed [o])
      (fun _ _ => False) s.parts t.parts) E (recordLocalReceipt env request failed o) s := by
  unfold recordLocalReceipt
  split
  · rename_i hskip
    refine .refl fun i p _ => .same fun hserved => ?_
    obtain ⟨-, o', ho', -, hlocal, hfailed, hmissing⟩ := hserved
    obtain rfl := List.mem_singleton.mp ho'
    simp [hlocal, hfailed, hmissing] at hskip
  rename_i hserve
  simp only [not_or, Bool.not_eq_false] at hserve
  obtain ⟨hlocal, hfailed, hmissing⟩ := hserve
  rw [under_bind, Program.select, under_query, hselect, Option.elim_none]
  cases hfound : s.parts.first? fun p => p.request = request && p.owner = o.name with
  | none =>
      refine .refl fun i p hp => .same fun hserved => ?_
      obtain ⟨hreq, o', ho', howner, -⟩ := hserved
      obtain rfl := List.mem_singleton.mp ho'
      have hno := Table.first?_none.mp hfound i p hp
      simp [hreq, howner] at hno
  | some part =>
      obtain ⟨hget, hslot⟩ := Table.first?_some hfound
      simp only [Bool.and_eq_true, decide_eq_true_eq] at hslot
      -- the slot is this part and no other
      have honly : ∀ i p, s.parts.get? i = some p → Served env request failed [o] p →
          i = part.pk ∧ p = part.row := by
        intro i p hp hserved
        obtain ⟨hreq, o', ho', howner, -⟩ := hserved
        obtain rfl := List.mem_singleton.mp ho'
        obtain rfl := hs i part.pk p part.row hp hget (by rw [hreq, hslot.1]) (by
          rw [← howner, hslot.2])
        rw [hget] at hp
        exact ⟨rfl, (Option.some.inj hp).symm⟩
      dsimp only
      split
      · rename_i hdone
        refine .refl fun i p hp => .same fun hserved => ?_
        rw [(honly i p hp hserved).2]
        exact hdone
      · rw [under_write, hplan, Option.elim_none]
        refine .modify (fun i p hp hne => .same fun hserved => absurd (honly i p hp hserved).1 hne)
          fun p hp => ⟨rfl, rfl, fun _ => rfl, fun hskip => ?_⟩
        rw [hget] at hp
        obtain rfl := Option.some.inj hp
        have hserved : Served env request failed [o] part.row :=
          ⟨hslot.1, o, List.mem_singleton.mpr rfl, hslot.2.symm, hlocal, hfailed, hmissing⟩
        exact absurd hserved hskip

/-- `_record_local_receipts`. -/
theorem recordLocalReceipts_under {E : Error → Db → Prop} {erasure : Stored ErasureRequest}
    (hselect : plan .select = none) (hplan : ∀ i, plan (.localReceipt i) = none)
    (hs : Slotted s.toLedger) :
    Under plan (fun _ t => Table.Evolves (fun _ => Receipted env erasure.pk failed
        (env.report.ownersFor erasure.row.subjectType)) (fun _ _ => False) s.parts t.parts) E
      (recordLocalReceipts env erasure failed) s := by
  have hloop : Under plan (fun _ t => ∃ done, env.report.ownersFor erasure.row.subjectType =
      done ++ [] ∧ Table.Evolves (fun _ => Receipted env erasure.pk failed done)
        (fun _ _ => False) s.parts t.parts) E (recordLocalReceipts env erasure failed) s := by
    unfold recordLocalReceipts
    apply Under.forM (J := fun rest (t : Db) => ∃ done,
      env.report.ownersFor erasure.row.subjectType = done ++ rest ∧
        Table.Evolves (fun _ => Receipted env erasure.pk failed done) (fun _ _ => False)
          s.parts t.parts)
    · intro o rest t hJ
      obtain ⟨done, hcut, hev⟩ := hJ
      have ht : Slotted t.toLedger := hs.evolves hev fun _ _ _ h => ⟨h.ofRequest, h.ofOwner⟩
      apply (recordLocalReceipt_under hselect hplan ht).imp
      · intro _ t' hnow
        refine ⟨done ++ [o], by rw [hcut]; simp, ?_⟩
        exact hev.comp hnow (fun _ _ _ _ h h' => h.append h') (fun _ _ _ h _ => h) fun _ _ h => h
      · intro e t' h
        exact h
    · refine ⟨[], rfl, .refl fun i p _ => .same fun hserved => ?_⟩
      obtain ⟨-, o, ho, -⟩ := hserved
      exact absurd ho List.not_mem_nil
  apply hloop.imp
  · intro _ t h
    obtain ⟨done, hdone, hev⟩ := h
    rw [hdone, List.append_nil]
    exact hev
  · intro e t h
    exact h

/-! ### An execution, cut at its receipts -/

/-- `execute_deletion` after the hold check, up to its erasure: found, or opened now. -/
def obtainErasure (env : Env) (closure : Stored AccountClosureRequest) :
    Program (Uuid × Stored ErasureRequest × Bool) := do
  let correlationId ← startDeleting env closure
  let (erasure, created) ← closureErasure env
    ⟨closure.pk, closure.row.startDeleting correlationId env.report.version⟩ correlationId
  return (correlationId, erasure, created)

/-- From there to the receipts: the sections that failed. -/
def deleteLocally (env : Env) (userId : UserId) (erasure : Stored ErasureRequest) :
    Program (List String) := do
  storeReregistrationHashes env userId
  let failed ← runDeletionInprocess env userId
  recordLocalReceipts env erasure failed
  return failed

/-- `execute_deletion` from `if failed` on. -/
def finishDeletion (env : Env) (closure : Stored AccountClosureRequest) (correlationId : Uuid)
    (erasure : Stored ErasureRequest) (created : Bool) (failed : List String) : Program Unit :=
  let started : Stored AccountClosureRequest :=
    ⟨closure.pk, closure.row.startDeleting correlationId env.report.version⟩
  if failed ≠ [] then return ()
  else do
    let erased ← identityErased env closure.row.userId
    if erased = false then return ()
    else do
      Prog.write (.identityErased closure.pk) fun db => { db with
        closures := db.closures.modify closure.pk (·.eraseIdentity env.now) }
      Prog.write (.localDoneUnit closure.pk) fun db => Db.emit { db with
        closures := db.closures.modify closure.pk (·.finishLocal) }
        [.userDeleted closure.row.userId correlationId closure.row.trigger]
      let erased := (started.row.eraseIdentity env.now).finishLocal
      maybeFinalize env erasure (if created then some ⟨closure.pk, erased⟩ else none)

theorem executeDeletion_eq (closure : Stored AccountClosureRequest) :
    executeDeletion env closure = (do
      let held ← Program.select (·.isHeld closure.row.userId)
      if held then Program.valueError "legal_hold"
      else do
        let (correlationId, erasure, created) ← obtainErasure env closure
        let failed ← deleteLocally env closure.row.userId erasure
        finishDeletion env closure correlationId erasure created failed) := by
  unfold executeDeletion obtainErasure deleteLocally finishDeletion eraseSubject
  simp only [Prog.bind_assoc, Prog.pure_def, Prog.ret_bind]
  congr 1
  funext held
  split
  · rfl
  congr 1
  funext correlationId
  congr 1
  funext obtained
  congr 1
  funext _
  congr 1
  funext failed
  congr 1
  funext _
  by_cases hfailed : failed = []
  · rw [if_neg (not_not_intro hfailed), if_neg (not_not_intro hfailed), Prog.bind_assoc]
    congr 1
    funext erased
    split
    · rfl
    · rfl
  · rw [if_pos hfailed, if_pos hfailed]
    rfl

/-! ### What its parts do to the store -/

/-- No `user.deleted` went out, and the flags of every closure are as they were. -/
structure Withheld (a b : Db) : Prop where
  flags : ∀ k c, a.closures.get? k = some c → ∃ c', b.closures.get? k = some c' ∧
    c'.localErasureDone = c.localErasureDone ∧ c'.identityErasedAt = c.identityErasedAt
  emitted : ∃ actions, b.outbox = a.outbox ++ actions ∧
    ∀ user id trigger, Action.userDeleted user id trigger ∉ actions

theorem Withheld.same (hc : t.closures = s.closures) (ho : t.outbox = s.outbox) : Withheld s t where
  flags k c hrow := ⟨c, hc ▸ hrow, rfl, rfl⟩
  emitted := ⟨[], by rw [ho, List.append_nil], by simp⟩

theorem Withheld.trans (h : Withheld db s) (h' : Withheld s t) : Withheld db t where
  flags k c hrow := by
    obtain ⟨c₁, hrow₁, hdone₁, hat₁⟩ := h.flags k c hrow
    obtain ⟨c₂, hrow₂, hdone₂, hat₂⟩ := h'.flags k c₁ hrow₁
    exact ⟨c₂, hrow₂, hdone₂.trans hdone₁, hat₂.trans hat₁⟩
  emitted := by
    obtain ⟨actions, hout, hno⟩ := h.emitted
    obtain ⟨actions', hout', hno'⟩ := h'.emitted
    have hall : t.outbox = db.outbox ++ (actions ++ actions') := by
      rw [hout', hout, List.append_assoc]
    refine ⟨actions ++ actions', hall, fun user id trigger hmem => ?_⟩
    rcases List.mem_append.mp hmem with hmem | hmem
    · exact hno user id trigger hmem
    · exact hno' user id trigger hmem

/-- The parts are kept, and those that are added are pending. -/
abbrev Opens (a b : Db) : Prop :=
  Table.Evolves (fun _ p p' => p' = p) (fun _ p => p.state = .pending) a.parts b.parts

theorem Opens.refl (a : Db) : Opens a a := Table.Evolves.refl fun _ _ _ => rfl

theorem Opens.trans (h : Opens db s) (h' : Opens s t) : Opens db t :=
  Table.Evolves.trans h h' (fun _ _ _ _ hp hp' => hp'.trans hp) fun _ _ _ hp hp' => hp' ▸ hp

/-- What obtaining the erasure does, statement by statement. -/
def Obtains (env : Env) (a b : Db) : Prop := (∃ op, Move env op a b) ∧ Withheld a b ∧ Opens a b

theorem obtainErasure_obtains : Always (fun _ => Obtains env) (obtainErasure env closure) := by
  have hidle : ∀ a : Db, Obtains env a a := fun a =>
    ⟨⟨.select, .idle⟩, .same rfl rfl, .refl a⟩
  have hstart : Always (fun _ => Obtains env) (startDeleting env closure) := by
    refine startDeleting_always fun a => ⟨hidle a, ⟨_, .deletionStarted _ _⟩, ⟨?_, ?_⟩, .refl a⟩
    · intro k c hrow
      show ∃ c', (a.closures.modify closure.pk _).get? k = some c' ∧ _
      rw [Table.get?_modify, hrow]
      split
      · exact ⟨_, rfl, rfl, rfl⟩
      · exact ⟨c, rfl, rfl, rfl⟩
    · exact ⟨[], (List.append_nil _).symm, by simp⟩
  refine hstart.bind fun id => Always.bind (closureErasure_always hidle fun a => ⟨hidle a, ?_⟩)
    fun _ => always_ret
  intro request b hopen
  obtain ⟨by', -, -, -, -, hb⟩ := openErasure_ok hopen
  have hclosures : b.closures = a.closures := by rw [hb]
  refine ⟨⟨_, .erasureOpened hopen⟩, ⟨fun k c hrow => ⟨c, hclosures ▸ hrow, rfl, rfl⟩, ?_⟩, ?_⟩
  · rw [hb]
    exact ⟨_, rfl, by simp [ErasureArgs.announcement]⟩
  · rw [hb]
    refine Table.Evolves.insertAll (R := fun _ p p' => p' = p) (fun _ _ _ => rfl) fun _ p hp => ?_
    obtain ⟨o, -, rfl⟩ := mem_slots.mp hp
    rfl

/-- An execution that has obtained its erasure can query the store. -/
theorem obtainErasure_select {obtained : Uuid × Stored ErasureRequest × Bool}
    (h : (obtainErasure env closure).runUnder plan db = (.ok obtained, db₁)) :
    plan .select = none := by
  by_contra hfails
  obtain ⟨e, he⟩ := Option.ne_none_iff_exists'.mp hfails
  have hraises : Under plan (fun _ _ => False) (fun _ _ => True)
      (obtainErasure env closure) db := by
    unfold obtainErasure startDeleting
    rw [under_bind, under_atomic]
    cases plan (.startDeleting closure.pk) with
    | some e' => trivial
    | none =>
        simp only [Option.elim_none]
        unfold closureErasure
        rw [under_bind, under_bind, Program.select, under_query, he]
        trivial
  exact hraises.returned h

theorem deleteLocally_under {E : Error → Db → Prop} {erasure : Stored ErasureRequest}
    (hselect : plan .select = none) (hplan : ∀ i, plan (.localReceipt i) = none)
    (hs : Slotted s.toLedger) :
    Under plan (fun failed t => (∀ n, n ∈ failed ↔ n ∈ env.sections ∧ Raised plan userId n) ∧
      Table.Evolves (fun _ => Receipted env erasure.pk failed
        (env.report.ownersFor erasure.row.subjectType)) (fun _ _ => False) s.parts t.parts) E
      (deleteLocally env userId erasure) s := by
  have hhashes : Under plan (fun _ t => t.parts = s.parts) E
      (storeReregistrationHashes env userId) s := by
    have hsteps : Always (fun _ (a b : Db) => b.parts = a.parts)
        (storeReregistrationHashes env userId) :=
      storeReregistrationHashes_always (fun _ => rfl) fun _ _ => rfl
    apply Under.caught
    exact hsteps.under (I := fun t => t.parts = s.parts) (fun _ _ hab ha => hab.trans ha) rfl
  unfold deleteLocally
  rw [under_bind]
  apply hhashes.imp
  · intro _ s₁ hparts
    rw [under_bind]
    apply runDeletionInprocess_under.imp
    · intro failed s₂ h
      obtain ⟨rfl, hfailed⟩ := h
      have hslotted : Slotted s₂.toLedger := by
        intro i j p q hp hq
        rw [hparts] at hp hq
        exact hs i j p q hp hq
      rw [under_bind]
      apply (recordLocalReceipts_under hselect hplan hslotted).imp
      · intro _ t hev
        rw [hparts] at hev
        exact ⟨hfailed, hev⟩
      · intro e t h
        exact h
    · intro e t h
      exact h
  · intro e t h
    exact h

theorem deleteLocally_withheld {erasure : Stored ErasureRequest} :
    Always (fun _ => Withheld) (deleteLocally env userId erasure) := by
  refine (storeReregistrationHashes_always (fun _ => .same rfl rfl)
    fun _ _ => .same rfl rfl).bind fun _ => ?_
  refine (runDeletionInprocess_always (fun _ _ => .same rfl rfl)
    fun _ _ => .same rfl rfl).bind fun failed => ?_
  refine (recordLocalReceipts_always (fun _ => .same rfl rfl)
    fun _ _ => ⟨.same rfl rfl, fun _ => .same rfl rfl⟩).bind fun _ => always_ret

theorem obtainErasure_labels {user : UserId} :
    Labels (· ≠ Op.eraseIdentity user) (obtainErasure env closure) :=
  (startDeleting_always fun _ => ⟨by simp, by simp⟩).bind fun _ =>
    (closureErasure_always (fun _ => by simp) fun _ => ⟨by simp, fun _ _ _ => by simp⟩).bind
      fun _ => always_ret

/-- After a provider that raised the call returns. -/
theorem finishDeletion_raised {id : Uuid} {erasure : Stored ErasureRequest} {created : Bool}
    (h : failed ≠ []) : finishDeletion env closure id erasure created failed = .ret () := by
  unfold finishDeletion
  rw [if_pos h]
  rfl

theorem finishDeletion_parts {id : Uuid} {erasure : Stored ErasureRequest} {created : Bool} :
    Always (fun _ (a b : Db) => b.parts = a.parts)
      (finishDeletion env closure id erasure created failed) := by
  unfold finishDeletion
  dsimp only
  split
  · exact always_ret
  · refine (identityErased_always (fun _ => rfl) fun _ _ => rfl).bind fun erased => ?_
    split
    · exact always_ret
    · refine (Always.write fun _ => ⟨rfl, rfl⟩).bind fun _ => ?_
      refine (Always.write fun _ => ⟨rfl, rfl⟩).bind fun _ => ?_
      exact maybeFinalize_always {
        select := fun _ => rfl
        certify := fun _ _ => ⟨rfl, fun _ => rfl⟩
        query := fun _ _ _ => rfl
        obligation := fun _ _ _ => ⟨rfl, fun _ => rfl⟩
        delete := fun _ _ => ⟨rfl, fun _ => rfl⟩ }

/-! ### Local receipts -/

theorem mem_missing {name : String} : name ∈ env.report.missing ↔
    name ∉ env.sections ∧ ∃ o ∈ env.report.owners, o.isLocal = true ∧ o.name = name := by
  have hmem : name ∈ env.report.missing ↔ ∃ o ∈ env.report.owners,
      (o.isLocal = true ∧ o.name ∉ env.sections) ∧ o.name = name := by
    simp [Env.report, dataOwnerReport, and_assoc]
  rw [hmem]
  constructor
  · rintro ⟨o, ho, ⟨hlocal, hno⟩, rfl⟩
    exact ⟨hno, o, ho, hlocal, rfl⟩
  · rintro ⟨hno, o, ho, hlocal, rfl⟩
    exact ⟨o, ho, ⟨hlocal, hno⟩, rfl⟩

/-- The part of a declared local owner is served when its provider is registered and returned
twice. -/
theorem served_iff {subjectType : String}
    (hfailed : ∀ n, n ∈ failed ↔ n ∈ env.sections ∧ Raised plan userId n)
    (ho : o ∈ env.report.ownersFor subjectType) (hlocal : o.isLocal = true)
    (hreq : p.request = request) (howner : p.owner = o.name) :
    Served env request failed (env.report.ownersFor subjectType) p ↔
      o.name ∈ env.sections ∧ ¬ Raised plan userId o.name := by
  constructor
  · rintro ⟨-, o', ho', hname, hlocal', hran, hregistered⟩
    rw [hname, howner] at hran hregistered
    have hsection : o.name ∈ env.sections := by
      by_contra hno
      have hdeclared := (RegistryReport.mem_ownersFor.mp ho).1
      exact hregistered (mem_missing.mpr ⟨hno, o, hdeclared, hlocal, rfl⟩)
    exact ⟨hsection, fun hraised => hran ((hfailed _).mpr ⟨hsection, hraised⟩)⟩
  · rintro ⟨hsection, hran⟩
    refine ⟨hreq, o, ho, howner.symm, hlocal, fun hmem => ?_, fun hmem => ?_⟩
    · exact hran ((hfailed _).mp hmem).2
    · exact (mem_missing.mp hmem).1 hsection

/-- The slot of a declared local owner that claims accounts. -/
def Env.servesLocally (env : Env) (name : String) : Prop :=
  ∃ o ∈ env.report.ownersFor subjectAccount, o.isLocal = true ∧ o.name = name

/-- What becomes of the store and which statements run, once the erasure was obtained. -/
theorem executeDeletion_obtained {id : Uuid} {erasure : Stored ErasureRequest} {created : Bool}
    (hheld : db.isHeld closure.row.userId = false)
    (hobtained : (obtainErasure env closure).runUnder plan db = (.ok (id, erasure, created), db₁))
    (hselect : plan .select = none) :
    (executeDeletion env closure).runUnder plan db =
        (deleteLocally env closure.row.userId erasure >>=
          finishDeletion env closure id erasure created).runUnder plan db₁ ∧
      (executeDeletion env closure).labelsUnder plan db = .select ::
        ((obtainErasure env closure).labelsUnder plan db ++
          (deleteLocally env closure.row.userId erasure >>=
            finishDeletion env closure id erasure created).labelsUnder plan db₁) := by
  rw [executeDeletion_eq]
  constructor
  · rw [Program.select, Prog.query, Prog.step_bind, runUnder, hselect]
    simp only [Prog.ret_bind, id_eq, hheld, Bool.false_eq_true, if_false]
    rw [runUnder_bind, hobtained]
  · rw [Program.select, Prog.query, Prog.step_bind, labelsUnder, hselect]
    simp only [Prog.ret_bind, id_eq, hheld, Bool.false_eq_true, if_false]
    rw [labelsUnder_bind, hobtained]

/-- The store an execution reaches once its erasure is obtained: the slots are still unique, and
the parts and flags are as they were. -/
theorem obtainErasure_ok {obtained : Uuid × Stored ErasureRequest × Bool} (hs : Reachable db)
    (h : (obtainErasure env closure).runUnder plan db = (.ok obtained, db₁)) :
    Slotted db₁.toLedger ∧ Withheld db db₁ ∧ Opens db db₁ := by
  have hkept : Under plan
      (fun _ t => (Linked t.toLedger ∧ Slotted t.toLedger) ∧ Withheld db t ∧ Opens db t)
      (fun _ t => (Linked t.toLedger ∧ Slotted t.toLedger) ∧ Withheld db t ∧ Opens db t)
      (obtainErasure env closure) db := by
    apply obtainErasure_obtains.under
      (I := fun t => (Linked t.toLedger ∧ Slotted t.toLedger) ∧ Withheld db t ∧ Opens db t)
    · intro a b hab ha
      obtain ⟨⟨op, hmove⟩, hquiet, hopens⟩ := hab
      obtain ⟨⟨hlinked, hslotted⟩, hquiet', hopens'⟩ := ha
      exact ⟨⟨hlinked.step hmove, hslotted.step hlinked hmove⟩, hquiet'.trans hquiet,
        hopens'.trans hopens⟩
    · exact ⟨⟨hs.linked, hs.slotted⟩, .same rfl rfl, .refl db⟩
  obtain ⟨⟨-, hslotted⟩, hquiet, hopens⟩ := hkept.returned h
  exact ⟨hslotted, hquiet, hopens⟩

/-- The receipts are written, and nothing else happened if a provider raised. -/
def Booked (env : Env) (plan : Op → Option Error) (userId : UserId)
    (erasure : Stored ErasureRequest) (db db₁ t : Db) : Prop :=
  ∃ failed, (∀ n, n ∈ failed ↔ n ∈ env.sections ∧ Raised plan userId n) ∧
    Table.Evolves (fun _ => Receipted env erasure.pk failed
      (env.report.ownersFor erasure.row.subjectType)) (fun _ _ => False) db₁.parts t.parts ∧
    (failed ≠ [] → Withheld db t)

theorem booked_under {id : Uuid} {erasure : Stored ErasureRequest} {created : Bool}
    (hselect : plan .select = none) (hplan : ∀ i, plan (.localReceipt i) = none)
    (hs : Slotted db₁.toLedger) (hquiet : Withheld db db₁) :
    Under plan (fun _ t => Booked env plan closure.row.userId erasure db db₁ t)
      (fun _ t => Booked env plan closure.row.userId erasure db db₁ t)
      (deleteLocally env closure.row.userId erasure >>=
        finishDeletion env closure id erasure created) db₁ := by
  have hlocal : Under plan (fun _ t => Withheld db t) (fun _ t => Withheld db t)
      (deleteLocally env closure.row.userId erasure) db₁ :=
    deleteLocally_withheld.under (I := Withheld db) (fun _ _ hab ha => ha.trans hab) hquiet
  rw [under_bind]
  apply ((deleteLocally_under (E := fun _ _ => False) hselect hplan hs).and hlocal).imp
  · intro failed t h
    obtain ⟨⟨hfailed, hev⟩, ht⟩ := h
    by_cases hnone : failed = []
    · have hrest : Under plan (fun _ t' => t'.parts = t.parts) (fun _ t' => t'.parts = t.parts)
          (finishDeletion env closure id erasure created failed) t :=
        finishDeletion_parts.under (I := fun t' => t'.parts = t.parts)
          (fun _ _ hab ha => hab.trans ha) rfl
      apply hrest.imp
      · intro _ t' hparts
        exact ⟨failed, hfailed, hparts ▸ hev, fun h => absurd hnone h⟩
      · intro _ t' hparts
        exact ⟨failed, hfailed, hparts ▸ hev, fun h => absurd hnone h⟩
    · -- a provider raised, and the call returns here
      rw [finishDeletion_raised hnone]
      exact ⟨failed, hfailed, hev, fun _ => ht⟩
  · intro e t h
    exact h.1.elim

/-- The statements of an execution, when a provider raised. -/
theorem ops_raised {id : Uuid} {erasure : Stored ErasureRequest} {created : Bool}
    (hselect : plan .select = none) (hplan : ∀ i, plan (.localReceipt i) = none)
    (hs : Slotted db₁.toLedger) {user : UserId}
    (hraised : ∃ name ∈ env.sections, Raised plan closure.row.userId name) :
    Op.eraseIdentity user ∉ (deleteLocally env closure.row.userId erasure >>=
        finishDeletion env closure id erasure created).labelsUnder plan db₁ := by
  have hlocal : Labels (· ≠ Op.eraseIdentity user)
      (deleteLocally env closure.row.userId erasure) := by
    refine (storeReregistrationHashes_always (fun _ => by simp) fun _ _ => by simp).bind fun _ => ?_
    refine (runDeletionInprocess_always (fun _ _ => by simp) fun _ _ => by simp).bind fun _ => ?_
    exact (recordLocalReceipts_always (fun _ => by simp)
      fun _ _ => ⟨by simp, fun _ => by simp⟩).bind fun _ => always_ret
  have hends : Under plan (fun failed _ => ∀ n, n ∈ failed ↔
      n ∈ env.sections ∧ Raised plan closure.row.userId n) (fun _ _ => True)
      (deleteLocally env closure.row.userId erasure) db₁ :=
    (deleteLocally_under hselect hplan hs).imp (fun _ _ h => h.1) fun _ _ h => h
  rw [labelsUnder_bind, List.mem_append]
  rintro (hmem | hmem)
  · exact hlocal.labelsUnder db₁ _ hmem rfl
  · unfold Under at hends
    rcases hrun : (deleteLocally env closure.row.userId erasure).runUnder plan db₁ with
      ⟨e | failed, t⟩
    · rw [hrun] at hmem
      exact absurd hmem List.not_mem_nil
    · rw [hrun] at hends hmem
      obtain ⟨name, hname, hraised⟩ := hraised
      have hmember : name ∈ failed := (hends name).mpr ⟨hname, hraised⟩
      dsimp only at hmem
      rw [finishDeletion_raised (List.ne_nil_of_mem hmember)] at hmem
      exact absurd hmem List.not_mem_nil

/-- What a call that ended in `t` after the statements `ops` has made of the parts of its
erasure and of the store it started from. -/
structure LocalReceipts (env : Env) (plan : Op → Option Error) (userId : UserId) (request : Nat)
    (db t : Db) (ops : List Op) : Prop where
  /-- A local part is DONE if it was, or if its provider is registered and returned twice. -/
  locals : ∀ o ∈ env.report.ownersFor subjectAccount, o.isLocal = true → ∀ i p,
    t.parts.get? i = some p → p.request = request → p.owner = o.name →
    (p.state = .done ↔ (∃ q, db.parts.get? i = some q ∧ q.state = .done) ∨
      (o.name ∈ env.sections ∧ plan (.anonymize o.name userId) = none ∧
        plan (.delete o.name userId) = none))
  /-- Every other part is what it was. -/
  others : ∀ i p, db.parts.get? i = some p → ¬ (p.request = request ∧ env.servesLocally p.owner) →
    t.parts.get? i = some p
  /-- Or it was created by the call, and no receipt came in. -/
  added : ∀ i p, t.parts.get? i = some p → db.parts.get? i = none →
    ¬ (p.request = request ∧ env.servesLocally p.owner) → p.state = .pending
  /-- No part goes away. -/
  kept : ∀ i p, db.parts.get? i = some p → ∃ p', t.parts.get? i = some p' ∧
    p'.request = p.request ∧ p'.owner = p.owner
  /-- After a provider that raised: no erasure of the identity, no `user.deleted`, no flags. -/
  quiet : (∃ name ∈ env.sections, Raised plan userId name) →
    (∀ user, Op.eraseIdentity user ∉ ops) ∧ Withheld db t

/-- **A local receipt means that the local provider ran.** In a call that passes the hold check
and obtains its erasure, a call in which any statement may fail but the saving of a receipt. -/
theorem local_receipts {id : Uuid} {erasure : Stored ErasureRequest} {created : Bool}
    (hs : Reachable db) (hplan : ∀ i, plan (.localReceipt i) = none)
    (hheld : db.isHeld closure.row.userId = false)
    (hobtained : (obtainErasure env closure).runUnder plan db = (.ok (id, erasure, created), db₁))
    (haccount : erasure.row.subjectType = subjectAccount) :
    LocalReceipts env plan closure.row.userId erasure.pk db
      ((executeDeletion env closure).runUnder plan db).2
      ((executeDeletion env closure).labelsUnder plan db) := by
  have hselect := obtainErasure_select hobtained
  obtain ⟨hslotted, hquiet₁, hopens⟩ := obtainErasure_ok hs hobtained
  obtain ⟨hrun, hops⟩ := executeDeletion_obtained hheld hobtained hselect
  have hbooked : Booked env plan closure.row.userId erasure db db₁ ((deleteLocally env
      closure.row.userId erasure >>= finishDeletion env closure id erasure created).runUnder plan
        db₁).2 := (booked_under hselect hplan hslotted hquiet₁).store
  obtain ⟨failed, hfailed, hev, hquiet⟩ := hbooked
  rw [haccount] at hev
  rw [hrun, hops]
  refine ⟨?_, ?_, ?_, ?_, ?_⟩
  · intro o ho hlocal i p hp hreq howner
    obtain ⟨p₁, hp₁, hstep⟩ := (hev.row hp).resolve_right fun hnew => hnew.2
    have hserved := served_iff hfailed ho hlocal (hstep.ofRequest.symm.trans hreq)
      (hstep.ofOwner.symm.trans howner)
    have hbefore : p₁.state = .done ↔ ∃ q, db.parts.get? i = some q ∧ q.state = .done := by
      rcases hopens.row hp₁ with ⟨q, hq, rfl⟩ | ⟨hno, hpending⟩
      · constructor
        · intro hdone
          exact ⟨_, hq, hdone⟩
        · rintro ⟨q', hq', hdone⟩
          rw [hq] at hq'
          rw [Option.some.inj hq', hdone]
      · constructor
        · intro hdone
          rw [hpending] at hdone
          exact absurd hdone (by simp)
        · rintro ⟨q, hq, -⟩
          exact absurd (hq.symm.trans hno) (by simp)
    have hran : ¬ Raised plan closure.row.userId o.name ↔
        plan (.anonymize o.name closure.row.userId) = none ∧
          plan (.delete o.name closure.row.userId) = none := by
      rw [Raised, not_or, not_not, not_not]
    rw [← hbefore, ← hran, ← hserved]
    by_cases h : Served env erasure.pk failed (env.report.ownersFor subjectAccount) p₁
    · exact ⟨fun _ => .inr h, fun _ => hstep.served h⟩
    · rw [hstep.others h]
      exact ⟨.inl, fun hor => hor.resolve_right h⟩
  · intro i p hp hother
    obtain ⟨p₁, hp₁, rfl⟩ := hopens.kept hp
    obtain ⟨p₂, hp₂, hstep⟩ := hev.kept hp₁
    have hskip : ¬ Served env erasure.pk failed (env.report.ownersFor subjectAccount) p₁ := by
      rintro ⟨hreq, o, ho, hname, hlocal, -⟩
      exact hother ⟨hreq, o, ho, hlocal, hname⟩
    rw [hp₂, hstep.others hskip]
  · intro i p hp hno hother
    obtain ⟨p₁, hp₁, hstep⟩ := (hev.row hp).resolve_right fun hnew => hnew.2
    have hskip : ¬ Served env erasure.pk failed (env.report.ownersFor subjectAccount) p₁ := by
      rintro ⟨hreq, o, ho, hname, hlocal, -⟩
      refine hother ⟨hstep.ofRequest.trans hreq, o, ho, hlocal, ?_⟩
      rw [hname, hstep.ofOwner]
    rw [hstep.others hskip]
    rcases hopens.row hp₁ with ⟨q, hq, -⟩ | ⟨-, hpending⟩
    · exact absurd (hq.symm.trans hno) (by simp)
    · exact hpending
  · intro i p hp
    obtain ⟨p₁, hp₁, rfl⟩ := hopens.kept hp
    obtain ⟨p₂, hp₂, hstep⟩ := hev.kept hp₁
    exact ⟨p₂, hp₂, hstep.ofRequest, hstep.ofOwner⟩
  · intro hraised
    refine ⟨fun user hmem => ?_, hquiet ?_⟩
    · rcases List.mem_cons.mp hmem with heq | hmem
      · exact absurd heq (by simp)
      rcases List.mem_append.mp hmem with hmem | hmem
      · exact obtainErasure_labels.labelsUnder db _ hmem rfl
      · exact ops_raised hselect hplan hslotted hraised hmem
    · obtain ⟨name, hname, hraised⟩ := hraised
      exact List.ne_nil_of_mem ((hfailed name).mpr ⟨hname, hraised⟩)

/-- Two providers in process and one remote owner, on day 30. -/
def household : Env where
  settings := { dataOwners := .list [.bare "auth", .bare "profiles", .bare "media"] }
  sections := ["auth", "profiles"]
  now := days 30

/-- The second provider raises in its second call. -/
def profilesDown : Op → Option Error
  | .delete "profiles" _ => some .failure
  | _ => none

theorem local_receipts_household : ∃ request t ops,
    LocalReceipts household profilesDown "u1" request closing t ops ∧
      (t.parts.rows.map fun p => (p.owner, p.state)) =
        [("auth", .done), ("profiles", .pending), ("media", .pending)] := by
  have hok : ((obtainErasure household closed).runUnder profilesDown closing).1.toOption.map
      (fun obtained => obtained.2.1.row.subjectType) = some subjectAccount := by decide +kernel
  have hparts : (((executeDeletion household closed).runUnder profilesDown closing).2.parts.rows.map
      fun p => (p.owner, p.state)) =
        [("auth", .done), ("profiles", .pending), ("media", .pending)] := by decide +kernel
  rcases hrun : (obtainErasure household closed).runUnder profilesDown closing with
    ⟨e | ⟨id, erasure, created⟩, db₁⟩
  · rw [hrun] at hok
    exact absurd hok (by simp [Except.toOption])
  · rw [hrun] at hok
    have haccount : erasure.row.subjectType = subjectAccount := Option.some.inj hok
    have hheld : closing.isHeld closed.row.userId = false := by decide +kernel
    exact ⟨_, _, _, local_receipts reachable_closing (fun _ => rfl) hheld hrun haccount, hparts⟩

end StapelGdpr
