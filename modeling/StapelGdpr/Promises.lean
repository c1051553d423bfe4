import StapelGdpr.Finalization
import StapelGdpr.Lib.Pool

/-!
# StapelGdpr.Promises

What each of the calls that finish an erasure promises the others. A statement that clears the
way, the last receipt or the last flag, obliges its call to see the request flipped; the statement
that flips it obliges its call to finish, whatever the others write meanwhile
(`maybeFinalize_judged`, `finish_works`).

`markSectionErased_judged` and `executeDeletion_judged` are the judgments of the two entry points,
and `deletion_judged` that of an execution which has just opened the request.
-/

namespace StapelGdpr

open Prog

namespace JointErasure

/-! ### Steps and promises -/

section Promises

variable (j : JointErasure)

/-- The slots of the local owners are receipted. -/
def LocalsAnswered (l : Ledger) : Prop :=
  ∀ o ∈ j.owners, o.isLocal = true → j.Answered o.name l

/-- One statement of a call: it keeps to what the others rely on, and the flags go up behind the
local receipts. -/
def Effect (own : Bool) (op : Op) (a b : Db) : Prop :=
  j.Relies (!own) a b ∧ ∀ k, op = .localDoneUnit k → j.Sound a.toLedger →
    j.LocalsAnswered b.toLedger ∧ j.LocallyErased b.toLedger

/-- A call beside the others. -/
abbrev Works (own : Bool) {α : Type} (Q : α → Db → Prop) (E : Error → Db → Prop) (p : Program α)
    (s : Db) : Prop :=
  Beside (j.Relies own) (fun _ => False) (j.Effect own) Q E p s

/-- A statement that passes a milestone obliges the call to go on to the next one. -/
def Promise (own : Bool) {α : Type} (op : Op) (a b : Db) (p : Program α) : Prop :=
  j.Effect own op a b ∧
    Pool.Hands (j.Relies own) (fun _ => False) (j.Effect own) (fun t => j.Cleared t.toLedger)
      (fun t => j.Flipped t.toLedger) a b p ∧
    Pool.Hands (j.Relies own) (fun _ => False) (j.Effect own) (fun t => j.Flipped t.toLedger)
      (fun t => j.Finished t.toLedger) a b p

/-- A statement that passes no milestone. -/
def Still (own : Bool) (op : Op) (a b : Db) : Prop :=
  j.Effect own op a b ∧ (j.Cleared b.toLedger → j.Cleared a.toLedger) ∧
    (j.Flipped b.toLedger → j.Flipped a.toLedger)

/-- A part of a call, beside the others, in which it passes no milestone. -/
abbrev Looks (own : Bool) {α : Type} (Q : α → Db → Prop) (E : Error → Db → Prop) (p : Program α)
    (s : Db) : Prop :=
  Beside (j.Relies own) (fun _ => False) (j.Still own) Q E p s

/-- A call beside the others that keeps its promises. -/
abbrev Judged (own : Bool) {α : Type} (Q : α → Db → Prop) (E : Error → Db → Prop) (p : Program α)
    (s : Db) : Prop :=
  Safe (j.Relies own) (fun _ => False) (j.Promise own) Q E p s

end Promises

variable {j : JointErasure} {own : Bool} {op : Op} {a b s t : Db} {l : Ledger} {k pk : Nat}
  {name : String} {now : Time} {α : Type} {Q : α → Db → Prop} {E : Error → Db → Prop}
  {p : Program α} {C : Prop}

theorem Effect.of_ne (hne : ∀ k, op ≠ .localDoneUnit k) (h : j.Relies (!own) a b) :
    j.Effect own op a b :=
  ⟨h, fun k hop => absurd hop (hne k)⟩

theorem Effect.sound (h : j.Effect own op a b) (hs : j.Sound a.toLedger) : j.Sound b.toLedger :=
  (h.1 hs).1

theorem Effect.advances (h : j.Effect own op a b) (hs : j.Sound a.toLedger) :
    j.Advances a.toLedger b.toLedger :=
  (h.1 hs).2.1

theorem Still.promise (h : j.Still own op a b) : j.Promise own op a b p :=
  ⟨h.1, fun hno hb => absurd (h.2.1 hb) hno, fun hno hb => absurd (h.2.2 hb) hno⟩

theorem Judged.works (h : j.Judged own Q E p s) : j.Works own Q E p s :=
  Safe.imp h (fun _ _ _ _ hp => hp.1) (fun _ _ hq => hq) fun _ _ he => he

/-- Behind the flip there is nothing left to hand on. -/
theorem Works.behind (h : j.Works own Q E p s) (hs : j.Sound s.toLedger)
    (hf : j.Flipped s.toLedger) : j.Judged own Q E p s := by
  have hinv := Beside.inv (I := fun t => j.Sound t.toLedger ∧ j.Flipped t.toLedger) h
    (fun a b hR ha => ⟨(hR ha.1).1, (hR ha.1).2.1.flipped ha.2⟩)
    (fun op a b hM ha => ⟨hM.sound ha.1, (hM.advances ha.1).flipped ha.2⟩) ⟨hs, hf⟩
  apply hinv.imp
  · intro op a b p hstep
    obtain ⟨heffect, hsa, hfa⟩ := hstep
    exact Still.promise ⟨heffect, fun _ => hsa.cleared hfa, fun _ => hfa⟩
  · intro x t h
    exact h.1
  · intro e t h
    exact h.1

/-- What a call knows and no call undoes, it knows to the end. -/
theorem knows {β : Type} {Q : β → Db → Prop} {p : Program β} {I : Db → Prop}
    {G : Op → Db → Db → Program β → Prop} (hG : ∀ op a b p, G op a b p → j.Effect own op a b)
    (h : Safe (j.Relies own) (fun _ => False) G Q E p s)
    (hI : ∀ a b, j.Advances a.toLedger b.toLedger → I a → I b) (hs : j.Sound s.toLedger)
    (hi : I s) : Safe (j.Relies own) (fun _ => False) G
      (fun x t => Q x t ∧ j.Sound t.toLedger ∧ I t) (fun e t => E e t ∧ j.Sound t.toLedger ∧ I t)
      p s := by
  have hinv := Safe.inv (I := fun t => j.Sound t.toLedger ∧ I t) h
    (fun a b hR ha => ⟨(hR ha.1).1, hI a b (hR ha.1).2.1 ha.2⟩)
    (fun op a b p hp ha => ⟨(hG op a b p hp).sound ha.1,
      hI a b ((hG op a b p hp).advances ha.1) ha.2⟩) ⟨hs, hi⟩
  exact hinv.imp (fun _ _ _ _ hp => hp.1) (fun _ _ h => h) fun _ _ h => h

/-- Looking comes first, and the rest of the call keeps the promises. -/
theorem Looks.bind {β : Type} {P : β → Db → Prop} {p : Program β} {f : β → Program α}
    (h : j.Looks own P E p s) (hf : ∀ x t, P x t → j.Judged own Q E (f x) t) :
    j.Judged own Q E (p >>= f) s :=
  Safe.bind (Relies.refl own) (Safe.imp h (fun _ _ _ _ hstep => hstep.promise) (fun _ _ h => h)
    fun _ _ h => h) hf

theorem looks_select {g : Db → α} (h : ∀ a, j.Relies own s a → ∀ t, j.Relies own a t → Q (g a) t) :
    j.Looks own Q E (Program.select g) s :=
  Beside.query fun a ha =>
    ⟨⟨.of_ne (by simp) (.same rfl), id, id⟩, h a ha, fun hl => hl.elim⟩

/-! ### From the flip on -/

section Flip

variable {request : Stored ErasureRequest} {closure : Option (Stored AccountClosureRequest)}

/-- One processor: its row is there afterwards, whoever wrote it. -/
theorem getOrCreateObligation_works {anchor : Time} {window : Int}
    (hname : name ∈ j.env.settings.processors) (hw : 0 ≤ window)
    (hd : Representable (anchor + days window)) (hs : j.Sound s.toLedger) :
    j.Works own (fun _ t => j.Sound t.toLedger ∧ t.hasObligation j.pk name = true)
      (fun _ _ => False) (getOrCreateObligation (j.envAt now) j.pk anchor name window) s := by
  have hkept : ∀ {a t : Db}, j.Relies own a t → j.Sound a.toLedger ∧
      a.hasObligation j.pk name = true → j.Sound t.toLedger ∧ t.hasObligation j.pk name = true := by
    intro a t ht ha
    obtain ⟨hst, hadv, -⟩ := ht ha.1
    exact ⟨hst, hadv.obligations name ha.2⟩
  rw [getOrCreateObligation_eq hd]
  apply Safe.bind (Relies.refl own) (P := fun existing t => j.Sound t.toLedger ∧
    (existing = true → t.hasObligation j.pk name = true))
  · apply Beside.query
    intro a ha
    refine ⟨.of_ne (by simp) (.same rfl), fun t ht => ?_, fun hl => hl.elim⟩
    obtain ⟨hst, hadv, -⟩ := ht (ha hs).1
    exact ⟨hst, fun hhas => hadv.obligations name hhas⟩
  intro existing t ht
  obtain ⟨hst, hexisting⟩ := ht
  cases existing with
  | true => exact safe_ret.mpr fun u hu => hkept hu ⟨hst, hexisting rfl⟩
  | false =>
      apply Safe.tryCatch (Relies.refl own) (X := fun e u => e = .integrityError ∧
        j.Sound u.toLedger ∧ u.hasObligation j.pk name = true)
      · apply Beside.atomic
        · intro u hu
          have hsu := (hu hst).1
          have hop : ∀ k, Op.obligation j.pk name ≠ .localDoneUnit k := by simp
          cases hhas : u.hasObligation j.pk name with
          | true =>
              -- somebody else has inserted it since the lookup
              have hrefused : u.createObligation (newObligation (j.envAt now) j.pk anchor
                  (name, window)) = .error .integrityError := if_pos (.inl hhas)
              rw [hrefused]
              exact ⟨.of_ne hop (.same rfl), fun v hv => ⟨rfl, hkept hv ⟨hsu, hhas⟩⟩⟩
          | false =>
              have hinsert : ∀ who, j.Relies who u { u with obligations := (u.obligations.insert
                  (newObligation (j.envAt now) j.pk anchor (name, window))) } :=
                fun who => .obligation rfl hname hhas
              rw [createObligation_new (p := (name, window)) hhas hw]
              refine ⟨.of_ne hop (hinsert _), fun v hv => hkept hv ⟨(hinsert own hsu).1, ?_⟩⟩
              rw [hasObligation_insert]
              simp [newObligation]
        · intro u hu hl
          exact hl.elim
      · intro e u hu
        obtain ⟨rfl, hsu⟩ := hu
        unfold racedObligation
        rw [if_pos rfl]
        apply Safe.bind (Relies.refl own) (P := fun raced v => raced = true ∧ j.Sound v.toLedger ∧
          v.hasObligation j.pk name = true)
        · apply Beside.query
          intro v hv
          have hsv := hkept hv hsu
          exact ⟨.of_ne (by simp) (.same rfl), fun w hw => ⟨hsv.2, hkept hw hsv⟩,
            fun hl => hl.elim⟩
        · intro raced v hv
          obtain ⟨rfl, hsv⟩ := hv
          exact safe_ret.mpr fun w hw => hkept hw hsv

theorem recordSubprocessorObligations_works (hg : j.Gated now) (hreq : request.pk = j.pk)
    (hnow : request.row.completedAt = some now) (hs : j.Sound s.toLedger) :
    j.Works own (fun _ t => j.Sound t.toLedger ∧
        ∀ name ∈ j.env.settings.processors, t.hasObligation j.pk name = true) (fun _ _ => False)
      (recordSubprocessorObligations (j.envAt now) request) s := by
  obtain ⟨declared, hdecl⟩ := hg.declares
  have hread : declaredSubprocessors j.env.settings [] = .ok declared := hdecl.read
  have hnames : j.env.settings.processors = declared.map Prod.fst := by
    unfold Settings.processors
    rw [hread]
  unfold recordSubprocessorObligations
  rw [hdecl.read, hreq, hnow]
  apply Beside.post (Beside.foldlM (J := fun rest (_ : Nat) (t : Db) => j.Sound t.toLedger ∧
    (∀ p ∈ rest, p ∈ declared) ∧ ∀ p ∈ declared, p ∈ rest ∨ t.hasObligation j.pk p.1 = true)
    (Relies.refl own) ?_ ?_ ⟨hs, fun p hp => hp, fun p hp => .inl hp⟩)
  · intro _ t h
    obtain ⟨hst, -, hall⟩ := h
    refine ⟨hst, fun name hname => ?_⟩
    rw [hnames] at hname
    obtain ⟨p, hp, rfl⟩ := List.mem_map.mp hname
    exact (hall p hp).resolve_left List.not_mem_nil
  · intro e t h
    exact h
  · intro p rest written t h
    obtain ⟨hst, hsub, hall⟩ := h
    have hp := hsub p List.mem_cons_self
    have hname : p.1 ∈ j.env.settings.processors := by
      rw [hnames]
      exact List.mem_map_of_mem hp
    -- the processors done so far stay done while this one is written
    have hone : j.Works own _ _ (getOrCreateObligation (j.envAt now) j.pk now p.1 p.2) t :=
      getOrCreateObligation_works hname (hdecl.windows p hp) (hdecl.dates p hp) hst
    have hstep := knows (fun _ _ _ _ h => h) hone (I := fun u => ∀ q ∈ declared,
      q ∈ p :: rest ∨ u.hasObligation j.pk q.1 = true)
      (fun a b hadv ha q hq => (ha q hq).imp_right (hadv.obligations q.1)) hst hall
    apply Safe.bind (Relies.refl own) (hstep.post (fun _ _ h => h) fun _ _ h => h.1)
    intro created u hu
    obtain ⟨hwritten, hsu, hall'⟩ := hu
    apply safe_ret.mpr
    intro v hv
    obtain ⟨hsv, hadv, -⟩ := hv hsu
    refine ⟨hsv, fun q hq => hsub q (List.mem_cons_of_mem p hq), fun q hq => ?_⟩
    rcases hall' q hq with hmem | hhas
    · rcases List.mem_cons.mp hmem with rfl | hrest
      · exact .inr (hadv.obligations _ hwritten.2)
      · exact .inl hrest
    · exact .inr (hadv.obligations _ hhas)
  · intro rest written t u hu h
    obtain ⟨hst, hsub, hall⟩ := h
    obtain ⟨hsu, hadv, -⟩ := hu hst
    exact ⟨hsu, hsub, fun q hq => (hall q hq).imp_right (hadv.obligations q.1)⟩

/-- From the flip on, everything that follows from it is written. -/
theorem finish_works (hg : j.Gated now) (hreq : request.pk = j.pk)
    (hnow : request.row.completedAt = some now)
    (hclosure : closure.map (·.pk) = j.closure) (hs : j.Sound s.toLedger)
    (hf : j.Flipped s.toLedger) :
    j.Works own (fun _ t => j.Finished t.toLedger) (fun _ t => j.Finished t.toLedger)
      (recordSubprocessorObligations (j.envAt now) request >>= fun _ =>
        saveClosure (j.envAt now) closure false) s := by
  have hrecorded : j.Works own _ _ (recordSubprocessorObligations (j.envAt now) request) s :=
    recordSubprocessorObligations_works hg hreq hnow hs
  have hrecord := knows (fun _ _ _ _ h => h) hrecorded (I := fun t => j.Flipped t.toLedger)
    (fun a b hadv => hadv.flipped) hs hf
  apply Safe.bind (Relies.refl own) (hrecord.post (fun _ _ h => h) fun _ _ h => h.1.elim)
  intro _ t ht
  obtain ⟨⟨-, hobligations⟩, hst, hft⟩ := ht
  cases closure with
  | none =>
      apply safe_ret.mpr
      intro u hu
      obtain ⟨-, hadv, -⟩ := hu hst
      refine hadv.finished ⟨hft, fun k hk => ?_, hobligations⟩
      exact absurd (hclosure.trans hk) (by simp)
  | some cl =>
      have hk : j.closure = some cl.pk := hclosure.symm
      apply Beside.write
      intro a ha
      obtain ⟨hsa, hadv, -⟩ := ha hst
      have hfa := hadv.flipped hft
      have hdelete : ∀ who, j.Relies who a { a with
          closures := a.closures.modify cl.pk (·.delete (j.envAt now).now false) } := by
        intro who
        refine .closure hk rfl rfl rfl rfl fun _ c hc hstanding => ?_
        exact ⟨⟨id, id, fun _ => rfl⟩, ⟨fun _ => .inr rfl, fun _ => hfa⟩, fun _ => ⟨rfl, .inr hfa⟩⟩
      obtain ⟨hsb, hadv', -⟩ := hdelete own hsa
      refine ⟨⟨.of_ne (by simp) (hdelete _), fun t ht => ?_⟩, fun hl => hl.elim⟩
      refine (ht hsb).2.1.finished ⟨hadv'.flipped hfa, fun k hk' => ?_, fun name hname =>
        hadv'.obligations name (hadv.obligations name (hobligations name hname))⟩
      obtain rfl := Option.some.inj (hk.symm.trans hk')
      obtain ⟨c, hc, -⟩ := hsa.closure _ hk
      exact ⟨_, Table.get?_modify_self _ hc, rfl⟩

/-- A certification, once nothing stands against it. -/
theorem certify_judged (hg : j.Gated now) (hreq : request.pk = j.pk)
    (hclosure : closure.map (·.pk) = j.closure) (hs : j.Sound s.toLedger)
    (hc : j.Cleared s.toLedger) :
    j.Judged own (fun _ t => j.Flipped t.toLedger) (fun _ t => j.Flipped t.toLedger)
      (certify (j.envAt now) request closure false) s := by
  have heq : certify (j.envAt now) request closure false =
      (Prog.write (.certify request.pk) fun db => { db with
        requests := db.requests.modify request.pk (·.certify (j.envAt now).now false) }) >>=
      fun _ => (recordSubprocessorObligations (j.envAt now)
          ⟨request.pk, request.row.certify (j.envAt now).now false⟩ >>= fun _ =>
        saveClosure (j.envAt now) closure false) := rfl
  rw [heq, hreq]
  apply Safe.write_bind
  intro a ha
  obtain ⟨hsa, hadv, -⟩ := ha hs
  have hca := hadv.cleared hc
  have hcertify : ∀ who, j.Relies who a { a with
      requests := a.requests.modify j.pk (·.certify (j.envAt now).now false) } :=
    fun who => .certify hca
  obtain ⟨r, hr, -⟩ := hsa.request
  have hflipped : j.Flipped { a with
      requests := a.requests.modify j.pk (·.certify (j.envAt now).now false) }.toLedger :=
    ⟨_, Table.get?_modify_self _ hr, rfl⟩
  obtain ⟨hsb, -, -⟩ := hcertify own hsa
  have hrest : j.Works own _ _ (recordSubprocessorObligations (j.envAt now)
      ⟨j.pk, request.row.certify (j.envAt now).now false⟩ >>= fun _ =>
        saveClosure (j.envAt now) closure false) _ := finish_works hg rfl rfl hclosure hsb hflipped
  refine ⟨⟨⟨.of_ne (by simp) (hcertify _), fun hno => absurd hca hno, fun _ _ => hrest⟩, ?_⟩,
    fun hl => hl.elim⟩
  have hbehind := hrest.behind hsb hflipped
  exact hbehind.post (fun _ _ h => h.flipped) fun _ _ h => h.flipped

/-! ### Finalization -/

variable {cached : Option (Stored AccountClosureRequest)}

/-- What a finalization knows of the closure it has read: if it allows the certificate, the
closure is erased, and it does allow it unless somebody has come first. -/
def Read (C : Prop) (j : JointErasure) (closure : Option (Stored AccountClosureRequest)) (t : Db) :
    Prop :=
  closure.map (·.pk) = j.closure ∧ (closureAllows closure = true → j.LocallyErased t.toLedger) ∧
    (C → closureAllows closure = true ∨ j.Flipped t.toLedger)

/-- The closure's row, read while nothing stands against DELETED any more. -/
theorem Standing.allows {c : AccountClosureRequest} (hst : j.Standing l c)
    (hk : j.closure = some k) (hc : l.closures.get? k = some c) (he : j.LocallyErased l) :
    c.erased = true ∨ j.Flipped l := by
  obtain ⟨c', hc', hdone, hat⟩ := he k hk
  obtain rfl := Option.some.inj (hc.symm.trans hc')
  rcases hst.underway hdone with hdeleting | hdeleted
  · exact .inl (AccountClosureRequest.erased_iff.mpr ⟨hdeleting, hdone, hat⟩)
  · exact .inr (hst.deleted hdeleted)

theorem requestClosure_looks (hclosure : request.row.closure = j.closure)
    (hcached : ∀ cl, cached = some cl → j.closure = some cl.pk ∧ cl.row.erased = true ∧
      j.LocallyErased s.toLedger) (hC : C → j.Cleared s.toLedger) (hs : j.Sound s.toLedger) :
    j.Looks own (fun closure t => Read C j closure t ∧ j.Sound t.toLedger ∧
        (C → j.Cleared t.toLedger)) (fun _ _ => False) (requestClosure request cached) s := by
  have hkeep : ∀ {p : Program (Option (Stored AccountClosureRequest))},
      j.Looks own (fun closure t => Read C j closure t) (fun _ _ => False) p s →
      j.Looks own (fun closure t => Read C j closure t ∧ j.Sound t.toLedger ∧
        (C → j.Cleared t.toLedger)) (fun _ _ => False) p s := by
    intro p h
    have hkept := knows (I := fun t => C → j.Cleared t.toLedger) (fun _ _ _ _ hstep => hstep.1) h
      (fun a b hadv ha hc => hadv.cleared (ha hc)) hs hC
    exact hkept.post (fun _ _ h => h) fun _ _ h => h.1
  apply hkeep
  unfold requestClosure
  split
  · rename_i hnone
    apply safe_ret.mpr
    intro t ht
    have hnone' : j.closure = none := hclosure.symm.trans hnone
    refine ⟨hnone'.symm, fun _ k hk => ?_, fun _ => .inl rfl⟩
    exact absurd (hnone'.symm.trans hk) (by simp)
  · rename_i k cl hsome
    obtain ⟨hk, herased, hlocal⟩ := hcached cl rfl
    apply safe_ret.mpr
    intro t ht
    exact ⟨hk.symm, fun _ => (ht hs).2.1.locallyErased hlocal, fun _ => .inl herased⟩
  · rename_i k hsome
    have hk : j.closure = some k := hclosure.symm.trans hsome
    apply Safe.bind (Relies.refl own) (P := fun found t => ∃ c, found = some c ∧
      Read C j (some ⟨k, c⟩) t ∧ j.Sound t.toLedger)
    · apply looks_select
      intro a ha t ht
      obtain ⟨hsa, hadv, -⟩ := ha hs
      obtain ⟨hst, hadv', -⟩ := ht hsa
      obtain ⟨c, hc, hstanding⟩ := hsa.closure k hk
      refine ⟨c, hc, ⟨hk.symm, fun herased => ?_, fun h => ?_⟩, hst⟩
      · have hflags : c.erased = true := herased
        obtain ⟨-, hdone, hat⟩ := AccountClosureRequest.erased_iff.mp hflags
        apply hadv'.locallyErased
        intro k' hk'
        obtain rfl := Option.some.inj (hk.symm.trans hk')
        exact ⟨c, hc, hdone, hat⟩
      · have hcleared := hadv.cleared (hC h)
        exact (hstanding.allows hk hc hcleared.erased).imp_right hadv'.flipped
    · intro found t ht
      obtain ⟨c, rfl, hread, hst⟩ := ht
      apply safe_ret.mpr
      intro u hu
      obtain ⟨-, hadv, -⟩ := hu hst
      exact ⟨hread.1, fun h => hadv.locallyErased (hread.2.1 h),
        fun h => (hread.2.2 h).imp_right hadv.flipped⟩

/-- **A finalization.** Begun when nothing stands against DELETED any more, it ends with the request
DELETED: its own work, or somebody else's. -/
theorem maybeFinalize_judged (hg : j.Gated now) (hreq : request.pk = j.pk)
    (htype : request.row.subjectType = j.subjectType) (hclosure : request.row.closure = j.closure)
    (hopen : request.row.state.isOpen = false → j.Flipped s.toLedger)
    (hcached : ∀ cl, cached = some cl → j.closure = some cl.pk ∧ cl.row.erased = true ∧
      j.LocallyErased s.toLedger) (hC : C → j.Cleared s.toLedger) (hs : j.Sound s.toLedger) :
    j.Judged own (fun _ t => C → j.Flipped t.toLedger) (fun _ t => C → j.Flipped t.toLedger)
      (maybeFinalize (j.envAt now) request cached) s := by
  have hreport : (j.envAt now).report = j.env.report := rfl
  unfold maybeFinalize
  split
  · rename_i hclosed
    exact safe_ret.mpr fun t ht _ => (ht hs).2.1.flipped (hopen hclosed)
  apply Looks.bind
    ((requestClosure_looks hclosure hcached hC hs).post (fun _ _ h => h) fun _ _ h => h.elim)
  intro closure t ht
  obtain ⟨⟨hpk, hlocal, hallows⟩, hst, hCt⟩ := ht
  split
  · rename_i hrefused
    apply safe_ret.mpr
    intro u hu h
    rcases hallows h with hallowed | hflipped
    · rw [hrefused] at hallowed
      exact absurd hallowed (by simp)
    · exact (hu hst).2.1.flipped hflipped
  rename_i hallowed
  have hlocal := hlocal (by simpa using hallowed)
  apply Looks.bind (P := fun unreceipted u => j.Sound u.toLedger ∧
    (unreceipted = [] → j.Cleared u.toLedger) ∧ (C → unreceipted = []))
  · apply looks_select
    intro a ha u hu
    obtain ⟨hsa, hadv, -⟩ := ha hst
    obtain ⟨hsu, hadv', -⟩ := hu hsa
    rw [hreq]
    refine ⟨hsu, fun hnone => hadv'.cleared ⟨?_, hadv.locallyErased hlocal⟩, fun h => ?_⟩
    · exact Ledger.unreceiptedOwners_eq_nil.mp hnone
    · exact Ledger.unreceiptedOwners_eq_nil.mpr (hadv.cleared (hCt h)).receipts
  intro unreceipted u hu
  obtain ⟨hsu, hcleared, hnone⟩ := hu
  -- with a sound registry and a claiming owner only receipts can be missing
  have hblockers : finalizeBlockers (j.envAt now).report request.row.subjectType unreceipted = [] ↔
      unreceipted = [] := by
    have hclaimed : (j.envAt now).report.ownersFor request.row.subjectType ≠ [] := by
      rw [htype]
      exact hg.claimed
    unfold finalizeBlockers
    rw [hreport, j.sound, if_neg (hreport ▸ hclaimed)]
    by_cases h : unreceipted = []
    · simp [h]
    · simp [h]
  dsimp only
  split
  · rename_i hblocked
    apply safe_ret.mpr
    intro v hv h
    exact absurd (hblockers.mpr (hnone h)) hblocked.1
  · rename_i hfree
    have hnil : finalizeBlockers (j.envAt now).report request.row.subjectType unreceipted = [] := by
      by_contra hne
      exact hfree ⟨hne, hg.hatch⟩
    rw [hnil]
    have hcertify : j.Judged own _ _ (certify (j.envAt now) request closure false) u :=
      certify_judged hg hreq hpk hsu (hcleared (hblockers.mp hnil))
    exact hcertify.post (fun _ _ h _ => h) fun _ _ h _ => h

end Flip

/-! ### Deliveries -/

/-- A slot is receipted when one of its rows is. -/
theorem Sound.answered (hs : j.Sound l) {i : Nat} {part : ErasurePart}
    (hp : l.parts.get? i = some part) (hreq : part.request = j.pk) (howner : part.owner = name)
    (hdone : part.state = .done) : j.Answered name l := by
  intro i' q hq hreq' howner'
  obtain rfl := hs.slotted i' i q part hq hp (hreq'.trans hreq.symm) (howner'.trans howner.symm)
  rw [Option.some.inj (hq.symm.trans hp)]
  exact hdone

section Delivery

variable {service receiptId : String} {counts : Counts}

/-- The conditional update of `mark_section_erased`. -/
def receipted (j : JointErasure) (now : Time) (service receiptId : String) (counts : Counts)
    (db : Db) : Db := { db with
  parts := db.parts.update (·.awaits j.pk service)
    (·.receive now j.correlationId receiptId counts) }

theorem relies_receipted : j.Relies own a (receipted j now service receiptId counts a) := by
  refine .parts (.update fun i p _ => ?_) rfl rfl rfl
  by_cases haw : p.awaits j.pk service = true
  · rw [if_pos haw]
    exact ⟨rfl, rfl, fun _ => rfl⟩
  · rw [if_neg haw]
    exact ⟨rfl, rfl, id⟩

theorem answered_receipted :
    j.Answered service (receipted j now service receiptId counts a).toLedger := by
  intro i p' hp' hreq howner
  have hrow : (a.parts.get? i).map (fun p => if p.awaits j.pk service then
      p.receive now j.correlationId receiptId counts else p) = some p' := by
    rw [← Table.get?_update]
    exact hp'
  obtain ⟨p, hp, rfl⟩ := Option.map_eq_some_iff.mp hrow
  by_cases haw : p.awaits j.pk service = true
  · rw [if_pos haw]
    rfl
  · rw [if_neg haw] at hreq howner ⊢
    by_contra hopen
    exact haw (ErasurePart.awaits_iff.mpr ⟨hreq, howner, hopen⟩)

/-- An update of no rows clears nothing. -/
theorem cleared_of_receipted (hnone : (a.parts.select (·.awaits j.pk service)).length = 0)
    (hc : j.Cleared (receipted j now service receiptId counts a).toLedger) :
    j.Cleared a.toLedger := by
  refine ⟨fun i p hp hreq => ?_, hc.erased⟩
  have hno : ¬ p.awaits j.pk service = true := by
    intro haw
    have hmem : (⟨i, p⟩ : Stored ErasurePart) ∈ a.parts.select (·.awaits j.pk service) :=
      Table.mem_select.mpr ⟨hp, haw⟩
    rw [List.length_eq_zero_iff.mp hnone] at hmem
    exact absurd hmem List.not_mem_nil
  have hsame : (receipted j now service receiptId counts a).parts.get? i = some p := by
    show (a.parts.update _ _).get? i = some p
    rw [Table.get?_update, hp, Option.map_some, if_neg hno]
  exact hc.receipts i p hsame hreq

/-- What a delivery does after its update: it looks at the request again. -/
theorem received_judged (hg : j.Gated now) {updated : Nat} (hs : j.Sound s.toLedger)
    (ha : j.Answered service s.toLedger) (hC : C → j.Cleared s.toLedger)
    (hupdated : C → updated ≠ 0) :
    j.Judged false (fun _ t => (C → j.Flipped t.toLedger) ∧ j.Sound t.toLedger ∧
        j.Answered service t.toLedger)
      (fun _ t => (C → j.Flipped t.toLedger) ∧ j.Sound t.toLedger ∧ j.Answered service t.toLedger)
      (if updated = 0 then return ()
      else do
        let refreshed ← Program.select (·.requests.get? j.pk)
        match refreshed with
        | some row => maybeFinalize (j.envAt now) ⟨j.pk, row⟩ none
        | none => Prog.raise .doesNotExist) s := by
  apply knows (fun _ _ _ _ h => h.1) ?_ (fun a b hadv => hadv.answered) hs ha
  split
  · rename_i hnone
    exact safe_ret.mpr fun t _ h => absurd hnone (hupdated h)
  apply Looks.bind (P := fun refreshed t => j.Sound t.toLedger ∧ (C → j.Cleared t.toLedger) ∧
    ∃ row, refreshed = some row ∧ j.Row row ∧ (row.state.isOpen = false → j.Flipped t.toLedger))
  · apply looks_select
    intro a ha t ht
    obtain ⟨hsa, hadv, -⟩ := ha hs
    obtain ⟨hst, hadv', -⟩ := ht hsa
    obtain ⟨r, hr, hrow⟩ := hsa.request
    refine ⟨hst, fun h => hadv'.cleared (hadv.cleared (hC h)), r, hr, hrow, fun hclosed => ?_⟩
    rcases hrow.state with hopen | ⟨hdel, -⟩
    · rw [hclosed] at hopen
      exact absurd hopen (by simp)
    · exact hadv'.flipped ⟨r, hr, hdel⟩
  intro refreshed t ht
  obtain ⟨hst, hCt, row, rfl, hrow, hclosed⟩ := ht
  exact maybeFinalize_judged hg rfl hrow.subjectType hrow.closure hclosed
    (fun cl h => absurd h (by simp)) hCt hst

/-- **A delivery.** It leaves its owner's slot receipted. -/
theorem markSectionErased_judged (hg : j.Gated now) (hs : j.Sound s.toLedger) :
    j.Judged false (fun _ t => j.Answered service t.toLedger)
      (fun _ t => j.Answered service t.toLedger)
      (markSectionErased (j.envAt now) j.correlationId service receiptId counts) s := by
  unfold markSectionErased
  apply Looks.bind (P := fun found t => j.Sound t.toLedger ∧ ∃ row, found = some ⟨j.pk, row⟩)
  · apply looks_select
    intro a ha t ht
    obtain ⟨hsa, -, -⟩ := ha hs
    obtain ⟨r, hr, hrow⟩ := hsa.request
    exact ⟨(ht hsa).1, r, hsa.correlated.lookup hr hrow.correlationId⟩
  intro found t ht
  obtain ⟨hst, row, rfl⟩ := ht
  refine Safe.atomic_bind (fun a ha => ?_) fun _ _ hl => hl.elim
  have hsa := (ha hst).1
  have hrely : ∀ who, j.Relies who a (receipted j now service receiptId counts a) :=
    fun who => relies_receipted
  have hsb := (hrely false hsa).1
  refine ⟨⟨.of_ne (by simp) (hrely _), fun hno hb => ?_, fun hno hb => absurd hb hno⟩, ?_⟩
  · -- the last receipt is this one
    have hupdated : True → (a.parts.select (·.awaits j.pk service)).length ≠ 0 :=
      fun _ hnone => hno (cleared_of_receipted hnone hb)
    exact (received_judged hg hsb answered_receipted (fun _ => hb) hupdated).works.post
      (fun _ _ h => h.1 trivial) fun _ _ h => h.1 trivial
  · exact (received_judged (C := False) hg hsb answered_receipted False.elim False.elim).post
      (fun _ _ h => h.2.2) fun _ _ h => h.2.2

end Delivery

/-! ### The execution -/

section Execution

/-- The execution is at work: the closure is DELETING, and its flag is not set. -/
def Deleting (k : Nat) (l : Ledger) : Prop :=
  ∃ c, l.closures.get? k = some c ∧ c.status = .deleting ∧ c.localErasureDone = false

/-- The flag is not set. -/
def Unflagged (k : Nat) (l : Ledger) : Prop :=
  ∃ c, l.closures.get? k = some c ∧ c.localErasureDone = false

theorem Deleting.unflagged (h : Deleting k l) : Unflagged k l := by
  obtain ⟨c, hc, -, hdone⟩ := h
  exact ⟨c, hc, hdone⟩

theorem Unflagged.uncleared (h : Unflagged k l) (hk : j.closure = some k) : ¬ j.Cleared l := by
  intro hcleared
  obtain ⟨c, hc, hdone⟩ := h
  obtain ⟨c', hc', hdone', -⟩ := hcleared.erased k hk
  rw [hc] at hc'
  rw [← Option.some.inj hc', hdone] at hdone'
  exact absurd hdone' (by simp)

/-- The others leave the flag alone, and they cannot finish before it is set. -/
theorem Relies.unflagged (h : j.Relies true a b) (hk : j.closure = some k)
    (hs : j.Sound a.toLedger) (hu : Unflagged k a.toLedger) : Unflagged k b.toLedger := by
  obtain ⟨-, -, hspares⟩ := h hs
  obtain ⟨c, hc, hdone⟩ := hu
  obtain ⟨c', hc', hdone', -⟩ := hspares rfl k c hk hc
  exact ⟨c', hc', hdone'.trans hdone⟩

theorem Relies.deleting (h : j.Relies true a b) (hk : j.closure = some k)
    (hs : j.Sound a.toLedger) (hd : Deleting k a.toLedger) : Deleting k b.toLedger := by
  obtain ⟨hsb, -, hspares⟩ := h hs
  have hu := h.unflagged hk hs hd.unflagged
  obtain ⟨c, hc, hst, hdone⟩ := hd
  obtain ⟨c', hc', hdone', hst'⟩ := hspares rfl k c hk hc
  refine ⟨c', hc', ?_, hdone'.trans hdone⟩
  rcases hst' with hst' | hflipped
  · exact hst'.trans hst
  · exact absurd (hsb.cleared hflipped) (hu.uncleared hk)

/-- A part of the execution before the flag is set. -/
abbrev Prepares (j : JointErasure) (k : Nat) {α : Type} (Q : α → Db → Prop)
    (E : Error → Db → Prop) (p : Program α) (s : Db) : Prop :=
  Beside (j.Relies true) (fun _ => False)
    (fun op a b => j.Effect true op a b ∧ (Deleting k a.toLedger → Deleting k b.toLedger)) Q E p s

theorem Prepares.looks (h : j.Prepares k Q E p s) (hk : j.closure = some k)
    (hs : j.Sound s.toLedger) (hd : Deleting k s.toLedger) :
    j.Looks true (fun x t => Q x t ∧ j.Sound t.toLedger ∧ Deleting k t.toLedger)
      (fun e t => E e t ∧ j.Sound t.toLedger ∧ Deleting k t.toLedger) p s := by
  have hinv := Beside.inv (I := fun t => j.Sound t.toLedger ∧ Deleting k t.toLedger) h
    (fun a b hR ha => ⟨(hR ha.1).1, hR.deleting hk ha.1 ha.2⟩)
    (fun op a b hM ha => ⟨hM.1.sound ha.1, hM.2 ha.2⟩) ⟨hs, hd⟩
  apply Safe.imp hinv
  · intro op a b p hstep
    obtain ⟨⟨heffect, hkeeps⟩, hsa, hda⟩ := hstep
    have huncleared := (hkeeps hda).unflagged.uncleared hk
    exact ⟨heffect, fun hc => absurd hc huncleared,
      fun hf => absurd ((heffect.sound hsa).cleared hf) huncleared⟩
  · intro x t h
    exact h
  · intro e t h
    exact h

/-- What never touches the ledger prepares. -/
theorem prepares_of_always (h : Always (fun op (a b : Db) => (∀ k, op ≠ .localDoneUnit k) ∧
    b.toLedger = a.toLedger) p) :
    j.Prepares k (fun _ _ => True) (fun _ _ => True) p s := by
  apply Safe.imp h.safe
  · intro op a b p hstep
    obtain ⟨hne, hsame⟩ := hstep
    exact ⟨.of_ne hne (.same hsame), fun hd => hsame ▸ hd⟩
  · intro x t h
    exact h
  · intro e t h
    exact h

variable {failed : List String} {o : DataOwner}

/-- One owner of `_record_local_receipts`. -/
theorem recordLocalReceipt_prepares (hs : j.Sound s.toLedger) :
    j.Prepares k (fun _ t => failed = [] → o.isLocal = true → j.Answered o.name t.toLedger)
      (fun _ _ => False) (recordLocalReceipt (j.envAt now) j.pk failed o) s := by
  unfold recordLocalReceipt
  split
  · rename_i hskip
    apply safe_ret.mpr
    intro t ht hnone hlocal
    have hmissing : (j.envAt now).report.missing = [] :=
      (RegistryReport.problems_eq_nil.mp j.sound).2.1
    rw [hnone, hmissing] at hskip
    simp [hlocal] at hskip
  apply Safe.bind (Relies.refl true) (P := fun found t => j.Sound t.toLedger ∧
    (found = none → j.Answered o.name t.toLedger) ∧ ∀ part, found = some part →
      (∃ p, t.parts.get? part.pk = some p ∧ p.request = j.pk ∧ p.owner = o.name ∧
        (part.row.state = .done → p.state = .done)))
  · apply Beside.query
    intro a ha
    obtain ⟨hsa, -, -⟩ := ha hs
    refine ⟨⟨.of_ne (by simp) (.same rfl), id⟩, fun t ht => ?_, fun hl => hl.elim⟩
    obtain ⟨hst, hadv, -⟩ := ht hsa
    refine ⟨hst, fun hnone => ?_, fun part hsome => ?_⟩
    · apply hadv.answered
      intro i p hp hreq howner
      have hno := Table.first?_none.mp hnone i p hp
      simp [hreq, howner] at hno
    · obtain ⟨hget, hslot⟩ := Table.first?_some hsome
      simp only [Bool.and_eq_true, decide_eq_true_eq] at hslot
      obtain ⟨p, hp, hreq, howner, hdone⟩ := hadv.parts.kept hget
      exact ⟨p, hp, hreq.trans hslot.1, howner.trans hslot.2, hdone⟩
  intro found t ht
  obtain ⟨hst, hnone, hsome⟩ := ht
  cases found with
  | none => exact safe_ret.mpr fun u hu _ _ => (hu hst).2.1.answered (hnone rfl)
  | some part =>
      obtain ⟨p, hp, hreq, howner, hdone⟩ := hsome part rfl
      dsimp only
      split
      · rename_i hrow
        exact safe_ret.mpr fun u hu _ _ =>
          (hu hst).2.1.answered (hst.answered hp hreq howner (hdone hrow))
      · apply Beside.write
        intro a ha
        obtain ⟨hsa, hadv, -⟩ := ha hst
        have hreceipt : ∀ who, j.Relies who a { a with
            parts := a.parts.modify part.pk
              (·.recordReceipt (j.envAt now).now part.row.counts) } := by
          intro who
          exact .parts (.modify (fun _ _ _ _ => ⟨rfl, rfl, id⟩) fun _ _ => ⟨rfl, rfl, fun _ => rfl⟩)
            rfl rfl rfl
        obtain ⟨hsb, -, -⟩ := hreceipt true hsa
        refine ⟨⟨⟨.of_ne (by simp) (hreceipt _), id⟩, fun u hu _ _ => ?_⟩, fun hl => hl.elim⟩
        obtain ⟨p', hp', hreq', howner', -⟩ := hadv.parts.kept hp
        apply (hu hsb).2.1.answered
        exact hsb.answered (Table.get?_modify_self _ hp') (hreq'.trans hreq)
          (howner'.trans howner) rfl

/-- `_record_local_receipts`: when no provider has raised, every local slot is receipted. -/
theorem recordLocalReceipts_prepares {erasure : Stored ErasureRequest} (hreq : erasure.pk = j.pk)
    (htype : erasure.row.subjectType = j.subjectType) (hs : j.Sound s.toLedger) :
    j.Prepares k (fun _ t => failed = [] → j.LocalsAnswered t.toLedger) (fun _ _ => False)
      (recordLocalReceipts (j.envAt now) erasure failed) s := by
  have howners : (j.envAt now).report.ownersFor erasure.row.subjectType = j.owners := by
    rw [htype]
    rfl
  unfold recordLocalReceipts
  rw [howners, hreq]
  apply Beside.post (Beside.forM (J := fun rest (t : Db) => j.Sound t.toLedger ∧
    ∀ o ∈ j.owners, o ∈ rest ∨ (failed = [] → o.isLocal = true → j.Answered o.name t.toLedger))
    (Relies.refl true) ?_ ?_ ⟨hs, fun o ho => .inl ho⟩)
  · intro _ t h hnone o ho hlocal
    exact (h.2 o ho).resolve_left List.not_mem_nil hnone hlocal
  · intro e t h
    exact h
  · intro o rest t h
    obtain ⟨hst, hall⟩ := h
    have hone : j.Prepares k _ _ (recordLocalReceipt (j.envAt now) j.pk failed o) t :=
      recordLocalReceipt_prepares hst
    have hstep := knows (fun _ _ _ _ h => h.1) hone (I := fun u => ∀ q ∈ j.owners,
      q ∈ o :: rest ∨ (failed = [] → q.isLocal = true → j.Answered q.name u.toLedger))
      (fun a b hadv ha q hq => (ha q hq).imp_right fun h hnone hlocal =>
        hadv.answered (h hnone hlocal)) hst hall
    apply hstep.post
    · intro _ u hu
      obtain ⟨hdone, hsu, hall'⟩ := hu
      refine ⟨hsu, fun q hq => ?_⟩
      rcases hall' q hq with hmem | hanswered
      · rcases List.mem_cons.mp hmem with rfl | hrest
        · exact .inr hdone
        · exact .inl hrest
      · exact .inr hanswered
    · intro e u hu
      exact hu.1
  · intro rest t u hu h
    obtain ⟨hst, hall⟩ := h
    obtain ⟨hsu, hadv, -⟩ := hu hst
    exact ⟨hsu, fun q hq => (hall q hq).imp_right fun h hnone hlocal =>
      hadv.answered (h hnone hlocal)⟩

variable {closure : Stored AccountClosureRequest} {erasure : Stored ErasureRequest}
  {created : Bool}

/-- What the execution knows when it comes to its receipts. -/
theorem deleteLocally_looks (hreq : erasure.pk = j.pk)
    (htype : erasure.row.subjectType = j.subjectType) (hk : j.closure = some k)
    (hs : j.Sound s.toLedger) (hd : Deleting k s.toLedger) {userId : UserId} :
    j.Looks true (fun failed t => (failed = [] → j.LocalsAnswered t.toLedger) ∧
        j.Sound t.toLedger ∧ Deleting k t.toLedger) (fun _ _ => True)
      (deleteLocally (j.envAt now) userId erasure) s := by
  have hquiet : ∀ {α : Type} {p : Program α} {t : Db}, Always (fun op (a b : Db) =>
      (∀ k, op ≠ .localDoneUnit k) ∧ b.toLedger = a.toLedger) p → j.Sound t.toLedger →
      Deleting k t.toLedger → j.Looks true (fun _ u => j.Sound u.toLedger ∧ Deleting k u.toLedger)
        (fun _ _ => True) p t := by
    intro α p t hp hst hdt
    exact ((prepares_of_always hp).looks hk hst hdt).post (fun _ _ h => h.2) fun _ _ _ => trivial
  unfold deleteLocally
  apply Safe.bind (Relies.refl true) (hquiet (storeReregistrationHashes_always
    (fun _ => ⟨by simp, rfl⟩) fun _ _ => ⟨by simp, rfl⟩) hs hd)
  intro _ t ht
  apply Safe.bind (Relies.refl true) (hquiet (runDeletionInprocess_always
    (fun _ _ => ⟨by simp, rfl⟩) fun _ _ => ⟨by simp, rfl⟩) ht.1 ht.2)
  intro failed u hu
  have hreceipts : j.Prepares k _ _ (recordLocalReceipts (j.envAt now) erasure failed) u :=
    recordLocalReceipts_prepares hreq htype hu.1
  apply Safe.bind (Relies.refl true)
    ((hreceipts.looks hk hu.1 hu.2).post (fun _ _ h => h) fun _ _ _ => trivial)
  intro _ v hv
  obtain ⟨hlocals, hsv, hdv⟩ := hv
  apply safe_ret.mpr
  intro w hw
  obtain ⟨hsw, hadv, -⟩ := hw hsv
  refine ⟨fun hnone o ho hlocal => hadv.answered (hlocals hnone o ho hlocal), hsw, ?_⟩
  exact hw.deleting hk hsv hdv

/-- The unit that sets the flag, and the finalization behind it. -/
theorem localDone_judged (hg : j.Gated now) (hk : j.closure = some k) (hreq : erasure.pk = j.pk)
    (hrow : j.Row erasure.row) (hopen : erasure.row.state.isOpen = true)
    (hs : j.Sound s.toLedger) (hd : Deleting k s.toLedger)
    (hat : ∃ c, s.closures.get? k = some c ∧ c.identityErasedAt.isSome = true)
    (hlocals : j.LocalsAnswered s.toLedger) {actions : List Action}
    {cached : Option (Stored AccountClosureRequest)}
    (hcached : ∀ cl, cached = some cl → cl.pk = k ∧ cl.row.erased = true) :
    j.Judged true (fun _ _ => True) (fun _ _ => True)
      (Prog.write (.localDoneUnit k) (fun db => Db.emit { db with
        closures := db.closures.modify k (·.finishLocal) } actions) >>= fun _ =>
          maybeFinalize (j.envAt now) erasure cached) s := by
  apply Safe.write_bind
  intro a ha
  obtain ⟨hsa, hadv, -⟩ := ha hs
  have hda := ha.deleting hk hs hd
  obtain ⟨c₀, hc₀, hat₀⟩ := hat
  obtain ⟨c, hc, hkept⟩ := hadv.closures k c₀ hk hc₀
  set b : Db := Db.emit { a with closures := a.closures.modify k (·.finishLocal) } actions with hb
  have hrely : j.Relies false a b := by
    refine .closure hk rfl rfl rfl rfl fun _ q hq hstanding => ?_
    obtain ⟨q', hq', hst, -⟩ := hda
    obtain rfl := Option.some.inj (hq.symm.trans hq')
    exact ⟨⟨fun _ => rfl, id, id⟩, ⟨fun _ => .inl hst, hstanding.deleted⟩,
      fun h => absurd h (by simp)⟩
  obtain ⟨hsb, hadv', -⟩ := hrely hsa
  have herased : j.LocallyErased b.toLedger := by
    intro k' hk'
    obtain rfl := Option.some.inj (hk.symm.trans hk')
    exact ⟨_, Table.get?_modify_self _ hc, rfl, hkept.2.1 hat₀⟩
  have hanswered : j.LocalsAnswered b.toLedger := fun o ho hlocal =>
    hadv'.answered (hadv.answered (hlocals o ho hlocal))
  have hrest : ∀ {C : Prop}, (C → j.Cleared b.toLedger) →
      j.Judged true (fun _ t => C → j.Flipped t.toLedger) (fun _ t => C → j.Flipped t.toLedger)
        (maybeFinalize (j.envAt now) erasure cached) b := by
    intro C hC
    refine maybeFinalize_judged hg hreq hrow.subjectType hrow.closure (fun hclosed => ?_) ?_ hC hsb
    · rw [hclosed] at hopen
      exact absurd hopen (by simp)
    intro cl hcl
    obtain ⟨rfl, hcl'⟩ := hcached cl hcl
    exact ⟨hk, hcl', herased⟩
  refine ⟨⟨⟨⟨hrely, fun _ _ _ => ⟨hanswered, herased⟩⟩, fun _ hcb => ?_, fun hno hfb =>
    absurd hfb hno⟩, ?_⟩, fun hl => hl.elim⟩
  · exact (hrest fun _ : True => hcb).works.post (fun _ _ h => h trivial) fun _ _ h => h trivial
  · exact (hrest (C := False) False.elim).post (fun _ _ _ => trivial) fun _ _ _ => trivial

/-- The execution from `if failed` on. -/
theorem finishDeletion_judged (hg : j.Gated now) (hk : j.closure = some closure.pk)
    (hreq : erasure.pk = j.pk) (hrow : j.Row erasure.row)
    (hopen : erasure.row.state.isOpen = true) (hs : j.Sound s.toLedger)
    (hd : Deleting closure.pk s.toLedger)
    (hlocals : failed = [] → j.LocalsAnswered s.toLedger) :
    j.Judged true (fun _ _ => True) (fun _ _ => True)
      (finishDeletion (j.envAt now) closure j.correlationId erasure created failed) s := by
  unfold finishDeletion
  dsimp only
  split
  · exact safe_ret.mpr fun _ _ => trivial
  rename_i hnone
  have hlocals := hlocals (not_not.mp hnone)
  have hidentity : j.Looks true _ _ (identityErased (j.envAt now) closure.row.userId) s :=
    (prepares_of_always (identityErased_always (fun _ => ⟨by simp, rfl⟩)
      fun _ _ => ⟨by simp, rfl⟩)).looks hk hs hd
  have hknown := knows (fun _ _ _ _ h => h.1) hidentity (I := fun t => j.LocalsAnswered t.toLedger)
    (fun a b hadv ha o ho hlocal => hadv.answered (ha o ho hlocal)) hs hlocals
  apply Looks.bind (hknown.post (fun _ _ h => h) fun _ _ _ => trivial)
  intro erased t ht
  obtain ⟨⟨-, -, hdt⟩, hst, hlocalst⟩ := ht
  split
  · exact safe_ret.mpr fun _ _ => trivial
  have hwrite : j.Prepares closure.pk (fun _ u => ∃ c, u.closures.get? closure.pk = some c ∧
      c.identityErasedAt.isSome = true) (fun _ _ => True)
      (Prog.write (.identityErased closure.pk) fun db => { db with
        closures := db.closures.modify closure.pk (·.eraseIdentity (j.envAt now).now) }) t := by
    apply Beside.write
    intro a ha
    obtain ⟨hsa, -, -⟩ := ha hst
    have hrely : ∀ who, j.Relies who a { a with
        closures := a.closures.modify closure.pk (·.eraseIdentity (j.envAt now).now) } := by
      intro who
      exact .closure hk rfl rfl rfl rfl fun _ q hq hstanding =>
        ⟨⟨id, fun _ => rfl, id⟩, ⟨hstanding.underway, hstanding.deleted⟩, fun _ => ⟨rfl, .inl rfl⟩⟩
    refine ⟨⟨⟨.of_ne (by simp) (hrely _), fun hda => ?_⟩, fun u hu => ?_⟩, fun hl => hl.elim⟩
    · obtain ⟨c, hc, hst', hdone⟩ := hda
      exact ⟨_, Table.get?_modify_self _ hc, hst', hdone⟩
    · obtain ⟨hsb, -, -⟩ := hrely true hsa
      obtain ⟨c, hc, -⟩ := hsa.closure _ hk
      have hget : (a.closures.modify closure.pk (·.eraseIdentity (j.envAt now).now)).get?
          closure.pk = some (c.eraseIdentity (j.envAt now).now) := Table.get?_modify_self _ hc
      obtain ⟨c', hc', hkept⟩ := (hu hsb).2.1.closures _ _ hk hget
      exact ⟨c', hc', hkept.2.1 rfl⟩
  have hsaved := knows (fun _ _ _ _ h => h.1) (hwrite.looks hk hst hdt)
    (I := fun u => j.LocalsAnswered u.toLedger)
    (fun a b hadv ha o ho hlocal => hadv.answered (ha o ho hlocal)) hst hlocalst
  apply Looks.bind (hsaved.post (fun _ _ h => h) fun _ _ _ => trivial)
  intro _ u hu
  obtain ⟨⟨hat, -, hdu⟩, hsu, hlocalsu⟩ := hu
  refine localDone_judged hg hk hreq hrow hopen hsu hdu hat hlocalsu fun cl hcl => ?_
  cases created with
  | false => exact absurd hcl (by simp)
  | true =>
      obtain rfl := Option.some.inj hcl
      exact ⟨rfl, rfl⟩

/-- The execution from its local work on. -/
theorem deletion_judged (hg : j.Gated now) (hk : j.closure = some closure.pk)
    (hreq : erasure.pk = j.pk) (hrow : j.Row erasure.row)
    (hopen : erasure.row.state.isOpen = true) (hs : j.Sound s.toLedger)
    (hd : Deleting closure.pk s.toLedger) :
    j.Judged true (fun _ _ => True) (fun _ _ => True)
      (deleteLocally (j.envAt now) closure.row.userId erasure >>=
        finishDeletion (j.envAt now) closure j.correlationId erasure created) s := by
  apply Looks.bind (deleteLocally_looks hreq hrow.subjectType hk hs hd)
  intro failed t ht
  obtain ⟨hlocals, hst, hdt⟩ := ht
  exact finishDeletion_judged hg hk hreq hrow hopen hst hdt hlocals

/-- The closure's save at the start. -/
theorem startDeleting_looks (hk : j.closure = some closure.pk)
    (hid : closure.row.correlationId = some j.correlationId) (hs : j.Sound s.toLedger)
    (hu : Unflagged closure.pk s.toLedger) :
    j.Looks true (fun id t => id = j.correlationId ∧ j.Sound t.toLedger ∧
        Deleting closure.pk t.toLedger) (fun _ _ => True)
      (startDeleting (j.envAt now) closure) s := by
  unfold startDeleting
  rw [hid]
  apply Beside.atomic
  · intro a ha
    have hsa := (ha hs).1
    have hua := ha.unflagged hk hs hu
    dsimp only [Option.getD_some, Option.isSome_some]
    rw [if_pos rfl]
    set b : Db := { a with
      closures := a.closures.modify closure.pk
        (·.startDeleting j.correlationId (j.envAt now).report.version)
      uuids := a.uuids } with hb
    have hrely : j.Relies false a b := by
      refine .closure hk rfl rfl rfl rfl fun hsa' c hc hstanding =>
        ⟨⟨id, id, fun hdel => ?_⟩, ⟨fun _ => .inl rfl, fun hdel => ?_⟩, fun h => absurd h (by simp)⟩
      · exact absurd (hsa'.cleared (hstanding.deleted hdel)) (hua.uncleared hk)
      · exact absurd hdel (by simp [AccountClosureRequest.startDeleting])
    obtain ⟨c, hc, hdone⟩ := hua
    have hdb : Deleting closure.pk b.toLedger := ⟨_, Table.get?_modify_self _ hc, rfl, hdone⟩
    have hsb := (hrely hsa).1
    have huncleared := hdb.unflagged.uncleared hk
    refine ⟨⟨.of_ne (by simp) hrely, fun hcb => absurd hcb huncleared,
      fun hfb => absurd (hsb.cleared hfb) huncleared⟩, fun t ht => ?_⟩
    exact ⟨rfl, (ht hsb).1, ht.deleting hk hsb hdb⟩
  · intro a ha hl
    exact hl.elim

/-- **The execution**, of a closure whose request is there. -/
theorem executeDeletion_judged (hg : j.Gated now) (hk : j.closure = some closure.pk)
    (hid : closure.row.correlationId = some j.correlationId) (hs : j.Sound s.toLedger)
    (hu : Unflagged closure.pk s.toLedger) :
    j.Judged true (fun _ _ => True) (fun _ _ => True)
      (executeDeletion (j.envAt now) closure) s := by
  rw [executeDeletion_eq]
  apply Looks.bind (P := fun _ t => j.Sound t.toLedger ∧ Unflagged closure.pk t.toLedger)
  · apply looks_select
    intro a ha t ht
    have hsa := (ha hs).1
    exact ⟨(ht hsa).1, ht.unflagged hk hsa (ha.unflagged hk hs hu)⟩
  intro held t ht
  split
  · exact safe_raise.mpr fun _ _ => trivial
  apply Looks.bind (P := fun out u => j.Sound u.toLedger ∧ Deleting closure.pk u.toLedger ∧
    ∃ row, out = (j.correlationId, ⟨j.pk, row⟩, false) ∧ j.Row row ∧ row.state.isOpen = true)
  · unfold obtainErasure
    apply Safe.bind (Relies.refl true) (startDeleting_looks hk hid ht.1 ht.2)
    intro id u hu
    obtain ⟨rfl, hsu, hdu⟩ := hu
    unfold closureErasure
    rw [Prog.bind_assoc]
    apply Safe.bind (Relies.refl true) (P := fun found v => j.Sound v.toLedger ∧
      Deleting closure.pk v.toLedger ∧ ∃ row, found = some ⟨j.pk, row⟩ ∧ j.Row row ∧
        row.state.isOpen = true)
    · apply looks_select
      intro a ha v hv
      have hsa := (ha hsu).1
      have hda := ha.deleting hk hsu hdu
      obtain ⟨r, hr, hrow⟩ := hsa.request
      refine ⟨(hv hsa).1, hv.deleting hk hsa hda, r,
        hsa.correlated.lookup hr hrow.correlationId, hrow, ?_⟩
      -- nobody has flipped it: the flag is not set
      refine hrow.state.resolve_right fun hdel => ?_
      exact hda.unflagged.uncleared hk (hsa.cleared ⟨r, hr, hdel.1⟩)
    · intro found v hv
      obtain ⟨hsv, hdv, row, rfl, hrow⟩ := hv
      apply safe_ret.mpr
      intro w hw
      exact ⟨(hw hsv).1, hw.deleting hk hsv hdv, row, rfl, hrow⟩
  · intro out u hu
    obtain ⟨hsu, hdu, row, rfl, hrow, hopen⟩ := hu
    exact deletion_judged hg hk rfl hrow hopen hsu hdu

end Execution

end JointErasure

end StapelGdpr
