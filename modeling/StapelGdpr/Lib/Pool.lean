import Mathlib.Algebra.GroupWithZero.Nat
import Mathlib.Data.List.Induction
import Mathlib.Logic.Function.Basic
import StapelGdpr.Lib.Prog

/-!
# Programs that share a store

A pool is a family of programs over one store. It takes one step of one of them at a time,
in any order: `Pool.Runs` are its runs, with what happened recorded event by event, and
`Pool.schedule` computes the failure-free run of a given order, `Pool.scheduleFaults` one in
which chosen steps fail.

* `Pool.Runs.safe` — rely/guarantee: judgments that hold of every thread, where each step
  of one is among what the others rely on, hold of what is left of every thread.
* `Pool.Runs.handoff` — when the thread whose step makes `A` true goes on to establish `F`,
  a pool that ends with `A` ends with `F`. It is how a protocol is verified in which every
  party writes and then looks, and the last to write must see everything.
-/

namespace Prog

variable {ι σ ε α κ : Type}

/-- One program for each thread. -/
abbrev Pool (ι σ ε α κ : Type) : Type := κ → Prog ι σ ε α

namespace Pool

/-- What one step of a pool was. -/
structure Event (κ ι σ : Type) where
  thread : κ
  label : ι
  before : σ
  after : σ
  /-- Did the step succeed? -/
  ok : Bool

variable [DecidableEq κ]

/-- `P`, started in `s`, has taken the steps `tr`, is in store `s'` and has `P'` still to do.
A step of thread `k` whose label `may k` admits can fail. -/
inductive Runs (may : κ → ι → Prop) :
    Pool ι σ ε α κ → σ → List (Event κ ι σ) → Pool ι σ ε α κ → σ → Prop
  | refl (P : Pool ι σ ε α κ) (s : σ) : Runs may P s [] P s
  | ok {P P' : Pool ι σ ε α κ} {s s' : σ} {tr : List (Event κ ι σ)} {k : κ} {l : ι} {u : σ → σ}
      {n : σ → Prog ι σ ε α} {f : ε → Prog ι σ ε α} :
      P k = step l u n f → Runs may (Function.update P k (n s)) (u s) tr P' s' →
      Runs may P s (⟨k, l, s, u s, true⟩ :: tr) P' s'
  | fault {P P' : Pool ι σ ε α κ} {s s' : σ} {tr : List (Event κ ι σ)} {k : κ} {l : ι} {u : σ → σ}
      {n : σ → Prog ι σ ε α} {f : ε → Prog ι σ ε α} (e : ε) :
      P k = step l u n f → may k l → Runs may (Function.update P k (f e)) s tr P' s' →
      Runs may P s (⟨k, l, s, s, false⟩ :: tr) P' s'

/-- Every thread has returned or raised. -/
def Done (P : Pool ι σ ε α κ) : Prop := ∀ k, (P k).Done

/-! ### Runs that can be computed -/

/-- A schedule names the threads of a small pool by numerals. -/
instance threads_three : NeZero 3 := ⟨Nat.succ_ne_zero 2⟩

instance threads_four : NeZero 4 := ⟨Nat.succ_ne_zero 3⟩

instance threads_five : NeZero 5 := ⟨Nat.succ_ne_zero 4⟩

/-- The failure-free run in which the threads step in the given order; the turn of a
finished thread is skipped. -/
def schedule : List κ → Pool ι σ ε α κ → σ → List (Event κ ι σ) × Pool ι σ ε α κ × σ
  | [], P, s => ([], P, s)
  | k :: ks, P, s =>
      match P k with
      | step l u n _ =>
          let rest := schedule ks (Function.update P k (n s)) (u s)
          (⟨k, l, s, u s, true⟩ :: rest.1, rest.2)
      | _ => schedule ks P s

theorem runs_schedule (may : κ → ι → Prop) (ks : List κ) (P : Pool ι σ ε α κ) (s : σ) :
    Runs may P s (schedule ks P s).1 (schedule ks P s).2.1 (schedule ks P s).2.2 := by
  induction ks generalizing P s with
  | nil => exact .refl P s
  | cons k ks ih =>
      unfold schedule
      split
      · rename_i l u n f hk
        exact .ok hk (ih _ _)
      · exact ih P s

/-- The run in which the threads step in the given order, and the marked steps fail. -/
def scheduleFaults : List (κ × Option ε) → Pool ι σ ε α κ → σ →
    List (Event κ ι σ) × Pool ι σ ε α κ × σ
  | [], P, s => ([], P, s)
  | (k, fault) :: ks, P, s =>
      match P k with
      | step l u n f =>
          match fault with
          | none =>
              let rest := scheduleFaults ks (Function.update P k (n s)) (u s)
              (⟨k, l, s, u s, true⟩ :: rest.1, rest.2)
          | some e =>
              let rest := scheduleFaults ks (Function.update P k (f e)) s
              (⟨k, l, s, s, false⟩ :: rest.1, rest.2)
      | _ => scheduleFaults ks P s

theorem runs_scheduleFaults {may : κ → ι → Prop} {ks : List (κ × Option ε)}
    {P : Pool ι σ ε α κ} {s : σ}
    (h : ∀ e ∈ (scheduleFaults ks P s).1, e.ok = false → may e.thread e.label) :
    Runs may P s (scheduleFaults ks P s).1 (scheduleFaults ks P s).2.1
      (scheduleFaults ks P s).2.2 := by
  induction ks generalizing P s with
  | nil => exact .refl P s
  | cons turn ks ih =>
      obtain ⟨k, fault⟩ := turn
      unfold scheduleFaults at h ⊢
      split
      · rename_i l u n f hk
        rw [hk] at h
        cases fault with
        | none => exact .ok hk (ih fun e he => h e (List.mem_cons_of_mem _ he))
        | some e =>
            exact .fault e hk (h _ List.mem_cons_self rfl)
              (ih fun e he => h e (List.mem_cons_of_mem _ he))
      · rename_i hk
        refine ih fun e he => h e ?_
        split
        · rename_i l u n f hstep
          exact absurd hstep (hk l u n f)
        · exact he

/-- A call left alone is a pool of one. -/
theorem Runs.alone {may : ι → Prop} {p p' : Prog ι σ ε α} {s s' : σ} {ls : List ι}
    (h : Prog.Runs may p s ls p' s') :
    ∃ tr, Runs (fun _ : Unit => may) (fun _ => p) s tr (fun _ => p') s' := by
  have hone : ∀ p q : Prog ι σ ε α, Function.update (fun _ : Unit => p) () q = fun _ => q := by
    intro p q
    funext k
    rw [Function.update_self]
  induction h with
  | refl p s => exact ⟨[], .refl _ s⟩
  | ok _ ih =>
      obtain ⟨tr, ih⟩ := ih
      exact ⟨_, .ok (k := ()) rfl (by rw [hone]; exact ih)⟩
  | fault e hmay _ ih =>
      obtain ⟨tr, ih⟩ := ih
      exact ⟨_, .fault (k := ()) e rfl hmay (by rw [hone]; exact ih)⟩

/-- A run of some programs is the beginning of a run of whatever starts with them. -/
theorem Runs.bind {β : Type} {may : κ → ι → Prop} {P P' : Pool ι σ ε α κ} {s s' : σ}
    {tr : List (Event κ ι σ)} (h : Runs may P s tr P' s') (f : κ → α → Prog ι σ ε β) :
    Runs may (fun k => P k >>= f k) s tr (fun k => P' k >>= f k) s' := by
  have hmoved : ∀ (P : Pool ι σ ε α κ) k p, (fun j => Function.update P k p j >>= f j) =
      Function.update (fun j => P j >>= f j) k (p >>= f k) := by
    intro P k p
    funext j
    by_cases hj : j = k
    · subst hj
      rw [Function.update_self, Function.update_self]
    · rw [Function.update_of_ne hj, Function.update_of_ne hj]
  induction h with
  | refl P s => exact .refl _ s
  | @ok P P' s s' tr k l u n g hk _ ih =>
      rw [hmoved] at ih
      exact .ok (by rw [hk]; rfl) ih
  | @fault P P' s s' tr k l u n g e hk hmay _ ih =>
      rw [hmoved] at ih
      exact .fault e (by rw [hk]; rfl) hmay ih

/-! ### Conditions on the steps of a run -/

/-- Every event meets the condition, after `past` and the events before it. -/
def Throughout (H : List (Event κ ι σ) → Event κ ι σ → Prop) :
    List (Event κ ι σ) → List (Event κ ι σ) → Prop
  | _, [] => True
  | past, e :: tr => H past e ∧ Throughout H (past ++ [e]) tr

omit [DecidableEq κ] in
theorem throughout_iff {H : List (Event κ ι σ) → Event κ ι σ → Prop}
    {past tr : List (Event κ ι σ)} :
    Throughout H past tr ↔ ∀ pre e post, tr = pre ++ e :: post → H (past ++ pre) e := by
  induction tr generalizing past with
  | nil => simp [Throughout]
  | cons e tr ih =>
      rw [Throughout, ih]
      constructor
      · rintro ⟨hhead, htail⟩ pre f post hcut
        cases pre with
        | nil =>
            obtain ⟨rfl, rfl⟩ := List.cons.inj hcut
            simpa using hhead
        | cons g pre =>
            obtain ⟨rfl, hrest⟩ := List.cons.inj hcut
            simpa using htail pre f post hrest
      · intro h
        refine ⟨by simpa using h [] e tr rfl, fun pre f post hcut => ?_⟩
        simpa using h (e :: pre) f post (by rw [hcut]; rfl)

instance decidableThroughout (H : List (Event κ ι σ) → Event κ ι σ → Prop)
    [∀ past e, Decidable (H past e)] : ∀ past tr, Decidable (Throughout H past tr)
  | _, [] => .isTrue trivial
  | past, e :: tr => @instDecidableAnd _ _ _ (decidableThroughout H (past ++ [e]) tr)

instance (H : List (Event κ ι σ) → Event κ ι σ → Prop) [∀ past e, Decidable (H past e)]
    (tr : List (Event κ ι σ)) : Decidable (∀ pre e post, tr = pre ++ e :: post → H pre e) :=
  decidable_of_iff (Throughout H [] tr) throughout_iff

/-! ### Runs, cut and chained -/

/-- A run up to one of its events, and from there. -/
theorem Runs.split {may : κ → ι → Prop} {P P' : Pool ι σ ε α κ} {s s' : σ}
    {pre post : List (Event κ ι σ)} (h : Runs may P s (pre ++ post) P' s') :
    ∃ P₁ s₁, Runs may P s pre P₁ s₁ ∧ Runs may P₁ s₁ post P' s' := by
  induction pre generalizing P s with
  | nil => exact ⟨P, s, .refl P s, h⟩
  | cons e pre ih =>
      cases h with
      | ok hk h =>
          obtain ⟨P₁, s₁, h₁, h₂⟩ := ih h
          exact ⟨P₁, s₁, .ok hk h₁, h₂⟩
      | fault e hk hmay h =>
          obtain ⟨P₁, s₁, h₁, h₂⟩ := ih h
          exact ⟨P₁, s₁, .fault e hk hmay h₁, h₂⟩

/-- The first event of a run starts where the run does. -/
theorem Runs.head {may : κ → ι → Prop} {P P' : Pool ι σ ε α κ} {s s' : σ} {e : Event κ ι σ}
    {tr : List (Event κ ι σ)} (h : Runs may P s (e :: tr) P' s') :
    e.before = s ∧ ∃ P₁, Runs may P₁ e.after tr P' s' := by
  cases h with
  | ok _ h => exact ⟨rfl, _, h⟩
  | fault _ _ _ h => exact ⟨rfl, _, h⟩

/-- A failed step was allowed to fail, and it left the store alone. -/
theorem Runs.failed {may : κ → ι → Prop} {P P' : Pool ι σ ε α κ} {s s' : σ}
    {tr : List (Event κ ι σ)} (h : Runs may P s tr P' s') :
    ∀ e ∈ tr, e.ok = false → e.after = e.before ∧ may e.thread e.label := by
  induction h with
  | refl P s => simp
  | ok _ _ ih => exact List.forall_mem_cons.mpr ⟨fun h => absurd h (by simp), ih⟩
  | fault _ _ hmay _ ih => exact List.forall_mem_cons.mpr ⟨fun _ => ⟨rfl, hmay⟩, ih⟩

/-- A run is one of fewer failures when only those have struck. -/
theorem Runs.restrict {may may' : κ → ι → Prop} {P P' : Pool ι σ ε α κ} {s s' : σ}
    {tr : List (Event κ ι σ)} (h : Runs may P s tr P' s')
    (hmay : ∀ e ∈ tr, e.ok = false → may e.thread e.label → may' e.thread e.label) :
    Runs may' P s tr P' s' := by
  induction h with
  | refl P s => exact .refl P s
  | ok hk _ ih => exact .ok hk (ih fun e he => hmay e (List.mem_cons_of_mem _ he))
  | fault x hk hop _ ih =>
      obtain ⟨hhead, htail⟩ := List.forall_mem_cons.mp hmay
      exact .fault x hk (hhead rfl hop) (ih htail)

/-- What every event preserves, the run preserves: at its end and at each event. -/
theorem Runs.chain {may : κ → ι → Prop} {P P' : Pool ι σ ε α κ} {s s' : σ}
    {tr : List (Event κ ι σ)} (h : Runs may P s tr P' s') {I : σ → Prop}
    (hI : ∀ e ∈ tr, I e.before → I e.after) (hs : I s) :
    I s' ∧ ∀ e ∈ tr, I e.before ∧ I e.after := by
  induction h with
  | refl P s => exact ⟨hs, by simp⟩
  | ok _ _ ih =>
      obtain ⟨hhead, htail⟩ := List.forall_mem_cons.mp hI
      obtain ⟨hend, hall⟩ := ih htail (hhead hs)
      exact ⟨hend, List.forall_mem_cons.mpr ⟨⟨hs, hhead hs⟩, hall⟩⟩
  | fault _ _ _ _ ih =>
      obtain ⟨hhead, htail⟩ := List.forall_mem_cons.mp hI
      obtain ⟨hend, hall⟩ := ih htail (hhead hs)
      exact ⟨hend, List.forall_mem_cons.mpr ⟨⟨hs, hhead hs⟩, hall⟩⟩

/-- Course of values: each event may count on what holds around the events before it. -/
theorem Runs.course {may : κ → ι → Prop} {P P' : Pool ι σ ε α κ} {s s' : σ}
    {tr : List (Event κ ι σ)} (h : Runs may P s tr P' s') {I : σ → Prop}
    (hI : ∀ pre e post, tr = pre ++ e :: post → (∀ d ∈ pre, I d.before ∧ I d.after) →
      I e.before → I e.after) (hs : I s) :
    I s' ∧ ∀ e ∈ tr, I e.before ∧ I e.after := by
  induction tr using List.reverseRecOn generalizing P' s' with
  | nil =>
      cases h
      exact ⟨hs, by simp⟩
  | append_singleton tr e ih =>
      obtain ⟨P₁, s₁, htr, hlast⟩ := h.split
      obtain ⟨hend, hall⟩ := ih htr fun pre d post hcut =>
        hI pre d (post ++ [e]) (by rw [hcut, List.append_assoc, List.cons_append])
      obtain ⟨hbefore, P₂, hrest⟩ := hlast.head
      have hafter : I e.after := hI tr e [] rfl hall (hbefore ▸ hend)
      cases hrest
      refine ⟨hafter, fun d hd => ?_⟩
      rcases List.mem_append.mp hd with hold | hnew
      · exact hall d hold
      · rw [List.mem_singleton.mp hnew]
        exact ⟨hbefore ▸ hend, hafter⟩

/-! ### One thread of a run -/

/-- `p` has taken the steps `es`, each from whatever store it found, and has `p'` still to do. -/
inductive Follows (may : ι → Prop) :
    Prog ι σ ε α → List (Event κ ι σ) → Prog ι σ ε α → Prop
  | refl (p : Prog ι σ ε α) : Follows may p [] p
  | ok {k : κ} {l : ι} {u : σ → σ} {n : σ → Prog ι σ ε α} {f : ε → Prog ι σ ε α} {s : σ}
      {es : List (Event κ ι σ)} {p' : Prog ι σ ε α} :
      Follows may (n s) es p' → Follows may (step l u n f) (⟨k, l, s, u s, true⟩ :: es) p'
  | fault {k : κ} {l : ι} {u : σ → σ} {n : σ → Prog ι σ ε α} {f : ε → Prog ι σ ε α} {s : σ}
      {es : List (Event κ ι σ)} {p' : Prog ι σ ε α} (e : ε) :
      may l → Follows may (f e) es p' → Follows may (step l u n f) (⟨k, l, s, s, false⟩ :: es) p'

/-- The events of one thread are steps of its program. -/
theorem Runs.follows {may : κ → ι → Prop} {P P' : Pool ι σ ε α κ} {s s' : σ}
    {tr : List (Event κ ι σ)} (h : Runs may P s tr P' s') (k : κ) :
    Follows (may k) (P k) (tr.filter (·.thread = k)) (P' k) := by
  induction h with
  | refl P s => exact .refl (P k)
  | @ok P P' s s' tr j l u n f hj hr ih =>
      by_cases hk : j = k
      · subst hk
        rw [List.filter_cons_of_pos (by simp), hj]
        rw [Function.update_self] at ih
        exact .ok ih
      · rw [List.filter_cons_of_neg (by simpa using hk)]
        rwa [Function.update_of_ne (Ne.symm hk)] at ih
  | @fault P P' s s' tr j l u n f e hj hmay hr ih =>
      by_cases hk : j = k
      · subst hk
        rw [List.filter_cons_of_pos (by simp), hj]
        rw [Function.update_self] at ih
        exact .fault e hmay ih
      · rw [List.filter_cons_of_neg (by simpa using hk)]
        rwa [Function.update_of_ne (Ne.symm hk)] at ih

omit [DecidableEq κ] in
/-- What every step of a program does, each of its events did. -/
theorem Follows.always {may : ι → Prop} {M : ι → σ → σ → Prop} {p p' : Prog ι σ ε α}
    {es : List (Event κ ι σ)} (h : Follows may p es p') (hp : Always M p) :
    ∀ e ∈ es, M e.label e.before e.after := by
  induction h with
  | refl p => simp
  | ok _ ih =>
      obtain ⟨hm, hn, -⟩ := always_step.mp hp
      exact List.forall_mem_cons.mpr ⟨(hm _).1, ih (hn _)⟩
  | fault e _ _ ih =>
      obtain ⟨hm, -, hf⟩ := always_step.mp hp
      exact List.forall_mem_cons.mpr ⟨(hm _).2, ih (hf e)⟩

omit [DecidableEq κ] in
/-- A program that starts with a query has seen one store, and goes on from what it saw. -/
theorem Follows.query_bind {may : ι → Prop} {β : Type} {l : ι} {g : σ → β} {k : β → Prog ι σ ε α}
    {p' : Prog ι σ ε α} {es : List (Event κ ι σ)} (h : Follows may (query l g >>= k) es p') :
    es = [] ∨ ∃ e rest, es = e :: rest ∧ e.label = l ∧
      (rest = [] ∨ Follows may (k (g e.before)) rest p') := by
  generalize hp : (query l g >>= k : Prog ι σ ε α) = p at h
  cases h with
  | refl => exact .inl rfl
  | ok h =>
      injection hp with hl hu hn hf
      subst hl hn
      exact .inr ⟨_, _, rfl, rfl, .inr h⟩
  | fault e _ h =>
      injection hp with hl hu hn hf
      subst hl hf
      refine .inr ⟨_, _, rfl, rfl, .inl ?_⟩
      have h : Follows may (raise e : Prog ι σ ε α) _ p' := h
      cases h
      rfl

omit [DecidableEq κ] in
/-- A program that starts with a transaction goes on from what it committed, if it did. -/
theorem Follows.atomic_bind {may : ι → Prop} {β : Type} {l : ι} {t : σ → Except ε (β × σ)}
    {k : β → Prog ι σ ε α} {p' : Prog ι σ ε α} {es : List (Event κ ι σ)}
    (h : Follows may (atomic l t >>= k) es p') :
    es = [] ∨ ∃ e rest, es = e :: rest ∧ e.label = l ∧ (rest = [] ∨
      ∃ b, t e.before = .ok (b, e.after) ∧ Follows may (k b) rest p') := by
  generalize hp : (atomic l t >>= k : Prog ι σ ε α) = p at h
  have hraised : ∀ {x : ε} {rest : List (Event κ ι σ)},
      Follows may (raise x : Prog ι σ ε α) rest p' → rest = [] := by
    intro x rest h
    cases h
    rfl
  cases h with
  | refl => exact .inl rfl
  | @ok _ _ _ _ _ s rest _ h =>
      injection hp with hl hu hn hf
      subst hl hu hn
      refine .inr ⟨_, rest, rfl, rfl, ?_⟩
      dsimp only at h ⊢
      cases ht : t s with
      | ok r =>
          rw [ht] at h
          exact .inr ⟨r.1, rfl, h⟩
      | error x =>
          rw [ht] at h
          exact .inl (hraised h)
  | @fault _ _ _ _ _ _ rest _ x _ h =>
      injection hp with hl hu hn hf
      subst hl hf
      exact .inr ⟨_, rest, rfl, rfl, .inl (hraised h)⟩

section Returned

variable {may : ι → Prop} {β : Type} {es : List (Event κ ι σ)}

omit [DecidableEq κ] in
/-- What is finished takes no more steps. -/
theorem Follows.ret_iff {a b : α} :
    Follows may (ret a : Prog ι σ ε α) es (ret b) ↔ es = [] ∧ b = a := by
  constructor
  · intro h
    cases h
    exact ⟨rfl, rfl⟩
  · rintro ⟨rfl, rfl⟩
    exact .refl _

omit [DecidableEq κ] in
theorem Follows.not_raised {e : ε} {b : α} : ¬ Follows may (raise e : Prog ι σ ε α) es (ret b) := by
  intro h
  cases h

omit [DecidableEq κ] in
/-- A sequence that has returned has gone through its parts. -/
theorem Follows.bind_ret {p : Prog ι σ ε α} {k : α → Prog ι σ ε β} {b : β}
    (h : Follows may (p >>= k) es (ret b)) : ∃ es₁ a es₂, es = es₁ ++ es₂ ∧
      Follows may p es₁ (ret a) ∧ Follows may (k a) es₂ (ret b) := by
  induction p generalizing es with
  | ret a => exact ⟨[], a, es, rfl, .refl _, h⟩
  | raise e => exact absurd h Follows.not_raised
  | step l u n f ihn ihf =>
      cases h with
      | ok h =>
          obtain ⟨es₁, a, es₂, rfl, h₁, h₂⟩ := ihn _ h
          exact ⟨_ :: es₁, a, es₂, rfl, .ok h₁, h₂⟩
      | fault e hmay h =>
          obtain ⟨es₁, a, es₂, rfl, h₁, h₂⟩ := ihf e h
          exact ⟨_ :: es₁, a, es₂, rfl, .fault e hmay h₁, h₂⟩

omit [DecidableEq κ] in
/-- A program that is finished has taken its first step. -/
theorem Follows.step_done {l : ι} {u : σ → σ} {n : σ → Prog ι σ ε α} {f : ε → Prog ι σ ε α}
    {p' : Prog ι σ ε α} (h : Follows may (step l u n f) es p') (hdone : p'.Done) :
    ∃ e rest, es = e :: rest ∧ e.label = l ∧
      (e.after = u e.before ∧ Follows may (n e.before) rest p' ∨
        e.after = e.before ∧ may l ∧ ∃ x, Follows may (f x) rest p') := by
  cases h with
  | refl => exact absurd hdone id
  | ok h => exact ⟨_, _, rfl, rfl, .inl ⟨rfl, h⟩⟩
  | fault x hmay h => exact ⟨_, _, rfl, rfl, .inr ⟨rfl, hmay, x, h⟩⟩

omit [DecidableEq κ] in
/-- A sequence that is finished has raised in its first part, or has gone through it. -/
theorem Follows.bind_done {p : Prog ι σ ε α} {k : α → Prog ι σ ε β} {p' : Prog ι σ ε β}
    (h : Follows may (p >>= k) es p') (hdone : p'.Done) :
    (∃ e, p' = raise e ∧ Follows may p es (raise e)) ∨ ∃ es₁ a es₂, es = es₁ ++ es₂ ∧
      Follows may p es₁ (ret a) ∧ Follows may (k a) es₂ p' := by
  induction p generalizing es with
  | ret a => exact .inr ⟨[], a, es, rfl, .refl _, h⟩
  | raise e =>
      cases h
      exact .inl ⟨e, rfl, .refl _⟩
  | step l u n f ihn ihf =>
      cases h with
      | refl => exact absurd hdone id
      | ok h =>
          rcases ihn _ h with ⟨e, he, h₁⟩ | ⟨es₁, a, es₂, rfl, h₁, h₂⟩
          · exact .inl ⟨e, he, .ok h₁⟩
          · exact .inr ⟨_ :: es₁, a, es₂, rfl, .ok h₁, h₂⟩
      | fault x hmay h =>
          rcases ihf x h with ⟨e, he, h₁⟩ | ⟨es₁, a, es₂, rfl, h₁, h₂⟩
          · exact .inl ⟨e, he, .fault x hmay h₁⟩
          · exact .inr ⟨_ :: es₁, a, es₂, rfl, .fault x hmay h₁, h₂⟩

omit [DecidableEq κ] in
/-- A query that has returned has seen one store. -/
theorem Follows.query_ret {l : ι} {g : σ → α} {a : α}
    (h : Follows may (query l g : Prog ι σ ε α) es (ret a)) :
    ∃ e, es = [e] ∧ e.label = l ∧ g e.before = a := by
  generalize hp : (query l g : Prog ι σ ε α) = p at h
  cases h with
  | refl => exact absurd hp nofun
  | @ok k l' u n f s es p' h =>
      injection hp with hl hu hn hf
      subst hl hn
      obtain ⟨rfl, rfl⟩ := Follows.ret_iff.mp h
      exact ⟨_, rfl, rfl, rfl⟩
  | fault e _ h =>
      injection hp with hl hu hn hf
      subst hf
      exact absurd h Follows.not_raised

omit [DecidableEq κ] in
/-- A transaction that has returned has committed. -/
theorem Follows.atomic_ret {l : ι} {t : σ → Except ε (α × σ)} {a : α}
    (h : Follows may (atomic l t) es (ret a)) :
    ∃ e, es = [e] ∧ e.label = l ∧ t e.before = .ok (a, e.after) := by
  generalize hp : (atomic l t : Prog ι σ ε α) = p at h
  cases h with
  | refl => exact absurd hp nofun
  | @ok k l' u n f s es p' h =>
      injection hp with hl hu hn hf
      subst hl hu hn
      dsimp only at h ⊢
      cases ht : t s with
      | error e =>
          rw [ht] at h
          exact absurd h Follows.not_raised
      | ok r =>
          rw [ht] at h
          obtain ⟨rfl, rfl⟩ := Follows.ret_iff.mp h
          exact ⟨_, rfl, rfl, by rw [ht]⟩
  | fault e _ h =>
      injection hp with hl hu hn hf
      subst hf
      exact absurd h Follows.not_raised

omit [DecidableEq κ] in
/-- A handler that has returned did so in its body, or after the body raised. -/
theorem Follows.tryCatch_ret {p : Prog ι σ ε α} {h : ε → Prog ι σ ε α} {a : α}
    (hp : Follows may (p.tryCatch h) es (ret a)) : Follows may p es (ret a) ∨
      ∃ es₁ e es₂, es = es₁ ++ es₂ ∧ Follows may p es₁ (raise e) ∧ Follows may (h e) es₂ (ret a) := by
  induction p generalizing es with
  | ret b => exact .inl hp
  | raise e => exact .inr ⟨[], e, es, rfl, .refl _, hp⟩
  | step l u n f ihn ihf =>
      cases hp with
      | ok hp =>
          rcases ihn _ hp with h₁ | ⟨es₁, e, es₂, rfl, h₁, h₂⟩
          · exact .inl (.ok h₁)
          · exact .inr ⟨_ :: es₁, e, es₂, rfl, .ok h₁, h₂⟩
      | fault x hmay hp =>
          rcases ihf x hp with h₁ | ⟨es₁, e, es₂, rfl, h₁, h₂⟩
          · exact .inl (.fault x hmay h₁)
          · exact .inr ⟨_ :: es₁, e, es₂, rfl, .fault x hmay h₁, h₂⟩

end Returned

/-- What every step of every program does, every event of a run did. -/
theorem Runs.always {may : κ → ι → Prop} {M : κ → ι → σ → σ → Prop} {P P' : Pool ι σ ε α κ}
    {s s' : σ} {tr : List (Event κ ι σ)} (h : Runs may P s tr P' s')
    (hP : ∀ k, Always (M k) (P k)) : ∀ e ∈ tr, M e.thread e.label e.before e.after := by
  intro e he
  have hmem : e ∈ tr.filter (·.thread = e.thread) := List.mem_filter.mpr ⟨he, by simp⟩
  exact (h.follows e.thread).always (hP e.thread) e hmem

/-- Every store of a run, in order. -/
def stores (s : σ) (tr : List (Event κ ι σ)) : List σ := s :: tr.map (·.after)

/-- What holds after one event and is kept by those in between holds at a later one. -/
theorem Runs.between {may : κ → ι → Prop} {P P' : Pool ι σ ε α κ} {s s' : σ}
    {pre mid post : List (Event κ ι σ)} {d e : Event κ ι σ}
    (h : Runs may P s (pre ++ d :: (mid ++ e :: post)) P' s') {I : σ → Prop}
    (hI : ∀ x ∈ mid, I x.before → I x.after) (hd : I d.after) : I e.before := by
  obtain ⟨P₁, s₁, -, hfrom⟩ := h.split
  obtain ⟨-, P₂, hafter⟩ := hfrom.head
  obtain ⟨P₃, s₃, hmid, hpost⟩ := hafter.split
  rw [hpost.head.1]
  exact (hmid.chain hI hd).1

/-- What every event keeps is kept from any moment of the run to any later one. -/
theorem Runs.pairwise {may : κ → ι → Prop} {P P' : Pool ι σ ε α κ} {s s' : σ}
    {tr : List (Event κ ι σ)} {R : σ → σ → Prop} (h : Runs may P s tr P' s')
    (hR : ∀ e ∈ tr, R e.before e.after) (htrans : ∀ {a b c}, R a b → R b c → R a c) :
    (stores s tr).Pairwise R := by
  induction h with
  | refl P s => exact List.pairwise_singleton _ _
  | @ok P P' s s' tr k l u n f _ _ ih =>
      obtain ⟨hhead, htail⟩ := List.forall_mem_cons.mp hR
      have hrest := ih htail
      refine List.pairwise_cons.mpr ⟨fun t ht => ?_, hrest⟩
      rcases List.mem_cons.mp ht with rfl | ht
      · exact hhead
      · exact htrans hhead ((List.pairwise_cons.mp hrest).1 t ht)
  | @fault P P' s s' tr k l u n f _ _ _ _ ih =>
      obtain ⟨hhead, htail⟩ := List.forall_mem_cons.mp hR
      have hrest := ih htail
      refine List.pairwise_cons.mpr ⟨fun t ht => ?_, hrest⟩
      rcases List.mem_cons.mp ht with rfl | ht
      · exact hhead
      · exact (List.pairwise_cons.mp hrest).1 t ht

omit [DecidableEq κ] in
theorem getD_stores {R : σ → σ → Prop} {s : σ} {tr : List (Event κ ι σ)}
    (h : (stores s tr).Pairwise R) (d : σ) {i j : Nat} (hij : i < j)
    (hj : j < (stores s tr).length) : R ((stores s tr).getD i d) ((stores s tr).getD j d) := by
  have hpair := List.pairwise_iff_getElem.mp h i j (by omega) hj hij
  rwa [List.getElem_eq_getD d, List.getElem_eq_getD d] at hpair

/-! ### Rely/guarantee -/

section RelyGuarantee

variable {R : κ → σ → σ → Prop} {may : κ → ι → Prop} {G : κ → ι → σ → σ → Prog ι σ ε α → Prop}
  {M : κ → ι → σ → σ → Prop} {Q : κ → α → σ → Prop} {E : κ → ε → σ → Prop}
  {P P' : Pool ι σ ε α κ} {s s' : σ} {tr : List (Event κ ι σ)}

/-- Every thread is within its judgment. -/
def Safe (R : κ → σ → σ → Prop) (may : κ → ι → Prop)
    (G : κ → ι → σ → σ → Prog ι σ ε α → Prop) (Q : κ → α → σ → Prop) (E : κ → ε → σ → Prop)
    (P : Pool ι σ ε α κ) (s : σ) : Prop :=
  ∀ k, Prog.Safe (R k) (may k) (G k) (Q k) (E k) (P k) s

/-- One thread moves on and the others rely on what it did. -/
theorem Safe.moved (htrans : ∀ k {a b c}, R k a b → R k b c → R k a c) {k : κ}
    {p : Prog ι σ ε α} (h : Safe R may G Q E P s)
    (hp : Prog.Safe (R k) (may k) (G k) (Q k) (E k) p s') (hR : ∀ j, j ≠ k → R j s s') :
    Safe R may G Q E (Function.update P k p) s' := by
  intro j
  by_cases hj : j = k
  · subst hj
    rwa [Function.update_self]
  · rw [Function.update_of_ne hj]
    exact Prog.Safe.rely (R := R j) (htrans j) (h j) (hR j hj)

/-- **Rely/guarantee.** When every step of a thread that meets the condition `H` is among
what the others rely on, a run whose steps all meet `H` stays within the judgments, and
each of its steps is one its thread's guarantee describes. -/
theorem Runs.safe (hrefl : ∀ k a, R k a a) (htrans : ∀ k {a b c}, R k a b → R k b c → R k a c)
    {H : Event κ ι σ → Prop} (hR : ∀ (e : Event κ ι σ) p, G e.thread e.label e.before e.after p →
      H e → ∀ j, j ≠ e.thread → R j e.before e.after)
    (h : Safe R may G Q E P s) (hr : Runs may P s tr P' s') (hH : ∀ e ∈ tr, H e) :
    Safe R may G Q E P' s' ∧ ∀ e ∈ tr, ∃ p, G e.thread e.label e.before e.after p := by
  induction hr with
  | refl P s => exact ⟨h, by simp⟩
  | @ok P P' s s' tr k l u n f hk hr ih =>
      obtain ⟨hhead, htail⟩ := List.forall_mem_cons.mp hH
      have hsafe := h k
      rw [hk, safe_step] at hsafe
      obtain ⟨⟨hg, hn⟩, -⟩ := hsafe s (hrefl k s)
      obtain ⟨hend, hall⟩ := ih (h.moved htrans hn fun j hj =>
        hR ⟨k, l, s, u s, true⟩ _ hg hhead j hj) htail
      exact ⟨hend, List.forall_mem_cons.mpr ⟨⟨_, hg⟩, hall⟩⟩
  | @fault P P' s s' tr k l u n f e hk hmay hr ih =>
      obtain ⟨hhead, htail⟩ := List.forall_mem_cons.mp hH
      have hsafe := h k
      rw [hk, safe_step] at hsafe
      obtain ⟨hg, hf⟩ := (hsafe s (hrefl k s)).2 hmay e
      obtain ⟨hend, hall⟩ := ih (h.moved htrans hf fun j hj =>
        hR ⟨k, l, s, s, false⟩ _ hg hhead j hj) htail
      exact ⟨hend, List.forall_mem_cons.mpr ⟨⟨_, hg⟩, hall⟩⟩

omit [DecidableEq κ] in
/-- A finished thread is at its postcondition. -/
theorem Safe.finished (hrefl : ∀ k a, R k a a) (h : Safe R may G Q E P s) {k : κ}
    (hdone : (P k).Done) : (∃ a, P k = ret a ∧ Q k a s) ∨ ∃ e, P k = raise e ∧ E k e s := by
  have hk := h k
  cases hp : P k with
  | ret a =>
      rw [hp] at hk
      exact .inl ⟨a, rfl, safe_ret.mp hk s (hrefl k s)⟩
  | raise e =>
      rw [hp] at hk
      exact .inr ⟨e, rfl, safe_raise.mp hk s (hrefl k s)⟩
  | step l u n f =>
      rw [hp] at hdone
      exact hdone.elim

/-- **What a thread read decides how it ends.** A thread that starts with a query, in which
nothing fails, ends at the postcondition of what its query returned. -/
theorem Runs.read (hrefl : ∀ k a, R k a a) (htrans : ∀ k {a b c}, R k a b → R k b c → R k a c)
    {H : Event κ ι σ → Prop} (hR : ∀ (e : Event κ ι σ) p, G e.thread e.label e.before e.after p →
      H e → ∀ j, j ≠ e.thread → R j e.before e.after)
    {β : Type} {k : κ} {l : ι} {g : σ → β} {f : β → Prog ι σ ε α} {F : β → α → σ → Prop}
    {X : β → ε → σ → Prop} (hk : P k = query l g >>= f) (hmay : ∀ l, ¬ may k l)
    (hread : ∀ t, Prog.Safe (R k) (may k) (G k) (F (g t)) (X (g t)) (f (g t)) t)
    (h : Safe R may G Q E P s) (hr : Runs may P s tr P' s') (hH : ∀ e ∈ tr, H e)
    (hdone : (P' k).Done) : ∃ e, tr.find? (·.thread = k) = some e ∧
      ((∃ a, P' k = ret a ∧ F (g e.before) a s') ∨
        ∃ x, P' k = raise x ∧ X (g e.before) x s') := by
  induction hr with
  | refl P s =>
      rw [hk] at hdone
      exact hdone.elim
  | @ok P P' s s' tr j l' u n f' hj hr ih =>
      obtain ⟨hhead, htail⟩ := List.forall_mem_cons.mp hH
      have hsafe := h j
      rw [hj, safe_step] at hsafe
      obtain ⟨⟨hg, hn⟩, -⟩ := hsafe s (hrefl j s)
      have hothers := hR ⟨j, l', s, u s, true⟩ _ hg hhead
      by_cases heq : j = k
      · -- the query itself: from here on the thread is judged by what it saw
        subst heq
        obtain ⟨rfl, rfl, rfl, -⟩ : l' = l ∧ u = id ∧ n = (fun s => f (g s)) ∧ True := by
          have hq : step l' u n f' = query l g >>= f := hj.symm.trans hk
          injection hq with h₁ h₂ h₃
          exact ⟨h₁, h₂, h₃, trivial⟩
        have hrest : Safe R may G (fun i a t => if i = j then F (g s) a t else Q i a t)
            (fun i x t => if i = j then X (g s) x t else E i x t)
            (Function.update P j (f (g s))) (id s) := by
          intro i
          by_cases hi : i = j
          · subst hi
            rw [Function.update_self]
            exact (hread s).imp (fun _ _ _ _ h => h) (fun a t ha => by simpa using ha)
              fun x t hx => by simpa using hx
          · rw [Function.update_of_ne hi]
            have hmoved := Prog.Safe.rely (R := R i) (htrans i) (h i) (hothers i hi)
            exact hmoved.imp (fun _ _ _ _ h => h) (fun a t ha => by simpa [hi] using ha)
              fun x t hx => by simpa [hi] using hx
        obtain ⟨hend, -⟩ := hr.safe hrefl htrans hR hrest htail
        refine ⟨_, List.find?_cons_of_pos (by simp), ?_⟩
        rcases hend.finished hrefl hdone with ⟨a, ha, hQ⟩ | ⟨x, hx, hE⟩
        · exact .inl ⟨a, ha, by simpa using hQ⟩
        · exact .inr ⟨x, hx, by simpa using hE⟩
      · rw [List.find?_cons_of_neg (by simpa using heq)]
        exact ih ((Function.update_of_ne (Ne.symm heq) _ _).trans hk) (h.moved htrans hn hothers)
          htail hdone
  | @fault P P' s s' tr j l' u n f' e hj hjmay hr ih =>
      obtain ⟨hhead, htail⟩ := List.forall_mem_cons.mp hH
      have hne : j ≠ k := fun heq => hmay l' (heq ▸ hjmay)
      have hsafe := h j
      rw [hj, safe_step] at hsafe
      obtain ⟨hg, hf⟩ := (hsafe s (hrefl j s)).2 hjmay e
      rw [List.find?_cons_of_neg (by simpa using hne)]
      exact ih ((Function.update_of_ne hne.symm _ _).trans hk)
        (h.moved htrans hf (hR ⟨j, l', s, s, false⟩ _ hg hhead)) htail hdone

/-- A thread about to establish `F` will have, when the pool is done. -/
theorem Runs.established (hrefl : ∀ k a, R k a a)
    (htrans : ∀ k {a b c}, R k a b → R k b c → R k a c)
    (hR : ∀ i l a b, M i l a b → ∀ j, j ≠ i → R j a b) {F : σ → Prop} {k : κ}
    (hk : Beside (R k) (may k) (M k) (fun _ => F) (fun _ => F) (P k) s)
    (h : Safe R may (fun i l a b _ => M i l a b) (fun _ _ _ => True) (fun _ _ _ => True) P s)
    (hr : Runs may P s tr P' s') (hdone : Done P') : F s' := by
  have hall : Safe R may (fun i l a b _ => M i l a b) (fun j _ t => j = k → F t)
      (fun j _ t => j = k → F t) P s := by
    intro j
    by_cases hj : j = k
    · subst hj
      exact hk.post (fun _ _ h _ => h) fun _ _ h _ => h
    · exact (h j).imp (fun _ _ _ _ h => h) (fun _ _ _ heq => absurd heq hj)
        fun _ _ _ heq => absurd heq hj
  obtain ⟨hend, -⟩ := hr.safe hrefl htrans (H := fun _ => True)
    (fun e _ hm _ => hR e.thread e.label e.before e.after hm) hall fun _ _ => trivial
  rcases hend.finished hrefl (hdone k) with ⟨_, -, hF⟩ | ⟨_, -, hF⟩
  · exact hF rfl
  · exact hF rfl

/-- The thread that makes `A` true with this step goes on to establish `F`. -/
def Hands (R : σ → σ → Prop) (may : ι → Prop) (M : ι → σ → σ → Prop) (A F : σ → Prop) (a b : σ)
    (p : Prog ι σ ε α) : Prop :=
  ¬ A a → A b → Beside R may M (fun _ => F) (fun _ => F) p b

/-- **The last to write sees everything.** If whichever thread makes `A` true goes on to
establish `F`, then a pool that starts without `A` and is done with `A` is done with `F`. -/
theorem Runs.handoff (hrefl : ∀ k a, R k a a)
    (htrans : ∀ k {a b c}, R k a b → R k b c → R k a c)
    (hR : ∀ i l a b, M i l a b → ∀ j, j ≠ i → R j a b) {A F : σ → Prop}
    (h : Safe R may (fun i l a b p => M i l a b ∧ Hands (R i) (may i) (M i) A F a b p)
      (fun _ _ _ => True) (fun _ _ _ => True) P s)
    (hr : Runs may P s tr P' s') (hdone : Done P') (hs : ¬ A s) (hs' : A s') : F s' := by
  have hplain : ∀ {P : Pool ι σ ε α κ} {s : σ},
      Safe R may (fun i l a b p => M i l a b ∧ Hands (R i) (may i) (M i) A F a b p)
        (fun _ _ _ => True) (fun _ _ _ => True) P s →
      Safe R may (fun i l a b _ => M i l a b) (fun _ _ _ => True) (fun _ _ _ => True) P s :=
    fun h j => (h j).imp (fun _ _ _ _ h => h.1) (fun _ _ h => h) fun _ _ h => h
  induction hr with
  | refl P s => exact absurd hs' hs
  | @ok P P' s s' tr k l u n f hk hr ih =>
      have hsafe := h k
      rw [hk, safe_step] at hsafe
      obtain ⟨⟨⟨hm, hhands⟩, hn⟩, -⟩ := hsafe s (hrefl k s)
      have hmoved := h.moved htrans hn (hR k l s (u s) hm)
      by_cases hA : A (u s)
      · refine hr.established hrefl htrans hR (k := k) ?_ (hplain hmoved) hdone
        rw [Function.update_self]
        exact hhands hs hA
      · exact ih hmoved hdone hA hs'
  | @fault P P' s s' tr k l u n f e hk hmay hr ih =>
      have hsafe := h k
      rw [hk, safe_step] at hsafe
      obtain ⟨⟨hm, -⟩, hf⟩ := (hsafe s (hrefl k s)).2 hmay e
      exact ih (h.moved htrans hf (hR k l s s hm)) hdone hs hs'

end RelyGuarantee

end Pool

end Prog
