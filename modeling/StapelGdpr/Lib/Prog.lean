import Mathlib.Logic.Relation

/-!
# Programs over a shared store, one atomic step at a time

A `Prog ι σ ε α` is the code of one call: it returns a value, raises an error, or takes
one **atomic step** (a query, a write, a whole transaction) and goes on from what the
step saw. Between two steps anything else may happen to the store, and every step may
fail: the `fail` continuation is the code's own error path from there, so a handler
around the step is part of the tree and not of the semantics.

One definition of a function therefore has every semantics its claims need:

* `Prog.run` — the call alone, no failures (executable);
* `Prog.runFault n e` — the call alone, its `n`-th step raising `e` (executable);
* `Prog.runUnder plan` — the call alone, the steps that a plan names raising (executable);
* `Prog.Runs` — the call alone, stopped after any number of steps, with failures of the
  steps a predicate `may` allows and the trace of step labels;
* `Pool.Runs` — several calls at once, interleaved step by step.

`Prog.Safe` is the assertion all of them are proved through: a rely/guarantee judgment
computed by recursion on the tree, with one rule for each way programs are built.
-/

/-- Programs with step labels `ι`, store `σ`, errors `ε` and result `α`. -/
inductive Prog (ι σ ε α : Type) : Type where
  | ret (a : α)
  | raise (e : ε)
  /-- One atomic step labelled `l`: the store `s` becomes `upd s` and the program goes on
  as `next s`; if the step fails with `e` the store is unchanged and it goes on as
  `fail e`. -/
  | step (l : ι) (upd : σ → σ) (next : σ → Prog ι σ ε α) (fail : ε → Prog ι σ ε α)

namespace Prog

variable {ι σ ε α β γ : Type}

/-- Sequencing. -/
def bind : Prog ι σ ε α → (α → Prog ι σ ε β) → Prog ι σ ε β
  | ret a, k => k a
  | raise e, _ => raise e
  | step l u n f, k => step l u (fun s => (n s).bind k) fun e => (f e).bind k

/-- `try p except e: h e`. -/
def tryCatch : Prog ι σ ε α → (ε → Prog ι σ ε α) → Prog ι σ ε α
  | ret a, _ => ret a
  | raise e, h => h e
  | step l u n f, h => step l u (fun s => (n s).tryCatch h) fun e => (f e).tryCatch h

instance : Monad (Prog ι σ ε) where
  pure := ret
  bind := bind

/-- `try: p finally: f`; `f` is told whether `p` has returned. -/
def tryFinally (p : Prog ι σ ε α) (f : Bool → Prog ι σ ε Unit) : Prog ι σ ε α :=
  (p.tryCatch fun e => (f false).bind fun _ => raise e).bind fun a => (f true).bind fun _ => ret a

/-- A transaction: all of `t` or, when it throws, nothing of it. -/
def atomic (l : ι) (t : σ → Except ε (α × σ)) : Prog ι σ ε α :=
  step l (fun s => match t s with | .ok r => r.2 | .error _ => s)
    (fun s => match t s with | .ok r => ret r.1 | .error e => raise e) raise

/-- An unconditional write. -/
def write (l : ι) (u : σ → σ) : Prog ι σ ε Unit := step l u (fun _ => ret ()) raise

/-- A read-only step. -/
def query (l : ι) (g : σ → α) : Prog ι σ ε α := step l id (fun s => ret (g s)) raise

/-- A call of something outside the store, which may fail. -/
def external (l : ι) : Prog ι σ ε Unit := query l fun _ => ()

@[simp] theorem pure_def (a : α) : (pure a : Prog ι σ ε α) = ret a := rfl
@[simp] theorem ret_bind (a : α) (k : α → Prog ι σ ε β) : (ret a >>= k) = k a := rfl
@[simp] theorem raise_bind (e : ε) (k : α → Prog ι σ ε β) : (raise e >>= k) = raise e := rfl
@[simp] theorem step_bind (l : ι) (u : σ → σ) (n : σ → Prog ι σ ε α) (f : ε → Prog ι σ ε α)
    (k : α → Prog ι σ ε β) :
    (step l u n f >>= k) = step l u (fun s => n s >>= k) fun e => f e >>= k := rfl

theorem bind_assoc (p : Prog ι σ ε α) (k : α → Prog ι σ ε β) (m : β → Prog ι σ ε γ) :
    (p >>= k) >>= m = p >>= fun a => k a >>= m := by
  induction p with
  | ret a => rfl
  | raise e => rfl
  | step l u n f ihn ihf =>
      simp only [step_bind]
      congr 1
      · funext s; exact ihn s
      · funext e; exact ihf e

theorem bind_ret (p : Prog ι σ ε α) : p >>= ret = p := by
  induction p with
  | ret a => rfl
  | raise e => rfl
  | step l u n f ihn ihf =>
      simp only [step_bind]
      congr 1
      · funext s; exact ihn s
      · funext e; exact ihf e

/-- Inside a transaction: a sequence that succeeds succeeds step by step. -/
theorem ok_of_bind {x : Except ε α} {f : α → Except ε β} {b : β} (h : x >>= f = .ok b) :
    ∃ a, x = .ok a ∧ f a = .ok b := by
  cases x with
  | error e => exact absurd h (by simp [Bind.bind, Except.bind])
  | ok a => exact ⟨a, rfl, h⟩

/-- A program on one part of a store, as a program on the whole store. -/
def lift {τ κ δ : Type} (get : τ → σ) (put : σ → τ → τ) (label : ι → κ) (up : ε → δ)
    (down : δ → ε) : Prog ι σ ε α → Prog κ τ δ α
  | ret a => ret a
  | raise e => raise (up e)
  | step l u n f => step (label l) (fun t => put (u (get t)) t)
      (fun t => lift get put label up down (n (get t)))
      (fun e => lift get put label up down (f (down e)))

/-! ## Running a program alone -/

/-- The call alone, with no failure: its outcome and the store it leaves. -/
def run : Prog ι σ ε α → σ → Except ε α × σ
  | ret a, s => (.ok a, s)
  | raise e, s => (.error e, s)
  | step _ u n _, s => run (n s) (u s)

theorem run_bind (p : Prog ι σ ε α) (k : α → Prog ι σ ε β) (s : σ) :
    (p >>= k).run s = match p.run s with
      | (.ok a, s') => (k a).run s'
      | (.error e, s') => (.error e, s') := by
  induction p generalizing s with
  | ret a => rfl
  | raise e => rfl
  | step l u n f ihn _ => exact ihn s (u s)

theorem run_tryCatch (p : Prog ι σ ε α) (h : ε → Prog ι σ ε α) (s : σ) :
    (p.tryCatch h).run s = match p.run s with
      | (.ok a, s') => (.ok a, s')
      | (.error e, s') => (h e).run s' := by
  induction p generalizing s with
  | ret a => rfl
  | raise e => rfl
  | step l u n f ihn _ => exact ihn s (u s)

/-- The call alone, its `n`-th step (from 0) raising `e`. -/
def runFault : Prog ι σ ε α → Nat → ε → σ → Except ε α × σ
  | ret a, _, _, s => (.ok a, s)
  | raise e, _, _, s => (.error e, s)
  | step _ _ _ f, 0, e, s => run (f e) s
  | step _ u k _, n + 1, e, s => runFault (k s) n e (u s)

/-- `p`, started in `s` and left alone, has taken the steps `tr`, is in store `s'` and has
`p'` still to do. Steps whose label `may` admits can fail, with any error. A complete
call ends in a `ret` or a `raise`; any other `p'` is a call that died on the way. -/
inductive Runs (may : ι → Prop) : Prog ι σ ε α → σ → List ι → Prog ι σ ε α → σ → Prop
  | refl (p : Prog ι σ ε α) (s : σ) : Runs may p s [] p s
  | ok {l : ι} {u : σ → σ} {n : σ → Prog ι σ ε α} {f : ε → Prog ι σ ε α} {s s' : σ}
      {tr : List ι} {p' : Prog ι σ ε α} :
      Runs may (n s) (u s) tr p' s' → Runs may (step l u n f) s (l :: tr) p' s'
  | fault {l : ι} {u : σ → σ} {n : σ → Prog ι σ ε α} {f : ε → Prog ι σ ε α} {s s' : σ}
      {tr : List ι} {p' : Prog ι σ ε α} (e : ε) :
      may l → Runs may (f e) s tr p' s' → Runs may (step l u n f) s (l :: tr) p' s'

/-- `p` is finished: it has returned or raised. -/
def Done : Prog ι σ ε α → Prop
  | step .. => False
  | _ => True

instance (p : Prog ι σ ε α) : Decidable p.Done :=
  match p with
  | ret _ => isTrue trivial
  | raise _ => isTrue trivial
  | step .. => isFalse id

/-- What a program has returned, if it has. -/
def returned? : Prog ι σ ε α → Option α
  | ret a => some a
  | _ => none

theorem returned?_eq_some {p : Prog ι σ ε α} {a : α} : p.returned? = some a ↔ p = ret a := by
  cases p <;> simp [returned?]

/-- Where a finished program stands: returned, or raised. -/
def result : Except ε α → Prog ι σ ε α
  | .ok a => ret a
  | .error e => raise e

@[simp] theorem result_ok (a : α) : result (.ok a : Except ε α) = (ret a : Prog ι σ ε α) := rfl
@[simp] theorem result_error (e : ε) :
    result (.error e : Except ε α) = (raise e : Prog ι σ ε α) := rfl

/-- The labels of the call alone, with no failure. -/
def labels : Prog ι σ ε α → σ → List ι
  | ret _, _ => []
  | raise _, _ => []
  | step l u n _, s => l :: labels (n s) (u s)

/-- The failure-free run is one of the runs. -/
theorem runs_labels (may : ι → Prop) (p : Prog ι σ ε α) (s : σ) :
    Runs may p s (p.labels s) (result (p.run s).1) (p.run s).2 := by
  induction p generalizing s with
  | ret a => exact .refl _ _
  | raise e => exact .refl _ _
  | step l u n f ihn _ => exact .ok (ihn s (u s))

theorem runs_run (may : ι → Prop) (p : Prog ι σ ε α) (s : σ) :
    ∃ tr, Runs may p s tr (result (p.run s).1) (p.run s).2 :=
  ⟨_, runs_labels may p s⟩

/-- A failure-free run that returns is one of the runs that return. -/
theorem runs_of_isOk (may : ι → Prop) {p : Prog ι σ ε α} {s : σ} (h : (p.run s).1.isOk = true) :
    ∃ a tr, Runs may p s tr (ret a) (p.run s).2 := by
  obtain ⟨tr, hrun⟩ := runs_run may p s
  cases hres : (p.run s).1 with
  | ok a =>
      rw [hres] at hrun
      exact ⟨a, tr, hrun⟩
  | error e =>
      rw [hres] at h
      exact absurd h (by simp [Except.isOk, Except.toBool])

/-- The labels of the call alone, its `n`-th step (from 0) raising `e`. -/
def labelsFault : Prog ι σ ε α → Nat → ε → σ → List ι
  | ret _, _, _, _ => []
  | raise _, _, _, _ => []
  | step l _ _ f, 0, e, s => l :: labels (f e) s
  | step l u k _, n + 1, e, s => l :: labelsFault (k s) n e (u s)

/-- A run with one failing step is one of the runs. -/
theorem runs_labelsFault (n : Nat) (e : ε) (p : Prog ι σ ε α) (s : σ) :
    Runs (fun _ => True) p s (p.labelsFault n e s) (result (p.runFault n e s).1)
      (p.runFault n e s).2 := by
  induction p generalizing s n with
  | ret a => cases n <;> exact .refl _ _
  | raise e' => cases n <;> exact .refl _ _
  | step l u k f ihk _ =>
      cases n with
      | zero => exact .fault e trivial (runs_labels _ (f e) s)
      | succ n => exact .ok (ihk s n (u s))

theorem runs_runFault (n : Nat) (e : ε) (p : Prog ι σ ε α) (s : σ) :
    ∃ tr, Runs (fun _ => True) p s tr (result (p.runFault n e s).1) (p.runFault n e s).2 :=
  ⟨_, runs_labelsFault n e p s⟩

/-- A run of a sequence is a run of its first part, or a run of it to a result and from there. -/
theorem Runs.bind_cases {may : ι → Prop} {p : Prog ι σ ε α} {k : α → Prog ι σ ε β}
    {q : Prog ι σ ε β} {s s' : σ} {tr : List ι} (h : Runs may (p >>= k) s tr q s') :
    (∃ p', Runs may p s tr p' s') ∨ ∃ tr₁ a s₁ tr₂, tr = tr₁ ++ tr₂ ∧
      Runs may p s tr₁ (ret a) s₁ ∧ Runs may (k a) s₁ tr₂ q s' := by
  induction p generalizing s tr with
  | ret a => exact .inr ⟨[], a, s, tr, rfl, .refl _ _, h⟩
  | raise e =>
      cases h with
      | refl => exact .inl ⟨_, .refl _ _⟩
  | step l u n f ihn ihf =>
      cases h with
      | refl => exact .inl ⟨_, .refl _ _⟩
      | ok h =>
          rcases ihn s h with ⟨p', hp⟩ | ⟨tr₁, a, s₁, tr₂, rfl, hp, hk⟩
          · exact .inl ⟨p', .ok hp⟩
          · exact .inr ⟨l :: tr₁, a, s₁, tr₂, rfl, .ok hp, hk⟩
      | fault e hmay h =>
          rcases ihf e h with ⟨p', hp⟩ | ⟨tr₁, a, s₁, tr₂, rfl, hp, hk⟩
          · exact .inl ⟨p', .fault e hmay hp⟩
          · exact .inr ⟨l :: tr₁, a, s₁, tr₂, rfl, .fault e hmay hp, hk⟩

/-- A run of a program is the beginning of a run of whatever starts with it. -/
theorem Runs.bind {may : ι → Prop} {p p' : Prog ι σ ε α} {s s' : σ} {tr : List ι}
    (h : Runs may p s tr p' s') (k : α → Prog ι σ ε β) :
    Runs may (p >>= k) s tr (p' >>= k) s' := by
  induction h with
  | refl p s => exact .refl _ _
  | ok _ ih => exact .ok ih
  | fault e hmay _ ih => exact .fault e hmay ih

/-- What has raised takes no more steps. -/
theorem Runs.of_raise {may : ι → Prop} {e : ε} {p' : Prog ι σ ε α} {s s' : σ} {tr : List ι}
    (h : Runs may (raise e) s tr p' s') : tr = [] ∧ p' = raise e ∧ s' = s := by
  cases h
  exact ⟨rfl, rfl, rfl⟩

theorem Runs.mono {may may' : ι → Prop} {p p' : Prog ι σ ε α} {s s' : σ} {tr : List ι}
    (hmay : ∀ l, may l → may' l) (h : Runs may p s tr p' s') : Runs may' p s tr p' s' := by
  induction h with
  | refl p s => exact .refl p s
  | ok _ ih => exact .ok ih
  | fault e hl _ ih => exact .fault e (hmay _ hl) ih

/-! ## The judgment -/

/-- `p`, about to go on from `s` while others move the store by `R`, takes only steps
that satisfy the guarantee `G` (label, store before, store after, what remains of the
program) and ends with `Q` (returned) or `E` (raised). A failing step counts as one that
leaves the store alone. -/
def Safe (R : σ → σ → Prop) (may : ι → Prop) (G : ι → σ → σ → Prog ι σ ε α → Prop)
    (Q : α → σ → Prop) (E : ε → σ → Prop) : Prog ι σ ε α → σ → Prop
  | ret a, s => ∀ s', R s s' → Q a s'
  | raise e, s => ∀ s', R s s' → E e s'
  | step l u n f, s => ∀ s', R s s' →
      (G l s' (u s') (n s') ∧ Safe R may G Q E (n s') (u s')) ∧
      (may l → ∀ e, G l s' s' (f e) ∧ Safe R may G Q E (f e) s')

section Rules

variable {R : σ → σ → Prop} {may : ι → Prop} {Q : α → σ → Prop} {E : ε → σ → Prop}

theorem safe_ret {G : ι → σ → σ → Prog ι σ ε α → Prop} {a : α} {s : σ} :
    Safe R may G Q E (ret a) s ↔ ∀ s', R s s' → Q a s' := Iff.rfl

theorem safe_raise {G : ι → σ → σ → Prog ι σ ε α → Prop} {e : ε} {s : σ} :
    Safe R may G Q E (raise e) s ↔ ∀ s', R s s' → E e s' := Iff.rfl

theorem safe_step {G : ι → σ → σ → Prog ι σ ε α → Prop} {l : ι} {u : σ → σ}
    {n : σ → Prog ι σ ε α} {f : ε → Prog ι σ ε α} {s : σ} :
    Safe R may G Q E (step l u n f) s ↔ ∀ s', R s s' →
      (G l s' (u s') (n s') ∧ Safe R may G Q E (n s') (u s')) ∧
      (may l → ∀ e, G l s' s' (f e) ∧ Safe R may G Q E (f e) s') := Iff.rfl

/-- What holds before interference holds after it. -/
theorem Safe.rely (htrans : ∀ {a b c}, R a b → R b c → R a c)
    {G : ι → σ → σ → Prog ι σ ε α → Prop} {p : Prog ι σ ε α} {s s' : σ}
    (h : Safe R may G Q E p s) (hR : R s s') : Safe R may G Q E p s' := by
  cases p with
  | ret a => exact fun t ht => h t (htrans hR ht)
  | raise e => exact fun t ht => h t (htrans hR ht)
  | step l u n f => exact fun t ht => h t (htrans hR ht)

/-- Weaken the guarantee and the postconditions. -/
theorem Safe.imp {G G' : ι → σ → σ → Prog ι σ ε α → Prop} {Q' : α → σ → Prop}
    {E' : ε → σ → Prop} {p : Prog ι σ ε α} {s : σ} (h : Safe R may G Q E p s)
    (hG : ∀ l s s' p, G l s s' p → G' l s s' p) (hQ : ∀ a s, Q a s → Q' a s)
    (hE : ∀ e s, E e s → E' e s) : Safe R may G' Q' E' p s := by
  induction p generalizing s with
  | ret a => exact fun t ht => hQ a t (h t ht)
  | raise e => exact fun t ht => hE e t (h t ht)
  | step l u n f ihn ihf =>
      intro t ht
      obtain ⟨⟨hg, hn⟩, hf⟩ := h t ht
      exact ⟨⟨hG _ _ _ _ hg, ihn t hn⟩,
        fun hl e => ⟨hG _ _ _ _ (hf hl e).1, ihf e (hf hl e).2⟩⟩

/-- Weaken the postconditions. -/
theorem Safe.post {G : ι → σ → σ → Prog ι σ ε α → Prop} {Q' : α → σ → Prop}
    {E' : ε → σ → Prop} {p : Prog ι σ ε α} {s : σ} (h : Safe R may G Q E p s)
    (hQ : ∀ a s, Q a s → Q' a s) (hE : ∀ e s, E e s → E' e s) : Safe R may G Q' E' p s :=
  h.imp (fun _ _ _ _ h => h) hQ hE

/-- What neither the others nor the program's own steps undo holds all along. -/
theorem Safe.inv {G : ι → σ → σ → Prog ι σ ε α → Prop} {p : Prog ι σ ε α} {s : σ} {I : σ → Prop}
    (h : Safe R may G Q E p s) (hR : ∀ a b, R a b → I a → I b)
    (hG : ∀ l a b p', G l a b p' → I a → I b) (hs : I s) :
    Safe R may (fun l a b p' => G l a b p' ∧ I a) (fun a t => Q a t ∧ I t)
      (fun e t => E e t ∧ I t) p s := by
  induction p generalizing s with
  | ret a => exact fun t ht => ⟨h t ht, hR s t ht hs⟩
  | raise e => exact fun t ht => ⟨h t ht, hR s t ht hs⟩
  | step l u n f ihn ihf =>
      intro t ht
      obtain ⟨⟨hg, hn⟩, hf⟩ := h t ht
      have ht' := hR s t ht hs
      exact ⟨⟨⟨hg, ht'⟩, ihn t hn (hG _ _ _ _ hg ht')⟩,
        fun hl e => ⟨⟨(hf hl e).1, ht'⟩, ihf e (hf hl e).2 ht'⟩⟩

/-- Sequencing: the continuation is entered in any store the first part can leave. -/
theorem Safe.bind (hrefl : ∀ a, R a a) {G : ι → σ → σ → Prog ι σ ε β → Prop}
    {P : α → σ → Prop} {Q : β → σ → Prop} {p : Prog ι σ ε α} {k : α → Prog ι σ ε β} {s : σ}
    (hp : Safe R may (fun l s s' p' => G l s s' (p' >>= k)) P E p s)
    (hk : ∀ a s', P a s' → Safe R may G Q E (k a) s') : Safe R may G Q E (p >>= k) s := by
  induction p generalizing s with
  | ret a => exact hk a s (hp s (hrefl s))
  | raise e => exact hp
  | step l u n f ihn ihf =>
      intro t ht
      obtain ⟨⟨hg, hn⟩, hf⟩ := hp t ht
      exact ⟨⟨hg, ihn t hn⟩, fun hl e => ⟨(hf hl e).1, ihf e (hf hl e).2⟩⟩

/-- An exception handler: entered in any store in which the body can raise. -/
theorem Safe.tryCatch (hrefl : ∀ a, R a a) {G : ι → σ → σ → Prog ι σ ε α → Prop}
    {X : ε → σ → Prop} {p : Prog ι σ ε α} {h : ε → Prog ι σ ε α} {s : σ}
    (hp : Safe R may (fun l s s' p' => G l s s' (p'.tryCatch h)) Q X p s)
    (hh : ∀ e s', X e s' → Safe R may G Q E (h e) s') :
    Safe R may G Q E (p.tryCatch h) s := by
  induction p generalizing s with
  | ret a => exact hp
  | raise e => exact hh e s (hp s (hrefl s))
  | step l u n f ihn ihf =>
      intro t ht
      obtain ⟨⟨hg, hn⟩, hf⟩ := hp t ht
      exact ⟨⟨hg, ihn t hn⟩, fun hl e => ⟨(hf hl e).1, ihf e (hf hl e).2⟩⟩

/-- A query, and what comes after it. -/
theorem Safe.query_bind {G : ι → σ → σ → Prog ι σ ε α → Prop} {l : ι} {g : σ → β}
    {k : β → Prog ι σ ε α} {s : σ}
    (h : ∀ s', R s s' → (G l s' s' (k (g s')) ∧ Safe R may G Q E (k (g s')) s') ∧
      (may l → ∀ e, G l s' s' (raise e) ∧ Safe R may G Q E (raise e) s')) :
    Safe R may G Q E (query l g >>= k) s := h

/-- A write, and what comes after it. -/
theorem Safe.write_bind {G : ι → σ → σ → Prog ι σ ε α → Prop} {l : ι} {u : σ → σ}
    {k : Unit → Prog ι σ ε α} {s : σ}
    (h : ∀ s', R s s' → (G l s' (u s') (k ()) ∧ Safe R may G Q E (k ()) (u s')) ∧
      (may l → ∀ e, G l s' s' (raise e) ∧ Safe R may G Q E (raise e) s')) :
    Safe R may G Q E (write l u >>= k) s := h

/-- A transaction, and what comes after it. -/
theorem Safe.atomic_bind {G : ι → σ → σ → Prog ι σ ε α → Prop} {l : ι}
    {t : σ → Except ε (β × σ)} {k : β → Prog ι σ ε α} {s : σ}
    (h : ∀ s', R s s' → match t s' with
      | .ok r => G l s' r.2 (k r.1) ∧ Safe R may G Q E (k r.1) r.2
      | .error e => G l s' s' (raise e) ∧ Safe R may G Q E (raise e) s')
    (hfail : ∀ s', R s s' → may l → ∀ e, G l s' s' (raise e) ∧ Safe R may G Q E (raise e) s') :
    Safe R may G Q E (atomic l t >>= k) s := by
  intro s' hR
  refine ⟨?_, fun hl e => hfail s' hR hl e⟩
  have h := h s' hR
  revert h
  change (match t s' with
      | .ok r => G l s' r.2 (k r.1) ∧ Safe R may G Q E (k r.1) r.2
      | .error e => G l s' s' (raise e) ∧ Safe R may G Q E (raise e) s') →
    G l s' (match t s' with | .ok r => r.2 | .error _ => s')
        ((match t s' with | .ok r => ret r.1 | .error e => raise e) >>= k) ∧
      Safe R may G Q E ((match t s' with | .ok r => ret r.1 | .error e => raise e) >>= k)
        (match t s' with | .ok r => r.2 | .error _ => s')
  cases t s' with
  | ok r => exact id
  | error e => exact id

/-- A run of no steps has gone nowhere. -/
theorem Runs.nil_iff {p p' : Prog ι σ ε α} {s s' : σ} :
    Runs may p s [] p' s' ↔ p' = p ∧ s' = s := by
  constructor
  · intro h
    generalize htr : ([] : List ι) = tr at h
    cases h with
    | refl => exact ⟨rfl, rfl⟩
    | ok => cases htr
    | fault => cases htr
  · rintro ⟨rfl, rfl⟩
    exact .refl _ _

/-- What is known of the last step of a program that has run alone for a while. -/
theorem Safe.last (hrefl : ∀ a, R a a) {G : ι → σ → σ → Prog ι σ ε α → Prop}
    {p p' : Prog ι σ ε α} {s s' : σ} {tr : List ι} {l : ι} (h : Safe R may G Q E p s)
    (hr : Runs may p s (tr ++ [l]) p' s') : ∃ a, G l a s' p' := by
  generalize htr : tr ++ [l] = full at hr
  induction hr generalizing tr with
  | refl p s => simp at htr
  | @ok l' u n f s s' rest p' hr ih =>
      obtain ⟨⟨hg, hn⟩, -⟩ := h _ (hrefl _)
      cases tr with
      | nil =>
          obtain ⟨rfl, rfl⟩ : l = l' ∧ [] = rest := by simpa using htr
          obtain ⟨rfl, rfl⟩ := Runs.nil_iff.mp hr
          exact ⟨_, hg⟩
      | cons t tr => exact ih hn (by simpa using (List.cons.inj htr).2)
  | @fault l' u n f s s' rest p' e hl hr ih =>
      obtain ⟨hg, hf⟩ := (h _ (hrefl _)).2 hl e
      cases tr with
      | nil =>
          obtain ⟨rfl, rfl⟩ : l = l' ∧ [] = rest := by simpa using htr
          obtain ⟨rfl, rfl⟩ := Runs.nil_iff.mp hr
          exact ⟨_, hg⟩
      | cons t tr => exact ih hf (by simpa using (List.cons.inj htr).2)

/-- A judgment holds of what is left of a program that has run alone for a while. -/
theorem Safe.runs (hrefl : ∀ a, R a a) {G : ι → σ → σ → Prog ι σ ε α → Prop}
    {p p' : Prog ι σ ε α} {s s' : σ} {tr : List ι} (h : Safe R may G Q E p s)
    (hr : Runs may p s tr p' s') : Safe R may G Q E p' s' := by
  induction hr with
  | refl p s => exact h
  | ok _ ih => exact ih (h _ (hrefl _)).1.2
  | fault e hl _ ih => exact ih ((h _ (hrefl _)).2 hl e).2

end Rules

/-! ## Beside others

The judgment with a guarantee on single steps. -/

/-- `p` runs beside others that move the store by `R`, takes only steps in `M`, and ends
with `Q` (returned) or `E` (raised). -/
abbrev Beside (R : σ → σ → Prop) (may : ι → Prop) (M : ι → σ → σ → Prop) (Q : α → σ → Prop)
    (E : ε → σ → Prop) (p : Prog ι σ ε α) (s : σ) : Prop :=
  Safe R may (fun l a b _ => M l a b) Q E p s

section Beside

variable {R : σ → σ → Prop} {may : ι → Prop} {M : ι → σ → σ → Prop} {Q : α → σ → Prop}
  {E : ε → σ → Prop}

/-- Weaken the postconditions. -/
theorem Beside.post {Q' : α → σ → Prop} {E' : ε → σ → Prop} {p : Prog ι σ ε α} {s : σ}
    (h : Beside R may M Q E p s) (hQ : ∀ a s, Q a s → Q' a s) (hE : ∀ e s, E e s → E' e s) :
    Beside R may M Q' E' p s :=
  Safe.post h hQ hE

/-- What neither the others nor the program's own steps undo holds all along. -/
theorem Beside.inv {p : Prog ι σ ε α} {s : σ} {I : σ → Prop} (h : Beside R may M Q E p s)
    (hR : ∀ a b, R a b → I a → I b) (hM : ∀ l a b, M l a b → I a → I b) (hs : I s) :
    Beside R may (fun l a b => M l a b ∧ I a) (fun a t => Q a t ∧ I t) (fun e t => E e t ∧ I t)
      p s :=
  Safe.inv h hR (fun l a b _ => hM l a b) hs

/-- One transaction. -/
theorem Beside.atomic {l : ι} {t : σ → Except ε (α × σ)} {s : σ}
    (hstep : ∀ s', R s s' → match t s' with
      | .ok r => M l s' r.2 ∧ ∀ s'', R r.2 s'' → Q r.1 s''
      | .error e => M l s' s' ∧ ∀ s'', R s' s'' → E e s'')
    (hfail : ∀ s', R s s' → may l → M l s' s' ∧ ∀ e s'', R s' s'' → E e s'') :
    Beside R may M Q E (atomic l t) s := by
  intro s' hR
  refine ⟨?_, fun hl e => ⟨(hfail s' hR hl).1, (hfail s' hR hl).2 e⟩⟩
  have h := hstep s' hR
  cases ht : t s' with
  | ok r => simpa only [ht, Safe] using h
  | error e => simpa only [ht, Safe] using h

/-- One query. -/
theorem Beside.query {l : ι} {g : σ → α} {s : σ}
    (h : ∀ s', R s s' → M l s' s' ∧ (∀ s'', R s' s'' → Q (g s') s'') ∧
      (may l → ∀ e s'', R s' s'' → E e s'')) : Beside R may M Q E (query l g) s :=
  fun s' hR => ⟨⟨(h s' hR).1, (h s' hR).2.1⟩, fun hl e => ⟨(h s' hR).1, (h s' hR).2.2 hl e⟩⟩

/-- One write. -/
theorem Beside.write {Q : Unit → σ → Prop} {l : ι} {u : σ → σ} {s : σ}
    (h : ∀ s', R s s' → (M l s' (u s') ∧ ∀ s'', R (u s') s'' → Q () s'') ∧
      (may l → M l s' s' ∧ ∀ e s'', R s' s'' → E e s'')) : Beside R may M Q E (write l u) s :=
  fun s' hR => ⟨(h s' hR).1, fun hl e => ⟨((h s' hR).2 hl).1, ((h s' hR).2 hl).2 e⟩⟩

/-- A loop over a list, with an invariant that names what is left to do. -/
theorem Beside.forM (hrefl : ∀ a, R a a) {δ : Type} {f : δ → Prog ι σ ε PUnit}
    {J : List δ → σ → Prop} {xs : List δ} {s : σ}
    (hbody : ∀ x rest s', J (x :: rest) s' → Beside R may M (fun _ s'' => J rest s'') E (f x) s')
    (hJ : ∀ rest s' s'', R s' s'' → J rest s' → J rest s'') (hs : J xs s) :
    Beside R may M (fun _ s' => J [] s') E (xs.forM f) s := by
  induction xs generalizing s with
  | nil => exact fun s' hR => hJ [] s s' hR hs
  | cons x xs ih => exact Safe.bind hrefl (hbody x xs s hs) fun _ s' hs' => ih hs'

/-- A fold over a list, with an invariant that names what is left to do. -/
theorem Beside.foldlM (hrefl : ∀ a, R a a) {δ : Type} {f : β → δ → Prog ι σ ε β}
    {J : List δ → β → σ → Prop} {xs : List δ} {b : β} {s : σ}
    (hbody : ∀ x rest b s', J (x :: rest) b s' →
      Beside R may M (fun b' s'' => J rest b' s'') E (f b x) s')
    (hJ : ∀ rest b s' s'', R s' s'' → J rest b s' → J rest b s'') (hs : J xs b s) :
    Beside R may M (fun b' s' => J [] b' s') E (xs.foldlM f b) s := by
  induction xs generalizing b s with
  | nil => exact fun s' hR => hJ [] b s s' hR hs
  | cons x xs ih =>
      rw [List.foldlM_cons]
      exact Safe.bind hrefl (hbody x xs b s hs) fun b' s' hs' => ih hs'

end Beside

/-! ## The judgment for a call left alone -/

/-- `Safe` with no interference and a guarantee on single steps. -/
def Does (may : ι → Prop) (M : ι → σ → σ → Prop) (Q : α → σ → Prop) (E : ε → σ → Prop)
    (p : Prog ι σ ε α) (s : σ) : Prop :=
  Beside (fun a b => a = b) may M Q E p s

section Alone

variable {may : ι → Prop} {M : ι → σ → σ → Prop} {Q : α → σ → Prop} {E : ε → σ → Prop}

theorem Does.beside {p : Prog ι σ ε α} {s : σ} (h : Does may M Q E p s) :
    Beside (fun a b => a = b) may M Q E p s := h

@[simp] theorem does_ret {a : α} {s : σ} : Does may M Q E (ret a) s ↔ Q a s := by
  simp [Does, Safe]

@[simp] theorem does_raise {e : ε} {s : σ} : Does may M Q E (raise e) s ↔ E e s := by
  simp [Does, Safe]

theorem does_step {l : ι} {u : σ → σ} {n : σ → Prog ι σ ε α} {f : ε → Prog ι σ ε α} {s : σ} :
    Does may M Q E (step l u n f) s ↔
      (M l s (u s) ∧ Does may M Q E (n s) (u s)) ∧
      (may l → ∀ e, M l s s ∧ Does may M Q E (f e) s) := by
  simp [Does, Safe]

/-- Sequencing. -/
theorem does_bind {Q : β → σ → Prop} {p : Prog ι σ ε α} {k : α → Prog ι σ ε β} {s : σ} :
    Does may M Q E (p >>= k) s ↔ Does may M (fun a s' => Does may M Q E (k a) s') E p s := by
  induction p generalizing s with
  | ret a => simp
  | raise e => simp
  | step l u n f ihn ihf => simp only [step_bind, does_step, ihn, ihf]

/-- Exception handling. -/
theorem does_tryCatch {p : Prog ι σ ε α} {h : ε → Prog ι σ ε α} {s : σ} :
    Does may M Q E (p.tryCatch h) s ↔ Does may M Q (fun e s' => Does may M Q E (h e) s') p s := by
  induction p generalizing s with
  | ret a => simp [Prog.tryCatch]
  | raise e => simp [Prog.tryCatch]
  | step l u n f ihn ihf => simp only [Prog.tryCatch, does_step, ihn, ihf]

/-- One transaction. -/
theorem does_atomic {l : ι} {t : σ → Except ε (α × σ)} {s : σ} :
    Does may M Q E (atomic l t) s ↔
      (match t s with
        | .ok r => M l s r.2 ∧ Q r.1 r.2
        | .error e => M l s s ∧ E e s) ∧
      (may l → ∀ e, M l s s ∧ E e s) := by
  rw [atomic, does_step]
  cases t s <;> simp

theorem does_query {l : ι} {g : σ → α} {s : σ} :
    Does may M Q E (query l g) s ↔
      (M l s s ∧ Q (g s) s) ∧ (may l → ∀ e, M l s s ∧ E e s) := by
  simp [query, does_step]

theorem does_write {Q : Unit → σ → Prop} {l : ι} {u : σ → σ} {s : σ} :
    Does may M Q E (write l u) s ↔
      (M l s (u s) ∧ Q () (u s)) ∧ (may l → ∀ e, M l s s ∧ E e s) := by
  simp [write, does_step]

theorem does_external {Q : Unit → σ → Prop} {l : ι} {s : σ} :
    Does may M Q E (external l) s ↔
      (M l s s ∧ Q () s) ∧ (may l → ∀ e, M l s s ∧ E e s) :=
  does_query

/-- Weaken the step relation and the postconditions. -/
theorem Does.imp {M' : ι → σ → σ → Prop} {Q' : α → σ → Prop} {E' : ε → σ → Prop}
    {p : Prog ι σ ε α} {s : σ} (h : Does may M Q E p s)
    (hM : ∀ l s s', M l s s' → M' l s s') (hQ : ∀ a s, Q a s → Q' a s)
    (hE : ∀ e s, E e s → E' e s) : Does may M' Q' E' p s :=
  Safe.imp h (fun l s s' _ => hM l s s') hQ hE

/-- Sequencing, with the assertion in between named. -/
theorem Does.bind {P : α → σ → Prop} {Q : β → σ → Prop} {p : Prog ι σ ε α}
    {k : α → Prog ι σ ε β} {s : σ} (hp : Does may M P E p s)
    (hk : ∀ a s', P a s' → Does may M Q E (k a) s') : Does may M Q E (p >>= k) s :=
  does_bind.mpr (hp.imp (fun _ _ _ h => h) hk fun _ _ h => h)

/-- Exception handling, with the assertion at the handler named. -/
theorem Does.tryCatch {X : ε → σ → Prop} {p : Prog ι σ ε α} {h : ε → Prog ι σ ε α} {s : σ}
    (hp : Does may M Q X p s) (hh : ∀ e s', X e s' → Does may M Q E (h e) s') :
    Does may M Q E (p.tryCatch h) s :=
  does_tryCatch.mpr (hp.imp (fun _ _ _ h => h) (fun _ _ h => h) hh)

/-- Weaken the postconditions. -/
theorem Does.post {Q' : α → σ → Prop} {E' : ε → σ → Prop} {p : Prog ι σ ε α} {s : σ}
    (h : Does may M Q E p s) (hQ : ∀ a s, Q a s → Q' a s) (hE : ∀ e s, E e s → E' e s) :
    Does may M Q' E' p s :=
  h.imp (fun _ _ _ h => h) hQ hE

/-- A loop over a list, with an invariant that names what is left to do. -/
theorem Does.forM {δ : Type} {f : δ → Prog ι σ ε PUnit} {J : List δ → σ → Prop} {xs : List δ}
    {s : σ} (hbody : ∀ x rest s', J (x :: rest) s' →
      Does may M (fun _ s'' => J rest s'') E (f x) s') (hs : J xs s) :
    Does may M (fun _ s' => J [] s') E (xs.forM f) s :=
  Beside.forM (fun _ => rfl) hbody (fun _ _ _ h hJ => h ▸ hJ) hs

/-- A fold over a list, with an invariant that names what is left to do. -/
theorem Does.foldlM {δ : Type} {f : β → δ → Prog ι σ ε β} {J : List δ → β → σ → Prop}
    {xs : List δ} {b : β} {s : σ} (hbody : ∀ x rest b s', J (x :: rest) b s' →
      Does may M (fun b' s'' => J rest b' s'') E (f b x) s') (hs : J xs b s) :
    Does may M (fun b' s' => J [] b' s') E (xs.foldlM f b) s :=
  Beside.foldlM (fun _ => rfl) hbody (fun _ _ _ _ h hJ => h ▸ hJ) hs

/-- Fewer failures, the same judgment. -/
theorem Does.restrict {may' : ι → Prop} {p : Prog ι σ ε α} {s : σ} (h : Does may M Q E p s)
    (hmay : ∀ l, may' l → may l) : Does may' M Q E p s := by
  induction p generalizing s with
  | ret a => exact does_ret.mpr (does_ret.mp h)
  | raise e => exact does_raise.mpr (does_raise.mp h)
  | step l u n f ihn ihf =>
      obtain ⟨⟨hm, hn⟩, hf⟩ := does_step.mp h
      exact does_step.mpr ⟨⟨hm, ihn s hn⟩, fun hl e =>
        ⟨(hf (hmay l hl) e).1, ihf e (hf (hmay l hl) e).2⟩⟩

/-- Two judgments of one program hold at once. -/
theorem Does.and {M' : ι → σ → σ → Prop} {Q' : α → σ → Prop} {E' : ε → σ → Prop}
    {p : Prog ι σ ε α} {s : σ} (h : Does may M Q E p s) (h' : Does may M' Q' E' p s) :
    Does may (fun l a b => M l a b ∧ M' l a b) (fun a t => Q a t ∧ Q' a t)
      (fun e t => E e t ∧ E' e t) p s := by
  induction p generalizing s with
  | ret a => exact does_ret.mpr ⟨does_ret.mp h, does_ret.mp h'⟩
  | raise e => exact does_raise.mpr ⟨does_raise.mp h, does_raise.mp h'⟩
  | step l u n f ihn ihf =>
      obtain ⟨⟨hm, hn⟩, hf⟩ := does_step.mp h
      obtain ⟨⟨hm', hn'⟩, hf'⟩ := does_step.mp h'
      exact does_step.mpr ⟨⟨⟨hm, hm'⟩, ihn s hn hn'⟩,
        fun hl e => ⟨⟨(hf hl e).1, (hf' hl e).1⟩, ihf e (hf hl e).2 (hf' hl e).2⟩⟩

/-- An invariant of the allowed steps holds wherever the program ends. -/
theorem Does.inv {p : Prog ι σ ε α} {s : σ} {I : σ → Prop} (h : Does may M Q E p s)
    (hI : ∀ l a b, M l a b → I a → I b) (hs : I s) :
    Does may (fun l a b => M l a b ∧ I a) (fun a t => Q a t ∧ I t) (fun e t => E e t ∧ I t) p s :=
  Beside.inv h (fun _ _ hab ha => hab ▸ ha) hI hs

/-! ### What a judgment says about runs -/

/-- What is still to do stays within the judgment. -/
theorem Does.runs {p p' : Prog ι σ ε α} {s s' : σ} {tr : List ι} (h : Does may M Q E p s)
    (hr : Runs may p s tr p' s') : Does may M Q E p' s' := by
  induction hr with
  | refl p s => exact h
  | ok _ ih => exact ih (does_step.mp h).1.2
  | fault e hl _ ih => exact ih ((does_step.mp h).2 hl e).2

/-- A run is a chain of the steps its judgment allows. -/
theorem Does.chain {p p' : Prog ι σ ε α} {s s' : σ} {tr : List ι} {N : σ → σ → Prop}
    (h : Does may M Q E p s) (hr : Runs may p s tr p' s') (hN : ∀ l s s', M l s s' → N s s') :
    Relation.ReflTransGen N s s' := by
  induction hr with
  | refl p s => exact .refl
  | ok _ ih =>
      obtain ⟨⟨hm, hn⟩, -⟩ := does_step.mp h
      exact .head (hN _ _ _ hm) (ih hn)
  | fault e hl _ ih => exact ih ((does_step.mp h).2 hl e).2

/-- Every label of a run is one its judgment allows. -/
theorem Does.labels {p p' : Prog ι σ ε α} {s s' : σ} {tr : List ι} {P : ι → Prop}
    (h : Does may M Q E p s) (hr : Runs may p s tr p' s') (hP : ∀ l s s', M l s s' → P l) :
    ∀ l ∈ tr, P l := by
  induction hr with
  | refl p s => simp
  | ok _ ih =>
      obtain ⟨⟨hm, hn⟩, -⟩ := does_step.mp h
      exact List.forall_mem_cons.mpr ⟨hP _ _ _ hm, ih hn⟩
  | fault e hl _ ih =>
      obtain ⟨hm, hf⟩ := (does_step.mp h).2 hl e
      exact List.forall_mem_cons.mpr ⟨hP _ _ _ hm, ih hf⟩

/-- A call that has returned satisfies the postcondition. -/
theorem Does.returned {p : Prog ι σ ε α} {s s' : σ} {tr : List ι} {a : α}
    (h : Does may M Q E p s) (hr : Runs may p s tr (ret a) s') : Q a s' :=
  does_ret.mp (h.runs hr)

/-- A call that has raised satisfies the exceptional postcondition. -/
theorem Does.raised {p : Prog ι σ ε α} {s s' : σ} {tr : List ι} {e : ε}
    (h : Does may M Q E p s) (hr : Runs may p s tr (raise e) s') : E e s' :=
  does_raise.mp (h.runs hr)

/-! ### Runs without failures -/

/-- Left alone and without failures, `p` ends with `Q` (returned) or `E` (raised). -/
abbrev Ends (Q : α → σ → Prop) (E : ε → σ → Prop) (p : Prog ι σ ε α) (s : σ) : Prop :=
  Does (fun _ => False) (fun _ _ _ => True) Q E p s

/-- What both ends promise holds of the store the run leaves. -/
theorem Ends.run {p : Prog ι σ ε α} {s : σ} (h : Ends Q E p s) {I : σ → Prop}
    (hQ : ∀ a s', Q a s' → I s') (hE : ∀ e s', E e s' → I s') : I (p.run s).2 := by
  obtain ⟨tr, hr⟩ := runs_run (fun _ => False) p s
  cases hres : (p.run s).1 with
  | ok a =>
      rw [hres] at hr
      exact hQ a _ (h.returned hr)
  | error e =>
      rw [hres] at hr
      exact hE e _ (h.raised hr)

/-- The judgment without failures says where the run ends. -/
theorem ends_iff_run {p : Prog ι σ ε α} {s : σ} :
    Ends Q E p s ↔ match p.run s with
      | (.ok a, s') => Q a s'
      | (.error e, s') => E e s' := by
  induction p generalizing s with
  | ret a => exact does_ret
  | raise e => exact does_raise
  | step l u n f ihn _ =>
      rw [Ends, does_step]
      simp only [true_and, false_implies, and_true]
      exact ihn s

theorem ends_atomic {l : ι} {t : σ → Except ε (α × σ)} {s : σ} :
    Ends Q E (atomic l t) s ↔
      match t s with
      | .ok r => Q r.1 r.2
      | .error e => E e s := by
  rw [Ends, does_atomic]
  cases t s <;> simp

theorem ends_query {l : ι} {g : σ → α} {s : σ} : Ends Q E (query l g) s ↔ Q (g s) s := by
  rw [Ends, does_query]
  simp

end Alone

/-! ## Runs under a plan of failures -/

/-- The call alone, every step that the plan names raising what it says. -/
def runUnder (plan : ι → Option ε) : Prog ι σ ε α → σ → Except ε α × σ
  | ret a, s => (.ok a, s)
  | raise e, s => (.error e, s)
  | step l u n f, s =>
      match plan l with
      | none => runUnder plan (n s) (u s)
      | some e => runUnder plan (f e) s

/-- The labels of that run. -/
def labelsUnder (plan : ι → Option ε) : Prog ι σ ε α → σ → List ι
  | ret _, _ => []
  | raise _, _ => []
  | step l u n f, s => l ::
      match plan l with
      | none => labelsUnder plan (n s) (u s)
      | some e => labelsUnder plan (f e) s

/-- Left alone under the plan, `p` ends with `Q` (returned) or `E` (raised). -/
def Under (plan : ι → Option ε) (Q : α → σ → Prop) (E : ε → σ → Prop) (p : Prog ι σ ε α)
    (s : σ) : Prop :=
  match p.runUnder plan s with
  | (.ok a, s') => Q a s'
  | (.error e, s') => E e s'

section Under

variable {plan : ι → Option ε} {Q : α → σ → Prop} {E : ε → σ → Prop}

/-- A run under a plan is one of the runs. -/
theorem runs_labelsUnder (plan : ι → Option ε) (p : Prog ι σ ε α) (s : σ) :
    Runs (fun l => plan l ≠ none) p s (p.labelsUnder plan s) (result (p.runUnder plan s).1)
      (p.runUnder plan s).2 := by
  induction p generalizing s with
  | ret a => exact .refl _ _
  | raise e => exact .refl _ _
  | step l u n f ihn ihf =>
      rw [labelsUnder, runUnder]
      cases hl : plan l with
      | none => exact .ok (ihn s (u s))
      | some e => exact .fault e (by simp [hl]) (ihf e s)

theorem runUnder_bind {p : Prog ι σ ε α} {k : α → Prog ι σ ε β} {s : σ} :
    (p >>= k).runUnder plan s = match p.runUnder plan s with
      | (.ok a, s') => (k a).runUnder plan s'
      | (.error e, s') => (.error e, s') := by
  induction p generalizing s with
  | ret a => rfl
  | raise e => rfl
  | step l u n f ihn ihf =>
      rw [step_bind, runUnder, runUnder]
      cases plan l with
      | none => exact ihn s
      | some e => exact ihf e

/-- The labels of a sequence are those of its parts. -/
theorem labelsUnder_bind {p : Prog ι σ ε α} {k : α → Prog ι σ ε β} {s : σ} :
    (p >>= k).labelsUnder plan s = p.labelsUnder plan s ++ match p.runUnder plan s with
      | (.ok a, s') => (k a).labelsUnder plan s'
      | (.error _, _) => [] := by
  induction p generalizing s with
  | ret a => rfl
  | raise e => rfl
  | step l u n f ihn ihf =>
      rw [step_bind, labelsUnder, labelsUnder, runUnder, List.cons_append]
      cases plan l with
      | none => exact congrArg _ (ihn s)
      | some e => exact congrArg _ (ihf e)

@[simp] theorem under_ret {a : α} {s : σ} : Under plan Q E (ret a) s ↔ Q a s := Iff.rfl

@[simp] theorem under_raise {e : ε} {s : σ} : Under plan Q E (raise e) s ↔ E e s := Iff.rfl

theorem under_step {l : ι} {u : σ → σ} {n : σ → Prog ι σ ε α} {f : ε → Prog ι σ ε α} {s : σ} :
    Under plan Q E (step l u n f) s ↔ match plan l with
      | none => Under plan Q E (n s) (u s)
      | some e => Under plan Q E (f e) s := by
  unfold Under
  rw [runUnder]
  cases plan l <;> exact Iff.rfl

/-- Sequencing. -/
theorem under_bind {Q : β → σ → Prop} {p : Prog ι σ ε α} {k : α → Prog ι σ ε β} {s : σ} :
    Under plan Q E (p >>= k) s ↔ Under plan (fun a s' => Under plan Q E (k a) s') E p s := by
  unfold Under
  rw [runUnder_bind]
  rcases p.runUnder plan s with ⟨_ | _, _⟩ <;> exact Iff.rfl

/-- Exception handling. -/
theorem under_tryCatch {p : Prog ι σ ε α} {h : ε → Prog ι σ ε α} {s : σ} :
    Under plan Q E (p.tryCatch h) s ↔
      Under plan Q (fun e s' => Under plan Q E (h e) s') p s := by
  induction p generalizing s with
  | ret a => exact Iff.rfl
  | raise e => exact Iff.rfl
  | step l u n f ihn ihf =>
      rw [Prog.tryCatch, under_step, under_step]
      cases plan l with
      | none => exact ihn s
      | some e => exact ihf e

/-- `finally` runs either way, and what it raises takes the place of the result. -/
theorem under_tryFinally {p : Prog ι σ ε α} {f : Bool → Prog ι σ ε Unit} {s : σ} :
    Under plan Q E (p.tryFinally f) s ↔
      Under plan (fun a s' => Under plan (fun _ => Q a) E (f true) s')
        (fun e s' => Under plan (fun _ => E e) E (f false) s') p s := by
  have hreturn : ∀ a s', Under plan Q E ((f true).bind fun _ => ret a) s' ↔
      Under plan (fun _ => Q a) E (f true) s' := fun _ _ => under_bind
  have hraise : ∀ {Q' : α → σ → Prop} e s', Under plan Q' E ((f false).bind fun _ => raise e) s' ↔
      Under plan (fun _ => E e) E (f false) s' := fun _ _ => under_bind
  refine under_bind.trans (under_tryCatch.trans ?_)
  simp only [hreturn, hraise]

/-- One query, which the plan may name. -/
theorem under_query {l : ι} {g : σ → α} {s : σ} :
    Under plan Q E (query l g) s ↔ (plan l).elim (Q (g s) s) (E · s) := by
  rw [query, under_step]
  cases plan l <;> exact Iff.rfl

/-- One outside call. -/
theorem under_external {Q : Unit → σ → Prop} {l : ι} {s : σ} :
    Under plan Q E (external l) s ↔ (plan l).elim (Q () s) (E · s) := under_query

/-- One write. -/
theorem under_write {Q : Unit → σ → Prop} {l : ι} {u : σ → σ} {s : σ} :
    Under plan Q E (write l u) s ↔ (plan l).elim (Q () (u s)) (E · s) := by
  rw [write, under_step]
  cases plan l <;> exact Iff.rfl

/-- One transaction. -/
theorem under_atomic {l : ι} {t : σ → Except ε (α × σ)} {s : σ} :
    Under plan Q E (atomic l t) s ↔ (plan l).elim
      (match t s with
        | .ok r => Q r.1 r.2
        | .error e => E e s) (E · s) := by
  rw [atomic, under_step]
  cases plan l <;> cases t s <;> exact Iff.rfl

/-- Weaken the postconditions. -/
theorem Under.imp {Q' : α → σ → Prop} {E' : ε → σ → Prop} {p : Prog ι σ ε α} {s : σ}
    (h : Under plan Q E p s) (hQ : ∀ a s, Q a s → Q' a s) (hE : ∀ e s, E e s → E' e s) :
    Under plan Q' E' p s := by
  unfold Under at h ⊢
  rcases hrun : p.runUnder plan s with ⟨e | a, s'⟩
  · rw [hrun] at h
    exact hE e s' h
  · rw [hrun] at h
    exact hQ a s' h

/-- What holds whichever steps fail holds under a plan. -/
theorem Does.under {M : ι → σ → σ → Prop} {p : Prog ι σ ε α} {s : σ}
    (h : Does (fun _ => True) M Q E p s) : Under plan Q E p s := by
  have hrun : Runs (fun _ => True) p s _ _ _ :=
    Runs.mono (fun _ _ => trivial) (runs_labelsUnder plan p s)
  unfold Under
  rcases hres : p.runUnder plan s with ⟨e | a, s'⟩
  · rw [hres] at hrun
    exact h.raised hrun
  · rw [hres] at hrun
    exact h.returned hrun

theorem Under.and {Q' : α → σ → Prop} {E' : ε → σ → Prop} {p : Prog ι σ ε α} {s : σ}
    (h : Under plan Q E p s) (h' : Under plan Q' E' p s) :
    Under plan (fun a s => Q a s ∧ Q' a s) (fun e s => E e s ∧ E' e s) p s := by
  unfold Under at h h' ⊢
  rcases hrun : p.runUnder plan s with ⟨e | a, s'⟩ <;> rw [hrun] at h h' <;> exact ⟨h, h'⟩

/-- A loop over a list, with an invariant that names what is left to do. -/
theorem Under.forM {δ : Type} {f : δ → Prog ι σ ε PUnit} {J : List δ → σ → Prop} {xs : List δ}
    {s : σ} (hbody : ∀ x rest s', J (x :: rest) s' → Under plan (fun _ s'' => J rest s'') E (f x) s')
    (hs : J xs s) : Under plan (fun _ s' => J [] s') E (xs.forM f) s := by
  induction xs generalizing s with
  | nil => exact hs
  | cons x xs ih =>
      show Under plan _ E (f x >>= fun _ => xs.forM f) s
      rw [under_bind]
      exact (hbody x xs s hs).imp (fun _ _ hs' => ih hs') fun _ _ h => h

/-- A fold over a list, with an invariant that names what is left to do. -/
theorem Under.foldlM {δ : Type} {f : β → δ → Prog ι σ ε β} {J : List δ → β → σ → Prop}
    {xs : List δ} {b : β} {s : σ} (hbody : ∀ x rest b s', J (x :: rest) b s' →
      Under plan (fun b' s'' => J rest b' s'') E (f b x) s')
    (hs : J xs b s) : Under plan (fun b' s' => J [] b' s') E (xs.foldlM f b) s := by
  induction xs generalizing b s with
  | nil => exact hs
  | cons x xs ih =>
      rw [List.foldlM_cons, under_bind]
      exact (hbody x xs b s hs).imp (fun _ _ hs' => ih hs') fun _ _ h => h

/-- A handler that returns a value lets no error out. -/
theorem Under.caught {E' : ε → σ → Prop} {a : α} {p : Prog ι σ ε α} {s : σ}
    (h : Under plan Q E (p.tryCatch fun _ => ret a) s) :
    Under plan Q E' (p.tryCatch fun _ => ret a) s := by
  rw [under_tryCatch] at h ⊢
  exact h

/-- What both ends promise holds of the store the run leaves. -/
theorem Under.store {I : σ → Prop} {p : Prog ι σ ε α} {s : σ}
    (h : Under plan (fun _ s' => I s') (fun _ s' => I s') p s) : I (p.runUnder plan s).2 := by
  unfold Under at h
  rcases hrun : p.runUnder plan s with ⟨_ | _, s'⟩ <;> rw [hrun] at h <;> exact h

/-- A run that returned has met the postcondition. -/
theorem Under.returned {p : Prog ι σ ε α} {s s' : σ} {a : α} (h : Under plan Q E p s)
    (hrun : p.runUnder plan s = (.ok a, s')) : Q a s' := by
  unfold Under at h
  rw [hrun] at h
  exact h

end Under

/-! ## Steps on any store

What a program can do at all, whatever it reads: the judgment for code that keeps nothing
in mind from one step to the next. -/

/-- Every step of `p`, on every path and every store, satisfies `M`, failing or not. -/
def Always (M : ι → σ → σ → Prop) : Prog ι σ ε α → Prop
  | step l u n f => (∀ s, M l s (u s) ∧ M l s s) ∧ (∀ s, Always M (n s)) ∧ ∀ e, Always M (f e)
  | _ => True

/-- Every step of `p`, on every path, has a label in `P`. -/
abbrev Labels (P : ι → Prop) (p : Prog ι σ ε α) : Prop := Always (fun l _ _ => P l) p

section Always

variable {M : ι → σ → σ → Prop}

@[simp] theorem always_ret {a : α} : Always M (ret a : Prog ι σ ε α) := trivial
@[simp] theorem always_raise {e : ε} : Always M (raise e : Prog ι σ ε α) := trivial

theorem always_step {l : ι} {u : σ → σ} {n : σ → Prog ι σ ε α} {f : ε → Prog ι σ ε α} :
    Always M (step l u n f) ↔
      (∀ s, M l s (u s) ∧ M l s s) ∧ (∀ s, Always M (n s)) ∧ ∀ e, Always M (f e) := Iff.rfl

theorem Always.atomic {l : ι} {t : σ → Except ε (α × σ)}
    (h : ∀ s, M l s s ∧ ∀ a s', t s = .ok (a, s') → M l s s') : Always M (atomic l t) := by
  refine ⟨fun s => ⟨?_, (h s).1⟩, fun s => ?_, fun e => trivial⟩
  · dsimp only
    cases ht : t s with
    | ok r => exact (h s).2 r.1 r.2 ht
    | error e => exact (h s).1
  · dsimp only
    cases t s <;> exact trivial

theorem Always.query {l : ι} {g : σ → α} (h : ∀ s, M l s s) :
    Always M (query l g : Prog ι σ ε α) :=
  ⟨fun s => ⟨h s, h s⟩, fun _ => trivial, fun _ => trivial⟩

theorem Always.write {l : ι} {u : σ → σ} (h : ∀ s, M l s s ∧ M l s (u s)) :
    Always M (write l u : Prog ι σ ε Unit) :=
  ⟨fun s => ⟨(h s).2, (h s).1⟩, fun _ => trivial, fun _ => trivial⟩

theorem Always.external {l : ι} (h : ∀ s, M l s s) :
    Always M (external l : Prog ι σ ε Unit) :=
  .query h

theorem Always.bind {p : Prog ι σ ε α} {k : α → Prog ι σ ε β} (hp : Always M p)
    (hk : ∀ a, Always M (k a)) : Always M (p >>= k) := by
  induction p with
  | ret a => exact hk a
  | raise e => exact trivial
  | step l u n f ihn ihf => exact ⟨hp.1, fun s => ihn s (hp.2.1 s), fun e => ihf e (hp.2.2 e)⟩

theorem Always.tryCatch {p : Prog ι σ ε α} {h : ε → Prog ι σ ε α} (hp : Always M p)
    (hh : ∀ e, Always M (h e)) : Always M (p.tryCatch h) := by
  induction p with
  | ret a => exact trivial
  | raise e => exact hh e
  | step l u n f ihn ihf => exact ⟨hp.1, fun s => ihn s (hp.2.1 s), fun e => ihf e (hp.2.2 e)⟩

theorem Always.tryFinally {p : Prog ι σ ε α} {f : Bool → Prog ι σ ε Unit} (hp : Always M p)
    (hf : ∀ b, Always M (f b)) : Always M (p.tryFinally f) :=
  (hp.tryCatch fun _ => (hf false).bind fun _ => always_raise).bind fun _ =>
    (hf true).bind fun _ => always_ret

theorem Always.forM {δ : Type} {f : δ → Prog ι σ ε PUnit} {xs : List δ}
    (h : ∀ x ∈ xs, Always M (f x)) : Always M (xs.forM f) := by
  induction xs with
  | nil => exact trivial
  | cons x xs ih =>
      exact (h x List.mem_cons_self).bind fun _ => ih fun y hy => h y (List.mem_cons_of_mem x hy)

theorem Always.foldlM {δ : Type} {f : β → δ → Prog ι σ ε β} {xs : List δ} {b : β}
    (h : ∀ b, ∀ x ∈ xs, Always M (f b x)) : Always M (xs.foldlM f b) := by
  induction xs generalizing b with
  | nil => exact trivial
  | cons x xs ih =>
      rw [List.foldlM_cons]
      exact (h b x List.mem_cons_self).bind fun b' =>
        ih fun b'' y hy => h b'' y (List.mem_cons_of_mem x hy)

theorem Always.mono {M' : ι → σ → σ → Prop} {p : Prog ι σ ε α} (h : Always M p)
    (hM : ∀ l s s', M l s s' → M' l s s') : Always M' p := by
  induction p with
  | ret a => exact trivial
  | raise e => exact trivial
  | step l u n f ihn ihf =>
      exact ⟨fun s => ⟨hM _ _ _ (h.1 s).1, hM _ _ _ (h.1 s).2⟩, fun s => ihn s (h.2.1 s),
        fun e => ihf e (h.2.2 e)⟩

/-- What holds on any store holds under any interference. -/
theorem Always.safe {R : σ → σ → Prop} {may : ι → Prop} {p : Prog ι σ ε α} {s : σ}
    (h : Always M p) :
    Safe R may (fun l a b _ => M l a b) (fun _ _ => True) (fun _ _ => True) p s := by
  induction p generalizing s with
  | ret a => exact fun _ _ => trivial
  | raise e => exact fun _ _ => trivial
  | step l u n f ihn ihf =>
      exact fun t _ => ⟨⟨(h.1 t).1, ihn t (h.2.1 t)⟩, fun _ e => ⟨(h.1 t).2, ihf e (h.2.2 e)⟩⟩

theorem Always.does {may : ι → Prop} {p : Prog ι σ ε α} {s : σ} (h : Always M p) :
    Does may M (fun _ _ => True) (fun _ _ => True) p s := h.safe

/-! ### Labels alone -/

variable {P : ι → Prop}

theorem labels_atomic {l : ι} {t : σ → Except ε (α × σ)} (h : P l) : Labels P (atomic l t) :=
  .atomic fun _ => ⟨h, fun _ _ _ => h⟩

theorem labels_query {l : ι} {g : σ → α} (h : P l) : Labels P (query l g : Prog ι σ ε α) :=
  .query fun _ => h

theorem labels_write {l : ι} {u : σ → σ} (h : P l) : Labels P (write l u : Prog ι σ ε Unit) :=
  .write fun _ => ⟨h, h⟩

end Always

/-- A run of a sequence that has reached a statement its first part does not have is a run of
the first part to a result and from there. -/
theorem Runs.reached {may : ι → Prop} {p : Prog ι σ ε α} {k : α → Prog ι σ ε β}
    {q : Prog ι σ ε β} {s s' : σ} {tr : List ι} {l : ι} (h : Runs may (p >>= k) s tr q s')
    (hl : l ∈ tr) (hp : Labels (· ≠ l) p) : ∃ tr₁ a s₁ tr₂,
      Runs may p s tr₁ (ret a) s₁ ∧ Runs may (k a) s₁ tr₂ q s' ∧ l ∈ tr₂ := by
  have hno : ∀ {tr : List ι} {p' : Prog ι σ ε α} {t : σ}, Runs may p s tr p' t → l ∉ tr :=
    fun hrun hmem => by
      have hdoes : Does may _ _ _ p s := hp.does
      exact hdoes.labels hrun (fun _ _ _ h => h) l hmem rfl
  rcases h.bind_cases with ⟨p', hp'⟩ | ⟨tr₁, a, s₁, tr₂, rfl, hp', hk⟩
  · exact absurd hl (hno hp')
  · exact ⟨tr₁, a, s₁, tr₂, hp', hk, (List.mem_append.mp hl).resolve_left (hno hp')⟩

/-- A run under a plan issues the program's statements only. -/
theorem Always.labelsUnder {plan : ι → Option ε} {P : ι → Prop} {p : Prog ι σ ε α}
    (h : Labels P p) (s : σ) : ∀ l ∈ p.labelsUnder plan s, P l := by
  have hdoes : Does (fun l => plan l ≠ none) _ _ _ p s := h.does
  exact hdoes.labels (runs_labelsUnder plan p s) fun _ _ _ hl => hl

/-- A program on one part of a store leaves the rest alone. -/
theorem Always.lift {τ κ δ : Type} {get : τ → σ} {put : σ → τ → τ} {label : ι → κ} {up : ε → δ}
    {down : δ → ε} {M : κ → τ → τ → Prop} (hM : ∀ l s t, M (label l) t (put s t))
    (hrefl : ∀ l t, M (label l) t t) (p : Prog ι σ ε α) :
    Always M (p.lift get put label up down) := by
  induction p with
  | ret a => exact trivial
  | raise e => exact trivial
  | step l u n f ihn ihf =>
      exact ⟨fun t => ⟨hM l _ t, hrefl l t⟩, fun t => ihn (get t), fun e => ihf (down e)⟩

/-- What a program does on its part of the store, it does on the whole: the part is put back. -/
theorem Does.lift {τ κ δ : Type} {get : τ → σ} {put : σ → τ → τ} {label : ι → κ} {up : ε → δ}
    {down : δ → ε} {may : κ → Prop} {M : ι → σ → σ → Prop} {Q : α → σ → Prop} {E : ε → σ → Prop}
    (hget : ∀ s t, get (put s t) = s) (hput : ∀ s s' t, put s (put s' t) = put s t)
    (hsame : ∀ t, put (get t) t = t) {p : Prog ι σ ε α} {t : τ}
    (h : Does (fun l => may (label l)) M Q E p (get t)) :
    Does may (fun _ _ t' => ∃ l s s', t' = put s' t ∧ M l s s')
      (fun a t' => ∃ s', t' = put s' t ∧ Q a s') (fun _ t' => ∃ e s', t' = put s' t ∧ E e s')
      (p.lift get put label up down) t := by
  induction p generalizing t with
  | ret a => exact does_ret.mpr ⟨get t, (hsame t).symm, does_ret.mp h⟩
  | raise e => exact does_raise.mpr ⟨e, get t, (hsame t).symm, does_raise.mp h⟩
  | step l u n f ihn ihf =>
      obtain ⟨⟨hM, hn⟩, hf⟩ := does_step.mp h
      refine does_step.mpr ⟨⟨⟨l, _, _, rfl, hM⟩, ?_⟩, fun hl e =>
        ⟨⟨l, _, _, (hsame t).symm, (hf hl (down e)).1⟩, ihf _ (hf hl _).2⟩⟩
      -- the rest starts from the part that this step put back
      rw [← hget (u (get t)) t] at hn
      refine (ihn _ hn).imp ?_ ?_ ?_
      · rintro l' t₁ t₂ ⟨k, s₁, s₂, rfl, hk⟩
        exact ⟨k, s₁, s₂, hput s₂ _ t, hk⟩
      · rintro a t' ⟨s', rfl, hQ⟩
        exact ⟨s', hput s' _ t, hQ⟩
      · rintro e t' ⟨e', s', rfl, hE⟩
        exact ⟨e', s', hput s' _ t, hE⟩

/-! ### What holds all along -/

/-- Whatever fails, every state the program leaves meets `I`. -/
abbrev Within (I : σ → Prop) (p : Prog ι σ ε α) (s : σ) : Prop :=
  Does (fun _ => True) (fun _ _ s' => I s') (fun _ s' => I s') (fun _ s' => I s') p s

theorem Within.mono {I J : σ → Prop} {p : Prog ι σ ε α} {s : σ} (h : Within I p s)
    (hIJ : ∀ s', I s' → J s') : Within J p s :=
  h.imp (fun _ _ s' => hIJ s') (fun _ s' => hIJ s') fun _ s' => hIJ s'

theorem Within.bind {I : σ → Prop} {p : Prog ι σ ε α} {k : α → Prog ι σ ε β} {s : σ}
    (hp : Within I p s) (hk : ∀ a s', I s' → Within I (k a) s') : Within I (p >>= k) s :=
  Does.bind hp hk

theorem Within.tryCatch {I : σ → Prop} {p : Prog ι σ ε α} {h : ε → Prog ι σ ε α} {s : σ}
    (hp : Within I p s) (hh : ∀ e s', I s' → Within I (h e) s') : Within I (p.tryCatch h) s :=
  Does.tryCatch hp hh

theorem Within.forM {δ : Type} {I : σ → Prop} {f : δ → Prog ι σ ε PUnit} {xs : List δ} {s : σ}
    (hbody : ∀ x ∈ xs, ∀ s', I s' → Within I (f x) s') (hs : I s) : Within I (xs.forM f) s := by
  have hloop : Does (fun _ => True) (fun _ _ s' => I s') (fun _ s' => [] ⊆ xs ∧ I s')
      (fun _ s' => I s') (xs.forM f) s := by
    refine Does.forM (J := fun rest s' => rest ⊆ xs ∧ I s') ?_ ⟨fun _ h => h, hs⟩
    rintro x rest s' ⟨hsub, hs'⟩
    exact (hbody x (hsub (List.mem_cons_self ..)) s' hs').post
      (fun _ _ h => ⟨fun _ hmem => hsub (List.mem_cons_of_mem _ hmem), h⟩) fun _ _ h => h
  exact hloop.post (fun _ _ h => h.2) fun _ _ h => h

/-- Steps that keep the property leave only states that meet it. -/
theorem Always.within {R : σ → σ → Prop} {I : σ → Prop} {p : Prog ι σ ε α} {s : σ}
    (h : Always (fun _ a b => R a b) p) (hI : ∀ a b, R a b → I a → I b) (hs : I s) :
    Within I p s := by
  have hdoes : Does (fun _ => True) _ (fun _ _ => True) (fun _ _ => True) p s := h.does
  have hinv := hdoes.inv (fun _ a b hab ha => hI a b hab ha) hs
  exact hinv.imp (fun _ a b hab => hI a b hab.1 hab.2) (fun _ _ h => h.2) fun _ _ h => h.2

/-- A program on one part of a store keeps to what the part, put back, meets. -/
theorem Within.lift {τ κ δ : Type} {get : τ → σ} {put : σ → τ → τ} {label : ι → κ} {up : ε → δ}
    {down : δ → ε} {I : σ → Prop} {J : τ → Prop} (hget : ∀ s t, get (put s t) = s)
    (hput : ∀ s s' t, put s (put s' t) = put s t) (hsame : ∀ t, put (get t) t = t)
    {p : Prog ι σ ε α} {t : τ} (h : Within I p (get t)) (hJ : ∀ s, I s → J (put s t)) :
    Within J (p.lift get put label up down) t := by
  refine (Does.lift hget hput hsame h).imp ?_ ?_ ?_
  · rintro l t₁ t₂ ⟨k, s₁, s₂, rfl, hI⟩
    exact hJ s₂ hI
  · rintro a t' ⟨s', rfl, hI⟩
    exact hJ s' hI
  · rintro e t' ⟨e', s', rfl, hI⟩
    exact hJ s' hI

/-- Steps that keep the property keep it under a plan. -/
theorem Always.under {plan : ι → Option ε} {R : σ → σ → Prop} {I : σ → Prop} {p : Prog ι σ ε α}
    {s : σ} (h : Always (fun _ a b => R a b) p) (hI : ∀ a b, R a b → I a → I b) (hs : I s) :
    Under plan (fun _ s' => I s') (fun _ s' => I s') p s :=
  Does.under (h.within hI hs)

/-- So does every state of a run that starts in such a state. -/
theorem Within.reached {I : σ → Prop} {p p' : Prog ι σ ε α} {s s' : σ} {tr : List ι}
    (h : Within I p s) (hr : Runs (fun _ => True) p s tr p' s') (hs : I s) : I s' := by
  have hchain := h.chain hr (N := fun _ b => I b) fun _ _ _ hb => hb
  clear hr
  induction hchain with
  | refl => exact hs
  | tail _ hstep _ => exact hstep

/-- What every step keeps, a run keeps. -/
theorem Always.keeps {may : ι → Prop} {p p' : Prog ι σ ε α} {s s' : σ} {tr : List ι}
    {M : ι → σ → σ → Prop} {R : σ → σ → Prop} (h : Always M p) (hr : Runs may p s tr p' s')
    (hM : ∀ l a b, M l a b → R a b) (hrefl : ∀ a, R a a)
    (htrans : ∀ {a b c}, R a b → R b c → R a c) : R s s' := by
  have hdoes : Does may _ _ _ p s := h.does
  have hchain := hdoes.chain hr (N := R) hM
  clear hr
  induction hchain with
  | refl => exact hrefl _
  | tail _ hstep ih => exact htrans ih hstep

/-- A cut of a longer past is at its last entry or a cut of the shorter one. -/
theorem cut_snoc {past pre post : List β} {e f : β} (h : past ++ [e] = pre ++ f :: post) :
    (pre = past ∧ f = e) ∨ ∃ post', past = pre ++ f :: post' := by
  rcases List.eq_nil_or_concat post with rfl | ⟨post', g, rfl⟩
  · obtain ⟨rfl, hfe⟩ := List.append_inj' h rfl
    exact .inl ⟨rfl, (List.cons.inj hfe).1.symm⟩
  · rw [List.concat_eq_append, ← List.cons_append, ← List.append_assoc] at h
    exact .inr ⟨post', (List.append_inj' h rfl).1⟩

/-! From here on programs are reasoned about through the rules alone: unfolding a judgment
would run the program on open terms. -/

attribute [irreducible] Safe Does Always

end Prog
