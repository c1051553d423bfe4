import StapelGdpr.Lib.Pool

/-!
# Programs that go through phases

`Prog.Safe` judges every step of a program by one guarantee. Where what a thread may do
depends on how far it has come (it has taken a lock, it has stored an object nobody names
yet), that progress is a **phase**, and a protocol `T` says which steps lead from which phase
to which.

* `Prog.Phased` — the program follows the protocol from a phase on, in a store that others
  move by `R` and that satisfies `I` whenever the program looks;
* `Pool.Runs.phased` — when an invariant of *all* the phases, of the store and of what has
  happened so far is kept by every protocol step, every run keeps it.

Who holds what is then a statement about phases and needs no trace of it in the store.
-/

namespace Prog

variable {ι σ ε α β μ : Type}

/-- `p`, in phase `m` and about to go on from `s` while others move the store by `R`, follows
the protocol `T` (phase, label, success, store before, store after, next phase) and ends with
`Q` (returned) or `E` (raised). In phase `m` it may count on `I m` whenever it looks. -/
def Phased (I : μ → σ → Prop) (R : σ → σ → Prop) (may : ι → Prop)
    (T : μ → ι → Bool → σ → σ → μ → Prop) (Q : α → μ → σ → Prop) (E : ε → μ → σ → Prop) :
    Prog ι σ ε α → μ → σ → Prop
  | ret a, m, s => ∀ s', R s s' → I m s' → Q a m s'
  | raise e, m, s => ∀ s', R s s' → I m s' → E e m s'
  | step l u n f, m, s => ∀ s', R s s' → I m s' →
      (∃ m', T m l true s' (u s') m' ∧ Phased I R may T Q E (n s') m' (u s')) ∧
      (may l → ∀ e, ∃ m', T m l false s' s' m' ∧ Phased I R may T Q E (f e) m' s')

section Rules

variable {I : μ → σ → Prop} {R : σ → σ → Prop} {may : ι → Prop}
  {T : μ → ι → Bool → σ → σ → μ → Prop} {Q : α → μ → σ → Prop} {E : ε → μ → σ → Prop}
  {m m' : μ} {s : σ} {l : ι}

theorem phased_ret {a : α} :
    Phased I R may T Q E (ret a) m s ↔ ∀ s', R s s' → I m s' → Q a m s' := Iff.rfl

theorem phased_raise {e : ε} :
    Phased I R may T Q E (raise e) m s ↔ ∀ s', R s s' → I m s' → E e m s' := Iff.rfl

theorem phased_step {u : σ → σ} {n : σ → Prog ι σ ε α} {f : ε → Prog ι σ ε α} :
    Phased I R may T Q E (step l u n f) m s ↔ ∀ s', R s s' → I m s' →
      (∃ m', T m l true s' (u s') m' ∧ Phased I R may T Q E (n s') m' (u s')) ∧
      (may l → ∀ e, ∃ m', T m l false s' s' m' ∧ Phased I R may T Q E (f e) m' s') := Iff.rfl

theorem Phased.rely (htrans : ∀ {a b c}, R a b → R b c → R a c) {p : Prog ι σ ε α} {s' : σ}
    (h : Phased I R may T Q E p m s) (hR : R s s') : Phased I R may T Q E p m s' := by
  cases p with
  | ret a => exact fun t ht hI => h t (htrans hR ht) hI
  | raise e => exact fun t ht hI => h t (htrans hR ht) hI
  | step l u n f => exact fun t ht hI => h t (htrans hR ht) hI

/-- It is enough to judge a program in the stores in which it can go on. -/
theorem Phased.later (hrefl : ∀ a, R a a) {p : Prog ι σ ε α}
    (h : ∀ s', R s s' → I m s' → Phased I R may T Q E p m s') : Phased I R may T Q E p m s := by
  cases p with
  | ret a => exact fun t ht hI => h t ht hI t (hrefl t) hI
  | raise e => exact fun t ht hI => h t ht hI t (hrefl t) hI
  | step l u n f => exact fun t ht hI => h t ht hI t (hrefl t) hI

theorem Phased.post {Q' : α → μ → σ → Prop} {E' : ε → μ → σ → Prop} {p : Prog ι σ ε α}
    (h : Phased I R may T Q E p m s) (hQ : ∀ a m s, Q a m s → Q' a m s)
    (hE : ∀ e m s, E e m s → E' e m s) : Phased I R may T Q' E' p m s := by
  induction p generalizing m s with
  | ret a => exact fun t ht hI => hQ a m t (h t ht hI)
  | raise e => exact fun t ht hI => hE e m t (h t ht hI)
  | step l u n f ihn ihf =>
      intro t ht hI
      obtain ⟨⟨m₁, hT, hn⟩, hf⟩ := h t ht hI
      refine ⟨⟨m₁, hT, ihn t hn⟩, fun hl e => ?_⟩
      obtain ⟨m₂, hT, hf⟩ := hf hl e
      exact ⟨m₂, hT, ihf e hf⟩

/-- When a thread's own steps are among what it relies on, all that has happened is. -/
theorem Phased.keeps (htrans : ∀ {a b c}, R a b → R b c → R a c)
    (hTR : ∀ {m l ok a b m'}, T m l ok a b m' → I m a → R a b) {p : Prog ι σ ε α} {s₀ : σ}
    (h : Phased I R may T Q E p m s) (hs : R s₀ s) :
    Phased I R may T (fun a m t => R s₀ t ∧ Q a m t) (fun e m t => R s₀ t ∧ E e m t) p m s := by
  induction p generalizing m s with
  | ret a => exact fun t ht hI => ⟨htrans hs ht, h t ht hI⟩
  | raise e => exact fun t ht hI => ⟨htrans hs ht, h t ht hI⟩
  | step l u n f ihn ihf =>
      intro t ht hI
      obtain ⟨⟨m₁, hT, hn⟩, hf⟩ := h t ht hI
      have hst := htrans hs ht
      refine ⟨⟨m₁, hT, ihn t hn (htrans hst (hTR hT hI))⟩, fun hl e => ?_⟩
      obtain ⟨m₂, hT, hf⟩ := hf hl e
      exact ⟨m₂, hT, ihf e hf hst⟩

theorem Phased.bind (hrefl : ∀ a, R a a) {P : α → μ → σ → Prop} {Q : β → μ → σ → Prop}
    {p : Prog ι σ ε α} {k : α → Prog ι σ ε β} (hp : Phased I R may T P E p m s)
    (hk : ∀ a m s, P a m s → Phased I R may T Q E (k a) m s) :
    Phased I R may T Q E (p >>= k) m s := by
  induction p generalizing m s with
  | ret a => exact Phased.later hrefl fun t ht hI => hk a m t (hp t ht hI)
  | raise e => exact hp
  | step l u n f ihn ihf =>
      intro t ht hI
      obtain ⟨⟨m₁, hT, hn⟩, hf⟩ := hp t ht hI
      refine ⟨⟨m₁, hT, ihn t hn⟩, fun hl e => ?_⟩
      obtain ⟨m₂, hT, hf⟩ := hf hl e
      exact ⟨m₂, hT, ihf e hf⟩

theorem Phased.tryCatch (hrefl : ∀ a, R a a) {X : ε → μ → σ → Prop} {p : Prog ι σ ε α}
    {h : ε → Prog ι σ ε α} (hp : Phased I R may T Q X p m s)
    (hh : ∀ e m s, X e m s → Phased I R may T Q E (h e) m s) :
    Phased I R may T Q E (p.tryCatch h) m s := by
  induction p generalizing m s with
  | ret a => exact hp
  | raise e => exact Phased.later hrefl fun t ht hI => hh e m t (hp t ht hI)
  | step l u n f ihn ihf =>
      intro t ht hI
      obtain ⟨⟨m₁, hT, hn⟩, hf⟩ := hp t ht hI
      refine ⟨⟨m₁, hT, ihn t hn⟩, fun hl e => ?_⟩
      obtain ⟨m₂, hT, hf⟩ := hf hl e
      exact ⟨m₂, hT, ihf e hf⟩

/-- A query, into phase `n t` when it reads the store `t`; when it fails the thread is in
phase `d`. -/
theorem Phased.query {g : σ → α} {n : σ → μ} {d : μ}
    (hT : ∀ t, R s t → I m t → T m l true t t (n t)) (hfail : may l → ∀ t, T m l false t t d)
    (hQ : ∀ t t', R s t → I m t → R t t' → I (n t) t' → Q (g t) (n t) t')
    (hE : may l → ∀ e t t', R s t → R t t' → I d t' → E e d t') :
    Phased I R may T Q E (Prog.query l g) m s :=
  fun t ht hI => ⟨⟨n t, hT t ht hI, fun t' ht' hI' => hQ t t' ht hI ht' hI'⟩,
    fun hl e => ⟨d, hfail hl t, fun t' ht' hI' => hE hl e t t' ht ht' hI'⟩⟩

/-- A write, into phase `m'`; when it fails the thread is in phase `m''`. -/
theorem Phased.write {u : σ → σ} {Q : Unit → μ → σ → Prop} {m'' : μ}
    (hT : ∀ t, R s t → I m t → T m l true t (u t) m')
    (hfail : may l → ∀ t, R s t → I m t → T m l false t t m'')
    (hQ : ∀ t t', R s t → I m t → R (u t) t' → I m' t' → Q () m' t')
    (hE : may l → ∀ e t t', R s t → R t t' → I m'' t' → E e m'' t') :
    Phased I R may T Q E (Prog.write l u) m s :=
  fun t ht hI => ⟨⟨m', hT t ht hI, fun t' ht' hI' => hQ t t' ht hI ht' hI'⟩,
    fun hl e => ⟨m'', hfail hl t ht hI, fun t' ht' hI' => hE hl e t t' ht ht' hI'⟩⟩

/-- A transaction: what it does when it goes through, and when it throws. -/
theorem Phased.atomic {t : σ → Except ε (α × σ)}
    (hok : ∀ a b r, R s a → I m a → t a = .ok (r, b) →
      ∃ m', T m l true a b m' ∧ ∀ c, R b c → I m' c → Q r m' c)
    (hthrow : ∀ a e, R s a → I m a → t a = .error e →
      ∃ m', T m l true a a m' ∧ ∀ c, R a c → I m' c → E e m' c)
    (hfail : may l → ∀ a e, R s a → I m a →
      ∃ m', T m l false a a m' ∧ ∀ c, R a c → I m' c → E e m' c) :
    Phased I R may T Q E (Prog.atomic l t) m s := by
  intro a ha hI
  refine ⟨?_, fun hl e => hfail hl a e ha hI⟩
  dsimp only
  cases ht : t a with
  | ok r =>
      obtain ⟨m', hT, hQ⟩ := hok a r.2 r.1 ha hI ht
      exact ⟨m', hT, hQ⟩
  | error e =>
      obtain ⟨m', hT, hE⟩ := hthrow a e ha hI ht
      exact ⟨m', hT, hE⟩

end Rules

/-! ## Pools of phased threads -/

namespace Pool

variable {κ : Type} [DecidableEq κ] {I : μ → σ → Prop} {R : σ → σ → Prop} {may : κ → ι → Prop}
  {T : κ → μ → ι → Bool → σ → σ → μ → Prop} {Q : κ → α → μ → σ → Prop}
  {E : κ → ε → μ → σ → Prop} {P P' : Pool ι σ ε α κ} {phases : κ → μ} {s s' : σ}
  {tr : List (Event κ ι σ)}

/-- Every thread is in its phase of the protocol. -/
def Phased (I : μ → σ → Prop) (R : σ → σ → Prop) (may : κ → ι → Prop)
    (T : κ → μ → ι → Bool → σ → σ → μ → Prop) (Q : κ → α → μ → σ → Prop)
    (E : κ → ε → μ → σ → Prop) (P : Pool ι σ ε α κ) (phases : κ → μ) (s : σ) : Prop :=
  ∀ k, Prog.Phased I R (may k) (T k) (Q k) (E k) (P k) (phases k) s

/-- One thread moves on to its next phase and the others rely on what it did. -/
theorem Phased.moved (htrans : ∀ {a b c}, R a b → R b c → R a c) {k : κ} {p : Prog ι σ ε α}
    {m : μ} (h : Phased I R may T Q E P phases s)
    (hp : Prog.Phased I R (may k) (T k) (Q k) (E k) p m s') (hR : R s s') :
    Phased I R may T Q E (Function.update P k p) (Function.update phases k m) s' := by
  intro j
  by_cases hj : j = k
  · subst hj
    rwa [Function.update_self, Function.update_self]
  · rw [Function.update_of_ne hj, Function.update_of_ne hj]
    exact Prog.Phased.rely (R := R) htrans (h j) hR

/-- **Phases.** An invariant of all the phases, the store and the past that every protocol
step keeps, for steps that meet the condition `H` after that past, holds at the end of every
run whose steps meet it. -/
theorem Runs.phased (hrefl : ∀ a, R a a) (htrans : ∀ {a b c}, R a b → R b c → R a c)
    {J : List (Event κ ι σ) → (κ → μ) → σ → Prop} {H : List (Event κ ι σ) → Event κ ι σ → Prop}
    (hI : ∀ past phases s, J past phases s → ∀ k, I (phases k) s)
    (hJ : ∀ past phases (e : Event κ ι σ) m, J past phases e.before →
      T e.thread (phases e.thread) e.label e.ok e.before e.after m → H past e →
      J (past ++ [e]) (Function.update phases e.thread m) e.after ∧ R e.before e.after)
    {past : List (Event κ ι σ)} (h : Phased I R may T Q E P phases s) (hs : J past phases s)
    (hr : Runs may P s tr P' s') (hH : ∀ pre e post, tr = pre ++ e :: post → H (past ++ pre) e) :
    ∃ phases', Phased I R may T Q E P' phases' s' ∧ J (past ++ tr) phases' s' := by
  induction hr generalizing phases past with
  | refl P s => exact ⟨phases, h, by simpa using hs⟩
  | @ok P P' s s' tr k l u n f hk hr ih =>
      have hhead := hH [] _ tr rfl
      rw [List.append_nil] at hhead
      have hphased := h k
      rw [hk, phased_step] at hphased
      obtain ⟨⟨m, hT, hn⟩, -⟩ := hphased s (hrefl s) (hI past phases s hs k)
      obtain ⟨hs', hR⟩ := hJ past phases ⟨k, l, s, u s, true⟩ m hs hT hhead
      obtain ⟨phases', hend, hpast⟩ := ih (Phased.moved (R := R) htrans h hn hR) hs'
        fun pre e post hcut => by simpa using hH (_ :: pre) e post (by rw [hcut]; rfl)
      exact ⟨phases', hend, by simpa using hpast⟩
  | @fault P P' s s' tr k l u n f e hk hmay hr ih =>
      have hhead := hH [] _ tr rfl
      rw [List.append_nil] at hhead
      have hphased := h k
      rw [hk, phased_step] at hphased
      obtain ⟨m, hT, hf⟩ := (hphased s (hrefl s) (hI past phases s hs k)).2 hmay e
      obtain ⟨hs', hR⟩ := hJ past phases ⟨k, l, s, s, false⟩ m hs hT hhead
      obtain ⟨phases', hend, hpast⟩ := ih (Phased.moved (R := R) htrans h hf hR) hs'
        fun pre e post hcut => by simpa using hH (_ :: pre) e post (by rw [hcut]; rfl)
      exact ⟨phases', hend, by simpa using hpast⟩

omit [DecidableEq κ] in
/-- A finished thread is at its postcondition. -/
theorem Phased.finished (hrefl : ∀ a, R a a) (h : Phased I R may T Q E P phases s) {k : κ}
    (hI : I (phases k) s) (hdone : (P k).Done) :
    (∃ a, Q k a (phases k) s) ∨ ∃ e, E k e (phases k) s := by
  have hk := h k
  cases hp : P k with
  | ret a =>
      rw [hp] at hk
      exact .inl ⟨a, phased_ret.mp hk s (hrefl s) hI⟩
  | raise e =>
      rw [hp] at hk
      exact .inr ⟨e, phased_raise.mp hk s (hrefl s) hI⟩
  | step l u n f =>
      rw [hp] at hdone
      exact hdone.elim

end Pool

attribute [irreducible] Phased

end Prog
