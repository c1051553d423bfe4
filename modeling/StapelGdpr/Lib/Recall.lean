import Mathlib.Data.List.DropRight
import StapelGdpr.Lib.Pool

/-!
# What a thread has done and read

`Prog.Recalls T Q p past` is a judgment on one thread that remembers its own steps. `past` lists
the steps it has taken so far, each with the store it found and the one it left; whatever stores
the further steps find, each satisfies `T` of the steps before it, and the result satisfies `Q`
of all of them.

`Always` says what the steps of a program do. `Recalls` also says where the program has the
values from that it writes, and what it has done before, however long ago and whatever others have
written since. `Pool.Runs.recalls` reads it off the events of a run.

What a thread has read may be out of date when it writes: `Pool.since` are the events that can have
made it so, and `Pool.Runs.since` says that nothing else has.
-/

namespace Prog

variable {ι σ ε α β : Type}

/-- One step of a thread, as the thread remembers it. -/
structure Memo (ι σ : Type) where
  label : ι
  before : σ
  after : σ
  ok : Bool

/-- Every step of `p`, on every path and every store, satisfies `T` of the steps before it; what
`p` returns satisfies `Q` of all of them. -/
def Recalls (T : List (Memo ι σ) → ι → σ → σ → Prop) (Q : List (Memo ι σ) → α → Prop) :
    Prog ι σ ε α → List (Memo ι σ) → Prop
  | ret a, past => Q past a
  | raise _, _ => True
  | step l u n f, past => ∀ s, (T past l s (u s) ∧ T past l s s) ∧
      Recalls T Q (n s) (past ++ [⟨l, s, u s, true⟩]) ∧
      ∀ e, Recalls T Q (f e) (past ++ [⟨l, s, s, false⟩])

section Rules

variable {T : List (Memo ι σ) → ι → σ → σ → Prop} {Q : List (Memo ι σ) → α → Prop}
  {P : List (Memo ι σ) → β → Prop} {past : List (Memo ι σ)}

@[simp] theorem recalls_ret {a : α} :
    Recalls T Q (ret a : Prog ι σ ε α) past ↔ Q past a := Iff.rfl

@[simp] theorem recalls_raise {e : ε} : Recalls T Q (raise e : Prog ι σ ε α) past := trivial

theorem Recalls.bind {p : Prog ι σ ε β} {k : β → Prog ι σ ε α} (hp : Recalls T P p past)
    (hk : ∀ b past', past <+: past' → P past' b → Recalls T Q (k b) past') :
    Recalls T Q (p >>= k) past := by
  induction p generalizing past with
  | ret b => exact hk b past List.prefix_rfl hp
  | raise e => exact trivial
  | step l u n f ihn ihf =>
      intro s
      obtain ⟨hT, hn, hf⟩ := hp s
      have hlater : ∀ m b past', past ++ [m] <+: past' → P past' b → Recalls T Q (k b) past' :=
        fun m b past' hpre => hk b past' ((List.prefix_append past [m]).trans hpre)
      exact ⟨hT, ihn s hn (hlater _), fun e => ihf e (hf e) (hlater _)⟩

theorem Recalls.tryCatch {p : Prog ι σ ε α} {h : ε → Prog ι σ ε α} (hp : Recalls T Q p past)
    (hh : ∀ e past', past <+: past' → Recalls T Q (h e) past') :
    Recalls T Q (p.tryCatch h) past := by
  induction p generalizing past with
  | ret a => exact hp
  | raise e => exact hh e past List.prefix_rfl
  | step l u n f ihn ihf =>
      intro s
      obtain ⟨hT, hn, hf⟩ := hp s
      have hlater : ∀ m e past', past ++ [m] <+: past' → Recalls T Q (h e) past' :=
        fun m e past' hpre => hh e past' ((List.prefix_append past [m]).trans hpre)
      exact ⟨hT, ihn s hn (hlater _), fun e => ihf e (hf e) (hlater _)⟩

theorem Recalls.query_bind {l : ι} {g : σ → β} {k : β → Prog ι σ ε α}
    (h : ∀ s, T past l s s ∧ Recalls T Q (k (g s)) (past ++ [⟨l, s, s, true⟩])) :
    Recalls T Q (query l g >>= k) past :=
  fun s => ⟨⟨(h s).1, (h s).1⟩, (h s).2, fun _ => trivial⟩

theorem Recalls.write {Q : List (Memo ι σ) → Unit → Prop} {l : ι} {u : σ → σ}
    (h : ∀ s, (T past l s (u s) ∧ T past l s s) ∧ Q (past ++ [⟨l, s, u s, true⟩]) ()) :
    Recalls T Q (write l u : Prog ι σ ε Unit) past :=
  fun s => ⟨(h s).1, (h s).2, fun _ => trivial⟩

theorem Recalls.atomic {l : ι} {t : σ → Except ε (α × σ)}
    (h : ∀ s, T past l s s ∧ ∀ a s', t s = .ok (a, s') →
      T past l s s' ∧ Q (past ++ [⟨l, s, s', true⟩]) a) :
    Recalls T Q (atomic l t) past := by
  intro s
  refine ⟨⟨?_, (h s).1⟩, ?_, fun _ => trivial⟩
  · dsimp only
    cases ht : t s with
    | ok r => exact ((h s).2 r.1 r.2 ht).1
    | error e => exact (h s).1
  · dsimp only
    cases ht : t s with
    | ok r => exact ((h s).2 r.1 r.2 ht).2
    | error e => exact trivial

/-- A program that does what any thread may do, whatever it has done before. -/
theorem Recalls.always {M : ι → σ → σ → Prop} {p : Prog ι σ ε α} (h : Always M p)
    (hM : ∀ past' l a b, past <+: past' → M l a b → T past' l a b) :
    Recalls T (fun _ _ => True) p past := by
  induction p generalizing past with
  | ret a => exact trivial
  | raise e => exact trivial
  | step l u n f ihn ihf =>
      obtain ⟨hsteps, hn, hf⟩ := always_step.mp h
      intro s
      have hlater : ∀ m past' l a b, past ++ [m] <+: past' → M l a b → T past' l a b :=
        fun m past' l a b hpre => hM past' l a b ((List.prefix_append past [m]).trans hpre)
      exact ⟨⟨hM _ _ _ _ List.prefix_rfl (hsteps s).1, hM _ _ _ _ List.prefix_rfl (hsteps s).2⟩,
        ihn s (hn s) (hlater _), fun e => ihf e (hf e) (hlater _)⟩

theorem Recalls.mono {T' : List (Memo ι σ) → ι → σ → σ → Prop} {p : Prog ι σ ε α}
    (h : Recalls T Q p past)
    (hT : ∀ past', past <+: past' → ∀ l a b, T past' l a b → T' past' l a b) :
    Recalls T' Q p past := by
  induction p generalizing past with
  | ret a => exact h
  | raise e => exact trivial
  | step l u n f ihn ihf =>
      intro s
      obtain ⟨⟨hok, hfail⟩, hn, hf⟩ := h s
      have hnow := hT past List.prefix_rfl
      have hlater : ∀ m past', past ++ [m] <+: past' → ∀ l a b, T past' l a b → T' past' l a b :=
        fun m past' hpre => hT past' ((List.prefix_append past [m]).trans hpre)
      exact ⟨⟨hnow _ _ _ hok, hnow _ _ _ hfail⟩, ihn s hn (hlater _),
        fun e => ihf e (hf e) (hlater _)⟩

/-- What every step does, its memory dropped. -/
theorem Recalls.forget [hne : Nonempty σ] {M : ι → σ → σ → Prop} {p : Prog ι σ ε α}
    (h : Recalls T Q p past) (hM : ∀ past l a b, T past l a b → M l a b) : Always M p := by
  induction p generalizing past with
  | ret a => exact always_ret
  | raise e => exact always_raise
  | step l u n f ihn ihf =>
      refine always_step.mpr ⟨fun s => ?_, fun s => ihn s (h s).2.1,
        fun e => ihf e ((h hne.some).2.2 e)⟩
      exact ⟨hM _ _ _ _ (h s).1.1, hM _ _ _ _ (h s).1.2⟩

theorem Recalls.forM {δ : Type} {f : δ → Prog ι σ ε PUnit} {xs : List δ}
    (h : ∀ x ∈ xs, ∀ past', past <+: past' → Recalls T (fun _ _ => True) (f x) past') :
    Recalls T (fun _ _ => True) (xs.forM f) past := by
  induction xs generalizing past with
  | nil => exact trivial
  | cons x xs ih =>
      refine (h x List.mem_cons_self past List.prefix_rfl).bind fun _ past' hpre _ => ?_
      exact ih fun y hy past'' hpre' =>
        h y (List.mem_cons_of_mem x hy) past'' (hpre.trans hpre')

theorem Recalls.foldlM {δ : Type} {f : β → δ → Prog ι σ ε β} {xs : List δ} {b : β}
    (h : ∀ b, ∀ x ∈ xs, ∀ past', past <+: past' → Recalls T (fun _ _ => True) (f b x) past') :
    Recalls T (fun _ _ => True) (xs.foldlM f b) past := by
  induction xs generalizing past b with
  | nil => exact trivial
  | cons x xs ih =>
      rw [List.foldlM_cons]
      refine (h b x List.mem_cons_self past List.prefix_rfl).bind fun b' past' hpre _ => ?_
      exact ih fun b'' y hy past'' hpre' =>
        h b'' y (List.mem_cons_of_mem x hy) past'' (hpre.trans hpre')

end Rules

/-! ### The last step of a kind -/

/-- The last step of a thread whose label is of a kind. -/
def lastOf (q : ι → Bool) (past : List (Memo ι σ)) : Option (Memo ι σ) :=
  (past.filter (q ·.label)).getLast?

theorem lastOf_concat {q : ι → Bool} {past : List (Memo ι σ)} {m : Memo ι σ} :
    lastOf q (past ++ [m]) = if q m.label then some m else lastOf q past := by
  unfold lastOf
  by_cases hq : q m.label = true
  · simp [hq]
  · simp [hq]

/-- A program with no step of the kind leaves the last one where it is. -/
theorem Recalls.unread {T : List (Memo ι σ) → ι → σ → σ → Prop} {M : ι → σ → σ → Prop}
    {q : ι → Bool} {p : Prog ι σ ε α} {past : List (Memo ι σ)} (h : Always M p)
    (hM : ∀ past' l a b, past <+: past' → M l a b → T past' l a b ∧ q l = false) :
    Recalls T (fun past' _ => lastOf q past' = lastOf q past) p past := by
  induction p generalizing past with
  | ret a => exact rfl
  | raise e => exact trivial
  | step l u n f ihn ihf =>
      obtain ⟨hsteps, hn, hf⟩ := always_step.mp h
      intro s
      have hok := hM past l _ _ List.prefix_rfl (hsteps s).1
      have hfail := hM past l _ _ List.prefix_rfl (hsteps s).2
      have hlater : ∀ m past' l a b, past ++ [m] <+: past' → M l a b →
          T past' l a b ∧ q l = false :=
        fun m past' l a b hpre => hM past' l a b ((List.prefix_append past [m]).trans hpre)
      have hsame : ∀ (m : Memo ι σ), m.label = l → lastOf q (past ++ [m]) = lastOf q past := by
        intro m hm
        rw [lastOf_concat, hm, hok.2, if_neg Bool.false_ne_true]
      refine ⟨⟨hok.1, hfail.1⟩, ?_, fun e => ?_⟩
      · have hrest := ihn s (hn s) (hlater ⟨l, s, u s, true⟩)
        rwa [hsame _ rfl] at hrest
      · have hrest := ihf e (hf e) (hlater ⟨l, s, s, false⟩)
        rwa [hsame _ rfl] at hrest

namespace Pool

variable {κ : Type}

/-- An event, as its thread remembers it. -/
def Event.memo (e : Event κ ι σ) : Memo ι σ := ⟨e.label, e.before, e.after, e.ok⟩

/-- What a thread recalls is what its events have done. -/
theorem Follows.recalls {may : ι → Prop} {T : List (Memo ι σ) → ι → σ → σ → Prop}
    {Q : List (Memo ι σ) → α → Prop} {p p' : Prog ι σ ε α} {es : List (Event κ ι σ)}
    {past : List (Memo ι σ)} (h : Follows may p es p') (hp : Recalls T Q p past) :
    ∀ pre e post, es = pre ++ e :: post →
      T (past ++ pre.map Event.memo) e.label e.before e.after := by
  intro pre e post hcut
  induction h generalizing past pre with
  | refl p => exact absurd hcut (by simp)
  | @ok k l u n f s es p' _ ih =>
      obtain ⟨hT, hn, -⟩ := hp s
      cases pre with
      | nil =>
          obtain ⟨rfl, -⟩ := List.cons.inj hcut
          simpa using hT.1
      | cons d pre =>
          obtain ⟨rfl, rfl⟩ := List.cons.inj hcut
          simpa [Event.memo] using ih hn pre rfl
  | @fault k l u n f s es p' x _ _ ih =>
      obtain ⟨hT, -, hf⟩ := hp s
      cases pre with
      | nil =>
          obtain ⟨rfl, -⟩ := List.cons.inj hcut
          simpa using hT.2
      | cons d pre =>
          obtain ⟨rfl, rfl⟩ := List.cons.inj hcut
          simpa [Event.memo] using ih (hf x) pre rfl

/-- At every event of a run, its thread recalls its own earlier events. -/
theorem Runs.recalls [DecidableEq κ] {may : κ → ι → Prop}
    {T : κ → List (Memo ι σ) → ι → σ → σ → Prop} {Q : List (Memo ι σ) → α → Prop}
    {P P' : Pool ι σ ε α κ} {s s' : σ} {tr : List (Event κ ι σ)}
    (h : Runs may P s tr P' s') (hP : ∀ k, Recalls (T k) Q (P k) []) :
    ∀ pre e post, tr = pre ++ e :: post →
      T e.thread ((pre.filter (·.thread = e.thread)).map Event.memo) e.label e.before e.after := by
  intro pre e post hcut
  have hcut' : tr.filter (·.thread = e.thread) =
      pre.filter (·.thread = e.thread) ++ e :: post.filter (·.thread = e.thread) := by
    rw [hcut, List.filter_append, List.filter_cons_of_pos (by simp)]
  simpa using (h.follows e.thread).recalls (hP e.thread) _ _ _ hcut'

/-- A step that a thread remembers is an event of the run, and what it remembers from then on has
happened since. -/
theorem cut_memory [DecidableEq κ] {past : List (Event κ ι σ)} {k : κ} {m : Memo ι σ}
    {rest : List (Memo ι σ)} (h : m :: rest <:+ (past.filter (·.thread = k)).map Event.memo) :
    ∃ pre d post, past = pre ++ d :: post ∧ d.memo = m ∧ ∀ n ∈ rest, ∃ f ∈ post, f.memo = n := by
  obtain ⟨before, hsuffix⟩ := h
  obtain ⟨l₁, l₂, hsplit, -, hrest⟩ := List.map_eq_append_iff.mp hsuffix.symm
  obtain ⟨d, l₃, rfl, hmemo, rfl⟩ := List.map_eq_cons_iff.mp hrest
  obtain ⟨pre₁, pre₂, rfl, -, hlater⟩ := List.filter_eq_append_iff.mp hsplit
  obtain ⟨pre₃, post, rfl, -, -, hpost⟩ := List.filter_eq_cons_iff.mp hlater
  refine ⟨pre₁ ++ pre₃, d, post, by rw [List.append_assoc], hmemo, fun n hn => ?_⟩
  obtain ⟨f, hf, rfl⟩ := List.mem_map.mp hn
  rw [← hpost] at hf
  exact ⟨f, (List.mem_filter.mp hf).1, rfl⟩

/-! ### What has happened since -/

variable [DecidableEq κ] {q : ι → Bool} {k : κ}

/-- The events since the last one of a kind in a thread. -/
def since (q : ι → Bool) (k : κ) (past : List (Event κ ι σ)) : List (Event κ ι σ) :=
  past.rtakeWhile fun e => !(decide (e.thread = k) && q e.label)

theorem since_concat {past : List (Event κ ι σ)} {e : Event κ ι σ} :
    since q k (past ++ [e]) =
      if e.thread = k ∧ q e.label = true then [] else since q k past ++ [e] := by
  unfold since
  by_cases hlast : e.thread = k ∧ q e.label = true
  · rw [if_pos hlast, List.rtakeWhile_concat_neg _ _ _ (by simp [hlast])]
  · rw [if_neg hlast, List.rtakeWhile_concat_pos _ _ _ (by simpa [imp_iff_not_or] using hlast)]

theorem cut_since {past : List (Event κ ι σ)} {m : Memo ι σ}
    (h : lastOf q ((past.filter (·.thread = k)).map Event.memo) = some m) :
    ∃ pre d, past = pre ++ d :: since q k past ∧ d.memo = m := by
  induction past using List.reverseRecOn with
  | nil => exact absurd h (by simp [lastOf])
  | append_singleton past e ih =>
      rw [since_concat]
      by_cases hlast : e.thread = k ∧ q e.label = true
      · -- `e` is the last one
        have hmemo : e.memo = m := by
          rw [List.filter_append, List.filter_cons_of_pos (by simpa using hlast.1),
            List.filter_nil, List.map_append, List.map_singleton, lastOf_concat,
            if_pos (show q e.memo.label = true from hlast.2)] at h
          exact Option.some.inj h
        rw [if_pos hlast]
        exact ⟨past, e, rfl, hmemo⟩
      · have hsame : lastOf q ((past.filter (·.thread = k)).map Event.memo) = some m := by
          by_cases hk : e.thread = k
          · have hq : ¬ q e.memo.label = true := fun hq => hlast ⟨hk, hq⟩
            rwa [List.filter_append, List.filter_cons_of_pos (by simpa using hk), List.filter_nil,
              List.map_append, List.map_singleton, lastOf_concat, if_neg hq] at h
          · rwa [List.filter_append, List.filter_cons_of_neg (by simpa using hk), List.filter_nil,
              List.append_nil] at h
        obtain ⟨pre, d, hcut, hmemo⟩ := ih hsame
        rw [if_neg hlast]
        refine ⟨pre, d, ?_, hmemo⟩
        rw [← List.cons_append, ← List.append_assoc]
        exact congrArg (· ++ [e]) hcut

/-- The events from the first one of a thread on. -/
def sinceFirst (k : κ) (past : List (Event κ ι σ)) : List (Event κ ι σ) :=
  past.dropWhile (·.thread ≠ k)

theorem cut_sinceFirst {past : List (Event κ ι σ)} {m : Memo ι σ}
    (h : ((past.filter (·.thread = k)).map Event.memo).head? = some m) :
    ∃ pre d rest, past = pre ++ d :: rest ∧ sinceFirst k past = d :: rest ∧ d.thread = k ∧
      d.memo = m ∧ ∀ e ∈ pre, e.thread ≠ k := by
  induction past with
  | nil => exact absurd h (by simp)
  | cons e past ih =>
      by_cases hk : e.thread = k
      · rw [List.filter_cons_of_pos (by simpa using hk), List.map_cons, List.head?_cons] at h
        exact ⟨[], e, past, rfl, List.dropWhile_cons_of_neg (by simpa using hk), hk,
          Option.some.inj h, by simp⟩
      · rw [List.filter_cons_of_neg (by simpa using hk)] at h
        obtain ⟨pre, d, rest, hcut, hfirst, hthread, hmemo, hpre⟩ := ih h
        refine ⟨e :: pre, d, rest, by rw [hcut]; rfl, ?_, hthread, hmemo, ?_⟩
        · unfold sinceFirst at hfirst ⊢
          rw [List.dropWhile_cons_of_pos (by simpa using hk), hfirst]
        · exact List.forall_mem_cons.mpr ⟨hk, hpre⟩

/-- What a thread left when it took a step, and no event since has undone, holds still. -/
theorem Runs.since {may : κ → ι → Prop} {P P' : Pool ι σ ε α κ} {s s' : σ}
    {pre post : List (Event κ ι σ)} {e : Event κ ι σ} {m : Memo ι σ} {I : σ → Prop}
    (h : Runs may P s (pre ++ e :: post) P' s')
    (hlast : lastOf q ((pre.filter (·.thread = k)).map Event.memo) = some m) (hm : I m.after)
    (hI : ∀ d ∈ Pool.since q k pre, I d.before → I d.after) : I e.before := by
  obtain ⟨before, d, hcut, rfl⟩ := cut_since hlast
  generalize Pool.since q k pre = between at hI hcut
  subst hcut
  rw [List.append_assoc, List.cons_append] at h
  obtain ⟨P₁, s₁, -, hrest⟩ := h.split
  obtain ⟨-, P₂, hrest⟩ := hrest.head
  obtain ⟨P₃, s₃, hbetween, hpost⟩ := hrest.split
  rw [hpost.head.1]
  exact (hbetween.chain hI hm).1

end Pool

end Prog
