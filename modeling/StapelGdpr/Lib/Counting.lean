import Mathlib.Data.Nat.Count
import Mathlib.Order.Bounds.Defs

/-!
# Loops that count some of their steps

A loop steps a state and counts the steps that arrive at a *hit*; it stops at the `n`-th. The
number of its steps is then the least with exactly `n` hits among them (`Reaches.isLeast`), and
a loop for `a` hits with one for `b` after it is the loop for `a + b` (`Reaches.trans`).
-/

namespace Counting

variable {σ : Type*} {next : σ → σ} {hit : σ → Prop} {s t u : σ} {n m k j : Nat}

/-- From `s`, the `n`-th hit is `k` steps away, at `t`. -/
inductive Reaches (next : σ → σ) (hit : σ → Prop) : σ → Nat → Nat → σ → Prop
  | done (s : σ) : Reaches next hit s 0 0 s
  | hit {s t : σ} {n k : Nat} (h : hit (next s)) (rest : Reaches next hit (next s) n k t) :
      Reaches next hit s (n + 1) (k + 1) t
  | skip {s t : σ} {n k : Nat} (h : ¬hit (next s))
      (rest : Reaches next hit (next s) (n + 1) k t) : Reaches next hit s (n + 1) (k + 1) t

/-- The hits among the first `k` steps from `s`. -/
def hits (next : σ → σ) (hit : σ → Prop) [DecidablePred hit] (s : σ) (k : Nat) : Nat :=
  Nat.count (fun j => hit (next^[j + 1] s)) k

/-! ### Counting -/

theorem hits_succ [DecidablePred hit] :
    hits next hit s (k + 1) = hits next hit (next s) k + if hit (next s) then 1 else 0 := by
  rw [hits, Nat.count_succ']
  rfl

theorem hits_succ_of_hit [DecidablePred hit] (h : hit (next s)) :
    hits next hit s (k + 1) = hits next hit (next s) k + 1 := by
  rw [hits_succ, if_pos h]

theorem hits_succ_of_skip [DecidablePred hit] (h : ¬hit (next s)) :
    hits next hit s (k + 1) = hits next hit (next s) k := by
  rw [hits_succ, if_neg h, Nat.add_zero]

theorem Reaches.iterate (h : Reaches next hit s n k t) : t = next^[k] s := by
  induction h with
  | done s => rfl
  | hit _ _ ih => rw [Function.iterate_succ_apply, ih]
  | skip _ _ ih => rw [Function.iterate_succ_apply, ih]

theorem Reaches.hits_eq [DecidablePred hit] (h : Reaches next hit s n k t) :
    hits next hit s k = n := by
  induction h with
  | done s => exact Nat.count_zero _
  | hit h _ ih => rw [hits_succ_of_hit h, ih]
  | skip h _ ih => rw [hits_succ_of_skip h, ih]

/-- Fewer steps have fewer hits. -/
theorem Reaches.le_of_hits [DecidablePred hit] (h : Reaches next hit s n k t)
    (hj : hits next hit s j = n) : k ≤ j := by
  induction h generalizing j with
  | done s => exact Nat.zero_le j
  | hit h _ ih =>
      cases j with
      | zero => exact absurd hj.symm (Nat.succ_ne_zero _)
      | succ j =>
          rw [hits_succ_of_hit h] at hj
          exact Nat.succ_le_succ (ih (Nat.succ_injective hj))
  | skip h _ ih =>
      cases j with
      | zero => exact absurd hj.symm (Nat.succ_ne_zero _)
      | succ j =>
          rw [hits_succ_of_skip h] at hj
          exact Nat.succ_le_succ (ih hj)

theorem Reaches.isLeast [DecidablePred hit] (h : Reaches next hit s n k t) :
    IsLeast {k | hits next hit s k = n} k :=
  ⟨h.hits_eq, fun _ hj => h.le_of_hits hj⟩

/-! ### Runs -/

/-- A loop that counts anything ends at a hit. -/
theorem Reaches.landed (h : Reaches next hit s n k t) (hn : 0 < n) : hit t := by
  induction h with
  | done s => exact absurd hn (lt_irrefl 0)
  | @hit s t n k h rest ih =>
      cases n with
      | zero =>
          cases rest with
          | done => exact h
      | succ n => exact ih (Nat.succ_pos n)
  | skip _ _ ih => exact ih hn

theorem Reaches.le (h : Reaches next hit s n k t) : n ≤ k := by
  induction h with
  | done s => exact le_refl 0
  | hit _ _ ih => exact Nat.succ_le_succ ih
  | skip _ _ ih => exact ih.trans (Nat.le_succ _)

theorem Reaches.trans (h : Reaches next hit s n k t) (h' : Reaches next hit t m j u) :
    Reaches next hit s (n + m) (k + j) u := by
  induction h with
  | done s => simpa using h'
  | @hit s t n k h _ ih =>
      have hrun : Reaches next hit s (n + m + 1) (k + j + 1) u := .hit h (ih h')
      rwa [Nat.add_right_comm n m 1, Nat.add_right_comm k j 1] at hrun
  | @skip s t n k h _ ih =>
      have hrest : Reaches next hit (next s) (n + m + 1) (k + j) u := by
        rw [Nat.add_right_comm n m 1]
        exact ih h'
      have hrun := Reaches.skip h hrest
      rwa [Nat.add_right_comm n m 1, Nat.add_right_comm k j 1] at hrun

theorem Reaches.unique (h : Reaches next hit s n k t) (h' : Reaches next hit s n j u) :
    k = j ∧ t = u := by
  induction h generalizing j with
  | done s =>
      cases h' with
      | done => exact ⟨rfl, rfl⟩
  | hit h _ ih =>
      cases h' with
      | hit _ rest =>
          obtain ⟨hk, ht⟩ := ih rest
          exact ⟨congrArg (· + 1) hk, ht⟩
      | skip hskip _ => exact absurd h hskip
  | skip h _ ih =>
      cases h' with
      | hit hhit _ => exact absurd hhit h
      | skip _ rest =>
          obtain ⟨hk, ht⟩ := ih rest
          exact ⟨congrArg (· + 1) hk, ht⟩

end Counting
