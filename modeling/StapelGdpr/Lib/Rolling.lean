import Mathlib.Algebra.Order.Monoid.Defs
import Mathlib.Data.List.Chain

/-!
# Counters that every event renews

A counter kept in one entry with a time to live of `w`, written anew by every event that is let
in: what it counts is a *burst*, the events that follow one another within `w`. A burst can reach
back further than `w`, so the counter is not the number of events of the last `w`; but the events
of one window of length `w` always belong to one burst (`window_le`), and the two numbers differ
exactly when a burst is stretched (`recent_of_burst_iff`).

The past is a list, latest first.
-/

namespace Rolling

variable {τ : Type*} [AddCommMonoid τ] [LinearOrder τ] {w now lo t : τ} {past : List τ}
  {limit : Nat}

/-- How many events lead up to `now`, each within `w` of the next. -/
def burst (w : τ) : τ → List τ → Nat
  | _, [] => 0
  | now, t :: past => if now < t + w then burst w t past + 1 else 0

/-- The events of the last `w`. -/
def recent (w now : τ) (past : List τ) : List τ := past.filter (now ≤ · + w)

/-- The events of the half-open window of length `w` that starts at `lo`. -/
def window (w lo : τ) (past : List τ) : List τ := past.filter fun t => lo ≤ t ∧ t < lo + w

/-- Every event came when fewer than `limit` led up to it. -/
def Limited (w : τ) (limit : Nat) : List τ → Prop
  | [] => True
  | t :: past => burst w t past < limit ∧ Limited w limit past

/-- The last `limit` events lead up to `now`, and the first of them is older than `w`. -/
def Stretched (w : τ) (limit : Nat) (now : τ) (past : List τ) : Prop :=
  (now :: past.take limit).IsChain (fun later earlier => later < earlier + w) ∧
    0 < limit ∧ ∃ first, past[limit - 1]? = some first ∧ first + w < now

/-! ### Bursts -/

/-- A burst is a chain. -/
theorem le_burst_iff : limit ≤ burst w now past ↔ limit ≤ past.length ∧
    (now :: past.take limit).IsChain (fun later earlier => later < earlier + w) := by
  induction past generalizing now limit with
  | nil =>
      constructor
      · intro h
        obtain rfl : limit = 0 := Nat.le_zero.mp h
        exact ⟨le_rfl, by simp⟩
      · exact fun h => h.1
  | cons t past ih =>
      cases limit with
      | zero => simp
      | succ n =>
          rw [burst, List.take_succ_cons, List.isChain_cons_cons, List.length_cons,
            Nat.succ_le_succ_iff]
          by_cases hnear : now < t + w
          · rw [if_pos hnear, Nat.succ_le_succ_iff, ih]
            simp [hnear]
          · rw [if_neg hnear]
            simp [hnear]

/-! ### Counting in a sorted past -/

/-- Of a past in order, those with a property that only gets lost further back are the last. -/
theorem lt_length_filter_iff {p : τ → Bool} (hsorted : past.Pairwise (· ≥ ·))
    (hp : ∀ a b, b ≤ a → p b = true → p a = true) {k : Nat} :
    k < (past.filter p).length ↔ ∃ first, past[k]? = some first ∧ p first = true := by
  induction past generalizing k with
  | nil => simp
  | cons t past ih =>
      have hlast := (List.pairwise_cons.mp hsorted).1
      have ih := fun k => ih (k := k) (List.pairwise_cons.mp hsorted).2
      cases hpt : p t with
      | true =>
          rw [List.filter_cons_of_pos hpt, List.length_cons]
          cases k with
          | zero => simp [hpt]
          | succ k =>
              rw [Nat.succ_lt_succ_iff, ih k, List.getElem?_cons_succ]
      | false =>
          -- nothing further back has the property either
          have hnone : ∀ x ∈ t :: past, p x = false := by
            intro x hx
            rcases List.mem_cons.mp hx with rfl | hx
            · exact hpt
            · by_contra hyes
              rw [hp t x (hlast x hx) (by simpa using hyes)] at hpt
              exact absurd hpt (by simp)
          have hempty : (t :: past).filter p = [] :=
            List.filter_eq_nil_iff.mpr fun x hx => by simp [hnone x hx]
          rw [hempty, List.length_nil]
          constructor
          · intro h
            exact absurd h (Nat.not_lt_zero k)
          · rintro ⟨first, hget, hyes⟩
            rw [hnone first (List.mem_of_getElem? hget)] at hyes
            exact absurd hyes (by simp)

variable [IsOrderedAddMonoid τ]

/-- Who counts `limit` events of the last `w` whenever a burst has them: everyone but the one
whose burst is stretched. -/
theorem recent_of_burst_iff (hsorted : past.Pairwise (· ≥ ·)) :
    (limit ≤ burst w now past → limit ≤ (recent w now past).length) ↔
      ¬ Stretched w limit now past := by
  cases limit with
  | zero => simp [Stretched]
  | succ n =>
      have hmono : ∀ a b : τ, b ≤ a → decide (now ≤ b + w) = true → decide (now ≤ a + w) = true :=
        fun a b hba h => decide_eq_true ((of_decide_eq_true h).trans (add_le_add_left hba w))
      have hrecent : n + 1 ≤ (recent w now past).length ↔
          ∃ first, past[n]? = some first ∧ decide (now ≤ first + w) = true :=
        lt_length_filter_iff hsorted hmono
      rw [hrecent, le_burst_iff]
      constructor
      · rintro h ⟨hchain, -, first, hfirst, hold⟩
        have hlen : n + 1 ≤ past.length := (List.getElem?_eq_some_iff.mp hfirst).1
        obtain ⟨first', hfirst', hnew⟩ := h ⟨hlen, hchain⟩
        obtain rfl : first = first' := Option.some.inj (hfirst.symm.trans hfirst')
        exact absurd (of_decide_eq_true hnew) (not_le.mpr hold)
      · rintro h ⟨hlen, hchain⟩
        refine ⟨past[n], List.getElem?_eq_getElem hlen, ?_⟩
        by_contra hold
        refine h ⟨hchain, Nat.succ_pos n, past[n], List.getElem?_eq_getElem hlen, ?_⟩
        simpa using hold

/-- What is left of a window before `t` belongs to the burst of `t`. -/
theorem length_since_le_burst (hsorted : (t :: past).Pairwise (· ≥ ·)) (ht : t < lo + w) :
    (past.filter (lo ≤ ·)).length ≤ burst w t past := by
  induction past generalizing t with
  | nil => exact Nat.le_refl _
  | cons r past ih =>
      have hrt : r ≤ t := (List.pairwise_cons.mp hsorted).1 r (List.mem_cons_self ..)
      have hrest := (List.pairwise_cons.mp hsorted).2
      by_cases hr : lo ≤ r
      · have hnear : t < r + w := ht.trans_le (add_le_add_left hr w)
        rw [List.filter_cons_of_pos (by simpa using hr), burst, if_pos hnear, List.length_cons]
        exact Nat.succ_le_succ (ih hrest (hrt.trans_lt ht))
      · have hnone : (r :: past).filter (lo ≤ ·) = [] := by
          refine List.filter_eq_nil_iff.mpr fun x hx => ?_
          have hxr : x ≤ r := by
            rcases List.mem_cons.mp hx with rfl | hx
            · exact le_rfl
            · exact (List.pairwise_cons.mp hrest).1 x hx
          simpa using hxr.trans_lt (not_le.mp hr)
        rw [hnone]
        exact Nat.zero_le _

/-- **No window overflows.** Of events each of which came when fewer than `limit` led up to it,
no window of length `w` has more than `limit`. -/
theorem window_le (hsorted : past.Pairwise (· ≥ ·)) (h : Limited w limit past) :
    (window w lo past).length ≤ limit := by
  induction past with
  | nil => exact Nat.zero_le _
  | cons t past ih =>
      have ih := ih (List.pairwise_cons.mp hsorted).2 h.2
      by_cases hin : lo ≤ t ∧ t < lo + w
      · have hsince : (window w lo past).length ≤ (past.filter (lo ≤ ·)).length := by
          unfold window
          refine (List.monotone_filter_right past fun x hx => ?_).length_le
          simp only [decide_eq_true_eq] at hx ⊢
          exact hx.1
        have hburst := length_since_le_burst hsorted hin.2
        rw [window, List.filter_cons_of_pos (by simpa using hin), List.length_cons]
        exact Nat.succ_le_of_lt ((hsince.trans hburst).trans_lt h.1)
      · rw [window, List.filter_cons_of_neg (by simpa using hin)]
        exact ih

end Rolling
