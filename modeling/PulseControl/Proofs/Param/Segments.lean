import Mathlib.Analysis.Convex.Segment
import Mathlib.Tactic.FieldSimp
import Mathlib.Tactic.Linarith
import Mathlib.Tactic.Ring
import PulseControl.Proofs.ExactScalar
import PulseControl.Proofs.Param.Admission

/-!
# Interpolation along a table

The points of a table stand from left to right, and several may stand above one another: there the
interpolation jumps. Between two neighbours with different abscissas it follows their segment, from the
left one on and up to the right one exclusively, so that at a jump the last point counts. Before the first
point and from the last one on it is constant. At the first abscissa the first point counts instead.

All this is read off one fact: where the argument lies strictly inside the range, exactly one position of
the table has its point at or before the argument and the next one behind it.

* `PulseControl.Table.segment_of_between`, `PulseControl.Table.exists_between` – that position, and the
  line that starts there;
* `PulseControl.Table.interpAt?` – interpolation by positions, where every access and the divisor are
  checked;
* `PulseControl.Table.monotone_interp` – ordinates that do not descend are interpolated monotonically;
* `PulseControl.Table.interp_follows_points` – all of it for the tables of rows.
-/

namespace PulseControl

namespace Table

/-! ### The ends of a table -/

section Ends

variable {β : Type}

theorem length_pos (t : Table β) : 0 < t.points.length := Nat.succ_pos _

theorem length_sub_one_lt (t : Table β) : t.points.length - 1 < t.points.length :=
  Nat.sub_one_lt t.length_pos.ne'

theorem getElem_zero (t : Table β) (h : 0 < t.points.length) : t.points[0] = t.first := rfl

theorem getLast?_points (t : Table β) : t.points.getLast? = some t.last := by
  rw [points, last, List.getLast?_cons]

theorem last_mem_points (t : Table β) : t.last ∈ t.points :=
  List.mem_of_getLast? t.getLast?_points

theorem getElem_last (t : Table β) {i : ℕ} (hi : i < t.points.length)
    (hlast : i = t.points.length - 1) : t.points[i] = t.last := by
  have h := t.getLast?_points
  rw [List.getLast?_eq_getElem?, ← hlast, List.getElem?_eq_getElem hi] at h
  exact Option.some.inj h

end Ends

variable {α : Type} [ExactScalar α] {t : Table α} {p q : α × α} {qs : List (α × α)} {x y : α}

/-! ### Lines -/

/-- A line between points with different abscissas divides by their distance. -/
theorem line_eq (h : p.1 < q.1) (x : α) :
    line p q x = p.2 + (q.2 - p.2) * (x - p.1) / (q.1 - p.1) :=
  if_neg fun heq => h.ne' ((ExactScalar.beq_eq_true q.1 p.1).mp heq)

theorem line_left (h : p.1 < q.1) : line p q p.1 = p.2 := by
  rw [line_eq h, sub_self, mul_zero, zero_div, add_zero]

/-- A line with a weight for either end. -/
theorem line_eq_weighted (h : p.1 < q.1) (x : α) :
    line p q x = (q.1 - x) / (q.1 - p.1) * p.2 + (x - p.1) / (q.1 - p.1) * q.2 := by
  have hwidth : q.1 - p.1 ≠ 0 := (sub_pos.mpr h).ne'
  rw [line_eq h]
  field_simp
  ring

/-- A line takes no value outside those of its ends, between them. -/
theorem line_mem (hpx : p.1 ≤ x) (hxq : x < q.1) :
    min p.2 q.2 ≤ line p q x ∧ line p q x ≤ max p.2 q.2 := by
  have hpq := hpx.trans_lt hxq
  have hleft : 0 ≤ (q.1 - x) / (q.1 - p.1) := div_nonneg (by linarith) (by linarith)
  have hright : 0 ≤ (x - p.1) / (q.1 - p.1) := div_nonneg (by linarith) (by linarith)
  have hsum : (q.1 - x) / (q.1 - p.1) + (x - p.1) / (q.1 - p.1) = 1 := by
    rw [← add_div, sub_add_sub_cancel, div_self (by linarith)]
  rw [line_eq_weighted hpq]
  constructor
  · calc min p.2 q.2
        = (q.1 - x) / (q.1 - p.1) * min p.2 q.2 + (x - p.1) / (q.1 - p.1) * min p.2 q.2 := by
          rw [← add_mul, hsum, one_mul]
      _ ≤ _ := add_le_add (mul_le_mul_of_nonneg_left (min_le_left _ _) hleft)
          (mul_le_mul_of_nonneg_left (min_le_right _ _) hright)
  · calc _
        ≤ (q.1 - x) / (q.1 - p.1) * max p.2 q.2 + (x - p.1) / (q.1 - p.1) * max p.2 q.2 :=
          add_le_add (mul_le_mul_of_nonneg_left (le_max_left _ _) hleft)
            (mul_le_mul_of_nonneg_left (le_max_right _ _) hright)
      _ = max p.2 q.2 := by rw [← add_mul, hsum, one_mul]

/-- Strictly between its ends a line runs inside their segment. -/
theorem line_mem_openSegment (hpx : p.1 < x) (hxq : x < q.1) :
    (x, line p q x) ∈ openSegment α p q := by
  have hwidth : 0 < q.1 - p.1 := sub_pos.mpr (hpx.trans hxq)
  refine ⟨(q.1 - x) / (q.1 - p.1), (x - p.1) / (q.1 - p.1), div_pos (by linarith) hwidth,
    div_pos (by linarith) hwidth, ?_, Prod.ext ?_ (line_eq_weighted (hpx.trans hxq) x).symm⟩
  · rw [← add_div, sub_add_sub_cancel, div_self hwidth.ne']
  · change (q.1 - x) / (q.1 - p.1) * p.1 + (x - p.1) / (q.1 - p.1) * q.1 = x
    field_simp
    ring

/-- A line that ends no lower than it starts ascends. -/
theorem line_mono (hpq : p.1 < q.1) (h : p.2 ≤ q.2) (hxy : x ≤ y) : line p q x ≤ line p q y := by
  rw [line_eq hpq, line_eq hpq]
  have hwidth : 0 ≤ q.1 - p.1 := (sub_pos.mpr hpq).le
  have hrise : 0 ≤ q.2 - p.2 := sub_nonneg.mpr h
  gcongr

/-! ### The points of a table -/

/-- The rows of a table are the coordinates of its points, which stand from left to right. -/
theorem points_of_ofRows {rows : List (List α)} (h : ofRows rows = .ok t) :
    rows = [t.points.map Prod.fst, t.points.map Prod.snd] ∧
      t.points.Pairwise fun p q => p.1 ≤ q.1 := by
  obtain ⟨xs, ys, rfl, htabular, hpoints⟩ := ofRows_eq_ok.mp h
  have hxs : t.points.map Prod.fst = xs := by
    rw [hpoints, List.map_fst_zip htabular.length_eq.le]
  have hys : t.points.map Prod.snd = ys := by
    rw [hpoints, List.map_snd_zip htabular.length_eq.ge]
  refine ⟨by rw [hxs, hys], List.pairwise_map.mp (hxs ▸ ?_)⟩
  exact List.isChain_iff_pairwise.mp (htabular.ascending.imp fun _ _ => le_of_not_gt)

/-- **The line at a position**: a search for the first point behind the argument ends there. -/
theorem segment_of_between (hsorted : (p :: qs).Pairwise fun p q => p.1 ≤ q.1) {i : ℕ}
    (hi : i + 1 < (p :: qs).length) (hle : (p :: qs)[i].1 ≤ x) (hlt : x < (p :: qs)[i + 1].1) :
    segment x p qs = line (p :: qs)[i] (p :: qs)[i + 1] x := by
  induction qs generalizing p i with
  | nil => exact absurd hi (by simp)
  | cons q qs ih =>
    obtain ⟨-, hrest⟩ := List.pairwise_cons.mp hsorted
    cases i with
    | zero => exact if_neg hlt.not_ge
    | succ i =>
      have hq : q.1 ≤ x := by
        refine le_trans ?_ hle
        rcases List.mem_cons.mp (List.getElem_mem (Nat.lt_of_succ_lt_succ (Nat.lt_of_succ_lt hi)))
          with heq | hmem
        · exact (congrArg Prod.fst heq).ge
        · exact (List.pairwise_cons.mp hrest).1 _ hmem
      exact (if_pos hq).trans (ih hrest (Nat.lt_of_succ_lt_succ hi) hle hlt)

theorem interp_of_le (h : x ≤ t.first.1) : t.interp x = t.first.2 := if_pos (Or.inr h)

theorem not_le_first (h : t.first.1 < x) : ¬(Scalar.isUndefined x = true ∨ x ≤ t.first.1) := by
  rintro (hundefined | hle)
  · exact Bool.false_ne_true ((ExactScalar.isUndefined_eq x).symm.trans hundefined)
  · exact h.not_ge hle

theorem interp_of_ge (hfirst : t.first.1 < x) (hlast : t.last.1 ≤ x) : t.interp x = t.last.2 :=
  (if_neg (not_le_first hfirst)).trans (if_pos hlast)

/-! ### Positions -/

/-- **The partition point of a row at an argument**: exactly the entries before it are not greater. -/
structure PartitionPoint (xs : List α) (x : α) (i : ℕ) : Prop where
  le_length : i ≤ xs.length
  le_iff : ∀ j (hj : j < xs.length), xs[j] ≤ x ↔ j < i

/-- Inside the range the partition point has a neighbour on either side of the argument. -/
theorem PartitionPoint.between {i : ℕ} (h : PartitionPoint (t.points.map Prod.fst) x i)
    (hfirst : t.first.1 < x) (hlast : x < t.last.1) :
    ∃ (k : ℕ) (hk : k + 1 < t.points.length),
      i = k + 1 ∧ t.points[k].1 ≤ x ∧ x < t.points[k + 1].1 := by
  have hlen := t.length_sub_one_lt
  have hle : ∀ j (hj : j < t.points.length), t.points[j].1 ≤ x ↔ j < i := fun j hj => by
    have hiff := h.le_iff j (by rwa [List.length_map])
    rwa [List.getElem_map] at hiff
  have hpos : 0 < i := (hle 0 t.length_pos).mp hfirst.le
  have hend : ¬t.points.length - 1 < i := by
    rw [← hle _ hlen, t.getElem_last hlen rfl]
    exact hlast.not_ge
  obtain ⟨k, rfl⟩ := Nat.exists_eq_succ_of_ne_zero hpos.ne'
  have hk : k + 1 < t.points.length := by omega
  exact ⟨k, hk, rfl, (hle k (Nat.lt_of_succ_lt hk)).mpr (Nat.lt_succ_self k),
    not_le.mp fun hge => Nat.lt_irrefl _ ((hle (k + 1) hk).mp hge)⟩

/-- **Interpolation by positions** in two rows, given the partition point of the first: nothing comes out
if a position does not exist or the divisor is not positive. -/
def interpAt? (xs ys : List α) (i : ℕ) (x : α) : Option α := do
  if x ≤ (← xs[0]?) then ys[0]?
  else if (← xs[xs.length - 1]?) ≤ x then ys[xs.length - 1]?
  else if i = 0 then none
  else
    let (x₀, x₁) := (← xs[i - 1]?, ← xs[i]?)
    let (y₀, y₁) := (← ys[i - 1]?, ← ys[i]?)
    if 0 < x₁ - x₀ then some (y₀ + (y₁ - y₀) * (x - x₀) / (x₁ - x₀)) else none

/-! ### Interpolation from left to right -/

section Ascending

variable (hsorted : t.points.Pairwise fun p q => p.1 ≤ q.1)

include hsorted

theorem points_le {i j : ℕ} (hij : i ≤ j) (hj : j < t.points.length) :
    t.points[i].1 ≤ t.points[j].1 := by
  rcases hij.eq_or_lt with rfl | hlt
  · exact le_rfl
  · exact List.pairwise_iff_getElem.mp hsorted i j _ hj hlt

theorem le_last {i : ℕ} (hi : i < t.points.length) : t.points[i].1 ≤ t.last.1 := by
  have hlen := t.length_sub_one_lt
  rw [← t.getElem_last hlen rfl]
  exact points_le hsorted (by omega) hlen

/-- **Interpolation from a position on** follows the line that starts there. -/
theorem interp_of_between {i : ℕ} (hi : i + 1 < t.points.length) (hfirst : t.first.1 < x)
    (hle : t.points[i].1 ≤ x) (hlt : x < t.points[i + 1].1) :
    t.interp x = line t.points[i] t.points[i + 1] x :=
  (if_neg (not_le_first hfirst)).trans <|
    (if_neg (hlt.trans_le (le_last hsorted hi)).not_ge).trans (segment_of_between hsorted hi hle hlt)

/-- An ascending row has a partition point at every argument. -/
theorem exists_partitionPoint (x : α) : ∃ i, PartitionPoint (t.points.map Prod.fst) x i := by
  refine ⟨t.points.findIdx fun p => !decide (p.1 ≤ x), ?_, fun j hj => ?_⟩
  · rw [List.length_map]
    exact List.findIdx_le_length
  rw [List.length_map] at hj
  rw [List.getElem_map]
  constructor
  · intro hle
    by_contra hge
    have hin := (not_lt.mp hge).trans_lt hj
    have hat := List.findIdx_getElem (w := hin)
    simp only [Bool.not_eq_true', decide_eq_false_iff_not] at hat
    exact hat ((points_le hsorted (not_lt.mp hge) hj).trans hle)
  · intro hlt
    have hbefore := List.not_of_lt_findIdx hlt
    simpa only [Bool.not_eq_false', decide_eq_true_eq] using hbefore

/-- Inside the range there are neighbours on either side of the argument. -/
theorem exists_between (hfirst : t.first.1 < x) (hlast : x < t.last.1) :
    ∃ (k : ℕ) (hk : k + 1 < t.points.length), t.points[k].1 ≤ x ∧ x < t.points[k + 1].1 := by
  obtain ⟨i, hi⟩ := exists_partitionPoint hsorted x
  obtain ⟨k, hk, -, hle, hlt⟩ := hi.between hfirst hlast
  exact ⟨k, hk, hle, hlt⟩

/-- **Interpolation finds every entry** that it looks for and a positive divisor. -/
theorem interpAt?_eq_interp {i : ℕ} (h : PartitionPoint (t.points.map Prod.fst) x i) :
    interpAt? (t.points.map Prod.fst) (t.points.map Prod.snd) i x = some (t.interp x) := by
  have hlen := t.length_sub_one_lt
  have hat : ∀ {j : ℕ} (hj : j < t.points.length),
      (t.points.map Prod.fst)[j]? = some t.points[j].1 ∧
        (t.points.map Prod.snd)[j]? = some t.points[j].2 := fun hj => by simp [hj]
  have hzero := hat t.length_pos
  have hend := hat hlen
  rw [getElem_zero] at hzero
  rw [t.getElem_last hlen rfl] at hend
  simp only [interpAt?, List.length_map, hzero.1, hend.1, Option.bind_eq_bind, Option.bind_some]
  split
  · next hle => rw [hzero.2, interp_of_le hle]
  next hfirst =>
  split
  · next hge => rw [hend.2, interp_of_ge (not_le.mp hfirst) hge]
  next hlast =>
  obtain ⟨k, hk, rfl, hle, hlt⟩ := h.between (not_le.mp hfirst) (not_le.mp hlast)
  have hpos : 0 < t.points[k + 1].1 - t.points[k].1 := sub_pos.mpr (hle.trans_lt hlt)
  rw [if_neg (Nat.succ_ne_zero k), Nat.add_sub_cancel]
  simp only [hat hk, hat (Nat.lt_of_succ_lt hk), Option.bind_some, if_pos hpos]
  rw [interp_of_between hsorted hk (not_le.mp hfirst) hle hlt, line_eq (hle.trans_lt hlt)]

/-! ### Values -/

/-- **Interpolation takes no value outside those of the table.** -/
theorem interp_mem (x : α) :
    (∃ p ∈ t.points, p.2 ≤ t.interp x) ∧ ∃ p ∈ t.points, t.interp x ≤ p.2 := by
  have hof : ∀ p ∈ t.points, t.interp x = p.2 →
      (∃ p ∈ t.points, p.2 ≤ t.interp x) ∧ ∃ p ∈ t.points, t.interp x ≤ p.2 :=
    fun p hp heq => ⟨⟨p, hp, heq.ge⟩, p, hp, heq.le⟩
  rcases le_or_gt x t.first.1 with hfirst | hfirst
  · exact hof _ List.mem_cons_self (interp_of_le hfirst)
  rcases le_or_gt t.last.1 x with hlast | hlast
  · exact hof _ t.last_mem_points (interp_of_ge hfirst hlast)
  obtain ⟨k, hk, hle, hlt⟩ := exists_between hsorted hfirst hlast
  obtain ⟨hmin, hmax⟩ := line_mem hle hlt
  rw [interp_of_between hsorted hk hfirst hle hlt]
  have hleft := List.getElem_mem (Nat.lt_of_succ_lt hk)
  have hright := List.getElem_mem hk
  constructor
  · rcases min_le_iff.mp hmin with h | h
    · exact ⟨_, hleft, h⟩
    · exact ⟨_, hright, h⟩
  · rcases le_max_iff.mp hmax with h | h
    · exact ⟨_, hleft, h⟩
    · exact ⟨_, hright, h⟩

/-- At a point inside the range that is the last one of its abscissa, interpolation gives its ordinate. -/
theorem interp_at {i : ℕ} (hi : i < t.points.length) (hfirst : t.first.1 < t.points[i].1)
    (hlast : t.points[i].1 < t.last.1)
    (hlater : ∀ j (hj : j < t.points.length), i < j → t.points[j].1 ≠ t.points[i].1) :
    t.interp t.points[i].1 = t.points[i].2 := by
  obtain ⟨k, hk, hle, hlt⟩ := exists_between hsorted hfirst hlast
  have hki : k = i := by
    rcases lt_trichotomy k i with hbelow | heq | habove
    · exact absurd (points_le hsorted (Nat.succ_le_of_lt hbelow) hi) hlt.not_ge
    · exact heq
    · have hsame := hle.antisymm (points_le hsorted habove.le (Nat.lt_of_succ_lt hk))
      exact absurd hsame (hlater k _ habove)
  subst hki
  rw [interp_of_between hsorted hk hfirst hle hlt, line_left hlt]

/-- **Ordinates that do not descend are interpolated monotonically**, across all jumps. -/
theorem monotone_interp (hrising : (t.points.map Prod.snd).Pairwise (· ≤ ·)) :
    Monotone t.interp := by
  have hrises : ∀ {i j : ℕ} (hij : i ≤ j) (hj : j < t.points.length),
      t.points[i].2 ≤ t.points[j].2 := by
    intro i j hij hj
    rcases hij.eq_or_lt with rfl | hlt
    · exact le_rfl
    · exact List.pairwise_iff_getElem.mp (List.pairwise_map.mp hrising) i j _ hj hlt
  have hlen := t.length_sub_one_lt
  have hbelow : ∀ x, t.first.2 ≤ t.interp x := by
    intro x
    obtain ⟨⟨p, hp, hle⟩, -⟩ := interp_mem hsorted x
    obtain ⟨i, hi, rfl⟩ := List.getElem_of_mem hp
    exact (hrises (Nat.zero_le i) hi).trans hle
  have habove : ∀ x, t.interp x ≤ t.last.2 := by
    intro x
    obtain ⟨-, p, hp, hle⟩ := interp_mem hsorted x
    obtain ⟨i, hi, rfl⟩ := List.getElem_of_mem hp
    refine hle.trans ?_
    rw [← t.getElem_last hlen rfl]
    exact hrises (by omega) hlen
  intro x y hxy
  rcases le_or_gt x t.first.1 with hx | hx
  · rw [interp_of_le hx]
    exact hbelow y
  rcases le_or_gt t.last.1 y with hy | hy
  · rw [interp_of_ge (hx.trans_le hxy) hy]
    exact habove x
  obtain ⟨i, hi, hxi, hix⟩ := exists_between hsorted hx (hxy.trans_lt hy)
  obtain ⟨j, hj, hyj, hjy⟩ := exists_between hsorted (hx.trans_le hxy) hy
  have hij : i ≤ j := by
    by_contra hji
    have hle := points_le hsorted (Nat.succ_le_of_lt (not_le.mp hji)) (Nat.lt_of_succ_lt hi)
    exact (hle.trans (hxi.trans hxy)).not_gt hjy
  have hstep : ∀ {k : ℕ} (hk : k + 1 < t.points.length),
      t.points[k].2 ≤ t.points[k + 1].2 := fun hk =>
    hrises (Nat.le_succ _) hk
  rw [interp_of_between hsorted hi hx hxi hix,
    interp_of_between hsorted hj (hx.trans_le hxy) hyj hjy]
  rcases hij.eq_or_lt with rfl | hlt
  · exact line_mono (hxi.trans_lt hix) (hstep hi) hxy
  · -- the line that is left ends below the start of the one that is reached
    calc line t.points[i] t.points[i + 1] x
        ≤ t.points[i + 1].2 := by
          simpa only [max_eq_right (hstep hi)] using (line_mem hxi hix).2
      _ ≤ t.points[j].2 := hrises hlt _
      _ ≤ line t.points[j] t.points[j + 1] y := by
          simpa only [min_eq_left (hstep hj)] using (line_mem hyj hjy).1

end Ascending

/-! ### The tables of rows -/

/-- **Interpolation follows the points of a table.** For the table of any rows: wherever a search of the
first row ends, interpolation by positions finds what it looks for, with a positive divisor, and gives the
same. Every value lies between two ordinates of the table. Strictly between neighbours the graph runs
inside their segment; at an abscissa inside the range it goes through the last point there; up to the
first abscissa it is at the first point's height, and behind it and from the last abscissa on at the last
point's. If the ordinates do not descend, the interpolation does not either. -/
theorem interp_follows_points {rows : List (List α)} (h : ofRows rows = .ok t) :
    rows = [t.points.map Prod.fst, t.points.map Prod.snd] ∧
    (∀ x, (∃ i, PartitionPoint (t.points.map Prod.fst) x i) ∧
      ∀ i, PartitionPoint (t.points.map Prod.fst) x i →
        interpAt? (t.points.map Prod.fst) (t.points.map Prod.snd) i x = some (t.interp x)) ∧
    (∀ x, (∃ p ∈ t.points, p.2 ≤ t.interp x) ∧ ∃ p ∈ t.points, t.interp x ≤ p.2) ∧
    (∀ x i (hi : i + 1 < t.points.length), t.points[i].1 < x → x < t.points[i + 1].1 →
      (x, t.interp x) ∈ openSegment α t.points[i] t.points[i + 1]) ∧
    (∀ i (hi : i < t.points.length), t.first.1 < t.points[i].1 → t.points[i].1 < t.last.1 →
      (∀ j (hj : j < t.points.length), i < j → t.points[j].1 ≠ t.points[i].1) →
      t.interp t.points[i].1 = t.points[i].2) ∧
    (∀ x ≤ t.first.1, t.interp x = t.first.2) ∧
    (∀ x, t.first.1 < x → t.last.1 ≤ x → t.interp x = t.last.2) ∧
    ((t.points.map Prod.snd).Pairwise (· ≤ ·) → Monotone t.interp) := by
  obtain ⟨hrows, hsorted⟩ := points_of_ofRows h
  refine ⟨hrows, fun x => ⟨exists_partitionPoint hsorted x, fun i hi => ?_⟩, interp_mem hsorted,
    fun x i hi hleft hright => ?_, fun i hi => interp_at hsorted hi, fun x => interp_of_le,
    fun x => interp_of_ge, monotone_interp hsorted⟩
  · exact interpAt?_eq_interp hsorted hi
  · have hfirst : t.first.1 < x :=
      (points_le hsorted (Nat.zero_le i) (Nat.lt_of_succ_lt hi)).trans_lt hleft
    rw [interp_of_between hsorted hi hfirst hleft.le hright]
    exact line_mem_openSegment hleft hright

/-- A table with two points at its first abscissa and two at one inside: the first counts there and the
last here. -/
theorem interp_of_jumping_table : ∃ t : Table ℚ,
    ofRows [[0, 0, 1, 1, 2], [0, 1, 2, 3, 4]] = .ok t ∧ t.interp 0 = 0 ∧ t.interp 1 = 3 ∧
      (1 / 2, t.interp (1 / 2)) ∈ openSegment ℚ ((0, 1) : ℚ × ℚ) (1, 2) ∧ t.interp 5 = 4 ∧
      Monotone t.interp := by
  have hrows : ofRows [[0, 0, 1, 1, 2], [0, 1, 2, 3, 4]] =
      .ok (⟨(0, 0), [(0, 1), (1, 2), (1, 3), (2, 4)]⟩ : Table ℚ) := rfl
  obtain ⟨-, -, -, hsegment, hjump, hfirst, hlast, hmono⟩ := interp_follows_points hrows
  refine ⟨_, hrows, hfirst 0 le_rfl, hjump 3 (by decide) (by decide) (by decide) (by decide),
    hsegment (1 / 2) 1 (by decide) (by decide +kernel) (by decide +kernel),
    hlast 5 (by decide) (by decide), hmono (by decide)⟩

end Table

end PulseControl
