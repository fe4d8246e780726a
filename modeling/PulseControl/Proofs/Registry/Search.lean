import PulseControl.Registry.Graph
import Mathlib.Data.List.Perm.Subperm
import Mathlib.Logic.Relation

/-!
# What the search for a path finds

The search decides reachability. What carries it is an invariant of its layers,
`PulseControl.DependencyGraph.Explored`: every vertex seen can be reached, and the edges behind it lead
to vertices seen as well, unless it lies in the layer that is looked at now. When no vertex is new the
vertices seen are closed under edges, so a goal that is not among them cannot be reached.

The number of layers is bounded because each of them sees a new vertex, and apart from the start every
vertex seen is the end of an edge.

* `PulseControl.DependencyGraph.hasPath_iff` – the search finds a path exactly where there is one.
-/

namespace PulseControl.DependencyGraph

variable {κ : Type} {g : DependencyGraph κ}

/-- There is an edge from `a` to `b`. -/
def Edge (g : DependencyGraph κ) (a b : Nat) : Prop := (a, b) ∈ g.edges

/-- The vertex `b` can be reached from `a` along edges, possibly along none. -/
abbrev Reaches (g : DependencyGraph κ) : Nat → Nat → Prop := Relation.ReflTransGen g.Edge

theorem mem_successors {a b : Nat} : b ∈ g.successors a ↔ g.Edge a b := by
  rw [successors, List.mem_filterMap, Edge]
  constructor
  · rintro ⟨⟨c, d⟩, he, h⟩
    split at h
    · next hc =>
      cases h
      exact hc ▸ List.mem_reverse.mp he
    · cases h
  · intro he
    exact ⟨(a, b), List.mem_reverse.mpr he, if_pos rfl⟩

/-! ### One layer -/

/-- The vertices seen behind `t` are those seen before and those to which its edges lead. -/
theorem mem_growTrail {t : Trail} {bs : List Nat} {found : List Trail × List Nat} {v : Nat} :
    v ∈ (growTrail t bs found).2 ↔ v ∈ found.2 ∨ v ∈ bs := by
  induction bs generalizing found with
  | nil => simp [growTrail]
  | cons b bs ih =>
    rw [growTrail, ih, List.mem_cons]
    split
    · next hb =>
      rw [List.contains_iff_mem] at hb
      constructor
      · exact fun h => h.imp_right Or.inr
      · rintro (h | rfl | h)
        · exact Or.inl h
        · exact Or.inl hb
        · exact Or.inr h
    · rw [List.mem_cons]
      tauto

/-- The new trails lead to the new vertices, one to each. -/
theorem growTrail_seen {t : Trail} {bs : List Nat} {found : List Trail × List Nat}
    {seen : List Nat} (h : found.2 = (found.1.map Trail.tip).reverse ++ seen) :
    (growTrail t bs found).2 = ((growTrail t bs found).1.map Trail.tip).reverse ++ seen := by
  induction bs generalizing found with
  | nil => exact h
  | cons b bs ih =>
    rw [growTrail]
    refine ih ?_
    split
    · exact h
    · simp [h]

theorem nodup_growTrail {t : Trail} {bs : List Nat} {found : List Trail × List Nat}
    (h : found.2.Nodup) : (growTrail t bs found).2.Nodup := by
  induction bs generalizing found with
  | nil => exact h
  | cons b bs ih =>
    rw [growTrail]
    refine ih ?_
    split
    · exact h
    · next hb => exact List.nodup_cons.mpr ⟨fun hmem => hb (List.contains_iff_mem.mpr hmem), h⟩

/-- What is found behind some trails, starting from what was found behind others. -/
def growFrom (g : DependencyGraph κ) (layer : List Trail) (found : List Trail × List Nat) :
    List Trail × List Nat :=
  layer.foldl (fun found t => growTrail t (g.successors t.tip) found) found

theorem growFrom_cons (t : Trail) (layer : List Trail) (found : List Trail × List Nat) :
    g.growFrom (t :: layer) found = g.growFrom layer (growTrail t (g.successors t.tip) found) :=
  rfl

theorem mem_growFrom {layer : List Trail} {found : List Trail × List Nat} {v : Nat} :
    v ∈ (g.growFrom layer found).2 ↔ v ∈ found.2 ∨ ∃ t ∈ layer, g.Edge t.tip v := by
  induction layer generalizing found with
  | nil => simp [growFrom]
  | cons t layer ih =>
    rw [growFrom_cons, ih, mem_growTrail, mem_successors, or_assoc, List.exists_mem_cons_iff]

theorem growFrom_seen {layer : List Trail} {found : List Trail × List Nat} {seen : List Nat}
    (h : found.2 = (found.1.map Trail.tip).reverse ++ seen) :
    (g.growFrom layer found).2 = ((g.growFrom layer found).1.map Trail.tip).reverse ++ seen := by
  induction layer generalizing found with
  | nil => exact h
  | cons t layer ih => exact ih (growTrail_seen h)

theorem nodup_growFrom {layer : List Trail} {found : List Trail × List Nat} (h : found.2.Nodup) :
    (g.growFrom layer found).2.Nodup := by
  induction layer generalizing found with
  | nil => exact h
  | cons t layer ih => exact ih (nodup_growTrail h)

/-- The vertices seen with the next layer: those seen before and the ends of the edges behind the
current layer. -/
theorem mem_grow {layer : List Trail} {seen : List Nat} {v : Nat} :
    v ∈ (g.grow layer seen).2 ↔ v ∈ seen ∨ ∃ t ∈ layer, g.Edge t.tip v :=
  mem_growFrom

/-- The vertices seen with the next layer are its tips on top of those seen before. -/
theorem grow_seen (layer : List Trail) (seen : List Nat) :
    (g.grow layer seen).2 = ((g.grow layer seen).1.map Trail.tip).reverse ++ seen :=
  growFrom_seen rfl

/-! ### The search -/

/-- **The invariant of the search** from `a`, with a layer under inspection and the vertices seen. -/
structure Explored (g : DependencyGraph κ) (a : Nat) (layer : List Trail) (seen : List Nat) :
    Prop where
  /-- The start has been seen. -/
  start : a ∈ seen
  /-- No vertex has been seen twice. -/
  nodup : seen.Nodup
  /-- The layer consists of vertices seen. -/
  tips : ∀ t ∈ layer, t.tip ∈ seen
  /-- All vertices seen can be reached. -/
  reached : ∀ v ∈ seen, g.Reaches a v
  /-- The edges behind a vertex seen have been followed, except behind the layer. -/
  closed : ∀ v ∈ seen, (∃ t ∈ layer, t.tip = v) ∨ ∀ w, g.Edge v w → w ∈ seen

theorem explored_start (a : Nat) : g.Explored a [⟨a, []⟩] [a] where
  start := List.mem_singleton.mpr rfl
  nodup := by simp
  tips t ht := by
    rw [List.mem_singleton.mp ht]
    exact List.mem_singleton.mpr rfl
  reached v hv := by
    rw [List.mem_singleton.mp hv]
  closed v hv := Or.inl ⟨⟨a, []⟩, List.mem_singleton.mpr rfl, (List.mem_singleton.mp hv).symm⟩

/-- The next layer keeps the invariant. -/
theorem Explored.grow {a : Nat} {layer : List Trail} {seen : List Nat}
    (h : g.Explored a layer seen) :
    g.Explored a (g.grow layer seen).1 (g.grow layer seen).2 where
  start := mem_grow.mpr (Or.inl h.start)
  nodup := nodup_growFrom h.nodup
  tips t ht := by
    rw [grow_seen]
    exact List.mem_append_left _ (List.mem_reverse.mpr (List.mem_map_of_mem ht))
  reached v hv := by
    rcases mem_grow.mp hv with hv | ⟨t, ht, he⟩
    · exact h.reached v hv
    · exact (h.reached _ (h.tips t ht)).tail he
  closed v hv := by
    rw [grow_seen] at hv
    rcases List.mem_append.mp hv with hv | hv
    · exact Or.inl (List.mem_map.mp (List.mem_reverse.mp hv))
    · -- an older vertex: if it was in the layer, its edges have just been followed
      refine Or.inr fun w he => mem_grow.mpr ?_
      rcases h.closed v hv with ⟨t, ht, rfl⟩ | hclosed
      · exact Or.inr ⟨t, ht, he⟩
      · exact Or.inl (hclosed w he)

/-- Apart from the start, every vertex that can be reached is the end of an edge, so there are not more
vertices seen than edges and the start. -/
theorem Explored.length_le {a : Nat} {layer : List Trail} {seen : List Nat}
    (h : g.Explored a layer seen) : seen.length ≤ g.edges.length + 1 := by
  have hsub : seen ⊆ a :: g.edges.map Prod.snd := by
    intro v hv
    rcases Relation.ReflTransGen.cases_tail (h.reached v hv) with rfl | ⟨u, -, he⟩
    · exact List.mem_cons_self
    · exact List.mem_cons_of_mem _ (List.mem_map_of_mem (f := Prod.snd) he)
  simpa using (List.subperm_of_subset h.nodup hsub).length_le

/-- Where nothing is left to look at, everything that can be reached has been seen. -/
theorem Explored.mem_of_reaches {a v : Nat} {seen : List Nat} (h : g.Explored a [] seen)
    (hv : g.Reaches a v) : v ∈ seen := by
  induction hv with
  | refl => exact h.start
  | tail _ he ih =>
    rcases h.closed _ ih with ⟨t, ht, -⟩ | hclosed
    · cases ht
    · exact hclosed _ he

/-- The search goes on until it meets the goal or has seen all that can be reached: the fuel suffices for
the layers that are still to come. -/
theorem search_isSome_iff {a goal fuel : Nat} {layer : List Trail} {seen : List Nat}
    (h : g.Explored a layer seen) (hgoal : goal ∈ seen → ∃ t ∈ layer, t.tip = goal)
    (hfuel : g.edges.length + 2 ≤ fuel + seen.length) :
    (g.search goal fuel layer seen).isSome = true ↔ g.Reaches a goal := by
  induction fuel generalizing layer seen with
  | zero =>
    -- the fuel cannot run out: more vertices would have been seen than there are
    have := h.length_le
    omega
  | succ fuel ih =>
    rw [search]
    cases hfind : layer.find? fun t => t.tip = goal with
    | some t =>
      have htip : t.tip = goal := by simpa using List.find?_some hfind
      have hmem : goal ∈ seen := htip ▸ h.tips t (List.mem_of_find?_eq_some hfind)
      exact iff_of_true rfl (h.reached _ hmem)
    | none =>
      have hnot : goal ∉ seen := fun hmem => by
        obtain ⟨t, ht, htip⟩ := hgoal hmem
        exact absurd (List.find?_eq_none.mp hfind t ht) (by simp [htip])
      simp only
      split
      · -- nothing new behind the layer, so all that can be reached has been seen
        next hempty =>
        have hnil : (g.grow layer seen).1 = [] := List.isEmpty_iff.mp hempty
        have hgrown := h.grow
        have hseen : (g.grow layer seen).2 = seen := by
          rw [grow_seen, hnil]
          rfl
        rw [hnil, hseen] at hgrown
        exact iff_of_false Bool.false_ne_true fun hreach => hnot (hgrown.mem_of_reaches hreach)
      · next hne =>
        refine ih h.grow (fun hmem => ?_) ?_
        · rw [grow_seen] at hmem
          rcases List.mem_append.mp hmem with hmem | hmem
          · exact List.mem_map.mp (List.mem_reverse.mp hmem)
          · exact absurd hmem hnot
        · -- a layer with something in it makes up for the fuel that it costs
          have hpos : 0 < (g.grow layer seen).1.length := by
            rw [List.length_pos_iff]
            exact fun hnil => hne (List.isEmpty_iff.mpr hnil)
          rw [grow_seen, List.length_append, List.length_reverse, List.length_map]
          omega

/-- **The search decides reachability.** -/
theorem hasPath_iff {a b : Nat} : g.hasPath a b = true ↔ g.Reaches a b := by
  refine search_isSome_iff (explored_start a) (fun hb => ?_) ?_
  · exact ⟨⟨a, []⟩, List.mem_singleton.mpr rfl, (List.mem_singleton.mp hb).symm⟩
  · simp only [List.length_singleton]
    omega

end PulseControl.DependencyGraph
