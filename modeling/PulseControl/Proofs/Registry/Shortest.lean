import PulseControl.Proofs.Registry.Search

/-!
# Searches for shortest walks

Linking is given a search for paths, and what it relies on is that the search finds a walk where there is
one and that no other walk is shorter. `PulseControl.DependencyGraph.FindsShortest` says so; which of
several shortest walks is found is left open.

The search that is defined for dependency graphs is of this kind. It goes outwards in layers, and its layer
number `k` consists of the vertices that can be reached in `k` steps and not in fewer. So the first layer
in which the goal shows up tells how far away it is, and the trail that leads there is a shortest walk.

What carries this is a second invariant of the layers, `PulseControl.DependencyGraph.Layered`, on top of
the one for reachability: the trails of a layer are walks of its length, all that is as near has been
seen, and what was seen before the layer is nearer than the layer.

* `PulseControl.Walk`, `PulseControl.ShortestWalk` – walks along any relation;
* `PulseControl.ShortestWalk.nodup` – a shortest walk meets nothing twice;
* `PulseControl.DependencyGraph.FindsShortest` – searches that find a shortest walk where there is one;
* `PulseControl.DependencyGraph.findsShortest_path?` – the search in layers is one of them.
-/

namespace PulseControl

/-! ### Walks -/

section Walks

variable {V : Type} {R S : V → V → Prop} {a b c : V} {p : List V}

/-- **A walk along a relation**, told by all that it meets in order, both ends included. -/
inductive Walk (R : V → V → Prop) : V → V → List V → Prop
  /-- A walk without a step. -/
  | here (a : V) : Walk R a a [a]
  /-- A step in front of a walk. -/
  | step {a b c : V} {p : List V} : R a b → Walk R b c p → Walk R a c (a :: p)

theorem Walk.mono (hRS : ∀ x y, R x y → S x y) (h : Walk R a b p) : Walk S a b p := by
  induction h with
  | here a => exact .here a
  | step hstep _ ih => exact .step (hRS _ _ hstep) ih

/-- A step behind a walk. -/
theorem Walk.concat (h : Walk R a b p) (hbc : R b c) : Walk R a c (p ++ [c]) := by
  induction h with
  | here a => exact .step hbc (.here c)
  | step hstep _ ih => exact .step hstep (ih hbc)

/-- A walk ends where it starts, or with a step. -/
theorem Walk.eq_or_concat (h : Walk R a c p) :
    (a = c ∧ p = [c]) ∨ ∃ b q, Walk R a b q ∧ R b c ∧ p = q ++ [c] := by
  induction h with
  | here a => exact Or.inl ⟨rfl, rfl⟩
  | @step a b c p hstep _ ih =>
    rcases ih with ⟨rfl, rfl⟩ | ⟨b', q, hq, hlast, rfl⟩
    · exact Or.inr ⟨a, [a], .here a, hstep, rfl⟩
    · exact Or.inr ⟨b', a :: q, .step hstep hq, hlast, rfl⟩

/-- A walk tells its end last. -/
theorem Walk.exists_eq_concat (h : Walk R a c p) : ∃ q, p = q ++ [c] := by
  rcases h.eq_or_concat with ⟨-, rfl⟩ | ⟨b, q, -, -, rfl⟩
  · exact ⟨[], rfl⟩
  · exact ⟨q, rfl⟩

/-- From everything that a walk meets there is a walk to its end that is not longer. -/
theorem Walk.exists_suffix (h : Walk R a b p) {x : V} (hx : x ∈ p) :
    ∃ q, Walk R x b q ∧ q.length ≤ p.length := by
  induction h with
  | here a =>
    rw [List.mem_singleton.mp hx]
    exact ⟨[a], .here a, Nat.le_refl _⟩
  | @step a b c p hstep hp ih =>
    rcases List.mem_cons.mp hx with rfl | hx
    · exact ⟨x :: p, .step hstep hp, Nat.le_refl _⟩
    · obtain ⟨q, hq, hlen⟩ := ih hx
      exact ⟨q, hq, Nat.le_succ_of_le hlen⟩

theorem Walk.head? (h : Walk R a b p) : p.head? = some a := by
  cases h with
  | here => rfl
  | step => rfl

/-- A walk that meets more than its start goes on from what it meets next. -/
theorem Walk.tail {x y : V} (h : Walk R a b (x :: p)) (hy : p.head? = some y) :
    R a y ∧ Walk R y b p := by
  cases h with
  | here => cases hy
  | step hstep hp =>
    rw [hp.head?] at hy
    cases hy
    exact ⟨hstep, hp⟩

/-- **A shortest walk** between two ends. -/
structure ShortestWalk (R : V → V → Prop) (a b : V) (p : List V) : Prop where
  walk : Walk R a b p
  /-- No walk between the same ends is shorter. -/
  least : ∀ q, Walk R a b q → p.length ≤ q.length

/-- **A shortest walk meets nothing twice**: it could leave out what lies between the two times. -/
theorem ShortestWalk.nodup (h : ShortestWalk R a b p) : p.Nodup := by
  obtain ⟨hp, hleast⟩ := h
  induction hp with
  | here a => simp
  | @step a b c p hstep hp ih =>
    refine List.nodup_cons.mpr ⟨fun hmem => ?_, ih fun q hq => ?_⟩
    · obtain ⟨q, hq, hlen⟩ := hp.exists_suffix hmem
      have hle := hleast q hq
      rw [List.length_cons] at hle
      omega
    · exact Nat.le_of_succ_le_succ (hleast (a :: q) (.step hstep hq))

end Walks

namespace DependencyGraph

variable {κ : Type} {g : DependencyGraph κ}

/-- **What linking relies on a search for.** -/
structure FindsShortest (find : PathSearch κ) : Prop where
  /-- It finds a walk where there is one. -/
  finds : ∀ (g : DependencyGraph κ) (a b : Nat), g.Reaches a b → ∃ p, find g a b = some p
  /-- What it finds is a walk, and no walk between the same ends is shorter. -/
  shortest : ∀ (g : DependencyGraph κ) (a b : Nat) (p : List Nat),
    find g a b = some p → ShortestWalk g.Edge a b p

/-! ### The trails of a layer -/

/-- A trail that is found behind `t` is `t` with one more vertex. -/
theorem of_mem_growTrail {t t' : Trail} {bs : List Nat} {found : List Trail × List Nat}
    (h : t' ∈ (growTrail t bs found).1) :
    t' ∈ found.1 ∨ (t'.tip ∈ bs ∧ t'.before = t.tip :: t.before) := by
  induction bs generalizing found with
  | nil => exact Or.inl h
  | cons b bs ih =>
    rw [growTrail] at h
    rcases ih h with h | ⟨htip, hbefore⟩
    · split at h
      · exact Or.inl h
      · rcases List.mem_append.mp h with h | h
        · exact Or.inl h
        · rw [List.mem_singleton.mp h]
          exact Or.inr ⟨List.mem_cons_self, rfl⟩
    · exact Or.inr ⟨List.mem_cons_of_mem _ htip, hbefore⟩

theorem of_mem_growFrom {t' : Trail} {layer : List Trail} {found : List Trail × List Nat}
    (h : t' ∈ (g.growFrom layer found).1) :
    t' ∈ found.1 ∨ ∃ t ∈ layer, g.Edge t.tip t'.tip ∧ t'.before = t.tip :: t.before := by
  induction layer generalizing found with
  | nil => exact Or.inl h
  | cons t layer ih =>
    rw [growFrom_cons] at h
    rcases ih h with h | ⟨t₁, ht₁, he, hbefore⟩
    · rcases of_mem_growTrail h with h | ⟨htip, hbefore⟩
      · exact Or.inl h
      · exact Or.inr ⟨t, List.mem_cons_self, mem_successors.mp htip, hbefore⟩
    · exact Or.inr ⟨t₁, List.mem_cons_of_mem _ ht₁, he, hbefore⟩

/-- **A trail of the next layer** is one of the current layer with one more edge. -/
theorem of_mem_grow {t' : Trail} {layer : List Trail} {seen : List Nat}
    (h : t' ∈ (g.grow layer seen).1) :
    ∃ t ∈ layer, g.Edge t.tip t'.tip ∧ t'.vertices = t.vertices ++ [t'.tip] := by
  rcases of_mem_growFrom h with h | ⟨t, ht, he, hbefore⟩
  · cases h
  · refine ⟨t, ht, he, ?_⟩
    rw [Trail.vertices, Trail.vertices, hbefore, List.reverse_cons]

/-! ### Distances -/

/-- **The layers are told apart by their distance** from `a`: the layer number `k`, with all vertices
seen so far. -/
structure Layered (g : DependencyGraph κ) (a k : Nat) (layer : List Trail) (seen : List Nat) :
    Prop where
  explored : g.Explored a layer seen
  /-- The trails of the layer are walks of `k` steps. -/
  trails : ∀ t ∈ layer, Walk g.Edge a t.tip t.vertices ∧ t.vertices.length = k + 1
  /-- All that can be reached in so many steps has been seen. -/
  near : ∀ v p, Walk g.Edge a v p → p.length ≤ k + 1 → v ∈ seen
  /-- What has been seen before the layer can be reached in fewer steps. -/
  nearer : ∀ v ∈ seen, (∃ t ∈ layer, t.tip = v) ∨ ∃ p, Walk g.Edge a v p ∧ p.length ≤ k

theorem layered_start (a : Nat) : g.Layered a 0 [⟨a, []⟩] [a] where
  explored := explored_start a
  trails t ht := by
    rw [List.mem_singleton.mp ht]
    exact ⟨.here a, rfl⟩
  near v p hp hlen := by
    rcases hp.eq_or_concat with ⟨rfl, -⟩ | ⟨b, q, hq, -, rfl⟩
    · exact List.mem_singleton.mpr rfl
    · -- a walk with a step meets more than one vertex
      obtain ⟨r, rfl⟩ := hq.exists_eq_concat
      simp at hlen
  nearer v hv := Or.inl ⟨⟨a, []⟩, List.mem_singleton.mpr rfl, (List.mem_singleton.mp hv).symm⟩

/-- The next layer lies one step farther away. -/
theorem Layered.grow {a k : Nat} {layer : List Trail} {seen : List Nat}
    (h : g.Layered a k layer seen) :
    g.Layered a (k + 1) (g.grow layer seen).1 (g.grow layer seen).2 where
  explored := h.explored.grow
  trails t' ht' := by
    obtain ⟨t, ht, he, hvertices⟩ := of_mem_grow ht'
    obtain ⟨hwalk, hlen⟩ := h.trails t ht
    rw [hvertices]
    exact ⟨hwalk.concat he, by rw [List.length_append, hlen, List.length_singleton]⟩
  near v p hp hlen := by
    refine mem_grow.mpr ?_
    rcases hp.eq_or_concat with ⟨rfl, -⟩ | ⟨u, q, hq, he, rfl⟩
    · exact Or.inl h.explored.start
    · -- the last step starts at a vertex that has been seen, whose edges have been followed by now
      have hqlen : q.length ≤ k + 1 := by
        rw [List.length_append, List.length_singleton] at hlen
        omega
      rcases h.explored.closed u (h.near u q hq hqlen) with ⟨t, ht, rfl⟩ | hclosed
      · exact Or.inr ⟨t, ht, he⟩
      · exact Or.inl (hclosed v he)
  nearer v hv := by
    rw [grow_seen] at hv
    rcases List.mem_append.mp hv with hv | hv
    · exact Or.inl (List.mem_map.mp (List.mem_reverse.mp hv))
    · rcases h.nearer v hv with ⟨t, ht, rfl⟩ | ⟨p, hp, hlen⟩
      · obtain ⟨hwalk, hlen⟩ := h.trails t ht
        exact Or.inr ⟨t.vertices, hwalk, Nat.le_of_eq hlen⟩
      · exact Or.inr ⟨p, hp, Nat.le_succ_of_le hlen⟩

/-- A goal that is not nearer than the layer and not in it lies behind it. -/
theorem Layered.lt_length {a k goal : Nat} {layer : List Trail} {seen : List Nat}
    (h : g.Layered a k layer seen) (hfar : ∀ q, Walk g.Edge a goal q → k < q.length)
    (hnot : ∀ t ∈ layer, t.tip ≠ goal) {q : List Nat} (hq : Walk g.Edge a goal q) :
    k + 1 < q.length := by
  by_contra hle
  rcases h.nearer goal (h.near goal q hq (Nat.not_lt.mp hle)) with ⟨t, ht, htip⟩ | ⟨p, hp, hlen⟩
  · exact hnot t ht htip
  · exact absurd (hfar p hp) (Nat.not_lt.mpr hlen)

/-- From a layer that is not behind the goal, the search finds a shortest walk if it finds one. -/
theorem search_shortest {a goal k fuel : Nat} {layer : List Trail} {seen p : List Nat}
    (h : g.Layered a k layer seen) (hfar : ∀ q, Walk g.Edge a goal q → k < q.length)
    (hp : g.search goal fuel layer seen = some p) : ShortestWalk g.Edge a goal p := by
  induction fuel generalizing k layer seen with
  | zero => cases hp
  | succ fuel ih =>
    rw [search] at hp
    cases hfind : layer.find? fun t => t.tip = goal with
    | some t =>
      rw [hfind] at hp
      cases hp
      have htip : t.tip = goal := by simpa using List.find?_some hfind
      obtain ⟨hwalk, hlen⟩ := h.trails t (List.mem_of_find?_eq_some hfind)
      refine ⟨htip ▸ hwalk, fun q hq => ?_⟩
      rw [hlen]
      exact hfar q hq
    | none =>
      have hnot : ∀ t ∈ layer, t.tip ≠ goal := fun t ht => by
        simpa using List.find?_eq_none.mp hfind t ht
      simp only [hfind] at hp
      split at hp
      · cases hp
      · exact ih h.grow (fun q hq => h.lt_length hfar hnot hq) hp

/-- **The search in layers finds a shortest walk** where there is a walk. -/
theorem findsShortest_path? : FindsShortest (path? : PathSearch κ) where
  finds _ _ _ h := Option.isSome_iff_exists.mp (hasPath_iff.mpr h)
  shortest g a b p hp := by
    refine search_shortest (layered_start a) (fun q hq => ?_) hp
    obtain ⟨r, rfl⟩ := hq.exists_eq_concat
    simp

end DependencyGraph

end PulseControl
