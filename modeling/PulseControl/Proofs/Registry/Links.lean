import PulseControl.Proofs.Registry.Search
import PulseControl.Registry.Builder

/-!
# The references that a builder records

A builder keeps the references between gates as edges between numbered vertices. Here they are read back
as a relation between gates: `PulseControl.Registry.Builder.Records b R` says that the graph of `b` has
an edge for each two gates related by `R`, and no other edge.

Linking a definition either adds all its references to the relation, or finds one that closes a circle
and takes back the edges that it has added. Since these are the last of the graph and are taken back
latest first, no other edge changes its number: `PulseControl.DependencyGraph.removeEdge_addEdge` is all
that the argument needs to know about numbers. All this is the same whichever search tells the circle.

* `PulseControl.Registry.Builder.link_spec` – what linking does in both cases;
* `PulseControl.Registry.Builder.Stops` – the step at which it gives up, and what it reports;
* `PulseControl.Registry.Builder.linkFrom_search` – the search does not matter for anything else;
* `PulseControl.Registry.acyclic_refer` – a new reference closes a circle only if there is a way back.
-/

namespace PulseControl

namespace DependencyGraph

variable {κ : Type} {g : DependencyGraph κ}

/-- Taking away the edge added last restores the graph. -/
theorem removeEdge_addEdge (g : DependencyGraph κ) (a b : Nat) :
    (g.addEdge a b).2.removeEdge (g.addEdge a b).1 = g := by
  obtain ⟨names, edges⟩ := g
  simp [addEdge, removeEdge]

/-- Which edges are left depends on the edges alone. -/
theorem edges_removeEdges_congr {g g' : DependencyGraph κ} (h : g.edges = g'.edges)
    (es : List Nat) : (g.removeEdges es).edges = (g'.removeEdges es).edges := by
  induction es generalizing g g' with
  | nil => exact h
  | cons e es ih =>
    refine ih ?_
    simp only [removeEdge, h]
    split
    · split <;> simp [h]
    · exact h

/-- Taking away edges keeps the names. -/
theorem names_removeEdges (es : List Nat) : (g.removeEdges es).names = g.names := by
  induction es generalizing g with
  | nil => rfl
  | cons e es ih =>
    refine ih.trans ?_
    rw [removeEdge]
    split
    · split <;> rfl
    · rfl

theorem findEdge?_isSome {a b : Nat} : (g.findEdge? a b).isSome = true ↔ g.Edge a b := by
  rw [findEdge?, List.isSome_idxOf?, Edge]

end DependencyGraph

namespace Registry

/-! ### References added to a relation -/

section Relations

variable {K : Type} {R : K → K → Prop} {a : K}

/-- The relation with references from `a` to some others. -/
def Refer (R : K → K → Prop) (a : K) (bs : List K) (x y : K) : Prop := R x y ∨ (x = a ∧ y ∈ bs)

/-- No chain of references leads back to where it starts. -/
def Acyclic (R : K → K → Prop) : Prop := ∀ x, ¬Relation.TransGen R x x

theorem refer_nil : Refer R a [] = R := by
  funext x y
  simp [Refer]

theorem refer_refer (bs cs : List K) : Refer (Refer R a bs) a cs = Refer R a (bs ++ cs) := by
  funext x y
  simp only [Refer, List.mem_append, eq_iff_iff]
  tauto

/-- References that start at `a` do not help to get there. -/
theorem reaches_refer_iff {bs : List K} {x : K} :
    Relation.ReflTransGen (Refer R a bs) x a ↔ Relation.ReflTransGen R x a := by
  constructor
  · intro h
    induction h using Relation.ReflTransGen.head_induction_on with
    | refl => exact .refl
    | head hstep _ ih =>
      rcases hstep with hR | ⟨rfl, -⟩
      · exact ih.head hR
      · exact .refl
  · exact Relation.ReflTransGen.mono (fun _ _ hR => Or.inl hR) x a

/-- A chain that uses the new reference from `a` to `b` leads to `a` and goes on from `b`. -/
theorem transGen_refer {b x y : K} (h : Relation.TransGen (Refer R a [b]) x y) :
    Relation.TransGen R x y ∨ (Relation.ReflTransGen R x a ∧ Relation.ReflTransGen R b y) := by
  induction h with
  | single hstep =>
    rcases hstep with hR | ⟨rfl, hy⟩
    · exact Or.inl (.single hR)
    · rw [List.mem_singleton.mp hy]
      exact Or.inr ⟨.refl, .refl⟩
  | tail _ hstep ih =>
    rcases hstep with hR | ⟨rfl, hy⟩
    · rcases ih with ih | ⟨hxa, hby⟩
      · exact Or.inl (ih.tail hR)
      · exact Or.inr ⟨hxa, hby.tail hR⟩
    · rw [List.mem_singleton.mp hy]
      rcases ih with ih | ⟨hxa, -⟩
      · exact Or.inr ⟨ih.to_reflTransGen, .refl⟩
      · exact Or.inr ⟨hxa, .refl⟩

/-- **A new reference keeps a relation acyclic** where there is no way back. -/
theorem acyclic_refer {b : K} (hR : Acyclic R) (hback : ¬Relation.ReflTransGen R b a) :
    Acyclic (Refer R a [b]) := by
  intro x hx
  rcases transGen_refer hx with hx | ⟨hxa, hbx⟩
  · exact hR x hx
  · exact hback (hbx.trans hxa)

/-- A reference that is there already has no way back. -/
theorem Acyclic.not_reaches {b : K} (hR : Acyclic R) (hab : R a b) :
    ¬Relation.ReflTransGen R b a :=
  fun hback => hR a (Relation.TransGen.head' hab hback)

end Relations

/-! ### Vertices and their names -/

namespace Builder

variable {α : Type}

/-- The vertices of the gates mentioned are those that carry their names. -/
def Named (b : Builder α) : Prop :=
  ∀ (key : GateKey) (v : Nat), b.vertices[key]? = some v ↔ b.graph.names[v]? = some key

/-- What linking leaves of a builder apart from its edges: definitions and vertices stay, and new
vertices may have come. -/
structure Grows (b b' : Builder α) : Prop where
  entries : b'.entries = b.entries
  order : b'.order = b.order
  names : ∀ (v : Nat) (key : GateKey), b.graph.names[v]? = some key → b'.graph.names[v]? = some key
  named : b'.Named

theorem Named.grows {b : Builder α} (h : b.Named) : b.Grows b := ⟨rfl, rfl, fun _ _ h => h, h⟩

theorem Grows.trans {b b' b'' : Builder α} (h : b.Grows b') (h' : b'.Grows b'') : b.Grows b'' where
  entries := h'.entries.trans h.entries
  order := h'.order.trans h.order
  names v key hv := h'.names v key (h.names v key hv)
  named := h'.named

/-- Other edges between the same vertices. -/
theorem Grows.withEdges {b b' : Builder α} (h : b.Grows b') {g : DependencyGraph GateKey}
    (hg : g.names = b'.graph.names) : b.Grows { b' with graph := g } where
  entries := h.entries
  order := h.order
  names v key hv := by
    rw [show ({ b' with graph := g } : Builder α).graph.names = b'.graph.names from hg]
    exact h.names v key hv
  named key v := by
    rw [show ({ b' with graph := g } : Builder α).graph.names = b'.graph.names from hg]
    exact h.named key v

/-- The vertex of a gate carries its name, and finding it adds no edge. -/
theorem vertex_spec {b : Builder α} (hb : b.Named) (key : GateKey) :
    b.Grows (b.vertex key).2 ∧ (b.vertex key).2.graph.edges = b.graph.edges ∧
      (b.vertex key).2.graph.names[(b.vertex key).1]? = some key := by
  rw [vertex]
  cases hkey : b.vertices[key]? with
  | some v => exact ⟨hb.grows, rfl, (hb key v).mp hkey⟩
  | none =>
    have hnew : ∀ (v : Nat) (key' : GateKey), (b.graph.names ++ [key])[v]? = some key' ↔
        b.graph.names[v]? = some key' ∨ (v = b.graph.names.length ∧ key' = key) := by
      intro v key'
      rcases Nat.lt_trichotomy v b.graph.names.length with hv | rfl | hv
      · rw [List.getElem?_append_left hv]
        exact ⟨Or.inl, fun h => h.resolve_right fun h => absurd h.1 (Nat.ne_of_lt hv)⟩
      · rw [List.getElem?_concat_length, List.getElem?_eq_none (Nat.le_refl _)]
        simp [eq_comm]
      · rw [List.getElem?_eq_none (by simp; omega), List.getElem?_eq_none (Nat.le_of_lt hv)]
        simp [Nat.ne_of_gt hv]
    refine ⟨⟨rfl, rfl, fun v key' hv => (hnew v key').mpr (Or.inl hv), fun key' v => ?_⟩, rfl,
      (hnew _ key).mpr (Or.inr ⟨rfl, rfl⟩)⟩
    refine Iff.trans ?_ (hnew v key').symm
    simp only [DependencyGraph.addVertex, Std.ExtTreeMap.getElem?_insert,
      Std.LawfulEqOrd.compare_eq_iff_eq]
    split
    · next heq =>
      subst heq
      have hnone : ∀ v, b.graph.names[v]? ≠ some key := fun v hv => by
        rw [← hb key v, hkey] at hv
        cases hv
      simp [hnone, eq_comm]
    · next hne =>
      rw [hb key' v]
      exact ⟨Or.inl, fun h => h.resolve_right fun h => hne h.2.symm⟩

/-! ### The relation that the edges stand for -/

/-- **The edges of the graph are the pairs of a relation**: each is between two gates that are related,
and there is one for each such pair. -/
structure Records (b : Builder α) (R : GateKey → GateKey → Prop) : Prop where
  named : b.Named
  sound : ∀ v w, b.graph.Edge v w →
    ∃ x y, R x y ∧ b.graph.names[v]? = some x ∧ b.graph.names[w]? = some y
  complete : ∀ x y, R x y →
    ∃ v w, b.graph.Edge v w ∧ b.graph.names[v]? = some x ∧ b.graph.names[w]? = some y

variable {b b' : Builder α} {R : GateKey → GateKey → Prop}

/-- The same edges among more vertices stand for the same relation. -/
theorem Records.grows (h : b.Records R) (hg : b.Grows b') (he : b'.graph.edges = b.graph.edges) :
    b'.Records R where
  named := hg.named
  sound v w hvw := by
    rw [DependencyGraph.Edge, he] at hvw
    obtain ⟨x, y, hR, hv, hw⟩ := h.sound v w hvw
    exact ⟨x, y, hR, hg.names v x hv, hg.names w y hw⟩
  complete x y hR := by
    obtain ⟨v, w, hvw, hv, hw⟩ := h.complete x y hR
    refine ⟨v, w, ?_, hg.names v x hv, hg.names w y hw⟩
    rw [DependencyGraph.Edge, he]
    exact hvw

/-- A gate has one vertex. -/
theorem Named.vertex_unique (h : b.Named) {x : GateKey} {v w : Nat}
    (hv : b.graph.names[v]? = some x) (hw : b.graph.names[w]? = some x) : v = w :=
  Option.some.inj (((h x v).mpr hv).symm.trans ((h x w).mpr hw))

theorem Records.edge_iff (h : b.Records R) {v w : Nat} {x y : GateKey}
    (hv : b.graph.names[v]? = some x) (hw : b.graph.names[w]? = some y) :
    b.graph.Edge v w ↔ R x y := by
  constructor
  · intro hvw
    obtain ⟨x', y', hR, hv', hw'⟩ := h.sound v w hvw
    rw [hv] at hv'
    rw [hw] at hw'
    cases hv'
    cases hw'
    exact hR
  · intro hR
    obtain ⟨v', w', hvw, hv', hw'⟩ := h.complete x y hR
    rw [h.named.vertex_unique hv hv', h.named.vertex_unique hw hw']
    exact hvw

/-- Paths between vertices are chains of references. -/
theorem Records.reaches_iff (h : b.Records R) {v w : Nat} {x y : GateKey}
    (hv : b.graph.names[v]? = some x) (hw : b.graph.names[w]? = some y) :
    b.graph.Reaches v w ↔ Relation.ReflTransGen R x y := by
  constructor
  · intro hvw
    induction hvw generalizing y with
    | refl =>
      rw [hv] at hw
      cases hw
      exact .refl
    | tail _ hstep ih =>
      obtain ⟨x', y', hR, hu, hw'⟩ := h.sound _ _ hstep
      rw [hw] at hw'
      cases hw'
      exact (ih hu).tail hR
  · intro hxy
    induction hxy generalizing w with
    | refl =>
      rw [h.named.vertex_unique hv hw]
    | tail _ hR ih =>
      obtain ⟨u, w', hstep, hu, hw'⟩ := h.complete _ _ hR
      rw [h.named.vertex_unique hw hw']
      exact (ih hu).tail hstep

/-- One more edge stands for one more reference. -/
theorem Records.addEdge (h : b.Records R) {v w : Nat} {x y : GateKey}
    (hv : b.graph.names[v]? = some x) (hw : b.graph.names[w]? = some y) :
    Records { b with graph := (b.graph.addEdge v w).2 } (Refer R x [y]) where
  named := h.named
  sound v' w' he := by
    rcases List.mem_append.mp he with he | he
    · obtain ⟨x', y', hR, hv', hw'⟩ := h.sound v' w' he
      exact ⟨x', y', Or.inl hR, hv', hw'⟩
    · cases List.mem_singleton.mp he
      exact ⟨x, y, Or.inr ⟨rfl, List.mem_singleton.mpr rfl⟩, hv, hw⟩
  complete x' y' hR := by
    rcases hR with hR | ⟨rfl, hy⟩
    · obtain ⟨v', w', he, hv', hw'⟩ := h.complete x' y' hR
      exact ⟨v', w', List.mem_append_left _ he, hv', hw'⟩
    · rw [List.mem_singleton.mp hy]
      exact ⟨v, w, List.mem_append_right _ (List.mem_singleton.mpr rfl), hv, hw⟩

/-! ### Linking -/

variable {find : DependencyGraph.PathSearch GateKey}

/-- **Where linking stops**: at the first step that leads back to the gate `key`. The error tells the
circle that its edge would close, in a graph with the references of the steps before it. -/
inductive Stops (find : DependencyGraph.PathSearch GateKey) (R : GateKey → GateKey → Prop)
    (key : GateKey) : List GateKey → GateError α → Prop
  /-- The steps `before` do not lead back, and the step to `y` does. -/
  | leadsBack {b : Builder α} {before after : List GateKey} {y : GateKey} {v w : Nat} :
    (∀ z ∈ before, ¬Relation.ReflTransGen R z key) → Relation.ReflTransGen R y key →
    b.Records (Refer R key before) → b.graph.names[v]? = some key → b.graph.names[w]? = some y →
    Stops find R key (before ++ y :: after) (.gateCycle (b.graph.circle find v w))

/-- Linking stops only for a circle. -/
theorem Stops.exists_circle {key : GateKey} {keys : List GateKey} {e : GateError α}
    (h : Stops find R key keys e) : ∃ cycle, e = .gateCycle cycle := by
  cases h
  exact ⟨_, rfl⟩

theorem Stops.exists_reaches {key : GateKey} {keys : List GateKey} {e : GateError α}
    (h : Stops find R key keys e) : ∃ y ∈ keys, Relation.ReflTransGen R y key := by
  obtain ⟨-, hback, -⟩ := h
  exact ⟨_, List.mem_append_right _ List.mem_cons_self, hback⟩

/-- Behind a step that does not lead back, linking goes on with its reference. -/
theorem Stops.cons {key y : GateKey} {ys : List GateKey} {e : GateError α}
    (hy : ¬Relation.ReflTransGen R y key) (h : Stops find (Refer R key [y]) key ys e) :
    Stops find R key (y :: ys) e := by
  obtain ⟨hbefore, hback, hrec, hv, hw⟩ := h
  rw [refer_refer] at hrec
  rw [← List.cons_append]
  refine .leadsBack (fun z hz => ?_) (reaches_refer_iff.mp hback) hrec hv hw
  rcases List.mem_cons.mp hz with rfl | hz
  · exact hy
  · exact fun hreach => hbefore z hz (reaches_refer_iff.mpr hreach)

/-- What linking the steps of the gate `key` gives, from a builder that records the relation `R` and
whose graph has the edges `base` without those added for the gate before. -/
def LinkOutcome (find : DependencyGraph.PathSearch GateKey) (b : Builder α)
    (R : GateKey → GateKey → Prop) (key : GateKey) (keys : List GateKey) (base : List (Nat × Nat)) :
    Except (GateError α) Unit × Builder α → Prop
  | (.ok (), b') => b.Grows b' ∧ b'.Records (Refer R key keys) ∧ Acyclic (Refer R key keys) ∧
      ∀ y ∈ keys, ¬Relation.ReflTransGen R y key
  | (.error e, b') => b.Grows b' ∧ b'.graph.edges = base ∧ Stops find R key keys e

/-- What comes of the later steps holds of all, once the first is dealt with. -/
theorem LinkOutcome.cons {b₁ : Builder α} {key y : GateKey} {ys : List GateKey}
    {base : List (Nat × Nat)} {outcome : Except (GateError α) Unit × Builder α}
    (hg : b.Grows b₁) (hy : ¬Relation.ReflTransGen R y key)
    (h : LinkOutcome find b₁ (Refer R key [y]) key ys base outcome) :
    LinkOutcome find b R key (y :: ys) base outcome := by
  obtain ⟨_ | ⟨⟨⟩⟩, b'⟩ := outcome
  · obtain ⟨hg', hbase, hstops⟩ := h
    exact ⟨hg.trans hg', hbase, hstops.cons hy⟩
  · obtain ⟨hg', hrec, hacy, hno⟩ := h
    rw [refer_refer] at hrec hacy
    refine ⟨hg.trans hg', hrec, hacy, fun z hz => ?_⟩
    rcases List.mem_cons.mp hz with rfl | hz
    · exact hy
    · exact fun hreach => hno z hz (reaches_refer_iff.mpr hreach)

/-- **Linking adds all references of a gate or none**: it fails exactly when one of the steps leads back
to the gate, and then the edges are those of before. -/
theorem linkFrom_spec (find : DependencyGraph.PathSearch GateKey) (steps : List (Step α)) {v : Nat}
    {key : GateKey} {added : List Nat} {base : List (Nat × Nat)} (hrec : b.Records R)
    (hacy : Acyclic R) (hv : b.graph.names[v]? = some key)
    (hbase : (b.graph.removeEdges added).edges = base) :
    LinkOutcome find b R key (steps.map Step.key) base (linkFrom find v steps added b) := by
  induction steps generalizing b R added with
  | nil =>
    rw [linkFrom, List.map_nil, LinkOutcome, refer_nil]
    exact ⟨hrec.named.grows, hrec, hacy, fun y hy => by cases hy⟩
  | cons step steps ih =>
    obtain ⟨hg, he, hw⟩ := vertex_spec hrec.named step.key
    rw [linkFrom]
    generalize b.vertex step.key = found at hg he hw ⊢
    obtain ⟨w, b₁⟩ := found
    have hrec₁ : b₁.Records R := hrec.grows hg he
    have hv₁ : b₁.graph.names[v]? = some key := hg.names v key hv
    have hbase₁ : (b₁.graph.removeEdges added).edges = base :=
      (DependencyGraph.edges_removeEdges_congr he added).trans hbase
    simp only [List.map_cons]
    split
    · -- the edge is shared with an earlier step, so the reference is there
      next hfind =>
      have hR : R key step.key :=
        (hrec₁.edge_iff hv₁ hw).mp (DependencyGraph.findEdge?_isSome.mp hfind)
      have hsame : Refer R key [step.key] = R := by
        funext x y
        simp only [Refer, List.mem_singleton, eq_iff_iff, or_iff_left_iff_imp]
        rintro ⟨rfl, rfl⟩
        exact hR
      refine LinkOutcome.cons hg (hacy.not_reaches hR) ?_
      rw [hsame]
      exact ih hrec₁ hacy hv₁ hbase₁
    · split
      · -- the step leads back: the edges added before go away
        next hpath =>
        have hreach : Relation.ReflTransGen R step.key key :=
          (hrec₁.reaches_iff hw hv₁).mp (DependencyGraph.hasPath_iff.mp hpath)
        have hnone : b₁.Records (Refer R key []) := by
          rw [refer_nil]
          exact hrec₁
        have hstops : Stops find R key ([] ++ step.key :: steps.map Step.key)
            (.gateCycle (b₁.graph.circle find v w) : GateError α) :=
          .leadsBack (List.forall_mem_nil _) hreach hnone hv₁ hw
        exact ⟨hg.withEdges (DependencyGraph.names_removeEdges added), hbase₁, hstops⟩
      · next hpath =>
        have hno : ¬Relation.ReflTransGen R step.key key := fun hreach =>
          hpath (DependencyGraph.hasPath_iff.mpr ((hrec₁.reaches_iff hw hv₁).mpr hreach))
        have hg₂ : b.Grows { b₁ with graph := (b₁.graph.addEdge v w).2 } := hg.withEdges rfl
        refine LinkOutcome.cons hg₂ hno ?_
        refine ih (hrec₁.addEdge hv₁ hw) (acyclic_refer hacy hno) hv₁ ?_
        rw [← hbase₁]
        exact congrArg (fun g => (DependencyGraph.removeEdges g added).edges)
          (DependencyGraph.removeEdge_addEdge b₁.graph v w)

/-- **Linking a gate**: its vertex comes first, and stays whatever becomes of the references. -/
theorem link_spec (find : DependencyGraph.PathSearch GateKey) (key : GateKey) (steps : List (Step α))
    (hrec : b.Records R) (hacy : Acyclic R) :
    LinkOutcome find b R key (steps.map Step.key) b.graph.edges (b.link find key steps) := by
  obtain ⟨hg, he, hv⟩ := vertex_spec hrec.named key
  have hlink := linkFrom_spec find steps (hrec.grows hg he) hacy hv
    (show ((b.vertex key).2.graph.removeEdges []).edges = b.graph.edges from he)
  simp only [link]
  generalize linkFrom find (b.vertex key).1 steps [] (b.vertex key).2 = outcome at hlink ⊢
  obtain ⟨e | ⟨⟨⟩⟩, b'⟩ := outcome
  · obtain ⟨hg', hrest⟩ := hlink
    exact ⟨hg.trans hg', hrest⟩
  · obtain ⟨hg', hrest⟩ := hlink
    exact ⟨hg.trans hg', hrest⟩

/-- **The search only tells the circle**: with any two searches linking comes to the same builder, and
succeeds with one as with the other. -/
theorem linkFrom_search (find find' : DependencyGraph.PathSearch GateKey) (steps : List (Step α))
    (v : Nat) (added : List Nat) (b : Builder α) :
    (linkFrom find v steps added b).2 = (linkFrom find' v steps added b).2 ∧
      (linkFrom find v steps added b).1.isOk = (linkFrom find' v steps added b).1.isOk := by
  induction steps generalizing added b with
  | nil => exact ⟨rfl, rfl⟩
  | cons step steps ih =>
    rw [linkFrom, linkFrom]
    generalize b.vertex step.key = found
    obtain ⟨w, b₁⟩ := found
    dsimp only
    split
    · exact ih _ _
    · split
      · exact ⟨rfl, rfl⟩
      · exact ih _ _

end Builder

end Registry

end PulseControl
