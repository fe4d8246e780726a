import PulseControl.Proofs.Except
import PulseControl.Proofs.Registry.Links

/-!
# What a builder holds

Whatever attempts to register gates have been made, and whatever became of them, a builder holds exactly
the definitions that it has accepted: their keys in the order of acceptance, a definition for each key,
and an edge for each reference from an accepted gate to the gate of one of its steps. The predicate
`PulseControl.Registry.Builder.Holds` says so, and every attempt keeps it.

* `PulseControl.Registry.Builder.attempt_spec` – one attempt: a definition more, or nothing but vertices;
* `PulseControl.Registry.Builder.attemptAll_holds` – any number of attempts;
* `PulseControl.Registry.Builder.attempts_keep_graph` – the graph is that of the accepted definitions, it
  has no circle, and a definition is refused for a circle exactly where it would close one.
-/

namespace PulseControl.Registry

variable {α : Type}

/-- The gate `x` has a definition among some, with a step to the gate `y`. -/
def DependsOn (definitions : List (GateKey × GateDefinition α)) (x y : GateKey) : Prop :=
  ∃ d, (x, d) ∈ definitions ∧ ∃ s ∈ d.subcalls, s.key = y

/-- One more definition adds the references of its steps. -/
theorem dependsOn_append (definitions : List (GateKey × GateDefinition α)) (key : GateKey)
    (d : GateDefinition α) :
    DependsOn (definitions ++ [(key, d)]) =
      Refer (DependsOn definitions) key (d.subcalls.map Step.key) := by
  funext x y
  simp only [DependsOn, Refer, List.mem_append, List.mem_singleton, Prod.mk.injEq, List.mem_map,
    eq_iff_iff]
  constructor
  · rintro ⟨d', hd | ⟨rfl, rfl⟩, hs⟩
    · exact Or.inl ⟨d', hd, hs⟩
    · exact Or.inr ⟨rfl, hs⟩
  · rintro (⟨d', hd, hs⟩ | ⟨rfl, hs⟩)
    · exact ⟨d', Or.inl hd, hs⟩
    · exact ⟨d, Or.inr ⟨rfl, rfl⟩, hs⟩

namespace Builder

/-! ### One attempt -/

/-- **The builder holds exactly these definitions**, accepted in this order. -/
structure Holds (b : Builder α) (definitions : List (GateKey × GateDefinition α)) : Prop where
  order : b.order = definitions.map Prod.fst
  nodup : b.order.Nodup
  entries : ∀ (key : GateKey) (d : GateDefinition α),
    b.entries[key]? = some d ↔ (key, d) ∈ definitions
  records : b.Records (DependsOn definitions)
  acyclic : Acyclic (DependsOn definitions)

theorem holds_empty : (∅ : Builder α).Holds [] where
  order := rfl
  nodup := List.nodup_nil
  entries key d := by
    rw [show (∅ : Builder α).entries = ∅ from rfl]
    simp
  records :=
    { named := fun key v => by
        rw [show (∅ : Builder α).vertices = ∅ from rfl, show (∅ : Builder α).graph = ∅ from rfl]
        simp [show (∅ : DependencyGraph GateKey).names = [] from rfl]
      sound := fun v w h => nomatch h
      complete := fun x y h => by
        obtain ⟨d, hd, -⟩ := h
        cases hd }
  acyclic x h := by
    rcases Relation.TransGen.tail'_iff.mp h with ⟨y, -, d, hd, -⟩
    cases hd

variable {b b' : Builder α} {definitions : List (GateKey × GateDefinition α)}

theorem Holds.mem_order_iff (h : b.Holds definitions) {key : GateKey} :
    key ∈ b.order ↔ b.contains key = true := by
  rw [h.order, List.mem_map, contains, Option.isSome_iff_exists]
  constructor
  · rintro ⟨⟨key', d⟩, hmem, rfl⟩
    exact ⟨d, (h.entries _ d).mpr hmem⟩
  · rintro ⟨d, hd⟩
    exact ⟨(key, d), (h.entries key d).mp hd, rfl⟩

/-- More vertices change nothing of what is held. -/
theorem Holds.grows (h : b.Holds definitions) (hg : b.Grows b')
    (he : b'.graph.edges = b.graph.edges) : b'.Holds definitions where
  order := hg.order.trans h.order
  nodup := hg.order.symm ▸ h.nodup
  entries key d := by
    rw [hg.entries]
    exact h.entries key d
  records := h.records.grows hg he
  acyclic := h.acyclic

/-- A definition under a free key, with its references in the graph, is held as well. -/
theorem Holds.insert (h : b.Holds definitions) {key : GateKey} {d : GateDefinition α}
    (hfree : b.contains key = false) (hg : b.Grows b')
    (hrec : b'.Records (Refer (DependsOn definitions) key (d.subcalls.map Step.key)))
    (hacy : Acyclic (Refer (DependsOn definitions) key (d.subcalls.map Step.key))) :
    (b'.insert key d).Holds (definitions ++ [(key, d)]) where
  order := by
    rw [Builder.insert, hg.order, h.order, List.map_append]
    rfl
  nodup := by
    -- a free key stands nowhere in the order
    have hnot : key ∉ b.order := fun hmem => by
      rw [h.mem_order_iff, hfree] at hmem
      cases hmem
    rw [Builder.insert, hg.order]
    exact List.nodup_append.mpr ⟨h.nodup, by simp, fun x hx y hy => by
      rw [List.mem_singleton.mp hy]
      exact fun heq => hnot (heq ▸ hx)⟩
  entries key' d' := by
    simp only [Builder.insert, Std.ExtTreeMap.getElem?_insert,
      Std.LawfulEqOrd.compare_eq_iff_eq, hg.entries, List.mem_append, List.mem_singleton,
      Prod.mk.injEq]
    split
    · next heq =>
      subst heq
      have hnone : ∀ d'', (key, d'') ∉ definitions := fun d'' hmem => by
        rw [contains, (h.entries key d'').mpr hmem] at hfree
        cases hfree
      simp [hnone, eq_comm]
    · next hne =>
      rw [h.entries]
      exact ⟨Or.inl, fun hmem => hmem.resolve_right fun heq => hne heq.1.symm⟩
  records := by
    rw [dependsOn_append]
    exact ⟨hrec.named, hrec.sound, hrec.complete⟩
  acyclic := by
    rw [dependsOn_append]
    exact hacy

variable [Scalar α]

/-- What an attempt to register a definition gives: the definition is held besides the others, or else
nothing has changed but for new vertices. It is refused for a circle only after all other checks, and
only if one of its steps leads back to it. -/
def AttemptOutcome (b : Builder α) (definitions : List (GateKey × GateDefinition α))
    (key : GateKey) (d : GateDefinition α) : Except (GateError α) Unit × Builder α → Prop
  | (.ok (), b') => b'.Holds (definitions ++ [(key, d)]) ∧ b.contains key = false ∧
      checkDefinition key d = .ok () ∧
      ∀ s ∈ d.subcalls, ¬Relation.ReflTransGen (DependsOn definitions) s.key key
  | (.error e, b') => b'.Holds definitions ∧ b.Grows b' ∧ b'.graph.edges = b.graph.edges ∧
      (b.contains key = false → checkDefinition key d = .ok () → (∃ cycle, e = .gateCycle cycle) ∧
        ∃ s ∈ d.subcalls, Relation.ReflTransGen (DependsOn definitions) s.key key)

/-- **One attempt** to register a definition. -/
theorem attempt_spec (h : b.Holds definitions) (key : GateKey) (d : GateDefinition α) :
    AttemptOutcome b definitions key d (b.attempt key d) := by
  have hrefl : b.Grows b := h.records.named.grows
  rw [attempt, attemptWith]
  split
  · next hkey =>
    exact ⟨h, hrefl, rfl, fun hfree => absurd (hfree.symm.trans hkey) Bool.false_ne_true⟩
  · next hkey =>
    have hfree : b.contains key = false := Bool.eq_false_iff.mpr hkey
    cases hcheck : checkDefinition key d with
    | error e => exact ⟨h, hrefl, rfl, fun _ hok => by rw [hok] at hcheck; cases hcheck⟩
    | ok _ =>
      have hlink := link_spec DependencyGraph.path? key d.subcalls h.records h.acyclic
      dsimp only
      generalize b.link DependencyGraph.path? key d.subcalls = outcome at hlink ⊢
      obtain ⟨e | ⟨⟨⟩⟩, b'⟩ := outcome
      · obtain ⟨hg, he, hstops⟩ := hlink
        obtain ⟨y, hy, hreach⟩ := hstops.exists_reaches
        obtain ⟨s, hs, rfl⟩ := List.mem_map.mp hy
        exact ⟨h.grows hg he, hg, he, fun _ _ => ⟨hstops.exists_circle, s, hs, hreach⟩⟩
      · obtain ⟨hg, hrec, hacy, hno⟩ := hlink
        exact ⟨h.insert hfree hg hrec hacy, hfree, hcheck, fun s hs =>
          hno s.key (List.mem_map_of_mem hs)⟩

/-- With any search an attempt leaves the same builder. -/
theorem attemptWith_snd (find : DependencyGraph.PathSearch GateKey) (b : Builder α) (key : GateKey)
    (d : GateDefinition α) : (b.attemptWith find key d).2 = (b.attempt key d).2 := by
  rw [attempt, attemptWith, attemptWith]
  split
  · rfl
  · cases checkDefinition key d with
    | error e => rfl
    | ok _ =>
      obtain ⟨hstate, hok⟩ := linkFrom_search find DependencyGraph.path? d.subcalls
        (b.vertex key).1 [] (b.vertex key).2
      simp only [link]
      generalize linkFrom find _ _ _ _ = outcome at hstate hok ⊢
      generalize linkFrom DependencyGraph.path? _ _ _ _ = outcome' at hstate hok ⊢
      obtain ⟨_ | _, b₁⟩ := outcome
      · obtain ⟨_ | _, b₂⟩ := outcome'
        · exact hstate
        · cases hok
      · obtain ⟨_ | _, b₂⟩ := outcome'
        · cases hok
        · cases hstate
          rfl

/-! ### Any number of attempts -/

/-- The definitions that a builder accepts of those tried one after the other. -/
def accepted (b : Builder α) :
    List (GateKey × GateDefinition α) → List (GateKey × GateDefinition α)
  | [] => []
  | a :: attempts =>
    match b.attempt a.1 a.2 with
    | (.ok (), b') => a :: b'.accepted attempts
    | (.error _, b') => b'.accepted attempts

/-- **Any number of attempts** leave the definitions that were accepted. -/
theorem attemptAll_holds (h : b.Holds definitions) (attempts : List (GateKey × GateDefinition α)) :
    (b.attemptAll attempts).Holds (definitions ++ b.accepted attempts) := by
  induction attempts generalizing b definitions with
  | nil =>
    rw [accepted, List.append_nil]
    exact h
  | cons a attempts ih =>
    have hstep := attempt_spec h a.1 a.2
    rw [attemptAll, List.foldl_cons, accepted]
    generalize b.attempt a.1 a.2 = outcome at hstep ⊢
    obtain ⟨e | ⟨⟨⟩⟩, b'⟩ := outcome
    · exact ih hstep.1
    · -- an accepted definition stands behind those before it and in front of those to come
      have hrest := ih hstep.1
      rw [List.append_assoc] at hrest
      exact hrest

/-- **With any search attempts come to the same builder**: the search only tells the circles. -/
theorem attemptAllWith_eq (find : DependencyGraph.PathSearch GateKey) (b : Builder α)
    (attempts : List (GateKey × GateDefinition α)) :
    b.attemptAllWith find attempts = b.attemptAll attempts := by
  rw [attemptAllWith, attemptAll]
  congr 1
  funext b a
  exact attemptWith_snd find b a.1 a.2

/-- Only definitions that have been tried are accepted. -/
theorem accepted_subset (b : Builder α) (attempts : List (GateKey × GateDefinition α)) :
    b.accepted attempts ⊆ attempts := by
  induction attempts generalizing b with
  | nil => exact List.Subset.refl _
  | cons a attempts ih =>
    rw [accepted]
    split
    · exact List.cons_subset_cons a (ih _)
    · exact List.subset_cons_of_subset a (ih _)

theorem checkDefinition_of_attempt {key : GateKey} {d : GateDefinition α}
    (h : (b.attempt key d).1 = .ok ()) : checkDefinition key d = .ok () := by
  rw [attempt, attemptWith] at h
  split at h
  · cases h
  · cases hcheck : checkDefinition key d with
    | error e =>
      rw [hcheck] at h
      cases h
    | ok _ => rfl

/-- Only definitions that are sound on their own are accepted. -/
theorem checkDefinition_of_accepted (b : Builder α) (attempts : List (GateKey × GateDefinition α))
    {entry : GateKey × GateDefinition α} (h : entry ∈ b.accepted attempts) :
    checkDefinition entry.1 entry.2 = .ok () := by
  induction attempts generalizing b with
  | nil => cases h
  | cons a attempts ih =>
    rw [accepted] at h
    split at h
    · next b' hattempt =>
      rcases List.mem_cons.mp h with rfl | h
      · exact checkDefinition_of_attempt (congrArg Prod.fst hattempt)
      · exact ih b' h
    · exact ih _ h

omit [Scalar α] in
/-- A registry has the definitions and the order of its builder. -/
theorem build_eq_ok {r : Registry α} (h : b.build = .ok r) :
    r.entries = b.entries ∧ r.order = b.order := by
  obtain ⟨-, -, h⟩ := Except.bind_eq_ok.mp h
  cases h
  exact ⟨rfl, rfl⟩

/-- A registry holds just definitions that have been accepted. -/
theorem accepted_of_build_get? {attempts : List (GateKey × GateDefinition α)} {r : Registry α}
    (hr : ((∅ : Builder α).attemptAll attempts).build = .ok r) {key : GateKey}
    {d : GateDefinition α} (hd : r.get? key = some d) :
    (key, d) ∈ (∅ : Builder α).accepted attempts := by
  rw [Registry.get?, (build_eq_ok hr).1] at hd
  exact ((attemptAll_holds holds_empty attempts).entries key d).mp hd

/-- **A registry holds just definitions that have been tried.** -/
theorem mem_of_build_get? {attempts : List (GateKey × GateDefinition α)} {r : Registry α}
    (hr : ((∅ : Builder α).attemptAll attempts).build = .ok r) {key : GateKey}
    {d : GateDefinition α} (hd : r.get? key = some d) : (key, d) ∈ attempts :=
  accepted_subset ∅ attempts (accepted_of_build_get? hr hd)

/-- **A registry holds just definitions that are sound on their own.** -/
theorem checked_of_build_get? {attempts : List (GateKey × GateDefinition α)} {r : Registry α}
    (hr : ((∅ : Builder α).attemptAll attempts).build = .ok r) {key : GateKey}
    {d : GateDefinition α} (hd : r.get? key = some d) : checkDefinition key d = .ok () :=
  checkDefinition_of_accepted ∅ attempts (accepted_of_build_get? hr hd)

/-- The schema of a primitive gate that is sound on its own has been checked. -/
theorem validate_of_checkDefinition {key : GateKey} {schema : ParamSchema α}
    {procedure : Procedure α} (h : checkDefinition key (.primitive schema procedure) = .ok ()) :
    schema.validate key = .ok () := by
  simp only [checkDefinition, checkParameters, Except.bind_eq_ok] at h
  obtain ⟨_, ⟨⟨⟩, hvalid, -⟩, -⟩ := h
  exact hvalid

/-- Registration without refusals makes the same attempts. -/
theorem attemptAll_of_register_ok {definitions : List (GateKey × GateDefinition α)}
    (h : definitions.foldlM (fun b entry => b.register entry.1 entry.2) b = .ok b')
    (attempts : List (GateKey × GateDefinition α)) :
    b'.attemptAll attempts = b.attemptAll (definitions ++ attempts) := by
  induction definitions generalizing b with
  | nil =>
    cases h
    rfl
  | cons entry definitions ih =>
    rw [List.foldlM_cons, Except.bind_eq_ok] at h
    obtain ⟨b₁, hb₁, h⟩ := h
    rw [ih h, List.cons_append, attemptAll, attemptAll, List.foldl_cons]
    congr 1
    rw [register] at hb₁
    split at hb₁
    · next b₂ hattempt =>
      cases hb₁
      rw [hattempt]
    · cases hb₁

/-- Definitions that are registered without refusals are accepted before all others. -/
theorem accepted_of_register_ok {definitions : List (GateKey × GateDefinition α)}
    (h : definitions.foldlM (fun b entry => b.register entry.1 entry.2) b = .ok b')
    (attempts : List (GateKey × GateDefinition α)) :
    b.accepted (definitions ++ attempts) = definitions ++ b'.accepted attempts := by
  induction definitions generalizing b with
  | nil =>
    cases h
    rfl
  | cons entry definitions ih =>
    rw [List.foldlM_cons, Except.bind_eq_ok] at h
    obtain ⟨b₁, hb₁, h⟩ := h
    rw [List.cons_append, accepted, List.cons_append]
    cases hattempt : b.attempt entry.1 entry.2 with
    | mk outcome b₂ =>
      rw [register, hattempt] at hb₁
      cases outcome with
      | error e => cases hb₁
      | ok done =>
        cases hb₁
        exact congrArg (entry :: ·) (ih h)

/-- **A registry holds every definition that was registered without a refusal**, whatever was tried
after it. -/
theorem get?_of_register_ok {definitions attempts : List (GateKey × GateDefinition α)}
    {r : Registry α}
    (h : definitions.foldlM (fun b entry => b.register entry.1 entry.2) (∅ : Builder α) = .ok b')
    (hr : (b'.attemptAll attempts).build = .ok r) {entry : GateKey × GateDefinition α}
    (hmem : entry ∈ definitions) : r.get? entry.1 = some entry.2 := by
  rw [attemptAll_of_register_ok h] at hr
  have hentries := (attemptAll_holds holds_empty (definitions ++ attempts)).entries entry.1 entry.2
  rw [Registry.get?, (build_eq_ok hr).1, hentries, List.nil_append, accepted_of_register_ok h]
  exact List.mem_append_left _ hmem

omit [Scalar α] in
/-- The edges of the graph, with the names at their ends. -/
def references (b : Builder α) : List (Option GateKey × Option GateKey) :=
  b.graph.edges.map fun e => (b.graph.names[e.1]?, b.graph.names[e.2]?)

/-- There is an edge between the vertices of two gates. -/
def RefersTo (b : Builder α) (x y : GateKey) : Prop := (some x, some y) ∈ b.references

instance (b : Builder α) (x y : GateKey) : Decidable (b.RefersTo x y) :=
  inferInstanceAs (Decidable (_ ∈ _))

omit [Scalar α] in
theorem Records.mem_references_iff {R : GateKey → GateKey → Prop} (h : b.Records R)
    {ends : Option GateKey × Option GateKey} :
    ends ∈ b.references ↔ ∃ x y, R x y ∧ ends = (some x, some y) := by
  rw [references, List.mem_map]
  constructor
  · rintro ⟨⟨v, w⟩, he, rfl⟩
    obtain ⟨x, y, hR, hv, hw⟩ := h.sound v w he
    exact ⟨x, y, hR, by rw [hv, hw]⟩
  · rintro ⟨x, y, hR, rfl⟩
    obtain ⟨v, w, he, hv, hw⟩ := h.complete x y hR
    exact ⟨(v, w), he, by rw [hv, hw]⟩

omit [Scalar α] in
theorem Records.refersTo_eq {R : GateKey → GateKey → Prop} (h : b.Records R) : b.RefersTo = R := by
  funext x y
  rw [RefersTo, eq_iff_iff, h.mem_references_iff]
  constructor
  · rintro ⟨x', y', hR, heq⟩
    cases heq
    exact hR
  · exact fun hR => ⟨x, y, hR, rfl⟩

omit [Scalar α] in
/-- A circle of edges is a circle of references. -/
theorem Records.acyclic_edge {R : GateKey → GateKey → Prop} (h : b.Records R) (hR : Acyclic R) :
    Acyclic b.graph.Edge := by
  intro v hv
  obtain ⟨w, hvw, hwv⟩ := Relation.TransGen.head'_iff.mp hv
  obtain ⟨x, y, hxy, hx, hy⟩ := h.sound v w hvw
  exact hR x (Relation.TransGen.head' hxy ((h.reaches_iff hy hx).mp hwv))

omit [Scalar α] in
/-- The names at the ends of the edges stay when vertices come. -/
theorem Records.references_eq {R : GateKey → GateKey → Prop} (h : b.Records R) (hg : b.Grows b')
    (he : b'.graph.edges = b.graph.edges) : b'.references = b.references := by
  rw [references, references, he]
  refine List.map_congr_left fun e hmem => ?_
  obtain ⟨x, y, -, hv, hw⟩ := h.sound e.1 e.2 hmem
  rw [hv, hw, hg.names _ _ hv, hg.names _ _ hw]

/-- **The graph of a builder** after any attempts: its edges are the references of the accepted
definitions, it has no circle, and the order lists the accepted keys, which are those that have a
definition. A refused attempt leaves definitions, order and edges as they were, and an attempt that
passes all other checks is refused for a circle exactly if a step leads to the gate itself. -/
theorem attempts_keep_graph (attempts : List (GateKey × GateDefinition α)) :
    let b := (∅ : Builder α).attemptAll attempts
    let definitions := (∅ : Builder α).accepted attempts
    (∀ ends, ends ∈ b.references ↔
      ∃ key d, (key, d) ∈ definitions ∧ ∃ s ∈ d.subcalls, ends = (some key, some s.key)) ∧
    Acyclic b.graph.Edge ∧
    b.order = definitions.map Prod.fst ∧ b.order.Nodup ∧
    (∀ (key : GateKey) (d : GateDefinition α),
      b.entries[key]? = some d ↔ (key, d) ∈ definitions) ∧
    (∀ key d e, (b.attempt key d).1 = .error e →
      (b.attempt key d).2.entries = b.entries ∧ (b.attempt key d).2.order = b.order ∧
      (b.attempt key d).2.graph.edges = b.graph.edges ∧
      (b.attempt key d).2.references = b.references) ∧
    (∀ key d, b.contains key = false → checkDefinition key d = .ok () →
      ((∃ cycle, (b.attempt key d).1 = .error (.gateCycle cycle)) ↔
        ∃ s ∈ d.subcalls, s.key = key ∨ Relation.TransGen b.RefersTo s.key key)) := by
  intro b definitions
  have h : b.Holds definitions := attemptAll_holds holds_empty attempts
  refine ⟨fun ends => ?_, h.records.acyclic_edge h.acyclic, h.order, h.nodup, h.entries,
    fun key d e he => ?_, fun key d hfree hcheck => ?_⟩
  · rw [h.records.mem_references_iff]
    constructor
    · rintro ⟨x, y, ⟨d, hd, s, hs, rfl⟩, rfl⟩
      exact ⟨x, d, hd, s, hs, rfl⟩
    · rintro ⟨x, d, hd, s, hs, rfl⟩
      exact ⟨x, s.key, ⟨d, hd, s, hs, rfl⟩, rfl⟩
  · have hstep := attempt_spec h key d
    generalize b.attempt key d = outcome at hstep he ⊢
    obtain ⟨e' | ⟨⟨⟩⟩, b'⟩ := outcome
    · obtain ⟨-, hg, hedges, -⟩ := hstep
      exact ⟨hg.entries, hg.order, hedges, h.records.references_eq hg hedges⟩
    · cases he
  · -- the key itself or a way back to it: both are reachability in the old references
    have hstep := attempt_spec h key d
    simp only [h.records.refersTo_eq, ← Relation.reflTransGen_iff_eq_or_transGen, eq_comm (b := key)]
    generalize b.attempt key d = outcome at hstep ⊢
    obtain ⟨e' | ⟨⟨⟩⟩, b'⟩ := outcome
    · obtain ⟨-, -, -, hcycle⟩ := hstep
      obtain ⟨⟨cycle, rfl⟩, hs⟩ := hcycle hfree hcheck
      exact iff_of_true ⟨cycle, rfl⟩ hs
    · obtain ⟨-, -, -, hno⟩ := hstep
      refine iff_of_false ?_ ?_
      · rintro ⟨cycle, hcycle⟩
        cases hcycle
      · rintro ⟨s, hs, hreach⟩
        exact hno s hs hreach

/-- A compound gate on one qubit, with a step to each of some gates. -/
def chained (name : String) (inner : List String) : GateKey × GateDefinition Float :=
  (.plain name, .compound (Signature.qubits 1) (inner.map fun n => ⟨.plain n, [0], []⟩))

/-- A circle of three gates is found at the second step of the last one, and the reference of the first
step is taken back. -/
theorem circle_of_three_refused :
    let b := (∅ : Builder Float).attemptAll [chained "A" ["B"], chained "B" ["C"]]
    let c := chained "C" ["D", "A"]
    (∃ cycle, (b.attempt c.1 c.2).1 = .error (.gateCycle cycle)) ∧
      (b.attempt c.1 c.2).2.references = b.references ∧ b.references.length = 2 := by
  intro b c
  obtain ⟨-, -, -, -, -, hrefused, hcircle⟩ :=
    attempts_keep_graph [chained "A" ["B"], chained "B" ["C"]]
  have hab : b.RefersTo (.plain "A") (.plain "B") := by decide +kernel
  have hbc : b.RefersTo (.plain "B") (.plain "C") := by decide +kernel
  have hcycle := (hcircle c.1 c.2 (by decide +kernel) (by rfl)).mpr
    ⟨⟨.plain "A", [0], []⟩, List.mem_cons_of_mem _ List.mem_cons_self,
      Or.inr (.tail (.single hab) hbc)⟩
  obtain ⟨cycle, he⟩ := hcycle
  exact ⟨⟨cycle, he⟩, (hrefused c.1 c.2 _ he).2.2.2, by decide +kernel⟩

end Builder

end PulseControl.Registry
