import Mathlib.Data.List.Induction
import Mathlib.Data.List.Nodup
import PulseControl.Proofs.Registry.Binding

/-!
# Required arguments

A signature says of each argument whether callers must give it, and a call is checked by the number of its
arguments: there must be as many as are required, and no more than there are. Arguments are positional, so
the number says something about the required ones only if these come first. Nothing demands that they do:
a signature in which an optional argument stands in front of a required one is registered like any other,
and then a call can pass its check without the required argument.

* `PulseControl.Signature.RequiredFirst` – signatures whose optional arguments trail the required ones;
* `PulseControl.Signature.requiredFirst_iff` – the number of required arguments reaches all of them;
* `PulseControl.Signature.required_arguments_given_iff` – in these signatures, and in no others, checked
  calls have values for all required arguments.
-/

namespace PulseControl.Signature

/-- **Optional arguments trail the required ones.** -/
def RequiredFirst (s : Signature) : Prop :=
  s.args.Pairwise fun a b => b.required = true → a.required = true

/-! ### Positions and numbers -/

/-- Behind a required argument that comes first, one more is counted for each position. -/
theorem lt_countP_of_required {args : List ArgSpec}
    (h : args.Pairwise fun a b => b.required = true → a.required = true) {i : Nat} {spec : ArgSpec}
    (hi : args[i]? = some spec) (hrequired : spec.required = true) :
    i < args.countP ArgSpec.required := by
  induction args generalizing i with
  | nil => exact nomatch hi
  | cons a args ih =>
    obtain ⟨hfirst, hrest⟩ := List.pairwise_cons.mp h
    cases i with
    | zero =>
      obtain rfl : a = spec := Option.some.inj hi
      exact List.countP_pos_iff.mpr ⟨a, List.mem_cons_self, hrequired⟩
    | succ i =>
      have ha : a.required = true := hfirst spec (List.mem_of_getElem? hi) hrequired
      rw [List.countP_cons_of_pos ha]
      exact Nat.succ_lt_succ (ih hrest hi)

/-- The last required argument stands no earlier than their number allows. -/
theorem exists_required_late {args : List ArgSpec} (h : ∃ spec ∈ args, spec.required = true) :
    ∃ (i : Nat) (spec : ArgSpec), args[i]? = some spec ∧ spec.required = true ∧
      args.countP ArgSpec.required ≤ i + 1 := by
  induction args using List.reverseRecOn with
  | nil =>
    obtain ⟨_, hmem, -⟩ := h
    exact nomatch hmem
  | append_singleton args last ih =>
    by_cases hlast : last.required = true
    · refine ⟨args.length, last, List.getElem?_concat_length, hlast, ?_⟩
      have hle : (args ++ [last]).countP ArgSpec.required ≤ (args ++ [last]).length :=
        List.countP_le_length
      rwa [List.length_append, List.length_singleton] at hle
    · obtain ⟨spec, hmem, hspec⟩ := h
      have hbefore : spec ∈ args := (List.mem_append.mp hmem).resolve_right fun hmem =>
        hlast (List.mem_singleton.mp hmem ▸ hspec)
      obtain ⟨i, found, hi, hfound, hle⟩ := ih ⟨spec, hbefore, hspec⟩
      obtain ⟨hlt, -⟩ := List.getElem?_eq_some_iff.mp hi
      refine ⟨i, found, (List.getElem?_append_left hlt).trans hi, hfound, ?_⟩
      rw [List.countP_append, List.countP_singleton, if_neg hlast]
      exact hle

/-- **Required arguments come first** exactly if all of their positions are below their number. -/
theorem requiredFirst_iff {s : Signature} :
    s.RequiredFirst ↔ ∀ (i : Nat) (spec : ArgSpec), s.args[i]? = some spec → spec.required = true →
      i < s.requiredCount := by
  refine ⟨fun h i spec => lt_countP_of_required h, fun h => ?_⟩
  rw [requiredCount] at h
  rw [RequiredFirst]
  generalize s.args = args at h ⊢
  induction args with
  | nil => exact .nil
  | cons a args ih =>
    by_cases ha : a.required = true
    · rw [List.countP_cons_of_pos ha] at h
      exact .cons (fun _ _ _ => ha) (ih fun i spec hi hspec =>
        Nat.lt_of_succ_lt_succ (h (i + 1) spec hi hspec))
    · -- behind an optional argument the last required one would come too late
      rw [List.countP_cons_of_neg ha] at h
      have hnone : ∀ b ∈ args, ¬ b.required = true := by
        intro b hb hrequired
        obtain ⟨i, spec, hi, hspec, hle⟩ := exists_required_late ⟨b, hb, hrequired⟩
        exact absurd (h (i + 1) spec hi hspec) (Nat.not_lt.mpr hle)
      refine .cons (fun b hb hrequired => absurd hrequired (hnone b hb)) (ih fun i spec hi hspec => ?_)
      exact absurd hspec (hnone spec (List.mem_of_getElem? hi))

/-! ### Calls with as few arguments as may be -/

/-- Different qubits, as many as one likes. -/
def someQubits (n : Nat) : List Qubit := (List.range n).map fun i => String.ofList (List.replicate i 'q')

theorem nodup_someQubits (n : Nat) : (someQubits n).Nodup := by
  refine List.Nodup.map (fun i j h => ?_) List.nodup_range
  have hlength := congrArg List.length (String.ofList_injective h)
  rwa [List.length_replicate, List.length_replicate] at hlength

variable {α : Type} [Scalar α]

/-- A call that gives just the number of arguments that is required. -/
def leastCall (s : Signature) (key : GateKey) (x : α) : GateCall α :=
  ⟨key, someQubits s.arity.least, List.replicate s.requiredCount x⟩

/-- Such a call is checked without complaint. -/
theorem check_leastCall (s : Signature) (key : GateKey) {x : α} (hx : Scalar.isFinite x = true) :
    s.check (s.leastCall key x) = .ok () := by
  have harity : s.arity.accepts s.arity.least = true := by
    cases s.arity <;> simp [Arity.accepts, Arity.least]
  have hargs : s.acceptsArgs s.requiredCount = true := by
    simp [acceptsArgs, requiredCount, List.countP_le_length]
  refine check_eq_ok.mpr ⟨?_, nodup_someQubits _, ?_, fun p hp => ?_⟩
  · simpa [leastCall, someQubits] using harity
  · simpa [leastCall] using hargs
  · have hmem := (List.of_mem_zip hp).2
    rw [List.eq_of_mem_replicate hmem]
    exact hx

/-- **A gate without steps can have any signature**: it is accepted, and its registry is built. -/
theorem exists_build_compound (s : Signature) (key : GateKey) : ∃ r : Registry α,
    ((∅ : Registry.Builder α).attemptAll [(key, .compound s [])]).build = .ok r ∧
    r.get? key = some (.compound s []) := by
  have hfree : (∅ : Registry.Builder α).contains key = false := by
    rw [Registry.Builder.contains, show (∅ : Registry.Builder α).entries = ∅ from rfl]
    simp
  have hspec := Registry.Builder.attempt_spec Registry.Builder.holds_empty key
    (.compound s [] : GateDefinition α)
  rw [Registry.Builder.attemptAll, List.foldl_cons, List.foldl_nil]
  generalize (∅ : Registry.Builder α).attempt key (.compound s []) = outcome at hspec ⊢
  obtain ⟨e | ⟨⟨⟩⟩, b⟩ := outcome
  · -- without steps there is nothing that could close a circle
    obtain ⟨-, -, -, hcircle⟩ := hspec
    obtain ⟨-, step, hstep, -⟩ := hcircle hfree rfl
    cases hstep
  · have hentry : b.entries[key]? = some (.compound s []) :=
      (hspec.1.entries key _).mpr (List.mem_singleton.mpr rfl)
    have horder : b.order = [key] := hspec.1.order
    refine ⟨⟨b.entries, b.order⟩, Except.bind_eq_ok.mpr ⟨(), ?_, rfl⟩, hentry⟩
    rw [horder]
    refine Except.forM_eq_ok.mpr fun k hk => ?_
    rw [List.mem_singleton.mp hk, hentry]
    rfl

/-- **Checked calls give all required arguments exactly where optional ones trail.** If they do, a
required argument has a value in every call of a registered gate that passes its check, and so do the names
in every expression over required arguments. If they do not, some such call lacks a required argument. -/
theorem required_arguments_given_iff {x : α} (hx : Scalar.isFinite x = true) (s : Signature) :
    s.RequiredFirst ↔
      ∀ (attempts : List (GateKey × GateDefinition α)) (r : Registry α) (call : GateCall α)
        (d : GateDefinition α), ((∅ : Registry.Builder α).attemptAll attempts).build = .ok r →
        r.checkCall call = .ok d → d.signature = s →
        (∀ (i : Nat) (spec : ArgSpec), s.args[i]? = some spec → spec.required = true →
          i < call.args.length) ∧
        ∀ e : ArgExpr α, (∀ n ∈ e.symbols, ∃ spec ∈ s.args, spec.name = n ∧ spec.required = true) →
          ∀ n ∈ e.symbols, (ArgExpr.positional s.argNames call.args n).isSome = true := by
  constructor
  · rintro h attempts r call d - hcall rfl
    obtain ⟨-, hcheck⟩ := Registry.checkCall_eq_ok.mp hcall
    have hgiven : ∀ (i : Nat) (spec : ArgSpec), d.signature.args[i]? = some spec →
        spec.required = true → i < call.args.length := fun i spec hi hspec =>
      Nat.lt_of_lt_of_le (requiredFirst_iff.mp h i spec hi hspec) (requiredCount_le_of_check hcheck)
    refine ⟨hgiven, fun e he n hn => ?_⟩
    obtain ⟨spec, hmem, rfl, hspec⟩ := he n hn
    obtain ⟨i, hi⟩ := List.getElem?_of_mem hmem
    refine ArgExpr.positional_isSome_of_getElem? (i := i) ?_ (hgiven i spec hi hspec)
    rw [argNames, List.getElem?_map, hi]
    rfl
  · intro h
    obtain ⟨r, hr, hd⟩ := exists_build_compound (α := α) s (.plain "g")
    have hcall : r.checkCall (s.leastCall (.plain "g") x) = .ok (.compound s []) :=
      Registry.checkCall_eq_ok.mpr ⟨hd, check_leastCall s _ hx⟩
    refine requiredFirst_iff.mpr fun i spec hi hspec => ?_
    have hlt := (h _ r _ _ hr hcall rfl).1 i spec hi hspec
    rwa [leastCall, List.length_replicate] at hlt

/-- A turn by an angle, and a gate that takes a phase and an angle, of which it passes on the angle. The
phase may be left out although it stands in front. -/
def lateAngleGates : List (GateKey × GateDefinition Float) :=
  [(.plain "turn", .compound ((qubits 1).arg "angle") []),
    (.plain "late", .compound (((qubits 1).optionalArg "phase").arg "angle")
      [⟨.plain "turn", [0], [.symbol "angle"]⟩])]

/-- A call with one argument passes its check and has none for the angle, which is required. The gate is
one of those whose required arguments do not come first. -/
theorem late_angle_is_missing : ∃ (r : Registry Float) (d : GateDefinition Float),
    Scalar.isFinite (0 : Float) = true ∧
    ((∅ : Registry.Builder Float).attemptAll lateAngleGates).build = .ok r ∧
    r.checkCall ⟨.plain "late", ["Q0"], [0.5]⟩ = .ok d ∧
    d.signature.args[1]? = some ⟨"angle", true⟩ ∧
    ArgExpr.positional d.signature.argNames [(0.5 : Float)] "angle" = none ∧
    ¬ d.signature.RequiredFirst := by
  have hbuild : ((∅ : Registry.Builder Float).attemptAll lateAngleGates).build = .ok
      (((∅ : Registry.Builder Float).attemptAll lateAngleGates).build.toOption.getD ⟨∅, []⟩) := by rfl
  have hcall : (((∅ : Registry.Builder Float).attemptAll lateAngleGates).build.toOption.getD
      ⟨∅, []⟩).checkCall (⟨.plain "late", ["Q0"], [0.5]⟩ : GateCall Float) =
        .ok lateAngleGates[1].2 := by rfl
  have hfinite : Scalar.isFinite (0 : Float) = true := by decide
  refine ⟨_, _, hfinite, hbuild, hcall, rfl, rfl, fun h => ?_⟩
  have hgiven := ((required_arguments_given_iff hfinite _).mp h _ _ _ _ hbuild hcall rfl).1
  exact absurd (hgiven 1 ⟨"angle", true⟩ rfl rfl) (by decide)

end PulseControl.Signature
