import Mathlib.Data.List.Basic
import PulseControl.Channel

/-!
# When two channels have one name

The name of a channel is the name of its port and, in brackets, those of its qubits with commas in between.
No two ports have names that begin alike, so a name tells the port. It tells the one qubit of a line that
belongs to one. What it does not tell is which of the commas stands between the two qubits of a coupler,
unless the names of the qubits have none of their own.

* `PulseControl.Channel.text_inj` – equal names are those of equal ports and of qubits that are joined alike;
* `PulseControl.Channel.Standard` – lines with as many qubits as their ports ask for;
* `PulseControl.Channel.JoinedAlike` – coupler lines whose qubits are joined alike;
* `PulseControl.Channel.Standard.text_eq_iff` – there is no other way for two lines to have one name;
* `PulseControl.Channel.JoinedAlike.eq_of_comma_free` – and it takes a comma in the name of a qubit.
-/

namespace PulseControl

/-! ### Names tell ports -/

/-- No two ports have names that begin alike. -/
theorem Port.head_name_injective {p q : Port} (h : p.name.toList.head? = q.name.toList.head?) : p = q := by
  cases p <;> cases q <;> first | rfl | exact absurd h (by decide)

namespace Channel

variable {c d : Channel}

/-- **A name tells its port and the qubits as they are joined**, and no more. -/
theorem text_inj : c.text = d.text ↔
    c.port = d.port ∧ ",".intercalate c.qubits = ",".intercalate d.qubits := by
  constructor
  · intro h
    have hchars := congrArg String.toList h
    simp only [text, String.toList_append, List.append_assoc] at hchars
    have hport : c.port = d.port := by
      refine Port.head_name_injective ?_
      have hhead := congrArg List.head? hchars
      have hfilled : ∀ p : Port, p.name.toList ≠ [] := fun p => by cases p <;> decide
      rwa [List.head?_append_of_ne_nil _ (hfilled _), List.head?_append_of_ne_nil _ (hfilled _)] at hhead
    rw [hport] at hchars
    have hqubits := List.append_cancel_left (List.append_cancel_left hchars)
    exact ⟨hport, String.toList_inj.mp (List.append_cancel_right hqubits)⟩
  · rintro ⟨hport, hqubits⟩
    rw [text, text, hport, hqubits]

/-! ### Lines of one qubit or two -/

/-- **Lines with as many qubits as their ports ask for**: two for a coupler, one for any other. -/
inductive Standard : Channel → Prop where
  | drive (q : Qubit) : Standard (.drive q)
  | flux (q : Qubit) : Standard (.flux q)
  | readout (q : Qubit) : Standard (.readout q)
  | couplerFlux (a b : Qubit) : Standard (.couplerFlux a b)

/-- **Coupler lines whose qubits are joined alike.** They may be split differently into two. -/
def JoinedAlike (c d : Channel) : Prop :=
  ∃ a b a' b', c = .couplerFlux a b ∧ d = .couplerFlux a' b' ∧ a ++ "," ++ b = a' ++ "," ++ b'

theorem JoinedAlike.text_eq (h : JoinedAlike c d) : c.text = d.text := by
  obtain ⟨a, b, a', b', rfl, rfl, hjoined⟩ := h
  refine text_inj.mpr ⟨rfl, ?_⟩
  simpa [couplerFlux] using hjoined

/-- Lines of one port that each have one qubit are told by it. -/
theorem eq_of_intercalate {port : Port} {q r : Qubit}
    (h : ",".intercalate [q] = ",".intercalate [r]) : (⟨port, [q]⟩ : Channel) = ⟨port, [r]⟩ := by
  rw [String.intercalate_singleton, String.intercalate_singleton] at h
  rw [h]

/-- **Two lines have one name** only if they are one line, or coupler lines whose qubits are joined alike. -/
theorem Standard.text_eq_iff (hc : c.Standard) (hd : d.Standard) :
    c.text = d.text ↔ c = d ∨ c.JoinedAlike d := by
  constructor
  · intro h
    obtain ⟨hport, hqubits⟩ := text_inj.mp h
    cases hc with
    | couplerFlux a b =>
      cases hd with
      | couplerFlux a' b' =>
        exact Or.inr ⟨a, b, a', b', rfl, rfl, by simpa [Channel.couplerFlux] using hqubits⟩
      | drive | flux | readout => exact nomatch hport
    | drive q | flux q | readout q =>
      cases hd <;> first | exact Or.inl (eq_of_intercalate hqubits) | exact nomatch hport
  · rintro (rfl | h)
    · rfl
    · exact h.text_eq

/-- **Where the qubits of one line have no comma in their names** there is only one way to split them. -/
theorem JoinedAlike.eq_of_comma_free (h : c.JoinedAlike d) (hc : ∀ q ∈ c.qubits, ',' ∉ q.toList) :
    c = d := by
  obtain ⟨a, b, a', b', rfl, rfl, hjoined⟩ := h
  have hchars : a.toList ++ ',' :: b.toList = a'.toList ++ ',' :: b'.toList := by
    simpa using congrArg String.toList hjoined
  have hfree : ',' ∉ a.toList ∧ ',' ∉ b.toList := by simpa [couplerFlux] using hc
  obtain ⟨hfirst, -, hsecond⟩ := (List.append_cons_inj_of_notMem hfree.1 hfree.2).mp hchars
  rw [String.toList_inj.mp hfirst, String.toList_inj.mp hsecond]

end Channel

end PulseControl
