import PulseControl.Decimal.Style
import PulseControl.Scalar

/-!
# Argument expressions

The steps of a compound gate compute their arguments from the arguments of the whole, which they name.

* `PulseControl.ArgExpr` – the expressions;
* `PulseControl.ArgExpr.symbols` – the names that occur, sorted and without repetition;
* `PulseControl.ArgExpr.eval` – the value, which is missing where a name has none or a divisor is 0.
-/

namespace PulseControl

/-- An expression over named arguments. -/
inductive ArgExpr (α : Type) where
  /-- A number. -/
  | const (value : α)
  /-- The argument of this name. -/
  | symbol (name : String)
  /-- The number π. -/
  | pi
  /-- The negative of an expression. -/
  | neg (e : ArgExpr α)
  /-- A sum. -/
  | add (a b : ArgExpr α)
  /-- A difference. -/
  | sub (a b : ArgExpr α)
  /-- A product. -/
  | mul (a b : ArgExpr α)
  /-- A quotient. -/
  | div (a b : ArgExpr α)
  deriving Repr

namespace ArgExpr

variable {α : Type}

instance : Inhabited (ArgExpr α) := ⟨.pi⟩
instance : Neg (ArgExpr α) := ⟨.neg⟩
instance : Add (ArgExpr α) := ⟨.add⟩
instance : Sub (ArgExpr α) := ⟨.sub⟩
instance : Mul (ArgExpr α) := ⟨.mul⟩
instance : Div (ArgExpr α) := ⟨.div⟩

/-- The names in an expression, in the order in which they stand there. -/
def occurrences : ArgExpr α → List String
  | .const _ | .pi => []
  | .symbol name => [name]
  | .neg e => e.occurrences
  | .add a b | .sub a b | .mul a b | .div a b => a.occurrences ++ b.occurrences

/-- Puts a name into a sorted list without repetition. -/
def insertName (s : String) : List String → List String
  | [] => [s]
  | t :: ts => if s < t then s :: t :: ts else if s = t then t :: ts else t :: insertName s ts

/-- The names in an expression, sorted and each once. -/
def symbols (e : ArgExpr α) : List String := e.occurrences.foldr insertName []

theorem mem_insertName {s t : String} {ts : List String} :
    s ∈ insertName t ts ↔ s = t ∨ s ∈ ts := by
  induction ts with
  | nil => simp [insertName]
  | cons u us ih =>
    rw [insertName]
    split
    · simp
    · split
      · next h => subst h; simp
      · simp only [List.mem_cons, ih]
        exact ⟨fun h => h.elim (fun h => .inr (.inl h)) fun h => h.imp_right .inr,
          fun h => h.elim (fun h => .inr (.inl h)) fun h => h.imp_right .inr⟩

/-- A name is listed exactly when it occurs. -/
theorem mem_symbols {e : ArgExpr α} {s : String} : s ∈ e.symbols ↔ s ∈ e.occurrences := by
  rw [symbols]
  induction e.occurrences with
  | nil => simp
  | cons t ts ih => rw [List.foldr_cons, mem_insertName, ih, List.mem_cons]

variable [Scalar α]

/-- The value of an expression, where `lookup` gives the values of the names. A divisor is evaluated
before its dividend. -/
def eval (lookup : String → Option α) : ArgExpr α → Option α
  | .const v => some v
  | .symbol name => lookup name
  | .pi => some Scalar.pi
  | .neg e => do return -(← e.eval lookup)
  | .add a b => do return (← a.eval lookup) + (← b.eval lookup)
  | .sub a b => do return (← a.eval lookup) - (← b.eval lookup)
  | .mul a b => do return (← a.eval lookup) * (← b.eval lookup)
  | .div a b => do
    let divisor ← b.eval lookup
    if divisor == 0 then none else return (← a.eval lookup) / divisor

/-- The value of a name among positional values: that at the first position of the name. -/
def positional (names : List String) (values : List α) (name : String) : Option α :=
  (names.idxOf? name).bind fun i => values[i]?

/-- The value of an expression over positional values. -/
def evalPositional (e : ArgExpr α) (names : List String) (values : List α) : Option α :=
  e.eval (positional names values)

end ArgExpr

/-- The text of an expression. -/
def ArgExpr.text : ArgExpr Float → String
  | .const v => Decimal.NumberStyle.plain.write v
  | .symbol name => name
  | .pi => "π"
  | .neg e => "-(" ++ e.text ++ ")"
  | .add a b => "(" ++ a.text ++ " + " ++ b.text ++ ")"
  | .sub a b => "(" ++ a.text ++ " - " ++ b.text ++ ")"
  | .mul a b => "(" ++ a.text ++ " * " ++ b.text ++ ")"
  | .div a b => "(" ++ a.text ++ " / " ++ b.text ++ ")"

end PulseControl
