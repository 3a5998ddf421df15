import Mathlib.Logic.Function.Iterate
import MyClaw.Tools.CalculatorReads

set_option autoImplicit false

/-!
# When the calculator is exact

The calculator (`tools/calculator.rs`) does not look at the tokens behind the expression that it has
read, and takes a minus sign before a power as one of its base.  It ends on every text.

## Main definitions

* `FreeValue`, `freeOps` — the operations as uninterpreted functions.
* `ExprTree.Known` — the names of an expression are those of functions and constants.
* `ReadsExactly` — on the tokens, the evaluator accepts only what the grammar derives, with
  its value.

## Main results

* `evalMath_exact` — the tool ends; the token lists on which the evaluator is exact.
* `not_readsExactly` — two numbers, and the power of a negative number, are not among them.
-/

namespace MyClaw

open Fuel

variable {N F : Type}

/-! ## Uninterpreted operations -/

/-- Values that are only written down. -/
inductive FreeValue (N : Type)
  | number (n : N)
  | add (left right : FreeValue N)
  | sub (left right : FreeValue N)
  | mul (left right : FreeValue N)
  | div (left right : FreeValue N)
  | powf (base exponent : FreeValue N)
  | neg (operand : FreeValue N)
  | call (name : String) (arg : FreeValue N)
  | constant (name : String)

/-- The operations as uninterpreted functions; no value is found zero or negative. -/
def freeOps (parse : List Char → Option N) : FloatOps N (FreeValue N) where
  parse := parse
  number := .number
  add := .add
  sub := .sub
  mul := .mul
  div := .div
  powf := .powf
  neg := .neg
  isZero _ := false
  isNegative _ := false
  toRadians := .call "to_radians"
  toDegrees := .call "to_degrees"
  sin := .call "sin"
  cos := .call "cos"
  tan := .call "tan"
  asin := .call "asin"
  acos := .call "acos"
  atan := .call "atan"
  sqrt := .call "sqrt"
  abs := .call "abs"
  ln := .call "ln"
  log10 := .call "log10"
  log2 := .call "log2"
  ceil := .call "ceil"
  floor := .call "floor"
  round := .call "round"
  exp := .call "exp"
  pi := .constant "pi"
  e := .constant "e"
  tau := .constant "tau"
  infinity := .constant "infinity"

/-- The name of a function. -/
def isFunctionName (name : List Char) : Bool :=
  lowercase name ∈ ["sin", "cos", "tan", "asin", "acos", "atan", "sqrt", "abs", "ln", "log", "log10",
    "log2", "ceil", "floor", "round", "exp"]

/-- The name of a constant. -/
def isConstantName (name : List Char) : Bool :=
  lowercase name ∈ ["pi", "e", "tau", "infinity", "inf"]

variable {ops : FloatOps N F} {parse : List Char → Option N}

/-- A constant with a value has a name. -/
lemma isConstantName_of_ok {name : List Char} {v : F} (h : constantValue ops name = .ok v) :
    isConstantName name = true := by
  rw [constantValue] at h
  rw [isConstantName]
  split at h <;> simp_all

/-- A function that gives a value has a name. -/
lemma isFunctionName_of_ok {name : List Char} {arg v : F} (h : applyFunction ops name arg = .ok v) :
    isFunctionName name = true := by
  rw [applyFunction] at h
  rw [isFunctionName]
  split at h <;> simp_all

/-- The constant of a name has a value. -/
lemma constantValue_known (ops : FloatOps N F) {name : List Char} (h : isConstantName name = true) :
    ∃ v, constantValue ops name = .ok v := by
  rw [isConstantName, decide_eq_true_eq] at h
  rw [constantValue]
  split <;> simp_all

/-- The function of a name gives a value. -/
lemma applyFunction_known {name : List Char} (h : isFunctionName name = true) (arg : FreeValue N) :
    ∃ v, applyFunction (freeOps parse) name arg = .ok v := by
  rw [isFunctionName, decide_eq_true_eq] at h
  rw [applyFunction]
  split <;> simp_all [freeOps]

/-- An uninterpreted function gives different values for different arguments. -/
lemma applyFunction_injective {name : List Char} {x y v : FreeValue N}
    (hx : applyFunction (freeOps parse) name x = .ok v)
    (hy : applyFunction (freeOps parse) name y = .ok v) : x = y := by
  rw [applyFunction] at hx hy
  split at hx <;> simp_all only [freeOps, Except.ok.injEq, reduceCtorEq]
  all_goals
    rw [← hy] at hx
    simpa using hx

/-! ## Known names -/

mutual

/-- The names of an expression are those of functions and constants. -/
def ExprTree.Known : ExprTree N → Prop
  | .mk first tail => first.Known ∧ tail.Known

/-- The names in the terms after the first one are known. -/
def ExprTail.Known : ExprTail N → Prop
  | .nil => True
  | .add right tail => right.Known ∧ tail.Known
  | .sub right tail => right.Known ∧ tail.Known

/-- The names of a term are known. -/
def TermTree.Known : TermTree N → Prop
  | .mk first tail => first.Known ∧ tail.Known

/-- The names in the factors after the first one are known. -/
def TermTail.Known : TermTail N → Prop
  | .nil => True
  | .mul right tail => right.Known ∧ tail.Known
  | .div right tail => right.Known ∧ tail.Known

/-- The names of a factor are known. -/
def UnaryTree.Known : UnaryTree N → Prop
  | .minus operand => operand.Known
  | .plus operand => operand.Known
  | .primary base => base.Known
  | .pow base exponent => base.Known ∧ exponent.Known

/-- The names of an operand are known. -/
def PrimaryTree.Known : PrimaryTree N → Prop
  | .number _ => True
  | .constant name => isConstantName name = true
  | .call name arg => isFunctionName name = true ∧ arg.Known
  | .group inner => inner.Known

end

mutual

/-- **The names are known** in an expression that the evaluator gives a value. -/
theorem ExprTree.known : ∀ {t : ExprTree N} {v : F}, t.readValue ops = .ok v → t.Known
  | .mk first tail, v, h => by
    rw [ExprTree.readValue] at h
    obtain ⟨left, hfirst, htail⟩ := Except.bind_eq_ok h
    rw [ExprTree.Known]
    exact ⟨first.known hfirst, tail.known htail⟩

/-- The names are known in terms after the first one that are given a value. -/
theorem ExprTail.known : ∀ {t : ExprTail N} {left v : F}, t.readValue ops left = .ok v → t.Known
  | .nil, _, _, _ => by rw [ExprTail.Known]; trivial
  | .add right tail, left, v, h => by
    rw [ExprTail.readValue] at h
    obtain ⟨x, hright, htail⟩ := Except.bind_eq_ok h
    rw [ExprTail.Known]
    exact ⟨right.known hright, tail.known htail⟩
  | .sub right tail, left, v, h => by
    rw [ExprTail.readValue] at h
    obtain ⟨x, hright, htail⟩ := Except.bind_eq_ok h
    rw [ExprTail.Known]
    exact ⟨right.known hright, tail.known htail⟩

/-- The names are known in a term that is given a value. -/
theorem TermTree.known : ∀ {t : TermTree N} {v : F}, t.readValue ops = .ok v → t.Known
  | .mk first tail, v, h => by
    rw [TermTree.readValue] at h
    obtain ⟨left, hfirst, htail⟩ := Except.bind_eq_ok h
    rw [TermTree.Known]
    exact ⟨first.known hfirst, tail.known htail⟩

/-- The names are known in factors after the first one that are given a value. -/
theorem TermTail.known : ∀ {t : TermTail N} {left v : F}, t.readValue ops left = .ok v → t.Known
  | .nil, _, _, _ => by rw [TermTail.Known]; trivial
  | .mul right tail, left, v, h => by
    rw [TermTail.readValue] at h
    obtain ⟨x, hright, htail⟩ := Except.bind_eq_ok h
    rw [TermTail.Known]
    exact ⟨right.known hright, tail.known htail⟩
  | .div right tail, left, v, h => by
    rw [TermTail.readValue] at h
    obtain ⟨x, hright, h⟩ := Except.bind_eq_ok h
    obtain ⟨y, -, htail⟩ := Except.bind_eq_ok h
    rw [TermTail.Known]
    exact ⟨right.known hright, tail.known htail⟩

/-- The names are known in a factor that is given a value. -/
theorem UnaryTree.known :
    ∀ {t : UnaryTree N} {signs : F → F} {v : F}, t.readValue ops signs = .ok v → t.Known
  | .minus operand, signs, v, h => by
    rw [UnaryTree.readValue] at h
    rw [UnaryTree.Known]
    exact operand.known h
  | .plus operand, signs, v, h => by
    rw [UnaryTree.readValue] at h
    rw [UnaryTree.Known]
    exact operand.known h
  | .primary base, signs, v, h => by
    rw [UnaryTree.readValue] at h
    obtain ⟨x, hbase, -⟩ := Except.bind_eq_ok h
    rw [UnaryTree.Known]
    exact base.known hbase
  | .pow base exponent, signs, v, h => by
    rw [UnaryTree.readValue] at h
    obtain ⟨x, hbase, h⟩ := Except.bind_eq_ok h
    obtain ⟨y, hexponent, -⟩ := Except.bind_eq_ok h
    rw [UnaryTree.Known]
    exact ⟨base.known hbase, exponent.known hexponent⟩

/-- The names are known in an operand that is given a value. -/
theorem PrimaryTree.known : ∀ {t : PrimaryTree N} {v : F}, t.readValue ops = .ok v → t.Known
  | .number n, _, _ => by rw [PrimaryTree.Known]; trivial
  | .constant name, v, h => by
    rw [PrimaryTree.readValue] at h
    rw [PrimaryTree.Known]
    exact isConstantName_of_ok h
  | .call name arg, v, h => by
    rw [PrimaryTree.readValue] at h
    obtain ⟨x, harg, hcall⟩ := Except.bind_eq_ok h
    rw [PrimaryTree.Known]
    exact ⟨isFunctionName_of_ok hcall, arg.known harg⟩
  | .group inner, v, h => by
    rw [PrimaryTree.readValue] at h
    rw [PrimaryTree.Known]
    exact inner.known h

end

mutual

/-- **An expression with known names** is given a value over uninterpreted operations. -/
theorem ExprTree.Known.value : ∀ {t : ExprTree N}, t.Known → ∃ v, t.readValue (freeOps parse) = .ok v
  | .mk first tail, h => by
    rw [ExprTree.Known] at h
    obtain ⟨left, hfirst⟩ := h.1.value
    obtain ⟨v, htail⟩ := h.2.value left
    exact ⟨v, by rw [ExprTree.readValue, hfirst]; exact htail⟩

/-- The terms after the first one are given a value. -/
theorem ExprTail.Known.value :
    ∀ {t : ExprTail N}, t.Known → ∀ left, ∃ v, t.readValue (freeOps parse) left = .ok v
  | .nil, _, left => ⟨left, by rw [ExprTail.readValue]⟩
  | .add right tail, h, left => by
    rw [ExprTail.Known] at h
    obtain ⟨x, hright⟩ := h.1.value
    obtain ⟨v, htail⟩ := h.2.value (.add left x)
    exact ⟨v, by rw [ExprTail.readValue, hright]; exact htail⟩
  | .sub right tail, h, left => by
    rw [ExprTail.Known] at h
    obtain ⟨x, hright⟩ := h.1.value
    obtain ⟨v, htail⟩ := h.2.value (.sub left x)
    exact ⟨v, by rw [ExprTail.readValue, hright]; exact htail⟩

/-- A term is given a value. -/
theorem TermTree.Known.value : ∀ {t : TermTree N}, t.Known → ∃ v, t.readValue (freeOps parse) = .ok v
  | .mk first tail, h => by
    rw [TermTree.Known] at h
    obtain ⟨left, hfirst⟩ := h.1.value id
    obtain ⟨v, htail⟩ := h.2.value left
    exact ⟨v, by rw [TermTree.readValue, hfirst]; exact htail⟩

/-- The factors after the first one are given a value; no quotient is one by zero. -/
theorem TermTail.Known.value :
    ∀ {t : TermTail N}, t.Known → ∀ left, ∃ v, t.readValue (freeOps parse) left = .ok v
  | .nil, _, left => ⟨left, by rw [TermTail.readValue]⟩
  | .mul right tail, h, left => by
    rw [TermTail.Known] at h
    obtain ⟨x, hright⟩ := h.1.value id
    obtain ⟨v, htail⟩ := h.2.value (.mul left x)
    exact ⟨v, by rw [TermTail.readValue, hright]; exact htail⟩
  | .div right tail, h, left => by
    rw [TermTail.Known] at h
    obtain ⟨x, hright⟩ := h.1.value id
    obtain ⟨v, htail⟩ := h.2.value (.div left x)
    exact ⟨v, by rw [TermTail.readValue, hright]; exact htail⟩

/-- A factor is given a value. -/
theorem UnaryTree.Known.value :
    ∀ {t : UnaryTree N}, t.Known → ∀ signs, ∃ v, t.readValue (freeOps parse) signs = .ok v
  | .minus operand, h, signs => by
    rw [UnaryTree.Known] at h
    rw [UnaryTree.readValue]
    exact h.value _
  | .plus operand, h, signs => by
    rw [UnaryTree.Known] at h
    rw [UnaryTree.readValue]
    exact h.value signs
  | .primary base, h, signs => by
    rw [UnaryTree.Known] at h
    obtain ⟨x, hbase⟩ := h.value
    exact ⟨signs x, by rw [UnaryTree.readValue, hbase]; rfl⟩
  | .pow base exponent, h, signs => by
    rw [UnaryTree.Known] at h
    obtain ⟨x, hbase⟩ := h.1.value
    obtain ⟨y, hexponent⟩ := h.2.value id
    exact ⟨.powf (signs x) y, by rw [UnaryTree.readValue, hbase, hexponent]; rfl⟩

/-- An operand is given a value. -/
theorem PrimaryTree.Known.value :
    ∀ {t : PrimaryTree N}, t.Known → ∃ v, t.readValue (freeOps parse) = .ok v
  | .number n, _ => ⟨.number n, by rw [PrimaryTree.readValue]; rfl⟩
  | .constant name, h => by
    rw [PrimaryTree.Known] at h
    rw [PrimaryTree.readValue]
    exact constantValue_known _ h
  | .call name arg, h => by
    rw [PrimaryTree.Known] at h
    obtain ⟨x, harg⟩ := h.2.value
    obtain ⟨v, hcall⟩ := applyFunction_known h.1 x
    exact ⟨v, by rw [PrimaryTree.readValue, harg]; exact hcall⟩
  | .group inner, h => by
    rw [PrimaryTree.Known] at h
    rw [PrimaryTree.readValue]
    exact h.value

end

/-! ## Values that agree are those of plain expressions -/

/-- Signs of a value that is written down can be taken off. -/
lemma neg_iterate_injective (n : ℕ) :
    Function.Injective (FreeValue.neg : FreeValue N → FreeValue N)^[n] :=
  Function.Injective.iterate (fun _ _ h => by cases h; rfl) n

mutual

/-- **An expression is plain** if the evaluator gives it the ordinary value over uninterpreted
operations. -/
theorem ExprTree.plain : ∀ {t : ExprTree N} {v : FreeValue N}, t.readValue (freeOps parse) = .ok v →
    t.value (freeOps parse) = .ok v → t.Plain
  | .mk first tail, v, hread, hvalue => by
    rw [ExprTree.readValue] at hread
    rw [ExprTree.value] at hvalue
    obtain ⟨left, hfirst, htail⟩ := Except.bind_eq_ok hread
    obtain ⟨left', hfirst', htail'⟩ := Except.bind_eq_ok hvalue
    obtain ⟨rfl, hplain⟩ := tail.plain htail htail'
    rw [ExprTree.Plain]
    exact ⟨first.plain hfirst hfirst', hplain⟩

/-- The terms after the first one are plain, and stand behind the same value. -/
theorem ExprTail.plain : ∀ {t : ExprTail N} {left left' v : FreeValue N},
    t.readValue (freeOps parse) left = .ok v → t.value (freeOps parse) left' = .ok v →
    left = left' ∧ t.Plain
  | .nil, left, left', v, hread, hvalue => by
    rw [ExprTail.readValue] at hread
    rw [ExprTail.value] at hvalue
    rw [ExprTail.Plain]
    exact ⟨Except.ok.inj (hread.trans hvalue.symm), trivial⟩
  | .add right tail, left, left', v, hread, hvalue => by
    rw [ExprTail.readValue] at hread
    rw [ExprTail.value] at hvalue
    obtain ⟨x, hright, htail⟩ := Except.bind_eq_ok hread
    obtain ⟨x', hright', htail'⟩ := Except.bind_eq_ok hvalue
    obtain ⟨hsum, hplain⟩ := tail.plain htail htail'
    obtain ⟨rfl, rfl⟩ := FreeValue.add.inj hsum
    rw [ExprTail.Plain]
    exact ⟨rfl, right.plain hright hright', hplain⟩
  | .sub right tail, left, left', v, hread, hvalue => by
    rw [ExprTail.readValue] at hread
    rw [ExprTail.value] at hvalue
    obtain ⟨x, hright, htail⟩ := Except.bind_eq_ok hread
    obtain ⟨x', hright', htail'⟩ := Except.bind_eq_ok hvalue
    obtain ⟨hsum, hplain⟩ := tail.plain htail htail'
    obtain ⟨rfl, rfl⟩ := FreeValue.sub.inj hsum
    rw [ExprTail.Plain]
    exact ⟨rfl, right.plain hright hright', hplain⟩

/-- A term is plain. -/
theorem TermTree.plain : ∀ {t : TermTree N} {v : FreeValue N}, t.readValue (freeOps parse) = .ok v →
    t.value (freeOps parse) = .ok v → t.Plain
  | .mk first tail, v, hread, hvalue => by
    rw [TermTree.readValue] at hread
    rw [TermTree.value] at hvalue
    obtain ⟨left, hfirst, htail⟩ := Except.bind_eq_ok hread
    obtain ⟨left', hfirst', htail'⟩ := Except.bind_eq_ok hvalue
    obtain ⟨rfl, hplain⟩ := tail.plain htail htail'
    rw [TermTree.Plain]
    exact ⟨first.plain_unsigned hfirst hfirst', hplain⟩

/-- The factors after the first one are plain, and stand behind the same value. -/
theorem TermTail.plain : ∀ {t : TermTail N} {left left' v : FreeValue N},
    t.readValue (freeOps parse) left = .ok v → t.value (freeOps parse) left' = .ok v →
    left = left' ∧ t.Plain
  | .nil, left, left', v, hread, hvalue => by
    rw [TermTail.readValue] at hread
    rw [TermTail.value] at hvalue
    rw [TermTail.Plain]
    exact ⟨Except.ok.inj (hread.trans hvalue.symm), trivial⟩
  | .mul right tail, left, left', v, hread, hvalue => by
    rw [TermTail.readValue] at hread
    rw [TermTail.value] at hvalue
    obtain ⟨x, hright, htail⟩ := Except.bind_eq_ok hread
    obtain ⟨x', hright', htail'⟩ := Except.bind_eq_ok hvalue
    obtain ⟨hproduct, hplain⟩ := tail.plain htail htail'
    obtain ⟨rfl, rfl⟩ := FreeValue.mul.inj hproduct
    rw [TermTail.Plain]
    exact ⟨rfl, right.plain_unsigned hright hright', hplain⟩
  | .div right tail, left, left', v, hread, hvalue => by
    rw [TermTail.readValue] at hread
    rw [TermTail.value] at hvalue
    obtain ⟨x, hright, htail⟩ := Except.bind_eq_ok hread
    obtain ⟨x', hright', htail'⟩ := Except.bind_eq_ok hvalue
    have hquotient : FreeValue.div left x = FreeValue.div left' x' ∧ tail.Plain :=
      tail.plain htail htail'
    obtain ⟨hquotient, hplain⟩ := hquotient
    obtain ⟨rfl, rfl⟩ := FreeValue.div.inj hquotient
    rw [TermTail.Plain]
    exact ⟨rfl, right.plain_unsigned hright hright', hplain⟩

/-- A factor without signs before it is plain. -/
theorem UnaryTree.plain_unsigned : ∀ {t : UnaryTree N} {v : FreeValue N},
    t.readValue (freeOps parse) id = .ok v → t.value (freeOps parse) = .ok v → t.Plain False
  | t, v, hread, hvalue => by
    have hplain := t.plain 0 hread hvalue
    rwa [eq_false (Nat.lt_irrefl 0)] at hplain

/-- A factor behind signs is plain. -/
theorem UnaryTree.plain : ∀ {t : UnaryTree N} (n : ℕ) {v : FreeValue N},
    t.readValue (freeOps parse) FreeValue.neg^[n] = .ok (FreeValue.neg^[n] v) →
    t.value (freeOps parse) = .ok v → t.Plain (0 < n)
  | .minus operand, n, v, hread, hvalue => by
    rw [UnaryTree.readValue] at hread
    rw [UnaryTree.value] at hvalue
    obtain ⟨x, hoperand, hneg⟩ := Except.bind_eq_ok hvalue
    obtain rfl := Except.ok.inj hneg
    have hplain := operand.plain (n + 1) hread hoperand
    rw [UnaryTree.Plain]
    rwa [eq_true n.succ_pos] at hplain
  | .plus operand, n, v, hread, hvalue => by
    rw [UnaryTree.readValue] at hread
    rw [UnaryTree.value] at hvalue
    rw [UnaryTree.Plain]
    exact operand.plain n hread hvalue
  | .primary base, n, v, hread, hvalue => by
    rw [UnaryTree.readValue] at hread
    rw [UnaryTree.value] at hvalue
    obtain ⟨x, hbase, hsigned⟩ := Except.bind_eq_ok hread
    obtain rfl := neg_iterate_injective n (Except.ok.inj hsigned)
    rw [UnaryTree.Plain]
    exact base.plain hbase hvalue
  | .pow base exponent, n, v, hread, hvalue => by
    rw [UnaryTree.readValue] at hread
    rw [UnaryTree.value] at hvalue
    obtain ⟨x, hbase, hread⟩ := Except.bind_eq_ok hread
    obtain ⟨y, hexponent, hread⟩ := Except.bind_eq_ok hread
    obtain ⟨x', hbase', hvalue⟩ := Except.bind_eq_ok hvalue
    obtain ⟨y', hexponent', hvalue⟩ := Except.bind_eq_ok hvalue
    obtain rfl := Except.ok.inj hvalue
    have hpow := Except.ok.inj hread
    cases n with
    | zero =>
      obtain ⟨rfl, rfl⟩ := FreeValue.powf.inj hpow
      rw [UnaryTree.Plain]
      exact ⟨Nat.lt_irrefl 0, base.plain hbase hbase', exponent.plain_unsigned hexponent hexponent'⟩
    | succ n =>
      -- a power is no value with a sign
      rw [Function.iterate_succ_apply' FreeValue.neg n ((freeOps parse).powf x' y')] at hpow
      cases hpow

/-- An operand is plain. -/
theorem PrimaryTree.plain : ∀ {t : PrimaryTree N} {v : FreeValue N},
    t.readValue (freeOps parse) = .ok v → t.value (freeOps parse) = .ok v → t.Plain
  | .number n, _, _, _ => by rw [PrimaryTree.Plain]; trivial
  | .constant name, _, _, _ => by rw [PrimaryTree.Plain]; trivial
  | .call name arg, v, hread, hvalue => by
    rw [PrimaryTree.readValue] at hread
    rw [PrimaryTree.value] at hvalue
    obtain ⟨x, harg, hcall⟩ := Except.bind_eq_ok hread
    obtain ⟨x', harg', hcall'⟩ := Except.bind_eq_ok hvalue
    obtain rfl := applyFunction_injective hcall hcall'
    rw [PrimaryTree.Plain]
    exact arg.plain harg harg'
  | .group inner, v, hread, hvalue => by
    rw [PrimaryTree.readValue] at hread
    rw [PrimaryTree.value] at hvalue
    rw [PrimaryTree.Plain]
    exact inner.plain hread hvalue

end

/-! ## The tokenizer ends -/

/-- What is left behind the characters of a token is shorter. -/
lemma dropWhile_length_lt {p : Char → Bool} {c : Char} (rest : List Char) (h : p c = true) :
    ((c :: rest).dropWhile p).length < (c :: rest).length := by
  rw [List.dropWhile_cons_of_pos h]
  exact Nat.lt_succ_of_le (List.dropWhile_suffix p).length_le

/-- A character of a name may come first. -/
lemma isIdentChar_of_isIdentStart {c : Char} (h : isIdentStart c = true) : isIdentChar c = true := by
  rw [isIdentStart] at h
  rw [isIdentChar, Char.isAlphanum]
  cases halpha : c.isAlpha with
  | true => rfl
  | false =>
    rw [halpha] at h
    simp_all

/-- **The tokenizer ends** on every text. -/
theorem tokenizeFrom_ends (ops : FloatOps N F) (text : List Char) :
    ∀ tokens, Ends (fun fuel => tokenizeFrom ops fuel tokens text) fun _ => True := by
  induction hlength : text.length using Nat.strongRecOn generalizing text with
  | _ n ih =>
    intro tokens
    have ih : ∀ later : List Char, later.length < text.length → ∀ tokens,
        Ends (fun fuel => tokenizeFrom ops fuel tokens later) fun _ => True :=
      fun later hlater => ih _ (hlength ▸ hlater) later rfl
    cases text with
    | nil => exact Ends.succ (fun fuel => by rw [tokenizeFrom]) (Ends.ok trivial)
    | cons c rest =>
      have hrest := ih rest (Nat.lt_succ_self _)
      refine Ends.succ (fun fuel => by rw [tokenizeFrom]) ?_
      -- a blank, then one character for each operator and parenthesis
      refine Ends.ite (fun _ => hrest _) fun _ => ?_
      refine Ends.ite (fun _ => hrest _) fun _ => Ends.ite (fun _ => hrest _) fun _ => ?_
      refine Ends.ite (fun _ => hrest _) fun _ => Ends.ite (fun _ => hrest _) fun _ => ?_
      refine Ends.ite (fun _ => hrest _) fun _ => ?_
      refine Ends.ite (fun _ => hrest _) fun _ => Ends.ite (fun _ => hrest _) fun _ => ?_
      refine Ends.ite (fun hnumber => ?_) fun _ => Ends.ite (fun hname => ?_) fun _ => Ends.error _
      · dsimp only
        split
        · exact Ends.error _
        · exact ih _ (dropWhile_length_lt rest hnumber) _
      · exact ih _ (dropWhile_length_lt rest (isIdentChar_of_isIdentStart hname)) _

/-! ## The token lists that are evaluated exactly -/

/-- On the tokens, whatever the operations, the evaluator accepts only what the grammar derives, and
with the value of each derivation. -/
def ReadsExactly (tokens : List (Token N)) : Prop :=
  ∀ (F : Type) (ops : FloatOps N F) (v : F),
    Returns (fun fuel => evalTokens ops fuel tokens) (.ok v) →
      (∃ t : ExprTree N, t.tokens = tokens) ∧ ∀ t : ExprTree N, t.tokens = tokens → t.value ops = .ok v

/-- Whatever expression with known names stands at the front of the tokens, and is not gone on with,
nothing follows it, and it has no minus sign before the base of a power. -/
def OnlyPlain (tokens : List (Token N)) : Prop :=
  ∀ (t : ExprTree N) (rest : List (Token N)), tokens = t.tokens ++ rest → t.Known →
    Stops Token.isSummand t.tokens rest → rest = [] ∧ t.Plain

variable {t : ExprTree N} {tokens rest : List (Token N)}

/-- Tokens stop at their end. -/
lemma stops_nil (goesOn : Token N → Bool) (read : List (Token N)) : Stops goesOn read [] :=
  ⟨nofun, nofun⟩

/-- The evaluator returns what `parse_expr` returns, without the position. -/
lemma evalTokens_returns {r : Except String (F × List (Token N))}
    (h : Returns (fun fuel => parseExpr ops fuel tokens) r) :
    Returns (fun fuel => evalTokens ops fuel tokens) (r.map Prod.fst) := by
  cases r with
  | error e => exact h.andThen_error
  | ok p => exact h.andThen (Returns.pure _)

/-- On the tokens of an expression, the evaluator returns the value that it gives it. -/
lemma ExprTree.evalTokens_returns (t : ExprTree N) (h : Stops Token.isSummand t.tokens rest) :
    Returns (fun fuel => evalTokens ops fuel (t.tokens ++ rest)) (t.readValue ops) := by
  have hreturns : Returns (fun fuel => evalTokens ops fuel (t.tokens ++ rest)) _ :=
    MyClaw.evalTokens_returns (t.returns rest h)
  cases hvalue : t.readValue ops with
  | error e =>
    rw [hvalue] at hreturns
    exact hreturns
  | ok v =>
    rw [hvalue] at hreturns
    exact hreturns

/-- What the evaluator returns is the value that it gives an expression at the front of the tokens. -/
lemma exists_tree_of_evalTokens {v : F} (h : Returns (fun fuel => evalTokens ops fuel tokens) (.ok v)) :
    ∃ (t : ExprTree N) (rest : List (Token N)), tokens = t.tokens ++ rest ∧
      Stops Token.isSummand t.tokens rest ∧ t.readValue ops = .ok v := by
  obtain ⟨r, hr, hread⟩ := (readsAll ops tokens).expr
  have hunique := (evalTokens_returns hr).unique h
  cases r with
  | error e => cases hunique
  | ok p =>
    obtain ⟨t, htokens, hstops⟩ := hread p rfl
    refine ⟨t, p.2, htokens, hstops, ?_⟩
    rw [htokens] at h
    exact (t.evalTokens_returns hstops).unique h

/-- The evaluator is exact where only plain expressions stand at the front. -/
lemma readsExactly_of_onlyPlain (h : OnlyPlain tokens) : ReadsExactly tokens := by
  intro F ops v hv
  obtain ⟨t, rest, htokens, hstops, hread⟩ := exists_tree_of_evalTokens hv
  obtain ⟨rfl, -⟩ := h t rest htokens (ExprTree.known hread) hstops
  rw [List.append_nil] at htokens
  refine ⟨⟨t, htokens.symm⟩, fun t' htokens' => ?_⟩
  have hstops' := stops_nil Token.isSummand t'.tokens
  have hread' : t'.readValue ops = .ok v := by
    refine (t'.evalTokens_returns hstops').unique ?_
    rw [List.append_nil, htokens']
    exact hv
  have hfront : tokens = t'.tokens ++ [] := by rw [List.append_nil, htokens']
  obtain ⟨-, hplain⟩ := h t' [] hfront (ExprTree.known hread') hstops'
  rw [← hread', t'.readValue_eq_value hplain]

/-- Only plain expressions stand at the front where the evaluator is exact.

**Proof sketch.** Over uninterpreted operations, an expression at the front is given a value; so all
tokens are those of an expression, and the evaluator reads them all.  The expression at the front
then has this value as its own, and is plain. -/
lemma onlyPlain_of_readsExactly (h : ReadsExactly tokens) : OnlyPlain tokens := by
  rintro t rest rfl hknown hstops
  let ops : FloatOps N (FreeValue N) := freeOps fun _ => none
  obtain ⟨v, hread⟩ : ∃ v, t.readValue ops = .ok v := hknown.value
  have hreturns : Returns (fun fuel => parseExpr ops fuel (t.tokens ++ rest)) _ := t.returns rest hstops
  rw [hread] at hreturns
  obtain ⟨⟨t', htokens'⟩, hvalue⟩ := h _ _ v (evalTokens_returns hreturns)
  have hreturns' : Returns (fun fuel => parseExpr ops fuel (t'.tokens ++ [])) _ :=
    t'.returns [] (stops_nil _ _)
  rw [List.append_nil, htokens'] at hreturns'
  have hunique := hreturns'.unique hreturns
  have hrest : rest = [] := by
    cases hread' : t'.readValue ops with
    | error e =>
      rw [hread'] at hunique
      cases hunique
    | ok v' =>
      rw [hread'] at hunique
      exact (congrArg Prod.snd (Except.ok.inj hunique)).symm
  subst hrest
  exact ⟨rfl, ExprTree.plain hread (hvalue t (List.append_nil _).symm)⟩

/-- **The calculator ends on every text, and is exact on a list of tokens iff only plain expressions
stand at its front**. -/
theorem evalMath_exact (N : Type) :
    (∀ (F : Type) (ops : FloatOps N F) (input : List Char),
      (∃ r, Returns (fun fuel => tokenize ops fuel input) r) ∧
      ∃ r, Returns (fun fuel => evalMath ops fuel input) r) ∧
    (∀ (F : Type) (ops : FloatOps N F) (input : List Char) (tokens : List (Token N))
      (r : Except String F), Returns (fun fuel => tokenize ops fuel input) (.ok tokens) →
      (Returns (fun fuel => evalMath ops fuel input) r ↔
        Returns (fun fuel => evalTokens ops fuel tokens) r)) ∧
    ∀ tokens : List (Token N), ReadsExactly tokens ↔ OnlyPlain tokens := by
  have htokenize (F : Type) (ops : FloatOps N F) (input : List Char) :
      Ends (fun fuel => tokenize ops fuel input) fun _ => True := tokenizeFrom_ends ops input []
  have heval (F : Type) (ops : FloatOps N F) (tokens : List (Token N)) :
      Ends (fun fuel => evalTokens ops fuel tokens) fun _ => True :=
    (readsAll ops tokens).expr.andThen fun _ _ => Ends.ok trivial
  refine ⟨fun F ops input => ⟨?_, ?_⟩, fun F ops input tokens r htokens => ⟨fun h => ?_, fun h => ?_⟩,
    fun tokens => ⟨onlyPlain_of_readsExactly, readsExactly_of_onlyPlain⟩⟩
  · obtain ⟨r, hr, -⟩ := htokenize F ops input
    exact ⟨r, hr⟩
  · obtain ⟨r, hr, -⟩ := (htokenize F ops input).andThen fun tokens _ => heval F ops tokens
    exact ⟨r, hr⟩
  · obtain ⟨r', hr', -⟩ := heval F ops tokens
    rwa [h.unique (htokens.andThen hr')]
  · exact htokens.andThen h

/-- The tree of a number. -/
private def numberTree (n : ℕ) : ExprTree ℕ := .mk (.mk (.primary (.number n)) .nil) .nil

/-- The tree of the negative of a square. -/
private def negSquareTree (n : ℕ) : ExprTree ℕ :=
  .mk (.mk (.minus (.pow (.number n) (.primary (.number n)))) .nil) .nil

/-- Two numbers are evaluated to the first one, and the negative of `2 ^ 2` to the square of `-2`. -/
theorem not_readsExactly :
    let ops := freeOps fun text => some (text.foldl (fun n c => 10 * n + (c.toNat - 48)) 0)
    Returns (fun fuel => evalMath ops fuel ['2', ' ', '3']) (.ok (.number 2)) ∧
      ¬ReadsExactly [Token.number 2, .number 3] ∧
    Returns (fun fuel => evalMath ops fuel ['-', '2', '^', '2'])
        (.ok (.powf (.neg (.number 2)) (.number 2))) ∧
      ¬ReadsExactly [Token.minus, .number 2, .caret, .number 2] := by
  refine ⟨⟨10, fun fuel hfuel => ?_⟩, fun h => ?_, ⟨10, fun fuel hfuel => ?_⟩, fun h => ?_⟩
  · obtain ⟨n, rfl⟩ := Nat.exists_eq_add_of_le' hfuel
    rfl
  · have htokens : (numberTree 2).tokens = [.number 2] := by
      simp [numberTree, ExprTree.tokens, ExprTail.tokens, TermTree.tokens, TermTail.tokens,
        UnaryTree.tokens, PrimaryTree.tokens]
    have hknown : (numberTree 2).Known := by
      simp [numberTree, ExprTree.Known, ExprTail.Known, TermTree.Known, TermTail.Known,
        UnaryTree.Known, PrimaryTree.Known]
    have honly := onlyPlain_of_readsExactly h (numberTree 2) [.number 3]
    rw [htokens] at honly
    have hstops : Stops Token.isSummand [Token.number 2] [.number 3] :=
      ⟨fun t ht => by cases ht; rfl, nofun⟩
    cases (honly rfl hknown hstops).1
  · obtain ⟨n, rfl⟩ := Nat.exists_eq_add_of_le' hfuel
    rfl
  · have htokens : (negSquareTree 2).tokens = [.minus, .number 2, .caret, .number 2] := by
      simp [negSquareTree, ExprTree.tokens, ExprTail.tokens, TermTree.tokens, TermTail.tokens,
        UnaryTree.tokens, PrimaryTree.tokens]
    have hknown : (negSquareTree 2).Known := by
      simp [negSquareTree, ExprTree.Known, ExprTail.Known, TermTree.Known, TermTail.Known,
        UnaryTree.Known, PrimaryTree.Known]
    have honly := onlyPlain_of_readsExactly h (negSquareTree 2) []
    rw [htokens, List.append_nil] at honly
    obtain ⟨-, hplain⟩ := honly rfl hknown (stops_nil _ _)
    simp [negSquareTree, ExprTree.Plain, TermTree.Plain, UnaryTree.Plain] at hplain

end MyClaw
