import MyClaw.Tools.Calculator

set_option autoImplicit false

/-!
# The grammar of the calculator

The grammar of expressions in ordinary notation, as the trees of its derivations, with the value of a
derivation; and what the evaluator of the calculator (`tools/calculator.rs`) makes of such an
expression.

## Main definitions

* `ExprTree` — a derivation of an expression; powers bind tighter than signs.
* `ExprTree.tokens` — the tokens that are derived.
* `ExprTree.value` — the value of a derivation.
* `ExprTree.readValue` — the value that the evaluator gives it: signs bind tighter than powers.
* `ExprTree.Plain` — no minus sign stands before the base of a power.

## Main results

* `ExprTree.readValue_eq_value` — the values agree on plain expressions.
-/

namespace MyClaw

variable {N F : Type}

mutual

/-- `expr := term { ("+" | "-") term }`. -/
inductive ExprTree (N : Type)
  | mk (first : TermTree N) (tail : ExprTail N)

/-- What follows the first term of an expression. -/
inductive ExprTail (N : Type)
  | nil
  | add (right : TermTree N) (tail : ExprTail N)
  | sub (right : TermTree N) (tail : ExprTail N)

/-- `term := unary { ("*" | "/") unary }`. -/
inductive TermTree (N : Type)
  | mk (first : UnaryTree N) (tail : TermTail N)

/-- What follows the first factor of a term. -/
inductive TermTail (N : Type)
  | nil
  | mul (right : UnaryTree N) (tail : TermTail N)
  | div (right : UnaryTree N) (tail : TermTail N)

/-- `unary := ("-" | "+") unary | primary [ "^" unary ]`. -/
inductive UnaryTree (N : Type)
  | minus (operand : UnaryTree N)
  | plus (operand : UnaryTree N)
  | primary (base : PrimaryTree N)
  | pow (base : PrimaryTree N) (exponent : UnaryTree N)

/-- `primary := number | name | name "(" expr ")" | "(" expr ")"`. -/
inductive PrimaryTree (N : Type)
  | number (n : N)
  | constant (name : List Char)
  | call (name : List Char) (arg : ExprTree N)
  | group (inner : ExprTree N)

end

/-! ## The tokens that are derived -/

mutual

/-- The tokens of an expression. -/
def ExprTree.tokens : ExprTree N → List (Token N)
  | .mk first tail => first.tokens ++ tail.tokens

/-- The tokens of the terms after the first one. -/
def ExprTail.tokens : ExprTail N → List (Token N)
  | .nil => []
  | .add right tail => .plus :: (right.tokens ++ tail.tokens)
  | .sub right tail => .minus :: (right.tokens ++ tail.tokens)

/-- The tokens of a term. -/
def TermTree.tokens : TermTree N → List (Token N)
  | .mk first tail => first.tokens ++ tail.tokens

/-- The tokens of the factors after the first one. -/
def TermTail.tokens : TermTail N → List (Token N)
  | .nil => []
  | .mul right tail => .star :: (right.tokens ++ tail.tokens)
  | .div right tail => .slash :: (right.tokens ++ tail.tokens)

/-- The tokens of a factor. -/
def UnaryTree.tokens : UnaryTree N → List (Token N)
  | .minus operand => .minus :: operand.tokens
  | .plus operand => .plus :: operand.tokens
  | .primary base => base.tokens
  | .pow base exponent => base.tokens ++ .caret :: exponent.tokens

/-- The tokens of an operand. -/
def PrimaryTree.tokens : PrimaryTree N → List (Token N)
  | .number n => [.number n]
  | .constant name => [.ident name]
  | .call name arg => .ident name :: .lParen :: (arg.tokens ++ [.rParen])
  | .group inner => .lParen :: (inner.tokens ++ [.rParen])

end

/-! ## The value of a derivation -/

section Value

variable (ops : FloatOps N F)

mutual

/-- The value of an expression. -/
def ExprTree.value : ExprTree N → Except String F
  | .mk first tail => do tail.value (← first.value)

/-- The value of an expression with the value of what is before the tail. -/
def ExprTail.value : ExprTail N → F → Except String F
  | .nil, left => .ok left
  | .add right tail, left => do tail.value (ops.add left (← right.value))
  | .sub right tail, left => do tail.value (ops.sub left (← right.value))

/-- The value of a term. -/
def TermTree.value : TermTree N → Except String F
  | .mk first tail => do tail.value (← first.value)

/-- The value of a term with the value of what is before the tail. -/
def TermTail.value : TermTail N → F → Except String F
  | .nil, left => .ok left
  | .mul right tail, left => do tail.value (ops.mul left (← right.value))
  | .div right tail, left => do tail.value (← quotient ops left (← right.value))

/-- The value of a factor: a sign is one of the whole power. -/
def UnaryTree.value : UnaryTree N → Except String F
  | .minus operand => do return ops.neg (← operand.value)
  | .plus operand => operand.value
  | .primary base => base.value
  | .pow base exponent => do return ops.powf (← base.value) (← exponent.value)

/-- The value of an operand. -/
def PrimaryTree.value : PrimaryTree N → Except String F
  | .number n => .ok (ops.number n)
  | .constant name => constantValue ops name
  | .call name arg => do applyFunction ops name (← arg.value)
  | .group inner => inner.value

end

mutual

/-- The value that the evaluator gives an expression. -/
def ExprTree.readValue : ExprTree N → Except String F
  | .mk first tail => do tail.readValue (← first.readValue)

/-- The value that the evaluator gives with the value of what is before the tail. -/
def ExprTail.readValue : ExprTail N → F → Except String F
  | .nil, left => .ok left
  | .add right tail, left => do tail.readValue (ops.add left (← right.readValue))
  | .sub right tail, left => do tail.readValue (ops.sub left (← right.readValue))

/-- The value that the evaluator gives a term. -/
def TermTree.readValue : TermTree N → Except String F
  | .mk first tail => do tail.readValue (← first.readValue id)

/-- The value that the evaluator gives with the value of what is before the tail. -/
def TermTail.readValue : TermTail N → F → Except String F
  | .nil, left => .ok left
  | .mul right tail, left => do tail.readValue (ops.mul left (← right.readValue id))
  | .div right tail, left => do tail.readValue (← quotient ops left (← right.readValue id))

/-- The value that the evaluator gives a factor behind signs: the signs are those of the base. -/
def UnaryTree.readValue : UnaryTree N → (F → F) → Except String F
  | .minus operand, signs => operand.readValue fun x => signs (ops.neg x)
  | .plus operand, signs => operand.readValue signs
  | .primary base, signs => do return signs (← base.readValue)
  | .pow base exponent, signs => do
    return ops.powf (signs (← base.readValue)) (← exponent.readValue id)

/-- The value that the evaluator gives an operand. -/
def PrimaryTree.readValue : PrimaryTree N → Except String F
  | .number n => .ok (ops.number n)
  | .constant name => constantValue ops name
  | .call name arg => do applyFunction ops name (← arg.readValue)
  | .group inner => inner.readValue

end

end Value

/-! ## Plain expressions -/

mutual

/-- No minus sign stands before the base of a power. -/
def ExprTree.Plain : ExprTree N → Prop
  | .mk first tail => first.Plain ∧ tail.Plain

/-- No minus sign stands before the base of a power in the terms after the first one. -/
def ExprTail.Plain : ExprTail N → Prop
  | .nil => True
  | .add right tail => right.Plain ∧ tail.Plain
  | .sub right tail => right.Plain ∧ tail.Plain

/-- No minus sign stands before the base of a power in a term. -/
def TermTree.Plain : TermTree N → Prop
  | .mk first tail => first.Plain False ∧ tail.Plain

/-- No minus sign stands before the base of a power in the factors after the first one. -/
def TermTail.Plain : TermTail N → Prop
  | .nil => True
  | .mul right tail => right.Plain False ∧ tail.Plain
  | .div right tail => right.Plain False ∧ tail.Plain

/-- No minus sign stands before the base of a power in a factor; whether one stands before it. -/
def UnaryTree.Plain : UnaryTree N → Prop → Prop
  | .minus operand, _ => operand.Plain True
  | .plus operand, signed => operand.Plain signed
  | .primary base, _ => base.Plain
  | .pow base exponent, signed => ¬signed ∧ base.Plain ∧ exponent.Plain False

/-- No minus sign stands before the base of a power in an operand. -/
def PrimaryTree.Plain : PrimaryTree N → Prop
  | .number _ => True
  | .constant _ => True
  | .call _ arg => arg.Plain
  | .group inner => inner.Plain

end

/-! ## The two values of a plain expression -/

variable {ops : FloatOps N F}

mutual

/-- **The values agree on plain expressions**. -/
theorem ExprTree.readValue_eq_value : ∀ t : ExprTree N, t.Plain → t.readValue ops = t.value ops
  | .mk first tail, h => by
    rw [ExprTree.Plain] at h
    rw [ExprTree.readValue, ExprTree.value, first.readValue_eq_value h.1]
    simp only [tail.readValue_eq_value h.2]

/-- The values agree on plain terms after the first one. -/
theorem ExprTail.readValue_eq_value :
    ∀ t : ExprTail N, t.Plain → ∀ left, t.readValue ops left = t.value ops left
  | .nil, _, left => by rw [ExprTail.readValue, ExprTail.value]
  | .add right tail, h, left => by
    rw [ExprTail.Plain] at h
    rw [ExprTail.readValue, ExprTail.value, right.readValue_eq_value h.1]
    simp only [tail.readValue_eq_value h.2]
  | .sub right tail, h, left => by
    rw [ExprTail.Plain] at h
    rw [ExprTail.readValue, ExprTail.value, right.readValue_eq_value h.1]
    simp only [tail.readValue_eq_value h.2]

/-- The values agree on plain terms. -/
theorem TermTree.readValue_eq_value : ∀ t : TermTree N, t.Plain → t.readValue ops = t.value ops
  | .mk first tail, h => by
    rw [TermTree.Plain] at h
    rw [TermTree.readValue, TermTree.value, first.readValue_id h.1]
    simp only [tail.readValue_eq_value h.2]

/-- The values agree on plain factors after the first one. -/
theorem TermTail.readValue_eq_value :
    ∀ t : TermTail N, t.Plain → ∀ left, t.readValue ops left = t.value ops left
  | .nil, _, left => by rw [TermTail.readValue, TermTail.value]
  | .mul right tail, h, left => by
    rw [TermTail.Plain] at h
    rw [TermTail.readValue, TermTail.value, right.readValue_id h.1]
    simp only [tail.readValue_eq_value h.2]
  | .div right tail, h, left => by
    rw [TermTail.Plain] at h
    rw [TermTail.readValue, TermTail.value, right.readValue_id h.1]
    simp only [tail.readValue_eq_value h.2]

/-- The values agree on a plain factor without signs before it. -/
theorem UnaryTree.readValue_id : ∀ t : UnaryTree N, t.Plain False → t.readValue ops id = t.value ops
  | t, h => by
    have hmap := t.readValue_eq_map False id h fun _ => rfl
    cases hvalue : t.value ops with
    | error e => rw [hmap, hvalue]; rfl
    | ok v => rw [hmap, hvalue]; rfl

/-- The value of a plain factor behind signs is the one with these signs. -/
theorem UnaryTree.readValue_eq_map : ∀ (t : UnaryTree N) (signed : Prop) (signs : F → F),
    t.Plain signed → (¬signed → signs = id) → t.readValue ops signs = (t.value ops).map signs
  | .minus operand, signed, signs, h, _ => by
    rw [UnaryTree.Plain] at h
    rw [UnaryTree.readValue, UnaryTree.value,
      operand.readValue_eq_map True _ h fun hno => absurd trivial hno]
    cases operand.value ops <;> rfl
  | .plus operand, signed, signs, h, hid => by
    rw [UnaryTree.Plain] at h
    rw [UnaryTree.readValue, UnaryTree.value, operand.readValue_eq_map signed signs h hid]
  | .primary base, signed, signs, h, _ => by
    rw [UnaryTree.Plain] at h
    rw [UnaryTree.readValue, UnaryTree.value, base.readValue_eq_value h]
    cases base.value ops <;> rfl
  | .pow base exponent, signed, signs, h, hid => by
    rw [UnaryTree.Plain] at h
    obtain ⟨hno, hbase, hexponent⟩ := h
    rw [UnaryTree.readValue, UnaryTree.value, base.readValue_eq_value hbase,
      exponent.readValue_id hexponent, hid hno]
    cases base.value ops with
    | error e => rfl
    | ok b => cases exponent.value ops <;> rfl

/-- The values agree on plain operands. -/
theorem PrimaryTree.readValue_eq_value : ∀ t : PrimaryTree N, t.Plain → t.readValue ops = t.value ops
  | .number n, _ => by rw [PrimaryTree.readValue, PrimaryTree.value]
  | .constant name, _ => by rw [PrimaryTree.readValue, PrimaryTree.value]
  | .call name arg, h => by
    rw [PrimaryTree.Plain] at h
    rw [PrimaryTree.readValue, PrimaryTree.value, arg.readValue_eq_value h]
  | .group inner, h => by
    rw [PrimaryTree.Plain] at h
    rw [PrimaryTree.readValue, PrimaryTree.value, inner.readValue_eq_value h]

end

end MyClaw
