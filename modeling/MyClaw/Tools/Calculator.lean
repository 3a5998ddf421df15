import MyClaw.Lib.Fuel

set_option autoImplicit false

/-!
# The calculator

The tokenizer and the recursive-descent evaluator of the calculator tool (`tools/calculator.rs`).

## Main definitions

* `FloatOps` — the operations on floating-point numbers that the evaluator calls.
* `tokenize`, `evalTokens`, `evalMath` — the tool.

## Implementation notes

The operations on numbers are parameters: `N` is what a number token carries, and `F` has the values.
A position in the tokens is the list of the tokens from there on.  The functions run on fuel.
-/

namespace MyClaw

open Fuel

/-- The operations on floating-point numbers. -/
structure FloatOps (N F : Type) where
  /-- `str::parse::<f64>`. -/
  parse : List Char → Option N
  number : N → F
  add : F → F → F
  sub : F → F → F
  mul : F → F → F
  div : F → F → F
  powf : F → F → F
  neg : F → F
  /-- `x == 0.0`. -/
  isZero : F → Bool
  /-- `x < 0.0`. -/
  isNegative : F → Bool
  toRadians : F → F
  toDegrees : F → F
  sin : F → F
  cos : F → F
  tan : F → F
  asin : F → F
  acos : F → F
  atan : F → F
  sqrt : F → F
  abs : F → F
  ln : F → F
  log10 : F → F
  log2 : F → F
  ceil : F → F
  floor : F → F
  round : F → F
  exp : F → F
  pi : F
  e : F
  tau : F
  infinity : F

/-- `Token`. -/
inductive Token (N : Type)
  | number (n : N)
  | plus
  | minus
  | star
  | slash
  | caret
  | lParen
  | rParen
  | ident (name : List Char)
  deriving DecidableEq

variable {N F : Type}

/-! ## The tokenizer -/

/-- A character of a number. -/
def isNumberChar (c : Char) : Bool := c.isDigit || c = '.'

/-- A first character of a name. -/
def isIdentStart (c : Char) : Bool := c.isAlpha || c = '_'

/-- A character of a name. -/
def isIdentChar (c : Char) : Bool := c.isAlphanum || c = '_'

/-- The loop of `tokenize`, with the tokens found so far. -/
def tokenizeFrom (ops : FloatOps N F) :
    ℕ → List (Token N) → List Char → Option (Except String (List (Token N)))
  | 0, _, _ => none
  | _ + 1, tokens, [] => some (.ok tokens)
  | fuel + 1, tokens, c :: rest =>
    if c = ' ' ∨ c = '\t' ∨ c = '\n' then tokenizeFrom ops fuel tokens rest
    else if c = '+' then tokenizeFrom ops fuel (tokens ++ [.plus]) rest
    else if c = '-' then tokenizeFrom ops fuel (tokens ++ [.minus]) rest
    else if c = '*' then tokenizeFrom ops fuel (tokens ++ [.star]) rest
    else if c = '/' then tokenizeFrom ops fuel (tokens ++ [.slash]) rest
    else if c = '^' then tokenizeFrom ops fuel (tokens ++ [.caret]) rest
    else if c = '(' then tokenizeFrom ops fuel (tokens ++ [.lParen]) rest
    else if c = ')' then tokenizeFrom ops fuel (tokens ++ [.rParen]) rest
    else if isNumberChar c then
      let text := (c :: rest).takeWhile isNumberChar
      match ops.parse text with
      | none => some (.error ("invalid number: " ++ String.ofList text))
      | some n => tokenizeFrom ops fuel (tokens ++ [.number n]) ((c :: rest).dropWhile isNumberChar)
    else if isIdentStart c then
      tokenizeFrom ops fuel (tokens ++ [.ident ((c :: rest).takeWhile isIdentChar)])
        ((c :: rest).dropWhile isIdentChar)
    else some (.error ("unexpected character: '" ++ String.ofList [c] ++ "'"))

/-- `tokenize`. -/
def tokenize (ops : FloatOps N F) (fuel : ℕ) (input : List Char) :
    Option (Except String (List (Token N))) :=
  tokenizeFrom ops fuel [] input

/-! ## Names -/

/-- `to_lowercase` of a name, which has only ASCII characters. -/
def lowercase (name : List Char) : String := String.ofList (name.map Char.toLower)

/-- The value of a function. -/
def applyFunction (ops : FloatOps N F) (name : List Char) (arg : F) : Except String F :=
  match lowercase name with
  | "sin" => .ok (ops.sin (ops.toRadians arg))
  | "cos" => .ok (ops.cos (ops.toRadians arg))
  | "tan" => .ok (ops.tan (ops.toRadians arg))
  | "asin" => .ok (ops.toDegrees (ops.asin arg))
  | "acos" => .ok (ops.toDegrees (ops.acos arg))
  | "atan" => .ok (ops.toDegrees (ops.atan arg))
  | "sqrt" => if ops.isNegative arg then .error "sqrt of negative number" else .ok (ops.sqrt arg)
  | "abs" => .ok (ops.abs arg)
  | "ln" => .ok (ops.ln arg)
  | "log" => .ok (ops.log10 arg)
  | "log10" => .ok (ops.log10 arg)
  | "log2" => .ok (ops.log2 arg)
  | "ceil" => .ok (ops.ceil arg)
  | "floor" => .ok (ops.floor arg)
  | "round" => .ok (ops.round arg)
  | "exp" => .ok (ops.exp arg)
  | other => .error ("unknown function: " ++ other)

/-- The value of a constant. -/
def constantValue (ops : FloatOps N F) (name : List Char) : Except String F :=
  match lowercase name with
  | "pi" => .ok ops.pi
  | "e" => .ok ops.e
  | "tau" => .ok ops.tau
  | "infinity" => .ok ops.infinity
  | "inf" => .ok ops.infinity
  | other => .error ("unknown constant: " ++ other)

/-- The value of a quotient. -/
def quotient (ops : FloatOps N F) (left right : F) : Except String F :=
  if ops.isZero right then .error "division by zero" else .ok (ops.div left right)

/-- The `Debug` text of a token that begins no operand; `parse_primary` names no other token. -/
def Token.debug : Token N → String
  | .star => "Star"
  | .slash => "Slash"
  | .caret => "Caret"
  | .rParen => "RParen"
  | .plus => "Plus"
  | .minus => "Minus"
  | .lParen => "LParen"
  | .number _ => "Number"
  | .ident _ => "Ident"

/-! ## The evaluator -/

/-- What a function of the evaluator gives: a value and the tokens after it, or an error. -/
abbrev Parsed (N F : Type) := Option (Except String (F × List (Token N)))

mutual

/-- `parse_expr`. -/
def parseExpr (ops : FloatOps N F) : ℕ → List (Token N) → Parsed N F
  | 0, _ => none
  | fuel + 1, tokens => andThen (parseTerm ops fuel tokens) fun (left, rest) =>
    exprLoop ops fuel left rest

/-- The loop of `parse_expr`. -/
def exprLoop (ops : FloatOps N F) : ℕ → F → List (Token N) → Parsed N F
  | 0, _, _ => none
  | fuel + 1, left, .plus :: tokens => andThen (parseTerm ops fuel tokens) fun (right, rest) =>
    exprLoop ops fuel (ops.add left right) rest
  | fuel + 1, left, .minus :: tokens => andThen (parseTerm ops fuel tokens) fun (right, rest) =>
    exprLoop ops fuel (ops.sub left right) rest
  | _ + 1, left, tokens => some (.ok (left, tokens))

/-- `parse_term`. -/
def parseTerm (ops : FloatOps N F) : ℕ → List (Token N) → Parsed N F
  | 0, _ => none
  | fuel + 1, tokens => andThen (parsePower ops fuel tokens) fun (left, rest) =>
    termLoop ops fuel left rest

/-- The loop of `parse_term`. -/
def termLoop (ops : FloatOps N F) : ℕ → F → List (Token N) → Parsed N F
  | 0, _, _ => none
  | fuel + 1, left, .star :: tokens => andThen (parsePower ops fuel tokens) fun (right, rest) =>
    termLoop ops fuel (ops.mul left right) rest
  | fuel + 1, left, .slash :: tokens => andThen (parsePower ops fuel tokens) fun (right, rest) =>
    andThen (some (quotient ops left right)) fun left => termLoop ops fuel left rest
  | _ + 1, left, tokens => some (.ok (left, tokens))

/-- `parse_power`. -/
def parsePower (ops : FloatOps N F) : ℕ → List (Token N) → Parsed N F
  | 0, _ => none
  | fuel + 1, tokens => andThen (parseUnary ops fuel tokens) fun (base, rest) =>
    powerTail ops fuel base rest

/-- The end of `parse_power`: what may follow the base. -/
def powerTail (ops : FloatOps N F) : ℕ → F → List (Token N) → Parsed N F
  | 0, _, _ => none
  | fuel + 1, base, .caret :: tokens => andThen (parsePower ops fuel tokens) fun (exp, rest) =>
    some (.ok (ops.powf base exp, rest))
  | _ + 1, base, tokens => some (.ok (base, tokens))

/-- `parse_unary`. -/
def parseUnary (ops : FloatOps N F) : ℕ → List (Token N) → Parsed N F
  | 0, _ => none
  | fuel + 1, .minus :: tokens => andThen (parseUnary ops fuel tokens) fun (val, rest) =>
    some (.ok (ops.neg val, rest))
  | fuel + 1, .plus :: tokens => parseUnary ops fuel tokens
  | fuel + 1, tokens => parsePrimary ops fuel tokens

/-- `parse_primary`. -/
def parsePrimary (ops : FloatOps N F) : ℕ → List (Token N) → Parsed N F
  | 0, _ => none
  | _ + 1, [] => some (.error "unexpected end of expression")
  | _ + 1, .number n :: tokens => some (.ok (ops.number n, tokens))
  | fuel + 1, .lParen :: tokens => andThen (parseExpr ops fuel tokens) fun (val, rest) =>
    match rest with
    | .rParen :: rest => some (.ok (val, rest))
    | _ => some (.error "expected ')'")
  | fuel + 1, .ident name :: .lParen :: tokens =>
    andThen (parseExpr ops fuel tokens) fun (arg, rest) =>
      match rest with
      | .rParen :: rest => some ((applyFunction ops name arg).map fun val => (val, rest))
      | _ => some (.error ("expected ')' after function arguments for " ++ String.ofList name))
  | _ + 1, .ident name :: tokens => some ((constantValue ops name).map fun val => (val, tokens))
  | _ + 1, token :: _ => some (.error ("unexpected token: " ++ token.debug))

end

/-- The part of `eval_math` that reads the tokens. -/
def evalTokens (ops : FloatOps N F) (fuel : ℕ) (tokens : List (Token N)) : Option (Except String F) :=
  andThen (parseExpr ops fuel tokens) fun (val, _) => some (.ok val)

/-- `eval_math`. -/
def evalMath (ops : FloatOps N F) (fuel : ℕ) (input : List Char) : Option (Except String F) :=
  andThen (tokenize ops fuel input) (evalTokens ops fuel)

end MyClaw
