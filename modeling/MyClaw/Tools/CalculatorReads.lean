import MyClaw.Tools.CalculatorGrammar

set_option autoImplicit false

/-!
# What the calculator reads

The evaluator of the calculator (`tools/calculator.rs`) reads an expression at the front of the
tokens, as far as the tokens go on with one; it ends on all tokens.

## Main definitions

* `Stops` — the tokens do not go on with an operator or a call.

## Main results

* `ExprTree.returns` — on the tokens of an expression, the evaluator returns its value.
* `readsAll` — the evaluator ends, and what it reads is an expression.
-/

namespace MyClaw

open Fuel

variable {N F : Type} {ops : FloatOps N F}

/-! ## How tokens go on -/

/-- A token that goes on with a power. -/
def Token.isPower : Token N → Bool
  | .caret => true
  | _ => false

/-- A token that goes on with a term. -/
def Token.isFactor : Token N → Bool
  | .star => true
  | .slash => true
  | t => t.isPower

/-- A token that goes on with an expression. -/
def Token.isSummand : Token N → Bool
  | .plus => true
  | .minus => true
  | t => t.isFactor

/-- Behind the tokens `read`, the tokens `rest` do not go on with an operator that meets `goesOn`,
and do not make a call of a name. -/
structure Stops (goesOn : Token N → Bool) (read rest : List (Token N)) : Prop where
  operator : ∀ t, rest.head? = some t → goesOn t = false
  call : ∀ name, read.getLast? = some (.ident name) → rest.head? ≠ some .lParen

variable {goesOn goesOn' : Token N → Bool} {a b rest : List (Token N)}

/-- Tokens that stop behind a part stop behind the end of it. -/
lemma Stops.right (h : Stops goesOn (a ++ b) rest) : Stops goesOn b rest := by
  refine ⟨h.operator, fun name hname => h.call name ?_⟩
  have hne : b ≠ [] := by
    rintro rfl
    cases hname
  rw [List.getLast?_append_of_ne_nil _ hne, hname]

lemma Stops.behind {t : Token N} (h : Stops goesOn (t :: b) rest) : Stops goesOn b rest :=
  Stops.right (a := [t]) h

/-- Tokens that stop for more operators stop for fewer. -/
lemma Stops.mono (h : Stops goesOn a rest) (hle : ∀ t, goesOn' t = true → goesOn t = true) :
    Stops goesOn' a rest := by
  refine ⟨fun t ht => ?_, h.call⟩
  have hstop := h.operator t ht
  by_contra hon
  rw [hle t (by simpa using hon)] at hstop
  cases hstop

/-- The first part stops in front of the second one, or in front of the rest if there is none. -/
lemma Stops.left (h : Stops goesOn (a ++ b) rest)
    (hb : ∀ t, b.head? = some t → goesOn' t = false ∧ t ≠ .lParen)
    (hle : ∀ t, goesOn' t = true → goesOn t = true) : Stops goesOn' a (b ++ rest) := by
  cases b with
  | nil =>
    rw [List.append_nil] at h
    exact h.mono hle
  | cons t b =>
    obtain ⟨hstop, hparen⟩ := hb t rfl
    refine ⟨fun t' ht' => ?_, fun _ _ ht' => ?_⟩
    · cases ht'
      exact hstop
    · cases ht'
      exact hparen rfl

lemma Token.isFactor_of_isPower : ∀ t : Token N, t.isPower = true → t.isFactor = true
  | .caret, _ => rfl

lemma Token.isSummand_of_isFactor : ∀ t : Token N, t.isFactor = true → t.isSummand = true
  | .caret, _ => rfl
  | .star, _ => rfl
  | .slash, _ => rfl

/-- The tokens of the terms after the first one begin with a sign. -/
lemma ExprTail.head (t : ExprTail N) (x : Token N) (h : t.tokens.head? = some x) :
    x.isFactor = false ∧ x ≠ .lParen := by
  cases t with
  | nil =>
    rw [ExprTail.tokens] at h
    cases h
  | add right tail =>
    rw [ExprTail.tokens] at h
    cases h
    exact ⟨rfl, nofun⟩
  | sub right tail =>
    rw [ExprTail.tokens] at h
    cases h
    exact ⟨rfl, nofun⟩

/-- The tokens of the factors after the first one begin with an operator of a term. -/
lemma TermTail.head (t : TermTail N) (x : Token N) (h : t.tokens.head? = some x) :
    x.isPower = false ∧ x ≠ .lParen := by
  cases t with
  | nil =>
    rw [TermTail.tokens] at h
    cases h
  | mul right tail =>
    rw [TermTail.tokens] at h
    cases h
    exact ⟨rfl, nofun⟩
  | div right tail =>
    rw [TermTail.tokens] at h
    cases h
    exact ⟨rfl, nofun⟩

/-! ## Signs, base and exponent -/

/-- The value that `parse_unary` gives the signs and the base of a factor. -/
def UnaryTree.signedBase (ops : FloatOps N F) : UnaryTree N → Except String F
  | .minus operand => (operand.signedBase ops).map ops.neg
  | .plus operand => operand.signedBase ops
  | .primary base => base.readValue ops
  | .pow base _ => base.readValue ops

/-- The value of a factor with the value of its signs and base. -/
def UnaryTree.powValue (ops : FloatOps N F) : UnaryTree N → F → Except String F
  | .minus operand, base => operand.powValue ops base
  | .plus operand, base => operand.powValue ops base
  | .primary _, base => .ok base
  | .pow _ exponent, base => (exponent.readValue ops id).map (ops.powf base)

/-- The tokens of a factor behind its base. -/
def UnaryTree.expTokens : UnaryTree N → List (Token N)
  | .minus operand => operand.expTokens
  | .plus operand => operand.expTokens
  | .primary _ => []
  | .pow _ exponent => .caret :: exponent.tokens

lemma UnaryTree.readValue_eq (ops : FloatOps N F) :
    ∀ (u : UnaryTree N) (signs : F → F), u.readValue ops signs =
      (do u.powValue ops (signs (← u.signedBase ops)))
  | .minus operand, signs => by
    rw [UnaryTree.readValue, operand.readValue_eq ops, UnaryTree.signedBase]
    cases operand.signedBase ops <;> rfl
  | .plus operand, signs => by
    rw [UnaryTree.readValue, operand.readValue_eq ops, UnaryTree.signedBase]
    rfl
  | .primary base, signs => by
    rw [UnaryTree.readValue, UnaryTree.signedBase]
    rfl
  | .pow base exponent, signs => by
    rw [UnaryTree.readValue, UnaryTree.signedBase]
    cases base.readValue ops with
    | error e => rfl
    | ok v =>
      show _ = (exponent.readValue ops id).map (ops.powf (signs v))
      cases exponent.readValue ops id <;> rfl

/-! ## An expression is read -/

/-- The loop of `parse_expr` ends in front of tokens that do not go on. -/
lemma exprLoop_stops {read : List (Token N)} (left : F) (h : Stops Token.isSummand read rest) :
    Returns (fun fuel => exprLoop ops fuel left rest) (.ok (left, rest)) := by
  refine Returns.succ (fun fuel => ?_) (Returns.pure _)
  rw [exprLoop]
  · rintro tokens rfl
    exact Bool.noConfusion (h.operator _ rfl)
  · rintro tokens rfl
    exact Bool.noConfusion (h.operator _ rfl)

/-- The loop of `parse_term` ends in front of tokens that do not go on. -/
lemma termLoop_stops {read : List (Token N)} (left : F) (h : Stops Token.isFactor read rest) :
    Returns (fun fuel => termLoop ops fuel left rest) (.ok (left, rest)) := by
  refine Returns.succ (fun fuel => ?_) (Returns.pure _)
  rw [termLoop]
  · rintro tokens rfl
    exact Bool.noConfusion (h.operator _ rfl)
  · rintro tokens rfl
    exact Bool.noConfusion (h.operator _ rfl)

/-- A base stands alone in front of tokens that do not go on. -/
lemma powerTail_stops {read : List (Token N)} (base : F) (h : Stops Token.isPower read rest) :
    Returns (fun fuel => powerTail ops fuel base rest) (.ok (base, rest)) := by
  refine Returns.succ (fun fuel => ?_) (Returns.pure _)
  rw [powerTail]
  rintro tokens rfl
  exact Bool.noConfusion (h.operator _ rfl)

/-- `parse_unary` leaves an operand to `parse_primary`. -/
lemma parseUnary_primary (t : PrimaryTree N) (rest : List (Token N)) (fuel : ℕ) :
    parseUnary ops (fuel + 1) (t.tokens ++ rest) = parsePrimary ops fuel (t.tokens ++ rest) := by
  cases t <;> rw [PrimaryTree.tokens] <;> rfl

/-- An expression stops in front of a closing parenthesis. -/
lemma stops_rParen (read rest : List (Token N)) : Stops Token.isSummand read ([.rParen] ++ rest) := by
  refine ⟨fun t ht => ?_, fun _ _ hhead => ?_⟩
  · cases ht
    rfl
  · cases hhead

mutual

/-- **The tokens of an expression** are read with its value, whatever stops behind them. -/
theorem ExprTree.returns : ∀ (t : ExprTree N) (rest : List (Token N)),
    Stops Token.isSummand t.tokens rest →
    Returns (fun fuel => parseExpr ops fuel (t.tokens ++ rest)) ((t.readValue ops).map (·, rest))
  | .mk first tail, rest, h => by
    rw [ExprTree.tokens] at h ⊢
    rw [ExprTree.readValue, List.append_assoc]
    refine Returns.succ (fun fuel => by rw [parseExpr]) ?_
    refine Returns.andThen_map (first.returns _ ?_) fun left _ => tail.returns rest left h.right
    exact h.left tail.head Token.isSummand_of_isFactor

/-- The tokens of the terms after the first one. -/
theorem ExprTail.returns : ∀ (t : ExprTail N) (rest : List (Token N)) (left : F),
    Stops Token.isSummand t.tokens rest →
    Returns (fun fuel => exprLoop ops fuel left (t.tokens ++ rest))
      ((t.readValue ops left).map (·, rest))
  | .nil, rest, left, h => by
    rw [ExprTail.tokens] at h ⊢
    rw [ExprTail.readValue, List.nil_append]
    exact exprLoop_stops left h
  | .add right tail, rest, left, h => by
    rw [ExprTail.tokens] at h ⊢
    rw [ExprTail.readValue, List.cons_append, List.append_assoc]
    refine Returns.succ (fun fuel => by rw [exprLoop]) ?_
    have h : Stops Token.isSummand (right.tokens ++ tail.tokens) rest := h.behind
    refine Returns.andThen_map (right.returns _ ?_) fun v _ => tail.returns rest _ h.right
    exact h.left tail.head Token.isSummand_of_isFactor
  | .sub right tail, rest, left, h => by
    rw [ExprTail.tokens] at h ⊢
    rw [ExprTail.readValue, List.cons_append, List.append_assoc]
    refine Returns.succ (fun fuel => by rw [exprLoop]) ?_
    have h : Stops Token.isSummand (right.tokens ++ tail.tokens) rest := h.behind
    refine Returns.andThen_map (right.returns _ ?_) fun v _ => tail.returns rest _ h.right
    exact h.left tail.head Token.isSummand_of_isFactor

/-- The tokens of a term. -/
theorem TermTree.returns : ∀ (t : TermTree N) (rest : List (Token N)),
    Stops Token.isFactor t.tokens rest →
    Returns (fun fuel => parseTerm ops fuel (t.tokens ++ rest)) ((t.readValue ops).map (·, rest))
  | .mk first tail, rest, h => by
    rw [TermTree.tokens] at h ⊢
    rw [TermTree.readValue, List.append_assoc]
    refine Returns.succ (fun fuel => by rw [parseTerm]) ?_
    refine Returns.andThen_map (first.power_returns _ ?_) fun left _ => tail.returns rest left h.right
    exact h.left tail.head Token.isFactor_of_isPower

/-- The tokens of the factors after the first one. -/
theorem TermTail.returns : ∀ (t : TermTail N) (rest : List (Token N)) (left : F),
    Stops Token.isFactor t.tokens rest →
    Returns (fun fuel => termLoop ops fuel left (t.tokens ++ rest))
      ((t.readValue ops left).map (·, rest))
  | .nil, rest, left, h => by
    rw [TermTail.tokens] at h ⊢
    rw [TermTail.readValue, List.nil_append]
    exact termLoop_stops left h
  | .mul right tail, rest, left, h => by
    rw [TermTail.tokens] at h ⊢
    rw [TermTail.readValue, List.cons_append, List.append_assoc]
    refine Returns.succ (fun fuel => by rw [termLoop]) ?_
    have h : Stops Token.isFactor (right.tokens ++ tail.tokens) rest := h.behind
    refine Returns.andThen_map (right.power_returns _ ?_) fun v _ => tail.returns rest _ h.right
    exact h.left tail.head Token.isFactor_of_isPower
  | .div right tail, rest, left, h => by
    rw [TermTail.tokens] at h ⊢
    rw [TermTail.readValue, List.cons_append, List.append_assoc]
    refine Returns.succ (fun fuel => by rw [termLoop]) ?_
    have h : Stops Token.isFactor (right.tokens ++ tail.tokens) rest := h.behind
    refine Returns.andThen_map (right.power_returns _ ?_) fun v _ => ?_
    · exact h.left tail.head Token.isFactor_of_isPower
    · exact Returns.andThen_some fun q _ => tail.returns rest q h.right

/-- The tokens of a factor. -/
theorem UnaryTree.power_returns : ∀ (t : UnaryTree N) (rest : List (Token N)),
    Stops Token.isPower t.tokens rest →
    Returns (fun fuel => parsePower ops fuel (t.tokens ++ rest)) ((t.readValue ops id).map (·, rest))
  | t, rest, h => by
    rw [t.readValue_eq ops id]
    refine Returns.succ (fun fuel => by rw [parsePower]) ?_
    exact Returns.andThen_map (t.unary_returns rest h) fun base _ => t.tail_returns rest base h

/-- The tokens of the signs and the base of a factor. -/
theorem UnaryTree.unary_returns : ∀ (t : UnaryTree N) (rest : List (Token N)),
    Stops Token.isPower t.tokens rest →
    Returns (fun fuel => parseUnary ops fuel (t.tokens ++ rest))
      ((t.signedBase ops).map (·, t.expTokens ++ rest))
  | .minus operand, rest, h => by
    rw [UnaryTree.tokens] at h ⊢
    rw [UnaryTree.signedBase, UnaryTree.expTokens, List.cons_append]
    refine Returns.succ (fun fuel => by rw [parseUnary]) ?_
    have hmap : (operand.signedBase ops).map ops.neg =
        operand.signedBase ops >>= fun val => .ok (ops.neg val) := by
      cases operand.signedBase ops <;> rfl
    rw [hmap]
    exact Returns.andThen_map (operand.unary_returns rest h.behind) fun val _ =>
      Returns.pure _
  | .plus operand, rest, h => by
    rw [UnaryTree.tokens] at h ⊢
    rw [UnaryTree.signedBase, UnaryTree.expTokens, List.cons_append]
    refine Returns.succ (fun fuel => by rw [parseUnary]) ?_
    exact operand.unary_returns rest h.behind
  | .primary base, rest, h => by
    rw [UnaryTree.tokens] at h ⊢
    exact Returns.succ (fun fuel => parseUnary_primary base rest fuel) (base.returns rest _ h)
  | .pow base exponent, rest, h => by
    rw [UnaryTree.tokens, List.append_assoc]
    refine Returns.succ (fun fuel => parseUnary_primary base _ fuel) ?_
    refine base.returns _ (fun _ => false) ⟨fun _ _ => rfl, fun _ _ hhead => ?_⟩
    cases hhead

/-- The tokens behind the base of a factor. -/
theorem UnaryTree.tail_returns : ∀ (t : UnaryTree N) (rest : List (Token N)) (base : F),
    Stops Token.isPower t.tokens rest →
    Returns (fun fuel => powerTail ops fuel base (t.expTokens ++ rest))
      ((t.powValue ops base).map (·, rest))
  | .minus operand, rest, base, h => by
    rw [UnaryTree.tokens] at h
    exact operand.tail_returns rest base h.behind
  | .plus operand, rest, base, h => by
    rw [UnaryTree.tokens] at h
    exact operand.tail_returns rest base h.behind
  | .primary _, rest, base, h => powerTail_stops base h
  | .pow _ exponent, rest, base, h => by
    rw [UnaryTree.tokens] at h
    rw [UnaryTree.expTokens, UnaryTree.powValue, List.cons_append]
    have hmap : (exponent.readValue ops id).map (ops.powf base) =
        exponent.readValue ops id >>= fun exp => .ok (ops.powf base exp) := by
      cases exponent.readValue ops id <;> rfl
    rw [hmap]
    refine Returns.succ (fun fuel => by rw [powerTail]) ?_
    exact Returns.andThen_map (exponent.power_returns rest h.right.behind) fun exp _ =>
      Returns.pure _

/-- The tokens of an operand. -/
theorem PrimaryTree.returns : ∀ (t : PrimaryTree N) (rest : List (Token N)) (goesOn : Token N → Bool),
    Stops goesOn t.tokens rest →
    Returns (fun fuel => parsePrimary ops fuel (t.tokens ++ rest)) ((t.readValue ops).map (·, rest))
  | .number n, rest, _, _ => by
    rw [PrimaryTree.tokens, PrimaryTree.readValue]
    refine Returns.succ (fun fuel => ?_) (Returns.pure _)
    rw [List.singleton_append, parsePrimary]
    rfl
  | .constant name, rest, _, h => by
    rw [PrimaryTree.tokens] at h
    rw [PrimaryTree.tokens, PrimaryTree.readValue, List.singleton_append]
    refine Returns.succ (fun fuel => ?_) (Returns.pure _)
    rw [parsePrimary]
    rintro tokens rfl
    exact h.call name rfl rfl
  | .call name arg, rest, _, _ => by
    rw [PrimaryTree.tokens, PrimaryTree.readValue, List.cons_append, List.cons_append,
      List.append_assoc]
    refine Returns.succ (fun fuel => by rw [parsePrimary]) ?_
    exact Returns.andThen_map (arg.returns _ (stops_rParen _ rest)) fun val _ => Returns.pure _
  | .group inner, rest, _, _ => by
    rw [PrimaryTree.tokens, PrimaryTree.readValue, List.cons_append, List.append_assoc]
    have hbind : inner.readValue ops = inner.readValue ops >>= fun val => .ok val := by
      cases inner.readValue ops <;> rfl
    rw [hbind]
    refine Returns.succ (fun fuel => by rw [parsePrimary]) ?_
    exact Returns.andThen_map (inner.returns _ (stops_rParen _ rest)) fun val _ => Returns.pure _

end

/-! ## What is read is an expression -/

/-- Parts that follow one another stop where the last one does. -/
lemma Stops.append (ha : Stops goesOn a (b ++ rest)) (hb : Stops goesOn' b rest) :
    Stops goesOn' (a ++ b) rest := by
  refine ⟨hb.operator, fun name hname => ?_⟩
  rcases List.eq_nil_or_concat b with rfl | ⟨front, t, rfl⟩
  · rw [List.append_nil] at hname
    exact ha.call name hname
  · rw [List.getLast?_append_of_ne_nil _ (by simp)] at hname
    exact hb.call name hname

/-- A token that is no name in front of a part that stops. -/
lemma Stops.cons {t : Token N} (h : Stops goesOn b rest) (ht : ∀ name, t ≠ .ident name) :
    Stops goesOn (t :: b) rest := by
  have hone : Stops (fun _ => false) [t] (b ++ rest) := by
    refine ⟨fun _ _ => rfl, fun name hname => ?_⟩
    exact absurd (Option.some.inj hname) (ht name)
  exact hone.append h

/-- A factor with signs in front, minus signs for `true`. -/
def UnaryTree.under (signs : List Bool) (t : UnaryTree N) : UnaryTree N :=
  signs.foldr (fun minus t => if minus then .minus t else .plus t) t

/-- The tokens of signs. -/
def signTokens (signs : List Bool) : List (Token N) :=
  signs.map fun minus => if minus then .minus else .plus

lemma UnaryTree.tokens_under (signs : List Bool) (t : UnaryTree N) :
    (t.under signs).tokens = signTokens signs ++ t.tokens := by
  induction signs with
  | nil => rfl
  | cons minus signs ih =>
    have hcons : UnaryTree.under (minus :: signs) t =
        if minus then .minus (t.under signs) else .plus (t.under signs) := rfl
    rw [hcons]
    cases minus
    · rw [if_neg (by simp), UnaryTree.tokens, ih]
      rfl
    · rw [if_pos rfl, UnaryTree.tokens, ih]
      rfl

/-- The tokens behind a base, if there is an exponent. -/
def tailTokens (exponent : Option (UnaryTree N)) : List (Token N) :=
  exponent.elim [] fun t => .caret :: t.tokens

/-- What the functions of the evaluator read at the front of some tokens. -/
structure ReadsAll (ops : FloatOps N F) (tokens : List (Token N)) : Prop where
  expr : Ends (fun fuel => parseExpr ops fuel tokens) fun p => ∃ t : ExprTree N,
    tokens = t.tokens ++ p.2 ∧ Stops Token.isSummand t.tokens p.2
  exprLoop : (∀ t, tokens.head? = some t → t.isFactor = false) → ∀ left,
    Ends (fun fuel => exprLoop ops fuel left tokens) fun p => ∃ t : ExprTail N,
      tokens = t.tokens ++ p.2 ∧ Stops Token.isSummand t.tokens p.2
  term : Ends (fun fuel => parseTerm ops fuel tokens) fun p => ∃ t : TermTree N,
    tokens = t.tokens ++ p.2 ∧ Stops Token.isFactor t.tokens p.2
  termLoop : (∀ t, tokens.head? = some t → t.isPower = false) → ∀ left,
    Ends (fun fuel => termLoop ops fuel left tokens) fun p => ∃ t : TermTail N,
      tokens = t.tokens ++ p.2 ∧ Stops Token.isFactor t.tokens p.2
  power : Ends (fun fuel => parsePower ops fuel tokens) fun p => ∃ t : UnaryTree N,
    tokens = t.tokens ++ p.2 ∧ Stops Token.isPower t.tokens p.2
  powerTail : ∀ base, Ends (fun fuel => powerTail ops fuel base tokens) fun p =>
    ∃ exponent : Option (UnaryTree N), tokens = tailTokens exponent ++ p.2 ∧
      Stops Token.isPower (tailTokens exponent) p.2
  unary : Ends (fun fuel => parseUnary ops fuel tokens) fun p => ∃ signs, ∃ t : PrimaryTree N,
    tokens = signTokens signs ++ (t.tokens ++ p.2) ∧ Stops (fun _ => false) t.tokens p.2

variable {tokens : List (Token N)}

/-- A name that is not followed by an opening parenthesis is a constant. -/
lemma parsePrimary_constant (ops : FloatOps N F) (name : List Char) {rest : List (Token N)}
    (h : rest.head? ≠ some .lParen) (fuel : ℕ) :
    parsePrimary ops (fuel + 1) (.ident name :: rest) =
      some ((constantValue ops name).map fun val => (val, rest)) := by
  rw [parsePrimary]
  rintro tokens rfl
  exact h rfl

/-- What stands in parentheses is read up to the closing one. -/
lemma closing_ends {X : Type} {later : List (Token N)} {text : X → List (Token N)} {error : String}
    (start : List (Token N)) (make : ExprTree N → X) (k : F → Except String F)
    (hlater : Ends (fun fuel => parseExpr ops fuel later) fun p =>
      ∃ t : ExprTree N, later = t.tokens ++ p.2 ∧ Stops Token.isSummand t.tokens p.2)
    (htext : ∀ t, text (make t) = start ++ (t.tokens ++ [.rParen])) :
    Ends (fun fuel => andThen (parseExpr ops fuel later) fun (val, rest) =>
      match rest with
      | .rParen :: rest => some ((k val).map fun val => (val, rest))
      | _ => some (.error error)) fun p => ∃ t : X,
        start ++ later = text t ++ p.2 ∧ Stops (fun _ => false) (text t) p.2 := by
  refine hlater.andThen fun ⟨val, mid⟩ ⟨t, htokens, _⟩ => ?_
  cases mid with
  | nil => exact Ends.error _
  | cons token mid =>
    cases token with
    | rParen =>
      cases hk : k val with
      | error e =>
        dsimp only
        rw [hk]
        exact Ends.error e
      | ok v =>
        dsimp only
        rw [hk]
        refine Ends.ok ⟨make t, ?_, fun _ _ => rfl, fun name hname => ?_⟩
        · rw [htokens, htext]
          simp
        · rw [htext, ← List.append_assoc, List.getLast?_concat] at hname
          cases hname
    | _ => exact Ends.error _

/-- `parse_primary` reads an operand. -/
lemma parsePrimary_ends
    (ih : ∀ later : List (Token N), later.length < tokens.length → ReadsAll ops later) :
    Ends (fun fuel => parsePrimary ops fuel tokens) fun p => ∃ t : PrimaryTree N,
      tokens = t.tokens ++ p.2 ∧ Stops (fun _ => false) t.tokens p.2 := by
  have hconstant (name : List Char) (rest : List (Token N)) (hrest : rest.head? ≠ some .lParen) :
      Ends (fun fuel => parsePrimary ops fuel (.ident name :: rest)) fun p => ∃ t : PrimaryTree N,
        .ident name :: rest = t.tokens ++ p.2 ∧ Stops (fun _ => false) t.tokens p.2 := by
    refine Ends.succ (fun fuel => parsePrimary_constant ops name hrest fuel) ?_
    cases constantValue ops name with
    | error e => exact Ends.error e
    | ok v =>
      refine Ends.ok ⟨.constant name, ?_, fun _ _ => rfl, fun _ _ => hrest⟩
      rw [PrimaryTree.tokens]
      rfl
  cases tokens with
  | nil => exact Ends.succ (fun fuel => by rw [parsePrimary]) (Ends.error _)
  | cons token rest =>
    cases token with
    | number n =>
      refine Ends.succ (fun fuel => by rw [parsePrimary]) (Ends.ok ⟨.number n, ?_, fun _ _ => rfl, ?_⟩)
      · rw [PrimaryTree.tokens]
        rfl
      · intro name hname
        rw [PrimaryTree.tokens] at hname
        cases hname
    | lParen =>
      refine Ends.succ (fun fuel => by rw [parsePrimary]) ?_
      have hinner := (ih rest (Nat.lt_succ_self _)).expr
      exact closing_ends [.lParen] PrimaryTree.group Except.ok hinner
        fun t => by rw [PrimaryTree.tokens]; rfl
    | ident name =>
      cases rest with
      | nil => exact hconstant name [] nofun
      | cons token rest =>
        by_cases hcall : token = .lParen
        · subst hcall
          refine Ends.succ (fun fuel => by rw [parsePrimary]) ?_
          have harg := (ih rest (Nat.lt_succ_of_lt (Nat.lt_succ_self _))).expr
          exact closing_ends [.ident name, .lParen] (PrimaryTree.call name) (applyFunction ops name)
            harg
            fun t => by rw [PrimaryTree.tokens]; rfl
        · refine hconstant name (token :: rest) fun hhead => hcall ?_
          exact Option.some.inj hhead
    | plus => exact Ends.succ (fun fuel => rfl) (Ends.error _)
    | minus => exact Ends.succ (fun fuel => rfl) (Ends.error _)
    | star => exact Ends.succ (fun fuel => rfl) (Ends.error _)
    | slash => exact Ends.succ (fun fuel => rfl) (Ends.error _)
    | caret => exact Ends.succ (fun fuel => rfl) (Ends.error _)
    | rParen => exact Ends.succ (fun fuel => rfl) (Ends.error _)

/-- `parse_unary` reads signs and an operand. -/
lemma parseUnary_ends
    (ih : ∀ later : List (Token N), later.length < tokens.length → ReadsAll ops later) :
    Ends (fun fuel => parseUnary ops fuel tokens) fun p => ∃ signs, ∃ t : PrimaryTree N,
      tokens = signTokens signs ++ (t.tokens ++ p.2) ∧ Stops (fun _ => false) t.tokens p.2 := by
  have hprimary (hturn : ∀ fuel, parseUnary ops (fuel + 1) tokens = parsePrimary ops fuel tokens) :
      Ends (fun fuel => parseUnary ops fuel tokens) fun p => ∃ signs, ∃ t : PrimaryTree N,
        tokens = signTokens signs ++ (t.tokens ++ p.2) ∧ Stops (fun _ => false) t.tokens p.2 :=
    Ends.succ hturn ((parsePrimary_ends ih).mono fun _ ⟨t, htokens, hstops⟩ => ⟨[], t, htokens, hstops⟩)
  cases tokens with
  | nil => exact hprimary fun _ => rfl
  | cons token rest =>
    cases token with
    | minus =>
      refine Ends.succ (fun fuel => by rw [parseUnary]) ?_
      refine (ih rest (Nat.lt_succ_self _)).unary.andThen fun ⟨val, mid⟩
        ⟨signs, t, htokens, hstops⟩ => ?_
      exact Ends.ok ⟨true :: signs, t, congrArg _ htokens, hstops⟩
    | plus =>
      refine Ends.succ (fun fuel => by rw [parseUnary]) ?_
      refine (ih rest (Nat.lt_succ_self _)).unary.mono fun _ ⟨signs, t, htokens, hstops⟩ => ?_
      exact ⟨false :: signs, t, congrArg _ htokens, hstops⟩
    | _ => exact hprimary fun _ => rfl

/-- What may stand behind a base. -/
lemma powerTail_ends (ih : ∀ later : List (Token N), later.length < tokens.length → ReadsAll ops later)
    (base : F) :
    Ends (fun fuel => powerTail ops fuel base tokens) fun p =>
      ∃ exponent : Option (UnaryTree N), tokens = tailTokens exponent ++ p.2 ∧
        Stops Token.isPower (tailTokens exponent) p.2 := by
  have hnone (hturn : ∀ fuel, powerTail ops (fuel + 1) base tokens = some (.ok (base, tokens)))
      (hstop : ∀ t, tokens.head? = some t → t.isPower = false) :
      Ends (fun fuel => powerTail ops fuel base tokens) fun p =>
        ∃ exponent : Option (UnaryTree N), tokens = tailTokens exponent ++ p.2 ∧
          Stops Token.isPower (tailTokens exponent) p.2 :=
    Ends.succ hturn (Ends.ok ⟨none, rfl, hstop, nofun⟩)
  cases tokens with
  | nil => exact hnone (fun _ => rfl) nofun
  | cons token rest =>
    cases token with
    | caret =>
      refine Ends.succ (fun fuel => by rw [powerTail]) ?_
      refine (ih rest (Nat.lt_succ_self _)).power.andThen fun ⟨exp, mid⟩ ⟨t, htokens, hstops⟩ => ?_
      exact Ends.ok ⟨some t, congrArg _ htokens, hstops.cons nofun⟩
    | _ => exact hnone (fun _ => rfl) fun t ht => by cases ht; rfl

/-- No name stands at the end of signs. -/
lemma signTokens_stops (signs : List Bool) (rest : List (Token N)) :
    Stops (fun _ => false) (signTokens signs) rest := by
  refine ⟨fun _ _ => rfl, fun name hname => ?_⟩
  obtain ⟨minus, -, hminus⟩ := List.mem_map.1 (List.mem_of_getLast? hname)
  cases minus <;> cases hminus

/-- What is shorter than the rest of some tokens is shorter than the tokens. -/
lemma readsAll_rest {read rest : List (Token N)}
    (ih : ∀ later : List (Token N), later.length < (read ++ rest).length → ReadsAll ops later) :
    ∀ later : List (Token N), later.length < rest.length → ReadsAll ops later := by
  intro later hlater
  refine ih later ?_
  rw [List.length_append]
  omega

/-- `parse_power` reads a factor. -/
lemma parsePower_ends
    (ih : ∀ later : List (Token N), later.length < tokens.length → ReadsAll ops later) :
    Ends (fun fuel => parsePower ops fuel tokens) fun p => ∃ t : UnaryTree N,
      tokens = t.tokens ++ p.2 ∧ Stops Token.isPower t.tokens p.2 := by
  refine Ends.succ (fun fuel => by rw [parsePower]) ?_
  refine (parseUnary_ends ih).andThen fun ⟨base, mid⟩ ⟨signs, t, htokens, hstops⟩ => ?_
  dsimp only at htokens hstops
  rw [htokens, ← List.append_assoc] at ih
  refine (powerTail_ends (readsAll_rest ih) base).mono fun p ⟨exponent, hmid, hrest⟩ => ?_
  rw [hmid] at htokens hstops
  have hread : Stops Token.isPower (signTokens signs ++ (t.tokens ++ tailTokens exponent)) p.2 :=
    (signTokens_stops signs _).append (hstops.append hrest)
  have htext : ∃ u : UnaryTree N, u.tokens = t.tokens ++ tailTokens exponent := by
    cases exponent with
    | none => exact ⟨.primary t, by rw [UnaryTree.tokens]; exact (List.append_nil _).symm⟩
    | some e => exact ⟨.pow t e, by rw [UnaryTree.tokens]; rfl⟩
  obtain ⟨u, hu⟩ := htext
  refine ⟨u.under signs, ?_, ?_⟩
  · rw [UnaryTree.tokens_under, hu, htokens, List.append_assoc, List.append_assoc]
  · rw [UnaryTree.tokens_under, hu]
    exact hread

/-- A loop that ends in front of the tokens reads nothing. -/
lemma stop_ends {X : Type} {text : X → List (Token N)} {p : ℕ → Parsed N F} {v : F} {none : X}
    (hturn : ∀ fuel, p (fuel + 1) = some (.ok (v, tokens))) (hnone : text none = [])
    (hstop : ∀ t, tokens.head? = some t → goesOn t = false) :
    Ends p fun q => ∃ x, tokens = text x ++ q.2 ∧ Stops goesOn (text x) q.2 := by
  refine Ends.succ hturn (Ends.ok ⟨none, ?_, hstop, ?_⟩)
  · rw [hnone]
    rfl
  · rw [hnone]
    exact nofun

/-- One more part behind an operator, and what the loop reads behind it. -/
lemma more_ends {X Y : Type} {part : X → List (Token N)} {text : Y → List (Token N)}
    {p : ℕ → Parsed N F} {operator : Token N} {mid : List (Token N)} {x : X} (make : X → Y → Y)
    (hmake : ∀ y, text (make x y) = operator :: (part x ++ text y))
    (hcall : ∀ name, operator ≠ .ident name) (htokens : rest = part x ++ mid)
    (hstops : Stops goesOn (part x) mid)
    (hloop : Ends p fun q => ∃ y, mid = text y ++ q.2 ∧ Stops goesOn' (text y) q.2) :
    Ends p fun q => ∃ y, operator :: rest = text y ++ q.2 ∧ Stops goesOn' (text y) q.2 := by
  refine hloop.mono fun q ⟨y, hmid, hrest⟩ => ⟨make x y, ?_, ?_⟩
  · rw [hmake, htokens, hmid]
    simp
  · rw [hmid] at hstops
    rw [hmake]
    exact (hstops.append hrest).cons hcall

/-- What is left after a token and what is read behind it is shorter than the whole. -/
lemma length_lt_cons {rest read mid : List (Token N)} (h : rest = read ++ mid) (token : Token N) :
    mid.length < (token :: rest).length := by
  rw [h, List.length_cons, List.length_append]
  omega

/-- The loop of `parse_term` reads factors. -/
lemma termLoop_ends (ih : ∀ later : List (Token N), later.length < tokens.length → ReadsAll ops later)
    (hhead : ∀ t, tokens.head? = some t → t.isPower = false) (left : F) :
    Ends (fun fuel => termLoop ops fuel left tokens) fun p => ∃ t : TermTail N,
      tokens = t.tokens ++ p.2 ∧ Stops Token.isFactor t.tokens p.2 := by
  have hnil : (TermTail.nil : TermTail N).tokens = [] := by rw [TermTail.tokens]
  cases tokens with
  | nil => exact stop_ends (fun _ => rfl) hnil nofun
  | cons token rest =>
    cases token with
    | star =>
      refine Ends.succ (fun fuel => by rw [termLoop]) ?_
      refine (ih rest (Nat.lt_succ_self _)).power.andThen fun ⟨right, mid⟩ ⟨t, htokens, hstops⟩ => ?_
      exact more_ends .mul (fun y => by rw [TermTail.tokens]) nofun htokens hstops
        ((ih mid (length_lt_cons htokens _)).termLoop hstops.operator _)
    | slash =>
      refine Ends.succ (fun fuel => by rw [termLoop]) ?_
      refine (ih rest (Nat.lt_succ_self _)).power.andThen fun ⟨right, mid⟩ ⟨t, htokens, hstops⟩ => ?_
      dsimp only
      cases quotient ops left right with
      | error e => exact Ends.error e
      | ok v =>
        exact more_ends .div (fun y => by rw [TermTail.tokens]) nofun htokens hstops
          ((ih mid (length_lt_cons htokens _)).termLoop hstops.operator v)
    | caret => exact absurd (hhead _ rfl) nofun
    | _ => exact stop_ends (fun _ => rfl) hnil fun t ht => by cases ht; rfl

/-- `parse_term` reads a term. -/
lemma parseTerm_ends
    (ih : ∀ later : List (Token N), later.length < tokens.length → ReadsAll ops later) :
    Ends (fun fuel => parseTerm ops fuel tokens) fun p => ∃ t : TermTree N,
      tokens = t.tokens ++ p.2 ∧ Stops Token.isFactor t.tokens p.2 := by
  refine Ends.succ (fun fuel => by rw [parseTerm]) ?_
  refine (parsePower_ends ih).andThen fun ⟨left, mid⟩ ⟨first, htokens, hstops⟩ => ?_
  dsimp only at htokens hstops
  rw [htokens] at ih
  refine (termLoop_ends (readsAll_rest ih) hstops.operator left).mono fun p ⟨tail, hmid, hrest⟩ => ?_
  rw [hmid] at htokens hstops
  refine ⟨.mk first tail, ?_, ?_⟩
  · rw [TermTree.tokens, htokens, List.append_assoc]
  · rw [TermTree.tokens]
    exact hstops.append hrest

/-- The loop of `parse_expr` reads terms. -/
lemma exprLoop_ends (ih : ∀ later : List (Token N), later.length < tokens.length → ReadsAll ops later)
    (hhead : ∀ t, tokens.head? = some t → t.isFactor = false) (left : F) :
    Ends (fun fuel => exprLoop ops fuel left tokens) fun p => ∃ t : ExprTail N,
      tokens = t.tokens ++ p.2 ∧ Stops Token.isSummand t.tokens p.2 := by
  have hnil : (ExprTail.nil : ExprTail N).tokens = [] := by rw [ExprTail.tokens]
  cases tokens with
  | nil => exact stop_ends (fun _ => rfl) hnil nofun
  | cons token rest =>
    cases token with
    | plus =>
      refine Ends.succ (fun fuel => by rw [exprLoop]) ?_
      refine (ih rest (Nat.lt_succ_self _)).term.andThen fun ⟨right, mid⟩ ⟨t, htokens, hstops⟩ => ?_
      exact more_ends .add (fun y => by rw [ExprTail.tokens]) nofun htokens hstops
        ((ih mid (length_lt_cons htokens _)).exprLoop hstops.operator _)
    | minus =>
      refine Ends.succ (fun fuel => by rw [exprLoop]) ?_
      refine (ih rest (Nat.lt_succ_self _)).term.andThen fun ⟨right, mid⟩ ⟨t, htokens, hstops⟩ => ?_
      exact more_ends .sub (fun y => by rw [ExprTail.tokens]) nofun htokens hstops
        ((ih mid (length_lt_cons htokens _)).exprLoop hstops.operator _)
    | caret => exact absurd (hhead _ rfl) nofun
    | star => exact absurd (hhead _ rfl) nofun
    | slash => exact absurd (hhead _ rfl) nofun
    | _ => exact stop_ends (fun _ => rfl) hnil fun t ht => by cases ht; rfl

/-- `parse_expr` reads an expression. -/
lemma parseExpr_ends
    (ih : ∀ later : List (Token N), later.length < tokens.length → ReadsAll ops later) :
    Ends (fun fuel => parseExpr ops fuel tokens) fun p => ∃ t : ExprTree N,
      tokens = t.tokens ++ p.2 ∧ Stops Token.isSummand t.tokens p.2 := by
  refine Ends.succ (fun fuel => by rw [parseExpr]) ?_
  refine (parseTerm_ends ih).andThen fun ⟨left, mid⟩ ⟨first, htokens, hstops⟩ => ?_
  dsimp only at htokens hstops
  rw [htokens] at ih
  refine (exprLoop_ends (readsAll_rest ih) hstops.operator left).mono fun p ⟨tail, hmid, hrest⟩ => ?_
  rw [hmid] at htokens hstops
  refine ⟨.mk first tail, ?_, ?_⟩
  · rw [ExprTree.tokens, htokens, List.append_assoc]
  · rw [ExprTree.tokens]
    exact hstops.append hrest

/-- **The evaluator ends, and what it reads is an expression**.

**Proof sketch.** Induction on the number of tokens: each function calls the others on fewer tokens, or
calls one of those below it. -/
theorem readsAll (ops : FloatOps N F) (tokens : List (Token N)) : ReadsAll ops tokens := by
  induction hlength : tokens.length using Nat.strongRecOn generalizing tokens with
  | _ n ih =>
    have ih : ∀ later : List (Token N), later.length < tokens.length → ReadsAll ops later :=
      fun later hlater => ih _ (hlength ▸ hlater) later rfl
    exact
      { expr := parseExpr_ends ih
        exprLoop := exprLoop_ends ih
        term := parseTerm_ends ih
        termLoop := termLoop_ends ih
        power := parsePower_ends ih
        powerTail := powerTail_ends ih
        unary := parseUnary_ends ih }

end MyClaw
