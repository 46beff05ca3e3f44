import TexGovernance.Lib.PyStr
import TexGovernance.Lib.Traces

/-!
# The contract LTLf language (`contracts/_ltl.py`)

Tokenizer, recursive-descent parser, finite-trace evaluator, the definiteness
heuristic and the four-valued verdict of behavioral-contract formulas. Atoms
are opaque strings that a resolver decides on a trace element.
-/

namespace TexGovernance.Contracts
open FiniteTrace PyStr

inductive Node where
  | const (value : Bool)
  | atom (name : Str)
  | not (arg : Node)
  | and (left right : Node)
  | or (left right : Node)
  | implies (left right : Node)
  | next (arg : Node)
  | weakNext (arg : Node)
  | globally (arg : Node)
  | eventually (arg : Node)
  | boundedEventually (bound : ℕ) (arg : Node)
  | until (left right : Node)
  deriving DecidableEq

inductive Token where
  | lparen
  | rparen
  | implies
  | boundedEventually (bound : ℕ)
  | const (value : Bool)
  | not
  | and
  | or
  | next
  | weakNext
  | globally
  | eventually
  | until
  | atom (word : Str)
  deriving DecidableEq

/-- Why a formula text is refused. Every case but two is an `LTLParseError`:
`boundValueError` is the plain `ValueError` of `int` on a digit that is not
decimal, and `fuel` bounds the recursion of the model. -/
inductive ParseError where
  | emptyFormula
  | noTokens
  | expectedBounded (offset : ℕ)
  | missingBound (offset : ℕ)
  | boundValueError
  | unexpectedCharacter (offset : ℕ)
  | unexpectedEnd
  | unexpectedEndInPrimary
  | unexpectedPrimary (tok : Token)
  | expectedRparen
  | trailing (rest : List Token)
  | fuel
  deriving DecidableEq

def isAtomChar (c : CodePoint) : Bool :=
  inRanges [(0x61, 0x7a), (0x41, 0x5a), (0x30, 0x39)] c ||
    (lit ['.', '_', ':', '=', '<', '>', '!', '-', '/', '@', '~', ',']).contains c

def wordToken (word : Str) : Token :=
  if word = lit ['t', 'r', 'u', 'e'] then .const true
  else if word = lit ['f', 'a', 'l', 's', 'e'] then .const false
  else if word = lit ['n', 'o', 't'] then .not
  else if word = lit ['a', 'n', 'd'] then .and
  else if word = lit ['o', 'r'] then .or
  else if word = lit ['i', 'm', 'p', 'l', 'i', 'e', 's'] then .implies
  else if word = lit ['X'] then .next
  else if word = lit ['X', 'w'] then .weakNext
  else if word = lit ['G'] then .globally
  else if word = lit ['F'] then .eventually
  else if word = lit ['U'] then .until
  else .atom word

/-- The loop of `_tokenize` on the text from `offset` on. Each round consumes
at least one character, so the length of the text is enough `fuel`. -/
def tokenizeFrom : ℕ → ℕ → Str → Except ParseError (List Token)
  | _, _, [] => .ok []
  | 0, _, _ :: _ => .error .fuel
  | fuel + 1, offset, ch :: rest =>
    if isspace ch then tokenizeFrom fuel (offset + 1) rest
    else if ch = cp '(' then
      (tokenizeFrom fuel (offset + 1) rest).map (Token.lparen :: ·)
    else if ch = cp ')' then
      (tokenizeFrom fuel (offset + 1) rest).map (Token.rparen :: ·)
    else if ch = cp '-' ∧ rest.head? = some (cp '>') then
      (tokenizeFrom fuel (offset + 2) rest.tail).map (Token.implies :: ·)
    else if ch = cp 'F' ∧ rest.head? = some (cp '<') then
      if rest.take 2 ≠ lit ['<', '='] then .error (.expectedBounded offset)
      else
        let digits := (rest.drop 2).takeWhile isdigitChar
        if digits = [] then .error (.missingBound offset)
        else match intOfDigits digits with
          | .error _ => .error .boundValueError
          | .ok bound =>
            (tokenizeFrom fuel (offset + 3 + digits.length) (rest.drop (2 + digits.length))).map
              (Token.boundedEventually bound :: ·)
    else if isAtomChar ch then
      let word := (ch :: rest).takeWhile isAtomChar
      (tokenizeFrom fuel (offset + word.length) ((ch :: rest).drop word.length)).map
        (wordToken word :: ·)
    else .error (.unexpectedCharacter offset)

def tokenize (formula : Str) : Except ParseError (List Token) :=
  tokenizeFrom formula.length 0 formula

mutual

def parseImplies : ℕ → List Token → Except ParseError (Node × List Token)
  | 0, _ => .error .fuel
  | fuel + 1, toks => do
    let (left, rest) ← parseOr fuel toks
    match rest with
    | .implies :: rest =>
      let (right, rest) ← parseImplies fuel rest
      .ok (.implies left right, rest)
    | _ => .ok (left, rest)

def parseOr : ℕ → List Token → Except ParseError (Node × List Token)
  | 0, _ => .error .fuel
  | fuel + 1, toks => do
    let (left, rest) ← parseAnd fuel toks
    parseOrLoop fuel left rest

def parseOrLoop : ℕ → Node → List Token → Except ParseError (Node × List Token)
  | 0, _, _ => .error .fuel
  | fuel + 1, left, toks =>
    match toks with
    | .or :: rest => do
      let (right, rest) ← parseAnd fuel rest
      parseOrLoop fuel (.or left right) rest
    | _ => .ok (left, toks)

def parseAnd : ℕ → List Token → Except ParseError (Node × List Token)
  | 0, _ => .error .fuel
  | fuel + 1, toks => do
    let (left, rest) ← parseUntil fuel toks
    parseAndLoop fuel left rest

def parseAndLoop : ℕ → Node → List Token → Except ParseError (Node × List Token)
  | 0, _, _ => .error .fuel
  | fuel + 1, left, toks =>
    match toks with
    | .and :: rest => do
      let (right, rest) ← parseUntil fuel rest
      parseAndLoop fuel (.and left right) rest
    | _ => .ok (left, toks)

def parseUntil : ℕ → List Token → Except ParseError (Node × List Token)
  | 0, _ => .error .fuel
  | fuel + 1, toks => do
    let (left, rest) ← parseUnary fuel toks
    parseUntilLoop fuel left rest

def parseUntilLoop : ℕ → Node → List Token → Except ParseError (Node × List Token)
  | 0, _, _ => .error .fuel
  | fuel + 1, left, toks =>
    match toks with
    | .until :: rest => do
      let (right, rest) ← parseUnary fuel rest
      parseUntilLoop fuel (.until left right) rest
    | _ => .ok (left, toks)

def parseUnary : ℕ → List Token → Except ParseError (Node × List Token)
  | 0, _ => .error .fuel
  | _ + 1, [] => .error .unexpectedEnd
  | fuel + 1, tok :: rest =>
    match tok with
    | .not => (parseUnary fuel rest).map fun r => (.not r.1, r.2)
    | .next => (parseUnary fuel rest).map fun r => (.next r.1, r.2)
    | .weakNext => (parseUnary fuel rest).map fun r => (.weakNext r.1, r.2)
    | .globally => (parseUnary fuel rest).map fun r => (.globally r.1, r.2)
    | .eventually => (parseUnary fuel rest).map fun r => (.eventually r.1, r.2)
    | .boundedEventually bound =>
      (parseUnary fuel rest).map fun r => (.boundedEventually bound r.1, r.2)
    | _ => parsePrimary fuel (tok :: rest)

def parsePrimary : ℕ → List Token → Except ParseError (Node × List Token)
  | 0, _ => .error .fuel
  | _ + 1, [] => .error .unexpectedEndInPrimary
  | fuel + 1, tok :: rest =>
    match tok with
    | .lparen => do
      let (inner, rest) ← parseImplies fuel rest
      match rest with
      | .rparen :: rest => .ok (inner, rest)
      | _ => .error .expectedRparen
    | .const value => .ok (.const value, rest)
    | .atom word => .ok (.atom word, rest)
    | _ => .error (.unexpectedPrimary tok)

end

/-- `_Parser(tokens).parse()`. A nesting level costs at most eight calls. -/
def parseTokens (toks : List Token) : Except ParseError Node := do
  let (node, rest) ← parseImplies (10 * (toks.length + 1)) toks
  match rest with
  | [] => .ok node
  | _ => .error (.trailing rest)

def parse (formula : Str) : Except ParseError Node :=
  if formula.all isspace then .error .emptyFormula
  else do
    let toks ← tokenize formula
    if toks = [] then .error .noTokens else parseTokens toks

section Semantics

variable {Elem : Type} (resolver : Str → Elem → Bool)

/-- `_eval_ltlf`: truth at `pos`, with positions past the end allowed. -/
def evalLtlf : Node → List Elem → ℕ → Bool
  | .const value, _, _ => value
  | .atom name, t, pos =>
    match t[pos]? with
    | none => false
    | some elem => resolver name elem
  | .not arg, t, pos => !evalLtlf arg t pos
  | .and left right, t, pos => evalLtlf left t pos && evalLtlf right t pos
  | .or left right, t, pos => evalLtlf left t pos || evalLtlf right t pos
  | .implies left right, t, pos => if !evalLtlf left t pos then true else evalLtlf right t pos
  | .next arg, t, pos => if pos + 1 ≥ t.length then false else evalLtlf arg t (pos + 1)
  | .weakNext arg, t, pos => if pos + 1 ≥ t.length then true else evalLtlf arg t (pos + 1)
  | .globally arg, t, pos => (span pos t.length).all fun k => evalLtlf arg t k
  | .eventually arg, t, pos => (span pos t.length).any fun k => evalLtlf arg t k
  | .boundedEventually bound arg, t, pos =>
    -- positions pos .. min (pos + bound) (n - 1)
    (span pos (min (pos + bound + 1) t.length)).any fun k => evalLtlf arg t k
  | .until left right, t, pos =>
    untilWalk (fun j => evalLtlf right t j) (fun j => evalLtlf left t j) false
      (span pos t.length)

/-- `_is_definite`: the heuristic for "no extension changes this value". -/
def isDefinite : Node → List Elem → ℕ → Bool
  | .const _, _, _ => true
  | .atom _, t, pos => pos < t.length
  | .not arg, t, pos => isDefinite arg t pos
  | .and left right, t, pos => isDefinite left t pos && isDefinite right t pos
  | .or left right, t, pos => isDefinite left t pos && isDefinite right t pos
  | .implies left right, t, pos => isDefinite left t pos && isDefinite right t pos
  | .boundedEventually bound _, t, pos => pos + bound + 1 ≤ t.length
  | .globally _, _, _ => false
  | .next _, _, _ => true
  | .weakNext _, _, _ => true
  | .eventually _, _, _ => false
  | .until _ _, _, _ => false

inductive RVVerdict where
  | permanentlySatisfied
  | currentlySatisfied
  | currentlyViolated
  | permanentlyViolated
  deriving DecidableEq, Repr

/-- `LTLFormula.rv_verdict`; without a position the last one is used, and a
negative one is read as 0. -/
def rvVerdict (ast : Node) (t : List Elem) (position : Option ℤ) : RVVerdict :=
  let effPos : ℕ := match position with
    | none => t.length - 1
    | some p => p.toNat
  let ok := evalLtlf resolver ast t effPos
  let permanent := isDefinite ast t effPos
  if ok && permanent then .permanentlySatisfied
  else if !ok && permanent then .permanentlyViolated
  else if ok then .currentlySatisfied
  else .currentlyViolated

end Semantics

/-- The value at `p` is fixed by the `n` observed positions: `X` and `Xw` have
an observed successor with a settled argument, and the window of `F<=k` is
observed with its argument settled throughout. -/
def settled : Node → ℕ → ℕ → Bool
  | .const _, _, _ => true
  | .atom _, n, p => p < n
  | .not arg, n, p => settled arg n p
  | .and left right, n, p => settled left n p && settled right n p
  | .or left right, n, p => settled left n p && settled right n p
  | .implies left right, n, p => settled left n p && settled right n p
  | .next arg, n, p => decide (p + 1 < n) && settled arg n (p + 1)
  | .weakNext arg, n, p => decide (p + 1 < n) && settled arg n (p + 1)
  | .boundedEventually bound arg, n, p =>
    decide (p + bound + 1 ≤ n) && (span p (p + bound + 1)).all fun j => settled arg n j
  | .globally _, _, _ => false
  | .eventually _, _, _ => false
  | .until _ _, _, _ => false

/-- Outside the arguments of `X`, `Xw` and `F<=k` the formula has a `G`, `F`
or `U`, an `F<=k` whose window is not yet observed, or an atom past the end. -/
def undecided : Node → ℕ → ℕ → Bool
  | .const _, _, _ => false
  | .atom _, n, p => n ≤ p
  | .not arg, n, p => undecided arg n p
  | .and left right, n, p => undecided left n p || undecided right n p
  | .or left right, n, p => undecided left n p || undecided right n p
  | .implies left right, n, p => undecided left n p || undecided right n p
  | .next _, _, _ => false
  | .weakNext _, _, _ => false
  | .boundedEventually bound _, n, p => decide (n < p + bound + 1)
  | .globally _, _, _ => true
  | .eventually _, _, _ => true
  | .until _ _, _, _ => true

variable {Elem : Type}

theorem isDefinite_eq_not_undecided (φ : Node) (t : List Elem) (p : ℕ) :
    isDefinite φ t p = !undecided φ t.length p := by
  induction φ with
  | const value => rfl
  | atom name =>
    simp only [isDefinite, undecided]
    by_cases h : p < t.length
    · have h' : ¬ (t.length ≤ p) := by omega
      simp only [h, h', decide_true, decide_false, Bool.not_false]
    · have h' : t.length ≤ p := by omega
      simp only [h, h', decide_true, decide_false, Bool.not_true]
  | not arg ih => exact ih
  | and left right ihl ihr => simp only [isDefinite, undecided, ihl, ihr, Bool.not_or]
  | or left right ihl ihr => simp only [isDefinite, undecided, ihl, ihr, Bool.not_or]
  | implies left right ihl ihr => simp only [isDefinite, undecided, ihl, ihr, Bool.not_or]
  | next arg _ => rfl
  | weakNext arg _ => rfl
  | boundedEventually bound arg _ =>
    simp only [isDefinite, undecided]
    by_cases h : p + bound + 1 ≤ t.length
    · have h' : ¬ (t.length < p + bound + 1) := by omega
      simp only [h, h', decide_true, decide_false, Bool.not_false]
    · have h' : t.length < p + bound + 1 := by omega
      simp only [h, h', decide_true, decide_false, Bool.not_true]
  | globally arg _ => rfl
  | eventually arg _ => rfl
  | «until» left right _ _ => rfl

section Settled

variable (resolver : Str → Elem → Bool)

theorem evalLtlf_append_of_settled (φ : Node) (t e : List Elem) :
    ∀ p, settled φ t.length p = true →
      evalLtlf resolver φ (t ++ e) p = evalLtlf resolver φ t p := by
  have hlen : (t ++ e).length = t.length + e.length := List.length_append
  induction φ with
  | const value =>
    intro p _
    rfl
  | atom name =>
    intro p h
    have hp : p < t.length := by simpa only [settled, decide_eq_true_eq] using h
    simp only [evalLtlf, List.getElem?_append_left hp]
  | not arg ih =>
    intro p h
    simp only [evalLtlf, ih p h]
  | and left right ihl ihr =>
    intro p h
    simp only [settled, Bool.and_eq_true] at h
    simp only [evalLtlf, ihl p h.1, ihr p h.2]
  | or left right ihl ihr =>
    intro p h
    simp only [settled, Bool.and_eq_true] at h
    simp only [evalLtlf, ihl p h.1, ihr p h.2]
  | implies left right ihl ihr =>
    intro p h
    simp only [settled, Bool.and_eq_true] at h
    simp only [evalLtlf, ihl p h.1, ihr p h.2]
  | next arg ih =>
    intro p h
    simp only [settled, Bool.and_eq_true, decide_eq_true_eq] at h
    have h1 : ¬ (p + 1 ≥ t.length) := by omega
    have h2 : ¬ (p + 1 ≥ t.length + e.length) := by omega
    simp only [evalLtlf, hlen, h1, h2, ite_false, ih (p + 1) h.2]
  | weakNext arg ih =>
    intro p h
    simp only [settled, Bool.and_eq_true, decide_eq_true_eq] at h
    have h1 : ¬ (p + 1 ≥ t.length) := by omega
    have h2 : ¬ (p + 1 ≥ t.length + e.length) := by omega
    simp only [evalLtlf, hlen, h1, h2, ite_false, ih (p + 1) h.2]
  | boundedEventually bound arg ih =>
    intro p h
    simp only [settled, Bool.and_eq_true, decide_eq_true_eq, all_span] at h
    have h1 : min (p + bound + 1) t.length = p + bound + 1 := by omega
    have h2 : min (p + bound + 1) (t.length + e.length) = p + bound + 1 := by omega
    simp only [evalLtlf, hlen, h1, h2]
    rw [Bool.eq_iff_iff, any_span, any_span]
    refine exists_congr fun j => and_congr_right fun hj1 => and_congr_right fun hj2 => ?_
    rw [ih j (h.2 j hj1 hj2)]
  | globally arg _ =>
    intro p h
    exact Bool.noConfusion h
  | eventually arg _ =>
    intro p h
    exact Bool.noConfusion h
  | «until» left right _ _ =>
    intro p h
    exact Bool.noConfusion h

theorem permanent_verdict_iff (φ : Node) (t : List Elem) (p : ℕ) (value : Bool) :
    rvVerdict resolver φ t (some (p : ℤ)) =
        (if value then .permanentlySatisfied else .permanentlyViolated) ↔
      evalLtlf resolver φ t p = value ∧ undecided φ t.length p = false := by
  cases hval : evalLtlf resolver φ t p <;> cases hdec : undecided φ t.length p <;>
    cases value <;> simp [rvVerdict, isDefinite_eq_not_undecided, hval, hdec]

/-- Permanent verdicts keep their promise on every extension when the formula
is undecided at the position or settled there. -/
theorem rv_permanent_of_settled (φ : Node) (t e : List Elem) (p : ℕ) (_hp : p < t.length)
    (hcond : undecided φ t.length p = true ∨ settled φ t.length p = true) :
    (rvVerdict resolver φ t (some (p : ℤ)) = .permanentlySatisfied →
      evalLtlf resolver φ (t ++ e) p = true) ∧
    (rvVerdict resolver φ t (some (p : ℤ)) = .permanentlyViolated →
      evalLtlf resolver φ (t ++ e) p = false) := by
  have keep : ∀ value, evalLtlf resolver φ t p = value ∧ undecided φ t.length p = false →
      evalLtlf resolver φ (t ++ e) p = value := by
    rintro value ⟨hval, hdec⟩
    rcases hcond with h | h
    · rw [h] at hdec
      exact Bool.noConfusion hdec
    · rw [evalLtlf_append_of_settled resolver φ t e p h, hval]
  exact ⟨fun h => keep true ((permanent_verdict_iff resolver φ t p true).mp h),
    fun h => keep false ((permanent_verdict_iff resolver φ t p false).mp h)⟩

end Settled

def lookupResolver (name : Str) (elem : List (Str × Bool)) : Bool :=
  (elem.lookup name).getD false

theorem rv_permanent_of_settled_not :
    evalLtlf lookupResolver (.not (.atom (lit ['a'])))
      ([[(lit ['a'], false)]] ++ [[(lit ['a'], true)]]) 0 = true :=
  (rv_permanent_of_settled lookupResolver (.not (.atom (lit ['a']))) [[(lit ['a'], false)]]
    [[(lit ['a'], true)]] 0 (by decide) (Or.inr rfl)).1 rfl

/-- `X a` at the last position is reported permanently violated, and appending
one element on which `a` holds makes it true. -/
theorem rv_permanent_changes_at_last_position :
    ∃ ast, parse (lit ['X', ' ', 'a']) = .ok ast ∧
      rvVerdict lookupResolver ast [[(lit ['a'], true)]] (some 0) = .permanentlyViolated ∧
      evalLtlf lookupResolver ast ([[(lit ['a'], true)]] ++ [[(lit ['a'], true)]]) 0 = true :=
  ⟨.next (.atom (lit ['a'])), by decide, by decide, by decide⟩

end TexGovernance.Contracts
