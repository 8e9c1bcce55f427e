import DebugExpr.Proofs.DepthLimits

/-! A counter in place of levels. What nests checks the counter against the limit, raises it, and
lowers it again behind what it reads, whether that succeeds or fails. That failures leave the
counter as it was matters where reading goes on behind an error, which it does inside the type of a
cast. -/
namespace DebugExpr.Source
open Metadata Parsing

variable {α β : Type}

/-- A computation that counts how deeply it is nested. -/
abbrev Counting (α : Type) := ExceptT Error (StateM Nat) α

abbrev CountingParser (α : Type) := List Token → Counting (α × List Token)

namespace Counting

/-- A computation that nests nothing. -/
def plain (x : Except Error α) : Counting α :=
  fun depth => (x, depth)

/-- What a computation comes to, be it an error. -/
def attempt (x : Counting α) : Counting (Except Error α) := fun depth =>
  let (answer, depth) := x depth
  (.ok answer, depth)

/-- Fails at the limit on nesting. Below it, counts one more level for the computation, and one less
behind it, whatever it comes to. -/
def nested (b : Bounds) (x : Counting α) : Counting α := fun depth =>
  if b.maxDepth ≤ depth then (b.tooDeep, depth)
  else
    let (answer, depth) := x (depth + 1)
    (answer, depth - 1)

/-- Runs the step until it answers nothing. -/
def iterate (step : α → List Token → Counting (Option (α × List Token))) (value : α)
    (ts : List Token) : Counting (α × List Token) := do
  match ← step value ts with
  | none => return (value, ts)
  | some (next, rest) =>
    if rest.length < ts.length then iterate step next rest else return (next, rest)
termination_by ts.length

/-- Reads one item, and a further one after each separator. -/
def separated (separator : List Token → Option (List Token)) (item : CountingParser α) :
    CountingParser (List α) := fun ts => do
  let (first, rest) ← item ts
  iterate
    (fun items ts => do
      match separator ts with
      | none => return none
      | some ts =>
        let (next, rest) ← item ts
        return some (items ++ [next], rest))
    [first] rest

section Readers
variable (b : Bounds) (type : CountingParser TypeExpr) (expr unary : CountingParser Expr)

def typeArgs : CountingParser (List TypeExpr) := fun ts =>
  match takeMark? .less ts with
  | none => return ([], ts)
  | some ts => do
    let (args, ts) ← separated (takeMark? .comma) type ts
    let ts ← plain (expectMark b .greater ts)
    return (args, ts)

/-- Reads a dotted name, given how to read the arguments of its parts. -/
def dottedType (args : CountingParser (List TypeExpr)) (isGlobal : Bool) :
    CountingParser TypeExpr := fun ts => do
  let (segments, ts) ← separated takeNameDot?
    (fun ts => do
      let (name, ts) ← plain (readName b ts)
      let (args, ts) ← args ts
      return ((name, args), ts))
    ts
  return (.named isGlobal segments, ts)

/-- Reads a type without the marks behind it, given how to read a dotted name. -/
def typeHead (named : Bool → CountingParser TypeExpr) : CountingParser TypeExpr
  | ⟨.typeKeyword p, _⟩ :: ts => return (.keyword p, ts)
  | ⟨.global, _⟩ :: ts => do
    let ts ← plain (expectMark b .doubleColon ts)
    named true ts
  | ts =>
    match ts with
    | ⟨.identifier name, _⟩ :: _ =>
      if name.toList.head? = some '$' then
        plain (b.fail ts s!"type expected, found '{displayFirst ts}'")
      else named false ts
    | _ => plain (b.fail ts s!"type expected, found '{displayFirst ts}'")

def typeBody (named : Bool → CountingParser TypeExpr) : CountingParser TypeExpr := fun ts => do
  let (head, ts) ← typeHead b named ts
  match takeMark? .question ts with
  | some ts => plain (readRanks b (.nullable head) ts)
  | none => plain (readRanks b head ts)

def chain (operator? : TokenKind → Option BinaryOp) (operand : CountingParser Expr) :
    CountingParser Expr := fun ts => do
  let (first, ts) ← operand ts
  iterate
    (fun left ts =>
      match ts with
      | [] => return none
      | token :: ts =>
        match operator? token.kind with
        | none => return none
        | some op => do
          let (right, ts) ← operand ts
          return some (.binary left.position op left right, ts))
    first ts

/-- Reads a cast if there is one, and drops an error inside what could be its type. -/
def cast : CountingParser (Option Expr) := fun ts =>
  match takeMark? .openParen ts with
  | none => return (none, ts)
  | some inner => do
    match ← attempt (type inner) with
    | .error _ => return (none, ts)
    | .ok (castType, behind) =>
      match takeMark? .closeParen behind with
      | none => return (none, ts)
      | some behind =>
        if castType.isPlainName && !startsOperand behind then return (none, ts)
        else
          let (operand, rest) ← unary behind
          return (some (.cast (b.position ts) castType operand), rest)

def argument : CountingParser (Passing × Expr) := fun ts =>
  let (passing, ts) := match ts with
    | ⟨.keyword .ref, _⟩ :: ts => (Passing.ref, ts)
    | ⟨.keyword .out, _⟩ :: ts => (Passing.out, ts)
    | ts => (Passing.value, ts)
  do
    let (value, ts) ← expr ts
    return ((passing, value), ts)

def arguments : CountingParser (List (Passing × Expr)) := fun ts =>
  match takeMark? .closeParen ts with
  | some ts => return ([], ts)
  | none => do
    let (args, ts) ← separated (takeMark? .comma) (argument expr) ts
    let ts ← plain (expectMark b .closeParen ts)
    return (args, ts)

def primary (args : CountingParser (List TypeExpr)) : CountingParser Expr := fun ts =>
  let position := b.position ts
  match ts with
  | ⟨.identifier name, _⟩ :: ts | ⟨.address name, _⟩ :: ts => do
    let (typeArgs, ts) ← args ts
    return (.name position name typeArgs, ts)
  | ⟨.global, _⟩ :: ts => do
    let ts ← plain (expectMark b .doubleColon ts)
    match ts with
    | ⟨.identifier name, _⟩ :: ts => return (.global position name, ts)
    | _ => throw (.badSyntax position "identifier expected")
  | ⟨.keyword .this, _⟩ :: ts => return (.this position, ts)
  | ⟨.keyword .null, _⟩ :: ts => return (.literal position .null, ts)
  | ⟨.keyword .true, _⟩ :: ts => return (.literal position (.bool true), ts)
  | ⟨.keyword .false, _⟩ :: ts => return (.literal position (.bool false), ts)
  | ⟨.integer value, _⟩ :: ts => return (.literal position (.integer value), ts)
  | ⟨.string value, _⟩ :: ts => return (.literal position (.string value), ts)
  | ⟨.mark .openParen, _⟩ :: ts => do
    let (inner, ts) ← expr ts
    let ts ← plain (expectMark b .closeParen ts)
    return (inner, ts)
  | ts => plain (b.fail ts s!"invalid expression term '{displayFirst ts}'")

def access (args : CountingParser (List TypeExpr)) (list : CountingParser (List (Passing × Expr)))
    (primary : CountingParser Expr) : CountingParser Expr := fun ts => do
  let (primary, ts) ← primary ts
  iterate
    (fun target ts =>
      match ts with
      | ⟨.mark .dot, _⟩ :: ts => do
        let (name, ts) ← plain (readName b ts)
        let (typeArgs, ts) ← args ts
        return some (.member target.position target name typeArgs, ts)
      | ⟨.mark .openParen, _⟩ :: ts => do
        let (args, ts) ← list ts
        return some (.invoke target.position target args, ts)
      | ⟨.mark .openBracket, _⟩ :: ts => do
        let (indices, ts) ← separated (takeMark? .comma) expr ts
        let ts ← plain (expectMark b .closeBracket ts)
        return some (.index target.position target indices, ts)
      | _ => return none)
    primary ts

/-- Reads a signed operand or a cast, and what is neither with the last reader. -/
def operandBody (cast : CountingParser (Option Expr)) (access : CountingParser Expr) :
    CountingParser Expr := fun ts =>
  match ts with
  | ⟨.mark .minus, _⟩ :: rest => do
    let (operand, rest) ← unary rest
    return (.negate (b.position ts) operand, rest)
  | ⟨.mark .plus, _⟩ :: rest => unary rest
  | ts => do
    match ← cast ts with
    | (some found, rest) => return (found, rest)
    | (none, ts) => access ts

def exprBody (coalesce : CountingParser Expr) : CountingParser Expr := fun ts => do
  let (target, ts) ← coalesce ts
  match ts with
  | [] => return (target, [])
  | token :: rest =>
    match assignment? token.kind with
    | none => return (target, token :: rest)
    | some op =>
      let (value, ts) ← expr rest
      return (.assign target.position target op value, ts)

/-- Reads a sum, and nests what follows `??`. -/
def fallbackBody (sum coalesce : CountingParser Expr) : CountingParser Expr := fun ts => do
  let (left, ts) ← sum ts
  match takeMark? .doubleQuestion ts with
  | none => return (left, ts)
  | some ts =>
    let (right, ts) ← nested b (coalesce ts)
    return (.coalesce left.position left right, ts)

end Readers
end Counting

/-- Reads a cast if there is one. -/
def readCast (b : Bounds) (type : Parser TypeExpr) (unary : Parser Expr) :
    Parser (Option Expr) := fun ts =>
  match readCastType? type ts with
  | none => return (none, ts)
  | some (castType, rest) => do
    let (operand, rest) ← unary rest
    return (some (.cast (b.position ts) castType operand), rest)

/-- The parts of an expression that have readers of their own, with what these answer. -/
inductive Part : Type → Type
  | assignment : Part Expr
  | coalesce : Part Expr
  | additive : Part Expr
  | multiplicative : Part Expr
  | unary : Part Expr
  | cast : Part (Option Expr)
  | access : Part Expr
  | primary : Part Expr
  | arguments : Part (List (Passing × Expr))
  | typeArgs : Part (List TypeExpr)
  | type : Part TypeExpr
  | dottedType (isGlobal : Bool) : Part TypeExpr

namespace Part
open Counting

/-- How the part is read, given how all parts are read inside of it. -/
def body (b : Bounds) (self : {β : Type} → Part β → CountingParser β) :
    Part α → CountingParser α
  | assignment => fun ts => nested b (exprBody (self assignment) (self coalesce) ts)
  | coalesce => fallbackBody b (self additive) (self coalesce)
  | additive => chain additive? (self multiplicative)
  | multiplicative => chain multiplicative? (self unary)
  | unary => fun ts => nested b (operandBody b (self unary) (self cast) (self access) ts)
  | cast => Counting.cast b (self type) (self unary)
  | access => Counting.access b (self assignment) (self typeArgs) (self arguments) (self primary)
  | primary => Counting.primary b (self assignment) (self typeArgs)
  | arguments => Counting.arguments b (self assignment)
  | typeArgs => Counting.typeArgs b (self type)
  | type => fun ts => nested b (typeBody b (fun isGlobal => self (dottedType isGlobal)) ts)
  | dottedType isGlobal => Counting.dottedType b (self typeArgs) isGlobal

/-- Parts inside of parts, down to a height at which the limit on nesting is out of reach. -/
def countWithin (b : Bounds) : Nat → {α : Type} → Part α → CountingParser α
  | 0, _, _ => fun _ => plain b.tooDeep
  | fuel + 1, _, part => part.body b (countWithin b fuel)

/-- On the way to the next part that nests, at most three others are read. -/
def count (b : Bounds) (part : Part α) : CountingParser α :=
  part.countWithin b (4 * b.maxDepth + 4)

/-- How the part is read with some levels left. -/
def read (b : Bounds) (levels : Nat) : Part α → Parser α
  | assignment => readExpr b levels
  | coalesce => readFallback b levels
  | additive => readSum (readOperand b levels)
  | multiplicative => readChain multiplicative? (readOperand b levels)
  | unary => readOperand b levels
  | cast => readCast b (readTypeExpr b levels) (readOperand b levels)
  | access => readAccess b (readTypeExpr b levels) (readExpr b levels)
  | primary => readAtom b (readTypeExpr b levels) (readExpr b levels)
  | arguments => readArgumentList b (readExpr b levels)
  | typeArgs => readTypeArgs b (readTypeExpr b levels)
  | type => readTypeExpr b levels
  | dottedType isGlobal => readDottedType b (readTypeExpr b levels) isGlobal

end Part

/-- The computation answers as the other does, and leaves the counter as it was. -/
def Settles (depth : Nat) (x : Counting α) (y : Except Error α) : Prop :=
  x depth = (y, depth)

/-- The counting reader settles wherever it begins. -/
def Mirrors (depth : Nat) (read : CountingParser α) (read' : Parser α) : Prop :=
  ∀ ts, Settles depth (read ts) (read' ts)

section Computations
variable {b : Bounds} {depth : Nat} {x : Counting α} {y : Except Error α}

theorem settles_plain : Settles depth (.plain y) y :=
  rfl

theorem settles_pure {a : α} : Settles depth (pure a) (.ok a) :=
  rfl

theorem bind_counted (x : Counting α) (f : α → Counting β) (depth : Nat) :
    (x >>= f) depth = match x depth with
      | (answer, after) => ExceptT.bindCont f answer after :=
  rfl

theorem Settles.bind {f : α → Counting β} {g : α → Except Error β} (first : Settles depth x y)
    (next : ∀ a, Settles depth (f a) (g a)) : Settles depth (x >>= f) (y >>= g) := by
  unfold Settles at first
  rw [Settles, bind_counted, first]
  cases y with
  | error e => rfl
  | ok a => exact next a

/-- A computation goes on with what an attempt comes to, with the counter as it was. -/
theorem Settles.attempt {f : Except Error α → Counting β} {z : Except Error β}
    (settles : Settles depth x y) (next : Settles depth (f y) z) :
    Settles depth (.attempt x >>= f) z := by
  unfold Settles at settles
  rw [Settles, bind_counted, Counting.attempt, settles]
  exact next

theorem Settles.nested (within : depth < b.maxDepth) (settles : Settles (depth + 1) x y) :
    Settles depth (.nested b x) y := by
  unfold Settles at settles ⊢
  rw [Counting.nested, if_neg (Nat.not_le.mpr within), settles]
  rfl

theorem settles_tooDeep (above : b.maxDepth ≤ depth) : Settles depth (.nested b x) b.tooDeep :=
  if_pos above

end Computations

section Readers
variable {b : Bounds} {depth : Nat} {type : CountingParser TypeExpr} {type' : Parser TypeExpr}
  {expr unary : CountingParser Expr} {expr' unary' : Parser Expr}
  {args : CountingParser (List TypeExpr)}

theorem iterate_settles {step : α → List Token → Counting (Option (α × List Token))}
    {step' : α → List Token → Except Error (Option (α × List Token))}
    (each : ∀ value ts, Settles depth (step value ts) (step' value ts)) (value : α) :
    Mirrors depth (Counting.iterate step value) (iterate step' value) := by
  intro ts
  induction lengths : ts.length using Nat.strong_induction_on generalizing value ts with
  | _ n ih =>
    have unfolded : iterate step' value ts = step' value ts >>= fun
        | none => .ok (value, ts)
        | some (next, rest) =>
          if rest.length < ts.length then iterate step' next rest else .ok (next, rest) := by
      rw [iterate]
      cases step' value ts with
      | error e => rfl
      | ok found => cases found <;> rfl
    rw [Counting.iterate, unfolded]
    refine (each value ts).bind fun found => ?_
    cases found with
    | none => exact settles_pure
    | some found =>
      obtain ⟨next, rest⟩ := found
      dsimp only
      split
      · next shorter => exact ih _ (lengths ▸ shorter) next rest rfl
      · exact settles_pure

theorem separated_settles {item : CountingParser α} {item' : Parser α}
    (separator : List Token → Option (List Token)) (each : Mirrors depth item item') :
    Mirrors depth (Counting.separated separator item) (separated separator item') := by
  refine fun ts => (each ts).bind fun first => iterate_settles (fun items ts => ?_) _ _
  dsimp only
  cases separator ts with
  | none => exact settles_pure
  | some ts => exact (each ts).bind fun _ => settles_pure

theorem typeArgs_settles (each : Mirrors depth type type') :
    Mirrors depth (Counting.typeArgs b type) (readTypeArgs b type') := by
  intro ts
  unfold Counting.typeArgs readTypeArgs
  cases takeMark? .less ts with
  | none => exact settles_pure
  | some ts =>
    exact (separated_settles _ each ts).bind fun _ => settles_plain.bind fun _ => settles_pure

theorem dottedType_settles (each : Mirrors depth args (readTypeArgs b type')) (isGlobal : Bool) :
    Mirrors depth (Counting.dottedType b args isGlobal) (readDottedType b type' isGlobal) := by
  refine fun ts => (separated_settles _ (fun ts => ?_) ts).bind fun _ => settles_pure
  exact settles_plain.bind fun _ => (each _).bind fun _ => settles_pure

theorem typeHead_settles {named : Bool → CountingParser TypeExpr}
    (each : ∀ isGlobal, Mirrors depth (named isGlobal) (readDottedType b type' isGlobal)) :
    Mirrors depth (Counting.typeHead b named) (readTypeHead b type') := by
  intro ts
  cases ts with
  | nil => exact settles_plain
  | cons token ts =>
    obtain ⟨k, place⟩ := token
    cases k with
    | typeKeyword p => exact settles_pure
    | global => exact settles_plain.bind fun _ => each true _
    | identifier name =>
      simp only [Counting.typeHead, readTypeHead]
      split
      · exact settles_plain
      · exact each false _
    | _ => exact settles_plain

theorem typeBody_settles {named : Bool → CountingParser TypeExpr}
    (each : ∀ isGlobal, Mirrors depth (named isGlobal) (readDottedType b type' isGlobal)) :
    Mirrors depth (Counting.typeBody b named) (readTypeBody b type') := by
  refine fun ts => (typeHead_settles each ts).bind fun ⟨head, ts⟩ => ?_
  dsimp only
  cases takeMark? .question ts with
  | none | some => exact settles_plain

theorem chain_settles (operator? : TokenKind → Option BinaryOp) (each : Mirrors depth expr expr') :
    Mirrors depth (Counting.chain operator? expr) (readChain operator? expr') := by
  refine fun ts => (each ts).bind fun first => iterate_settles (fun left ts => ?_) _ _
  cases ts with
  | nil => exact settles_pure
  | cons token ts =>
    dsimp only
    cases operator? token.kind with
    | none => exact settles_pure
    | some op => exact (each ts).bind fun _ => settles_pure

theorem cast_settles (each : Mirrors depth type type') (below : Mirrors depth unary unary') :
    Mirrors depth (Counting.cast b type unary) (readCast b type' unary') := by
  intro ts
  unfold Counting.cast readCast readCastType?
  cases takeMark? .openParen ts with
  | none => exact settles_pure
  | some inner =>
    refine (each inner).attempt ?_
    simp only [Option.bind_eq_bind, Option.bind_some]
    cases type' inner with
    | error e => exact settles_pure
    | ok found =>
      obtain ⟨castType, behind⟩ := found
      simp only [Except.toOption, Option.bind_some]
      cases takeMark? .closeParen behind with
      | none => exact settles_pure
      | some behind =>
        simp only [Option.bind_some]
        split
        · exact settles_pure
        · exact (below behind).bind fun _ => settles_pure

theorem argument_settles (each : Mirrors depth expr expr') :
    Mirrors depth (Counting.argument expr) (readArgument expr') :=
  fun _ => (each _).bind fun _ => settles_pure

theorem arguments_settles (each : Mirrors depth expr expr') :
    Mirrors depth (Counting.arguments b expr) (readArgumentList b expr') := by
  intro ts
  unfold Counting.arguments readArgumentList
  cases takeMark? .closeParen ts with
  | some ts => exact settles_pure
  | none =>
    exact (separated_settles _ (argument_settles each) ts).bind fun _ =>
      settles_plain.bind fun _ => settles_pure

theorem primary_settles (each : Mirrors depth expr expr')
    (eachArgs : Mirrors depth args (readTypeArgs b type')) :
    Mirrors depth (Counting.primary b expr args) (readAtom b type' expr') := by
  intro ts
  cases ts with
  | nil => exact settles_plain
  | cons token ts =>
    obtain ⟨k, place⟩ := token
    cases k with
    | identifier name | address name => exact (eachArgs ts).bind fun _ => settles_pure
    | global =>
      refine settles_plain.bind fun behind => ?_
      cases behind with
      | nil => exact settles_plain
      | cons token behind =>
        obtain ⟨k, place⟩ := token
        cases k with
        | identifier name => exact settles_pure
        | _ => exact settles_plain
    | keyword word => cases word <;> exact settles_plain
    | mark sign =>
      cases sign with
      | openParen => exact (each ts).bind fun _ => settles_plain.bind fun _ => settles_pure
      | _ => exact settles_plain
    | _ => exact settles_plain

theorem access_settles {list : CountingParser (List (Passing × Expr))}
    {primary : CountingParser Expr} (each : Mirrors depth expr expr')
    (eachArgs : Mirrors depth args (readTypeArgs b type'))
    (eachList : Mirrors depth list (readArgumentList b expr'))
    (first : Mirrors depth primary (readAtom b type' expr')) :
    Mirrors depth (Counting.access b expr args list primary) (readAccess b type' expr') := by
  refine fun ts => (first ts).bind fun _ => iterate_settles (fun target ts => ?_) _ _
  cases ts with
  | nil => exact settles_pure
  | cons token ts =>
    obtain ⟨k, place⟩ := token
    cases k with
    | mark sign =>
      cases sign with
      | dot => exact settles_plain.bind fun _ => (eachArgs _).bind fun _ => settles_pure
      | openParen => exact (eachList ts).bind fun _ => settles_pure
      | openBracket =>
        exact (separated_settles _ each ts).bind fun _ => settles_plain.bind fun _ => settles_pure
      | _ => exact settles_pure
    | _ => exact settles_pure

/-- A cast that is read in front of everything else is an operand. -/
theorem readOperandBody_cast_first {k : TokenKind} {place : Nat} {ts : List Token}
    (noMinus : k ≠ .mark .minus) (noPlus : k ≠ .mark .plus) :
    readOperandBody b type' expr' unary' (⟨k, place⟩ :: ts) = (do
      match ← readCast b type' unary' (⟨k, place⟩ :: ts) with
      | (some found, rest) => return (found, rest)
      | (none, ts) => readAccess b type' expr' ts) := by
  rw [readOperandBody_unsigned noMinus noPlus, readCast]
  cases readCastType? type' (⟨k, place⟩ :: ts) with
  | none => rfl
  | some found =>
    dsimp only
    cases unary' found.2 <;> rfl

theorem operandBody_settles {cast : CountingParser (Option Expr)} {access : CountingParser Expr}
    (below : Mirrors depth unary unary')
    (first : Mirrors depth cast (readCast b type' unary'))
    (second : Mirrors depth access (readAccess b type' expr')) :
    Mirrors depth (Counting.operandBody b unary cast access)
      (readOperandBody b type' expr' unary') := by
  intro ts
  have unsigned : Settles depth
      (do
        match ← cast ts with
        | (some found, rest) => return (found, rest)
        | (none, ts) => access ts)
      (do
        match ← readCast b type' unary' ts with
        | (some found, rest) => return (found, rest)
        | (none, ts) => readAccess b type' expr' ts) := by
    refine (first ts).bind fun ⟨found, rest⟩ => ?_
    cases found with
    | some found => exact settles_pure
    | none => exact second rest
  cases ts with
  | nil => exact unsigned
  | cons token ts =>
    obtain ⟨k, place⟩ := token
    by_cases minus : k = .mark .minus
    · subst minus
      exact (below ts).bind fun _ => settles_pure
    by_cases plus : k = .mark .plus
    · subst plus
      exact below ts
    rw [readOperandBody_cast_first minus plus]
    unfold Counting.operandBody
    split
    · next same => exact absurd (Token.mk.inj (List.cons.inj same).1).1 minus
    · next same => exact absurd (Token.mk.inj (List.cons.inj same).1).1 plus
    · exact unsigned

theorem fallbackBody_settles {sum coalesce : CountingParser Expr} {sum' coalesce' : Parser Expr}
    (first : Mirrors depth sum sum')
    (second : ∀ ts, Settles depth (.nested b (coalesce ts)) (coalesce' ts)) :
    Mirrors depth (Counting.fallbackBody b sum coalesce) (readFallbackBody sum' coalesce') := by
  refine fun ts => (first ts).bind fun ⟨left, rest⟩ => ?_
  dsimp only
  cases takeMark? .doubleQuestion rest with
  | none => exact settles_pure
  | some rest => exact (second rest).bind fun _ => settles_pure

theorem exprBody_settles {coalesce : CountingParser Expr} {coalesce' : Parser Expr}
    (first : Mirrors depth coalesce coalesce') (second : Mirrors depth expr expr') :
    Mirrors depth (Counting.exprBody expr coalesce) (readExprBody coalesce' expr') := by
  refine fun ts => (first ts).bind fun ⟨target, rest⟩ => ?_
  cases rest with
  | nil => exact settles_pure
  | cons token rest =>
    dsimp only
    cases assignment? token.kind with
    | none => exact settles_pure
    | some op => exact (second _).bind fun _ => settles_pure

end Readers

/-- How many parts are read, one inside of the other, before one nests. -/
def Part.rank : Part α → Nat
  | assignment | unary | type => 0
  | multiplicative | cast | arguments | typeArgs => 1
  | additive | primary | dottedType _ => 2
  | coalesce | access => 3

theorem Part.rank_le (part : Part α) : part.rank ≤ 3 := by
  cases part <;> simp only [rank] <;> omega

theorem countWithin_settles {b : Bounds} {fuel depth : Nat} (part : Part α)
    (enough : 4 * (b.maxDepth - depth) + part.rank < fuel) :
    Mirrors depth (part.countWithin b fuel) (part.read b (b.maxDepth - depth)) := by
  induction fuel generalizing α depth with
  | zero => omega
  | succ fuel ih =>
    generalize left : b.maxDepth - depth = levels at enough
    have beside : ∀ {β : Type} (inner : Part β), inner.rank < part.rank →
        Mirrors depth (inner.countWithin b fuel) (inner.read b levels) :=
      fun inner lower => left ▸ ih inner (by omega)
    have below : ∀ less, levels = less + 1 → depth < b.maxDepth ∧ ∀ {β : Type} (inner : Part β),
        Mirrors (depth + 1) (inner.countWithin b fuel) (inner.read b less) := by
      rintro less rfl
      have next : b.maxDepth - (depth + 1) = less := by omega
      refine ⟨by omega, fun inner => ?_⟩
      have := inner.rank_le
      exact next ▸ ih inner (by omega)
    have nests : ∀ {γ : Type} {x : Counting γ} {y : Nat → Except Error γ}, y 0 = b.tooDeep →
        (∀ less, levels = less + 1 → Settles (depth + 1) x (y (less + 1))) →
        Settles depth (.nested b x) (y levels) := by
      intro γ x y none more
      cases levels with
      | zero => exact none ▸ settles_tooDeep (Nat.sub_eq_zero_iff_le.mp left)
      | succ less => exact (more less rfl).nested (below less rfl).1
    cases part with
    | assignment =>
      refine fun ts => nests (x := Counting.exprBody _ _ ts)
        (y := fun levels => readExpr b levels ts) rfl fun less deeper => ?_
      have inner := @(below less deeper).2
      exact exprBody_settles (inner .coalesce) (inner .assignment) ts
    | coalesce =>
      have sum := beside .additive (by decide)
      cases levels with
      | zero =>
        -- the sum fails for want of levels, so that it does not matter what would follow it
        have refused : ∀ ts : List Token, Settles depth
            (.nested b (Part.coalesce.countWithin b fuel ts)) ((fun _ => b.tooDeep) ts) :=
          fun _ => settles_tooDeep (Nat.sub_eq_zero_iff_le.mp left)
        exact fallbackBody_settles sum refused
      | succ less =>
        obtain ⟨within, inner⟩ := below less rfl
        exact fallbackBody_settles sum fun ts => (inner .coalesce ts).nested within
    | additive => exact chain_settles additive? (beside .multiplicative (by decide))
    | multiplicative => exact chain_settles multiplicative? (beside .unary (by decide))
    | unary =>
      refine fun ts => nests (y := fun levels => readOperand b levels ts) rfl fun less deeper => ?_
      have inner := @(below less deeper).2
      exact operandBody_settles (inner .unary) (inner .cast) (inner .access) ts
    | cast => exact cast_settles (beside .type (by decide)) (beside .unary (by decide))
    | access =>
      exact access_settles (beside .assignment (by decide)) (beside .typeArgs (by decide))
        (beside .arguments (by decide)) (beside .primary (by decide))
    | primary =>
      exact primary_settles (beside .assignment (by decide)) (beside .typeArgs (by decide))
    | arguments => exact arguments_settles (beside .assignment (by decide))
    | typeArgs => exact typeArgs_settles (beside .type (by decide))
    | type =>
      let named (isGlobal : Bool) := (Part.dottedType isGlobal).countWithin b fuel
      refine fun ts => nests (x := Counting.typeBody b named ts)
        (y := fun levels => readTypeExpr b levels ts) rfl fun less deeper => ?_
      have inner := @(below less deeper).2
      exact typeBody_settles (fun isGlobal => inner (.dottedType isGlobal)) ts
    | dottedType isGlobal =>
      exact dottedType_settles (beside .typeArgs Nat.one_lt_two) isGlobal

/-- A greater limit on nesting changes no expression that is read. Every part of an expression is
read by the counter as by levels, and leaves the counter as it was even if it fails. -/
theorem parse_deepens {text : String} {limit limit' : Nat} (wider : limit ≤ limit') :
    (∀ e, parse text limit = .ok e → parse text limit' = .ok e) ∧
      ∀ {α : Type} (part : Part α) (stop : Nat) (ts : List Token) (depth : Nat),
        part.count ⟨stop, limit⟩ ts depth =
          (part.read ⟨stop, limit⟩ (limit - depth) ts, depth) := by
  refine ⟨fun e read => ?_, fun part stop ts depth => ?_⟩
  · obtain ⟨scanned, scans, read⟩ := parse_eq_ok.mp read
    obtain ⟨again, -⟩ := (levels_repeat wider).2.2 _ (spellable_of_scan scans) _ read
    exact parse_eq_ok.mpr ⟨scanned, scans, again⟩
  · have := part.rank_le
    exact countWithin_settles (b := ⟨stop, limit⟩) part (by dsimp only; omega) ts

theorem nestedCast_deepens : 4 ≤ 64 ∧ ∃ e, parse "(A<B>)x" 4 = .ok e ∧
    (e matches .cast ..) = true ∧ parse "(A<B>)x" 64 = .ok e := by
  obtain ⟨e, read, isCast⟩ : ∃ e, parse "(A<B>)x" 4 = .ok e ∧ (e matches .cast ..) = true :=
    exists_ok_of_any (by decide +kernel)
  have wider : 4 ≤ 64 := by decide
  exact ⟨wider, e, read, isCast, (parse_deepens wider).1 e read⟩

end DebugExpr.Source
