/-
Patterns with captures, written as scanners.

The captures the repository reads are a decimal number at the head of a string
and the argument of a call such as `v(…)`.  Each scanner takes the longest match
its pattern allows, which for these patterns is the one the engine finds.
-/
import CircuitForge.Js.Runtime

namespace Js

/-! ## Decimal numbers -/

/-- `\d+` at the head: the digits and the rest. -/
def spanDigits (s : Text) : Text × Text := s.span Char.isDigit

/-- `(?:[eE][+-]?\d+)?` at the head: the exponent and the rest. -/
def spanExponent (s : Text) : Text × Text :=
  match s with
  | e :: s' =>
    if e == 'e' || e == 'E' then
      let (sign, r) := match s' with
        | '+' :: r => (['+'], r)
        | '-' :: r => (['-'], r)
        | r => ([], r)
      match spanDigits r with
      | ([], _) => ([], s)
      | (ds, r) => (e :: sign ++ ds, r)
    else ([], s)
  | [] => ([], [])

/-- `\d*\.?\d+` at the head. -/
def spanMantissa (s : Text) : Option (Text × Text) :=
  let (whole, r) := spanDigits s
  let fraction := match r with
    | '.' :: r => spanDigits r
    | _ => ([], r)
  match fraction with
  | ([], _) => if whole = [] then none else some (whole, r)
  | (ds, r) => some (whole ++ '.' :: ds, r)

/-- `[+-]?\d*\.?\d+(?:[eE][+-]?\d+)?` at the head. -/
def spanNumber (s : Text) : Option (Text × Text) :=
  let (sign, r) := match s with
    | '+' :: r => (['+'], r)
    | '-' :: r => (['-'], r)
    | r => ([], r)
  match spanMantissa r with
  | none => none
  | some (m, r) =>
    let (e, r) := spanExponent r
    some (sign ++ m ++ e, r)

/-- `s.match(/[+-]?\d*\.?\d+(?:[eE][+-]?\d+)?/g)`.  The first argument counts the
characters of the last match still to be skipped. -/
def numbersFrom : Nat → Text → List Text
  | _, [] => []
  | k + 1, _ :: s => numbersFrom k s
  | 0, c :: s =>
    match spanNumber (c :: s) with
    | some (n, _) => n :: numbersFrom (n.length - 1) s
    | none => numbersFrom 0 s

def numbers (s : Text) : List Text := numbersFrom 0 s

/-! ## Calls -/

/-- `l\s*\(([^)]*)\)` at the head, for a letter `l` under the `i` flag: the
argument and the length of the match. -/
def callAt (l : Char) (s : Text) : Option (Text × Nat) :=
  match s with
  | c :: r =>
    if sameLetter l c then
      match trimStart r with
      | '(' :: t =>
        let inner := t.takeWhile (· != ')')
        match t.dropWhile (· != ')') with
        | _ :: rest => some (inner, (c :: r).length - rest.length)
        | [] => none
      | _ => none
    else none
  | [] => none

/-- `s.replace(/\bl\s*\((…)\)/gi, f)`, where `f` is given the whole match and the
text between the parentheses and `ok` says which of these the pattern admits.
`prev` says whether a word character stands before `s`; `skip` counts the
characters of the last match still to be passed over. -/
def replaceCallsFrom (l : Char) (ok : Text → Bool) (f : Text → Text → Text) :
    Bool → Nat → Text → Text
  | _, _, [] => []
  | _, skip + 1, c :: s => replaceCallsFrom l ok f (isWord c) skip s
  | prev, 0, c :: s =>
    match if prev then none else callAt l (c :: s) with
    | some (inner, n) =>
      if ok inner then f ((c :: s).take n) inner ++ replaceCallsFrom l ok f (isWord c) (n - 1) s
      else c :: replaceCallsFrom l ok f (isWord c) 0 s
    | none => c :: replaceCallsFrom l ok f (isWord c) 0 s

def replaceCalls (l : Char) (ok : Text → Bool) (f : Text → Text → Text) (s : Text) : Text :=
  replaceCallsFrom l ok f false 0 s

/-- `/^l\s*\(\s*([^),]+?)\s*\)$/i` on a trimmed string: the argument, trimmed. -/
def soleCall (l : Char) (s : Text) : Option Text :=
  match callAt l s with
  | some (inner, n) =>
    if n = s.length ∧ inner ≠ [] ∧ ',' ∉ inner then some (trim inner) else none
  | none => none

/-- `xs.join(',')` of `s.split(',').map(f)`. -/
def mapCommas (f : Text → Text) (s : Text) : Text := join ",".toList ((s.splitOn ',').map f)

end Js
