/-
Patterns searched for inside a text.

A pattern with word boundaries or look-behind reads the characters around a match as well.  Here a
pattern takes a place in a text to the places where its matches end, and `/r/.test(s)` asks whether
there is a match anywhere.
-/
import CircuitForge.Js.Text

namespace Js

/-- A place in a text: the character in front of it, and the text behind it. -/
structure Place where
  before : Option Char
  rest : Text

/-- Where the matches of a pattern that start at a place end. -/
abbrev Pattern := Place → List Place

namespace Pattern

def one (p : Char → Bool) : Pattern := fun s =>
  match s.rest with
  | c :: rest => if p c then [⟨some c, rest⟩] else []
  | [] => []

/-- A look around that takes no character. -/
def look (p : Place → Bool) : Pattern := fun s => if p s then [s] else []

def andThen (a b : Pattern) : Pattern := fun s => (a s).flatMap b

def either (a b : Pattern) : Pattern := fun s => a s ++ b s

def maybe (a : Pattern) : Pattern := either a fun s => [s]

/-- `a{0,n}`. -/
def upTo : Nat → Pattern → Pattern
  | 0, _ => fun s => [s]
  | n + 1, a => maybe (andThen a (upTo n a))

/-- `p*`, for a class of characters. -/
def manyFrom (p : Char → Bool) : Option Char → Text → List Place
  | before, [] => [⟨before, []⟩]
  | before, c :: rest =>
    ⟨before, c :: rest⟩ :: if p c then manyFrom p (some c) rest else []

def many (p : Char → Bool) : Pattern := fun s => manyFrom p s.before s.rest

def atLeastOne (p : Char → Bool) : Pattern := andThen (one p) (many p)

/-- A sequence of patterns. -/
def inOrder : List Pattern → Pattern
  | [] => fun s => [s]
  | a :: rest => andThen a (inOrder rest)

def anyOf : List Pattern → Pattern
  | [] => fun _ => []
  | a :: rest => either a (anyOf rest)

/-- A word under the `i` flag. -/
def wordI (w : String) : Pattern := inOrder (w.toList.map fun c => one (sameLetter c))

/-- `\b`. -/
def boundary : Pattern := look fun s => s.before.any isWord != s.rest.head?.any isWord

/-- A match at a place or behind it. -/
def findFrom (a : Pattern) : Option Char → Text → Bool
  | before, [] => !(a ⟨before, []⟩).isEmpty
  | before, c :: rest => !(a ⟨before, c :: rest⟩).isEmpty || findFrom a (some c) rest

/-- `/a/.test(s)`. -/
def test (a : Pattern) (s : Text) : Bool := findFrom a none s

end Pattern

end Js
