/-
Paths as texts.

A path is a root, which is empty, one slash or exactly two, and the parts
between the slashes; empty parts and single dots carry no meaning and are
dropped, double dots are kept.  `text` writes the normal form and `join`
resolves one path against another.
-/

namespace AnalyzerBridge

/-- A path in normal form. -/
structure PurePath where
  root : String := ""
  parts : List String := []
  deriving DecidableEq, Inhabited

namespace PurePath

/-- The root that a text begins with: more than two slashes are as good as one. -/
def rootOf : List Char → String
  | '/' :: '/' :: '/' :: _ => "/"
  | '/' :: '/' :: _ => "//"
  | '/' :: _ => "/"
  | _ => ""

/-- The pieces of a text between slashes. -/
def pieces (text : List Char) : List (List Char) :=
  text.foldr
    (fun c acc =>
      if c == '/' then [] :: acc
      else
        match acc with
        | [] => [[c]]
        | piece :: rest => (c :: piece) :: rest)
    [[]]

/-- Reads a path. -/
def parse (s : String) : PurePath :=
  { root := rootOf s.toList
    parts := ((pieces s.toList).map String.ofList).filter fun p => p != "" && p != "." }

/-- The text of a path; the empty relative path is a dot. -/
def text (p : PurePath) : String :=
  if p.root == "" && p.parts.isEmpty then "." else p.root ++ "/".intercalate p.parts

/-- A path with a root. -/
def isAbsolute (p : PurePath) : Bool :=
  p.root != ""

/-- No file has the path, because a null character is in it. -/
def hasNull (p : PurePath) : Bool :=
  p.parts.any fun part => part.toList.contains '\x00'

/-- A path as seen from another: an absolute one stands alone. -/
def join (base p : PurePath) : PurePath :=
  if p.isAbsolute then p else { base with parts := base.parts ++ p.parts }

/-- The path without its last part. -/
def parent (p : PurePath) : PurePath :=
  { p with parts := p.parts.dropLast }

end PurePath

end AnalyzerBridge
