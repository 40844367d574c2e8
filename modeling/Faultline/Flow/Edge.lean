/-
# Flow.Edge — sets of control flow edges

Blocks are numbers. An `EdgeSet` lists edges in ascending order, without
repetitions; it may be given from outside, so the numbers in it are any integers.
-/

namespace Faultline.Flow

abbrev Edge := Int × Int

def Edge.before (a b : Edge) : Bool :=
  a.1 < b.1 || (a.1 == b.1 && a.2 < b.2)

structure EdgeSet where
  edges : List Edge := []
  deriving DecidableEq, Inhabited

namespace EdgeSet

def insertSorted (e : Edge) : List Edge → List Edge
  | [] => [e]
  | f :: rest =>
    if e = f then f :: rest
    else if e.before f then e :: f :: rest
    else f :: insertSorted e rest

def insert (s : EdgeSet) (e : Edge) : EdgeSet :=
  ⟨insertSorted e s.edges⟩

def ofList (es : List Edge) : EdgeSet :=
  es.foldl insert {}

def has (s : EdgeSet) (source target : Int) : Bool :=
  s.edges.contains (source, target)

def size (s : EdgeSet) : Nat :=
  s.edges.length

end EdgeSet

end Faultline.Flow
