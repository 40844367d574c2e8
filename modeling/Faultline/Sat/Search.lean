/-
# Sat.Search — looking for an assignment or a refutation

Conflict-driven search: decide, propagate through watched literals, learn a clause
from each conflict and jump back. `search` gives an assignment, a trace that derives
the empty clause, or gives up when its budget of conflicts is spent. Nothing is
proved about the search and nothing depends on it: its results are checked before
they are believed.

Clauses lie in one flat array. The clause at place `c` has its size at `c`, its
number in the trace at `c + 1` and its literals from `c + 2` on, the two watched
ones first; size zero marks a clause that was dropped. Literals are their codes.
-/
import Faultline.Power
import Faultline.Sat.Trace

namespace Faultline.Sat

open Circuit (Lit)

/-- The state of a search. Arrays are indexed by the variable, or by the literal where said. -/
structure Search where
  pool : Array Nat
  /-- By literal: the clauses to visit once it is true, each followed by one of its literals. -/
  watches : Array (Array Nat)
  /-- By literal: zero open, one true, two false. -/
  value : ByteArray
  level : Array Nat
  reason : Array Nat
  place : Array Nat
  trail : Array Nat
  limits : Array Nat
  head : Nat
  phase : ByteArray
  activity : FloatArray
  bump : Float
  heap : Array Nat
  slot : Array Nat
  seen : ByteArray
  learned : Array Nat
  /-- Quality of the learned clause at a place: the number of levels it spans. -/
  span : Array Nat
  steps : Trace
  number : Nat
  /-- The trail up to here is recorded as steps. -/
  fixed : Nat
  conflicts : Nat
  restartAt : Nat
  reduceAt : Nat
  reductions : Nat
  fast : Float
  slow : Float
  stamp : Array Nat
  stamps : Nat

namespace Search

@[inline] def negated (l : Nat) : Nat :=
  if l % 2 == 0 then l + 1 else l - 1

@[inline] def valueOf (s : Search) (l : Nat) : UInt8 :=
  s.value.get! l

@[inline] def assign (s : Search) (l reason : Nat) : Search :=
  let v := l / 2
  let depth := s.limits.size
  let spot := s.trail.size
  { s with
    value := (s.value.set! l 1).set! (negated l) 2
    level := s.level.setIfInBounds v depth
    reason := s.reason.setIfInBounds v reason
    place := s.place.setIfInBounds v spot
    trail := s.trail.push l }

/-! ## The heap of variables -/

@[inline] def above (s : Search) (u v : Nat) : Bool :=
  s.activity.get! u > s.activity.get! v

@[inline] def putAt (s : Search) (i v : Nat) : Search :=
  { s with heap := s.heap.setIfInBounds i v, slot := s.slot.setIfInBounds v (i + 1) }

def siftUp : Nat → Search → Nat → Nat → Search
  | 0, s, i, v => s.putAt i v
  | fuel + 1, s, i, v =>
    if i == 0 then s.putAt 0 v
    else
      let up := (i - 1) / 2
      let u := s.heap.getD up 0
      if s.above v u then siftUp fuel (s.putAt i u) up v else s.putAt i v

def siftDown : Nat → Search → Nat → Nat → Search
  | 0, s, i, v => s.putAt i v
  | fuel + 1, s, i, v =>
    let left := 2 * i + 1
    let size := s.heap.size
    if left < size then
      let right := left + 1
      let a := s.heap.getD left 0
      let down :=
        if right < size && s.above (s.heap.getD right 0) a then right else left
      let u := s.heap.getD down 0
      if s.above u v then siftDown fuel (s.putAt i u) down v else s.putAt i v
    else s.putAt i v

def heapHeight : Nat := 64

def enqueue (s : Search) (v : Nat) : Search :=
  if s.slot.getD v 0 != 0 then s
  else
    let i := s.heap.size
    siftUp heapHeight { s with heap := s.heap.push v } i v

def dequeue (s : Search) : Search × Nat :=
  let top := s.heap.getD 0 0
  let last := s.heap.getD (s.heap.size - 1) 0
  let s := { s with heap := s.heap.pop, slot := s.slot.setIfInBounds top 0 }
  if s.heap.size == 0 then (s, top)
  else (siftDown heapHeight s 0 last, top)

def rescale : Nat → FloatArray → FloatArray
  | 0, a => a
  | n + 1, a => rescale n (a.set! n (a.get! n * 1e-100))

def bumpVar (s : Search) (v : Nat) : Search :=
  let x := s.activity.get! v + s.bump
  let s := { s with activity := s.activity.set! v x }
  let s :=
    if x > 1e100 then
      { s with activity := rescale s.activity.size s.activity, bump := s.bump * 1e-100 }
    else s
  let spot := s.slot.getD v 0
  if spot == 0 then s else siftUp heapHeight s (spot - 1) v

/-! ## Propagation -/

/-- The first literal of the clause, from `i` to before `stop`, that is not false; `stop` if
there is none. -/
def findOpen (pool : Array Nat) (value : ByteArray) : Nat → Nat → Nat → Nat
  | 0, _, stop => stop
  | fuel + 1, i, stop =>
    if i < stop then
      if value.get! (pool.getD i 0) == 2 then findOpen pool value fuel (i + 1) stop else i
    else stop

def closeGap : Nat → Array Nat → Nat → Nat → Array Nat
  | 0, ws, _, _ => ws
  | fuel + 1, ws, i, j =>
    if i < ws.size then closeGap fuel (ws.setIfInBounds j (ws.getD i 0)) (i + 1) (j + 1)
    else ws.shrink j

/-- Visits the clauses watching `f`, which became false. `ws` are the watches, read from `i` and
kept below `j`. Gives the place of a clause that became empty, or zero. -/
def visit (f : Nat) : Nat → Search → Array Nat → Nat → Nat → Search × Array Nat × Nat
  | 0, s, ws, _, _ => (s, ws, 0)
  | fuel + 1, s, ws, i, j =>
    if i < ws.size then
      let c := ws.getD i 0
      let hint := ws.getD (i + 1) 0
      if s.valueOf hint == 1 then
        visit f fuel s ((ws.setIfInBounds j c).setIfInBounds (j + 1) hint) (i + 2) (j + 2)
      else
        let size := s.pool.getD c 0
        if size == 0 then visit f fuel s ws (i + 2) j
        else
          let l0 := s.pool.getD (c + 2) 0
          let first := if l0 == f then s.pool.getD (c + 3) 0 else l0
          let v := s.valueOf first
          if v == 1 then
            visit f fuel s ((ws.setIfInBounds j c).setIfInBounds (j + 1) first) (i + 2) (j + 2)
          else
            let stop := c + 2 + size
            let k := findOpen s.pool s.value size (c + 4) stop
            if k < stop then
              let l := s.pool.getD k 0
              let pool := ((s.pool.setIfInBounds (c + 2) first).setIfInBounds (c + 3) l).setIfInBounds k f
              let watches := s.watches.modify (negated l) fun w => (w.push c).push first
              visit f fuel { s with pool := pool, watches := watches } ws (i + 2) j
            else
              let pool := (s.pool.setIfInBounds (c + 2) first).setIfInBounds (c + 3) f
              let s := { s with pool := pool }
              let ws := (ws.setIfInBounds j c).setIfInBounds (j + 1) first
              if v == 2 then
                let rest := ws.size
                (s, closeGap rest ws (i + 2) (j + 2), c)
              else visit f fuel (s.assign first c) ws (i + 2) (j + 2)
    else (s, ws.shrink j, 0)

/-- Propagates until nothing is left to do or a clause becomes empty, whose place is given. -/
def propagate : Nat → Search → Search × Nat
  | 0, s => (s, 0)
  | fuel + 1, s =>
    if s.head < s.trail.size then
      let p := s.trail.getD s.head 0
      let ws := s.watches.getD p #[]
      let s := { s with head := s.head + 1, watches := s.watches.setIfInBounds p #[] }
      let visits := ws.size + 1
      let (s, ws, conflict) := visit (negated p) visits s ws 0 0
      let s := { s with watches := s.watches.setIfInBounds p ws }
      if conflict == 0 then propagate fuel s else (s, conflict)
    else (s, 0)

/-! ## Learning -/

def literals (pool : Array Nat) (c : Nat) : List Nat :=
  (pool.extract (c + 2) (c + 2 + pool.getD c 0)).toList

structure Analysis where
  clause : Array Nat := #[]
  used : Array Nat := #[]
  marked : Array Nat := #[]
  /-- Literals of the current level still to be resolved. -/
  pending : Nat := 0

/-- Takes the literals of a clause, from `i` on for `n` literals, other than the one it implied. -/
def absorb : Nat → Search → Analysis → Nat → Nat → Search × Analysis
  | 0, s, a, _, _ => (s, a)
  | n + 1, s, a, i, skip =>
    let l := s.pool.getD i 0
    let v := l / 2
    let level := s.level.getD v 0
    if l == skip || level == 0 || s.seen.get! v != 0 then absorb n s a (i + 1) skip
    else
      let depth := s.limits.size
      let s := bumpVar { s with seen := s.seen.set! v 1 } v
      let a := { a with marked := a.marked.push v }
      let a :=
        if level == depth then { a with pending := a.pending + 1 }
        else { a with clause := a.clause.push l }
      absorb n s a (i + 1) skip

/-- Resolves backwards along the trail, below `spot`, until one literal of the current level is
left; gives that literal. -/
def resolve : Nat → Search → Analysis → Nat → Nat → Nat → Search × Analysis × Nat
  | 0, s, a, _, _, _ => (s, a, 0)
  | fuel + 1, s, a, c, skip, spot =>
    let size := s.pool.getD c 0
    let (s, a) := absorb size s a (c + 2) skip
    let spot := lastSeen spot s spot
    let l := s.trail.getD spot 0
    if a.pending ≤ 1 then (s, a, l)
    else
      let v := l / 2
      let r := s.reason.getD v 0
      resolve fuel s { a with pending := a.pending - 1, used := a.used.push v } r l spot
where
  /-- The highest place below `spot` that holds a seen variable. -/
  lastSeen : Nat → Search → Nat → Nat
    | 0, _, spot => spot
    | n + 1, s, spot =>
      let spot := spot - 1
      if s.seen.get! (s.trail.getD spot 0 / 2) != 0 then spot else lastSeen n s spot

/-- Follows reasons from the variables on the stack. Every literal met must be seen, fixed, or
have a reason itself; newly met variables are marked. -/
def covered : Nat → Search → Analysis → List Nat → Search × Analysis × Bool
  | 0, s, a, _ => (s, a, false)
  | _ + 1, s, a, [] => (s, a, true)
  | fuel + 1, s, a, v :: stack =>
    let c := s.reason.getD v 0
    let size := s.pool.getD c 0
    match step size s a (c + 2) stack with
    | (s, a, some stack) => covered fuel s a stack
    | (s, a, none) => (s, a, false)
where
  step : Nat → Search → Analysis → Nat → List Nat → Search × Analysis × Option (List Nat)
    | 0, s, a, _, stack => (s, a, some stack)
    | n + 1, s, a, i, stack =>
      let v := s.pool.getD i 0 / 2
      if s.seen.get! v != 0 || s.level.getD v 0 == 0 then step n s a (i + 1) stack
      else if s.reason.getD v 0 == 0 || s.stamp.getD (s.level.getD v 0) 0 != s.stamps then (s, a, none)
      else
        step n { s with seen := s.seen.set! v 1 } { a with marked := a.marked.push v } (i + 1)
          (v :: stack)

def unmark : List Nat → ByteArray → ByteArray
  | [], seen => seen
  | v :: vs, seen => unmark vs (seen.set! v 0)

def minimize : List Nat → Search → Analysis → Array Nat → Search × Analysis × Array Nat
  | [], s, a, kept => (s, a, kept)
  | l :: ls, s, a, kept =>
    let v := l / 2
    if s.reason.getD v 0 == 0 then minimize ls s a (kept.push l)
    else
      let before := a.marked.size
      let fuel := s.trail.size + 2
      match covered fuel s a [v] with
      | (s, a, true) =>
        let fresh := a.marked.extract before a.marked.size
        let a := { a with used := (a.used.push v) ++ fresh }
        minimize ls s a kept
      | (s, a, false) =>
        let fresh := (a.marked.extract before a.marked.size).toList
        let s := { s with seen := unmark fresh s.seen }
        let a := { a with marked := a.marked.shrink before }
        minimize ls s a (kept.push l)

/-- Stamps the levels of the literals; gives the number of different ones. -/
def spanOf : List Nat → Search → Nat → Search × Nat
  | [], s, n => (s, n)
  | l :: ls, s, n =>
    let d := s.level.getD (l / 2) 0
    if s.stamp.getD d 0 == s.stamps then spanOf ls s n
    else spanOf ls { s with stamp := s.stamp.setIfInBounds d s.stamps } (n + 1)

def withSpan (s : Search) (ls : List Nat) : Search × Nat :=
  spanOf ls { s with stamps := s.stamps + 1 } 0

def deepestFirst (s : Search) (ls : Array Nat) : Array Nat :=
  let best := (List.range ls.size).foldl (fun best i =>
    if s.level.getD (ls.getD i 0 / 2) 0 > s.level.getD (ls.getD best 0 / 2) 0 then i else best) 0
  let l := ls.getD best 0
  let l0 := ls.getD 0 0
  (ls.setIfInBounds best l0).setIfInBounds 0 l

def backTo : Nat → Search → Nat → Search
  | 0, s, _ => s
  | n + 1, s, keep =>
    if s.trail.size ≤ keep then s
    else
      let l := s.trail.getD (s.trail.size - 1) 0
      let v := l / 2
      let s := { s with
        trail := s.trail.pop
        value := (s.value.set! l 0).set! (negated l) 0
        phase := s.phase.set! v (if l % 2 == 0 then 1 else 2) }
      backTo n (s.enqueue v) keep

def backjump (s : Search) (depth : Nat) : Search :=
  if s.limits.size ≤ depth then s
  else
    let keep := s.limits.getD depth 0
    let size := s.trail.size
    let s := backTo size s keep
    { s with head := keep, limits := s.limits.shrink depth }

def attach (s : Search) (ls : Array Nat) (number : Nat) : Search × Nat :=
  let c := s.pool.size
  let l0 := ls.getD 0 0
  let l1 := ls.getD 1 0
  let watches := s.watches.modify (negated l0) fun w => (w.push c).push l1
  let watches := watches.modify (negated l1) fun w => (w.push c).push l0
  let pool := ls.foldl Array.push ((s.pool.push ls.size).push number)
  ({ s with pool := pool, watches := watches }, c)

def toClause (ls : List Nat) : Clause :=
  ls.map Lit.mk

def record (s : Search) (clause : List Nat) (hints : List Nat) : Search :=
  { s with steps := s.steps.push ⟨toClause clause, hints⟩, number := s.number + 1 }

def numberOf (s : Search) (c : Nat) : Nat :=
  s.pool.getD (c + 1) 0

/-- Records what became fixed since last time: each literal follows from its reason. -/
def recordFixed : Nat → Search → Search
  | 0, s => s
  | n + 1, s =>
    if s.fixed < s.trail.size then
      let l := s.trail.getD s.fixed 0
      let r := s.reason.getD (l / 2) 0
      let s := { s with fixed := s.fixed + 1 }
      recordFixed n (if r == 0 then s else s.record [l] [s.numberOf r])
    else s

/-- Learns from the clause at `c`, which became empty above the first level. -/
def learn (s : Search) (c : Nat) : Search :=
  let top := s.trail.size
  let (s, a, uip) := resolve (top + 1) s {} c (2 * s.level.size) top
  let (s, _) := s.withSpan a.clause.toList
  let (s, a, kept) := minimize a.clause.toList s a #[]
  let kept := deepestFirst s kept
  let back := if kept.size == 0 then 0 else s.level.getD (kept.getD 0 0 / 2) 0
  let clause := #[negated uip] ++ kept
  let (s, span) := s.withSpan clause.toList
  let place := s.place
  let used := a.used.qsort fun u v => place.getD u 0 < place.getD v 0
  let hints := used.toList.map (fun v => s.numberOf (s.reason.getD v 0)) ++ [s.numberOf c]
  let s := { s with seen := unmark a.marked.toList s.seen }
  let number := s.number
  let s := s.backjump back
  let s := s.record clause.toList hints
  let s := { s with
    conflicts := s.conflicts + 1
    bump := s.bump * (1 / 0.95)
    fast := s.fast + (span.toFloat - s.fast) / 32
    slow := s.slow + (span.toFloat - s.slow) / 4096 }
  if kept.size == 0 then s.assign (negated uip) 0
  else
    let (s, c) := s.attach clause number
    let s := { s with learned := s.learned.push c, span := s.span.push span }
    s.assign (negated uip) c

/-! ## Housekeeping -/

def locked (s : Search) (c : Nat) : Bool :=
  let l := s.pool.getD (c + 2) 0
  s.valueOf l == 1 && s.reason.getD (l / 2) 0 == c

/-- Drops the worse half of the learned clauses: the older of those that span many levels. -/
def reduceLearned (s : Search) : Search :=
  let n := s.learned.size
  let ranked := (List.range n).toArray.map fun i => (s.span.getD i 0, n - i, s.learned.getD i 0)
  let ranked := ranked.qsort fun x y => x.1 < y.1 || (x.1 == y.1 && x.2.1 < y.2.1)
  let (pool, kept, spans) := (List.range n).foldl (fun (pool, kept, spans) i =>
    let (span, _, c) := ranked.getD i (0, 0, 0)
    if i < n / 2 || span ≤ 2 || s.locked c then (pool, kept.push c, spans.push span)
    else (pool.setIfInBounds c 0, kept, spans)) (s.pool, #[], #[])
  { s with pool := pool, learned := kept, span := spans,
           reductions := s.reductions + 1,
           reduceAt := s.conflicts + 2000 + 300 * (s.reductions + 1) }

def pick : Nat → Search → Search × Option Nat
  | 0, s => (s, none)
  | n + 1, s =>
    if s.heap.size == 0 then (s, none)
    else
      let (s, v) := s.dequeue
      if s.valueOf (2 * v) == 0 then (s, some v) else pick n s

inductive Outcome where
  /-- The value of each literal, by code; one is true. -/
  | model (value : ByteArray)
  | refuted (steps : Trace)
  | spent

/-- The search proper; `budget` bounds the conflicts. -/
def run (budget : Nat) : Nat → Search → Outcome
  | 0, _ => .spent
  | fuel + 1, s =>
    let trailBound := s.level.size + 1
    let (s, c) := propagate trailBound s
    if c != 0 then
      if s.limits.size == 0 then
        let s := recordFixed trailBound s
        let number := s.numberOf c
        .refuted (s.record [] [number]).steps
      else if budget ≤ s.conflicts then .spent
      else run budget fuel (s.learn c)
    else
      let s := if s.limits.size == 0 then recordFixed trailBound s else s
      if s.restartAt ≤ s.conflicts && s.fast * 0.8 > s.slow then
        let s := s.backjump 0
        run budget fuel { s with restartAt := s.conflicts + 50 }
      else if s.reduceAt ≤ s.conflicts then run budget fuel s.reduceLearned
      else
        let (s, v) := pick trailBound s
        match v with
        | none => .model s.value
        | some v =>
          let l := if s.phase.get! v == 1 then 2 * v else 2 * v + 1
          let s := { s with limits := s.limits.push s.trail.size }
          run budget fuel (s.assign l 0)

/-! ## Start -/

def zeros (n : Nat) : ByteArray :=
  ⟨Array.replicate n 0⟩

def start (vars : Nat) (number : Nat) : Search where
  pool := #[0]
  watches := Array.replicate (2 * vars) #[]
  value := zeros (2 * vars)
  level := Array.replicate vars 0
  reason := Array.replicate vars 0
  place := Array.replicate vars 0
  trail := #[]
  limits := #[]
  head := 0
  phase := zeros vars
  activity := ⟨Array.replicate vars 0⟩
  bump := 1
  heap := #[]
  slot := Array.replicate vars 0
  seen := zeros vars
  learned := #[]
  span := #[]
  steps := #[]
  number := number
  fixed := 0
  conflicts := 0
  restartAt := 50
  reduceAt := 2000
  reductions := 0
  fast := 0
  slow := 0
  stamp := Array.replicate (vars + 1) 0
  stamps := 0

/-- Loads one clause; false if it is empty or contradicts the units so far. -/
def load (s : Search) (number : Nat) (c : Clause) : Search × Bool :=
  match c with
  | [] => (s.record [] [number], false)
  | [l] =>
    if s.valueOf l.code == 1 then (s, true)
    else if s.valueOf l.code == 2 then (s.record [] [number], false)
    else ((s.record [l.code] [number]).assign l.code 0, true)
  | c =>
    let (s, _) := s.attach (c.map Lit.code).toArray number
    (s, true)

def loadAll : List Clause → Nat → Search → Search × Bool
  | [], _, s => (s, true)
  | c :: cs, number, s =>
    let s := c.foldl (fun s l => s.enqueue l.gate) s
    match s.load number c with
    | (s, true) => loadAll cs (number + 1) s
    | (s, false) => (s, false)

end Search

def search (vars budget : Nat) (cnf : Cnf) : Search.Outcome :=
  match Search.loadAll cnf.toList 0 (Search.start vars cnf.size) with
  | (s, false) => .refuted s.steps
  | (s, true) => Search.run budget (twoPow 60) s

end Faultline.Sat
