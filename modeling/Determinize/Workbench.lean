import Determinize.Draft
import Determinize.Minimal.Mode
import Determinize.Run.Word
import Determinize.Subset.Log
import Determinize.Subset.Replay
import Determinize.View.Dot
import Determinize.View.Table
/-!
# The workbench

A workbench holds automata under names and applies the operations of the library to them one after
the other. Minimizing an automaton and setting one of its parts change it in place; all other
operations leave it alone and put a new automaton under a name. Two names can stand for one
automaton, and then both see what is changed in place. Setting a part is not checked, so what is
kept are drafts.

## Main definitions

* `Workbench` — the automata, their names, and the tables and replays kept under names
* `Workbench.Command`, `Workbench.Request` — what can be asked for
* `Workbench.Answer` — what is answered
* `Workbench.perform` — one request
* `Workbench.following`, `Workbench.after` — the workbench after a request and after several
* `Workbench.log` — the events of the same request

## Implementation notes

Automata are kept in slots and names point to slots, so that sharing is visible. A request that
fails changes nothing.
-/

namespace Determinize

/-- Automata under names. -/
structure Workbench where
  /-- The automata made so far. -/
  slots : List Draft
  /-- Which slot a name stands for, the latest first. -/
  names : List (String × Nat)
  /-- The tables kept under names. -/
  indexes : List (String × Index)
  /-- The replays kept under names, each with the slot of its automaton. -/
  replays : List (String × Nat × Replay)

namespace Workbench

/-- The workbench without an automaton. -/
def empty : Workbench := ⟨[], [], [], []⟩

/-- A part of an automaton that is replaced without any check, and the value that replaces it. -/
inductive Change where
  /-- The transitions, or whatever stands in their place. -/
  | transitions (x : Raw)
  /-- The alphabet. -/
  | alphabet (x : Raw)
  /-- The initial state. -/
  | initial (x : Raw)
  /-- The listed states. -/
  | states (x : Raw)
  /-- The final states. -/
  | finals (x : Raw)

/-- The draft with the part replaced. The elements of a value are read one by one; only in place of
the transitions a value without elements is let in. -/
def Change.apply (d : Draft) : Change → Except Fault Draft
  | transitions x => return d.withEntries x
  | alphabet x => do
    let l ← (← x.elements).mapM Raw.symbol
    return { d with automaton := { d.automaton with alphabet := l } }
  | initial x => do
    let s ← State.ofRaw x
    return { d with automaton := { d.automaton with initial := s } }
  | states x => do
    let l ← (← x.elements).mapM State.ofRaw
    return { d with automaton := { d.automaton with states := l } }
  | finals x => do
    let l ← (← x.elements).mapM State.ofRaw
    return { d with automaton := { d.automaton with finals := l } }

/-- What can be asked for. -/
inductive Command where
  /-- A new automaton. -/
  | new (automaton : Reading Automaton)
  /-- The automaton without epsilon transitions. -/
  | eliminate
  /-- The subset construction. -/
  | generate (limit : Raw)
  /-- Merging equivalent states, in place. -/
  | minimize (mode : Raw)
  /-- A copy. -/
  | copy
  /-- The automaton as text. -/
  | describe
  /-- Replacing a part, in place. -/
  | set (change : Reading Change)
  /-- Whether a state is final. -/
  | isFinal (state : Raw)
  /-- Whether some transition reads nothing. -/
  | hasEpsilon
  /-- Keeping the table of the transitions. -/
  | index (name : String)
  /-- Where a state leads on a symbol. -/
  | next (state symbol : Raw) (index? : Option String)
  /-- The closure of a state. -/
  | closure (state : Raw)
  /-- Whether two states are equivalent for merging. -/
  | equivalent (p q : Raw) (index? : Option String)
  /-- The run on a word. -/
  | run (word : Raw)
  /-- Whether a word is accepted by some run. -/
  | accepts (word : Raw)
  /-- Both for several words, each read when its turn comes. -/
  | words (words : List (Reading Raw))
  /-- The graph as text. -/
  | dot (title : Raw)
  /-- The identifiers of the nodes. -/
  | ids
  /-- The transition table. -/
  | table (marked : Raw)
  /-- Keeping a replay of the construction. -/
  | replay (name : String)
  /-- A step of a replay. -/
  | stepAt (step : Raw) (name : String)
  /-- Whether a step of a replay is the last one. -/
  | isFinalStep (step : Raw) (name : String)

/-- A command, the name of the automaton it reads and the name its automaton gets. -/
structure Request where
  /-- The name that is read. -/
  source : String
  /-- The name that is written. -/
  target : String
  /-- What is asked for. -/
  command : Command

/-- What is answered. -/
inductive Answer where
  /-- Nothing but that it was done. -/
  | done
  /-- An automaton. -/
  | automaton (d : Draft)
  /-- An automaton, and whether it is the one that was read. -/
  | sameOr (same : Bool) (a : Automaton)
  /-- An automaton with its texts. -/
  | shown (d : Draft)
  /-- The outcome of a construction. -/
  | construction (c : Construction)
  /-- The outcome of a step of a replay, and whether the step is the last one. -/
  | step (c : Construction) (final : Bool)
  /-- Yes or no. -/
  | flag (b : Bool)
  /-- A list of states. -/
  | states (l : List State)
  /-- Successors by scan, successors by table, and whether the table has any. -/
  | successors (scanned indexed : List State) (has : Bool)
  /-- A run. -/
  | run (r : Run)
  /-- For each word, whether some run and whether the run accepts it. -/
  | verdicts (l : List (Bool × Bool))
  /-- A graph as text. -/
  | dot (source : String)
  /-- Nodes with their identifiers. -/
  | ids (l : List (State × String))
  /-- A table. -/
  | table (t : Table)
  /-- A replay. -/
  | replay (r : Replay)

/-! ### Slots and names -/

/-- What the name stands for in a list of pairs. -/
def lookUp {α : Type} (l : List (String × α)) (name : String) : Except Fault α :=
  match l.lookup name with
  | some a => .ok a
  | none => .error (.unknownName name)

/-- The slot of the name and what is in it. -/
def find (w : Workbench) (name : String) : Except Fault (Nat × Draft) := do
  let slot ← lookUp w.names name
  match w.slots[slot]? with
  | some d => return (slot, d)
  | none => throw (.unknownName name)

/-- The workbench with a new automaton under the name. -/
def put (w : Workbench) (name : String) (a : Automaton) : Workbench :=
  { w with slots := w.slots ++ [.of a], names := (name, w.slots.length) :: w.names }

/-- The workbench with the name for what is in the slot. -/
def share (w : Workbench) (name : String) (slot : Nat) : Workbench :=
  { w with names := (name, slot) :: w.names }

/-- The workbench with what is in the slot replaced. -/
def replace (w : Workbench) (slot : Nat) (d : Draft) : Workbench :=
  { w with slots := w.slots.set slot d }

/-- The table under the name, or a fresh one of the draft if no name is given. -/
def indexFor (w : Workbench) (d : Draft) : Option String → Except Fault Index
  | none => (d.asked .source).map Automaton.index
  | some name => lookUp w.indexes name

/-- The replay under the name, for its automaton as that is now, and the draft of that. The number
of steps stays what it was. -/
def replayFor (w : Workbench) (name : String) : Except Fault (Replay × Draft) := do
  let (slot, r) ← lookUp w.replays name
  let d := w.slots.getD slot (.of r.automaton)
  return (⟨d.automaton, r.completedSteps⟩, d)

/-- A step of the replay under the name: the replay, the number of the step and what it shows. That
there is such a step is found out before the transitions are looked at. -/
def stepFor (w : Workbench) (name : String) (step : Raw) :
    Except Fault (Replay × Nat × Construction) := do
  let (replay, d) ← w.replayFor name
  let (k, c) ← replay.stepAtRaw step
  let _ ← d.asked .silence
  return (replay, k, c)

/-! ### Requests -/

/-- Where a state leads on a value that may be a symbol. The scan comes before the table. What
cannot be a key is refused by the table and merely not found by the scan. -/
def nextAnswer (w : Workbench) (d : Draft) (index? : Option String) (state symbol : Raw) :
    Except Fault Answer := do
  let s ← State.ofRaw state
  let a ← d.asked .source
  let index ← w.indexFor d index?
  match symbol with
  | .str x =>
    return .successors (successors a.transitions s x) (index.successors s x)
      (index.hasTransition s x)
  | x => if x.isHashable then return .successors [] [] false else throw (.unhashable x.kind)

/-- Whether two states are equivalent for merging. States that differ in finality are told apart
without a look at the transitions. -/
def equivalentAnswer (w : Workbench) (d : Draft) (index? : Option String) (p q : Raw) :
    Except Fault Bool := do
  let a := d.automaton
  let s ← State.ofRaw p
  let t ← State.ofRaw q
  if a.isFinal s ≠ a.isFinal t then return false
  return a.equivalent (← w.indexFor d index?) s t

/-- The run on a word. -/
def runAnswer (d : Draft) (word : Raw) : Except Fault Run := do
  let a ← d.asked .source
  return a.runWord (← Word.ofRaw word)

/-- Whether some run accepts a word. -/
def acceptsAnswer (d : Draft) (word : Raw) : Except Fault Bool := do
  let a ← d.asked .symbol
  a.acceptsWord (← Word.ofRaw word)

/-- For a word, whether some run and whether the run accepts it. -/
def verdict (d : Draft) (word : Raw) : Except Fault (Bool × Bool) := do
  return (← acceptsAnswer d word, (← runAnswer d word).accepted)

/-- The title that a value names, if it names one. -/
def title? (x : Raw) : Option String := if x.isNothing then none else some x.text

/-- Performs a request: the workbench afterwards and the answer. -/
def perform (w : Workbench) (r : Request) : Reading (Workbench × Answer) := do
  match r.command with
  | .new automaton =>
    let a ← automaton
    return (w.put r.target a, .automaton (.of a))
  | .eliminate =>
    let (slot, d) ← w.find r.source
    let a ← (d.asked .silence : Except Fault Automaton)
    if a.hasEpsilon then
      return (w.put r.target a.eliminated, .sameOr false a.eliminated)
    else return (w.share r.target slot, .sameOr true a)
  | .generate limit =>
    let (_, d) ← w.find r.source
    let k? ← stepLimit limit
    let c := (← d.asked .silence).determinizedWithin k?
    return (w.put r.target c.automaton, .construction c)
  | .minimize mode =>
    let (slot, d) ← w.find r.source
    let m ← Mode.ofRaw mode
    let a := (← d.asked .source).minimized m
    return (w.replace slot (.of a), .sameOr true a)
  | .copy =>
    let a ← (← w.find r.source).2.checked
    return (w.put r.target a.copy, .automaton (.of a.copy))
  | .describe => return (w, .shown (← w.find r.source).2)
  | .set change =>
    let (slot, d) ← w.find r.source
    let e ← ((← change).apply d : Except Fault Draft)
    return (w.replace slot e, .automaton e)
  | .isFinal state =>
    let (_, d) ← w.find r.source
    return (w, .flag (d.automaton.isFinal (← State.ofRaw state)))
  | .hasEpsilon => return (w, .flag (← (← w.find r.source).2.hasEpsilon))
  | .index name =>
    let a ← (← w.find r.source).2.asked .source
    return ({ w with indexes := (name, a.index) :: w.indexes }, .done)
  | .next state symbol index? =>
    let (_, d) ← w.find r.source
    return (w, ← w.nextAnswer d index? state symbol)
  | .closure state =>
    let (_, d) ← w.find r.source
    let s ← State.ofRaw state
    return (w, .states (Determinize.closure (← d.asked .silence).transitions s))
  | .equivalent p q index? =>
    let (_, d) ← w.find r.source
    return (w, .flag (← w.equivalentAnswer d index? p q))
  | .run word => return (w, .run (← runAnswer (← w.find r.source).2 word))
  | .accepts word => return (w, .flag (← acceptsAnswer (← w.find r.source).2 word))
  | .words words =>
    let (_, d) ← w.find r.source
    return (w, .verdicts (← words.mapM fun word => do Reading.ofExcept (verdict d (← word))))
  | .dot title =>
    let a ← (← w.find r.source).2.asked .source
    a.graph.warnings.forM Reading.warn
    return (w, .dot (a.dot (title? title)))
  | .ids => return (w, .ids (← (← w.find r.source).2.asked .source).nodeIds)
  | .table marked =>
    let a ← (← w.find r.source).2.asked .source
    return (w, .table (a.table !marked.isNothing))
  | .replay name =>
    let (slot, d) ← w.find r.source
    let replay := Replay.of (← d.asked .silence)
    return ({ w with replays := (name, slot, replay) :: w.replays }, .replay replay)
  | .stepAt step name =>
    let (replay, k, c) ← w.stepFor name step
    return (w.put r.target c.automaton, .step c (replay.isFinalStep k))
  | .isFinalStep step name => return (w, .flag ((← w.replayFor name).1.isFinalStepRaw step))

/-- The workbench after a request; one that fails leaves it as it is. -/
def following (w : Workbench) (r : Request) : Workbench :=
  match (w.perform r).outcome with
  | .ok (w', _) => w'
  | .error _ => w

/-- The workbench after some requests. -/
def after (w : Workbench) (requests : List Request) : Workbench := requests.foldl following w

/-- The events of a request that reports any, unless it fails. -/
def log? (w : Workbench) (r : Request) : Except Fault (List Event) := do
  match r.command with
  | .eliminate => return (← (← w.find r.source).2.asked .silence).eliminationLog
  | .generate limit =>
    let (_, d) ← w.find r.source
    let k? ← stepLimit limit
    return (← d.asked .silence).determinizationLog k?
  | .minimize mode =>
    let (_, d) ← w.find r.source
    let m ← Mode.ofRaw mode
    return (← d.asked .source).minimizationLog m
  | .replay _ => return (← (← w.find r.source).2.asked .silence).determinizationLog none
  | .stepAt step name =>
    let (replay, k, _) ← w.stepFor name step
    return replay.automaton.determinizationLog (some k)
  | _ => return []

/-- The events of a request. -/
def log (w : Workbench) (r : Request) : List Event :=
  match w.log? r with
  | .ok l => l
  | .error _ => []

end Workbench

end Determinize
