import Determinize.Reading
import Determinize.View.Graph
/-!
# Graphs in the DOT language

A graph is emitted one statement at a time: two settings, the marker, the nodes, the edge from the
marker, the edges. Each statement is a line of the text. A value stands as it is where the language
takes it for an identifier, a number or an HTML string, and in double quotes otherwise.

## Main definitions

* `Dot.isHtml`, `Dot.isId`, `Dot.isKeyword` — the labels that need no quotes, and the words that do
* `Dot.escapeQuotes` — a text made fit to stand between double quotes
* `Dot.quote` — a label as it is written
* `Dot.hasOpenEnd` — the labels whose closing quote a backslash takes away
* `Dot.Statement`, `Dot.Statement.text` — a statement, and the line in which it is written
* `Graph.statements` — the statements of a graph
* `Graph.dot`, `Graph.warnings` — the graph as text, and what is wrong with it

## Main results

* `Graph.Node.text_statement`, `Graph.Edge.text_statement`, `Graph.dot_eq` — the text, line by line

## Implementation notes

Statements are taken over any addresses of nodes. When they are written the addresses are
identifiers, and when they are read back they are states.

A line feed at the very end of a label does not count when it is classified, but it is written.
Backslashes are not escaped, since they have a meaning inside labels; a backslash at the end of a
quoted label is therefore warned of.
-/

namespace Determinize

namespace Dot

/-- The characters of a label without a line feed at the very end. -/
def body (l : List Char) : List Char := if l.getLast? = some '\n' then l.dropLast else l

/-- Whether the label is an HTML string: something in angle brackets. -/
def isHtml (l : List Char) : Bool :=
  match body l with
  | '<' :: r => r.getLast? = some '>'
  | _ => false

/-- The letters of an identifier. -/
def isLetter (c : Char) : Bool :=
  ('a' ≤ c ∧ c ≤ 'z') ∨ ('A' ≤ c ∧ c ≤ 'Z') ∨ c = '_'

/-- The digits of a number. -/
def isDigit (c : Char) : Bool := '0' ≤ c ∧ c ≤ '9'

/-- A word of letters and digits that begins with a letter. -/
def isName : List Char → Bool
  | [] => false
  | c :: r => isLetter c && r.all fun d => isLetter d || isDigit d

/-- A number without sign: digits, or a point with digits behind it, or digits on both sides of a
point, the right side being optional. -/
def isUnsigned : List Char → Bool
  | '.' :: r => !r.isEmpty && r.all isDigit
  | l =>
    match l.takeWhile isDigit, l.dropWhile isDigit with
    | [], _ => false
    | _, [] => true
    | _, '.' :: r => r.all isDigit
    | _, _ => false

/-- A number. -/
def isNumeral : List Char → Bool
  | '-' :: r => isUnsigned r
  | l => isUnsigned l

/-- Whether the label is an identifier or a number. -/
def isId (l : List Char) : Bool := isName (body l) || isNumeral (body l)

/-- The words that have a meaning of their own, in any case. -/
def keywords : List String := ["node", "edge", "graph", "digraph", "subgraph", "strict"]

/-- Whether the label is a word with a meaning of its own. -/
def isKeyword (l : List Char) : Bool := String.ofList (l.map Char.toLower) ∈ keywords

/-- The text with a backslash before each double quote that has an even number of backslashes
before it. The first argument says whether an odd number stands before the text. -/
def escapeQuotes : Bool → List Char → List Char
  | _, [] => []
  | odd, c :: r =>
    if c = '\\' then c :: escapeQuotes (!odd) r
    else if c = '"' then (if odd then [c] else ['\\', c]) ++ escapeQuotes false r
    else c :: escapeQuotes false r

/-- Whether the label is written in quotes. -/
def needsQuotes (l : List Char) : Bool := !isHtml l && (!isId l || isKeyword l)

/-- A label as it is written. -/
def quote (s : String) : String :=
  let l := s.toList
  if needsQuotes l then "\"" ++ String.ofList (escapeQuotes false l) ++ "\"" else s

/-- Whether the number of backslashes at the end of the text is odd. -/
def endsOdd (l : List Char) : Bool := (l.reverse.takeWhile fun c => c = '\\').length % 2 = 1

/-- Whether the label is written in quotes and ends with a backslash that takes the closing quote
for its own. -/
def hasOpenEnd (s : String) : Bool :=
  let l := s.toList
  needsQuotes l && (endsOdd l || endsOdd (body l))

/-- The identifier of the marker. -/
def marker : String := "start"

/-! ### Statements -/

/-- A statement, in which nodes are addressed by values of the type `ι`. -/
inductive Statement (ι : Type) where
  /-- A setting for the whole graph. -/
  | setting (name value : String)
  /-- A node with its attributes. -/
  | node (id : ι) (attributes : List (String × String))
  /-- An edge with its attributes, from the node it leaves to the node it leads to. -/
  | edge (source target : ι) (attributes : List (String × String))
deriving DecidableEq

namespace Statement

/-- The statement with its nodes addressed in another way. -/
def map {ι κ : Type} (f : ι → κ) : Statement ι → Statement κ
  | setting name value => setting name value
  | node id attributes => node (f id) attributes
  | edge source target attributes => edge (f source) (f target) attributes

/-- Attributes in square brackets, and nothing where there are none. -/
def attributesText : List (String × String) → String
  | [] => ""
  | l => " [" ++ " ".intercalate (l.map fun x => x.1 ++ "=" ++ quote x.2) ++ "]"

/-- The statement on a line of its own. -/
def text : Statement String → String
  | setting name value => "\t" ++ name ++ "=" ++ quote value ++ "\n"
  | node id attributes => "\t" ++ quote id ++ attributesText attributes ++ "\n"
  | edge source target attributes =>
    "\t" ++ quote source ++ " -> " ++ quote target ++ attributesText attributes ++ "\n"

end Statement

end Dot

namespace Graph

/-- The statement of a node. -/
def Node.statement (n : Node) : Dot.Statement String :=
  .node n.id [("label", n.label), ("shape", if n.double then "doublecircle" else "circle")]

/-- The statement of an edge. -/
def Edge.statement (e : Edge) : Dot.Statement String := .edge e.source e.target [("label", e.label)]

/-- The statements of a graph, in the order in which they are written. -/
def statements (g : Graph) : List (Dot.Statement String) :=
  [.setting "rankdir" "LR", .setting "size" "8,5", .node Dot.marker [("shape", "point")]] ++
    g.nodes.map Node.statement ++ .edge Dot.marker g.start [] :: g.edges.map Edge.statement

/-- The first line of a graph under a title. -/
def titleLine : Option String → String
  | none => ""
  | some title => "// " ++ title ++ "\n"

/-- The graph as text, under a title if one is given. -/
def dot (g : Graph) (title? : Option String) : String :=
  titleLine title? ++ "digraph \x7b\n" ++ String.join (g.statements.map Dot.Statement.text) ++
    "\x7d\n"

theorem Node.text_statement (n : Node) :
    n.statement.text = "\t" ++ Dot.quote n.id ++ " [label=" ++ Dot.quote n.label ++ " shape=" ++
      (if n.double then "doublecircle" else "circle") ++ "]\n" := by
  have hshape : Dot.quote (if n.double then "doublecircle" else "circle") =
      if n.double then "doublecircle" else "circle" := by
    cases n.double <;> decide
  rw [← String.toList_inj]
  simp [statement, Dot.Statement.text, Dot.Statement.attributesText, hshape]

theorem Edge.text_statement (e : Edge) :
    e.statement.text = "\t" ++ Dot.quote e.source ++ " -> " ++ Dot.quote e.target ++ " [label=" ++
      Dot.quote e.label ++ "]\n" := by
  rw [← String.toList_inj]
  simp [statement, Dot.Statement.text, Dot.Statement.attributesText]

/-- The lines of a graph: the settings, the marker, the nodes, the edge from the marker, and the
edges. -/
theorem dot_eq (g : Graph) (title? : Option String) :
    g.dot title? = titleLine title? ++ "digraph \x7b\n\trankdir=LR\n\tsize=\"8,5\"\n" ++
      "\tstart [shape=point]\n" ++
      String.join (g.nodes.map fun n => n.statement.text) ++
      "\tstart -> " ++ Dot.quote g.start ++ "\n" ++
      String.join (g.edges.map fun e => e.statement.text) ++ "\x7d\n" := by
  have hopening :
      [.setting "rankdir" "LR", .setting "size" "8,5", .node Dot.marker [("shape", "point")]].map
        Dot.Statement.text =
      ["\trankdir=LR\n", "\tsize=\"8,5\"\n", "\tstart [shape=point]\n"] := by decide
  have hmarker : (Dot.Statement.edge Dot.marker g.start []).text =
      "\tstart -> " ++ Dot.quote g.start ++ "\n" := by
    have hquote : Dot.quote Dot.marker = "start" := by decide
    rw [Dot.Statement.text, hquote, ← String.toList_inj]
    simp [Dot.Statement.attributesText]
  rw [dot, statements, List.map_append, List.map_append, hopening, List.map_cons, hmarker,
    List.map_map, List.map_map, ← String.toList_inj]
  simp [Function.comp_def]

/-- The warnings for the labels of the graph, in the order in which they are written. -/
def warnings (g : Graph) : List Warning :=
  ((g.nodes.map (·.label) ++ g.edges.map (·.label)).filter Dot.hasOpenEnd).map .openQuote

end Graph

/-- The graph of an automaton as text. -/
def Automaton.dot (a : Automaton) (title? : Option String) : String := a.graph.dot title?

end Determinize
