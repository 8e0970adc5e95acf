import Rekuiper.Lib.Outcome
import Rekuiper.Rules.Manager

/-!
# Graph rules

A visual rule is a graph of sources, operators and sinks. It is compiled into a statement
and sink actions, and rejected when its edges have a cycle.
-/

namespace Rekuiper.Rules

open Lib

variable {F : Type}

-- ---- Cycles

/-- The nodes on the path of a depth-first search, and those that are explored. -/
structure Search where
  visiting : List String
  done : List String

/-- `fuel` bounds the depth; it is never used up when it exceeds the number of nodes. -/
def visit (edges : HashMap String (List String)) : Nat → String → Search → Except String Search
  | 0, node, _ => .error s!"Graph contains a cycle at node '{node}'"
  | fuel + 1, node, s =>
    if node ∈ s.visiting then .error s!"Graph contains a cycle at node '{node}'"
    else if node ∈ s.done then .ok s
    else do
      let s ← ((edges.lookup node).getD []).foldlM (fun s target => visit edges fuel target s)
        { s with visiting := node :: s.visiting }
      return { visiting := s.visiting.erase node, done := node :: s.done }

def endpoints (edges : HashMap String (List String)) : List String :=
  ((edges.keys ++ edges.entries.flatMap Sigma.snd).mergeSort fun a b => a ≤ b).destutter (· ≠ ·)

def checkAcyclic (edges : HashMap String (List String)) : Except String Search :=
  let nodes := endpoints edges
  nodes.foldlM (fun s node => visit edges (nodes.length + 1) node s) ⟨[], []⟩

section
variable {edges : HashMap String (List String)}

theorem visit_visiting {fuel : Nat} {node : String} {s s' : Search}
    (h : visit edges fuel node s = .ok s') : s'.visiting = s.visiting := by
  induction fuel generalizing node s s' with
  | zero => cases h
  | succ fuel ih =>
    unfold visit at h
    split_ifs at h
    · cases h
      rfl
    · obtain ⟨s₁, hloop, h⟩ := bind_eq_ok h
      cases h
      have hvisiting : s₁.visiting = node :: s.visiting :=
        foldlM_invariant (P := fun t => t.visiting = node :: s.visiting)
          (fun t ht target _ t' h => (ih h).trans ht) rfl hloop
      simp [hvisiting]

theorem mem_dedup (x y : String) (ys : List String) :
    x ∈ ys.destutter' (· ≠ ·) y ↔ x ∈ y :: ys := by
  induction ys generalizing y with
  | nil => rfl
  | cons z ys ih =>
    rw [List.destutter'_cons]
    split_ifs with h
    · rw [List.mem_cons, ih, List.mem_cons (a := x) (b := y)]
    · obtain rfl := not_not.mp h
      rw [ih]
      simp

theorem mem_endpoints (node : String) :
    node ∈ endpoints edges ↔ node ∈ edges.keys ++ edges.entries.flatMap Sigma.snd := by
  have hsorted : node ∈ edges.keys ++ edges.entries.flatMap Sigma.snd ↔
      node ∈ (edges.keys ++ edges.entries.flatMap Sigma.snd).mergeSort fun a b => a ≤ b :=
    List.mem_mergeSort.symm
  rw [hsorted]
  unfold endpoints
  cases (edges.keys ++ edges.entries.flatMap Sigma.snd).mergeSort fun a b => a ≤ b with
  | nil => rfl
  | cons first rest => exact mem_dedup node first rest

theorem target_mem_endpoints {node target : String}
    (h : target ∈ (edges.lookup node).getD []) : target ∈ endpoints edges := by
  cases hnode : edges.lookup node with
  | none => simp [hnode] at h
  | some targets =>
    rw [hnode, Option.getD_some] at h
    refine (mem_endpoints target).mpr (List.mem_append_right _ (List.mem_flatMap.mpr ?_))
    exact ⟨⟨node, targets⟩, AList.mem_lookup_iff.mp hnode, h⟩

end

-- ---- Compilation

/-- A text without blanks around it, unless nothing is left. -/
def trimmed (s : String) : Option String := if trim s = "" then none else some (trim s)

def propStr (props : HashMap String (Value F)) (key : String) : Option String :=
  ((props.lookup key).bind Value.asStr).bind trimmed

/-- `parse::<u64>`, which takes a plus sign but no minus sign -/
def parseU64 (s : String) : Option Int :=
  (parseInt s).filter fun n => 0 ≤ n ∧ n < 2 ^ 64 ∧ ¬ startsWith s "-"

def propU64 (props : HashMap String (Value F)) (key : String) (default : Int) : Int :=
  ((props.lookup key).bind fun v => v.asU64 <|> (v.asStr.bind fun s => parseU64 (trim s))).getD
    default

def sortedNodes (graph : GraphDefinition F) : List (Sigma fun _ : String => GraphNode F) :=
  graph.nodes.entries.mergeSort fun a b => a.1 ≤ b.1

/-- The stream of the first source node, or the first entry point. -/
def graphSource (graph : GraphDefinition F) : Except String String :=
  match (sortedNodes graph).find? (·.2.nodeCategory = "source"), graph.topo.sources with
  | some ⟨key, node⟩, _ =>
    .ok ((propStr node.props "sourceName" <|> propStr node.props "datasource").getD key)
  | none, source :: _ => .ok source
  | none, [] => .error "Graph rule has no source"

structure Clauses (F : Type) where
  filters : List String
  projections : List String
  window : Option String
  actions : List (HashMap String (Value F))

def Clauses.empty : Clauses F := ⟨[], [], none, []⟩

def graphWindow (props : HashMap String (Value F)) : String :=
  let kind := toAsciiLowercase (((props.lookup "type").bind Value.asStr).getD "tumblingwindow")
  let unit := toAsciiLowercase (((props.lookup "unit").bind Value.asStr).getD "ss")
  let size := propU64 props "size" 10
  let interval := propU64 props "interval" size
  match kind with
  | "hoppingwindow" => s!"HOPPINGWINDOW({unit}, {size}, {interval})"
  | "slidingwindow" => s!"SLIDINGWINDOW({unit}, {size})"
  | "sessionwindow" => s!"SESSIONWINDOW({unit}, {size}, {interval})"
  | "countwindow" =>
    if "interval" ∈ props then s!"COUNTWINDOW({size}, {interval})" else s!"COUNTWINDOW({size})"
  | _ => s!"TUMBLINGWINDOW({unit}, {size})"

def Clauses.addOperator (c : Clauses F) (node : GraphNode F) : Clauses F :=
  match node.nodeType with
  | "filter" =>
    { c with filters := c.filters ++ ((propStr node.props "expr").map fun e => s!"({e})").toList }
  | "pick" =>
    let fields := ((node.props.lookup "fields").bind Value.asArray).getD []
    { c with projections := c.projections ++ fields.filterMap fun f => f.asStr.bind trimmed }
  | "function" | "aggfunc" =>
    { c with projections := c.projections ++ (propStr node.props "expr").toList }
  | "window" => { c with window := some (graphWindow node.props) }
  | _ => c

def Clauses.addNode (c : Clauses F) (entry : Sigma fun _ : String => GraphNode F) : Clauses F :=
  match entry.2.nodeCategory with
  | "operator" => c.addOperator entry.2
  | "sink" =>
    let kind := if entry.2.nodeType = "" then entry.1 else entry.2.nodeType
    { c with actions := c.actions ++ [AList.singleton kind (Value.ofMap entry.2.props)] }
  | _ => c

def Clauses.sql (c : Clauses F) (source : String) : String :=
  let fields := if c.projections = [] then "*" else ", ".intercalate c.projections
  let condition := if c.filters = [] then "" else " WHERE " ++ " AND ".intercalate c.filters
  let window := (c.window.map fun w => s!" GROUP BY {w}").getD ""
  s!"SELECT {fields} FROM {source}{condition}{window}"

def compileGraphToSqlAndActions (graph : GraphDefinition F) :
    Except String (String × List (HashMap String (Value F))) := do
  let _ ← checkAcyclic graph.topo.edges
  let source ← graphSource graph
  let clauses := (sortedNodes graph).foldl Clauses.addNode .empty
  return (clauses.sql source, clauses.actions)

-- ---- Sinks

def GraphDefinition.HasSink (graph : GraphDefinition F) : Prop :=
  ∃ key node, graph.nodes.lookup key = some node ∧ node.nodeCategory = "sink"

theorem addOperator_actions (c : Clauses F) (node : GraphNode F) :
    (c.addOperator node).actions = c.actions := by
  unfold Clauses.addOperator
  split <;> rfl

theorem addNode_actions_eq_nil (c : Clauses F) (entry : Sigma fun _ : String => GraphNode F) :
    (c.addNode entry).actions = [] ↔ c.actions = [] ∧ entry.2.nodeCategory ≠ "sink" := by
  unfold Clauses.addNode
  split
  · rename_i h
    rw [addOperator_actions, h]
    simp
  · rename_i h
    simp [h]
  · rename_i h
    exact (and_iff_left h).symm

theorem foldl_actions_eq_nil (nodes : List (Sigma fun _ : String => GraphNode F))
    (c : Clauses F) :
    (nodes.foldl Clauses.addNode c).actions = [] ↔
      c.actions = [] ∧ ∀ entry ∈ nodes, entry.2.nodeCategory ≠ "sink" := by
  induction nodes generalizing c with
  | nil => simp
  | cons entry nodes ih =>
    rw [List.foldl_cons, ih, addNode_actions_eq_nil, List.forall_mem_cons, and_assoc]

theorem compiled_actions_ne_nil {graph : GraphDefinition F} {sql : String}
    {actions : List (HashMap String (Value F))}
    (h : compileGraphToSqlAndActions graph = .ok (sql, actions)) :
    actions ≠ [] ↔ graph.HasSink := by
  obtain ⟨_, _, h⟩ := bind_eq_ok h
  obtain ⟨source, _, h⟩ := bind_eq_ok h
  obtain ⟨-, rfl⟩ := Prod.mk.inj (Except.ok.inj h)
  rw [Ne, foldl_actions_eq_nil]
  simp only [Clauses.empty, true_and, sortedNodes, List.mem_mergeSort, not_forall, not_not,
    exists_prop]
  constructor
  · rintro ⟨⟨key, node⟩, hmem, hsink⟩
    exact ⟨key, node, AList.mem_lookup_iff.mpr hmem, hsink⟩
  · rintro ⟨key, node, hnode, hsink⟩
    exact ⟨⟨key, node⟩, AList.mem_lookup_iff.mp hnode, hsink⟩

end Rekuiper.Rules
