import Rekuiper.Lib.Runs
import Rekuiper.Rules.Graph

/-!
# Graphs with cycles

The depth-first search of `compile_graph_to_sql_and_actions` comes to an end on every graph, and it
fails exactly if the edges have a cycle. The nodes on its path all lead to the node that it visits,
and the explored nodes are in postorder.
-/

namespace Rekuiper.Rules

open Lib
open Relation (TransGen)

variable {F : Type} {edges : HashMap String (List String)}

def targets (edges : HashMap String (List String)) (node : String) : List String :=
  (edges.lookup node).getD []

def Edge (edges : HashMap String (List String)) (a b : String) : Prop := b ∈ targets edges a

def cycleError (node : String) : String := s!"Graph contains a cycle at node '{node}'"

-- ---- The search as a recursion without fuel

/-- `visit` of some nodes, one after the other, and what comes of it. A derivation is a search that
comes to an end. -/
inductive Explores (edges : HashMap String (List String)) :
    List String → Search → Except String Search → Prop
  | nil (s : Search) : Explores edges [] s (.ok s)
  | back {node : String} {rest : List String} {s : Search} (h : node ∈ s.visiting) :
    Explores edges (node :: rest) s (.error (cycleError node))
  | known {node : String} {rest : List String} {s : Search} {result : Except String Search}
    (hpath : node ∉ s.visiting) (hdone : node ∈ s.done) (h : Explores edges rest s result) :
    Explores edges (node :: rest) s result
  | fail {node : String} {rest : List String} {s : Search} {err : String}
    (hpath : node ∉ s.visiting) (hdone : node ∉ s.done)
    (h : Explores edges (targets edges node) { s with visiting := node :: s.visiting }
      (.error err)) :
    Explores edges (node :: rest) s (.error err)
  | enter {node : String} {rest : List String} {s t : Search} {result : Except String Search}
    (hpath : node ∉ s.visiting) (hdone : node ∉ s.done)
    (h : Explores edges (targets edges node) { s with visiting := node :: s.visiting } (.ok t))
    (hrest : Explores edges rest
      { visiting := t.visiting.erase node, done := node :: t.done } result) :
    Explores edges (node :: rest) s result

theorem explores_visit {fuel : Nat} {nodes : List String} {s : Search}
    (hnodes : nodes ⊆ endpoints edges) (hnodup : s.visiting.Nodup)
    (hsub : s.visiting ⊆ endpoints edges)
    (hfuel : (endpoints edges).length < fuel + s.visiting.length) :
    Explores edges nodes s (nodes.foldlM (fun s node => visit edges fuel node s) s) := by
  induction fuel generalizing nodes s with
  | zero =>
    have := (List.subperm_of_subset hnodup hsub).length_le
    omega
  | succ fuel ih =>
    induction nodes generalizing s with
    | nil => exact .nil s
    | cons node rest ihrest =>
      obtain ⟨hnode, hrest⟩ := List.cons_subset.mp hnodes
      rw [List.foldlM_cons, visit]
      split_ifs with hpath hdone
      · exact .back hpath
      · exact .known hpath hdone (ihrest hrest hnodup hsub hfuel)
      · have hbelow := @ih (targets edges node) { s with visiting := node :: s.visiting }
          (fun _ htarget => target_mem_endpoints htarget)
          (List.nodup_cons.mpr ⟨hpath, hnodup⟩) (List.cons_subset.mpr ⟨hnode, hsub⟩)
          (by rw [List.length_cons]; omega)
        change Explores edges (node :: rest) s
          (((targets edges node).foldlM (fun s target => visit edges fuel target s) _ >>= _) >>= _)
        cases hloop : (targets edges node).foldlM (fun s target => visit edges fuel target s)
          { s with visiting := node :: s.visiting } with
        | error err =>
          rw [hloop] at hbelow
          exact .fail hpath hdone hbelow
        | ok t =>
          rw [hloop] at hbelow
          have hvisiting : t.visiting = node :: s.visiting :=
            foldlM_invariant (P := fun t => t.visiting = node :: s.visiting)
              (fun t ht target _ t' h => (visit_visiting h).trans ht) rfl hloop
          refine .enter hpath hdone hbelow (ihrest hrest ?_ ?_ ?_)
          all_goals simpa [hvisiting]

theorem explores_checkAcyclic :
    Explores edges (endpoints edges) ⟨[], []⟩ (checkAcyclic edges) :=
  explores_visit (List.Subset.refl _) List.nodup_nil (List.nil_subset _) (by simp)

-- ---- What it finds

theorem Explores.visiting {nodes : List String} {s : Search} {result : Except String Search}
    (h : Explores edges nodes s result) {t : Search} (ht : result = .ok t) :
    t.visiting = s.visiting := by
  induction h generalizing t with
  | nil s =>
    cases ht
    rfl
  | back => cases ht
  | known _ _ _ ih => exact ih ht
  | fail => cases ht
  | @enter node _ s t' _ _ _ _ _ ihbelow ihrest =>
    have hbelow : t'.visiting = node :: s.visiting := ihbelow rfl
    have herased : t.visiting = t'.visiting.erase node := ihrest ht
    rw [herased, hbelow, List.erase_cons_head]

theorem Explores.sound {nodes : List String} {s : Search} {result : Except String Search}
    (h : Explores edges nodes s result)
    (hpath : ∀ v ∈ s.visiting, ∀ node ∈ nodes, TransGen (Edge edges) v node) {err : String}
    (herr : result = .error err) :
    ∃ node, err = cycleError node ∧ TransGen (Edge edges) node node := by
  induction h with
  | nil s => cases herr
  | @back node rest s hback =>
    cases herr
    exact ⟨node, rfl, hpath node hback node List.mem_cons_self⟩
  | known _ _ _ ih => exact ih (fun v hv n hn => hpath v hv n (List.mem_cons_of_mem _ hn)) herr
  | @fail node rest s err' _ _ _ ih =>
    refine ih (fun v hv target htarget => ?_) herr
    have hedge : Edge edges node target := htarget
    rcases List.mem_cons.mp hv with rfl | hv
    · exact .single hedge
    · exact (hpath v hv node List.mem_cons_self).tail hedge
  | @enter node rest s t result hnew _ hbelow _ _ ihrest =>
    refine ihrest (fun v hv n hn => hpath v ?_ n (List.mem_cons_of_mem _ hn)) herr
    have hvisiting := hbelow.visiting rfl
    rw [hvisiting, List.erase_cons_head] at hv
    exact hv

theorem Explores.complete {nodes : List String} {s : Search} {result : Except String Search}
    (h : Explores edges nodes s result) (hs : Postorder (Edge edges) s.done) {t : Search}
    (ht : result = .ok t) :
    Postorder (Edge edges) t.done ∧ s.done ⊆ t.done ∧ nodes ⊆ t.done := by
  induction h generalizing t with
  | nil s =>
    cases ht
    exact ⟨hs, List.Subset.refl _, List.nil_subset _⟩
  | back => cases ht
  | known _ hdone _ ih =>
    obtain ⟨horder, hkept, hrest⟩ := ih hs ht
    exact ⟨horder, hkept, List.cons_subset.mpr ⟨hkept hdone, hrest⟩⟩
  | fail => cases ht
  | @enter node rest s t' result _ _ _ _ ihbelow ihrest =>
    obtain ⟨hbelow, hkept, htargets⟩ := ihbelow hs rfl
    obtain ⟨horder, hkept', hrest⟩ := ihrest ⟨fun _ hedge => htargets hedge, hbelow⟩ ht
    obtain ⟨hnode, hdone⟩ := List.cons_subset.mp hkept'
    exact ⟨horder, List.Subset.trans hkept hdone, List.cons_subset.mpr ⟨hnode, hrest⟩⟩

theorem cyclic_of_error {err : String} (h : checkAcyclic edges = .error err) :
    ∃ node, err = cycleError node ∧ TransGen (Edge edges) node node :=
  explores_checkAcyclic.sound (fun _ hv => absurd hv List.not_mem_nil) h

theorem acyclic_of_ok {s : Search} (h : checkAcyclic edges = .ok s) (node : String) :
    ¬TransGen (Edge edges) node node := by
  intro hcycle
  obtain ⟨horder, -, hall⟩ := explores_checkAcyclic.complete trivial h
  obtain ⟨before, -, hedge⟩ := Relation.TransGen.tail'_iff.mp hcycle
  exact horder.acyclic (hall (target_mem_endpoints hedge)) hcycle

-- ---- Compilation

theorem cycleError_inj {a b : String} (h : cycleError a = cycleError b) : a = b := by
  have h' : "Graph contains a cycle at node '" ++ a ++ "'" =
    "Graph contains a cycle at node '" ++ b ++ "'" := h
  exact (String.append_right_inj _).mp ((String.append_left_inj _).mp h')

theorem cycleError_ne (node : String) : cycleError node ≠ "Graph rule has no source" := by
  intro h
  have h' : "Graph " ++ ("c" ++ ("ontains a cycle at node '" ++ node ++ "'")) =
    "Graph " ++ "rule has no source" := h
  have hhead := congrArg (fun s => s.toList.head?) ((String.append_right_inj _).mp h')
  rw [String.toList_append] at hhead
  have hc : "c".toList = ['c'] := by decide
  rw [hc, List.singleton_append, List.head?_cons] at hhead
  exact absurd hhead (by decide)

theorem graphSource_error {graph : GraphDefinition F} {err : String}
    (h : graphSource graph = .error err) : err = "Graph rule has no source" := by
  unfold graphSource at h
  split at h
  · cases h
  · cases h
  · exact (Except.error.inj h).symm

/-- A graph is rejected for a cycle exactly if it has one, and the error names a node on it. The
search, which is a recursion without a bound, comes to an end on every graph. -/
theorem rejected_iff_cyclic (graph : GraphDefinition F) :
    ((∃ node, compileGraphToSqlAndActions graph = .error (cycleError node)) ↔
        ∃ node, TransGen (Edge graph.topo.edges) node node) ∧
      (∀ node, compileGraphToSqlAndActions graph = .error (cycleError node) →
        TransGen (Edge graph.topo.edges) node node) ∧
      Explores graph.topo.edges (endpoints graph.topo.edges) ⟨[], []⟩
        (checkAcyclic graph.topo.edges) := by
  have hnames : ∀ node, compileGraphToSqlAndActions graph = .error (cycleError node) →
      TransGen (Edge graph.topo.edges) node node := by
    intro node h
    unfold compileGraphToSqlAndActions at h
    cases hcheck : checkAcyclic graph.topo.edges with
    | error err =>
      rw [hcheck] at h
      obtain ⟨node', rfl, hcycle⟩ := cyclic_of_error hcheck
      rwa [← cycleError_inj (Except.error.inj h)]
    | ok s =>
      rw [hcheck] at h
      cases hsource : graphSource graph with
      | error err =>
        rw [hsource] at h
        obtain rfl := graphSource_error hsource
        exact absurd (Except.error.inj h).symm (cycleError_ne node)
      | ok source =>
        rw [hsource] at h
        cases h
  refine ⟨⟨fun ⟨node, h⟩ => ⟨node, hnames node h⟩, fun ⟨node, hcycle⟩ => ?_⟩, hnames,
    explores_checkAcyclic⟩
  cases hcheck : checkAcyclic graph.topo.edges with
  | error err =>
    obtain ⟨node', rfl, -⟩ := cyclic_of_error hcheck
    refine ⟨node', ?_⟩
    unfold compileGraphToSqlAndActions
    rw [hcheck]
    rfl
  | ok s => exact absurd hcycle (acyclic_of_ok hcheck node)

end Rekuiper.Rules
