import Mathlib.Data.List.Chain
import Pgcpp.Transaction.Transam

/-!
# Deadlock detection

The search goes along the paths of the wait-for graph that start at one
transaction.  A transaction that was left without success is visited again on
another path.
-/

namespace Pgcpp.Transaction

open Relation

/-- `edges[xid]` has the transactions that `xid` waits for. -/
abbrev WaitGraph := TransactionId → List TransactionId

def addWaitEdge (graph : WaitGraph) (waiter holder : TransactionId) : WaitGraph :=
  if holder ∈ graph waiter then graph
  else Function.update graph waiter (graph waiter ++ [holder])

def removeWaitEdgesFor (graph : WaitGraph) (xid : TransactionId) : WaitGraph :=
  fun waiter => if waiter = xid then [] else (graph waiter).filter (· ≠ xid)

inductive WaitCall where
  | add (waiter holder : TransactionId)
  | remove (xid : TransactionId)

def WaitGraph.call (graph : WaitGraph) : WaitCall → WaitGraph
  | .add waiter holder => addWaitEdge graph waiter holder
  | .remove xid => removeWaitEdgesFor graph xid

instance : Fintype TransactionId := Fintype.ofEquiv _ BitVec.equivFin.symm.toEquiv

section

variable (graph : WaitGraph) (startXid : TransactionId)

/-- The loop of `DfsVisit` over the rest of the neighbors of the last node of
the path, which has the nodes that are marked as visited. -/
def dfsVisit (path : List TransactionId) : List TransactionId → Option (List TransactionId)
  | [] => none
  | neighbor :: rest =>
    if neighbor = startXid then some path
    else if neighbor ∈ path then dfsVisit path rest
    else
      match dfsVisit (path ++ [neighbor]) (graph neighbor) with
      | some cycle => some cycle
      | none => dfsVisit path rest
termination_by neighbors => ((Finset.univ.filter (· ∉ path)).card, neighbors.length)
decreasing_by
  · exact Prod.Lex.right _ (Nat.lt_succ_self _)
  · apply Prod.Lex.left
    apply Finset.card_lt_card
    rw [Finset.ssubset_iff_of_subset]
    · exact ⟨neighbor, by simpa, by simp⟩
    · intro node
      simp +contextual
  · exact Prod.Lex.right _ (Nat.lt_succ_self _)

def detectDeadlock : Bool := (dfsVisit graph startXid [startXid] (graph startXid)).isSome

def findDeadlockCycle : List TransactionId :=
  (dfsVisit graph startXid [startXid] (graph startXid)).getD []

def WaitGraph.Waits (waiter holder : TransactionId) : Prop := holder ∈ graph waiter

/-- Distinct transactions from the first one on, each of which waits for the
next; the last one is given. -/
structure IsPath (path : List TransactionId) (last : TransactionId) : Prop where
  head : path.head? = some startXid
  last : path.getLast? = some last
  distinct : path.Nodup
  waits : path.IsChain graph.Waits

/-- The start can be reached from the node by nodes off the path. -/
inductive Leads (path : List TransactionId) : TransactionId → Prop where
  | back : graph.Waits node startXid → Leads path node
  | step : graph.Waits node next → next ∉ path → Leads path next → Leads path node

end

variable {graph : WaitGraph} {startXid : TransactionId}

theorem dfsVisit_sound (isPath : IsPath graph startXid path last)
    (neighbors : ∀ next ∈ rest, graph.Waits last next)
    (found : dfsVisit graph startXid path rest = some cycle) :
    ∃ last, IsPath graph startXid cycle last ∧ graph.Waits last startXid := by
  fun_induction dfsVisit generalizing last with
  | case1 => contradiction
  | case2 path rest =>
    cases found
    exact ⟨last, isPath, neighbors startXid List.mem_cons_self⟩
  | case3 path neighbor rest _ _ ih =>
    exact ih isPath (fun next mem => neighbors next (List.mem_cons_of_mem _ mem)) found
  | case4 path neighbor rest _ off _ visited ih =>
    refine ih ?_ (fun _ mem => mem) (visited.trans found)
    obtain ⟨head, isLast, distinct, waits⟩ := isPath
    refine ⟨?_, List.getLast?_concat, ?_, ?_⟩
    · rw [List.head?_append, head]
      rfl
    · rw [← List.concat_eq_append]
      exact distinct.concat off
    · apply waits.append (.singleton neighbor)
      rintro _ isEnd _ ⟨⟩
      obtain rfl := Option.some.inj (isLast.symm.trans isEnd)
      exact neighbors neighbor List.mem_cons_self
  | case5 path neighbor rest _ off visited _ ih =>
    exact ih isPath (fun next mem => neighbors next (List.mem_cons_of_mem _ mem)) found

theorem Leads.restrict (leads : Leads graph startXid path node) :
    Leads graph startXid (path ++ [other]) node ∨ Leads graph startXid (path ++ [other]) other := by
  induction leads with
  | back waits => exact .inl (.back waits)
  | @step node next waits off _ ih =>
    rcases ih with leads | leads
    · by_cases same : next = other
      · exact .inr (same ▸ leads)
      · exact .inl (.step waits (by simp [off, same]) leads)
    · exact .inr leads

theorem dfsVisit_complete (missed : dfsVisit graph startXid path rest = none) :
    ∀ next ∈ rest, next ≠ startXid ∧ (next ∉ path → ¬Leads graph startXid path next) := by
  fun_induction dfsVisit with
  | case1 => simp
  | case2 => contradiction
  | case3 path neighbor rest notStart visited ih =>
    exact List.forall_mem_cons.2 ⟨⟨notStart, fun off => absurd visited off⟩, ih missed⟩
  | case4 => contradiction
  | case5 path neighbor rest notStart off visited inNeighbor ih =>
    intro next mem
    rcases List.mem_cons.1 mem with rfl | later
    · refine ⟨notStart, fun _ leads => ?_⟩
      have below := inNeighbor visited
      cases leads.restrict.elim id id with
      | back waits => exact (below startXid waits).1 rfl
      | step waits away leads => exact (below _ waits).2 away leads
    · exact ih missed next later

theorem leads_of_transGen (cycle : TransGen graph.Waits node startXid) :
    Leads graph startXid [] node := by
  induction cycle using TransGen.head_induction_on with
  | single waits => exact .back waits
  | head waits _ ih => exact .step waits List.not_mem_nil ih

theorem transGen_of_isPath (isPath : IsPath graph startXid path last)
    (waits : graph.Waits last startXid) : TransGen graph.Waits startXid startXid := by
  have nonempty : path ≠ [] := List.ne_nil_of_mem (List.mem_of_mem_head? isPath.head)
  have reaches := List.relationReflTransGen_of_exists_isChain path isPath.waits nonempty
  have atHead := (List.head?_eq_some_head nonempty).symm.trans isPath.head
  have atLast := (List.getLast?_eq_some_getLast nonempty).symm.trans isPath.last
  rw [Option.some.inj atHead, Option.some.inj atLast] at reaches
  exact .tail' reaches waits

/-- The graph after calls, from the empty one on. -/
def waitGraphOf (calls : List WaitCall) : WaitGraph := calls.foldl WaitGraph.call fun _ => []

theorem deadlock_exact (calls : List WaitCall) (xid : TransactionId) :
    let graph := waitGraphOf calls
    (detectDeadlock graph xid ↔ TransGen graph.Waits xid xid) ∧
      (detectDeadlock graph xid → ∃ last,
        IsPath graph xid (findDeadlockCycle graph xid) last ∧ graph.Waits last xid) := by
  intro graph
  have sound (found : detectDeadlock graph xid) : ∃ last,
      IsPath graph xid (findDeadlockCycle graph xid) last ∧ graph.Waits last xid := by
    obtain ⟨cycle, visited⟩ := Option.isSome_iff_exists.1 found
    rw [findDeadlockCycle, visited]
    have start : IsPath graph xid [xid] xid :=
      ⟨rfl, rfl, List.nodup_singleton xid, List.isChain_singleton xid⟩
    exact dfsVisit_sound start (fun _ mem => mem) visited
  refine ⟨⟨?_, ?_⟩, sound⟩
  · intro found
    obtain ⟨last, isPath, waits⟩ := sound found
    exact transGen_of_isPath isPath waits
  · intro cycle
    by_contra missed
    have below := dfsVisit_complete (Option.not_isSome_iff_eq_none.1 missed)
    cases ((leads_of_transGen cycle).restrict).elim id id with
    | back waits => exact (below xid waits).1 rfl
    | step waits away leads => exact (below _ waits).2 away leads

end Pgcpp.Transaction
