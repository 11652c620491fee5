import Audible.Chains
import Audible.PrinterJobs
import Mathlib.Data.List.Nodup

set_option autoImplicit false

/- The job list as `jobs.c` has it: nodes that are linked, from which others are removed while a
loop goes through them. -/
namespace Audible.Imprimer

open Chains

/-- The nodes by their addresses, each with what it reads of its `JOB`. -/
structure JobNodes where
  next : Nat → Option Nat
  jobid : Nat → Int
  job : Nat → Job

namespace JobNodes

/-- `&job_head` -/
def jobHead : Nat := 0

/-- The loop of `addJob` to the last node. A loop that has no rounds left does not end. -/
def lastFrom (nodes : JobNodes) : Nat → Nat → Option Nat
  | 0, _ => none
  | rounds + 1, current =>
      match nodes.next current with
      | none => some current
      | some following => nodes.lastFrom rounds following

/-- `node` is what `newJobNode` takes from `malloc`. -/
def addJob (nodes : JobNodes) (rounds node : Nat) (jobid : Int) (job : Job) : Option JobNodes := do
  let current ← nodes.lastFrom rounds jobHead
  return {
    next := Function.update (Function.update nodes.next node none) current (some node)
    jobid := Function.update nodes.jobid node jobid
    job := Function.update nodes.job node job }

/-- The loop of `removeJob` from a node on: the node that was removed, if any. -/
def removeJobFrom (nodes : JobNodes) (jobid : Int) : Nat → Nat → Option (Option Nat × JobNodes)
  | 0, _ => none
  | rounds + 1, current =>
      match nodes.next current with
      | none => some (none, nodes)
      | some following =>
          if nodes.jobid following = jobid then
            some (some following,
              { nodes with next := Function.update nodes.next current (nodes.next following) })
          else nodes.removeJobFrom jobid rounds following

def removeJob (nodes : JobNodes) (rounds : Nat) (jobid : Int) : Option (Option Nat × JobNodes) :=
  nodes.removeJobFrom jobid rounds jobHead

/-- The loop of `removeJobs` from a node on, at which `clock` is what `gettimeofday` shows. A node
that has been removed keeps its `next`, which the loop goes on with. -/
def removeJobsFrom (clock : Nat → World) (search : Nat) : Nat → Option Nat → JobNodes → Option JobNodes
  | _, none, nodes => some nodes
  | 0, some _, _ => none
  | rounds + 1, some current, nodes => do
      let nodes ← if expired (clock current) (nodes.job current) then
          Prod.snd <$> nodes.removeJob search (nodes.jobid current)
        else some nodes
      removeJobsFrom clock search rounds (nodes.next current) nodes

def removeJobs (clock : Nat → World) (rounds : Nat) (nodes : JobNodes) : Option JobNodes :=
  removeJobsFrom clock rounds rounds (nodes.next jobHead) nodes

def Lists (nodes : JobNodes) (xs : List Nat) : Prop := Leads nodes.next (nodes.next jobHead) xs

variable {nodes : JobNodes} {clock : Nat → World} {xs front back kept rest : List Nat}
variable {a x node rounds : Nat} {p : Option Nat}

theorem lastFrom_leads (leads : Leads nodes.next (nodes.next a) xs) (enough : xs.length < rounds) :
    nodes.lastFrom rounds a = some (xs.getLastD a) := by
  induction xs generalizing a rounds with
  | nil =>
      obtain ⟨rounds, rfl⟩ := Nat.exists_eq_add_one_of_ne_zero (Nat.ne_zero_of_lt enough)
      rw [lastFrom, leads_nil.mp leads]
      rfl
  | cons x xs ih =>
      obtain ⟨rounds, rfl⟩ := Nat.exists_eq_add_one_of_ne_zero (Nat.ne_zero_of_lt enough)
      obtain ⟨first, later⟩ := leads
      rw [lastFrom, first, List.getLastD_cons]
      exact ih later (Nat.lt_of_succ_lt_succ enough)

/-- A new job comes last. -/
theorem addJob_lists (lists : nodes.Lists xs) (new : node ∉ jobHead :: xs) (jobid : Int)
    (job : Job) :
    ∃ nodes', (∀ rounds, xs.length < rounds → nodes.addJob rounds node jobid job = some nodes') ∧
      nodes'.Lists (xs ++ [node]) ∧ nodes'.jobid = Function.update nodes.jobid node jobid ∧
      nodes'.job = Function.update nodes.job node job := by
  refine ⟨{ next := _, jobid := _, job := _ }, fun rounds enough => ?_, Leads.link lists new, rfl,
    rfl⟩
  rw [addJob, lastFrom_leads lists enough]
  rfl

/-- The first node with the id of a node is taken off. -/
theorem removeJobFrom_leads (leads : Leads nodes.next (nodes.next a) (front ++ x :: back))
    (others : ∀ y ∈ front, nodes.jobid y ≠ nodes.jobid x) (enough : front.length < rounds) :
    nodes.removeJobFrom (nodes.jobid x) rounds a = some (some x,
      { nodes with next := Function.update nodes.next (front.getLastD a) (nodes.next x) }) := by
  induction front generalizing a rounds with
  | nil =>
      obtain ⟨rounds, rfl⟩ := Nat.exists_eq_add_one_of_ne_zero (Nat.ne_zero_of_lt enough)
      rw [removeJobFrom, leads.1]
      exact if_pos rfl
  | cons b front ih =>
      obtain ⟨rounds, rfl⟩ := Nat.exists_eq_add_one_of_ne_zero (Nat.ne_zero_of_lt enough)
      obtain ⟨first, later⟩ := leads
      rw [removeJobFrom, first, List.getLastD_cons]
      refine (if_neg (others b List.mem_cons_self)).trans ?_
      exact ih later (fun y member => others y (List.mem_cons_of_mem _ member))
        (Nat.lt_of_succ_lt_succ enough)

/-- The node is gone, and still leads to what followed it. -/
theorem removeJob_lists (lists : nodes.Lists (front ++ x :: back))
    (distinct : ((front ++ x :: back).map nodes.jobid).Nodup) :
    ∃ next, (∀ rounds, front.length < rounds →
        nodes.removeJob rounds (nodes.jobid x) = some (some x, { nodes with next := next })) ∧
      { nodes with next := next }.Lists (front ++ back) ∧ Leads next (next x) back := by
  have others : ∀ y ∈ front, nodes.jobid y ≠ nodes.jobid x := by
    intro y member same
    rw [List.map_append, List.map_cons, List.nodup_append] at distinct
    exact distinct.2.2 _ (List.mem_map_of_mem member) _ List.mem_cons_self same
  exact ⟨_, fun rounds enough => removeJobFrom_leads lists others enough, lists.unlink, lists.unlinked⟩

/-- From a node on: what the loop has kept stands before the rest of the list. -/
theorem removeJobsFrom_lists (lists : nodes.Lists (kept ++ rest)) (leads : Leads nodes.next p rest)
    (distinct : ((kept ++ rest).map nodes.jobid).Nodup) :
    ∃ next, (∀ search rounds, (kept ++ rest).length < search → rest.length < rounds →
        removeJobsFrom clock search rounds p nodes = some { nodes with next := next }) ∧
      { nodes with next := next }.Lists
        (kept ++ rest.filter fun x => !expired (clock x) (nodes.job x)) := by
  induction rest generalizing nodes kept p with
  | nil =>
      refine ⟨nodes.next, fun search rounds _ _ => ?_, lists⟩
      rw [leads_nil.mp leads, removeJobsFrom]
  | cons x rest ih =>
      obtain ⟨rfl, later⟩ := leads
      by_cases old : expired (clock x) (nodes.job x) = true
      · obtain ⟨next, removes, lists', leads'⟩ := removeJob_lists lists distinct
        have fewer : (kept ++ rest).Sublist (kept ++ x :: rest) :=
          (List.Sublist.refl kept).append (List.sublist_cons_self x rest)
        obtain ⟨next', runs, final⟩ := ih lists' leads' (distinct.sublist (fewer.map _))
        refine ⟨next', fun search rounds enough more => ?_, ?_⟩
        · obtain ⟨rounds, rfl⟩ := Nat.exists_eq_add_one_of_ne_zero (Nat.ne_zero_of_lt more)
          rw [List.length_append, List.length_cons] at enough
          rw [List.length_cons] at more
          rw [removeJobsFrom, if_pos old, removes search (by omega)]
          exact runs search rounds (by rw [List.length_append]; omega) (by omega)
        · rw [List.filter_cons_of_neg (by simp [old])]
          exact final
      · rw [List.append_cons] at lists distinct
        obtain ⟨next', runs, final⟩ := ih lists later distinct
        refine ⟨next', fun search rounds enough more => ?_, ?_⟩
        · obtain ⟨rounds, rfl⟩ := Nat.exists_eq_add_one_of_ne_zero (Nat.ne_zero_of_lt more)
          rw [List.length_cons] at more
          rw [removeJobsFrom, if_neg old]
          exact runs search rounds (by rwa [List.append_assoc]) (by omega)
        · rw [List.filter_cons_of_pos (by simp [old]), List.append_cons]
          exact final

/-- `removeJobs` ends, and leaves the jobs that have not expired, in their order. -/
theorem removeJobs_exact (lists : nodes.Lists xs) (distinct : (xs.map nodes.jobid).Nodup) :
    ∃ nodes', (∀ rounds, xs.length < rounds → nodes.removeJobs clock rounds = some nodes') ∧
      nodes'.Lists (xs.filter fun x => !expired (clock x) (nodes.job x)) ∧
      nodes'.jobid = nodes.jobid ∧ nodes'.job = nodes.job := by
  obtain ⟨next, runs, final⟩ := @removeJobsFrom_lists nodes clock [] xs _ lists lists distinct
  exact ⟨_, fun rounds enough => runs rounds rounds enough enough, final, rfl, rfl⟩

/-- Jobs 1 to 6, of which the first, the last and two neighbours have expired at time 100. -/
def sixNodes : JobNodes where
  next := fun x => if x < 6 then some (x + 1) else none
  jobid := fun x => x
  job := fun x => { (default : Job) with
    status := if x = 2 then .running else if x = 4 then .aborted else .completed
    changeTime := if x = 5 then 41 else 40 }

theorem removeJobs_exact_six :
    ∃ nodes', (∀ rounds, 6 < rounds →
        sixNodes.removeJobs (fun _ => { quietWorld with now := 100 }) rounds = some nodes') ∧
      nodes'.Lists [2, 5] ∧ nodes'.jobid = sixNodes.jobid ∧ nodes'.job = sixNodes.job := by
  have lists : sixNodes.Lists [1, 2, 3, 4, 5, 6] := by
    simp [Lists, sixNodes, jobHead]
  obtain ⟨nodes', runs, final, ids, jobs⟩ :=
    @removeJobs_exact sixNodes (fun _ => { quietWorld with now := 100 }) _ lists (by decide)
  exact ⟨nodes', runs, final, ids, jobs⟩

end JobNodes

variable {world : World} {s : Spooler} {nodes : JobNodes} {jobid node rounds : Nat} {job : Job}

/-- Without ids that are there twice, the jobs that have not expired are left. -/
theorem removeJobs_filter (once : s.nodes.Nodup) :
    removeJobs world s =
      { s with nodes := s.nodes.filter fun jobid => !expired world (s.job jobid) } := by
  have loop : ∀ (nodes left : List Nat), left.Nodup →
      nodes.foldl (fun s' jobid => if expired world (s.job jobid) then removeJob jobid s' else s')
          { s with nodes := left } =
        { s with nodes := left.filter fun jobid =>
          !(nodes.contains jobid && expired world (s.job jobid)) } := by
    intro nodes
    induction nodes with
    | nil =>
        intro left _
        simp
    | cons jobid nodes ih =>
        intro left once
        rw [List.foldl_cons]
        split
        · rename_i old
          rw [removeJob, ih _ (once.erase jobid), once.erase_eq_filter]
          simp only [List.filter_filter]
          congr 1
          apply List.filter_congr
          intro other _
          by_cases same : other = jobid
          · simp [same, old]
          · simp [same]
        · rename_i recent
          rw [ih left once]
          congr 1
          apply List.filter_congr
          intro other _
          by_cases same : other = jobid
          · simp [same, recent]
          · simp [same]
  rw [removeJobs, loop s.nodes s.nodes once]
  congr 1
  apply List.filter_congr
  intro jobid member
  simp [member]

/-- The nodes are those of the spooler's jobs. -/
def JobNodes.Shows (nodes : JobNodes) (s : Spooler) : Prop :=
  ∃ xs, nodes.Lists xs ∧
    xs.map (fun x => (nodes.jobid x, nodes.job x)) =
      s.nodes.map fun (jobid : Nat) => ((jobid : Int), s.job jobid)

/-- On nodes that show a spooler, `addJob` with a new node adds the next id. -/
theorem JobNodes.Shows.addJob (shows : nodes.Shows s) (used : ∀ jobid ∈ s.nodes, jobid < s.jobCount)
    (new : ∀ xs, nodes.Lists xs → node ∉ jobHead :: xs) :
    ∃ nodes' : JobNodes, (∀ rounds, s.nodes.length < rounds →
        nodes.addJob rounds node s.jobCount job = some nodes') ∧
      nodes'.Shows (Imprimer.addJob job s) := by
  obtain ⟨xs, lists, same⟩ := shows
  have length : xs.length = s.nodes.length := by
    simpa using congrArg List.length same
  obtain ⟨nodes', adds, final, jobids, jobs⟩ :=
    addJob_lists lists (new xs lists) s.jobCount job
  refine ⟨nodes', fun rounds enough => adds rounds (by omega), _, final, ?_⟩
  have others : ∀ x ∈ xs, x ≠ node := by
    rintro x member rfl
    exact new xs lists (List.mem_cons_of_mem _ member)
  have kept : xs.map (fun x => (nodes'.jobid x, nodes'.job x)) =
      xs.map fun x => (nodes.jobid x, nodes.job x) := by
    apply List.map_congr_left
    intro x member
    rw [jobids, jobs, Function.update_of_ne (others x member), Function.update_of_ne (others x member)]
  have old : s.nodes.map (fun (jobid : Nat) => ((jobid : Int), (Imprimer.addJob job s).job jobid)) =
      s.nodes.map fun (jobid : Nat) => ((jobid : Int), s.job jobid) := by
    apply List.map_congr_left
    intro jobid member
    have less := used jobid member
    simp [Imprimer.addJob, Function.update_of_ne (Nat.ne_of_lt less)]
  have all : (Imprimer.addJob job s).nodes = s.nodes ++ [s.jobCount] := rfl
  rw [all, List.map_append, List.map_append, kept, same, old, List.map_singleton,
    List.map_singleton, jobids, jobs, Function.update_self, Function.update_self]
  simp [Imprimer.addJob]

/-- On nodes that show a spooler, `removeJobs` does what it does to the list of ids. -/
theorem JobNodes.Shows.removeJobs (shows : nodes.Shows s) (once : s.nodes.Nodup) :
    ∃ nodes' : JobNodes, (∀ rounds, s.nodes.length < rounds →
        nodes.removeJobs (fun _ => world) rounds = some nodes') ∧
      nodes'.Shows (Imprimer.removeJobs world s) := by
  obtain ⟨xs, lists, same⟩ := shows
  have ids : xs.map nodes.jobid = s.nodes.map fun (jobid : Nat) => (jobid : Int) := by
    have firsts := congrArg (List.map Prod.fst) same
    simpa [List.map_map, Function.comp_def] using firsts
  have distinct : (xs.map nodes.jobid).Nodup := by
    rw [ids]
    exact List.Nodup.map (fun _ _ same => Int.ofNat.inj same) once
  have length : xs.length = s.nodes.length := by
    simpa using congrArg List.length ids
  obtain ⟨next, runs, final⟩ :=
    @JobNodes.removeJobsFrom_lists nodes (fun _ => world) [] xs _ lists lists distinct
  have total : ([] ++ xs).length = s.nodes.length := length
  refine ⟨_, fun rounds enough => runs rounds rounds (by omega) (by omega), _, final, ?_⟩
  have filtered := congrArg (List.filter fun entry : Int × Job => !expired world entry.2) same
  rw [removeJobs_filter once]
  simpa [List.filter_map, Function.comp_def] using filtered

end Audible.Imprimer
