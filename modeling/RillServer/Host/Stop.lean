import RillServer.Lib.Machine
import Mathlib.Logic.Function.Basic

/-!
# Stopping the cluster

`mod/host/stop.lua`. `stop` sends `host_stop` for the first kind of service in `stop_order` to all
nodes, and a timer then asks the nodes again and again how many services are left. When the sum is 0
it goes on to the next kind, and after the last one it aborts the nodes.

The timer calls `host_query` without the name. A service counts if what the pattern finds in its
launch line is `nil` as well, so the sum is that of the services without a name, whatever the stage
is, and usually 0. A stage is passed in order only if something without a name holds the timer up as
long as services of the stage are left (`ordered_iff`).

Services exit and are launched at any time, and any call may fail. The nodes answer with the launch
lines that their launcher has when it is asked.
-/

namespace RillServer.HostStop

abbrev Node := String

/-- `stop_order`. -/
def stopOrder : List String := ["gataway", "login", "center", "game", "global", "dbproxy"]

/-- `stop_order[idx]`; Lua counts from 1. -/
def stageName : Nat → Option String
  | 0 => none
  | i + 1 => stopOrder[i]?

/-- The first capture of `snlua (%w+) *.*`: the pattern is not anchored, and what follows the name
always matches. -/
def capture : List Char → Option (List Char)
  | [] => none
  | c :: cs =>
      let name := ((c :: cs).drop 6).takeWhile Char.isAlphanum
      if "snlua ".toList.isPrefixOf (c :: cs) ∧ name ≠ [] then some name else capture cs

/-- `string.match(v, "snlua (%w+) *.*")`. -/
def serviceName (v : String) : Option String := (capture v.toList).map String.ofList

/-- `dispatch.host_query`, with the launch lines of the node. -/
def hostQuery (name : Option String) (services : List String) : Nat :=
  services.countP fun v => serviceName v = name

/-- The launch lines from which a node has answered. -/
structure Reply where
  node : Node
  services : List String
  deriving DecidableEq

/-- What the nodes answered in one round of the timer. -/
structure Report where
  stage : Nat
  replies : List Reply
  deriving DecidableEq

/-- What the stopping host has done. A round is not a command; it is kept for what was known when
the commands were sent. -/
inductive Entry where
  | round (report : Report)
  | hostStop (stage : Nat) (name : Option String) (nodes : List Node)
  /-- `host_abort` on the other nodes, and then here -/
  | hostAbort (nodes : List Node)
  deriving DecidableEq

inductive Phase where
  | idle
  /-- `skynet.timeout(10, timer)` is pending -/
  | waiting
  /-- the timer waits for the first node of `rest` -/
  | asking (rest : List Node) (count : Nat) (replies : List Reply)
  /-- the timer has raised -/
  | dead
  | aborted
  deriving DecidableEq

/-- The host that runs `stop`, the launch lines on all nodes, and what was done, the latest first. -/
structure Cluster where
  /-- the keys of `runconf.cluster`, in the order of `pairs` -/
  nodes : List Node
  nodename : Node
  services : Node → List String
  stopIdx : Nat
  phase : Phase
  log : List Entry

def Cluster.init (nodes : List Node) (nodename : Node) (services : Node → List String) :
    Cluster where
  nodes := nodes
  nodename := nodename
  services := services
  stopIdx := 1
  phase := .idle
  log := []

/-- `send_clusters(false, "stop.host_stop", stop_order[stop_idx])`. Nothing is left out: the function
reads a global `ignore` that does not exist. -/
def Cluster.sendStop (s : Cluster) : Cluster :=
  { s with log := .hostStop s.stopIdx (stageName s.stopIdx) s.nodes :: s.log }

/-- The end of `timer`, when all nodes were asked. -/
def Cluster.endRound (s : Cluster) (count : Nat) (replies : List Reply) : Cluster :=
  let s := { s with phase := .waiting, log := .round ⟨s.stopIdx, replies⟩ :: s.log }
  if count = 0 then
    let s := { s with stopIdx := s.stopIdx + 1 }
    if s.stopIdx > stopOrder.length then
      { s with
        phase := .aborted
        log := .hostAbort (s.nodes.filter (· ≠ s.nodename)) :: s.log }.sendStop
    else s.sendStop
  else s

/-- The loop of `timer`. -/
def Cluster.ask (s : Cluster) (rest : List Node) (count : Nat) (replies : List Reply) : Cluster :=
  match rest with
  | [] => s.endRound count replies
  | node :: rest => { s with phase := .asking (node :: rest) count replies }

inductive Event where
  /-- services of the node exit or are launched -/
  | change (node : Node) (services : List String)
  | stop
  | timeOut
  /-- the node that was asked counts -/
  | answered
  /-- its call fails, and `pcall` returns false -/
  | failed
  /-- its handler has failed, and the call returns nothing -/
  | nothing
  deriving DecidableEq

def step (s : Cluster) : Event → Option Cluster
  | .change node services =>
      some { s with services := Function.update s.services node services }
  | .stop =>
      match s.phase with
      | .idle => some { s with stopIdx := 1, phase := .waiting }.sendStop
      | _ => none
  | .timeOut =>
      match s.phase with
      | .waiting => some (s.ask s.nodes 0 [])
      | _ => none
  | .answered =>
      match s.phase with
      | .asking (node :: rest) count replies =>
          -- the call has no name
          some (s.ask rest (count + hostQuery none (s.services node))
            (replies ++ [⟨node, s.services node⟩]))
      | _ => none
  | .failed =>
      match s.phase with
      | .asking (_ :: rest) count replies => some (s.ask rest count replies)
      | _ => none
  | .nothing =>
      match s.phase with
      | .asking (_ :: _) _ _ => some { s with phase := .dead }
      | _ => none

/-! ## The order of the stages -/

/-- No service of the stage is left on the nodes that answered. -/
def Report.Empty (r : Report) : Prop :=
  ∀ reply ∈ r.replies, hostQuery (stageName r.stage) reply.services = 0

instance (r : Report) : Decidable r.Empty := List.decidableBAll _ _

/-- The latest report. -/
def lastReport : List Entry → Option Report
  | [] => none
  | .round r :: _ => some r
  | _ :: earlier => lastReport earlier

/-- What should be known before a command is sent. -/
def Justified (earlier : List Entry) : Entry → Prop
  | .round _ => True
  | .hostStop stage _ _ =>
      stage = 1 ∨ ∃ r, lastReport earlier = some r ∧ r.stage + 1 = stage ∧ r.Empty
  | .hostAbort _ =>
      ∀ i, 1 ≤ i → i ≤ stopOrder.length → ∃ r, .round r ∈ earlier ∧ r.stage = i ∧ r.Empty

/-- Every command was sent when it should be. -/
def Ordered : List Entry → Prop
  | [] => True
  | e :: earlier => Justified earlier e ∧ Ordered earlier

/-- What a cluster can have come to, whatever its nodes and services are in the beginning. -/
abbrev History (guard : Cluster → Event → Prop) (start : Cluster) :=
  { s : Cluster // Machine.Reach step guard start s }

/-- The replies of the round that the event ends. -/
def closing (s : Cluster) : Event → Option (List Reply)
  | .timeOut =>
      match s.phase, s.nodes with
      | .waiting, [] => some []
      | _, _ => none
  | .answered =>
      match s.phase with
      | .asking [node] _ replies => some (replies ++ [⟨node, s.services node⟩])
      | _ => none
  | .failed =>
      match s.phase with
      | .asking [_] _ replies => some replies
      | _ => none
  | _ => none

/-- A round in which no node has a service without a name ends only when none has a service of the
stage. -/
def Counted (s : Cluster) (e : Event) : Prop :=
  ∀ replies, closing s e = some replies →
    (∀ reply ∈ replies, hostQuery none reply.services = 0) → Report.Empty ⟨s.stopIdx, replies⟩

/-! ## What an event does -/

/-- The replies sum up to 0. -/
def Unnamed (replies : List Reply) : Prop :=
  ∀ reply ∈ replies, hostQuery none reply.services = 0

/-- The counter of the timer is that of the replies so far. -/
def Tally (s : Cluster) : Prop :=
  ∀ rest count replies, s.phase = .asking rest count replies → (count = 0 ↔ Unnamed replies)

/-- A round is over and its replies are known. -/
def Cluster.reported (s : Cluster) (replies : List Reply) : Cluster :=
  { s with phase := .waiting, log := .round ⟨s.stopIdx, replies⟩ :: s.log }

/-- An event leaves the log as it is, begins with the first stage, or ends a round: the stage is not
over, it is passed, or it was the last one. -/
inductive Does (s : Cluster) (e : Event) : Cluster → Prop
  | quiet {s' : Cluster} : closing s e = none → s'.log = s.log → s'.stopIdx = s.stopIdx →
    Tally s' → Does s e s'
  | begins : closing s e = none → Does s e { s with stopIdx := 1, phase := .waiting }.sendStop
  | stays {replies : List Reply} : closing s e = some replies → ¬ Unnamed replies →
    Does s e (s.reported replies)
  | passes {replies : List Reply} : closing s e = some replies → Unnamed replies →
    Does s e { s.reported replies with stopIdx := s.stopIdx + 1 }.sendStop
  | aborts {replies : List Reply} : closing s e = some replies → Unnamed replies →
    stopOrder.length ≤ s.stopIdx →
    Does s e { s with
      stopIdx := s.stopIdx + 1
      phase := .aborted
      log := .hostAbort (s.nodes.filter (· ≠ s.nodename)) :: (s.reported replies).log }.sendStop

variable {s s' : Cluster} {e : Event}

theorem unnamed_append {replies : List Reply} {count : Nat} (reply : Reply)
    (tally : count = 0 ↔ Unnamed replies) :
    count + hostQuery none reply.services = 0 ↔ Unnamed (replies ++ [reply]) := by
  rw [Nat.add_eq_zero_iff, tally]
  constructor
  · rintro ⟨before, here⟩ x member
    rcases List.mem_append.mp member with old | new
    · exact before x old
    · rw [List.mem_singleton.mp new]
      exact here
  · intro all
    refine ⟨fun x member => all x (List.mem_append_left _ member), ?_⟩
    exact all reply (List.mem_append_right _ (List.mem_singleton.mpr rfl))

theorem does_endRound {count : Nat} {replies : List Reply}
    (tally : count = 0 ↔ Unnamed replies) (closes : closing s e = some replies) :
    Does s e (s.endRound count replies) := by
  by_cases zero : count = 0
  · by_cases last : s.stopIdx + 1 > stopOrder.length
    · simp only [Cluster.endRound, if_pos zero, if_pos last]
      exact .aborts closes (tally.mp zero) (Nat.le_of_lt_succ last)
    · simp only [Cluster.endRound, if_pos zero, if_neg last]
      exact .passes closes (tally.mp zero)
  · simp only [Cluster.endRound, if_neg zero]
    exact .stays closes fun unnamed => zero (tally.mpr unnamed)

/-- The timer goes on to the next node, or the round is at its end. -/
theorem does_ask {rest : List Node} {count : Nat} {replies : List Reply}
    (tally : count = 0 ↔ Unnamed replies)
    (closes : closing s e = if rest = [] then some replies else none) :
    Does s e (s.ask rest count replies) := by
  cases rest with
  | nil => exact does_endRound tally closes
  | cons node rest =>
      refine .quiet closes rfl rfl ?_
      intro rest' count' replies' phase
      cases phase
      exact tally

theorem step_does (tally : Tally s) (stepped : step s e = some s') : Does s e s' := by
  cases e with
  | change node services =>
      obtain rfl := Option.some.inj stepped
      exact .quiet rfl rfl rfl tally
  | stop =>
      simp only [step] at stepped
      split at stepped
      · obtain rfl := Option.some.inj stepped
        exact .begins rfl
      · cases stepped
  | timeOut =>
      simp only [step] at stepped
      split at stepped
      · rename_i waits
        obtain rfl := Option.some.inj stepped
        refine does_ask ⟨fun _ => nofun, fun _ => rfl⟩ ?_
        cases nodes : s.nodes <;> simp [closing, waits, nodes]
      · cases stepped
  | answered =>
      simp only [step] at stepped
      split at stepped
      · rename_i node rest count replies asks
        obtain rfl := Option.some.inj stepped
        refine does_ask (unnamed_append ⟨node, s.services node⟩ (tally _ _ _ asks)) ?_
        cases rest <;> simp [closing, asks]
      · cases stepped
  | failed =>
      simp only [step] at stepped
      split at stepped
      · rename_i node rest count replies asks
        obtain rfl := Option.some.inj stepped
        apply does_ask (tally _ _ _ asks)
        cases rest <;> simp [closing, asks]
      · cases stepped
  | nothing =>
      simp only [step] at stepped
      split at stepped
      · obtain rfl := Option.some.inj stepped
        exact .quiet rfl rfl rfl nofun
      · cases stepped

theorem Does.tally (does : Does s e s') : Tally s' := by
  cases does with
  | quiet _ _ _ tally => exact tally
  | begins _ => exact nofun
  | stays _ _ => exact nofun
  | passes _ _ => exact nofun
  | aborts _ _ _ => exact nofun

/-! ## Passing the stages in order -/

/-- The stages before the present one were reported empty. -/
structure Sound (s : Cluster) : Prop where
  tally : Tally s
  begun : 1 ≤ s.stopIdx
  passed : ∀ i, 1 ≤ i → i < s.stopIdx → ∃ r, .round r ∈ s.log ∧ r.stage = i ∧ r.Empty
  ordered : Ordered s.log

theorem sound_init (nodes : List Node) (nodename : Node) (services : Node → List String) :
    Sound (.init nodes nodename services) where
  tally := nofun
  begun := Nat.le_refl 1
  passed i low high := by
    change i < 1 at high
    omega
  ordered := trivial

/-- The round that passes a stage reports it empty. -/
theorem passed_succ {log log' : List Entry} {stage : Nat} {replies : List Reply}
    (passed : ∀ i, 1 ≤ i → i < stage → ∃ r, .round r ∈ log ∧ r.stage = i ∧ r.Empty)
    (empty : Report.Empty ⟨stage, replies⟩)
    (logged : ∀ e ∈ .round ⟨stage, replies⟩ :: log, e ∈ log') :
    ∀ i, 1 ≤ i → i < stage + 1 → ∃ r, .round r ∈ log' ∧ r.stage = i ∧ r.Empty := by
  intro i low high
  rcases Nat.lt_succ_iff_lt_or_eq.mp high with before | rfl
  · obtain ⟨r, member, same, none⟩ := passed i low before
    exact ⟨r, logged _ (List.mem_cons_of_mem _ member), same, none⟩
  · exact ⟨_, logged _ List.mem_cons_self, rfl, empty⟩

theorem Does.sound (does : Does s e s') (sound : Sound s) (counted : Counted s e) : Sound s' := by
  have tally := does.tally
  obtain ⟨-, begun, passed, ordered⟩ := sound
  cases does with
  | quiet _ log idx _ =>
      refine ⟨tally, ?_, ?_, ?_⟩
      · rw [idx]
        exact begun
      · rw [idx, log]
        exact passed
      · rw [log]
        exact ordered
  | begins _ =>
      refine ⟨tally, Nat.le_refl 1, ?_, .inl rfl, ordered⟩
      intro i low high
      change i < 1 at high
      omega
  | stays _ _ =>
      refine ⟨tally, begun, ?_, trivial, ordered⟩
      intro i low high
      obtain ⟨r, member, same, none⟩ := passed i low high
      exact ⟨r, List.mem_cons_of_mem _ member, same, none⟩
  | passes closes unnamed =>
      have empty := counted _ closes unnamed
      refine ⟨tally, Nat.succ_pos _, ?_, .inr ⟨_, rfl, rfl, empty⟩, trivial, ordered⟩
      apply passed_succ passed empty
      exact fun e member => List.mem_cons_of_mem _ member
  | aborts closes unnamed last =>
      have empty := counted _ closes unnamed
      refine ⟨tally, Nat.succ_pos _, ?_, .inr ⟨_, rfl, rfl, empty⟩, ?_, trivial, ordered⟩
      · apply passed_succ passed empty
        exact fun e member => List.mem_cons_of_mem _ (List.mem_cons_of_mem _ member)
      · intro i low high
        apply passed_succ passed empty (fun e member => member) i low
        exact Nat.lt_succ_of_le (Nat.le_trans high last)

/-- What a `host_stop` says about the stage before. -/
theorem empty_of_justified {earlier : List Entry} {stage : Nat} {replies : List Reply}
    {name : Option String} {nodes : List Node} (begun : 1 ≤ stage)
    (latest : lastReport earlier = some ⟨stage, replies⟩)
    (justified : Justified earlier (.hostStop (stage + 1) name nodes)) :
    Report.Empty ⟨stage, replies⟩ := by
  rcases justified with first | ⟨r, found, -, empty⟩
  · omega
  · rw [latest] at found
    cases found
    exact empty

/-- A stage that was passed out of order shows in the log. -/
theorem Does.counted (does : Does s e s') (begun : 1 ≤ s.stopIdx) (ordered : Ordered s'.log) :
    Ordered s.log ∧ Counted s e := by
  have vacuous : closing s e = none → Counted s e := by
    intro none replies closes
    rw [none] at closes
    cases closes
  have only : ∀ {replies}, closing s e = some replies →
      (Unnamed replies → Report.Empty ⟨s.stopIdx, replies⟩) → Counted s e := by
    intro replies closes empty replies' closes'
    rw [closes] at closes'
    cases closes'
    exact empty
  cases does with
  | quiet none log _ _ =>
      rw [log] at ordered
      exact ⟨ordered, vacuous none⟩
  | begins none => exact ⟨ordered.2, vacuous none⟩
  | stays closes named =>
      refine ⟨ordered.2, only closes ?_⟩
      intro unnamed
      exact (named unnamed).elim
  | passes closes _ =>
      refine ⟨ordered.2.2, only closes ?_⟩
      intro _
      exact empty_of_justified begun rfl ordered.1
  | aborts closes _ _ =>
      refine ⟨ordered.2.2.2, only closes ?_⟩
      intro _
      exact empty_of_justified begun rfl ordered.1

theorem Does.begun (does : Does s e s') (begun : 1 ≤ s.stopIdx) : 1 ≤ s'.stopIdx := by
  cases does with
  | quiet _ _ idx _ =>
      rw [idx]
      exact begun
  | begins _ => exact Nat.le_refl 1
  | stays _ _ => exact begun
  | passes _ _ => exact Nat.succ_pos _
  | aborts _ _ _ => exact Nat.succ_pos _

/-- A run whose commands are in order is one of counted rounds. -/
theorem reach_counted {start : Cluster} {guard : Cluster → Event → Prop} (tally : Tally start)
    (begun : 1 ≤ start.stopIdx) (reached : Machine.Reach step guard start s)
    (ordered : Ordered s.log) : Machine.Reach step Counted start s := by
  induction reached with
  | refl => exact .refl
  | tail earlier _ stepped ih =>
      have known := earlier.invariant (P := fun s => Tally s ∧ 1 ≤ s.stopIdx) ⟨tally, begun⟩
        fun known _ stepped =>
          have does := step_does known.1 stepped
          ⟨does.tally, does.begun known.2⟩
      obtain ⟨before, counted⟩ := (step_does known.1 stepped).counted known.2 ordered
      exact .tail (ih before) counted stepped

section Runs

variable (nodes : List Node) (nodename : Node) (services : Node → List String)

/-- **Ordered shutdown.** For any nodes and services, whatever exits or is launched at whatever time
and whichever calls fail: every stage but the first is begun, and the nodes are aborted, only on
reports that the stages before are empty, if and only if each round that finds no service without a
name finds no service of its stage either. -/
theorem ordered_iff (h : History (fun _ _ => True) (.init nodes nodename services)) :
    Ordered h.1.log ↔ Machine.Reach step Counted (.init nodes nodename services) h.1 := by
  constructor
  · intro ordered
    exact reach_counted nofun (Nat.le_refl 1) h.2 ordered
  · intro reached
    have sound : Sound h.1 := reached.invariant (sound_init nodes nodename services)
      fun sound counted stepped => (step_does sound.tally stepped).sound sound counted
    exact sound.ordered

end Runs

/-- Two rounds of the timer. -/
def twoRounds : List Event := [.stop, .timeOut, .answered, .timeOut, .answered]

/-- On one node with a login service, `host_stop` for the centers is sent while the login service is
there. -/
theorem login_not_awaited : ¬ ∀ (nodes : List Node) (nodename : Node)
    (services : Node → List String)
    (h : History (fun _ _ => True) (.init nodes nodename services)), Ordered h.1.log := by
  intro ordered
  obtain ⟨s, reached, latest⟩ := Machine.exists_of_runs step (fun _ _ => True)
    (.init ["node1"] "node1" fun _ => ["snlua login login 1"]) twoRounds (fun s => s.log.take 2)
    (show _ = some [.hostStop 3 (some "center") ["node1"],
      .round ⟨2, [⟨"node1", ["snlua login login 1"]⟩]⟩] by decide)
  have log : Ordered s.log := ordered _ _ _ ⟨s, reached⟩
  rw [← List.take_append_drop 2 s.log, latest] at log
  have empty : Report.Empty ⟨2, [⟨"node1", ["snlua login login 1"]⟩]⟩ :=
    empty_of_justified (by decide) rfl log.1
  exact absurd empty (by decide)

end RillServer.HostStop
