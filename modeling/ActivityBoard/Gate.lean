/-!
A gate with one slot. Who asks for the slot while it is taken waits in a queue; when the slot is
given back it is sent to whoever waited longest and is still there, who takes it at the next poll.
-/
namespace ActivityBoard

/-- What the gate and a waiting request share. The slot is sent over it at most once. -/
inductive Channel where
  | empty
  | full
  | closed
deriving DecidableEq

inductive Phase where
  | unpolled
  | waiting (channel : Nat)
  | holding
deriving DecidableEq

structure Gate (ι : Type) where
  busy : Bool
  /-- The channels of those who wait, the oldest first. A closed one stays until its turn comes. -/
  queue : List Nat
  /-- All channels that were ever opened; their numbers are the positions. -/
  channels : List Channel
  phases : List (ι × Phase)

namespace Gate

inductive PollResult where
  | admitted
  | waiting
  | held
  | unknown
deriving DecidableEq

inductive DropResult where
  | released
  | cancelled
  | unknown
deriving DecidableEq

variable {ι : Type} [DecidableEq ι]

def idle : Gate ι := ⟨false, [], [], []⟩

def phase? (g : Gate ι) (i : ι) : Option Phase := g.phases.lookup i

def channel (g : Gate ι) (c : Nat) : Channel := g.channels.getD c .closed

def setChannel (g : Gate ι) (c : Nat) (x : Channel) : Gate ι :=
  { g with channels := g.channels.set c x }

def pending (g : Gate ι) : Nat := g.queue.countP fun c => g.channel c ≠ .closed

def forget (g : Gate ι) (i : ι) : Gate ι :=
  { g with phases := g.phases.filter fun entry => entry.1 ≠ i }

def enter (g : Gate ι) (i : ι) (phase : Phase) : Gate ι :=
  { g with phases := (i, phase) :: (g.forget i).phases }

def enqueue (g : Gate ι) : Gate ι :=
  { g with queue := g.queue ++ [g.channels.length], channels := g.channels ++ [.empty] }

def withdraw (g : Gate ι) (i : ι) (c : Nat) : Gate ι := (g.forget i).setChannel c .closed

def handOver (g : Gate ι) : List Nat → Gate ι
  | [] => { g with busy := false, queue := [] }
  | c :: rest =>
    if g.channel c = .closed then g.handOver rest
    else { g with queue := rest }.setChannel c .full

def release (g : Gate ι) : Gate ι := g.handOver g.queue

/-- Drops a request in any phase. The slot goes on if the request had it, or had been sent it. -/
def drop (g : Gate ι) (i : ι) : Gate ι × DropResult :=
  match g.phase? i with
  | none => (g, .unknown)
  | some .unpolled => (g.forget i, .cancelled)
  | some (.waiting c) =>
    if g.channel c = .full then ((g.withdraw i c).release, .cancelled)
    else (g.withdraw i c, .cancelled)
  | some .holding => ((g.forget i).release, .released)

def create (g : Gate ι) (i : ι) : Gate ι := (g.drop i).1.enter i .unpolled

def poll (g : Gate ι) (i : ι) : Gate ι × PollResult :=
  match g.phase? i with
  | none => (g, .unknown)
  | some .holding => (g, .held)
  | some (.waiting c) =>
    if g.channel c = .full then ((g.withdraw i c).enter i .holding, .admitted)
    else (g, .waiting)
  | some .unpolled =>
    if g.busy then (g.enqueue.enter i (.waiting g.channels.length), .waiting)
    else ({ g with busy := true }.enter i .holding, .admitted)

/-- Polls a request once that is not in the table. It stays there only if it got the slot; else it
is dropped, and its closed channel queues. -/
def tryTake (g : Gate ι) (i : ι) : Gate ι × Bool :=
  if g.busy then (g.enqueue.setChannel g.channels.length .closed, false)
  else ({ g with busy := true }.enter i .holding, true)

inductive Step (ι : Type) where
  | create (name : ι)
  | poll (name : ι)
  | drop (name : ι)
deriving DecidableEq

inductive Reply where
  | created
  | polled (result : PollResult)
  | dropped (result : DropResult)
deriving DecidableEq

def step (g : Gate ι) : Step ι → Gate ι × Reply
  | .create i => (g.create i, .created)
  | .poll i =>
    let (g, result) := g.poll i
    (g, .polled result)
  | .drop i =>
    let (g, result) := g.drop i
    (g, .dropped result)

def run (g : Gate ι) (steps : List (Step ι)) : Gate ι := steps.foldl (fun g s => (g.step s).1) g

end Gate

end ActivityBoard
