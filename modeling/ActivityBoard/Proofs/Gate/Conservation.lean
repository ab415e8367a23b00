import ActivityBoard.Proofs.Gate.History
import Mathlib.Data.List.Nodup

namespace ActivityBoard.Gate

variable {ι : Type} {g : Gate ι} {i : ι} {p : Phase → Bool} {x : Channel}

def named (g : Gate ι) (p : Phase → Bool) : List ι :=
  (g.phases.filter fun entry => p entry.2).map Prod.fst

/-- Those who hold the slot. -/
def permits (g : Gate ι) : List ι := g.named fun phase => phase = .holding

/-- Those who queued and whose channel is in this state. -/
def listeners (g : Gate ι) (x : Channel) : List ι :=
  g.named fun
    | .waiting c => g.channel c = x
    | _ => false

/-- Those to whom the slot was sent and who did not take it yet. -/
def handed (g : Gate ι) : List ι := g.listeners .full

/-- Those who wait for the slot. -/
def waiters (g : Gate ι) : List ι := g.listeners .empty

variable [DecidableEq ι]

def channelOf (g : Gate ι) (i : ι) : Nat :=
  match g.phase? i with
  | some (.waiting c) => c
  | _ => 0

theorem channelOf_waiting {c : Nat} (h : g.phase? i = some (.waiting c)) : g.channelOf i = c := by
  rw [channelOf, h]

theorem Linked.mem_named (h : g.Linked) :
    i ∈ g.named p ↔ ∃ phase, g.phase? i = some phase ∧ p phase = true := by
  simp only [named, List.mem_map, List.mem_filter, phase?,
    Named.lookup_eq_some_iff_mem h.names_nodup]
  constructor
  · intro hx
    obtain ⟨⟨j, phase⟩, hm, rfl⟩ := hx
    exact ⟨phase, hm⟩
  · intro hx
    obtain ⟨phase, hm⟩ := hx
    exact ⟨(i, phase), hm, rfl⟩

theorem Linked.nodup_named (h : g.Linked) (p : Phase → Bool) : (g.named p).Nodup :=
  Named.nodup_filter_names h.names_nodup _

theorem Linked.mem_permits (h : g.Linked) : i ∈ g.permits ↔ g.phase? i = some .holding := by
  simp [permits, h.mem_named]

theorem Linked.mem_listeners (h : g.Linked) :
    i ∈ g.listeners x ↔ ∃ c, g.phase? i = some (.waiting c) ∧ g.channel c = x := by
  rw [listeners, h.mem_named]
  constructor
  · intro hx
    obtain ⟨phase, hi, hp⟩ := hx
    cases phase with
    | waiting c => exact ⟨c, hi, by simpa using hp⟩
    | unpolled => cases hp
    | holding => cases hp
  · intro hx
    obtain ⟨c, hi, hc⟩ := hx
    exact ⟨_, hi, by simpa using hc⟩

theorem Linked.nodup_listeners (h : g.Linked) (x : Channel) : (g.listeners x).Nodup :=
  h.nodup_named _

theorem Linked.mem_permits_or_handed (h : g.Linked) :
    i ∈ g.permits ++ g.handed ↔ g.HasSlot i := by
  rw [List.mem_append, h.mem_permits, handed, h.mem_listeners, HasSlot]

theorem Linked.nodup_owners (h : g.Linked) : (g.permits ++ g.handed).Nodup := by
  refine List.nodup_append.2 ⟨h.nodup_named _, h.nodup_listeners _, ?_⟩
  intro i hi j hj he
  subst he
  obtain ⟨c, hc, _⟩ := h.mem_listeners.1 hj
  rw [h.mem_permits.1 hi] at hc
  cases hc

theorem Linked.waiters_perm (h : g.Linked) :
    (g.waiters.map g.channelOf).Perm (g.queue.filter fun c => g.channel c ≠ .closed) := by
  have hnd : (g.waiters.map g.channelOf).Nodup := by
    refine List.Nodup.map_on ?_ (h.nodup_listeners _)
    intro i hi j hj he
    obtain ⟨c, hc, _⟩ := h.mem_listeners.1 hi
    obtain ⟨d, hd, _⟩ := h.mem_listeners.1 hj
    rw [channelOf_waiting hc, channelOf_waiting hd] at he
    exact h.apart i j c hc (he ▸ hd)
  have hnq : g.queue.Nodup := h.ascending.imp Nat.ne_of_lt
  rw [List.perm_ext_iff_of_nodup hnd (hnq.filter _)]
  intro c
  simp only [List.mem_map, List.mem_filter, decide_eq_true_eq]
  constructor
  · intro hx
    obtain ⟨i, hi, rfl⟩ := hx
    obtain ⟨c, hc, he⟩ := h.mem_listeners.1 hi
    rw [channelOf_waiting hc]
    exact ⟨h.queued c he, by simp [he]⟩
  · intro hx
    obtain ⟨hm, hc⟩ := hx
    obtain ⟨i, hi⟩ := h.listened c hc
    have he : g.channel c = .empty := by
      cases hx : g.channel c with
      | empty => rfl
      | full => exact absurd hx (h.unsent c hm)
      | closed => exact absurd hx hc
    exact ⟨i, h.mem_listeners.2 ⟨c, hi, he⟩, channelOf_waiting hi⟩

theorem Linked.pending_eq (h : g.Linked) : g.pending = g.waiters.length := by
  rw [pending, List.countP_eq_length_filter, ← h.waiters_perm.length_eq, List.length_map]

theorem Sound.length_owners (h : g.Sound) :
    (g.permits ++ g.handed).length = if g.busy then 1 else 0 := by
  cases hb : g.busy with
  | true =>
    obtain ⟨i, hi⟩ := h.busy_iff.1 hb
    have hp : (g.permits ++ g.handed).Perm [i] := by
      rw [List.perm_ext_iff_of_nodup h.nodup_owners (List.nodup_singleton i)]
      intro j
      rw [h.mem_permits_or_handed, List.mem_singleton]
      exact ⟨fun hj => h.single j i hj hi, fun hj => hj ▸ hi⟩
    exact hp.length_eq
  | false =>
    have hn : g.permits ++ g.handed = [] := by
      apply List.eq_nil_iff_forall_not_mem.2
      intro i hi
      exact h.not_hasSlot_of_idle hb (h.mem_permits_or_handed.1 hi)
    rw [hn]
    rfl

theorem Sound.waiters_of_idle (h : g.Sound) (hb : g.busy = false) : g.waiters = [] := by
  apply List.eq_nil_iff_forall_not_mem.2
  intro i hi
  obtain ⟨c, hc, _⟩ := h.mem_listeners.1 hi
  rw [h.busy_of_waiting hc] at hb
  cases hb

theorem Linked.mem_handed (h : g.Linked) : i ∈ g.handed ↔
    (∃ c, g.phase? i = some (.waiting c)) ∧ (g.poll i).2 = .admitted := by
  rw [handed, h.mem_listeners, ← exists_and_right]
  refine exists_congr fun c => and_congr_right fun hi => ?_
  have hp := g.polled_poll i
  generalize g.poll i = p at hp
  cases hp <;> simp_all

theorem Linked.mem_waiters (h : g.Linked) : i ∈ g.waiters ↔
    (∃ c, g.phase? i = some (.waiting c)) ∧ i ∉ g.handed := by
  rw [waiters, handed, h.mem_listeners, h.mem_listeners]
  constructor
  · intro hx
    obtain ⟨c, hi, hc⟩ := hx
    refine ⟨⟨c, hi⟩, ?_⟩
    intro hx
    obtain ⟨d, hd, hf⟩ := hx
    rw [hi] at hd
    cases hd
    rw [hc] at hf
    cases hf
  · intro hx
    obtain ⟨⟨c, hi⟩, hn⟩ := hx
    refine ⟨c, hi, ?_⟩
    cases hx : g.channel c with
    | empty => rfl
    | full => exact absurd ⟨c, hi, hx⟩ hn
    | closed => exact absurd hx (h.listening i c hi)

/-- Along every run: at most one request holds the slot or was sent it, the gate is busy exactly
if one does, nobody waits if none does, and those who wait are counted. Who holds the slot, was sent
it or waits for it shows in the replies: the first was admitted; the others were told to wait and
not admitted since, and the next poll would admit exactly those that were sent the slot. -/
theorem slot_conserved (steps : List (Step ι)) :
    let g := idle.run steps
    (g.permits.length + g.handed.length ≤ 1 ∧
      (g.busy = true ↔ g.permits.length + g.handed.length = 1) ∧
      (g.permits.length + g.handed.length = 0 → g.waiters = []) ∧
      g.pending = g.waiters.length) ∧
    (g.permits.Nodup ∧ g.handed.Nodup ∧ g.waiters.Nodup) ∧
    (∀ i, (i ∈ g.permits ↔ Answered steps i .admitted) ∧
      (i ∈ g.handed ↔ Answered steps i .waiting ∧ i ∉ g.permits ∧
        (g.step (.poll i)).2 = .polled .admitted) ∧
      (i ∈ g.waiters ↔ Answered steps i .waiting ∧ i ∉ g.permits ∧ i ∉ g.handed)) ∧
    ((∀ i, ¬ Live steps i) → g.busy = false ∧ g.pending = 0) := by
  intro g
  have h : g.Sound := Sound.idle.run steps
  have hlen := h.length_owners
  rw [List.length_append] at hlen
  have hpermits (i : ι) : i ∈ g.permits ↔ Answered steps i .admitted :=
    h.mem_permits.trans (phase?_run_eq_holding_iff steps i)
  have hwaiting (i : ι) : (∃ c, g.phase? i = some (.waiting c)) ↔
      Answered steps i .waiting ∧ i ∉ g.permits := by
    rw [hpermits]
    exact phase?_run_waiting_iff steps i
  have hidle (hb : g.busy = false) : g.waiters = [] := h.waiters_of_idle hb
  refine ⟨?_, ⟨h.nodup_named _, h.nodup_listeners _, h.nodup_listeners _⟩,
    fun i => ⟨hpermits i, ?_, ?_⟩, fun hl => ?_⟩
  · cases hb : g.busy with
    | true =>
      rw [hb, if_pos rfl] at hlen
      exact ⟨Nat.le_of_eq hlen, by simp [hlen], by simp [hlen], h.pending_eq⟩
    | false =>
      rw [hb, if_neg (by simp)] at hlen
      exact ⟨by omega, by simp [hlen], fun _ => hidle hb, h.pending_eq⟩
  · rw [h.mem_handed, hwaiting, and_assoc]
    simp [Gate.step]
  · rw [h.mem_waiters, hwaiting, and_assoc]
  · have hb : g.busy = false := by
      rw [← Bool.not_eq_true, h.busy_iff]
      intro hx
      obtain ⟨i, hi⟩ := hx
      exact hl i ((phase?_run_ne_none_iff steps i).1 hi.known)
    exact ⟨hb, by rw [h.pending_eq, hidle hb, List.length_nil]⟩

/-- A request that was sent the slot and is dropped before it takes it does not keep it. -/
example : ((idle : Gate Nat).run
    [.create 0, .poll 0, .create 1, .poll 1, .drop 0, .drop 1]).busy = false := by decide

end ActivityBoard.Gate
