import ActivityBoard.Proofs.Dashboard.Alike

namespace ActivityBoard.Dashboard

variable {ι : Type} [DecidableEq ι] {d d' : Dashboard ι} {i : ι} {s : Step ι}
  {request other : Option Int} {target : Target} {steps before after : List (Step ι)}

def replies (d : Dashboard ι) : List (Step ι) → List Reply
  | [] => []
  | s :: steps => (d.step s).2 :: (d.step s).1.replies steps

theorem replies_append (d : Dashboard ι) (before after : List (Step ι)) :
    d.replies (before ++ after) = d.replies before ++ (d.run before).replies after := by
  induction before generalizing d with
  | nil => rfl
  | cons s before ih => rw [List.cons_append, replies, replies, ih, List.cons_append, run_cons]

section Waiting

/-- The refresh asks for nothing but this, now or after any wait. -/
def Settled (d : Dashboard ι) (i : ι) (request : Option Int) : Prop :=
  ∀ stage, d.stage? i = some stage → stage = .queued request ∨ ∃ r, stage = .fetching r

theorem Settled.asking (h : d.Settled i request) (ha : d.asking? i = some other) :
    other = request := by
  rcases stage?_of_asking ha with ⟨target, hi, _⟩ | hi
  · rcases h _ hi with he | ⟨r, he⟩ <;> cases he
  · rcases h _ hi with he | ⟨r, he⟩
    · cases he
      rfl
    · cases he

theorem settled_poll (h : ∀ other, d.asking? i = some other → other = request) :
    (d.poll i).1.Settled i request := by
  intro stage hs
  have hp := d.polled_poll i
  generalize d.poll i = p at hp hs
  cases hp with
  | unknown hi =>
    rw [hi] at hs
    cases hs
  | noSample => simp at hs
  | queued request' hi =>
    rw [stage?_enter, if_pos rfl] at hs
    cases hs
    exact .inl (congrArg Stage.queued (h _ hi))
  | started =>
    rw [stage?_advance_self] at hs
    obtain ⟨r, _, rfl⟩ := Option.map_eq_some_iff.1 hs
    exact .inr ⟨r, rfl⟩
  | fetching =>
    rw [stage?_advance_self] at hs
    obtain ⟨r, _, rfl⟩ := Option.map_eq_some_iff.1 hs
    exact .inr ⟨r, rfl⟩

theorem Settled.step (h : d.Settled i request) (hd : ¬ s.Drops i) :
    (d.step s).1.Settled i request := by
  by_cases hp : s = .poll i
  · subst s
    exact settled_poll fun other ha => h.asking ha
  · intro stage hs
    rw [stage?_step hd hp] at hs
    exact h stage hs

theorem Settled.run (h : d.Settled i request) (hk : Keeps steps i) :
    (d.run steps).Settled i request := by
  induction steps generalizing d with
  | nil => exact h
  | cons s steps ih =>
    obtain ⟨hd, hk'⟩ := keeps_cons.1 hk
    exact ih (h.step hd) hk'

/-- From the first poll on a refresh asks for what it asked for then. -/
theorem asking_from_first (h : d.asking? i = some request) {mid rest : List (Step ι)}
    (he : .poll i :: after = mid ++ .poll i :: rest) (hk : Keeps mid i)
    (ha : (d.run mid).asking? i = some other) : other = request := by
  have hfirst : ∀ other, d.asking? i = some other → other = request := by
    intro other ho
    rw [h] at ho
    cases ho
    rfl
  cases mid with
  | nil => exact hfirst _ ha
  | cons s mid =>
    rw [List.cons_append] at he
    cases he
    exact ((settled_poll hfirst).run (keeps_cons.1 hk).2).asking ha

/-- A poll that starts a fetch records what the refresh asks for, and no other poll records any. -/
theorem requests_of_asking (h : ∀ other, d.asking? i = some other → other = request) :
    (d.step (.poll i)).1.requests =
      d.requests ++ if (d.grant? (.poll i)).isSome then [request] else [] := by
  rw [(d.source_step _).1]
  cases hg : d.grant? (.poll i) with
  | none => rfl
  | some p => rw [← h p.2 (grant?_poll_eq_some.1 hg).2.2]; rfl

end Waiting

section Beside

/-- The refresh `i` asks for `request` on the one side and for `other` on the other, and nothing
else sets the two apart: it waits still, or it has asked once, or it was dropped before it could. -/
inductive Apart (i : ι) (request other : Option Int) (d d' : Dashboard ι) : Prop where
  | waiting (alike : Alike (· = i) d d') (hi : d.stage? i = some (.queued request))
      (hi' : d'.stage? i = some (.queued other)) (hr : d'.requests = d.requests)
  | asked (alike : Alike (fun _ => False) d d') (front back : List (Option Int))
      (hr : d.requests = front ++ request :: back) (hr' : d'.requests = front ++ other :: back)
  | dropped (alike : Alike (fun _ => False) d d') (hr : d'.requests = d.requests)

theorem requests_of_grant {p : ι × Option Int} (h : d.grant? s = some p) :
    (d.step s).1.requests = d.requests ++ [p.2] := by
  rw [(d.source_step s).1, h]
  rfl

theorem requests_of_no_grant (h : d.grant? s = none) : (d.step s).1.requests = d.requests := by
  rw [(d.source_step s).1, h, Option.toList_none, List.map_nil, List.append_nil]

theorem grant?_of_drops (hd : s.Drops i) : d.grant? s = none := by
  cases s with
  | poll j => cases hd
  | _ => rfl

theorem stage?_of_not_admitted (h : d.asking? i = some request)
    (hg : ((d.asked i).poll (.refresh i)).2 ≠ .admitted) :
    (d.poll i).1.stage? i = some (.queued request) := by
  rw [poll_of_asking h, approach_of_not_admitted hg, stage?_enter, if_pos rfl]

theorem apart_poll (h : Alike (· = i) d d') (hr : d'.requests = d.requests)
    (hi : d.asking? i = some request) (hi' : d'.asking? i = some other)
    (hg : d'.asked i = d.asked i) :
    Apart i request other (d.step (.poll i)).1 (d'.step (.poll i)).1 ∧
      (d'.step (.poll i)).2 = (d.step (.poll i)).2 := by
  have hp : AnswerAlike (· = i) (d.poll i) (d'.poll i) := by
    rw [poll_of_asking hi, poll_of_asking hi', hg]
    exact (h.setGate _).approach (.inl rfl)
  refine ⟨?_, congrArg Reply.progress hp.2⟩
  by_cases hadm : ((d.asked i).poll (.refresh i)).2 = .admitted
  · have hgrant : d.grant? (.poll i) = some (i, request) :=
      grant?_poll_eq_some.2 ⟨hadm, rfl, hi⟩
    have hgrant' : d'.grant? (.poll i) = some (i, other) :=
      grant?_poll_eq_some.2 ⟨hg ▸ hadm, rfl, hi'⟩
    have hstage : (d'.poll i).1.stage? i = (d.poll i).1.stage? i := by
      rw [stage?_of_grant (Option.isSome_of_eq_some hgrant),
        stage?_of_grant (Option.isSome_of_eq_some hgrant'), h.script]
    have hreq' := requests_of_grant hgrant'
    rw [hr] at hreq'
    exact .asked (hp.1.close hstage) d.requests [] (requests_of_grant hgrant) hreq'
  · have hadm' := hadm
    rw [← hg] at hadm'
    refine .waiting hp.1 (stage?_of_not_admitted hi hadm) (stage?_of_not_admitted hi' hadm') ?_
    rw [requests_of_no_grant (grant?_of_not_admitted hadm),
      requests_of_no_grant (grant?_of_not_admitted hadm'), hr]

theorem Apart.step (h : Apart i request other d d') (s : Step ι) :
    Apart i request other (d.step s).1 (d'.step s).1 ∧ (d'.step s).2 = (d.step s).2 := by
  cases h with
  | waiting h hi hi' hr =>
    by_cases hd : s.Drops i
    · obtain ⟨hstep, hreply⟩ := h.step_of_drops hd (by simp [hi]) (by simp [hi'])
      refine ⟨.dropped hstep ?_, hreply⟩
      rw [requests_of_no_grant (grant?_of_drops hd), requests_of_no_grant (grant?_of_drops hd), hr]
    by_cases hp : s = .poll i
    · subst s
      apply apart_poll h hr (by rw [asking?, hi]) (by rw [asking?, hi'])
      rw [Dashboard.asked, Dashboard.asked, hi, hi', h.gate]
    · have hpass : ∀ j, j = i → s.Passes j := by
        rintro j rfl
        exact ⟨hd, hp⟩
      obtain ⟨hstep, hreply⟩ := h.step hpass
      refine ⟨.waiting hstep ?_ ?_ ?_, hreply⟩
      · rw [stage?_step hd hp, hi]
      · rw [stage?_step hd hp, hi']
      · rw [(d.source_step s).1, (d'.source_step s).1, h.grant?_eq hpass, hr]
  | asked h front back hr hr' =>
    have hpass : ∀ j, False → s.Passes j := fun _ hf => hf.elim
    obtain ⟨hstep, hreply⟩ := h.step hpass
    refine ⟨.asked hstep front (back ++ (d.grant? s).toList.map Prod.snd) ?_ ?_, hreply⟩
    · rw [(d.source_step s).1, hr, List.append_assoc, List.cons_append]
    · rw [(d'.source_step s).1, h.grant?_eq hpass, hr', List.append_assoc, List.cons_append]
  | dropped h hr =>
    have hpass : ∀ j, False → s.Passes j := fun _ hf => hf.elim
    obtain ⟨hstep, hreply⟩ := h.step hpass
    refine ⟨.dropped hstep ?_, hreply⟩
    rw [(d.source_step s).1, (d'.source_step s).1, h.grant?_eq hpass, hr]

theorem Apart.run (h : Apart i request other d d') (steps : List (Step ι)) :
    Apart i request other (d.run steps) (d'.run steps) ∧ d'.replies steps = d.replies steps := by
  induction steps generalizing d d' with
  | nil => exact ⟨h, rfl⟩
  | cons s steps ih =>
    obtain ⟨hstep, hreply⟩ := h.step s
    obtain ⟨hrun, hreplies⟩ := ih hstep
    exact ⟨hrun, by rw [replies, replies, hreply, hreplies]⟩

theorem Alike.run {p : ι → Prop} (h : Alike p d d') (hr : d'.requests = d.requests)
    (hs : ∀ s ∈ steps, ∀ j, p j → s.Passes j) :
    Alike p (d.run steps) (d'.run steps) ∧ (d'.run steps).requests = (d.run steps).requests ∧
      d'.replies steps = d.replies steps := by
  induction steps generalizing d d' with
  | nil => exact ⟨h, hr, rfl⟩
  | cons s steps ih =>
    obtain ⟨hs, hs'⟩ := List.forall_mem_cons.1 hs
    obtain ⟨hstep, hreply⟩ := h.step hs
    have hreq : (d'.step s).1.requests = (d.step s).1.requests := by
      rw [(d.source_step s).1, (d'.source_step s).1, h.grant?_eq hs, hr]
    obtain ⟨hrun, hrequests, hreplies⟩ := ih hstep hreq hs'
    exact ⟨hrun, hrequests, by rw [replies, replies, hreply, hreplies]⟩

theorem stage?_run_of_passes (hs : ∀ s ∈ steps, s.Passes i) :
    (d.run steps).stage? i = d.stage? i := by
  induction steps generalizing d with
  | nil => rfl
  | cons s steps ih =>
    obtain ⟨hs, hs'⟩ := List.forall_mem_cons.1 hs
    rw [run_cons, ih hs', stage?_step hs.1 hs.2]

end Beside

theorem stage?_created (d : Dashboard ι) (i : ι) (target : Target)
    (hs : ∀ s ∈ steps, s.Passes i) :
    (d.run (.create i target :: steps)).stage? i = some (.created target) := by
  rw [run_cons, stage?_run_of_passes hs, step, create, stage?_enter, if_pos rfl]

theorem asking?_of_created (h : d.stage? i = some (.created target)) :
    d.asking? i = target.request? d.lastTimestamp := by
  rw [asking?, h]

/-- Two refreshes that were created for different targets stay alike up to their first poll, and the
poll sets them apart in nothing but what they ask for. -/
theorem apart_of_created (d : Dashboard ι) {target target' : Target}
    (hs : ∀ s ∈ steps, s.Passes i)
    (hr : target.request? (d.run (.create i target :: steps)).lastTimestamp = some request)
    (hr' : ∀ last, target'.request? last = some other) :
    let first := Step.create i target :: steps ++ [.poll i]
    let first' := Step.create i target' :: steps ++ [.poll i]
    Apart i request other (d.run first) (d.run first') ∧ d.replies first' = d.replies first := by
  have hcreate : Alike (· = i) (d.step (.create i target)).1 (d.step (.create i target')).1 :=
    ((Alike.refl _ d).leave i).enter (.inl rfl)
  have hpass : ∀ s ∈ steps, ∀ j, j = i → s.Passes j := by
    rintro s hmem j rfl
    exact hs s hmem
  obtain ⟨halike, hrequests, hreplies⟩ := hcreate.run rfl hpass
  rw [← run_cons, ← run_cons] at halike hrequests
  have hi := stage?_created d i target hs
  have hi' := stage?_created d i target' hs
  have hask := (asking?_of_created hi).trans hr
  have hask' := (asking?_of_created hi').trans (hr' _)
  have hasked : (d.run (.create i target' :: steps)).asked i =
      (d.run (.create i target :: steps)).asked i := by
    rw [asked, asked, hi, hi', halike.gate]
  obtain ⟨hpoll, hreply⟩ := apart_poll halike hrequests hask hask' hasked
  refine ⟨?_, ?_⟩
  · rw [run_concat, run_concat]
    exact hpoll
  · rw [replies_append, replies_append, replies, replies, hreplies]
    exact congrArg (fun reply => Reply.created :: _ ++ [reply]) hreply

theorem Consistent.step_of_noSample (h : d.Consistent) (hi : d.stage? i = some (.created target))
    (hr : target.request? d.lastTimestamp = none) : d.step (.poll i) =
      ({ d with refreshes := d.refreshes.filter fun entry => entry.1 ≠ i },
        .progress (.finished (.error .noSample))) := by
  have hgate : (d.gate.drop (.refresh i)).1 = d.gate := by
    rw [Gate.drop, h.phase?_of_created hi]
  rw [Dashboard.step, poll_of_noSample hi hr, Dashboard.leave, hgate]

/-- A relative refresh at its first poll, after its creation and steps that neither poll nor drop it.

1. If there is no latest board, it ends in that poll for want of a sample. It is forgotten, and
   nothing else changes, whoever has the gate.
2. Otherwise take the time of the latest board and add `delta`. Whatever comes then, each poll until
   it is dropped records this time if it starts the fetch, and records nothing if not.
3. Had it been created for any time `timestamp` instead, then every step of the run, before the
   first poll and after it, would have answered the same, and the dashboard would be the same but
   for the one request, recorded or still to be made. -/
theorem anchored_at_first_poll (settings : Settings) (script : List Response) (i : ι)
    (delta : Int) (before between : List (Step ι)) (hb : ∀ s ∈ between, s.Passes i) :
    let d₀ : Dashboard ι := new settings script
    let created (target : Target) := before ++ .create i target :: between
    let d := d₀.run (created (.relative delta))
    (d.lastTimestamp = none → d.step (.poll i) =
      ({ d with refreshes := d.refreshes.filter fun entry => entry.1 ≠ i },
        .progress (.finished (.error .noSample)))) ∧
    ∀ base, d.lastTimestamp = some base → ∀ after,
      (∀ mid rest, .poll i :: after = mid ++ .poll i :: rest → Keeps mid i →
        ((d.run mid).step (.poll i)).1.requests = (d.run mid).requests ++
          if ((d.run mid).grant? (.poll i)).isSome then [some (base + delta)] else []) ∧
      ∀ timestamp,
        d₀.replies (created (.at timestamp) ++ .poll i :: after) =
          d₀.replies (created (.relative delta) ++ .poll i :: after) ∧
        Apart i (some (base + delta)) timestamp
          (d₀.run (created (.relative delta) ++ .poll i :: after))
          (d₀.run (created (.at timestamp) ++ .poll i :: after)) := by
  intro d₀ created d
  have hd : d = (d₀.run before).run (.create i (.relative delta) :: between) := run_append ..
  have hi : d.stage? i = some (.created (.relative delta)) := by
    rw [hd]
    exact stage?_created (d₀.run before) i _ hb
  refine ⟨fun hl => ?_, fun base hl after => ⟨fun mid rest he hk => ?_, fun timestamp => ?_⟩⟩
  · have h : d.Consistent := (consistent_new settings script).run _
    exact h.step_of_noSample hi (by rw [hl]; rfl)
  · have hask : d.asking? i = some (some (base + delta)) := by
      rw [asking?_of_created hi, hl]
      rfl
    exact requests_of_asking fun other ha => asking_from_first hask he hk ha
  · have hr : (Target.relative delta).request? ((d₀.run before).run
        (.create i (.relative delta) :: between)).lastTimestamp = some (some (base + delta)) := by
      rw [← hd, hl]
      rfl
    have hr' : ∀ last, (Target.at timestamp).request? last = some timestamp := fun _ => rfl
    obtain ⟨hfirst, hreplies⟩ := apart_of_created (d₀.run before) hb hr hr'
    obtain ⟨hrun, hafter⟩ := hfirst.run after
    have hsplit (target : Target) : created target ++ .poll i :: after =
        before ++ ((.create i target :: between ++ [.poll i]) ++ after) := by simp [created]
    have hrunSplit (target : Target) : d₀.run (created target ++ .poll i :: after) =
        ((d₀.run before).run (.create i target :: between ++ [.poll i])).run after := by
      rw [hsplit, run_append, run_append]
    have hreplySplit (target : Target) : d₀.replies (created target ++ .poll i :: after) =
        d₀.replies before ++ ((d₀.run before).replies (.create i target :: between ++ [.poll i]) ++
          ((d₀.run before).run (.create i target :: between ++ [.poll i])).replies after) := by
      rw [hsplit, replies_append, replies_append]
    rw [hreplySplit, hreplySplit, hrunSplit, hrunSplit, hreplies, hafter]
    exact ⟨rfl, hrun⟩

def twoSamples : List Response :=
  [⟨.text "\x7b\"timestamp\":1000\x7d", some 0⟩, ⟨.text "\x7b\"timestamp\":2000\x7d", some 1⟩]

/-- The second sample replaces the first while the relative refresh waits, which still asks for a
minute after the first. -/
theorem anchored_at_first_poll_overtaken :
    let d₀ : Dashboard Nat := new {} twoSamples
    let before : List (Step Nat) := [.create 0 (.at none), .poll 0, .create 1 (.at none), .poll 1]
    let between : List (Step Nat) := [.create 3 (.relative 5)]
    let created (target : Target) := before ++ .create 2 target :: between
    let d := d₀.run (created (.relative 60))
    let after : List (Step Nat) := [.poll 1, .poll 2]
    let last := d₀.run (created (.relative 60) ++ .poll 2 :: after)
    ((∀ s ∈ between, s.Passes 2) ∧ d.lastTimestamp = some 1000) ∧
    last.lastTimestamp = some 2000 ∧ last.requests = [none, none, some 1060] ∧
    ∀ timestamp,
      d₀.replies (created (.at timestamp) ++ .poll 2 :: after) =
        d₀.replies (created (.relative 60) ++ .poll 2 :: after) ∧
      Apart 2 (some (1000 + 60)) timestamp last
        (d₀.run (created (.at timestamp) ++ .poll 2 :: after)) := by
  intro d₀ before between created d after last
  have hb : ∀ s ∈ between, s.Passes 2 := by
    simp [between, Step.Passes, Step.Drops]
  have hl : d.lastTimestamp = some 1000 := by decide +kernel
  have hlast : last.lastTimestamp = some 2000 ∧ last.requests = [none, none, some 1060] := by
    decide +kernel
  obtain ⟨_, hanchored⟩ := anchored_at_first_poll {} twoSamples 2 60 before between hb
  exact ⟨⟨hb, hl⟩, hlast.1, hlast.2, (hanchored 1000 hl after).2⟩

end ActivityBoard.Dashboard
