import ActivityBoard.Proofs.Board.Sample
import ActivityBoard.Proofs.Dashboard.Grants

namespace ActivityBoard

theorem Board.timestamp_ofSample {sample : Sample} {settings : Settings} {board : Board}
    (h : Board.ofSample sample settings = .ok board) : board.timestamp = sample.timestamp := by
  obtain ⟨_, rfl⟩ := Board.ofSample_eq_ok_iff.1 h
  rfl

namespace Dashboard

variable {ι : Type} {d : Dashboard ι} {i : ι} {s : Step ι}
  {steps : List (Step ι)} {settings : Settings} {script : List Response} {r : Response}
  {board : Board}

/-- The settings in force after some steps. -/
def inForce (settings : Settings) (steps : List (Step ι)) : Settings :=
  steps.foldl (fun settings s => match s with
    | .configure new => new
    | _ => settings) settings

def Progress.board? : Progress → Option Board
  | .finished (.ok board) => some board
  | _ => none

def Reply.completed? : Reply → Option Board
  | .progress answer => answer.board?
  | _ => none

theorem completed?_eq_some {reply : Reply} :
    reply.completed? = some board ↔ reply = .progress (.finished (.ok board)) := by
  constructor
  · intro h
    unfold Reply.completed? Progress.board? at h
    split at h
    · split at h
      · cases h
        rfl
      · cases h
    · cases h
  · intro h
    rw [h]
    rfl

variable [DecidableEq ι]

/-- The step polls a refresh, which ends well with this board. -/
def Completes (d : Dashboard ι) (s : Step ι) (board : Board) : Prop :=
  (d.step s).2 = .progress (.finished (.ok board))

/-- In none of the steps a refresh ends well. -/
def NoneCompletes (d : Dashboard ι) (steps : List (Step ι)) : Prop :=
  ∀ before s after board, steps = before ++ s :: after → ¬ (d.run before).Completes s board

theorem noneCompletes_concat (h : NoneCompletes d steps)
    (hs : ∀ board, ¬ (d.run steps).Completes s board) : NoneCompletes d (steps ++ [s]) := by
  intro before t after board he
  rcases concat_eq_append_cons.1 he with ⟨rfl, rfl, _⟩ | ⟨mid, _, hsteps⟩
  · exact hs board
  · exact h before t mid board hsteps

theorem noneCompletes_nil (d : Dashboard ι) : NoneCompletes d [] := by
  intro before s after board he
  simp at he

theorem latest_advance (d : Dashboard ι) (i : ι) (r : Response) :
    (d.advance i r).1.latest = (d.advance i r).2.board?.or d.latest := by
  have ha := d.advanced_advance i r
  generalize d.advance i r = p at ha
  cases ha with
  | pending => rfl
  | answered =>
    rw [finish]
    cases outcome d.settings r.result with
    | error e => rfl
    | ok board => rfl

theorem latest_poll (d : Dashboard ι) (i : ι) :
    (d.poll i).1.latest = (d.poll i).2.board?.or d.latest := by
  have hp := d.polled_poll i
  generalize d.poll i = p at hp
  cases hp with
  | unknown => rfl
  | noSample => rfl
  | queued => rfl
  | started => exact latest_advance _ i _
  | fetching r => exact d.latest_advance i r

theorem latest_step (d : Dashboard ι) (s : Step ι) :
    (d.step s).1.latest = (d.step s).2.completed?.or d.latest := by
  have hs := d.stepped_step s
  generalize d.step s = p at hs
  cases hs with
  | create => rfl
  | poll i => exact d.latest_poll i
  | cancelled => rfl
  | notCancelled => rfl
  | held => rfl
  | refused => rfl
  | released => rfl
  | notReleased => rfl
  | configure => rfl
  | latest => rfl

theorem latest_of_completes (h : d.Completes s board) : (d.step s).1.latest = some board := by
  rw [latest_step, completed?_eq_some.2 h, Option.some_or]

theorem latest_of_not_completes (h : ∀ board, ¬ d.Completes s board) :
    (d.step s).1.latest = d.latest := by
  have hn : (d.step s).2.completed? = none := by
    rw [Option.eq_none_iff_forall_ne_some]
    exact fun board hb => h board (completed?_eq_some.1 hb)
  rw [latest_step, hn, Option.none_or]

theorem Completes.poll (h : d.Completes s board) :
    ∃ i, s = .poll i ∧ (d.poll i).2 = .finished (.ok board) := by
  have hs := d.stepped_step s
  unfold Completes at h
  generalize d.step s = p at hs h
  cases hs with
  | poll i => exact ⟨i, rfl, Reply.progress.inj h⟩
  | held => cases h
  | refused => cases h
  | create => cases h
  | cancelled => cases h
  | notCancelled => cases h
  | released => cases h
  | notReleased => cases h
  | configure => cases h
  | latest => cases h

/-- After a run the latest board is that of the last refresh that ended well. -/
theorem latest_run (d : Dashboard ι) (steps : List (Step ι)) :
    NoneCompletes d steps ∧ (d.run steps).latest = d.latest ∨
    ∃ before i after board, steps = before ++ .poll i :: after ∧
      (d.run before).Completes (.poll i) board ∧
        NoneCompletes (d.run (before ++ [.poll i])) after ∧
          (d.run steps).latest = some board := by
  induction steps using List.reverseRecOn with
  | nil => exact .inl ⟨noneCompletes_nil d, rfl⟩
  | append_singleton steps s ih =>
    rw [run_concat]
    by_cases hs : ∃ board, (d.run steps).Completes s board
    · obtain ⟨board, hc⟩ := hs
      obtain ⟨i, rfl, _⟩ := hc.poll
      exact .inr ⟨steps, i, [], board, rfl, hc, noneCompletes_nil _, latest_of_completes hc⟩
    · have hn := not_exists.1 hs
      rw [latest_of_not_completes hn]
      rcases ih with ⟨hnone, hlatest⟩ | ⟨before, i, after, board, rfl, hc, hnone, hlatest⟩
      · exact .inl ⟨noneCompletes_concat hnone hn, hlatest⟩
      · rw [run_append_cons] at hn
        exact .inr ⟨before, i, after ++ [s], board, by simp, hc,
          noneCompletes_concat hnone hn, hlatest⟩

theorem settings_advance (d : Dashboard ι) (i : ι) (r : Response) :
    (d.advance i r).1.settings = d.settings := by
  have ha := d.advanced_advance i r
  generalize d.advance i r = p at ha
  cases ha with
  | pending => rfl
  | answered => rfl

theorem settings_poll (d : Dashboard ι) (i : ι) : (d.poll i).1.settings = d.settings := by
  have hp := d.polled_poll i
  generalize d.poll i = p at hp
  cases hp with
  | unknown => rfl
  | noSample => rfl
  | queued => rfl
  | started => exact settings_advance _ i _
  | fetching r => exact d.settings_advance i r

theorem settings_step (d : Dashboard ι) (s : Step ι) :
    (d.step s).1.settings = inForce d.settings [s] := by
  have hs := d.stepped_step s
  generalize d.step s = p at hs
  cases hs with
  | create => rfl
  | poll i => exact d.settings_poll i
  | cancelled => rfl
  | notCancelled => rfl
  | held => rfl
  | refused => rfl
  | released => rfl
  | notReleased => rfl
  | configure => rfl
  | latest => rfl

theorem settings_run (d : Dashboard ι) (steps : List (Step ι)) :
    (d.run steps).settings = inForce d.settings steps := by
  induction steps generalizing d with
  | nil => rfl
  | cons s steps ih =>
    rw [run_cons, ih, settings_step]
    rfl

theorem outcome_of_reply {result : Except RefreshError Board} {k : Nat}
    (h : reply settings r k = .finished result) : result = outcome settings r.result := by
  unfold reply at h
  split at h
  · cases h
  · cases h
  · cases h
    rfl

theorem outcome_eq_ok {result : Fetched} (h : outcome settings result = .ok board) :
    ∃ text sample, result = .text text ∧ Sample.ofText text = .ok sample ∧
      Board.ofSample sample settings = .ok board := by
  cases result with
  | failed e => cases h
  | text text =>
    rw [outcome] at h
    cases hb : Board.ofText text settings with
    | error e => simp [hb] at h
    | ok board' =>
      rw [hb] at h
      cases h
      obtain ⟨sample, hsample, hboard⟩ := Board.ofText_eq_ok hb
      exact ⟨text, sample, rfl, hsample, hboard⟩

theorem completes_of_granted
    (h : ((new settings script).run steps).Completes (.poll i) board) :
    ∃ n k r text sample, Granted (new settings script) (steps ++ [.poll i]) i n k ∧
      script[n]? = some r ∧ r.result = .text text ∧ Sample.ofText text = .ok sample ∧
        Board.ofSample sample (inForce settings steps) = .ok board := by
  have hr : (((new settings script).run steps).poll i).2 = .finished (.ok board) :=
    Reply.progress.inj h
  rcases granted_of_finished hr with ⟨_, _, _, he⟩ | ⟨n, k, hg⟩
  · cases he
  · rw [reply_of_granted hg, settings_run] at hr
    obtain ⟨text, sample, ht, hs, hb⟩ := outcome_eq_ok (outcome_of_reply hr).symm
    have hn : ∃ r, script[n]? = some r ∧ r.result = .text text := by
      change (script.getD n exhausted).result = _ at ht
      rw [List.getD_eq_getElem?_getD] at ht
      cases hr : script[n]? with
      | none =>
        rw [hr] at ht
        cases ht
      | some r =>
        rw [hr] at ht
        exact ⟨r, rfl, ht⟩
    obtain ⟨r, hr, ht⟩ := hn
    exact ⟨n, k, r, text, sample, hg, hr, ht, hs, hb⟩

/-- Along every run from a new dashboard: without a refresh that ended well there is no latest
board. Else the latest board, with its time, is the one made of the text that the last of them was
answered, under the settings in force at the poll that ended it. No other step writes it: neither a
refresh that fails or is dropped nor new settings do. -/
theorem latest_of_completed (settings : Settings) (script : List Response)
    (steps : List (Step ι)) :
    let d₀ : Dashboard ι := new settings script
    let d := d₀.run steps
    (NoneCompletes d₀ steps ∧ d.latest = none ∧ d.lastTimestamp = none ∨
      ∃ before i after board, steps = before ++ .poll i :: after ∧
        (d₀.run before).Completes (.poll i) board ∧
        NoneCompletes (d₀.run (before ++ [.poll i])) after ∧
        (∃ n k r text sample, Granted d₀ (before ++ [.poll i]) i n k ∧ script[n]? = some r ∧
          r.result = .text text ∧ Sample.ofText text = .ok sample ∧
          Board.ofSample sample (inForce settings before) = .ok board ∧
          d.lastTimestamp = some sample.timestamp) ∧
        d.latest = some board) ∧
    ∀ s, (∀ board, ¬ d.Completes s board) →
      (d.step s).1.latest = d.latest ∧ (d.step s).1.lastTimestamp = d.lastTimestamp := by
  intro d₀ d
  refine ⟨?_, fun s hs => ?_⟩
  · rcases d₀.latest_run steps with ⟨hn, hl⟩ | ⟨before, i, after, board, he, hc, hn, hl⟩
    · exact .inl ⟨hn, hl, congrArg (Option.map Board.timestamp) hl⟩
    · obtain ⟨n, k, r, text, sample, hg, hr, ht, hs, hb⟩ := completes_of_granted hc
      have htime : d.lastTimestamp = some sample.timestamp := by
        rw [lastTimestamp, hl, Option.map_some, Board.timestamp_ofSample hb]
      exact .inr ⟨before, i, after, board, he, hc, hn,
        ⟨n, k, r, text, sample, hg, hr, ht, hs, hb, htime⟩, hl⟩
  · have hl := latest_of_not_completes hs
    exact ⟨hl, congrArg (Option.map Board.timestamp) hl⟩

-- The first refresh ends well at its second poll; the next one asks for a later time, and fails.
example :
    let text : Fetched := .text "\x7b\"timestamp\":7\x7d"
    let d : Dashboard Nat := new {} [⟨text, some 1⟩, ⟨.failed .unreadable, some 0⟩]
    let fetching := d.run [.create 0 (.at none), .poll 0]
    let done := fetching.run [.poll 0]
    let failed := done.run [.create 1 (.relative 5), .poll 1]
    fetching.lastTimestamp = none ∧ done.lastTimestamp = some 7 ∧
      done.latest.map Board.date = some "1970-01-01 00:00:07" ∧
      failed.lastTimestamp = some 7 ∧ failed.requests = [none, some 12] := by
  decide +kernel

end Dashboard

end ActivityBoard
